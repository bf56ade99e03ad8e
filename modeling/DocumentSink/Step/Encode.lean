import DocumentSink.Definition.Wide
import DocumentSink.Step.Markup

/-!
Definitions as markup, whatever their texts are. Each text is checked when its element is made, so
the first that cannot be written is the fault. A password is concealed first, for which it must have
octets; one that refers to variables is checked as it is.
-/

namespace DocumentSink

namespace Password

/-- The stored form of a text; a surrogate in it has no octets. -/
def storeWide (password : Wide) : Except Wide.Fault Wide :=
  if Variables.hasReferencesIn password then .ok password
  else (fun s => .ofString (conceal (.ofList s))) <$> password.chars

end Password

namespace WideDefinition

/-- What is written for an option. -/
def optionText (d : WideDefinition) : WriteOption → Except Wide.Fault Wide
  | .text .password => Password.storeWide (d.text .password)
  | .text o => .ok (d.text o)
  | .flag o => .ok (flagToken (d.flag o))

end WideDefinition

def WideMapping.fieldText (m : WideMapping) : FieldPart → Wide
  | .incomingName => m.incomingName
  | .documentPath => m.documentPath
  | .useIncomingName => flagToken m.useIncomingName
  | .isMatchKey => flagToken m.isMatchKey
  | .operator => m.operator.token
  | .policy => m.policy.token
  | .isFragment => flagToken m.isFragment

def WideIndex.indexText (i : WideIndex) : IndexPart → Wide
  | .fieldSpec => i.fieldSpec
  | .drop => flagToken i.drop
  | .unique => flagToken i.unique
  | .sparse => flagToken i.sparse

/-- Whether a text is empty, so that it may be left out. -/
def isBlankText : Except Wide.Fault Wide → Bool
  | .ok s => s.isEmpty
  | .error _ => false

def WideDefinition.content (d : WideDefinition) : Content (Except Wide.Fault Wide) where
  options := Step.optionsOf isBlankText d.optionText
  fields := d.mappings.map fun m => FieldPart.all.map fun p => (p.code, .ok (m.fieldText p))
  indexes := d.indexes.map fun i => IndexPart.all.map fun p => (p.code, .ok (i.indexText p))

/-- Markup carries all characters that it has a form for, and no surrogate. -/
def CodePoint.isCarried : CodePoint → Bool
  | char c => Xml.isChar c
  | surrogate _ => false

namespace Markup

/-- Why a definition is not written: a text that markup cannot carry, by its tag and the first such
code point, or a password without octets. -/
inductive EncodeFault
  | refused (tag : String) (c : CodePoint)
  | notUnicode (fault : Wide.Fault)
  deriving DecidableEq, Repr

def EncodeFault.message : EncodeFault → String
  | refused tag c =>
    "Cannot save configuration as markup: <" ++ tag ++ "> holds character " ++ Wide.quote [c]
      ++ " that XML cannot represent"
  | notUnicode fault => fault.message

def encodeLeaf (p : String × Except Wide.Fault Wide) : Except EncodeFault Xml.Element :=
  match p.2 with
  | .error fault => .error (.notUnicode fault)
  | .ok s =>
    match s.find? (!·.isCarried) with
    | some c => .error (.refused p.1 c)
    | none => .ok (.leaf p.1 (.ofList (s.filterMap CodePoint.char?)))

def encode (d : WideDefinition) : Except EncodeFault String :=
  (fun e => .ofList (Xml.write 0 e)) <$> ofContent encodeLeaf d.content

end Markup

end DocumentSink
