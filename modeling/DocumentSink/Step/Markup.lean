import DocumentSink.Step
import DocumentSink.Text.Wide
import DocumentSink.Xml.Encoding
import DocumentSink.Xml.Reader
import DocumentSink.Xml.Writer

/-!
Steps as markup: one element per option, and a group each for fields and indexes. A document holds
its step as root or anywhere below, and of elements with one tag the first counts.
-/

namespace DocumentSink.Markup

def stepTag : String := "step"

def fieldsTag : String := "mongo_fields"

def fieldTag : String := "mongo_field"

def indexesTag : String := "mongo_indexes"

def indexTag : String := "mongo_index"

/-- A text that markup cannot carry: the tag and the first such character. -/
structure WriteFault where
  tag : String
  char : Char
  deriving DecidableEq, Repr

def WriteFault.message (f : WriteFault) : String :=
  "Cannot save configuration as markup: <" ++ f.tag ++ "> holds character "
    ++ Text.quote f.char.toString ++ " that XML cannot represent"

/-- Why no definition is read. What is missing comes with the tag of the element that lacks it. -/
inductive ReadFault
  | malformed
  | notUnicode (fault : Wide.Fault)
  | noStep
  | missing (tag code : String)
  | password (fault : Password.Fault)
  | token (fault : TokenFault)
  deriving DecidableEq, Repr

def ReadFault.detail : ReadFault → String
  | malformed => "malformed XML"
  | notUnicode fault => fault.message
  | noStep => "no <" ++ stepTag ++ "> element found"
  | missing tag code => "<" ++ tag ++ "> is missing required <" ++ code ++ ">"
  | password fault => "cannot restore <" ++ TextOption.password.code ++ ">: " ++ fault.message
  | token fault => fault.message

/-- A negative number behind the mark of concealed passwords is no failure of the configuration, and
neither is a text that has no UTF-8. -/
def ReadFault.kind : ReadFault → FailureKind
  | password .negative => .overflow
  | notUnicode _ => .encoding
  | _ => .configuration

def ReadFault.message : ReadFault → String
  | password .negative => Password.Fault.negative.message
  | notUnicode fault => fault.message
  | fault => "Cannot load configuration from markup: " ++ fault.detail

def leaf (p : String × String) : Except WriteFault Xml.Element :=
  match p.2.toList.find? (!Xml.isChar ·) with
  | some c => .error ⟨p.1, c⟩
  | none => .ok (.leaf p.1 p.2)

section Trees

variable {ε τ : Type} (leaf : String × τ → Except ε Xml.Element)

/-- A group of entries; without entries there is none. -/
def group (tag entryTag : String) (entries : List (Record τ)) : Except ε (List Xml.Element) := do
  let entries ← entries.mapM fun r => return .group entryTag (← r.mapM leaf)
  return if entries.isEmpty then [] else [.group tag entries]

/-- The tree of a content, of which each text becomes a leaf. -/
def ofContent (s : Content τ) : Except ε Xml.Element := do
  let options ← s.options.mapM leaf
  let fields ← group leaf fieldsTag fieldTag s.fields
  let indexes ← group leaf indexesTag indexTag s.indexes
  return .group stepTag (options ++ fields ++ indexes)

end Trees

def write (d : Definition) : Except WriteFault String :=
  (fun e => .ofList (Xml.write 0 e)) <$> ofContent leaf (Step.ofDefinition d)

/-- The text of the first child with a tag, empty if there is none. -/
def textIn (e : Xml.Element) (tag : String) : String := (e.childText? tag).getD ""

def flagIn (e : Xml.Element) (tag : String) : Bool := readFlag false (e.childText? tag)

/-- The text of a child that has to be there. -/
def required (tag : String) (e : Xml.Element) (code : String) : Except ReadFault String :=
  match e.childText? code with
  | some s => .ok s
  | none => .error (.missing tag code)

def requiredFlag (step : Xml.Element) (o : FlagOption) : Except ReadFault Bool :=
  return readFlag false (some (← required stepTag step o.code))

def decodeOptions (step : Xml.Element) : Except ReadFault WriteOptions := do
  let truncate ← requiredFlag step .truncate
  let upsert ← requiredFlag step .upsert
  let multi ← requiredFlag step .multi
  let modifierUpdate ← requiredFlag step .modifierUpdate
  let password ← (Password.restore (textIn step TextOption.password.code)).mapError .password
  return {
    hostnames := textIn step TextOption.hostnames.code
    port := textIn step TextOption.port.code
    useAllReplicaMembers := flagIn step FlagOption.useAllReplicaMembers.code
    username := textIn step TextOption.username.code
    password
    dbName := textIn step TextOption.dbName.code
    collection := textIn step TextOption.collection.code
    batchInsertSize := textIn step TextOption.batchInsertSize.code
    connectTimeout := textIn step TextOption.connectTimeout.code
    socketTimeout := textIn step TextOption.socketTimeout.code
    readPreference := textIn step TextOption.readPreference.code
    writeConcern := textIn step TextOption.writeConcern.code
    wTimeout := textIn step TextOption.wTimeout.code
    journal := flagIn step FlagOption.journal.code
    truncate, upsert, multi, modifierUpdate
    writeRetries := Step.orDefault (textIn step TextOption.writeRetries.code) "5"
    writeRetryDelay := Step.orDefault (textIn step TextOption.writeRetryDelay.code) "10" }

def decodeField (entry : Xml.Element) : Except ReadFault FieldMapping := do
  let operator ← (Operator.ofToken (textIn entry FieldPart.operator.code)).mapError .token
  let policy ← (ApplyPolicy.ofToken (textIn entry FieldPart.policy.code)).mapError .token
  let incomingName ← required fieldTag entry FieldPart.incomingName.code
  return {
    incomingName
    documentPath := textIn entry FieldPart.documentPath.code
    useIncomingName := flagIn entry FieldPart.useIncomingName.code
    isMatchKey := flagIn entry FieldPart.isMatchKey.code
    operator, policy
    isFragment := flagIn entry FieldPart.isFragment.code }

def decodeIndex (entry : Xml.Element) : Except ReadFault IndexSpec := do
  let fieldSpec ← required indexTag entry IndexPart.fieldSpec.code
  return {
    fieldSpec
    drop := flagIn entry IndexPart.drop.code
    unique := flagIn entry IndexPart.unique.code
    sparse := flagIn entry IndexPart.sparse.code }

/-- The entries of the first group with a tag; a group that is missing has none. -/
def entriesOf (tag entryTag : String) (e : Xml.Element) : List Xml.Element :=
  ((e.child? tag).map (·.childrenWith entryTag)).getD []

def decodeStep (step : Xml.Element) : Except ReadFault Definition := do
  let write ← decodeOptions step
  let mappings ← (entriesOf fieldsTag fieldTag step).mapM decodeField
  let indexes ← (entriesOf indexesTag indexTag step).mapM decodeIndex
  return { write, mappings, indexes }

/-- The definition in a document, of its first step. -/
def decodeRoot (root : Xml.Element) : Except ReadFault Definition :=
  match root.find? stepTag with
  | none => .error .noStep
  | some e => decodeStep e

/-- The definition in a document that is given by its characters. -/
def read (text : String) : Except ReadFault Definition :=
  match Xml.read text.toList with
  | none => .error .malformed
  | some root => decodeRoot root

/-- The document in a text, read in the encoding that its first octets show. -/
def document (text : Wide) : Except ReadFault Xml.Element := do
  let chars ← text.chars.mapError .notUnicode
  match Xml.characters? chars >>= Xml.read with
  | none => throw .malformed
  | some root => return root

def decode (text : Wide) : Except ReadFault Definition := do decodeRoot (← document text)

end DocumentSink.Markup
