import DocumentSink.Xml.Entity

/-!
What stands before the content of a document: the document type with its declarations, comments and
processing instructions. The words of a declaration come first, then its grammar as patterns on
words. What a declaration says counts until one is met that cannot be looked up.
-/

namespace DocumentSink.Xml

inductive Word
  | name (s : List Char)
  | qualified (s : List Char)
  | characters
  | repeated
  | keyword (s : List Char)
  | literal (s : List Char)
  | percent
  | parameter
  | declare (s : List Char)
  | finish
  | openSubset
  | closeSubset
  | openGroup
  | closeGroup
  | closeMixed
  | closeRepeated
  | comma
  | bar
  | aside
  deriving DecidableEq, Repr

def before (s : List Char) (marks : List Char) : Bool :=
  match s with
  | c :: _ => isSpace c || marks.contains c
  | [] => false

/-- A name or another word of name characters, with a mark of repetition or none behind it. -/
def takeWord (s : List Char) : Option (Word × List Char) :=
  let (word, r) := s.span fun c => isNameChar c || c == ':'
  let plain : Word :=
    if !(word.head?.any isNameStart) then .characters
    else match Text.split ':' word with
      | [_] => .name word
      | [_, label] => if label.isEmpty then .characters else .qualified word
      | _ => .characters
  match r with
  | c :: t =>
    if c == '?' || c == '*' || c == '+' then
      if plain = .characters then none else some (.repeated, t)
    else if before r ['>', ')', ',', '|', '[', '%'] then some (plain, r) else none
  | [] => none

def takeDeclare (s : List Char) : Option (Word × List Char) :=
  let (word, r) := s.span fun c => c.isAlpha || c == '_'
  match r with
  | '%' :: t => if !word.isEmpty && !before t ['%'] then some (.declare word, r) else none
  | r => if !word.isEmpty && before r [] then some (.declare word, r) else none

/-- The word at the front of a text that does not start with white space. -/
def nextWord : List Char → Option (Word × List Char)
  | '<' :: '!' :: '-' :: '-' :: s => ((Word.aside, ·)) <$> afterComment s
  | '<' :: '!' :: s => takeDeclare s
  | '<' :: '?' :: s => ((Word.aside, ·)) <$> afterInstruction s
  | '%' :: s =>
    if before s ['%'] then some (.percent, s)
    else match takeName s with
      | some (_, ';' :: r) => some (.parameter, r)
      | _ => none
  | '#' :: s => do
    let (name, r) ← takeName s
    if before r [')', '>', '%', '|'] then return (.keyword name, r) else none
  | '(' :: s => some (.openGroup, s)
  | ')' :: '*' :: s => some (.closeMixed, s)
  | ')' :: '?' :: s => some (.closeRepeated, s)
  | ')' :: '+' :: s => some (.closeRepeated, s)
  | ')' :: s => if before s ['>', ',', '|', ')'] then some (.closeGroup, s) else none
  | ',' :: s => some (.comma, s)
  | '|' :: s => some (.bar, s)
  | '[' :: s => some (.openSubset, s)
  | ']' :: s => some (.closeSubset, s)
  | '>' :: s => some (.finish, s)
  | c :: s =>
    if c == '"' || c == '\'' then do
      let (text, r) ← Text.cutFirst c s
      if before r ['>', '%', '['] then return (.literal text, r) else none
    else takeWord (c :: s)
  | [] => none

def atElement : List Char → Bool
  | '<' :: c :: _ => isNameStart c
  | _ => false

/-- The words up to the first element, and the text from there on. -/
def prologWords (s : List Char) : Option (List Word × List Char) :=
  match s with
  | [] => none
  | c :: s =>
    if isSpace c then prologWords s
    else if atElement (c :: s) then some ([], c :: s)
    else do
      let (w, r) ← nextWord (c :: s)
      if _h : r.length ≤ s.length then
        let (ws, r) ← prologWords r
        return (w :: ws, r)
      else none
termination_by s.length
decreasing_by all_goals simp only [List.length_cons]; omega

def isPublicId (s : List Char) : Bool :=
  s.all fun c => c.isAlphanum || " \n-'()+,./:=?;!*#@$_%".toList.contains c

/-- What a reference leaves in the text of an entity: a number gives its character, and a name stays
as it is written. `s` is the text from after the ampersand on, `r` what follows the reference. -/
def keptReference (s r : List Char) (p : Piece) : List Char :=
  match s, p with
  | '#' :: _, .data t => t
  | s, _ => '&' :: s.take (s.length - r.length)

/-- The text of an entity as its declaration quotes it. No percent sign stands inside. -/
def entityText (s : List Char) : Option (List Char) :=
  match s with
  | [] => some []
  | '%' :: _ => none
  | '&' :: s =>
    match _h : takeReference s with
    | some (p, r) => (entityText r).map (keptReference s r p ++ ·)
    | none => none
  | c :: s => (entityText s).map (c :: ·)
termination_by s.length
decreasing_by
  · exact Nat.lt_succ_of_lt (behind_of_takeReference _h).length_lt
  · exact Nat.lt_succ_self _

namespace Declarations

/-- Declares an entity; the first declaration of a name counts, and that of a predefined one does
not. -/
def declareEntity (d : Declarations) (name : List Char) (e : Entity) : Declarations :=
  if d.heeded && (predefined? name).isNone && (d.entity? name).isNone then
    { d with entities := (name, e) :: d.entities }
  else d

/-- Declares an attribute; the first declaration counts. -/
def declareAttribute (d : Declarations) (a : Declared) : Declarations :=
  if d.heeded && !d.attributes.any (fun b => b.element = a.element && b.name = a.name) then
    { d with attributes := d.attributes ++ [a] }
  else d

def quotedEntity (d : Declarations) (text : List Char) : Option Entity :=
  if d.heeded then Entity.text <$> entityText text else some .outside

def takeExternal : List Word → Option (List Word)
  | .name ['S', 'Y', 'S', 'T', 'E', 'M'] :: .literal _ :: ws => some ws
  | .name ['P', 'U', 'B', 'L', 'I', 'C'] :: .literal p :: .literal _ :: ws =>
    if isPublicId p then some ws else none
  | _ => none

/-- The rest of the declaration of an entity, after its name. -/
def entityRest (d : Declarations) (name : List Char) : List Word → Option (Declarations × List Word)
  | .literal s :: .finish :: ws => do return (d.declareEntity name (← d.quotedEntity s), ws)
  | ws => do
    match ← takeExternal ws with
    | .finish :: ws => return (d.declareEntity name .outside, ws)
    | .name ['N', 'D', 'A', 'T', 'A'] :: .name _ :: .finish :: ws =>
      return (d.declareEntity name .outside, ws)
    | _ => none

/-- The rest of the declaration of a parameter entity, after its name. -/
def parameterRest (d : Declarations) : List Word → Option (List Word)
  | .literal s :: .finish :: ws => do
    let _ ← d.quotedEntity s
    return ws
  | ws => do
    match ← takeExternal ws with
    | .finish :: ws => return ws
    | _ => none

def notationRest : List Word → Option (List Word)
  | .name ['P', 'U', 'B', 'L', 'I', 'C'] :: .literal p :: .finish :: ws =>
    if isPublicId p then some ws else none
  | ws => do
    match ← takeExternal ws with
    | .finish :: ws => return ws
    | _ => none

/-- The names of mixed content, after the first word. -/
def mixedRest : List Word → Option (List Word)
  | .closeMixed :: ws => some ws
  | .bar :: .name _ :: ws => mixedRest ws
  | .bar :: .qualified _ :: ws => mixedRest ws
  | _ => none

/-- How the parts of a group are connected: not yet known, or by one mark throughout. -/
abbrev Connector := Option Word

mutual
/-- A group from a part on, inside the open groups. -/
def groupPart : List Connector → List Word → Option (List Word)
  | cs, .openGroup :: ws => groupPart (none :: cs) ws
  | cs, .name _ :: ws => groupRest cs ws
  | cs, .qualified _ :: ws => groupRest cs ws
  | cs, .repeated :: ws => groupRest cs ws
  | _, _ => none

def groupRest : List Connector → List Word → Option (List Word)
  | [], ws => some ws
  | c :: cs, w :: ws =>
    if w = .comma || w = .bar then
      if c = none || c = some w then groupPart (some w :: cs) ws else none
    else if w = .closeGroup || w = .closeMixed || w = .closeRepeated then groupRest cs ws
    else none
  | _ :: _, [] => none
end

def elementRest : List Word → Option (List Word)
  | .name ['E', 'M', 'P', 'T', 'Y'] :: .finish :: ws => some ws
  | .name ['A', 'N', 'Y'] :: .finish :: ws => some ws
  | .openGroup :: .keyword ['P', 'C', 'D', 'A', 'T', 'A'] :: .closeGroup :: .finish :: ws => some ws
  | .openGroup :: .keyword ['P', 'C', 'D', 'A', 'T', 'A'] :: ws => do
    match ← mixedRest ws with
    | .finish :: ws => return ws
    | _ => none
  | .openGroup :: ws => do
    match ← groupPart [none] ws with
    | .finish :: ws => return ws
    | _ => none
  | _ => none

/-- Alternatives with bars between them, up to the end of the group. -/
def choices (choice : Word → Bool) : List Word → Option (List Word)
  | w :: .closeGroup :: ws => if choice w then some ws else none
  | w :: .bar :: ws => if choice w then choices choice ws else none
  | _ => none

def isChoice : Word → Bool
  | .name _ => true
  | .qualified _ => true
  | .characters => true
  | _ => false

def isName : Word → Bool
  | .name _ => true
  | _ => false

def wordTypes : List String :=
  ["ID", "IDREF", "IDREFS", "ENTITY", "ENTITIES", "NMTOKEN", "NMTOKENS"]

/-- The type of an attribute: whether its values are words. -/
def attributeType : List Word → Option (Bool × List Word)
  | .name ['C', 'D', 'A', 'T', 'A'] :: ws => some (false, ws)
  | .name ['N', 'O', 'T', 'A', 'T', 'I', 'O', 'N'] :: .openGroup :: ws =>
    ((true, ·)) <$> choices isName ws
  | .openGroup :: ws => ((true, ·)) <$> choices isChoice ws
  | .name s :: ws => if wordTypes.contains (.ofList s) then some (true, ws) else none
  | _ => none

/-- The value of an attribute where it is not written, if it has one. -/
def defaultValue (d : Declarations) (asWords : Bool) (s : List Char) :
    Option (Option (List Char)) :=
  if d.heeded then some <$> (valuePieces s >>= d.value asWords) else some none

def attributeDefault (d : Declarations) (asWords : Bool) :
    List Word → Option (Option (List Char) × List Word)
  | .keyword ['I', 'M', 'P', 'L', 'I', 'E', 'D'] :: ws => some (none, ws)
  | .keyword ['R', 'E', 'Q', 'U', 'I', 'R', 'E', 'D'] :: ws => some (none, ws)
  | .keyword ['F', 'I', 'X', 'E', 'D'] :: .literal s :: ws =>
    ((·, ws)) <$> d.defaultValue asWords s
  | .literal s :: ws => ((·, ws)) <$> d.defaultValue asWords s
  | _ => none

def nameOf? : Word → Option (List Char)
  | .name s => some s
  | .qualified s => some s
  | _ => none

def attributesRest (d : Declarations) (element : List Char) (ws : List Word) :
    Option (Declarations × List Word) :=
  match ws with
  | .finish :: ws => some (d, ws)
  | w :: ws => do
    let name ← nameOf? w
    let (asWords, r) ← attributeType ws
    let (value, r) ← d.attributeDefault asWords r
    if _h : r.length ≤ ws.length then
      attributesRest (d.declareAttribute ⟨element, name, asWords, value⟩) element r
    else none
  | [] => none
termination_by ws.length
decreasing_by simp only [List.length_cons]; omega

/-- One declaration, from its keyword on. -/
def declaration (d : Declarations) : List Char → List Word → Option (Declarations × List Word)
  | ['E', 'N', 'T', 'I', 'T', 'Y'], .percent :: .name _ :: ws => ((d, ·)) <$> d.parameterRest ws
  | ['E', 'N', 'T', 'I', 'T', 'Y'], .name name :: ws => d.entityRest name ws
  | ['E', 'L', 'E', 'M', 'E', 'N', 'T'], w :: ws =>
    if (nameOf? w).isSome then ((d, ·)) <$> elementRest ws else none
  | ['A', 'T', 'T', 'L', 'I', 'S', 'T'], w :: ws => do d.attributesRest (← nameOf? w) ws
  | ['N', 'O', 'T', 'A', 'T', 'I', 'O', 'N'], .name _ :: ws => ((d, ·)) <$> notationRest ws
  | _, _ => none

/-- Past declarations that cannot be looked up, more count only in a standalone document. -/
def pastUnknown (d : Declarations) : Declarations :=
  { d with elsewhere := true, heeded := d.standalone }

/-- The declarations up to the end of the document type. A reference to a parameter entity is not
looked up. -/
def subset (d : Declarations) (ws : List Word) : Option (Declarations × List Word) :=
  match ws with
  | .closeSubset :: .finish :: ws => some (d, ws)
  | .aside :: ws => subset d ws
  | .parameter :: ws => subset d.pastUnknown ws
  | .declare k :: ws => do
    let (d, r) ← d.declaration k ws
    if _h : r.length ≤ ws.length then subset d r else none
  | _ => none
termination_by ws.length
decreasing_by all_goals simp only [List.length_cons]; omega

def doctypeRest (d : Declarations) : List Word → Option (Declarations × List Word)
  | .finish :: ws => some (d, ws)
  | .openSubset :: ws => d.subset ws
  | _ => none

/-- The document type from after its name on, with declarations elsewhere or without. -/
def doctype (d : Declarations) (ws : List Word) : Option (Declarations × List Word) :=
  match takeExternal ws with
  | some ws => doctypeRest { d with elsewhere := true } ws
  | none => d.doctypeRest ws

/-- What stands before the content: at most one document type. -/
def prolog (d : Declarations) : List Word → Option Declarations
  | [] => some d
  | .aside :: ws => prolog d ws
  | .declare ['D', 'O', 'C', 'T', 'Y', 'P', 'E'] :: w :: ws => do
    let _ ← nameOf? w
    let (d, ws) ← d.doctype ws
    if ws.all (· = .aside) then some d else none
  | _ => none

end Declarations

end DocumentSink.Xml
