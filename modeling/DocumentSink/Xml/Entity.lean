import DocumentSink.Xml.Token

/-!
What is declared before the content: entities, and attributes that an element has though its tag
does not write them. References are replaced by what they stand for. An entity that is open within
itself is refused: references nest at most as deep as there are entities.
-/

namespace DocumentSink.Xml

/-- An entity is a text, or stands outside the document. -/
inductive Entity
  | text (s : List Char)
  | outside
  deriving DecidableEq, Repr

/-- An attribute declared for an element: whether it is read as a list of words, and the value that
it has where it is not written. -/
structure Declared where
  element : List Char
  name : List Char
  words : Bool
  value : Option (List Char)
  deriving DecidableEq, Repr

structure Declarations where
  entities : List (List Char × Entity) := []
  attributes : List Declared := []
  /-- Nothing outside the document matters to its content. -/
  standalone : Bool := false
  /-- There are declarations outside the document. -/
  elsewhere : Bool := false
  /-- Declarations still count: none before this one is unknown. -/
  heeded : Bool := true
  deriving DecidableEq, Repr

namespace Declarations

def entity? (d : Declarations) (name : List Char) : Option Entity :=
  (d.entities.find? fun e => e.1 = name).map (·.2)

def depth (d : Declarations) : Nat := d.entities.length

/-- The characters of a piece of a value. White space counts as a space. A name that may be declared
elsewhere stands for nothing. -/
def valueOf (d : Declarations) (inner : List Char → Option (List Char)) :
    Piece → Option (List Char)
  | .char c => some [if isSpace c then ' ' else c]
  | .data s => some s
  | .entity name =>
    match d.entity? name with
    | some (.text s) => inner s
    | some .outside => none
    | none => if d.elsewhere && !d.standalone then some [] else none

def valueAt (d : Declarations) : (depth : Nat) → List Piece → Option (List Char)
  | 0, ps => List.flatten <$> ps.mapM (d.valueOf fun _ => none)
  | depth + 1, ps =>
    List.flatten <$> ps.mapM (d.valueOf fun s => valuePieces s >>= valueAt d depth)

def words (s : List Char) : List Char :=
  Text.join ' ' ((Text.split ' ' s).filter fun word => !word.isEmpty)

def value (d : Declarations) (asWords : Bool) (ps : List Piece) : Option (List Char) :=
  (fun s => if asWords then words s else s) <$> d.valueAt d.depth ps

/-- How many elements are open after tokens; none if more are closed than were open. -/
def openAfter : Nat → List Token → Option Nat
  | n, [] => some n
  | n, .opening _ _ :: ts => openAfter (n + 1) ts
  | n + 1, .closing _ :: ts => openAfter n ts
  | 0, .closing _ :: _ => none
  | n, .text _ :: ts => openAfter n ts

/-- A character that a reference gives does not stand in the text itself. -/
def fromReference : Token → Token
  | .text (.char c) => .text (.data [c])
  | t => t

/-- The tokens that a token stands for. An entity closes the elements that it opens. -/
def tokensOf (d : Declarations) (inner : List Char → Option (List Token)) :
    Token → Option (List Token)
  | .text (.entity name) =>
    match d.entity? name with
    | some (.text s) => do
      let ts ← inner s
      if openAfter 0 ts = some 0 then some (.text (.data []) :: ts.map fromReference) else none
    | _ => none
  | t => some [t]

def expandAt (d : Declarations) : (depth : Nat) → List Token → Option (List Token)
  | 0, ts => List.flatten <$> ts.mapM (d.tokensOf fun _ => none)
  | depth + 1, ts =>
    List.flatten <$> ts.mapM (d.tokensOf fun s => tokens s >>= expandAt d depth)

def expand (d : Declarations) (ts : List Token) : Option (List Token) := d.expandAt d.depth ts

end Declarations

end DocumentSink.Xml
