import DocumentSink.Text.Blank
import DocumentSink.Text.Split
import DocumentSink.Variables

/-!
Indexes of a collection. An index is specified by terms with commas between them; a term is a path
with a direction behind a colon, or a path alone, which is ascending. Empty terms are skipped.
-/

namespace DocumentSink

inductive Direction
  | ascending
  | descending
  deriving DecidableEq, Repr

def Direction.toInt : Direction → Int
  | .ascending => 1
  | .descending => -1

structure IndexTerm where
  path : String
  direction : Direction := .ascending
  deriving DecidableEq, Repr

structure IndexSpec where
  fieldSpec : String := ""
  drop : Bool := false
  unique : Bool := false
  sparse : Bool := false
  deriving DecidableEq, Repr, Inhabited

inductive IndexFault
  | noPath (spec term : String)
  | badDirection (spec direction : String)
  | noTerms (spec : String)
  deriving DecidableEq, Repr

namespace IndexFault

def spec : IndexFault → String
  | noPath spec _ => spec
  | badDirection spec _ => spec
  | noTerms spec => spec

def detail : IndexFault → String
  | noPath _ term => "term '" ++ term ++ "' has no path"
  | badDirection _ direction => "direction '" ++ direction ++ "' is not 1 or -1"
  | noTerms _ => "no index terms"

def message (f : IndexFault) : String := "Invalid index spec '" ++ f.spec ++ "': " ++ f.detail

end IndexFault

namespace IndexTerm

/-- The direction that a text without blanks around it denotes: any numeral of one or minus one. -/
def direction? (s : List Char) : Option Direction :=
  match Numeral.decimal? s with
  | some 1 => some .ascending
  | some (-1) => some .descending
  | _ => none

/-- The term that a part of a specification writes; an empty part writes none. -/
def ofPart (spec : String) (part : List Char) : Except IndexFault (Option IndexTerm) :=
  let part := Text.trim part
  if part.isEmpty then .ok none
  else
    let (path, direction) := match Text.cutFirst ':' part with
      | some (path, direction) => (path, some (Text.trim direction))
      | none => (part, none)
    let path := Text.trim path
    if path.isEmpty then .error (.noPath spec (.ofList part))
    else match direction with
      | none => .ok (some ⟨.ofList path, .ascending⟩)
      | some s => match direction? s with
        | some d => .ok (some ⟨.ofList path, d⟩)
        | none => .error (.badDirection spec (.ofList s))

/-- The text of a term, with its direction. -/
def written (t : IndexTerm) : String :=
  t.path ++ ":" ++ Numeral.decimalText t.direction.toInt

end IndexTerm

/-- The terms of a specification, in order. A fault shows the specification before substitution. -/
def indexTerms (vars : Variables) (spec : String) : Except IndexFault (List IndexTerm) :=
  List.reduceOption <$> (Text.split ',' (vars.substitute spec).toList).mapM (IndexTerm.ofPart spec)

namespace IndexSpec

def terms (i : IndexSpec) (vars : Variables) : Except IndexFault (List IndexTerm) :=
  indexTerms vars i.fieldSpec

def summary (i : IndexSpec) : String :=
  i.fieldSpec ++ " (unique = " ++ Value.flagText i.unique ++ " sparse = "
    ++ Value.flagText i.sparse ++ ")"

end IndexSpec

end DocumentSink
