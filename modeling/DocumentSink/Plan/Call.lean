import DocumentSink.Document.Query

/-!
Runs of calls on a plan and on the cursors of its fields. The plan goes from call to call, also
behind one that fails.
-/

namespace DocumentSink

inductive FieldCall
  | start
  | peek
  | advance
  | remaining
  deriving DecidableEq, Repr

inductive PlanCall
  | startRow
  /-- What is left for the cursor of each field. -/
  | remaining
  | field (number : Nat) (call : FieldCall)
  | insertDocument (row : Row)
  | matchQuery (row : Row)
  | modifierUpdate (row : Row) (isInsert : Bool)
  | mapMany (rows : List Row)

inductive PlanAnswer
  | done
  /-- There is no field of the number. -/
  | noField
  | segment (s : Except PathFault (Option String))
  | segments (ss : Except PathFault (List String))
  | cursors (ss : List (Except PathFault (List String)))
  /-- What comes of a row, and the row as the call leaves it. -/
  | document (answer : Except MappingFault Value) (row : Row)
  | documents (answer : Except MappingFault (List Value))

namespace FieldPlan

def remaining (p : FieldPlan) : Except PathFault (List String) := (·.remaining) <$> p.current

def call (p : FieldPlan) : FieldCall → FieldPlan × PlanAnswer
  | .start => (p.start, .done)
  | .peek => (p, .segment ((·.peek) <$> p.current))
  | .remaining => (p, .segments p.remaining)
  | .advance =>
    match p.advance with
    | .ok (segment, p) => (p, .segment (.ok (some segment)))
    | .error fault => (p, .segment (.error fault))

end FieldPlan

namespace Plan

/-- Calls one field; the others stay as they are. -/
def callField (plan : Plan) (n : Nat) (c : FieldCall) : Plan × PlanAnswer :=
  match plan.fields[n]? with
  | none => (plan, .noField)
  | some p =>
    let (p, a) := p.call c
    ({ plan with fields := plan.fields.set n p }, a)

def call (plan : Plan) : PlanCall → Plan × PlanAnswer
  | .startRow => (plan.startRow, .done)
  | .remaining => (plan, .cursors (plan.fields.map (·.remaining)))
  | .field n c => plan.callField n c
  | .insertDocument row =>
    let o := plan.insertDocument row
    (o.plan, .document o.answer o.row)
  | .matchQuery row =>
    let o := plan.matchQuery row
    (o.plan, .document o.answer o.row)
  | .modifierUpdate row isInsert =>
    let o := plan.modifierUpdate row isInsert
    (o.plan, .document o.answer o.row)
  | .mapMany rows =>
    let (plan, answer) := plan.mapMany rows
    (plan, .documents answer)

/-- Calls one after another, and the answer to each. -/
def run (plan : Plan) : List PlanCall → Plan × List PlanAnswer
  | [] => (plan, [])
  | c :: cs =>
    let (plan, a) := plan.call c
    let (plan, as) := run plan cs
    (plan, a :: as)

end Plan

end DocumentSink
