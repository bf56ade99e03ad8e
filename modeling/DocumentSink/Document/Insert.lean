import DocumentSink.Document.Draft
import DocumentSink.Document.Fragment

/-!
Whole documents from rows. The fields place their values one after another, each walking its cursor
to the end of its path. A fault ends the row where it is: values placed before stay in the objects
of the row, and the cursors stay where they were left.
-/

namespace DocumentSink

structure Assembly where
  objects : HeldObjects
  document : Record Draft := []

/-- What a call leaves: the plan with its cursors, the row with what was written into its objects,
and the answer. -/
structure Outcome (α : Type) where
  plan : Plan
  row : Row
  answer : Except MappingFault α

namespace FieldPlan

/-- The keys of the objects on the way to the value, and the key of the value itself, from where the
cursor stands. -/
def route (p : FieldPlan) : Except PathFault (List String × String) := do
  let keys ← p.keysLeft
  match keys.getLast? with
  | some key => return (keys.dropLast, key)
  | none => throw (.exhausted p.segments)

/-- What is placed for a value of the row: an object of the row itself, unless a fragment was read.
-/
def draft (p : FieldPlan) (v : Value) : Except MappingFault Draft :=
  match v with
  | .object _ =>
    if p.mapping.isFragment then Draft.ofValue <$> p.placed v
    else .ok (.held p.mapping.incomingName)
  | v => Draft.ofValue <$> p.placed v

/-- Puts a draft at the end of the keys that are left, with the cursor behind the segments that were
walked. A fault comes with the field as it is left. -/
def put (p : FieldPlan) (a : Assembly) (d : Draft) :
    Except (MappingFault × FieldPlan) (Assembly × FieldPlan) :=
  match p.route with
  | .error fault => .error (.cursor fault, p)
  | .ok (containers, key) =>
    match Draft.put key d a.objects a.document 0 containers with
    | .ok (objects, document) => .ok (⟨objects, document⟩, p.finish)
    | .error b =>
      .error (.blocked p.mapping.incomingName p.mapping.documentPath b.key, p.skip (b.depth + 1))

/-- Places the value that a row holds for a field, if it holds one. -/
def place (p : FieldPlan) (row : Row) (a : Assembly) :
    Except (MappingFault × FieldPlan) (Assembly × FieldPlan) :=
  match p.value? row with
  | none => .ok (a, p)
  | some v =>
    match p.draft v with
    | .error fault => .error (fault, p)
    | .ok d => p.put a d

/-- Places the values of fields in order, up to the first fault. -/
def placeAll (row : Row) (a : Assembly) :
    List FieldPlan → Assembly × List FieldPlan × Option MappingFault
  | [] => (a, [], none)
  | p :: ps =>
    match p.place row a with
    | .error (fault, p) => (a, p :: ps, some fault)
    | .ok (a, p) =>
      let (a, ps, fault) := placeAll row a ps
      (a, p :: ps, fault)

end FieldPlan

namespace Plan

def insertDocument (plan : Plan) (row : Row) : Outcome Value :=
  let plan := plan.startRow
  let (a, fields, fault) := FieldPlan.placeAll row ⟨.ofRow row, []⟩ plan.fields
  { plan := { plan with fields }
    row := a.objects.toRow row
    answer := match fault with
      | some fault => .error fault
      | none => .ok (Draft.read a.objects.value (.object a.document)) }

/-- The documents of rows, up to the first row with a fault. -/
def mapMany (plan : Plan) : List Row → Plan × Except MappingFault (List Value)
  | [] => (plan, .ok [])
  | row :: rows =>
    let o := plan.insertDocument row
    match o.answer with
    | .error fault => (o.plan, .error fault)
    | .ok document =>
      let (plan, rest) := mapMany o.plan rows
      (plan, (document :: ·) <$> rest)

end Plan

end DocumentSink
