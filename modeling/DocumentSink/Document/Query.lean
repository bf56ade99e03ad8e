import DocumentSink.Document.Insert

/-!
Queries and update bodies from rows. Both have dotted paths as keys, and of two fields with one path
the later counts. A query has the match keys; an update body has the other fields by operator, as
far as they apply to its branch.
-/

namespace DocumentSink

namespace FieldPlan

/-- The fields that have a value in a row, with that value. -/
def active (row : Row) (ps : List FieldPlan) : List (FieldPlan × Value) :=
  ps.filterMap fun p => (p.value? row).map (p, ·)

/-- The dotted path of the keys that are left in the current row. -/
def dottedLeft (p : FieldPlan) : Except PathFault String := Text.joinWith '.' <$> p.keysLeft

/-- The values to place for fields that have one, each with its field and its dotted path. -/
def entries (row : Row) (ps : List FieldPlan) :
    Except MappingFault (List (FieldPlan × String × Value)) :=
  (active row ps).mapM fun (p, v) => do
    let v ← p.placed v
    return (p, ← p.dottedLeft.mapError .cursor, v)

end FieldPlan

namespace Plan

def matchQuery (plan : Plan) (row : Row) : Outcome Value :=
  let plan := plan.startRow
  { plan, row
    answer := do
      let entries ← FieldPlan.entries row plan.matchFields
      return .object (entries.foldl (fun r (_, key, v) => Record.put key v r) []) }

def addUpdate (groups : Record (Record Value)) (operator : Operator) (key : String) (v : Value) :
    Record (Record Value) :=
  groups.put operator.token (((groups.get? operator.token).getD []).put key v)

/-- The update of a row's document, for the insert or the update branch. -/
def modifierUpdate (plan : Plan) (row : Row) (isInsert : Bool) : Outcome Value :=
  if !plan.modifierMode then { plan, row, answer := .error .notModifierMode }
  else
    let plan := plan.startRow
    { plan, row
      answer := do
        let entries ← FieldPlan.entries row
          (plan.fields.filter fun p => p.mapping.applies plan.modifierMode isInsert)
        let groups := entries.foldl (fun groups (p, key, v) =>
          addUpdate groups (p.mapping.effectiveOperator plan.modifierMode) key v) []
        return .object (groups.map fun (token, group) => (token, .object group)) }

end Plan

end DocumentSink
