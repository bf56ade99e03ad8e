import DocumentSink.Definition
import DocumentSink.Path

/-!
Write plans: a definition with its paths compiled and its index terms read. A plan belongs to one
worker, and what changes in it from row to row are the cursors of its fields.
-/

namespace DocumentSink

/-- A mapping with the walk along its path. -/
structure FieldPlan extends Walk where
  mapping : FieldMapping
  deriving DecidableEq, Repr

structure IndexPlan where
  spec : IndexSpec
  terms : List IndexTerm
  deriving DecidableEq, Repr

structure Plan where
  write : WriteOptions
  /-- The mode that was set when the plan was made. -/
  modifierMode : Bool
  fields : List FieldPlan
  indexes : List IndexPlan
  vars : Variables

namespace FieldPlan

def ofMapping (vars : Variables) (m : FieldMapping) : FieldPlan :=
  { Walk.ofPath vars m.documentPath with mapping := m }

/-- The mapping names no key. -/
def inert (p : FieldPlan) : Bool :=
  if p.mapping.useIncomingName then p.mapping.incomingName.isEmpty
  else p.segments.all (·.isEmpty)

/-- The incoming name where it is a key, behind the path. -/
def terminal (p : FieldPlan) : List String :=
  if p.mapping.useIncomingName then [p.mapping.incomingName] else []

/-- All keys on the way to the value, the incoming name among them where it is a key. -/
def keyPath (p : FieldPlan) : List String := p.segments ++ p.terminal

def dotted (p : FieldPlan) : String := Text.joinWith '.' p.keyPath

def start (p : FieldPlan) : FieldPlan := { p with toWalk := p.toWalk.start }

/-- The next segment, and the plan with the cursor behind it. -/
def advance (p : FieldPlan) : Except PathFault (String × FieldPlan) := do
  let (segment, w) ← p.toWalk.advance
  return (segment, { p with toWalk := w })

def skip (p : FieldPlan) (n : Nat) : FieldPlan := { p with toWalk := p.toWalk.skip n }

def finish (p : FieldPlan) : FieldPlan := { p with toWalk := p.toWalk.finish }

/-- The keys that are left in the current row: those of the segments that the cursor has not passed,
and the terminal one. -/
def keysLeft (p : FieldPlan) : Except PathFault (List String) :=
  return (← p.current).remaining ++ p.terminal

end FieldPlan

namespace Definition

/-- The plan of a definition. It exists where every index can be read. -/
def compile (d : Definition) (vars : Variables) : Except IndexFault Plan := do
  let indexes ← d.indexes.mapM fun spec => return ⟨spec, ← spec.terms vars⟩
  return {
    write := d.write
    modifierMode := d.write.modifierUpdate
    fields := d.mappings.map (FieldPlan.ofMapping vars)
    indexes := indexes
    vars }

end Definition

namespace Plan

def startRow (p : Plan) : Plan := { p with fields := p.fields.map (·.start) }

def mappings (p : Plan) : List FieldMapping := p.fields.map (·.mapping)

def matchFields (p : Plan) : List FieldPlan :=
  p.fields.filter fun f => f.mapping.isMatchKey && !f.inert

def needsLookup (p : Plan) : Bool := DocumentSink.needsLookup p.modifierMode p.mappings

end Plan

end DocumentSink
