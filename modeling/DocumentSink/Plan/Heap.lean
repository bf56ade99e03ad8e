import DocumentSink.Definition
import DocumentSink.Plan

/-!
The objects behind definitions and plans. Write options, mappings and walks are objects with a
number; whoever has the number sees every change of the object. A plan refers to the options and
mappings of the definition that it is compiled from, and to walks of its own. A clone of a
definition has the same parts as new objects.
-/

namespace DocumentSink

structure DefinitionRef where
  write : Nat
  mappings : List Nat
  indexes : List IndexSpec

structure FieldRef where
  mapping : Nat
  walk : Nat

structure PlanRef where
  write : Nat
  /-- The mode that was set when the plan was made. -/
  modifierMode : Bool
  fields : List FieldRef
  indexes : List IndexPlan
  vars : Variables

def PlanRef.walks (p : PlanRef) : List Nat := p.fields.map (·.walk)

/-- All objects ever made, by number. None goes away. -/
structure Heap where
  writes : List WriteOptions := []
  mappings : List FieldMapping := []
  walks : List Walk := []

namespace Heap

def write (h : Heap) (n : Nat) : WriteOptions := h.writes[n]?.getD {}

def mapping (h : Heap) (n : Nat) : FieldMapping := h.mappings[n]?.getD {}

def walk (h : Heap) (n : Nat) : Walk := h.walks[n]?.getD default

/-- The definition that is referred to, as its objects are now. -/
def definition (h : Heap) (d : DefinitionRef) : Definition :=
  ⟨h.write d.write, d.mappings.map h.mapping, d.indexes⟩

def field (h : Heap) (f : FieldRef) : FieldPlan := ⟨h.walk f.walk, h.mapping f.mapping⟩

/-- The plan that is referred to, as its objects are now. -/
def plan (h : Heap) (p : PlanRef) : Plan where
  write := h.write p.write
  modifierMode := p.modifierMode
  fields := p.fields.map h.field
  indexes := p.indexes
  vars := p.vars

/-- New objects for the parts of a definition. -/
def allocate (h : Heap) (d : Definition) : Heap × DefinitionRef :=
  ({ h with writes := h.writes ++ [d.write], mappings := h.mappings ++ d.mappings },
    ⟨h.writes.length, List.range' h.mappings.length d.mappings.length, d.indexes⟩)

def clone (h : Heap) (d : DefinitionRef) : Heap × DefinitionRef := h.allocate (h.definition d)

/-- A plan on the objects of a definition, with a new walk for each mapping. -/
def compile (h : Heap) (d : DefinitionRef) (vars : Variables) :
    Except IndexFault (Heap × PlanRef) := do
  let plan ← (h.definition d).compile vars
  return ({ h with walks := h.walks ++ plan.fields.map (·.toWalk) }, {
    write := d.write
    modifierMode := plan.modifierMode
    fields := (d.mappings.zipIdx h.walks.length).map fun (m, n) => ⟨m, n⟩
    indexes := plan.indexes
    vars := plan.vars })

/-- A plan for each of some workers, on a clone of its own. -/
def workerPlans (h : Heap) (d : DefinitionRef) (vars : Variables) :
    (workers : Nat) → Except IndexFault (Heap × List PlanRef)
  | 0 => return (h, [])
  | workers + 1 => do
    let (h, copy) := h.clone d
    let (h, plan) ← h.compile copy vars
    let (h, plans) ← workerPlans h d vars workers
    return (h, plan :: plans)

def setWalks (h : Heap) (ws : List (Nat × Walk)) : Heap :=
  { h with walks := ws.foldl (fun walks (n, w) => walks.set n w) h.walks }

/-- The walks that are referred to, moved to where those of a plan are. -/
def moveTo (h : Heap) (p : PlanRef) (plan : Plan) : Heap :=
  h.setWalks (p.walks.zip (plan.fields.map (·.toWalk)))

def assignMapping (h : Heap) (n : Nat) (name : String) (v : Value) : Heap :=
  { h with mappings := h.mappings.modify n (·.assign name v) }

/-- A new mapping behind those of a definition. -/
def addMapping (h : Heap) (d : DefinitionRef) (m : FieldMapping) : Heap × DefinitionRef :=
  ({ h with mappings := h.mappings ++ [m] },
    { d with mappings := d.mappings ++ [h.mappings.length] })

def assignWrite (h : Heap) (n : Nat) (name : String) (v : Value) : Heap :=
  { h with writes := h.writes.modify n (·.assign name v) }

end Heap

end DocumentSink
