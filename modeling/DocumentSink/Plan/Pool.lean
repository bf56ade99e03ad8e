import DocumentSink.Plan.Call
import DocumentSink.Plan.Heap

/-!
Pools: a definition with the plans that were made from it, and the objects that they refer to. The
plan of a single writer refers to the options and mappings of the definition itself, so an edit
shows in it; each of several workers has the plan of a clone.
-/

namespace DocumentSink

structure Pool where
  heap : Heap
  source : DefinitionRef
  workers : List PlanRef

/-- A call on the plan of a worker, or an edit of the definition. -/
inductive PoolCall
  | plan (worker : Nat) (call : PlanCall)
  | assignMapping (number : Nat) (name : String) (v : Value)
  | addMapping (m : FieldMapping)
  | removeMapping (number : Nat)
  | assignWrite (name : String) (v : Value)

namespace Pool

/-- The definition, as it is now. -/
def definition (p : Pool) : Definition := p.heap.definition p.source

/-- The plans of the workers, as they are now. -/
def plans (p : Pool) : List Plan := p.workers.map p.heap.plan

/-- One plan, which refers to the definition itself. -/
def single (d : Definition) (vars : Variables) : Except IndexFault Pool := do
  let (h, source) := Heap.allocate {} d
  let (h, plan) ← h.compile source vars
  return ⟨h, source, [plan]⟩

/-- A plan for each of some workers, made from a clone. -/
def ofWorkers (d : Definition) (workers : Nat) (vars : Variables) : Except IndexFault Pool := do
  let (h, source) := Heap.allocate {} d
  let (h, plans) ← h.workerPlans source vars workers
  return ⟨h, source, plans⟩

/-- Calls one plan. A worker without a plan answers nothing. -/
def callPlan (p : Pool) (worker : Nat) (c : PlanCall) : Pool × Option PlanAnswer :=
  match p.workers[worker]? with
  | none => (p, none)
  | some ref =>
    let (plan, a) := (p.heap.plan ref).call c
    ({ p with heap := p.heap.moveTo ref plan }, some a)

/-- Edits a mapping of the definition, if there is one of the number. -/
def assignMapping (p : Pool) (n : Nat) (name : String) (v : Value) : Pool :=
  match p.source.mappings[n]? with
  | none => p
  | some m => { p with heap := p.heap.assignMapping m name v }

def addMapping (p : Pool) (m : FieldMapping) : Pool :=
  let (h, source) := p.heap.addMapping p.source m
  { p with heap := h, source }

def removeMapping (p : Pool) (n : Nat) : Pool :=
  { p with source := { p.source with mappings := p.source.mappings.eraseIdx n } }

def assignWrite (p : Pool) (name : String) (v : Value) : Pool :=
  { p with heap := p.heap.assignWrite p.source.write name v }

def call (p : Pool) : PoolCall → Pool × Option PlanAnswer
  | .plan worker c => p.callPlan worker c
  | .assignMapping n name v => (p.assignMapping n name v, none)
  | .addMapping m => (p.addMapping m, none)
  | .removeMapping n => (p.removeMapping n, none)
  | .assignWrite name v => (p.assignWrite name v, none)

/-- Calls one after another, and the answer to each. -/
def run (p : Pool) : List PoolCall → Pool × List (Option PlanAnswer)
  | [] => (p, [])
  | c :: cs =>
    let (p, a) := p.call c
    let (p, as) := run p cs
    (p, a :: as)

end Pool

end DocumentSink
