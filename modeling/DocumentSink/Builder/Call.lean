import DocumentSink.Builder

/-!
Runs of calls on a builder and on the definitions that it has built. A run goes on behind a call
that fails.
-/

namespace DocumentSink

/-- A builder with the definitions that it has built so far, in order. -/
structure Workshop where
  builder : Builder
  built : List Built := []

/-- A call on the builder, or one on a definition and one of its mappings, both by position. -/
inductive WorkshopCall
  | add (call : BuilderCall)
  | build
  | assignMapping (definition position : Nat) (name : String) (value : Value)
  | removeMapping (definition position : Nat)

inductive WorkshopAnswer
  | done
  | definition (d : Definition)
  /-- All definitions, as they are behind an edit. -/
  | definitions (ds : List Definition)
  deriving DecidableEq, Repr

namespace Workshop

def start (dbName collection : Value) : Workshop := { builder := .start dbName collection }

def definitions (w : Workshop) : List Definition := w.built.map (·.definition w.builder)

/-- The number that the builder has for a mapping of a definition. -/
def mappingAt? (w : Workshop) (k n : Nat) : Option Nat := w.built[k]?.bind (·.mappings[n]?)

def assignMapping (w : Workshop) (k n : Nat) (name : String) (v : Value) : Workshop :=
  match w.mappingAt? k n with
  | some m => { w with builder := w.builder.assignMapping m name v }
  | none => w

def removeMapping (w : Workshop) (k n : Nat) : Workshop :=
  { w with built := w.built.modify k (·.removeMapping n) }

section Calls

variable (rules : Validation)

/-- What there is behind a call, and the answer to it. -/
def call (w : Workshop) :
    WorkshopCall → Workshop × Except (BuilderFault rules.Refusal) WorkshopAnswer
  | .add c =>
    let (b, done) := w.builder.call rules c
    ({ w with builder := b }, (fun _ => .done) <$> done)
  | .build =>
    match w.builder.build rules with
    | .ok d => ({ w with built := w.built ++ [d] }, .ok (.definition (d.definition w.builder)))
    | .error fault => (w, .error fault)
  | .assignMapping k n name v =>
    let w := w.assignMapping k n name v
    (w, .ok (.definitions w.definitions))
  | .removeMapping k n =>
    let w := w.removeMapping k n
    (w, .ok (.definitions w.definitions))

/-- Calls one after another, and the answer to each. -/
def run (w : Workshop) : List WorkshopCall →
    Workshop × List (Except (BuilderFault rules.Refusal) WorkshopAnswer)
  | [] => (w, [])
  | c :: cs =>
    let (w, a) := w.call rules c
    let (w, as) := run w cs
    (w, a :: as)

end Calls

end Workshop

end DocumentSink
