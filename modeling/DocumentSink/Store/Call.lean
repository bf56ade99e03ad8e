import DocumentSink.Store.Attributes

/-!
Runs of calls that change an attribute store. A refused call leaves the store as it is, and the run
goes on behind it.
-/

namespace DocumentSink

inductive StoreCall
  | put (key : AttributeKey) (v : AttributeValue)
  | delete (step : String)
  deriving DecidableEq, Repr

namespace StoreCall

/-- The integers that a table has to take for a call. -/
def ints : StoreCall → List Int
  | put k v => k.number :: AttributeStore.intsOf v
  | delete _ => []

end StoreCall

namespace AttributeStore

def attempt (s : AttributeStore) : StoreCall → Except StoreFault AttributeStore
  | .put k v => s.put k v
  | .delete step => s.delete step

def call (s : AttributeStore) (c : StoreCall) : AttributeStore × Except StoreFault Unit :=
  match s.attempt c with
  | .ok s' => (s', .ok ())
  | .error fault => (s, .error fault)

/-- Calls one after another, and the answer to each. -/
def run (s : AttributeStore) : List StoreCall → AttributeStore × List (Except StoreFault Unit)
  | [] => (s, [])
  | c :: cs =>
    let (s, a) := s.call c
    let (s, as) := run s cs
    (s, a :: as)

end AttributeStore

end DocumentSink
