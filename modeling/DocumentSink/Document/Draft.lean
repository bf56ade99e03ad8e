import DocumentSink.Value

/-!
Drafts of documents. An object that a row holds is placed as the object itself: the draft only names
it, and what is later written below it is written into the object, wherever it is placed. All other
values belong to the draft. Main definitions: `Draft.put` writes at the end of a path of keys, and
`Draft.read` gives the value of a draft.
-/

namespace DocumentSink

/-- A value in the making: one that is no object, an object of the draft's own, or the object that
the row holds under a name. -/
inductive Draft
  | value (v : Value)
  | object (members : List (String × Draft))
  | held (name : String)
  deriving Inhabited

/-- The objects that a row holds, by name. -/
abbrev HeldObjects := Record (Record Draft)

namespace Draft

mutual
def ofValue : Value → Draft
  | .object members => object (ofMembers members)
  | v => value v

def ofMembers : List (String × Value) → List (String × Draft)
  | [] => []
  | (n, v) :: members => (n, ofValue v) :: ofMembers members
end

mutual
/-- The value of a draft, given those of the held objects. -/
def read (held : String → Value) : Draft → Value
  | .value v => v
  | .object members => .object (readMembers held members)
  | .held name => held name

def readMembers (held : String → Value) : List (String × Draft) → List (String × Value)
  | [] => []
  | (n, d) :: members => (n, read held d) :: readMembers held members
end

/-- A path of keys leads through a value that is no object: the key there, and how many keys come
before it. -/
structure Blocked where
  key : String
  depth : Nat
  deriving DecidableEq, Repr

/-- Writes a draft under a key of the object at the end of a path, with the objects on the way to it
where they are missing. `depth` keys came before the path. -/
def put (key : String) (d : Draft) (objects : HeldObjects) (members : Record Draft) (depth : Nat) :
    List String → Except Blocked (HeldObjects × Record Draft)
  | [] => .ok (objects, members.put key d)
  | k :: path =>
    match Record.get? k members with
    | none => do
      let (objects, inner) ← put key d objects [] (depth + 1) path
      return (objects, members.put k (.object inner))
    | some (.object inner) => do
      let (objects, inner) ← put key d objects inner (depth + 1) path
      return (objects, members.put k (.object inner))
    | some (.held name) => do
      let (objects, inner) ← put key d objects ((Record.get? name objects).getD []) (depth + 1) path
      return (objects.put name inner, members)
    | some (.value _) => .error ⟨k, depth⟩

end Draft

namespace HeldObjects

def ofRow (row : Record Value) : HeldObjects :=
  row.filterMap fun
    | (name, .object members) => some (name, Draft.ofMembers members)
    | _ => none

/-- The value of a held object, as deep as objects may hold each other. -/
def read (objects : HeldObjects) : (depth : Nat) → String → Value
  | 0, _ => .object []
  | depth + 1, name =>
    .object (Draft.readMembers (read objects depth) ((Record.get? name objects).getD []))

/-- The value of a held object. No object holds itself. -/
def value (objects : HeldObjects) (name : String) : Value := objects.read objects.length name

def toRow (objects : HeldObjects) (row : Record Value) : Record Value :=
  row.map fun
    | (name, .object _) => (name, objects.value name)
    | p => p

end HeldObjects

end DocumentSink
