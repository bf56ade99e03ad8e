import DocumentSink.Definition.Validation

/-!
Lax validation of definitions. An object has a member for each part that does not have its default;
members that name no part are ignored. All faults are reported, in the order of the parts. A flag is
a truth value, zero or one, or one of a few words in whatever case.
-/

namespace DocumentSink

inductive Place
  | name (s : String)
  | position (n : Nat)
  deriving DecidableEq, Repr

inductive Expected
  | text
  | flag
  | flagWord
  | choice
  | list
  | object
  deriving DecidableEq, Repr

structure ShapeFault where
  place : List Place
  expected : Expected
  deriving DecidableEq, Repr

/-- A value read from another, or all that is wrong with it. -/
inductive Read (α : Type)
  | ok (a : α)
  | faults (fs : List ShapeFault)
  deriving DecidableEq, Repr

namespace Read

variable {α β : Type}

/-- Faults of both sides count. -/
def seq (f : Read (α → β)) (x : Read α) : Read β :=
  match f, x with
  | ok f, ok a => ok (f a)
  | ok _, faults fs => faults fs
  | faults fs, ok _ => faults fs
  | faults fs, faults gs => faults (fs ++ gs)

instance : Applicative Read where
  pure := ok
  seq f x := seq f (x ())

def below (p : Place) : Read α → Read α
  | ok a => ok a
  | faults fs => faults (fs.map fun f => { f with place := p :: f.place })

def fault (e : Expected) : Read α := faults [⟨[], e⟩]

def toOption : Read α → Option α
  | ok a => some a
  | faults _ => none

def toExcept : Read α → Except (List ShapeFault) α
  | ok a => .ok a
  | faults fs => .error fs

/-- Reads the items of a list, each below its position. -/
def items (read : Value → Read α) : Nat → List Value → Read (List α)
  | _, [] => ok []
  | n, v :: vs => List.cons <$> below (.position n) (read v) <*> items read (n + 1) vs

end Read

namespace Value

def asText : Value → Read String
  | text s => .ok s
  | _ => .fault .text

def yesWords : List String := ["1", "on", "t", "true", "y", "yes"]

def noWords : List String := ["0", "off", "f", "false", "n", "no"]

/-- The flag of a number: zero or one. -/
def flagOfInt (n : Int) : Read Bool :=
  if n = 0 then .ok false else if n = 1 then .ok true else .fault .flagWord

def asFlag : Value → Read Bool
  | bool b => .ok b
  | int n => flagOfInt n
  | float d =>
    match d.toInt? with
    | some n => flagOfInt n
    | none => .fault .flag
  | text s =>
    let word := String.ofList (s.toList.map Char.toLower)
    if yesWords.contains word then .ok true
    else if noWords.contains word then .ok false
    else .fault .flagWord
  | _ => .fault .flag

def asChoice {α : Type} (ofToken? : String → Option α) : Value → Read α
  | text s =>
    match ofToken? s with
    | some a => .ok a
    | none => .fault .choice
  | _ => .fault .choice

def asList {α : Type} (read : Value → Read α) : Value → Read (List α)
  | list vs => Read.items read 0 vs
  | _ => .fault .list

/-- A part of an object, with a default. -/
def part {α : Type} (members : Record Value) (name : String) (read : Value → Read α) (default : α) :
    Read α :=
  match members.get? name with
  | some v => (read v).below (.name name)
  | none => .ok default

def asObject {α : Type} (read : Record Value → Read α) : Value → Read α
  | object members => read members
  | _ => .fault .object

end Value

open Value

def WriteOption.ofMembers (members : Record Value) (w : Read WriteOptions) :
    WriteOption → Read WriteOptions
  | .text o => (fun w s => (o.set w s)) <$> w <*> part members o.name asText (o.get {})
  | .flag o => (fun w b => (o.set w b)) <$> w <*> part members o.name asFlag (o.get {})

def WriteOptions.ofMembers (members : Record Value) : Read WriteOptions :=
  WriteOption.all.foldl (WriteOption.ofMembers members) (.ok {})

def FieldMapping.ofMembers (members : Record Value) : Read FieldMapping :=
  FieldMapping.mk <$> part members "incoming_name" asText ""
    <*> part members "document_path" asText ""
    <*> part members "use_incoming_name_as_key" asFlag false
    <*> part members "is_match_key" asFlag false
    <*> part members "operator" (asChoice Operator.ofExactToken?) .none
    <*> part members "apply_policy" (asChoice ApplyPolicy.ofExactToken?) .insertAndUpdate
    <*> part members "is_json_fragment" asFlag false

def IndexSpec.ofMembers (members : Record Value) : Read IndexSpec :=
  IndexSpec.mk <$> part members "field_spec" asText ""
    <*> part members "drop" asFlag false
    <*> part members "unique" asFlag false
    <*> part members "sparse" asFlag false

def Definition.ofMembers (members : Record Value) : Read Definition :=
  Definition.mk <$> part members "write" (asObject WriteOptions.ofMembers) {}
    <*> part members "mappings" (asList (asObject FieldMapping.ofMembers)) []
    <*> part members "indexes" (asList (asObject IndexSpec.ofMembers)) []

def Validation.lax : Validation where
  Refusal := List ShapeFault
  text v := v.asText.toOption
  flag v := v.asFlag.toOption
  operator v := (v.asChoice Operator.ofExactToken?).toOption
  policy v := (v.asChoice ApplyPolicy.ofExactToken?).toOption
  options members := (WriteOptions.ofMembers members).toExcept
  mapping members := (FieldMapping.ofMembers members).toExcept
  index members := (IndexSpec.ofMembers members).toExcept

instance : DecidableEq Validation.lax.Refusal := inferInstanceAs (DecidableEq (List ShapeFault))

end DocumentSink
