import DocumentSink.Numeral.Integer
import DocumentSink.Step
import DocumentSink.Text.Wide

/-!
Attribute stores: values under a step, a number and a code. A store is kept in memory, where a value
stays what it is, or in a table of two columns, where a flag becomes a letter. The two answer alike,
but a table takes only integers of 64 bits, as numbers and as values, and answers nothing after it
is closed; and an integer in memory may be too long to have a text. Options stand at number zero,
and the parts of a field or an index at its position.
-/

namespace DocumentSink

inductive AttributeValue
  | text (s : String)
  | flag (b : Bool)
  | int (n : Int)
  deriving DecidableEq, Repr

inductive StoreFault
  | closed
  | tooLarge
  | tooLong
  | notUnicode (fault : Wide.Fault)
  deriving DecidableEq, Repr

def StoreFault.message : StoreFault → String
  | closed => "Cannot operate on a closed database."
  | tooLarge => "Python int too large to convert to SQLite INTEGER"
  | tooLong => Numeral.longMessage
  | notUnicode fault => fault.message

def StoreFault.kind : StoreFault → FailureKind
  | closed => .closed
  | tooLarge => .overflow
  | tooLong => .value
  | notUnicode _ => .encoding

def AttributeValue.written : AttributeValue → Except StoreFault String
  | text s => .ok s
  | flag b => .ok (flagToken b)
  | int n => if Numeral.isLong n then .error .tooLong else .ok (Numeral.decimalText n)

/-- A value as a flag: what is no flag is read by its text. -/
def AttributeValue.truth (default : Bool) : AttributeValue → Except StoreFault Bool
  | flag b => .ok b
  | v => return readFlag default (some (← v.written))

/-- A value in a row of a table: an integer in one column, or a text in the other. -/
structure Columns where
  number : Option Int := none
  text : Option String := none
  deriving DecidableEq, Repr

def AttributeValue.columns : AttributeValue → Columns
  | int n => { number := some n }
  | flag b => { text := some (flagToken b) }
  | text s => { text := some s }

/-- What a row holds. The integer goes first, and a row without either holds the empty text. -/
def Columns.value (c : Columns) : AttributeValue :=
  match c.number with
  | some n => .int n
  | none => .text (c.text.getD "")

structure AttributeKey where
  step : String
  number : Int
  code : String
  deriving DecidableEq, Repr

inductive Backend
  | memory
  | table
  deriving DecidableEq, Repr

/-- A value as a store keeps it. -/
def Backend.keep : Backend → AttributeValue → AttributeValue
  | memory, v => v
  | table, v => v.columns.value

structure AttributeStore where
  backend : Backend := .memory
  isOpen : Bool := true
  /-- One value for each key. -/
  attributes : List (AttributeKey × AttributeValue) := []
  deriving DecidableEq, Repr

namespace AttributeStore

def access {α : Type} (s : AttributeStore) (ints : List Int) (answer : α) : Except StoreFault α :=
  if s.backend = .memory then .ok answer
  else if !s.isOpen then .error .closed
  else if ints.all Numeral.isWord then .ok answer
  else .error .tooLarge

def find? (s : AttributeStore) (k : AttributeKey) : Option AttributeValue :=
  (s.attributes.find? fun p => p.1 = k).map (·.2)

/-- The attributes with a value put in place of another, or at the end. -/
def insert (k : AttributeKey) (v : AttributeValue) :
    List (AttributeKey × AttributeValue) → List (AttributeKey × AttributeValue)
  | [] => [(k, v)]
  | p :: ps => if p.1 = k then (k, v) :: ps else p :: insert k v ps

def intsOf : AttributeValue → List Int
  | .int n => [n]
  | _ => []

def put (s : AttributeStore) (k : AttributeKey) (v : AttributeValue) :
    Except StoreFault AttributeStore :=
  s.access (k.number :: intsOf v) { s with
    attributes := insert k (s.backend.keep v) s.attributes }

def text (s : AttributeStore) (k : AttributeKey) : Except StoreFault (Option String) :=
  match s.find? k with
  | none => .ok none
  | some v => some <$> v.written

def flag (s : AttributeStore) (k : AttributeKey) (default : Bool) : Except StoreFault Bool :=
  match s.find? k with
  | none => .ok default
  | some v => v.truth default

def getText (s : AttributeStore) (k : AttributeKey) : Except StoreFault (Option String) := do
  s.access [k.number] ()
  s.text k

def getFlag (s : AttributeStore) (k : AttributeKey) (default : Bool) : Except StoreFault Bool := do
  s.access [k.number] ()
  s.flag k default

def countOf (s : AttributeStore) (step code : String) : Nat :=
  s.attributes.countP fun p => p.1.step = step && p.1.code = code

def count (s : AttributeStore) (step code : String) : Except StoreFault Nat :=
  s.access [] (s.countOf step code)

def without (s : AttributeStore) (step : String) : AttributeStore :=
  { s with attributes := s.attributes.filter fun p => p.1.step ≠ step }

def delete (s : AttributeStore) (step : String) : Except StoreFault AttributeStore :=
  s.access [] (s.without step)

def hasStep (s : AttributeStore) (step : String) : Bool := s.attributes.any fun p => p.1.step = step

def has (s : AttributeStore) (step : String) : Except StoreFault Bool :=
  s.access [] (s.hasStep step)

def size (s : AttributeStore) : Nat := s.attributes.length

/-- A table can be closed, also twice. -/
def close (s : AttributeStore) : AttributeStore := { s with isOpen := false }

def keyLE (a b : AttributeKey) : Bool :=
  if a.step = b.step then
    if a.number = b.number then a.code ≤ b.code else a.number ≤ b.number
  else a.step ≤ b.step

/-- All attributes as text, or those of one step, by step, number and code. -/
def listing (s : AttributeStore) (step : Option String) :
    Except StoreFault (List (AttributeKey × String)) := do
  s.access [] ()
  let rows ← (s.attributes.filter fun p => step.all (· = p.1.step)).mapM
    fun p => return (p.1, ← p.2.written)
  return rows.mergeSort fun a b => keyLE a.1 b.1

/-- The value of an option that is saved; of the password the form that is stored. -/
def optionValue (w : WriteOptions) : WriteOption → AttributeValue
  | .text o => .text (Step.optionText w (.text o))
  | .flag o => .flag (o.get w)

/-- The values of the options that are saved, in order; an optional text only if it is not empty. -/
def optionValues (w : WriteOptions) : Record AttributeValue :=
  Step.layout.filterMap fun (o, isOptional) =>
    if isOptional && (Step.optionText w o).isEmpty then none else some (o.code, optionValue w o)

def fieldValue (m : FieldMapping) : FieldPart → AttributeValue
  | .incomingName => .text m.incomingName
  | .documentPath => .text m.documentPath
  | .useIncomingName => .flag m.useIncomingName
  | .isMatchKey => .flag m.isMatchKey
  | .operator => .text m.operator.token
  | .policy => .text m.policy.token
  | .isFragment => .flag m.isFragment

def fieldValues (m : FieldMapping) : Record AttributeValue :=
  FieldPart.all.map fun p => (p.code, fieldValue m p)

def indexValue (i : IndexSpec) : IndexPart → AttributeValue
  | .fieldSpec => .text i.fieldSpec
  | .drop => .flag i.drop
  | .unique => .flag i.unique
  | .sparse => .flag i.sparse

def indexValues (i : IndexSpec) : Record AttributeValue :=
  IndexPart.all.map fun p => (p.code, indexValue i p)

def putAll (step : String) (number : Int) (s : AttributeStore) (r : Record AttributeValue) :
    Except StoreFault AttributeStore :=
  r.foldlM (fun s p => s.put ⟨step, number, p.1⟩ p.2) s

def putLists (step : String) (s : AttributeStore) (number : Nat) :
    List (Record AttributeValue) → Except StoreFault AttributeStore
  | [] => .ok s
  | r :: rs => do putLists step (← s.putAll step number r) (number + 1) rs

def save (s : AttributeStore) (step : String) (d : Definition) :
    Except StoreFault AttributeStore := do
  let s ← s.delete step
  let s ← putAll step 0 s (optionValues d.write)
  let s ← putLists step s 0 (d.mappings.map fieldValues)
  putLists step s 0 (d.indexes.map indexValues)

inductive LoadFault
  | store (fault : StoreFault)
  | noStep
  | missing (code : String)
  | password (fault : Password.Fault)
  | token (field : Nat) (fault : TokenFault)
  deriving DecidableEq, Repr

def LoadFault.detail (step : String) : LoadFault → String
  | store fault => fault.message
  | noStep => "no attributes stored for step '" ++ step ++ "'"
  | missing code => "step '" ++ step ++ "' is missing required '" ++ code ++ "'"
  | password fault => "cannot restore '" ++ TextOption.password.code ++ "': " ++ fault.message
  | token n fault => "field " ++ Numeral.decimalText n ++ ": " ++ fault.message

def LoadFault.message (step : String) : LoadFault → String
  | store fault => fault.message
  | password .negative => Password.Fault.negative.message
  | fault => "Cannot load configuration from attribute store: " ++ fault.detail step

def LoadFault.kind : LoadFault → FailureKind
  | store fault => fault.kind
  | password .negative => .overflow
  | _ => .configuration

/-- The text that a load finds, empty if there is none. A load asks an open store, at number zero
and at positions below the number of rows that it has counted, so that no access is refused. -/
def textAt (s : AttributeStore) (step : String) (number : Nat) (code : String) :
    Except LoadFault String :=
  return ((← (s.text ⟨step, number, code⟩).mapError .store).getD "")

def flagAt (s : AttributeStore) (step : String) (number : Nat) (code : String) :
    Except LoadFault Bool := (s.flag ⟨step, number, code⟩ false).mapError .store

def requireFlag (s : AttributeStore) (step : String) (o : FlagOption) : Except LoadFault Unit := do
  if (← (s.text ⟨step, 0, o.code⟩).mapError .store).isNone then throw (.missing o.code)

def loadOptions (s : AttributeStore) (step : String) : Except LoadFault WriteOptions := do
  Step.requiredFlags.forM (s.requireFlag step)
  let stored ← s.textAt step 0 TextOption.password.code
  let password ← (Password.restore stored).mapError .password
  return {
    hostnames := ← s.textAt step 0 TextOption.hostnames.code
    port := ← s.textAt step 0 TextOption.port.code
    useAllReplicaMembers := ← s.flagAt step 0 FlagOption.useAllReplicaMembers.code
    username := ← s.textAt step 0 TextOption.username.code
    password
    dbName := ← s.textAt step 0 TextOption.dbName.code
    collection := ← s.textAt step 0 TextOption.collection.code
    batchInsertSize := ← s.textAt step 0 TextOption.batchInsertSize.code
    connectTimeout := ← s.textAt step 0 TextOption.connectTimeout.code
    socketTimeout := ← s.textAt step 0 TextOption.socketTimeout.code
    readPreference := ← s.textAt step 0 TextOption.readPreference.code
    writeConcern := ← s.textAt step 0 TextOption.writeConcern.code
    wTimeout := ← s.textAt step 0 TextOption.wTimeout.code
    journal := ← s.flagAt step 0 FlagOption.journal.code
    truncate := ← s.flagAt step 0 FlagOption.truncate.code
    upsert := ← s.flagAt step 0 FlagOption.upsert.code
    multi := ← s.flagAt step 0 FlagOption.multi.code
    modifierUpdate := ← s.flagAt step 0 FlagOption.modifierUpdate.code
    writeRetries := Step.orDefault (← s.textAt step 0 TextOption.writeRetries.code) "5"
    writeRetryDelay := Step.orDefault (← s.textAt step 0 TextOption.writeRetryDelay.code) "10" }

def loadField (s : AttributeStore) (step : String) (n : Nat) : Except LoadFault FieldMapping := do
  let operator ← s.textAt step n FieldPart.operator.code
  let operator ← (Operator.ofToken operator).mapError (.token n)
  let policy ← s.textAt step n FieldPart.policy.code
  let policy ← (ApplyPolicy.ofToken policy).mapError (.token n)
  return {
    incomingName := ← s.textAt step n FieldPart.incomingName.code
    documentPath := ← s.textAt step n FieldPart.documentPath.code
    useIncomingName := ← s.flagAt step n FieldPart.useIncomingName.code
    isMatchKey := ← s.flagAt step n FieldPart.isMatchKey.code
    operator, policy
    isFragment := ← s.flagAt step n FieldPart.isFragment.code }

def loadIndex (s : AttributeStore) (step : String) (n : Nat) : Except LoadFault IndexSpec := do
  return {
    fieldSpec := ← s.textAt step n IndexPart.fieldSpec.code
    drop := ← s.flagAt step n IndexPart.drop.code
    unique := ← s.flagAt step n IndexPart.unique.code
    sparse := ← s.flagAt step n IndexPart.sparse.code }

def loadStep (s : AttributeStore) (step : String) : Except LoadFault Definition := do
  let write ← s.loadOptions step
  let mappings ← (List.range (s.countOf step FieldPart.incomingName.code)).mapM (s.loadField step)
  let indexes ← (List.range (s.countOf step IndexPart.fieldSpec.code)).mapM (s.loadIndex step)
  return { write, mappings, indexes }

def load (s : AttributeStore) (step : String) : Except LoadFault Definition := do
  if !(← (s.has step).mapError .store) then throw .noStep
  s.loadStep step

/-- Loads a step whose name may be no text. A table cannot be asked for one, and a memory does not
have it. -/
def loadNamed (s : AttributeStore) (step : Wide) : Except LoadFault Definition :=
  match step.chars with
  | .ok chars => s.load (.ofList chars)
  | .error fault => do
    (s.access [] ()).mapError .store
    throw (if s.backend = .memory then .noStep else .store (.notUnicode fault))

end AttributeStore

end DocumentSink
