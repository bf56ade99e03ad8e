import DocumentSink.Definition.Validation

/-!
Building definitions call by call. A builder collects write options by name, mappings and indexes;
options are validated when a definition is built, mappings and indexes when they are added. A call
that fails adds nothing, but for one: host names are kept where the port behind them has no text.
Definitions built by one builder share their mappings, so an edit of a mapping shows in all of them;
their lists are their own.
-/

namespace DocumentSink

/-- A call that adds to a builder. Arguments are loosely typed; a null one counts as left out where
the call says so. -/
inductive BuilderCall
  | hosts (hostnames port : Value)
  | credentials (username password : Value)
  | option (name : String) (value : Value)
  | truncate (enabled : Value)
  | upsert (enabled multi : Value)
  | modifierUpdate (enabled : Value)
  | field (incomingName documentPath useIncomingName jsonFragment : Value)
  | matchKey (incomingName documentPath useIncomingName : Value)
  | modifier (incomingName documentPath operator policy useIncomingName : Value)
  | index (fieldSpec unique sparse drop : Value)

/-- Why a call fails, or why nothing is built. -/
inductive BuilderFault (Refusal : Type)
  | unknownOption (name : String)
  | tooLong
  | invalid (refusal : Refusal)
  | index (fault : IndexFault)
  deriving DecidableEq, Repr

/-- A builder with what it has collected. All mappings ever added keep their number. -/
structure Builder where
  options : Record Value := []
  mappings : List FieldMapping := []
  indexes : List IndexSpec := []

/-- A built definition, with its mappings by number. -/
structure Built where
  write : WriteOptions
  mappings : List Nat
  indexes : List IndexSpec
  deriving DecidableEq, Repr

namespace Builder

def start (dbName collection : Value) : Builder :=
  { options := [("db_name", dbName), ("collection", collection)] }

def setOption (b : Builder) (name : String) (v : Value) : Builder :=
  { b with options := b.options.put name v }

/-- Without a choice, the incoming name is the key exactly where there is no path. -/
def keyChoice (documentPath useIncomingName : Value) : Value :=
  if useIncomingName.isNull then .bool (!documentPath.truthy) else useIncomingName

section Calls

variable (rules : Validation)

def addMapping (b : Builder) (members : Record Value) :
    Builder × Except (BuilderFault rules.Refusal) Unit :=
  match rules.mapping members with
  | .ok m => ({ b with mappings := b.mappings ++ [m] }, .ok ())
  | .error refusal => (b, .error (.invalid refusal))

def addIndex (b : Builder) (members : Record Value) :
    Builder × Except (BuilderFault rules.Refusal) Unit :=
  match rules.index members with
  | .ok i => ({ b with indexes := b.indexes ++ [i] }, .ok ())
  | .error refusal => (b, .error (.invalid refusal))

def call (b : Builder) : BuilderCall → Builder × Except (BuilderFault rules.Refusal) Unit
  | .hosts hostnames port =>
    let b := b.setOption "hostnames" hostnames
    if port.isNull then (b, .ok ())
    else match port.display? with
      | some text => (b.setOption "port" (.text text), .ok ())
      | none => (b, .error .tooLong)
  | .credentials username password =>
    ((b.setOption "username" username).setOption "password" password, .ok ())
  | .option name v =>
    if (WriteOption.ofName? name).isSome then (b.setOption name v, .ok ())
    else (b, .error (.unknownOption name))
  | .truncate enabled => (b.setOption "truncate" enabled, .ok ())
  | .upsert enabled multi =>
    ((b.setOption "upsert" enabled).setOption "multi" multi, .ok ())
  | .modifierUpdate enabled =>
    let b := b.setOption "modifier_update" enabled
    (if enabled.truthy then b.setOption "upsert" (.bool true) else b, .ok ())
  | .field incomingName documentPath useIncomingName jsonFragment =>
    b.addMapping rules [("incoming_name", incomingName), ("document_path", documentPath),
      ("use_incoming_name_as_key", keyChoice documentPath useIncomingName),
      ("is_json_fragment", jsonFragment)]
  | .matchKey incomingName documentPath useIncomingName =>
    b.addMapping rules [("incoming_name", incomingName), ("document_path", documentPath),
      ("use_incoming_name_as_key", keyChoice documentPath useIncomingName),
      ("is_match_key", .bool true)]
  | .modifier incomingName documentPath operator policy useIncomingName =>
    b.addMapping rules [("incoming_name", incomingName), ("document_path", documentPath),
      ("use_incoming_name_as_key", useIncomingName), ("operator", operator),
      ("apply_policy", policy)]
  | .index fieldSpec unique sparse drop =>
    b.addIndex rules [("field_spec", fieldSpec), ("drop", drop), ("unique", unique),
      ("sparse", sparse)]

end Calls

/-- Refuses an index without terms. One that refers to variables is not looked at. -/
def checkIndex (i : IndexSpec) : Except IndexFault Unit :=
  if Variables.hasReferences i.fieldSpec then .ok ()
  else match indexTerms [] i.fieldSpec with
    | .error fault => .error fault
    | .ok [] => .error (.noTerms i.fieldSpec)
    | .ok (_ :: _) => .ok ()

/-- The definition of what has been collected so far: all mappings by number. -/
def build (rules : Validation) (b : Builder) : Except (BuilderFault rules.Refusal) Built := do
  (b.indexes.forM checkIndex).mapError .index
  let write ← (rules.options b.options).mapError .invalid
  return ⟨write, List.range b.mappings.length, b.indexes⟩

def assignMapping (b : Builder) (n : Nat) (name : String) (v : Value) : Builder :=
  { b with mappings := b.mappings.modify n (·.assign name v) }

end Builder

namespace Built

/-- The definition, with its mappings as the builder has them now. -/
def definition (b : Builder) (d : Built) : Definition :=
  ⟨d.write, d.mappings.filterMap (b.mappings[·]?), d.indexes⟩

def removeMapping (d : Built) (n : Nat) : Built := { d with mappings := d.mappings.eraseIdx n }

end Built

end DocumentSink
