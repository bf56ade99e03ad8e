import DocumentSink.Definition
import DocumentSink.Password
import DocumentSink.Text.Blank

/-!
The persisted content of a step: options, fields and indexes as texts under codes that other tools
read. Both encodings of a definition write this content; each loads it in its own way. Main
definition: `Step.ofDefinition`.
-/

namespace DocumentSink

def TextOption.code : TextOption → String
  | .hostnames => "mongo_host"
  | .port => "mongo_port"
  | .username => "mongo_user"
  | .password => "mongo_password"
  | .dbName => "mongo_db"
  | .collection => "mongo_collection"
  | .batchInsertSize => "batch_insert_size"
  | .connectTimeout => "connect_timeout"
  | .socketTimeout => "socket_timeout"
  | .readPreference => "read_preference"
  | .writeConcern => "write_concern"
  | .wTimeout => "w_timeout"
  | .writeRetries => "write_retries"
  | .writeRetryDelay => "write_retry_delay"

def FlagOption.code : FlagOption → String
  | .useAllReplicaMembers => "use_all_replica_members"
  | .truncate => "truncate"
  | .upsert => "upsert"
  | .multi => "multi"
  | .modifierUpdate => "modifier_update"
  | .journal => "journaled_writes"

def WriteOption.code : WriteOption → String
  | .text o => o.code
  | .flag o => o.code

/-- What callers tell failed loads apart by: most are failures of the configuration. -/
inductive FailureKind
  | configuration
  | overflow
  | value
  | decoding
  | encoding
  | closed
  deriving DecidableEq, Repr

inductive FieldPart
  | incomingName
  | documentPath
  | useIncomingName
  | isMatchKey
  | operator
  | policy
  | isFragment
  deriving DecidableEq, Repr

def FieldPart.code : FieldPart → String
  | incomingName => "incoming_field_name"
  | documentPath => "mongo_doc_path"
  | useIncomingName => "use_incoming_field_name_as_mongo_field_name"
  | isMatchKey => "update_match_field"
  | operator => "modifier_update_operation"
  | policy => "modifier_policy"
  | isFragment => "json_field"

def FieldPart.all : List FieldPart :=
  [incomingName, documentPath, useIncomingName, isMatchKey, operator, policy, isFragment]

inductive IndexPart
  | fieldSpec
  | drop
  | unique
  | sparse
  deriving DecidableEq, Repr

def IndexPart.code : IndexPart → String
  | fieldSpec => "path_to_fields"
  | drop => "drop"
  | unique => "unique"
  | sparse => "sparse"

def IndexPart.all : List IndexPart := [fieldSpec, drop, unique, sparse]

/-- What stands under codes, for the options, for each field and for each index. -/
structure Content (τ : Type) where
  options : Record τ
  fields : List (Record τ) := []
  indexes : List (Record τ) := []
  deriving DecidableEq, Repr

abbrev Step := Content String

def flagToken (b : Bool) : String := if b then "Y" else "N"

/-- Reads a flag: the letter Y in either case is true, a blank or missing token is the default, and
everything else is false. -/
def readFlag (default : Bool) (token : Option String) : Bool :=
  match token.map Text.trimmed with
  | none => default
  | some s => if s.isEmpty then default else Text.sameToken "Y" s

namespace Step

/-- The options in the order in which they are written, and whether an empty one is left out. -/
def layout : List (WriteOption × Bool) := [
  (.text .hostnames, true), (.text .port, true), (.flag .useAllReplicaMembers, false),
  (.text .username, true), (.text .password, true), (.text .dbName, true),
  (.text .collection, true), (.text .batchInsertSize, true), (.text .connectTimeout, false),
  (.text .socketTimeout, false), (.text .readPreference, false), (.text .writeConcern, false),
  (.text .wTimeout, false), (.flag .journal, false), (.flag .truncate, false),
  (.flag .upsert, false), (.flag .multi, false), (.flag .modifierUpdate, false),
  (.text .writeRetries, false), (.text .writeRetryDelay, false)]

/-- The persisted text of an option. The password is stored concealed. -/
def optionText (w : WriteOptions) : WriteOption → String
  | .text .password => Password.store w.password
  | .text o => o.get w
  | .flag o => flagToken (o.get w)

/-- The options under their codes, without those that are left out where they are empty. -/
def optionsOf {τ : Type} (isEmpty : τ → Bool) (text : WriteOption → τ) : Record τ :=
  layout.filterMap fun (o, isOptional) =>
    let s := text o
    if isOptional && isEmpty s then none else some (o.code, s)

def ofWriteOptions (w : WriteOptions) : Record String := optionsOf String.isEmpty (optionText w)

def fieldText (m : FieldMapping) : FieldPart → String
  | .incomingName => m.incomingName
  | .documentPath => m.documentPath
  | .useIncomingName => flagToken m.useIncomingName
  | .isMatchKey => flagToken m.isMatchKey
  | .operator => m.operator.token
  | .policy => m.policy.token
  | .isFragment => flagToken m.isFragment

def ofMapping (m : FieldMapping) : Record String :=
  FieldPart.all.map fun p => (p.code, fieldText m p)

def indexText (i : IndexSpec) : IndexPart → String
  | .fieldSpec => i.fieldSpec
  | .drop => flagToken i.drop
  | .unique => flagToken i.unique
  | .sparse => flagToken i.sparse

def ofIndex (i : IndexSpec) : Record String := IndexPart.all.map fun p => (p.code, indexText i p)

def ofDefinition (d : Definition) : Step :=
  ⟨ofWriteOptions d.write, d.mappings.map ofMapping, d.indexes.map ofIndex⟩

/-- The flags that every step has to have; all other content may be missing. -/
def requiredFlags : List FlagOption := [.truncate, .upsert, .multi, .modifierUpdate]

/-- A text, or another where it is empty. -/
def orDefault (s default : String) : String := if s.isEmpty then default else s

end Step

end DocumentSink
