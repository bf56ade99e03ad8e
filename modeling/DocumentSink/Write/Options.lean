/-!
Write options: where documents are written and how. Numbers are kept as text, since they may refer
to variables. Main statement: an option that is set reads back.
-/

namespace DocumentSink

structure WriteOptions where
  hostnames : String := "localhost"
  port : String := "27017"
  useAllReplicaMembers : Bool := false
  username : String := ""
  password : String := ""
  dbName : String := ""
  collection : String := ""
  truncate : Bool := false
  upsert : Bool := false
  multi : Bool := false
  modifierUpdate : Bool := false
  batchInsertSize : String := "100"
  connectTimeout : String := ""
  socketTimeout : String := ""
  readPreference : String := "primary"
  writeConcern : String := ""
  wTimeout : String := ""
  journal : Bool := false
  writeRetries : String := "5"
  writeRetryDelay : String := "10"
  deriving DecidableEq, Repr, Inhabited

inductive TextOption
  | hostnames
  | port
  | username
  | password
  | dbName
  | collection
  | batchInsertSize
  | connectTimeout
  | socketTimeout
  | readPreference
  | writeConcern
  | wTimeout
  | writeRetries
  | writeRetryDelay
  deriving DecidableEq, Repr

inductive FlagOption
  | useAllReplicaMembers
  | truncate
  | upsert
  | multi
  | modifierUpdate
  | journal
  deriving DecidableEq, Repr

inductive WriteOption
  | text (o : TextOption)
  | flag (o : FlagOption)
  deriving DecidableEq, Repr

namespace TextOption

def name : TextOption → String
  | hostnames => "hostnames"
  | port => "port"
  | username => "username"
  | password => "password"
  | dbName => "db_name"
  | collection => "collection"
  | batchInsertSize => "batch_insert_size"
  | connectTimeout => "connect_timeout"
  | socketTimeout => "socket_timeout"
  | readPreference => "read_preference"
  | writeConcern => "write_concern"
  | wTimeout => "w_timeout"
  | writeRetries => "write_retries"
  | writeRetryDelay => "write_retry_delay"

def get (w : WriteOptions) : TextOption → String
  | hostnames => w.hostnames
  | port => w.port
  | username => w.username
  | password => w.password
  | dbName => w.dbName
  | collection => w.collection
  | batchInsertSize => w.batchInsertSize
  | connectTimeout => w.connectTimeout
  | socketTimeout => w.socketTimeout
  | readPreference => w.readPreference
  | writeConcern => w.writeConcern
  | wTimeout => w.wTimeout
  | writeRetries => w.writeRetries
  | writeRetryDelay => w.writeRetryDelay

def set (w : WriteOptions) (s : String) : TextOption → WriteOptions
  | hostnames => { w with hostnames := s }
  | port => { w with port := s }
  | username => { w with username := s }
  | password => { w with password := s }
  | dbName => { w with dbName := s }
  | collection => { w with collection := s }
  | batchInsertSize => { w with batchInsertSize := s }
  | connectTimeout => { w with connectTimeout := s }
  | socketTimeout => { w with socketTimeout := s }
  | readPreference => { w with readPreference := s }
  | writeConcern => { w with writeConcern := s }
  | wTimeout => { w with wTimeout := s }
  | writeRetries => { w with writeRetries := s }
  | writeRetryDelay => { w with writeRetryDelay := s }

@[simp] theorem get_set (w : WriteOptions) (s : String) (o p : TextOption) :
    p.get (o.set w s) = if p = o then s else p.get w := by
  cases o <;> cases p <;> rfl

end TextOption

namespace FlagOption

def name : FlagOption → String
  | useAllReplicaMembers => "use_all_replica_members"
  | truncate => "truncate"
  | upsert => "upsert"
  | multi => "multi"
  | modifierUpdate => "modifier_update"
  | journal => "journal"

def get (w : WriteOptions) : FlagOption → Bool
  | useAllReplicaMembers => w.useAllReplicaMembers
  | truncate => w.truncate
  | upsert => w.upsert
  | multi => w.multi
  | modifierUpdate => w.modifierUpdate
  | journal => w.journal

def set (w : WriteOptions) (b : Bool) : FlagOption → WriteOptions
  | useAllReplicaMembers => { w with useAllReplicaMembers := b }
  | truncate => { w with truncate := b }
  | upsert => { w with upsert := b }
  | multi => { w with multi := b }
  | modifierUpdate => { w with modifierUpdate := b }
  | journal => { w with journal := b }

@[simp] theorem get_set (w : WriteOptions) (b : Bool) (o p : FlagOption) :
    p.get (o.set w b) = if p = o then b else p.get w := by
  cases o <;> cases p <;> rfl

@[simp] theorem get_set_text (w : WriteOptions) (s : String) (o : TextOption) (p : FlagOption) :
    p.get (o.set w s) = p.get w := by
  cases o <;> cases p <;> rfl

end FlagOption

@[simp] theorem TextOption.get_set_flag (w : WriteOptions) (b : Bool) (o : FlagOption)
    (p : TextOption) : p.get (o.set w b) = p.get w := by
  cases o <;> cases p <;> rfl

namespace WriteOption

def name : WriteOption → String
  | text o => o.name
  | flag o => o.name

/-- All options, in the order in which they are listed. -/
def all : List WriteOption := [
  .text .hostnames, .text .port, .flag .useAllReplicaMembers, .text .username, .text .password,
  .text .dbName, .text .collection, .flag .truncate, .flag .upsert, .flag .multi,
  .flag .modifierUpdate, .text .batchInsertSize, .text .connectTimeout, .text .socketTimeout,
  .text .readPreference, .text .writeConcern, .text .wTimeout, .flag .journal, .text .writeRetries,
  .text .writeRetryDelay]

def ofName? (name : String) : Option WriteOption := all.find? fun o => o.name = name

end WriteOption

end DocumentSink
