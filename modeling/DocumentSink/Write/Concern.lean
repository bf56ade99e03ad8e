import DocumentSink.Write.Number

/-!
Kinds of write concern. The concern itself is passed on as it is written; only its kind is told.
-/

namespace DocumentSink

inductive WriteConcern
  | default
  | unacknowledgedSilent
  | unacknowledged
  | acknowledged
  | majority
  | count
  | tagSet
  deriving DecidableEq, Repr

namespace WriteConcern

def token : WriteConcern → String
  | default => "default"
  | unacknowledgedSilent => "-1"
  | unacknowledged => "0"
  | acknowledged => "1"
  | majority => "majority"
  | count => "count"
  | tagSet => "tag_set"

def ofCount (n : Int) : WriteConcern :=
  if n < 0 then unacknowledgedSilent
  else if n = 0 then unacknowledged
  else if n = 1 then acknowledged
  else count

/-- The kind of a text without blanks around it. A text that is no number names a set of tags. -/
def ofText (s : String) : WriteConcern :=
  if s.isEmpty then default
  else if s = "majority" then majority
  else ((Numeral.decimal? s.toList).map ofCount).getD tagSet

end WriteConcern

def WriteOptions.concern (w : WriteOptions) (vars : Variables) : WriteConcern :=
  .ofText (Text.trimmed (vars.substitute w.writeConcern))

end DocumentSink
