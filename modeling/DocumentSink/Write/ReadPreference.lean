import DocumentSink.Text.Blank
import DocumentSink.Write.Number

/-!
Which members of a cluster may serve reads.
-/

namespace DocumentSink

inductive ReadPreference
  | primary
  | primaryPreferred
  | secondary
  | secondaryPreferred
  | nearest
  deriving DecidableEq, Repr

namespace ReadPreference

def token : ReadPreference → String
  | primary => "primary"
  | primaryPreferred => "primaryPreferred"
  | secondary => "secondary"
  | secondaryPreferred => "secondaryPreferred"
  | nearest => "nearest"

def all : List ReadPreference := [primary, primaryPreferred, secondary, secondaryPreferred, nearest]

/-- The preference of a token, in whatever case. -/
def ofToken? (s : String) : Option ReadPreference := all.find? fun p => Text.sameToken p.token s

end ReadPreference

/-- The read preference of the options: the primary if it is blank or unknown. -/
def WriteOptions.preference (w : WriteOptions) (vars : Variables) : Resolved ReadPreference :=
  let s := Text.trimmed (vars.substitute w.readPreference)
  if s.isEmpty then ⟨.primary, []⟩
  else match ReadPreference.ofToken? s with
    | some p => ⟨p, []⟩
    | none => ⟨.primary, [.unknownPreference s]⟩

end DocumentSink
