import DocumentSink.Text.Split
import DocumentSink.Write.Number

/-!
The hosts of a document store. Hosts are listed with commas between them; one with a port of its own
has it behind its last colon, and all others share the port option.
-/

namespace DocumentSink

structure Host where
  name : String
  port : Int
  deriving DecidableEq, Repr

def defaultPort : Int := 27017

/-- A port, or another where it is zero or missing. -/
def portOr (default : Int) (n : Option Int) : Int :=
  match n with
  | some n => if n = 0 then default else n
  | none => default

/-- The host that an entry of the list writes; a blank entry writes none. -/
def hostOfEntry (shared : Int) (entry : List Char) : Option (Resolved Host) :=
  let s := Text.trim entry
  if s.isEmpty then none
  else match Text.cutLast ':' s with
    | none => some ⟨⟨.ofList s, shared⟩, []⟩
    | some (name, port) =>
      some ((resolveNumber "port" (some shared) (.ofList port)).map fun n =>
        ⟨.ofList (Text.trim name), portOr shared n⟩)

/-- The hosts of the options, in order. -/
def WriteOptions.hosts (w : WriteOptions) (vars : Variables) : Resolved (List Host) :=
  let shared := (w.number vars .port (some defaultPort)).map (portOr defaultPort)
  let entries := (Text.split ',' (vars.substitute w.hostnames).toList).filterMap
    (hostOfEntry shared.value)
  ⟨entries.map (·.value), shared.warnings ++ entries.flatMap (·.warnings)⟩

end DocumentSink
