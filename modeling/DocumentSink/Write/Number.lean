import DocumentSink.Text.Blank
import DocumentSink.Variables
import DocumentSink.Write.Options

/-!
Numbers in write options. A blank option has its default; so has one that is no number, with a
warning.
-/

namespace DocumentSink

inductive Warning
  | notNumeric (option value : String) (default : Option Int)
  | unknownPreference (value : String)
  deriving DecidableEq, Repr

def Warning.message : Warning → String
  | .notNumeric option value default =>
    "Option " ++ option ++ " has non-numeric value " ++ Text.quote value ++ "; using default "
      ++ (default.map Numeral.decimalText).getD "None"
  | .unknownPreference value => "Unknown read preference " ++ Text.quote value ++ "; using primary"

structure Resolved (α : Type) where
  value : α
  warnings : List Warning := []
  deriving DecidableEq, Repr

def Resolved.map {α β : Type} (f : α → β) (r : Resolved α) : Resolved β := ⟨f r.value, r.warnings⟩

/-- The number that a text denotes, blanks around it aside. -/
def resolveNumber (option : String) (default : Option Int) (text : String) :
    Resolved (Option Int) :=
  let s := Text.trim text.toList
  if s.isEmpty then ⟨default, []⟩
  else match Numeral.decimal? s with
    | some n => ⟨some n, []⟩
    | none => ⟨default, [.notNumeric option (.ofList s) default]⟩

namespace WriteOptions

variable (w : WriteOptions) (vars : Variables)

/-- The number in an option, after substitution. -/
def number (o : TextOption) (default : Option Int) : Resolved (Option Int) :=
  resolveNumber o.name default (vars.substitute (o.get w))

/-- How many documents are written at once: at least one. -/
def batchSize : Resolved Int :=
  (w.number vars .batchInsertSize (some 100)).map fun n =>
    match n with
    | some n => if 0 < n then n else 100
    | none => 100

/-- Milliseconds to wait for a connection; none is without end. -/
def connectWait : Resolved (Option Int) := w.number vars .connectTimeout none

/-- Milliseconds to wait for an answer; none is without end. -/
def socketWait : Resolved (Option Int) := w.number vars .socketTimeout none

def replicationWait : Resolved (Option Int) := w.number vars .wTimeout none

def retries : Resolved Int := (w.number vars .writeRetries (some 5)).map (·.getD 5)

def retryDelay : Resolved Int := (w.number vars .writeRetryDelay (some 10)).map (·.getD 10)

end WriteOptions

end DocumentSink
