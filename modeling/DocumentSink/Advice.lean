import DocumentSink.Message.Template

/-!
Advice on a step among the steps around it: what it receives and from where. Findings are listed,
not enforced. Their texts are templates by key, and a key without a template stands for itself.
-/

namespace DocumentSink

inductive Severity
  | ok
  | warning
  | error
  deriving DecidableEq, Repr

def Severity.token : Severity → String
  | ok => "ok"
  | warning => "warning"
  | error => "error"

structure Finding where
  severity : Severity
  message : Wide
  deriving DecidableEq, Repr

abbrev Catalog := Record Wide

namespace Catalog

def noIncomingFields : String := "check.no_upstream_fields"

def receivingFields : String := "check.receiving_fields"

def receivingInput : String := "check.receiving_input"

def noInput : String := "check.no_input"

def standard : Catalog := [
  (noIncomingFields, "Not receiving any fields from previous steps!"),
  (receivingFields, "Step is connected to previous one, receiving \x7bcount\x7d fields"),
  (receivingInput, "Step is receiving info from other steps."),
  (noInput, "No input received from other steps!")]

/-- The standard templates, with others in their place. -/
def withTemplates (templates : Record Wide) : Catalog := Record.putAll standard templates

def text (c : Catalog) (o : Message.Objects) (key : String) (args : Record o.Object) :
    Except Message.Fault Wide :=
  match Record.get? key c with
  | some template => Message.render o args template
  | none => .ok key

end Catalog

structure Surroundings where
  hasIncomingSchema : Bool
  incomingFields : Value
  hasInput : Bool

namespace Surroundings

variable (o : Message.Objects)

def fieldsFinding (s : Surroundings) (c : Catalog) : Except Message.Fault Finding :=
  if !s.hasIncomingSchema || s.incomingFields.isZero then
    Finding.mk .warning <$> c.text o Catalog.noIncomingFields []
  else
    Finding.mk .ok <$> c.text o Catalog.receivingFields [("count", o.ofValue s.incomingFields)]

def inputFinding (s : Surroundings) (c : Catalog) : Except Message.Fault Finding :=
  if s.hasInput then Finding.mk .ok <$> c.text o Catalog.receivingInput []
  else Finding.mk .error <$> c.text o Catalog.noInput []

def check (s : Surroundings) (c : Catalog) : Except Message.Fault (List Finding) := do
  return [← s.fieldsFinding o c, ← s.inputFinding o c]

end Surroundings

end DocumentSink
