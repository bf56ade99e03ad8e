import DocumentSink.Plan
import DocumentSink.Value.Json

/-!
The values of a row that go into documents. A field without a value is left out; the text of a
fragment stands for the value that it writes, which has no surrogates.
-/

namespace DocumentSink

abbrev Row := Record Value

inductive FragmentFault
  | noText (kind : String)
  | notJson (text : String) (stop : Json.Stop)
  | notUnicode
  deriving DecidableEq, Repr

def FragmentFault.message : FragmentFault → String
  | noText kind => "the JSON object must be str, bytes or bytearray, not " ++ kind
  | notJson text stop => stop.message text.toList
  | notUnicode => "surrogates not allowed"

inductive MappingFault
  | fragment (field : String) (fault : FragmentFault)
  | blocked (field path segment : String)
  | notModifierMode
  | cursor (fault : PathFault)
  deriving DecidableEq, Repr

def MappingFault.message : MappingFault → String
  | fragment field fault =>
    "Field '" ++ field ++ "' does not hold a valid JSON fragment: " ++ fault.message
  | blocked field path segment =>
    "Field '" ++ field ++ "' path '" ++ path ++ "' passes through non-document value at '"
      ++ segment ++ "'"
  | notModifierMode => "modifier_update() requires modifier update mode"
  | cursor fault => fault.message

def readFragment : Value → Except FragmentFault Value
  | .text s =>
    match Json.read s.toList with
    | .ok j => j.value?.elim (.error .notUnicode) .ok
    | .error stop => .error (.notJson s stop)
  | v => .error (.noText v.kindName)

namespace FieldPlan

/-- The value that a row holds for a field; none where the field is inert or the value null. -/
def value? (p : FieldPlan) (row : Row) : Option Value :=
  if p.inert then none
  else match Record.get? p.mapping.incomingName row with
    | some .null => none
    | v => v

def placed (p : FieldPlan) (v : Value) : Except MappingFault Value :=
  if p.mapping.isFragment then
    match readFragment v with
    | .ok v => .ok v
    | .error fault => .error (.fragment p.mapping.incomingName fault)
  else .ok v

end FieldPlan

end DocumentSink
