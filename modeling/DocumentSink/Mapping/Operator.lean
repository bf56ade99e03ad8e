import DocumentSink.Text.Blank

/-!
Update operators and the branches of an upsert in which they apply, with the tokens that name them.
A token counts in whatever case and with blanks around it; a blank one names the first choice.
-/

namespace DocumentSink

inductive Operator
  | none
  | set
  | increment
  | push
  deriving DecidableEq, Repr, Inhabited

inductive ApplyPolicy
  | insertOnly
  | updateOnly
  | insertAndUpdate
  deriving DecidableEq, Repr

instance : Inhabited ApplyPolicy := ⟨.insertAndUpdate⟩

/-- A token that names no operator, or no policy. -/
inductive TokenFault
  | unknownOperator (token : String)
  | unknownPolicy (token : String)
  deriving DecidableEq, Repr

def TokenFault.message : TokenFault → String
  | .unknownOperator token => "Unknown modifier operation '" ++ token ++ "'"
  | .unknownPolicy token => "Unknown apply policy '" ++ token ++ "'"

namespace Operator

def token : Operator → String
  | none => "N/A"
  | set => "$set"
  | increment => "$inc"
  | push => "$push"

def name : Operator → String
  | none => "NONE"
  | set => "SET"
  | increment => "INCREMENT"
  | push => "PUSH"

def all : List Operator := [none, set, increment, push]

def ofExactToken? (s : String) : Option Operator := all.find? fun o => o.token = s

def ofToken (s : String) : Except TokenFault Operator :=
  let s := Text.trimmed s
  if s.isEmpty then .ok none
  else match all.find? fun o => Text.sameToken o.token s with
    | some o => .ok o
    | .none => .error (.unknownOperator s)

def needsNumber (o : Operator) : Bool := o = increment

def makesList (o : Operator) : Bool := o = push

end Operator

namespace ApplyPolicy

def token : ApplyPolicy → String
  | insertOnly => "Insert"
  | updateOnly => "Update"
  | insertAndUpdate => "Insert&Update"

def name : ApplyPolicy → String
  | insertOnly => "INSERT_ONLY"
  | updateOnly => "UPDATE_ONLY"
  | insertAndUpdate => "INSERT_AND_UPDATE"

def all : List ApplyPolicy := [insertOnly, updateOnly, insertAndUpdate]

def ofExactToken? (s : String) : Option ApplyPolicy := all.find? fun p => p.token = s

def ofToken (s : String) : Except TokenFault ApplyPolicy :=
  let s := Text.trimmed s
  if s.isEmpty then .ok insertAndUpdate
  else match all.find? fun p => Text.sameToken p.token s with
    | some p => .ok p
    | none => .error (.unknownPolicy s)

/-- Whether a mapping takes part in the insert branch, or in the update branch. -/
def admits : ApplyPolicy → (isInsert : Bool) → Bool
  | insertOnly, isInsert => isInsert
  | updateOnly, isInsert => !isInsert
  | insertAndUpdate, _ => true

end ApplyPolicy

end DocumentSink
