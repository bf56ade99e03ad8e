import DocumentSink.Text.Blank
import DocumentSink.Text.Utf8
import DocumentSink.Variables

/-!
Passwords as they are stored. A password is the number that its octets write; stored is that number,
combined bit by bit with a fixed one, in hexadecimal behind a mark. This hides a password from a
glance and no more. A password that refers to variables is stored as it is, so that they can still
be replaced.
-/

namespace DocumentSink.Password

def mark : List Char := "Encrypted ".toList

/-- The number that passwords are combined with. -/
def seed : Nat := 933910847463829827159347601486730416058

inductive Fault
  | notHexadecimal (text : String)
  | negative
  | notText (fault : Utf8.Fault)
  deriving DecidableEq, Repr

def Fault.message : Fault → String
  | .notHexadecimal text =>
    "invalid literal for int() with base 16: " ++ .ofList ((Text.quoted text.toList).take 200)
  | .negative => "can't convert negative int to unsigned"
  | .notText fault => fault.message

/-- The number that octets write, the highest first. -/
def ofOctets (octets : List UInt8) : Nat := octets.foldl (fun n b => n * 256 + b.toNat) 0

/-- The octets of a number, as few as it takes; none for zero. -/
def octets (n : Nat) : List UInt8 :=
  if h : n = 0 then []
  else octets (n / 256) ++ [.ofNat (n % 256)]
termination_by n
decreasing_by omega

def concealed (s : List Char) : List Char :=
  Nat.toDigits 16 (ofOctets (Utf8.encode s) ^^^ seed)

/-- A password with the mark, concealed. An empty one stays empty. -/
def conceal (password : String) : String :=
  if password.isEmpty then "" else .ofList (mark ++ concealed password.toList)

def reveal (digits : String) : Except Fault String :=
  if digits.isEmpty then .ok ""
  else
    let digits := Text.trim digits.toList
    match Numeral.hexadecimal? digits with
    | none => .error (.notHexadecimal (.ofList digits))
    | some n =>
      if n < 0 then .error .negative
      else match Utf8.decode (octets (n.toNat ^^^ seed)) with
        | .error fault => .error (.notText fault)
        | .ok s => .ok (.ofList s)

def store (password : String) : String :=
  if Variables.hasReferences password then password else conceal password

/-- The password of a stored form. What has no mark stands for itself. -/
def restore (stored : String) : Except Fault String :=
  if mark.isPrefixOf stored.toList then reveal (.ofList (stored.toList.drop mark.length))
  else .ok stored

end DocumentSink.Password
