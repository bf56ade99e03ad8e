/-!
Integers as text. Reading takes an optional sign and digits of any script, with single underscores
between digits; writing gives the plain decimal form. In base sixteen there are also the letters a
to f and an optional mark `0x`, and a decimal text may hold at most 4300 digits. Each script writes
its ten digits at consecutive code points, so a table of the zeros tells all of them.
-/

namespace DocumentSink.Numeral

/-- The zeros of the scripts past ASCII that have decimal digits (Unicode 14). -/
def zeros : List Nat := [
  0x660, 0x6F0, 0x7C0, 0x966, 0x9E6, 0xA66, 0xAE6, 0xB66, 0xBE6, 0xC66, 0xCE6, 0xD66, 0xDE6,
  0xE50, 0xED0, 0xF20, 0x1040, 0x1090, 0x17E0, 0x1810, 0x1946, 0x19D0, 0x1A80, 0x1A90, 0x1B50,
  0x1BB0, 0x1C40, 0x1C50, 0xA620, 0xA8D0, 0xA900, 0xA9D0, 0xA9F0, 0xAA50, 0xABF0, 0xFF10, 0x104A0,
  0x10D30, 0x11066, 0x110F0, 0x11136, 0x111D0, 0x112F0, 0x11450, 0x114D0, 0x11650, 0x116C0,
  0x11730, 0x118E0, 0x11950, 0x11C50, 0x11D50, 0x11DA0, 0x16A60, 0x16AC0, 0x16B50, 0x1D7CE,
  0x1D7D8, 0x1D7E2, 0x1D7EC, 0x1D7F6, 0x1E140, 0x1E2F0, 0x1E950, 0x1FBF0]

/-- The value of a decimal digit of any script, and of nothing else. -/
def digit? (c : Char) : Option Nat :=
  if c.isDigit then some (c.toNat - 48)
  else if c.toNat < 0x80 then none
  else (zeros.find? fun z => z ≤ c.toNat && c.toNat < z + 10).map (c.toNat - ·)

def asciiDigit (n : Nat) : Char := Char.ofNat (48 + n)

/-- The digits after a first one: each may have one underscore before it. -/
def moreDigits (value : Char → Option Nat) : List Char → Option (List Nat)
  | [] => some []
  | '_' :: c :: s => (value c).bind fun d => (moreDigits value s).map (d :: ·)
  | c :: s => (value c).bind fun d => (moreDigits value s).map (d :: ·)

/-- A digit, and more digits. -/
def digits? (value : Char → Option Nat) : List Char → Option (List Nat)
  | [] => none
  | c :: s => (value c).bind fun d => (moreDigits value s).map (d :: ·)

/-- The number that digits denote, the highest first. -/
def ofDigits (base : Nat) (ds : List Nat) : Nat := ds.foldl (fun n d => n * base + d) 0

/-- A sign in front of a text, and whether it is the minus. -/
def signed : List Char → Bool × List Char
  | '-' :: s => (true, s)
  | '+' :: s => (false, s)
  | s => (false, s)

def withSign (negative : Bool) (n : Nat) : Int := if negative then -(n : Int) else n

def digitLimit : Nat := 4300

def decimal? (s : List Char) : Option Int :=
  let (negative, s) := signed s
  (digits? digit? s).bind fun ds =>
    if digitLimit < ds.length then none else some (withSign negative (ofDigits 10 ds))

/-- The value of a hexadecimal digit; the letters are ASCII. -/
def hexDigit? (c : Char) : Option Nat :=
  if 'a' ≤ c && c ≤ 'f' then some (c.toNat - 87)
  else if 'A' ≤ c && c ≤ 'F' then some (c.toNat - 55)
  else digit? c

/-- The mark of base sixteen in front of a text, with one underscore after it, is dropped. -/
def dropHexMark : List Char → List Char
  | zero :: x :: s =>
    if digit? zero = some 0 && (x == 'x' || x == 'X') then
      match s with
      | '_' :: s => s
      | s => s
    else zero :: x :: s
  | s => s

def hexadecimal? (s : List Char) : Option Int :=
  let (negative, s) := signed s
  (digits? hexDigit? (dropHexMark s)).map fun ds => withSign negative (ofDigits 16 ds)

def decimal (n : Int) : List Char :=
  if n < 0 then '-' :: Nat.toDigits 10 n.natAbs else Nat.toDigits 10 n.natAbs

def decimalText (n : Int) : String := .ofList (decimal n)

/-- An integer of more digits than a decimal text may hold has no text. -/
@[irreducible] def isLong (n : Int) : Bool := Nat.pow 10 digitLimit ≤ n.natAbs

def longMessage : String :=
  "Exceeds the limit (4300 digits) for integer string conversion; "
    ++ "use sys.set_int_max_str_digits() to increase the limit"

/-- An integer of 64 bits. -/
def isWord (n : Int) : Bool := -(Nat.pow 2 63 : Int) ≤ n && n < Nat.pow 2 63

end DocumentSink.Numeral
