import DocumentSink.Text.Wide
import DocumentSink.Value

/-!
JSON text. Beside the standard grammar the reader takes `NaN`, `Infinity` and `-Infinity`; a number
with a point or an exponent is a double, any other is an integer of at most 4300 digits. A name that
comes twice keeps its first place and its last value. Escapes may write surrogates, and names and
texts with such a half in them are no part of a value. A refusal tells where reading stopped.
-/

namespace DocumentSink

/-- What JSON text writes. -/
inductive Json
  | null
  | bool (b : Bool)
  | int (n : Int)
  | float (d : Numeral.Double)
  | text (s : Wide)
  | list (items : List Json)
  | object (members : List (Wide × Json))
  deriving Inhabited

namespace Json

mutual
/-- The value, if no name or text in it has a surrogate. -/
def value? : Json → Option Value
  | null => some .null
  | bool b => some (.bool b)
  | int n => some (.int n)
  | float d => some (.float d)
  | text s => s.string?.map .text
  | list items => (values? items).map .list
  | object members => (members? members).map .object

def values? : List Json → Option (List Value)
  | [] => some []
  | j :: items => do return (← value? j) :: (← values? items)

def members? : List (Wide × Json) → Option (List (String × Value))
  | [] => some []
  | (n, j) :: members => do return (← n.string?, ← value? j) :: (← members? members)
end

/-- Replaces the value of a name in its place, or appends the pair. -/
def putMember (name : Wide) (j : Json) : List (Wide × Json) → List (Wide × Json)
  | [] => [(name, j)]
  | (n, i) :: members => if n = name then (n, j) :: members else (n, i) :: putMember name j members

inductive Cause
  | value
  | name
  | colon
  | comma
  | unterminated
  | control
  | escape
  | unicodeEscape
  | extra
  | byteOrderMark
  deriving DecidableEq, Repr

/-- Why a text is refused: a cause with the number of characters that were left, or an integer with
too many digits. -/
inductive Stop
  | here (cause : Cause) (left : Nat)
  | tooLong (digits : Nat)
  deriving DecidableEq, Repr

def Cause.message : Cause → String
  | .value => "Expecting value"
  | .name => "Expecting property name enclosed in double quotes"
  | .colon => "Expecting ':' delimiter"
  | .comma => "Expecting ',' delimiter"
  | .unterminated => "Unterminated string starting at"
  | .control => "Invalid control character at"
  | .escape => "Invalid \\escape"
  | .unicodeEscape => "Invalid \\uXXXX escape"
  | .extra => "Extra data"
  | .byteOrderMark => "Unexpected UTF-8 BOM (decode using utf-8-sig)"

/-- The message for a text, with the line, the column and the offset of the place. -/
def Stop.message (text : List Char) : Stop → String
  | .here cause left =>
    let before := text.take (text.length - left)
    let column := (before.reverse.takeWhile (· != '\n')).length + 1
    cause.message ++ ": line " ++ Numeral.decimalText (before.count '\n' + 1 : Nat)
      ++ " column " ++ Numeral.decimalText column
      ++ " (char " ++ Numeral.decimalText before.length ++ ")"
  | .tooLong digits =>
    "Exceeds the limit (4300 digits) for integer string conversion: value has "
      ++ Numeral.decimalText digits
      ++ " digits; use sys.set_int_max_str_digits() to increase the limit"

def isSpace (c : Char) : Bool := c == ' ' || c == '\t' || c == '\n' || c == '\r'

def skip (s : List Char) : List Char := s.dropWhile isSpace

def simpleEscape? : Char → Option Char
  | '"' => some '"'
  | '\\' => some '\\'
  | '/' => some '/'
  | 'b' => some '\x08'
  | 'f' => some '\x0c'
  | 'n' => some '\n'
  | 'r' => some '\r'
  | 't' => some '\t'
  | _ => none

def hexDigit? (c : Char) : Option Nat := if c.toNat < 0x80 then Numeral.hexDigit? c else none

def unit? (a b c d : Char) : Option Nat := do
  let a ← hexDigit? a
  let b ← hexDigit? b
  let c ← hexDigit? c
  let d ← hexDigit? d
  return ((a * 16 + b) * 16 + c) * 16 + d

def isHigh (n : Nat) : Bool := 0xD800 ≤ n && n < 0xDC00

def isLow (n : Nat) : Bool := 0xDC00 ≤ n && n < 0xE000

/-- The text up to the closing quote, and what follows it. `opening` is what was left at the opening
quote. -/
def string (opening : Nat) : List Char → Except Stop (Wide × List Char)
  | [] => .error (.here .unterminated opening)
  | '"' :: s => .ok ([], s)
  | ['\\'] => .error (.here .unterminated opening)
  | '\\' :: 'u' :: a :: b :: c :: d :: s =>
    match unit? a b c d, s with
    | none, _ => .error (.here .unicodeEscape (s.length + 5))
    | some _, [] => .error (.here .unicodeEscape (s.length + 5))
    | some n, '\\' :: 'u' :: e :: f :: g :: h :: t =>
      if isHigh n && !t.isEmpty then
        match unit? e f g h with
        | none => .error (.here .unicodeEscape (t.length + 5))
        | some m =>
          if isLow m then do
            let (out, r) ← string opening t
            return (.ofNumber (0x10000 + (n - 0xD800) * 1024 + (m - 0xDC00)) :: out, r)
          else do
            let (out, r) ← string opening ('\\' :: 'u' :: e :: f :: g :: h :: t)
            return (.ofNumber n :: out, r)
      else do
        let (out, r) ← string opening ('\\' :: 'u' :: e :: f :: g :: h :: t)
        return (.ofNumber n :: out, r)
    | some n, s => do
      let (out, r) ← string opening s
      return (.ofNumber n :: out, r)
  | '\\' :: 'u' :: s => .error (.here .unicodeEscape (s.length + 1))
  | '\\' :: c :: s =>
    match simpleEscape? c with
    | none => .error (.here .escape (s.length + 2))
    | some e => do
      let (out, r) ← string opening s
      return (.char e :: out, r)
  | c :: s =>
    if c.toNat < 0x20 then .error (.here .control (s.length + 1))
    else do
      let (out, r) ← string opening s
      return (.char c :: out, r)

/-- Digits at the front, and what follows them. -/
def takeDigits (s : List Char) : List Char × List Char := s.span Char.isDigit

def takeFraction : List Char → List Char × List Char
  | '.' :: s =>
    match takeDigits s with
    | ([], _) => ([], '.' :: s)
    | (ds, r) => (ds, r)
  | s => ([], s)

/-- An exponent with digits, if one stands there. -/
def takeExponent (s : List Char) : Option (Int × List Char) :=
  match s with
  | e :: s =>
    if e == 'e' || e == 'E' then
      let (negative, s) := Numeral.signed s
      match takeDigits s with
      | ([], _) => none
      | (ds, r) => some (Numeral.withSign negative (natOf ds), r)
    else none
  | [] => none
where
  natOf (ds : List Char) : Nat := Numeral.ofDigits 10 (ds.map fun c => c.toNat - 48)

/-- The digits of a whole number: zero alone, or digits that start with none. -/
def takeWhole : List Char → Option (List Char × List Char)
  | '0' :: s => some (['0'], s)
  | s =>
    match takeDigits s with
    | ([], _) => none
    | (ds, r) => some (ds, r)

def number (s : List Char) : Except Stop (Json × List Char) :=
  let (negative, t) := match s with
    | '-' :: t => (true, t)
    | t => (false, t)
  match takeWhole t with
  | none => .error (.here .value s.length)
  | some (whole, t) =>
    let (fraction, t) := takeFraction t
    let exponent := takeExponent t
    if fraction.isEmpty && exponent.isNone then
      if Numeral.digitLimit < whole.length then .error (.tooLong whole.length)
      else .ok (.int (Numeral.withSign negative (takeExponent.natOf whole)), t)
    else
      let (e, t) := exponent.getD (0, t)
      .ok (.float (.ofDecimal negative (takeExponent.natOf (whole ++ fraction))
        (e - fraction.length)), t)

mutual
/-- A value at the front of a text. The first argument bounds the depth: of two nested calls at
least one takes a character. -/
def value : Nat → List Char → Except Stop (Json × List Char)
  | 0, s => .error (.here .value s.length)
  | depth + 1, s =>
    match s with
    | [] => .error (.here .value 0)
    | '"' :: r => do
      let (t, r) ← string s.length r
      return (.text t, r)
    | '\x7b' :: r =>
      match skip r with
      | '\x7d' :: r => .ok (.object [], r)
      | r => members depth r []
    | '[' :: r =>
      match skip r with
      | ']' :: r => .ok (.list [], r)
      | r => items depth r []
    | 'n' :: 'u' :: 'l' :: 'l' :: r => .ok (.null, r)
    | 't' :: 'r' :: 'u' :: 'e' :: r => .ok (.bool true, r)
    | 'f' :: 'a' :: 'l' :: 's' :: 'e' :: r => .ok (.bool false, r)
    | 'N' :: 'a' :: 'N' :: r => .ok (.float .nan, r)
    | 'I' :: 'n' :: 'f' :: 'i' :: 'n' :: 'i' :: 't' :: 'y' :: r => .ok (.float (.infinity false), r)
    | '-' :: 'I' :: 'n' :: 'f' :: 'i' :: 'n' :: 'i' :: 't' :: 'y' :: r =>
      .ok (.float (.infinity true), r)
    | s => number s

/-- The members of an object from a name on, after those already read. -/
def members : Nat → List Char → List (Wide × Json) → Except Stop (Json × List Char)
  | 0, s, _ => .error (.here .value s.length)
  | depth + 1, s, read =>
    match s with
    | '"' :: r => do
      let (name, r) ← string s.length r
      match skip r with
      | ':' :: r => do
        let (v, r) ← value depth (skip r)
        let read := putMember name v read
        match skip r with
        | '\x7d' :: r => return (.object read, r)
        | ',' :: r => members depth (skip r) read
        | r => throw (.here .comma r.length)
      | r => throw (.here .colon r.length)
    | s => .error (.here .name s.length)

/-- The items of a list from a value on, after those already read, the last first. -/
def items : Nat → List Char → List Json → Except Stop (Json × List Char)
  | 0, s, _ => .error (.here .value s.length)
  | depth + 1, s, read => do
    let (v, r) ← value depth s
    match skip r with
    | ']' :: r => return (.list (v :: read).reverse, r)
    | ',' :: r => items depth (skip r) (v :: read)
    | r => throw (.here .comma r.length)
end

def read (s : List Char) : Except Stop Json :=
  match s with
  | '\uFEFF' :: _ => .error (.here .byteOrderMark s.length)
  | s => do
    let (v, r) ← value (2 * s.length + 2) (skip s)
    match skip r with
    | [] => return v
    | r => throw (.here .extra r.length)

end Json

end DocumentSink
