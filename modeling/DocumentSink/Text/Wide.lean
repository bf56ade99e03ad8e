import DocumentSink.Text.Utf8

/-!
Texts that may hold surrogates. A code point is a character or one of the two halves that only stand
for a character together; a half by itself has no UTF-8. A text with a half in it is refused for the
first one.
-/

namespace DocumentSink

/-- A code point: a character, or the surrogate with a number below 2048. -/
inductive CodePoint
  | char (c : Char)
  | surrogate (n : Fin 2048)
  deriving DecidableEq, Repr

namespace CodePoint

def char? : CodePoint → Option Char
  | char c => some c
  | surrogate _ => none

def isSurrogate : CodePoint → Bool
  | char _ => false
  | surrogate _ => true

def number : CodePoint → Nat
  | char c => c.toNat
  | surrogate n => 0xD800 + n

/-- The code point with a number below 0x110000. -/
def ofNumber (n : Nat) : CodePoint :=
  if h : 0xD800 ≤ n ∧ n < 0xE000 then .surrogate ⟨n - 0xD800, by omega⟩ else .char (.ofNat n)

/-- A code point between quotes: a surrogate is shown by its number. -/
def quoted (quote : Char) : CodePoint → List Char
  | char c => Text.quotedChar quote c
  | surrogate n => '\\' :: 'u' :: Text.hexDigits 4 (0xD800 + n)

end CodePoint

abbrev Wide := List CodePoint

namespace Wide

def ofChars (s : List Char) : Wide := s.map .char

def ofString (s : String) : Wide := ofChars s.toList

instance : Coe String Wide := ⟨ofString⟩

def quoted (s : Wide) : List Char :=
  let quote := Text.quoteFor (s.filterMap CodePoint.char?)
  quote :: s.flatMap (·.quoted quote) ++ [quote]

def quote (s : Wide) : String := .ofList s.quoted

/-- Surrogates that stand together, the first in a text: their position and how many they are. -/
structure Fault where
  first : CodePoint
  position : Nat
  length : Nat
  deriving DecidableEq, Repr

def Fault.message (f : Fault) : String :=
  "'utf-8' codec can't encode " ++
    (if f.length = 1 then
      "character " ++ Wide.quote [f.first] ++ " in position " ++ Numeral.decimalText f.position
    else
      "characters in position " ++ Numeral.decimalText f.position ++ "-"
        ++ Numeral.decimalText (f.position + f.length - 1 : Nat))
    ++ ": surrogates not allowed"

/-- The characters of a text from a position on, or the first surrogates in it. -/
def charsAt (position : Nat) : Wide → Except Fault (List Char)
  | [] => .ok []
  | .char c :: s => (c :: ·) <$> charsAt (position + 1) s
  | .surrogate n :: s =>
    .error ⟨.surrogate n, position, (s.takeWhile (·.isSurrogate)).length + 1⟩

/-- The characters of a text, if it has no surrogate. -/
def chars (s : Wide) : Except Fault (List Char) := charsAt 0 s

def string? (s : Wide) : Option String :=
  match s.chars with
  | .ok s => some (.ofList s)
  | .error _ => none

/-- UTF-8, which surrogates have none of. -/
def encode (s : Wide) : Except Fault (List UInt8) := Utf8.encode <$> s.chars

theorem charsAt_ofChars (position : Nat) (s : List Char) :
    charsAt position (ofChars s) = .ok s := by
  induction s generalizing position with
  | nil => rfl
  | cons c s ih =>
      change (c :: ·) <$> charsAt (position + 1) (ofChars s) = _
      rw [ih]
      rfl

@[simp] theorem chars_ofChars (s : List Char) : (ofChars s).chars = .ok s := charsAt_ofChars 0 s

end Wide

end DocumentSink
