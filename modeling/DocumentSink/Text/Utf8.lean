import DocumentSink.Text.Quoted
import DocumentSink.Numeral.Integer

/-!
UTF-8. Encoding is total; decoding accepts exactly the shortest forms of the scalar values, and a
refusal names the octets at fault: the lead octet and those after it that could still have continued
it. A file is read as text by decoding it and by reading every line end as a line feed.
-/

namespace DocumentSink.Utf8

def tail (n : Nat) : UInt8 := .ofNat (0x80 + n % 64)

def encodeChar (c : Char) : List UInt8 :=
  let n := c.toNat
  if n < 0x80 then [.ofNat n]
  else if n < 0x800 then [.ofNat (0xC0 + n / 64), tail n]
  else if n < 0x10000 then [.ofNat (0xE0 + n / 4096), tail (n / 64), tail n]
  else [.ofNat (0xF0 + n / 262144), tail (n / 4096), tail (n / 64), tail n]

def encode (s : List Char) : List UInt8 := s.flatMap encodeChar

inductive Reason
  | start
  | continuation
  | endOfData
  deriving DecidableEq, Repr

/-- The first octets that are no text: the lead octet, its position and how many there are. -/
structure Fault where
  lead : UInt8
  position : Nat
  length : Nat
  reason : Reason
  deriving DecidableEq, Repr

def Reason.message : Reason → String
  | .start => "invalid start byte"
  | .continuation => "invalid continuation byte"
  | .endOfData => "unexpected end of data"

def Fault.message (f : Fault) : String :=
  let where_ :=
    if f.length = 1 then
      "byte 0x" ++ .ofList (Text.hexDigits 2 f.lead.toNat) ++ " in position "
        ++ Numeral.decimalText f.position
    else
      "bytes in position " ++ Numeral.decimalText f.position ++ "-"
        ++ Numeral.decimalText (f.position + f.length - 1 : Nat)
  "'utf-8' codec can't decode " ++ where_ ++ ": " ++ f.reason.message

def isTail (b : UInt8) : Bool := 0x80 ≤ b && b < 0xC0

/-- An octet that may be the second: it rules out overlong forms, surrogates and numbers past the
last code point. -/
def isSecond (lead b : UInt8) : Bool :=
  if lead = 0xE0 then 0xA0 ≤ b && b < 0xC0
  else if lead = 0xED then 0x80 ≤ b && b < 0xA0
  else if lead = 0xF0 then 0x90 ≤ b && b < 0xC0
  else if lead = 0xF4 then 0x80 ≤ b && b < 0x90
  else isTail b

/-- The value bits of a lead octet (`base` is its fixed part) and of those after it. -/
def join2 (a b : UInt8) : Char := .ofNat ((a.toNat - 0xC0) * 64 + (b.toNat - 0x80))

def join3 (a b c : UInt8) : Char :=
  .ofNat ((a.toNat - 0xE0) * 4096 + (b.toNat - 0x80) * 64 + (c.toNat - 0x80))

def join4 (a b c d : UInt8) : Char :=
  .ofNat ((a.toNat - 0xF0) * 262144 + (b.toNat - 0x80) * 4096 + (c.toNat - 0x80) * 64
    + (d.toNat - 0x80))

def decodeAt (pos : Nat) : List UInt8 → Except Fault (List Char)
  | [] => .ok []
  | a :: s =>
    if a < 0x80 then (Char.ofNat a.toNat :: ·) <$> decodeAt (pos + 1) s
    else if a < 0xC2 then .error ⟨a, pos, 1, .start⟩
    else if a < 0xE0 then
      match s with
      | [] => .error ⟨a, pos, 1, .endOfData⟩
      | b :: s =>
        if isTail b then (join2 a b :: ·) <$> decodeAt (pos + 2) s
        else .error ⟨a, pos, 1, .continuation⟩
    else if a < 0xF0 then
      match s with
      | [] => .error ⟨a, pos, 1, .endOfData⟩
      | [b] =>
        if isSecond a b then .error ⟨a, pos, 2, .endOfData⟩
        else .error ⟨a, pos, 1, .continuation⟩
      | b :: c :: s =>
        if !isSecond a b then .error ⟨a, pos, 1, .continuation⟩
        else if isTail c then (join3 a b c :: ·) <$> decodeAt (pos + 3) s
        else .error ⟨a, pos, 2, .continuation⟩
    else if a < 0xF5 then
      match s with
      | [] => .error ⟨a, pos, 1, .endOfData⟩
      | [b] =>
        if isSecond a b then .error ⟨a, pos, 2, .endOfData⟩
        else .error ⟨a, pos, 1, .continuation⟩
      | [b, c] =>
        if !isSecond a b then .error ⟨a, pos, 1, .continuation⟩
        else if isTail c then .error ⟨a, pos, 3, .endOfData⟩
        else .error ⟨a, pos, 2, .continuation⟩
      | b :: c :: d :: s =>
        if !isSecond a b then .error ⟨a, pos, 1, .continuation⟩
        else if !isTail c then .error ⟨a, pos, 2, .continuation⟩
        else if isTail d then (join4 a b c d :: ·) <$> decodeAt (pos + 4) s
        else .error ⟨a, pos, 3, .continuation⟩
    else .error ⟨a, pos, 1, .start⟩

def decode (bytes : List UInt8) : Except Fault (List Char) := decodeAt 0 bytes

end DocumentSink.Utf8

namespace DocumentSink.Text

/-- A carriage return, with a line feed behind it or not, ends a line as a line feed does, and
reading turns it into one. -/
def lineFeeds : List Char → List Char
  | '\r' :: '\n' :: s => '\n' :: lineFeeds s
  | '\r' :: s => '\n' :: lineFeeds s
  | c :: s => c :: lineFeeds s
  | [] => []

theorem lineFeeds_of_no_return {s : List Char} (h : '\r' ∉ s) : lineFeeds s = s := by
  induction s with
  | nil => rfl
  | cons c s ih =>
      have hc : c ≠ '\r' := fun e => h (e ▸ List.mem_cons_self)
      have hs : '\r' ∉ s := fun m => h (List.mem_cons_of_mem _ m)
      rw [lineFeeds, ih hs]
      · intro _ e; exact absurd e hc
      · exact hc

end DocumentSink.Text
