import DocumentSink.Text.Utf8

/-!
The encoding of a document. A document comes as UTF-8, whatever its first line says; but where one
of the first two octets is zero, which no document in UTF-8 begins with, all octets are read in
pairs as UTF-16, the low octet first unless it is the first that is zero.
-/

namespace DocumentSink.Xml

/-- Octets in pairs, as numbers; none where one octet is left over. -/
def units? (lowFirst : Bool) : List UInt8 → Option (List Nat)
  | [] => some []
  | [_] => none
  | a :: b :: s =>
    ((if lowFirst then b.toNat * 256 + a.toNat else a.toNat * 256 + b.toNat) :: ·)
      <$> units? lowFirst s

/-- The characters of UTF-16. A unit that opens a pair takes the next one, whatever it is, and a
unit that could only close a pair is refused. -/
def ofUnits? : List Nat → Option (List Char)
  | [] => some []
  | u :: us =>
    if 0xD800 ≤ u && u < 0xDC00 then
      match us with
      | [] => none
      | v :: us => (.ofNat (0x10000 + (u - 0xD800) * 1024 + v % 1024) :: ·) <$> ofUnits? us
    else if 0xDC00 ≤ u && u < 0xE000 then none
    else (.ofNat u :: ·) <$> ofUnits? us

/-- The characters of the document that octets of UTF-8 hold; none where they are read as UTF-16 and
are none. The text is what the octets write as UTF-8. -/
def characters? (text : List Char) : Option (List Char) :=
  match Utf8.encode text with
  | 0 :: b :: s => units? false (0 :: b :: s) >>= ofUnits?
  | a :: 0 :: s => units? true (a :: 0 :: s) >>= ofUnits?
  | _ => some text

end DocumentSink.Xml
