import DocumentSink.Numeral.Integer

/-!
Double-precision numbers as their 64 bits, with exact conversions: from a quotient of naturals,
rounded to nearest with ties to even, and to decimal text, either shortest or with a given number of
digits. All arithmetic is on naturals.
-/

namespace DocumentSink.Numeral

structure Double where
  bits : UInt64
  deriving DecidableEq, Repr

namespace Double

def sign (d : Double) : Bool := d.bits.toNat / Nat.pow 2 63 = 1

def exponentField (d : Double) : Nat := d.bits.toNat / Nat.pow 2 52 % 2048

def fraction (d : Double) : Nat := d.bits.toNat % Nat.pow 2 52

def isNaN (d : Double) : Bool := d.exponentField = 2047 && d.fraction ≠ 0

def isInfinite (d : Double) : Bool := d.exponentField = 2047 && d.fraction = 0

def isZero (d : Double) : Bool := d.exponentField = 0 && d.fraction = 0

/-- The significand of a finite number, in units of `2 ^ (d.scale - 1074)`. -/
def significand (d : Double) : Nat :=
  if d.exponentField = 0 then d.fraction else Nat.pow 2 52 + d.fraction

def scale (d : Double) : Nat := d.exponentField - 1

/-- The magnitude of a finite number as a quotient of naturals. -/
def magnitude (d : Double) : Nat × Nat := (d.significand * Nat.pow 2 d.scale, Nat.pow 2 1074)

/-- The integer that a number equals, if it is whole. -/
def toInt? (d : Double) : Option Int :=
  let (num, den) := d.magnitude
  if d.exponentField = 2047 || num % den ≠ 0 then none else some (withSign d.sign (num / den))

def ofMagnitude (negative : Bool) (bits : Nat) : Double :=
  ⟨.ofNat (if negative then Nat.pow 2 63 + bits else bits)⟩

def infinity (negative : Bool) : Double := ofMagnitude negative (2047 * Nat.pow 2 52)

def nan : Double := ofMagnitude false (2047 * Nat.pow 2 52 + Nat.pow 2 51)

/-- The natural nearest to a quotient; a tie goes to the even one. -/
def roundDiv (num den : Nat) : Nat :=
  let q := num / den
  let r := num % den
  if 2 * r < den then q
  else if den < 2 * r then q + 1
  else if q % 2 = 0 then q else q + 1

/-- The bits of the double nearest to `num / den` (`den` positive). The scale is chosen so that the
rounded significand has at most 53 bits; a carry into the exponent gives the next binade. -/
def magnitudeBits (num den : Nat) : Nat :=
  let top := num * Nat.pow 2 1074 / den
  let scale := top.log2 - 52
  let m := roundDiv (num * Nat.pow 2 1074) (den * Nat.pow 2 scale)
  min (scale * Nat.pow 2 52 + m) (2047 * Nat.pow 2 52)

def ofQuotient (negative : Bool) (num den : Nat) : Double :=
  ofMagnitude negative (magnitudeBits num den)

/-- The double nearest to `m * 10 ^ e`. Exponents far outside the range are cut first: they give
infinity or zero whatever the digits are. -/
def ofDecimal (negative : Bool) (m : Nat) (e : Int) : Double :=
  if m = 0 then ofMagnitude negative 0
  else
    let size : Int := (Nat.toDigits 10 m).length + e
    if 400 < size then infinity negative
    else if size < -400 then ofMagnitude negative 0
    else if 0 ≤ e then ofQuotient negative (m * Nat.pow 10 e.toNat) 1
    else ofQuotient negative m (Nat.pow 10 (-e).toNat)

def ofInt (n : Int) : Double := ofQuotient (n < 0) n.natAbs 1

/-- The product with a natural, rounded to nearest. -/
def mulNat (d : Double) (k : Nat) : Double :=
  if d.exponentField = 2047 then d
  else
    let (num, den) := d.magnitude
    ofQuotient d.sign (num * k) den

/-- Decimal digits with the position of the point: `0.d₁d₂… * 10 ^ point`. -/
structure Decimal where
  digits : List Nat
  point : Int
  deriving DecidableEq, Repr

/-- The number of decimal digits before the point of a positive quotient; not positive when the
first digit stands behind the point. -/
def pointOf (num den : Nat) : Int :=
  if den ≤ num then ((Nat.toDigits 10 (num / den)).length : Int)
  else
    let shift := (Nat.toDigits 10 (den / num)).length
    if den ≤ num * Nat.pow 10 (shift - 1) then 2 - (shift : Int) else 1 - (shift : Int)

/-- A quotient in units of `10 ^ (-places)`, as a quotient. -/
def inUnits (num den : Nat) (places : Int) : Nat × Nat :=
  if 0 ≤ places then (num * Nat.pow 10 places.toNat, den)
  else (num, den * Nat.pow 10 (-places).toNat)

def digitsOf (n : Nat) : List Nat := (Nat.toDigits 10 n).map fun c => c.toNat - 48

/-- A number of `count` digits, or the carry into one digit more, with the point of the former. -/
def Decimal.ofUnits (count : Nat) (point : Int) (n : Nat) : Decimal :=
  let ds := digitsOf n
  ⟨ds.take count, if ds.length ≤ count then point else point + 1⟩

/-- A positive finite number with `count` significant digits, `count` positive. -/
def significant (d : Double) (count : Nat) : Decimal :=
  let (num, den) := d.magnitude
  let point := pointOf num den
  let (n, unit) := inUnits num den (count - point)
  .ofUnits count point (roundDiv n unit)

/-- The number of `count` digits that reads back as the double, if there is one: of the two grid
points around it the nearer that does. -/
def gridPoint? (d : Double) (count : Nat) : Option Decimal :=
  let (num, den) := d.magnitude
  let point := pointOf num den
  let (n, unit) := inUnits num den (count - point)
  let nearest := roundDiv n unit
  let other := if nearest = n / unit then n / unit + 1 else n / unit
  let readsBack (x : Decimal) : Bool :=
    ofDecimal false (ofDigits 10 x.digits) (x.point - x.digits.length)
      == ofMagnitude false (d.bits.toNat % Nat.pow 2 63)
  ([nearest, other].map (Decimal.ofUnits count point)).find? readsBack

/-- The fewest significant digits that read back as a positive finite number; seventeen always do.
-/
def shortest (d : Double) : Decimal :=
  match (List.range 17).findSome? fun k => d.gridPoint? (k + 1) with
  | some x => x
  | none => d.significant 17

end Double

end DocumentSink.Numeral
