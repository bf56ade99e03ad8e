import DocumentSink.Numeral.Double

/-!
Doubles as decimal text: with an exponent, with fixed places, in the shorter of these two, or with
the fewest digits that read back.
-/

namespace DocumentSink.Numeral

/-- The ways to write a double. Significant digits and places are given beside them. -/
inductive Style
  | exponent
  | fixed
  | general
  | shortest
  deriving DecidableEq, Repr

/-- How a double is written: the style, how many digits, whether the point is always kept, whether a
whole number gets a zero behind the point, and whether a zero is written without sign. -/
structure Layout where
  style : Style := .shortest
  precision : Nat := 0
  keepPoint : Bool := false
  pointZero : Bool := false
  plainZero : Bool := false
  deriving DecidableEq, Repr

namespace Layout

/-- Trailing zeros do not count as digits; zero itself is one digit before the point. -/
def stripped (x : Double.Decimal) : Double.Decimal :=
  match (x.digits.reverse.dropWhile (· == 0)).reverse with
  | [] => ⟨[0], 1⟩
  | ds => ⟨ds, x.point⟩

def digits (l : Layout) (d : Double) : Double.Decimal :=
  if d.isZero then ⟨[0], 1⟩
  else match l.style with
    | .shortest => stripped d.shortest
    | .exponent => stripped (d.significant (l.precision + 1))
    | .general => stripped (d.significant (max l.precision 1))
    | .fixed =>
      let (num, den) := d.magnitude
      let ds := Double.digitsOf (Double.roundDiv (num * Nat.pow 10 l.precision) den)
      stripped ⟨ds, (ds.length : Int) - l.precision⟩

/-- Whether an exponent is written. The general style has one outside of `1e-4` to its precision,
the shortest style outside of `1e-4` to `1e16`. -/
def usesExponent (l : Layout) (point : Int) : Bool :=
  match l.style with
  | .exponent => true
  | .fixed => false
  | .general => point ≤ -4 || (max l.precision 1 : Int) - (if l.pointZero then 1 else 0) < point
  | .shortest => point ≤ -4 || 16 < point

/-- The digit that stands at an index, zero outside of those given. -/
def digitAt (ds : List Nat) (i : Int) : Char :=
  if i < 0 then '0' else asciiDigit (ds.getD i.toNat 0)

def span (ds : List Nat) (start stop : Int) : List Char :=
  (List.range (stop - start).toNat).map fun (k : Nat) => digitAt ds (start + k)

def exponentText (e : Int) : List Char :=
  let ds := Nat.toDigits 10 e.natAbs
  'e' :: (if e < 0 then '-' else '+') :: (if ds.length < 2 then '0' :: ds else ds)

def magnitude (l : Layout) (d : Double) : List Char :=
  let x := l.digits d
  let withExponent := l.usesExponent x.point
  let point := if withExponent then 1 else x.point
  let shown : Int :=
    match l.style with
    | .exponent => l.precision + 1
    | .fixed => x.point + l.precision
    | .general => if l.keepPoint then max l.precision 1 else x.digits.length
    | .shortest => x.digits.length
  let stop := max shown (if !withExponent && l.pointZero then point + 1 else point)
  let whole := span x.digits (if point ≤ 0 then point - 1 else 0) point
  let part := span x.digits point stop
  let mantissa := if part.isEmpty && !l.keepPoint then whole else whole ++ '.' :: part
  if withExponent then mantissa ++ exponentText (x.point - 1) else mantissa

def text (l : Layout) (d : Double) : List Char :=
  if d.isNaN then ['n', 'a', 'n']
  else
    let body := if d.isInfinite then ['i', 'n', 'f'] else l.magnitude d
    let hidden := l.plainZero && !d.isInfinite && (l.digits d).digits == [0]
    if d.sign && !hidden then '-' :: body else body

end Layout

/-- The usual text of a double: fewest digits, and a point or an exponent in every case. -/
def Double.text (d : Double) : List Char := Layout.text { pointZero := true } d

end DocumentSink.Numeral
