import DocumentSink.Message.Fault

/-!
How an argument of a message is laid out: a fill and an alignment, a sign, an alternate form, a
width, a mark between groups of digits, a precision and a code for the form. Texts take width and
precision; numbers take all but what their code rules out.
-/

namespace DocumentSink.Message

inductive Align
  | left
  | right
  | center
  | afterSign
  deriving DecidableEq, Repr

def Align.ofCodePoint? : CodePoint → Option Align
  | .char '<' => some .left
  | .char '>' => some .right
  | .char '^' => some .center
  | .char '=' => some .afterSign
  | _ => none

structure Layout where
  fill : CodePoint := .char ' '
  align : Align
  sign : Option Char := none
  plainZero : Bool := false
  alternate : Bool := false
  width : Nat := 0
  group : Option Char := none
  precision : Option Nat := none
  code : Option CodePoint := none
  deriving Repr

def numberLimit : Nat := Nat.pow 2 63 - 1

/-- A number at the front of a text, if there is one, and what follows it. -/
def takeNumber (s : Wide) : Except Fault (Option Nat × Wide) :=
  let digit? (c : CodePoint) := c.char?.bind Numeral.digit?
  let (ds, r) := s.span fun c => (digit? c).isSome
  if ds.isEmpty then .ok (none, s)
  else
    let n := Numeral.ofDigits 10 (ds.filterMap digit?)
    if numberLimit < n then .error .longNumber else .ok (some n, r)

/-- Drops a character at the front, and tells whether it was there. -/
def takeChar (c : Char) : Wide → Bool × Wide
  | d :: s => if d = .char c then (true, s) else (false, d :: s)
  | [] => (false, [])

/-- An alignment at the front, with a fill before it or none. -/
def takeAlign : Wide → Option CodePoint × Option Align × Wide
  | fill :: a :: s =>
    match Align.ofCodePoint? a with
    | some align => (some fill, some align, s)
    | none =>
      match Align.ofCodePoint? fill with
      | some align => (none, some align, a :: s)
      | none => (none, none, fill :: a :: s)
  | [a] =>
    match Align.ofCodePoint? a with
    | some align => (none, some align, [])
    | none => (none, none, [a])
  | [] => (none, none, [])

def takeSign : Wide → Option Char × Wide
  | .char ' ' :: s => (some ' ', s)
  | .char '+' :: s => (some '+', s)
  | .char '-' :: s => (some '-', s)
  | s => (none, s)

def takeGroup (s : Wide) : Except Fault (Option Char × Wide) :=
  let (comma, s) := takeChar ',' s
  let (underscore, s) := takeChar '_' s
  if comma && underscore then .error .bothSeparators
  else if underscore && (takeChar ',' s).1 then .error .bothSeparators
  else .ok (if comma then some ',' else if underscore then some '_' else none, s)

def takePrecision : Wide → Except Fault (Option Nat × Wide)
  | .char '.' :: s => do
    match ← takeNumber s with
    | (some n, s) => return (some n, s)
    | (none, _) => throw .noPrecision
  | s => .ok (none, s)

/-- Groups go with decimal numbers; underscores go with the other bases too. -/
def checkGroup (group : Option Char) (code : Option CodePoint) : Except Fault Unit :=
  match group, code with
  | none, _ => .ok ()
  | some _, none => .ok ()
  | some mark, some code =>
    if (Wide.ofString "defgEG%F").contains code then .ok ()
    else if mark = '_' && (Wide.ofString "boxX").contains code then .ok ()
    else .error (.separator mark code)

/-- A layout for an argument of a kind, which has an alignment and a code of its own where the text
gives none. -/
def Layout.read (kind : String) (align : Align) (code : Option Char) (text : Wide) :
    Except Fault Layout := do
  let (fill, given, s) := takeAlign text
  let (sign, s) := takeSign s
  let (plainZero, s) := takeChar 'z' s
  let (alternate, s) := takeChar '#' s
  let (zero, s) := if fill.isNone then takeChar '0' s else (false, s)
  let (width, s) ← takeNumber s
  let (group, s) ← takeGroup s
  let (precision, s) ← takePrecision s
  let code ← match s with
    | [] => pure (code.map .char)
    | [c] => pure (some c)
    | _ => throw (.unreadLayout text kind)
  checkGroup group code
  return {
    fill := if zero then .char '0' else fill.getD (.char ' ')
    align := given.getD (if zero && align = .right then .afterSign else align)
    sign, plainZero, alternate
    width := width.getD 0
    group, precision, code }

/-- Fills a text up to the width; what is to the left of `body` stays in front of the fill when that
goes after the sign. -/
def Layout.pad (l : Layout) (front body : Wide) : Wide :=
  let missing := l.width - (front.length + body.length)
  match l.align with
  | .left => front ++ body ++ .replicate missing l.fill
  | .right => .replicate missing l.fill ++ front ++ body
  | .afterSign => front ++ .replicate missing l.fill ++ body
  | .center =>
    .replicate (missing / 2) l.fill ++ front ++ body ++ .replicate (missing - missing / 2) l.fill

/-- Digits, the last first, in groups of `size` with a mark between them, and with as many zeros as
a least width asks for. The first argument bounds the number of groups. -/
def grouped (size : Nat) (mark : Char) : Nat → List Char → Int → List Char
  | 0, _, _ => []
  | fuel + 1, ds, least =>
    let len := min size (max (max ds.length least.toNat) 1)
    let chunk := ds.take len ++ .replicate (len - ds.length) '0'
    let rest := ds.drop len
    let least := least - len
    if rest.isEmpty && least ≤ 0 then chunk
    else chunk ++ mark :: grouped size mark fuel rest (least - 1)

/-- The digits of a whole number as a layout shows them, at least `least` characters. -/
def Layout.wholeDigits (l : Layout) (ds : List Char) (least : Int) : List Char :=
  match l.group with
  | none => .replicate (least.toNat - ds.length) '0' ++ ds
  | some mark =>
    let size := if (l.code.map (Wide.ofString "boxX").contains).getD false then 4 else 3
    (grouped size mark (ds.length + least.toNat + 1) ds.reverse least).reverse

def Layout.signText (l : Layout) (negative : Bool) : List Char :=
  if negative then ['-']
  else match l.sign with
    | some '+' => ['+']
    | some ' ' => [' ']
    | _ => []

/-- A number in parts: sign, mark of the base, whole digits, and all that follows them. -/
def Layout.number (l : Layout) (negative : Bool) (mark whole : List Char) (rest : Wide) : Wide :=
  let front := l.signText negative ++ mark
  let least : Int :=
    if l.fill = .char '0' && l.align = .afterSign then
      l.width - (front.length + rest.length : Nat)
    else 0
  let digits := if whole.isEmpty then [] else l.wholeDigits whole least
  l.pad (.ofChars front) (.ofChars digits ++ rest)

/-- A double as a layout shows it; `code` is the form of the number. -/
def Layout.double (l : Layout) (code : Option CodePoint) (d : Numeral.Double) : Wide :=
  let code := code.bind CodePoint.char?
  let percent := code = some '%'
  let d := if percent then d.mulNat 100 else d
  let style : Numeral.Style := match code with
    | some 'e' | some 'E' => .exponent
    | some 'f' | some 'F' | some '%' => .fixed
    | some _ => .general
    | none => if l.precision.isSome then .general else .shortest
  let shape : Numeral.Layout := {
    style
    precision := l.precision.getD (if code.isNone then 0 else 6)
    keepPoint := l.alternate
    pointZero := code.isNone
    plainZero := l.plainZero }
  let text := shape.text d
  let text := if "EFG".toList.any (code = some ·) then text.map Char.toUpper else text
  let text := if percent then text ++ ['%'] else text
  let (negative, text) := match text with
    | '-' :: text => (true, text)
    | text => (false, text)
  let (whole, rest) := text.span Char.isDigit
  l.number negative [] whole (.ofChars rest)

def Layout.character (l : Layout) (n : Int) : Except Fault Wide :=
  if l.sign.isSome then .error .characterSign
  else if l.alternate then .error .characterAlternate
  else if !Numeral.isWord n then .error .characterSize
  else if n < 0 || 0x110000 ≤ n then .error .characterRange
  else .ok (l.number false [] [] [.ofNumber n.toNat])

/-- An integer in a base, with the mark of the base in the alternate form. -/
def Layout.integer (l : Layout) (base : Nat) (mark : List Char) (n : Int) : Wide :=
  l.number (n < 0) (if l.alternate then mark else []) (Nat.toDigits base n.natAbs) []

def Layout.capitalHex (l : Layout) (n : Int) : Wide :=
  l.number (n < 0) (if l.alternate then ['0', 'X'] else [])
    ((Nat.toDigits 16 n.natAbs).map Char.toUpper) []

def precisionLimit : Nat := Nat.pow 2 31 - 1

def Layout.checkPrecision (l : Layout) : Except Fault Unit :=
  if l.precision.any (precisionLimit < ·) then .error .doublePrecision else .ok ()

def formatInt (kind : String) (n : Int) (text : Wide) : Except Fault Wide := do
  let l ← Layout.read kind .right (some 'd') text
  let some (.char code) := l.code | throw (.unknownCode (l.code.getD (.char 'd')) kind)
  if "eEfFgG%".toList.contains code then
    l.checkPrecision
    let d := Numeral.Double.ofInt n
    if d.isInfinite then throw .doubleSize else return l.double l.code d
  else if "bcdoxXn".toList.contains code then
    if l.precision.isSome then throw .integerPrecision
    if l.plainZero then throw .integerPlainZero
    match code with
    | 'c' => l.character n
    | 'b' => return l.integer 2 ['0', 'b'] n
    | 'o' => return l.integer 8 ['0', 'o'] n
    | 'x' => return l.integer 16 ['0', 'x'] n
    | 'X' => return l.capitalHex n
    | _ => if Numeral.isLong n then throw .tooLong else return l.integer 10 [] n
  else throw (.unknownCode (.char code) kind)

def formatDouble (d : Numeral.Double) (text : Wide) : Except Fault Wide := do
  let l ← Layout.read "float" .right none text
  let code := l.code.getD (.char 'g')
  if (Wide.ofString "eEfFgGn%").contains code then
    l.checkPrecision
    return l.double l.code d
  else throw (.unknownCode code "float")

def formatText (s : Wide) (text : Wide) : Except Fault Wide := do
  let l ← Layout.read "str" .left (some 's') text
  let code := l.code.getD (.char 's')
  if code ≠ .char 's' then throw (.unknownCode code "str")
  if l.sign = some ' ' then throw .textSpace
  if l.sign.isSome then throw .textSign
  if l.plainZero then throw .textPlainZero
  if l.alternate then throw .textAlternate
  if l.align = .afterSign then throw .textAlign
  return l.pad [] (s.take (l.precision.getD s.length))

end DocumentSink.Message
