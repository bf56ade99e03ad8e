import DocumentSink.Message.Layout
import DocumentSink.Message.Objects

/-!
Values as the objects of templates, as far as they are data: numbers have their parts, texts, lists
and objects their elements. An integer that is too long for a decimal text has none here either.
-/

namespace DocumentSink.Message

def numberPart (n : Int) (name : Wide) : Option Int :=
  if name = "real" || name = "numerator" then some n
  else if name = "imag" then some 0
  else if name = "denominator" then some 1
  else none

/-- The parts of a number. -/
def part (v : Value) (name : Wide) : Except Fault Value :=
  let found := match v with
    | .int n => (numberPart n name).map .int
    | .bool b => (numberPart (if b then 1 else 0) name).map .int
    | .float d =>
      if name = "real" then some (.float d)
      else if name = "imag" then some (.float (.ofMagnitude false 0))
      else none
    | _ => none
  match found with
  | some w => .ok w
  | none => .error (.noAttribute v.kindName name)

def itemAt (v : Value) (index : Nat) : Except Fault Value :=
  match v with
  | .list items => match items[index]? with
    | some item => .ok item
    | none => .error .listIndex
  | .text s => match s.toList[index]? with
    | some c => .ok (.text c.toString)
    | none => .error .textIndex
  | .object _ => .error (.noNumber index)
  | v => .error (.notIndexed v.kindName)

def itemOf (v : Value) (key : Wide) : Except Fault Value :=
  match v with
  | .list _ => .error .listKey
  | .text _ => .error .textKey
  | .object members => match members.find? fun member => .ofString member.1 = key with
    | some (_, item) => .ok item
    | none => .error (.noName key)
  | v => .error (.notIndexed v.kindName)

def asciiOnly (s : List Char) : List Char :=
  s.flatMap fun c =>
    if c.toNat < 0x80 then [c]
    else if c.toNat < 0x100 then '\\' :: 'x' :: Text.hexDigits 2 c.toNat
    else if c.toNat < 0x10000 then '\\' :: 'u' :: Text.hexDigits 4 c.toNat
    else '\\' :: 'U' :: Text.hexDigits 8 c.toNat

/-- The text of a value, in one of its forms. -/
def textOf (conversion : Conversion) (v : Value) : Except Fault String :=
  if v.hasLong then .error .tooLong
  else match conversion with
    | .text => .ok v.display
    | .shown => .ok v.shown
    | .ascii => .ok (.ofList (asciiOnly v.shown.toList))

/-- A value as a layout text asks for. Only texts and numbers take a layout. -/
def format (layout : Wide) (v : Value) : Except Fault Wide :=
  match v with
  | .text s => formatText s layout
  | .int n => formatInt "int" n layout
  | .float d => formatDouble d layout
  | .bool b =>
    if layout.isEmpty then .ok (Value.flagText b)
    else formatInt "bool" (if b then 1 else 0) layout
  | v =>
    if layout.isEmpty then Wide.ofString <$> textOf .text v else .error (.noLayout v.kindName)

def Objects.values : Objects where
  Object := Value
  ofValue := id
  attributeOf := part
  elementAt := itemAt
  elementOf := itemOf
  convert conversion v := Value.text <$> textOf conversion v
  layOut := format

end DocumentSink.Message
