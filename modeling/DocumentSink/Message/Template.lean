import DocumentSink.Message.Layout
import DocumentSink.Message.Objects

/-!
Message templates. A field stands between braces: the name of an argument, parts of it, a conversion
and a layout, which may hold fields itself. A brace that is text is written twice. Fields are filled
in from left to right, so of two faults the first one in the text counts.
-/

namespace DocumentSink.Message

/-- The text of a field, cut into its name, its conversion and its layout. -/
structure Field where
  name : Wide
  conversion : Option CodePoint := none
  layout : Wide := []
  deriving Repr

inductive Piece
  | char (c : CodePoint)
  | field (f : Field)
  deriving Repr

inductive Ending
  | close
  | layout
  | conversion

/-- A name up to what ends it, and what follows that. Between brackets only the closing bracket
counts. -/
def takeName : (bracket : Bool) → Wide → Except Fault (Wide × Ending × Wide)
  | _, [] => .error .unclosedField
  | true, c :: s => do
    let (name, ending, r) ← takeName (c ≠ .char ']') s
    return (c :: name, ending, r)
  | false, .char '\x7b' :: _ => .error .openInName
  | false, .char '\x7d' :: s => .ok ([], .close, s)
  | false, .char ':' :: s => .ok ([], .layout, s)
  | false, .char '!' :: s => .ok ([], .conversion, s)
  | false, c :: s => do
    let (name, ending, r) ← takeName (c = .char '[') s
    return (c :: name, ending, r)

/-- A layout up to the brace that closes its field; braces within it are balanced. -/
def takeLayout : (depth : Nat) → Wide → Except Fault (Wide × Wide)
  | _, [] => .error .unmatchedOpen
  | 0, .char '\x7d' :: s => .ok ([], s)
  | depth + 1, .char '\x7d' :: s => do
    let (layout, r) ← takeLayout depth s
    return (.char '\x7d' :: layout, r)
  | depth, .char '\x7b' :: s => do
    let (layout, r) ← takeLayout (depth + 1) s
    return (.char '\x7b' :: layout, r)
  | depth, c :: s => do
    let (layout, r) ← takeLayout depth s
    return (c :: layout, r)

/-- A conversion, and a layout behind it if there is one. -/
def takeConversion (name : Wide) : Wide → Except Fault (Field × Wide)
  | [] => .error .noConversion
  | [_] => .error .unmatchedOpen
  | c :: .char '\x7d' :: s => .ok ({ name, conversion := some c }, s)
  | c :: .char ':' :: s => do
    let (layout, r) ← takeLayout 0 s
    return ({ name, conversion := some c, layout }, r)
  | _ :: _ :: _ => .error .noColon

/-- A field after its opening brace, and what follows it. -/
def takeField (s : Wide) : Except Fault (Field × Wide) := do
  let (name, ending, r) ← takeName false s
  match ending with
  | .close => return ({ name }, r)
  | .conversion => takeConversion name r
  | .layout =>
    let (layout, r) ← takeLayout 0 r
    return ({ name, layout }, r)

/-- The pieces of a template up to the first fault in its text. The first argument bounds their
number. -/
def pieces : Nat → Wide → List Piece × Option Fault
  | _, [] => ([], none)
  | 0, _ => ([], none)
  | fuel + 1, c :: s =>
    if c = .char '\x7b' || c = .char '\x7d' then
      match s with
      | d :: r =>
        if d = c then
          let (ps, stop) := pieces fuel r
          (.char c :: ps, stop)
        else if c = .char '\x7d' then ([], some .loneClose)
        else match takeField s with
          | .error fault => ([], some fault)
          | .ok (f, r) =>
            let (ps, stop) := pieces fuel r
            (.field f :: ps, stop)
      | [] => ([], some (if c = .char '\x7b' then .loneOpen else .loneClose))
    else
      let (ps, stop) := pieces fuel s
      (.char c :: ps, stop)

def wholeNumber? (s : Wide) : Except Fault (Option Nat) := do
  match ← takeNumber s with
  | (some n, []) => return some n
  | _ => return none

section Filling

variable (o : Objects)

/-- The argument that a name asks for; only names are given, so a number or nothing finds none. -/
def argument (args : Record o.Object) (name : Wide) : Except Fault o.Object := do
  if name.isEmpty then throw (.noPosition 0)
  match ← wholeNumber? name with
  | some index => throw (.noPosition index)
  | none =>
    match args.find? fun arg => .ofString arg.1 = name with
    | some (_, v) => return v
    | none => throw (.noArgument name)

/-- The element that a key asks for: by number if the key is one, and else by name. -/
def element (v : o.Object) (key : Wide) : Except Fault o.Object := do
  match ← wholeNumber? key with
  | some index => o.elementAt v index
  | none => o.elementOf v key

/-- The object that the parts of a name lead to. The first argument bounds their number. -/
def follow : Nat → o.Object → Wide → Except Fault o.Object
  | _, v, [] => .ok v
  | 0, v, _ => .ok v
  | fuel + 1, v, c :: s =>
    if c = .char '.' then do
      let (name, r) := s.span fun c => c != .char '.' && c != .char '['
      if name.isEmpty then throw .emptyAttribute
      follow fuel (← o.attributeOf v name) r
    else if c = .char '[' then do
      let (key, r) := s.span (· != .char ']')
      if key.isEmpty then
        let _ ← wholeNumber? key
        throw .emptyAttribute
      follow fuel (← element o v key) (r.drop 1)
    else .error .afterBracket

def lookup (args : Record o.Object) (name : Wide) : Except Fault o.Object := do
  let (first, parts) := name.span fun c => c != .char '.' && c != .char '['
  follow o name.length (← argument o args first) parts

def convert (v : o.Object) : Option CodePoint → Except Fault o.Object
  | none => .ok v
  | some c =>
    match Conversion.ofCodePoint? c with
    | some conversion => o.convert conversion v
    | none => .error (.unknownConversion c)

/-- A template with its fields filled in. Fields may be nested as deep as the first argument says.
-/
def fill (args : Record o.Object) : (depth : Nat) → Wide → Except Fault Wide
  | 0, _ => .error .nesting
  | depth + 1, s => do
    let (ps, stop) := pieces s.length s
    let parts ← ps.mapM fun
      | .char c => pure [c]
      | .field f => do
        let v ← convert o (← lookup o args f.name) f.conversion
        let layout ← if f.layout.contains (.char '\x7b') then fill args depth f.layout
          else pure f.layout
        o.layOut layout v
    match stop with
    | some fault => throw fault
    | none => return parts.flatten

/-- A template with arguments by name. -/
def render (args : Record o.Object) (template : Wide) : Except Fault Wide :=
  fill o args 2 template

end Filling

end DocumentSink.Message
