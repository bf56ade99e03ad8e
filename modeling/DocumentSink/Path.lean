import DocumentSink.Text.Split
import DocumentSink.Value
import DocumentSink.Variables

/-!
Document paths: keys with points between them. A blank path has no segments. There is no escape, so
a key with a point in it cannot be written. A resolver compiles its path once and then walks it row
by row with cursors, positions in the segments from the first to after the last: each beginning
makes a new cursor the current one, and a cursor handed out before stays where it is. A walk is what
a row sees of a compiled resolver: its segments and its current cursor.
-/

namespace DocumentSink

/-- The segments of a path, after substitution. -/
def compilePath (vars : Variables) (path : String) : List String :=
  let s := (vars.substitute path).toList
  if (Text.trim s).isEmpty then [] else (Text.split '.' s).map .ofList

structure Cursor where
  segments : List String
  position : Nat := 0
  deriving DecidableEq, Repr

namespace Cursor

def remaining (c : Cursor) : List String := c.segments.drop c.position

def exhausted (c : Cursor) : Bool := c.segments.length ≤ c.position

def length (c : Cursor) : Nat := c.segments.length - c.position

def peek (c : Cursor) : Option String := c.segments[c.position]?

/-- The next segment and the cursor behind it; none at the end. -/
def advance (c : Cursor) : Option (String × Cursor) :=
  c.peek.map fun segment => (segment, { c with position := c.position + 1 })

def skip (c : Cursor) (n : Nat) : Cursor := { c with position := c.position + n }

/-- Texts between parentheses; a single one has a comma behind it. -/
def shownTuple : List String → String
  | [s] => "(" ++ Text.quote s ++ ",)"
  | ss => "(" ++ Value.commaSeparated (ss.map Text.quote) ++ ")"

def shown (c : Cursor) : String :=
  "PathCursor(segments=" ++ shownTuple c.segments ++ ", position="
    ++ Numeral.decimalText c.position ++ ")"

end Cursor

inductive PathFault
  | notCompiled (path : String)
  | alreadyCompiled (path : String)
  | notBegun (path : String)
  | exhausted (segments : List String)
  deriving DecidableEq, Repr

def PathFault.message : PathFault → String
  | notCompiled path => "Document path '" ++ path ++ "': not compiled"
  | alreadyCompiled path => "Document path '" ++ path ++ "': already compiled"
  | notBegun path => "Document path '" ++ path ++ "': begin() has not been called"
  | exhausted segments => "Path cursor exhausted for '" ++ Text.joinWith '.' segments ++ "'"

structure Resolver where
  path : String
  segments : Option (List String) := none
  /-- All cursors begun so far, in order. The last is the current one. -/
  cursors : List Cursor := []
  deriving DecidableEq, Repr

def Cursor.next (c : Cursor) : Except PathFault (String × Cursor) :=
  match c.advance with
  | some r => .ok r
  | none => .error (.exhausted c.segments)

namespace Resolver

def isCompiled (r : Resolver) : Bool := r.segments.isSome

/-- The segments, once the path is compiled. -/
def compiled (r : Resolver) : Except PathFault (List String) :=
  match r.segments with
  | some segments => .ok segments
  | none => .error (.notCompiled r.path)

/-- Fixes the segments; this is done once. -/
def compile (r : Resolver) (vars : Variables) : Except PathFault (List String × Resolver) :=
  match r.segments with
  | some _ => .error (.alreadyCompiled r.path)
  | none =>
    let segments := compilePath vars r.path
    .ok (segments, { r with segments := some segments })

def start (r : Resolver) : Except PathFault Resolver :=
  return { r with cursors := r.cursors ++ [⟨← r.compiled, 0⟩] }

def currentNumber (r : Resolver) : Except PathFault Nat :=
  if r.cursors.isEmpty then .error (.notBegun r.path) else .ok (r.cursors.length - 1)

def current (r : Resolver) : Except PathFault Cursor :=
  match r.cursors.getLast? with
  | some c => .ok c
  | none => .error (.notBegun r.path)

def putCursor (r : Resolver) (n : Nat) (c : Cursor) : Resolver :=
  { r with cursors := r.cursors.set n c }

def advance (r : Resolver) : Except PathFault (String × Resolver) := do
  let n ← r.currentNumber
  let (segment, c) ← (← r.current).next
  return (segment, r.putCursor n c)

end Resolver

/-- A compiled path, and the cursor of the current row once a row has begun. -/
structure Walk where
  path : String
  segments : List String
  cursor : Option Cursor := none
  deriving DecidableEq, Repr, Inhabited

namespace Walk

def ofPath (vars : Variables) (path : String) : Walk := { path, segments := compilePath vars path }

def start (w : Walk) : Walk := { w with cursor := some ⟨w.segments, 0⟩ }

def current (w : Walk) : Except PathFault Cursor :=
  match w.cursor with
  | some c => .ok c
  | none => .error (.notBegun w.path)

/-- The next segment, and the walk with the cursor behind it. -/
def advance (w : Walk) : Except PathFault (String × Walk) := do
  let (segment, c) ← (← w.current).next
  return (segment, { w with cursor := some c })

def skip (w : Walk) (n : Nat) : Walk := { w with cursor := w.cursor.map (·.skip n) }

def finish (w : Walk) : Walk := { w with cursor := w.cursor.map fun c => c.skip c.length }

end Walk

end DocumentSink
