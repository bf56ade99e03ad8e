import DocumentSink.Path

/-!
Runs of calls on a resolver and on the cursors that it has handed out. A call that fails leaves the
resolver as it was, and the calls behind it still run.
-/

namespace DocumentSink

inductive CursorCall
  | peek
  | advance
  | remaining
  | position
  | exhausted
  | length
  | shown
  deriving DecidableEq, Repr

/-- A call on a resolver, or on one of its cursors by number. -/
inductive PathCall
  | compile (vars : Variables)
  | isCompiled
  | text
  | segments
  | start
  | currentNumber
  | peek
  | advance
  | remaining
  | cursor (number : Nat) (call : CursorCall)

inductive PathAnswer
  /-- There is no cursor of the number. -/
  | noCursor
  | flag (b : Bool)
  | number (n : Nat)
  | text (s : String)
  | segment (s : Option String)
  | segments (ss : List String)
  deriving DecidableEq, Repr

/-- The answer of a cursor, and the cursor where the call leaves it. -/
def Cursor.answer (c : Cursor) : CursorCall → Except PathFault (PathAnswer × Cursor)
  | .peek => return (.segment c.peek, c)
  | .advance => do
    let (segment, c) ← c.next
    return (.segment segment, c)
  | .remaining => return (.segments c.remaining, c)
  | .position => return (.number c.position, c)
  | .exhausted => return (.flag c.exhausted, c)
  | .length => return (.number c.length, c)
  | .shown => return (.text c.shown, c)

namespace Resolver

/-- Calls one cursor; the others stay as they are. -/
def answerAt (r : Resolver) (n : Nat) (call : CursorCall) :
    Except PathFault (PathAnswer × Resolver) :=
  match r.cursors[n]? with
  | none => return (.noCursor, r)
  | some c => do
    let (a, c) ← c.answer call
    return (a, r.putCursor n c)

/-- The answer to a call, and the resolver behind it. -/
def answer (r : Resolver) : PathCall → Except PathFault (PathAnswer × Resolver)
  | .compile vars => do
    let (segments, r) ← r.compile vars
    return (.segments segments, r)
  | .isCompiled => return (.flag r.isCompiled, r)
  | .text => return (.text r.path, r)
  | .segments => return (.segments (← r.compiled), r)
  | .start => do
    let r ← r.start
    return (.number (← r.currentNumber), r)
  | .currentNumber => return (.number (← r.currentNumber), r)
  | .peek => return (.segment (← r.current).peek, r)
  | .advance => do
    let (segment, r) ← r.advance
    return (.segment segment, r)
  | .remaining => return (.segments (← r.current).remaining, r)
  | .cursor n call => r.answerAt n call

def call (r : Resolver) (c : PathCall) : Resolver × Except PathFault PathAnswer :=
  match r.answer c with
  | .ok (a, r) => (r, .ok a)
  | .error fault => (r, .error fault)

/-- Calls one after another, and the answer to each. -/
def run (r : Resolver) : List PathCall → Resolver × List (Except PathFault PathAnswer)
  | [] => (r, [])
  | c :: cs =>
    let (r, a) := r.call c
    let (r, as) := run r cs
    (r, a :: as)

end Resolver

end DocumentSink
