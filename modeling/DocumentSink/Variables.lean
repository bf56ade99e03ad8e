import DocumentSink.Text.Wide
import DocumentSink.Value

/-!
Variables in texts. A reference is written with braces after a dollar sign, or between doubled
percent signs. A text falls into characters and references in one way, read from the left;
substitution replaces the references that have a value and leaves everything else as it stands.
-/

namespace DocumentSink

/-- Names with their values; a null value is no value. -/
abbrev Variables := Record Value

namespace Variables

inductive Form
  | braces
  | percents
  deriving DecidableEq, Repr

structure Reference where
  form : Form
  name : List Char
  deriving DecidableEq, Repr

inductive Piece
  | char (c : Char)
  | reference (r : Reference)
  deriving DecidableEq, Repr

def Reference.written (r : Reference) : List Char :=
  match r.form with
  | .braces => '$' :: '\x7b' :: r.name ++ ['\x7d']
  | .percents => '%' :: '%' :: r.name ++ ['%', '%']

def Piece.written : Piece → List Char
  | .char c => [c]
  | .reference r => r.written

/-- A name that ends before a character, and what follows it. The name is not empty. -/
def nameBefore (stop : Char) (s : List Char) : Option (List Char × List Char) :=
  if (s.takeWhile (· != stop)).isEmpty then none
  else some (s.takeWhile (· != stop), s.dropWhile (· != stop))

/-- The reference that begins a text, and what follows it. -/
def reference? : List Char → Option (Reference × List Char)
  | '$' :: '\x7b' :: s =>
    match nameBefore '\x7d' s with
    | some (name, '\x7d' :: r) => some (⟨.braces, name⟩, r)
    | _ => none
  | '%' :: '%' :: s =>
    match nameBefore '%' s with
    | some (name, '%' :: '%' :: r) => some (⟨.percents, name⟩, r)
    | _ => none
  | _ => none

theorem nameBefore_eq {stop : Char} {s name r : List Char}
    (h : nameBefore stop s = some (name, r)) :
    s = name ++ r := by
  unfold nameBefore at h
  split at h
  · exact absurd h (by simp)
  · simp only [Option.some.injEq, Prod.mk.injEq] at h
    rw [← h.1, ← h.2, List.takeWhile_append_dropWhile]

theorem eq_written_of_reference? {s r : List Char} {ref : Reference}
    (h : reference? s = some (ref, r)) : s = ref.written ++ r := by
  unfold reference? at h
  split at h
  · split at h
    · next hn =>
        simp only [Option.some.injEq, Prod.mk.injEq] at h
        rw [nameBefore_eq hn, ← h.1, ← h.2]
        simp [Reference.written]
    · exact absurd h (by simp)
  · split at h
    · next hn =>
        simp only [Option.some.injEq, Prod.mk.injEq] at h
        rw [nameBefore_eq hn, ← h.1, ← h.2]
        simp [Reference.written]
    · exact absurd h (by simp)
  · exact absurd h (by simp)

theorem length_lt_of_reference? {s r : List Char} {ref : Reference}
    (h : reference? s = some (ref, r)) : r.length < s.length := by
  have hs := congrArg List.length (eq_written_of_reference? h)
  cases hf : ref.form <;> simp [Reference.written, hf] at hs <;> omega

/-- The characters and references of a text, in order. -/
def pieces (s : List Char) : List Piece :=
  match _h : reference? s with
  | some (ref, r) => .reference ref :: pieces r
  | none =>
    match s with
    | [] => []
    | c :: r => .char c :: pieces r
termination_by s.length
decreasing_by
  · exact length_lt_of_reference? _h
  · simp

def hasReferences (text : String) : Bool :=
  (pieces text.toList).any fun
    | .reference _ => true
    | .char _ => false

/-- Whether a text with surrogates has references. A surrogate is no sign of one, and neither is the
character that is put for it here. -/
def hasReferencesIn (s : Wide) : Bool :=
  hasReferences (.ofList (s.map fun c => c.char?.getD '\uFFFD'))

/-- The value of a name, as text; none if the name has no value. -/
def text? (vars : Variables) (name : String) : Option String :=
  match vars.get? name with
  | none => none
  | some .null => none
  | some v => some v.display

def textOf (vars : Variables) : Piece → List Char
  | .char c => [c]
  | .reference r => ((vars.text? (.ofList r.name)).map (·.toList)).getD r.written

/-- A text with the references replaced that have a value. Values are not looked into. -/
def substitute (vars : Variables) (text : String) : String :=
  .ofList ((pieces text.toList).flatMap vars.textOf)

/-- The variables of an environment, with some of them overridden. -/
def ofEnvironment (environment overrides : Record String) : Variables :=
  (environment.putAll overrides).map fun p => (p.1, .text p.2)

end Variables

end DocumentSink
