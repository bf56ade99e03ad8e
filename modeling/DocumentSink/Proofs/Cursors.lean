import DocumentSink.Path.Call
import DocumentSink.Proofs.Except

/-!
Runs of calls on a resolver and on the cursors that it has handed out. A call compiles the path,
begins a cursor, moves one cursor on by its next segment, or changes nothing. Main statement: after
any run the path is compiled as the first compilation said, and each cursor answers by what it has
given itself, whatever became of the others.
-/

namespace DocumentSink

namespace Cursor

variable {c : Cursor}

theorem next_eq_ok (h : c.position < c.segments.length) :
    c.next = .ok (c.segments[c.position], c.skip 1) := by
  rw [next, advance, peek, List.getElem?_eq_getElem h]
  rfl

theorem next_eq_error (h : c.segments.length ≤ c.position) :
    c.next = .error (.exhausted c.segments) := by
  rw [next, advance, peek, List.getElem?_eq_none h]
  rfl

theorem remaining_eq_cons (h : c.position < c.segments.length) :
    c.remaining = c.segments[c.position] :: (c.skip 1).remaining :=
  List.drop_eq_getElem_cons h

theorem of_next {s : String} {d : Cursor} (h : c.next = .ok (s, d)) :
    ∃ hc : c.position < c.segments.length, s = c.segments[c.position] ∧ d = c.skip 1 := by
  by_cases hc : c.position < c.segments.length
  · rw [next_eq_ok hc] at h
    cases h
    exact ⟨hc, rfl, rfl⟩
  · rw [next_eq_error (Nat.le_of_not_lt hc)] at h
    cases h

theorem peek_eq_head? (c : Cursor) : c.peek = c.remaining.head? := by
  rw [remaining, List.head?_drop, peek]

theorem length_eq (c : Cursor) : c.length = c.remaining.length := by
  rw [remaining, List.length_drop, length]

theorem exhausted_eq (c : Cursor) : c.exhausted = c.remaining.isEmpty := by
  rw [Bool.eq_iff_iff, List.isEmpty_iff, remaining, List.drop_eq_nil_iff, exhausted,
    decide_eq_true_eq]

end Cursor

namespace PathCall

/-- What a path is compiled with. -/
def vars? : PathCall → Option Variables
  | compile vars => some vars
  | _ => none

/-- The cursor that a call moves on, if it goes well, where so many have begun: the one of the
number, or the last one begun. -/
def advances? (begun : Nat) : PathCall → Option Nat
  | advance => if begun = 0 then none else some (begun - 1)
  | cursor n .advance => some n
  | _ => none

end PathCall

/-- A call with the answer to it. -/
abbrev PathEvent := PathCall × Except PathFault PathAnswer

namespace PathEvent

/-- Whether a cursor begins. -/
def begins : PathEvent → Bool
  | (.start, .ok _) => true
  | _ => false

/-- The cursor that is moved on and the segment that it gives. -/
def moves (begun : Nat) : PathEvent → Option (Nat × String)
  | (c, .ok (.segment (some s))) => (c.advances? begun).map (·, s)
  | _ => none

/-- What a cursor gives. -/
def gives (n begun : Nat) (e : PathEvent) : List String :=
  match e.moves begun with
  | some (m, s) => if m = n then [s] else []
  | none => []

/-- How many cursors begin. -/
def begun (es : List PathEvent) : Nat := es.countP begins

/-- What a cursor gives in some events, behind others in which so many have begun. -/
def given (n : Nat) : (begun : Nat) → List PathEvent → List String
  | _, [] => []
  | begun, e :: es => e.gives n begun ++ given n (begun + if e.begins then 1 else 0) es

end PathEvent

namespace Resolver

/-- What a call does to a resolver. -/
inductive Effect (r : Resolver) : PathCall → Resolver → Except PathFault PathAnswer → Prop
  | compiled {vars} : r.segments = none →
      Effect r (.compile vars) { r with segments := some (compilePath vars r.path) }
        (.ok (.segments (compilePath vars r.path)))
  | begun {ss} : r.segments = some ss →
      Effect r .start { r with cursors := r.cursors ++ [⟨ss, 0⟩] } (.ok (.number r.cursors.length))
  | moved {c n k s k'} : c.advances? r.cursors.length = some n → r.cursors[n]? = some k →
      k.next = .ok (s, k') → Effect r c (r.putCursor n k') (.ok (.segment (some s)))
  | kept {c a} : (r.segments = none → c.vars? = none) → PathEvent.begins (c, a) = false →
      PathEvent.moves r.cursors.length (c, a) = none → Effect r c r a

section Calls

variable {r : Resolver} {c : PathCall} {n : Nat} {k : Cursor}

theorem putCursor_self (h : r.cursors[n]? = some k) : r.putCursor n k = r := by
  obtain ⟨hn, rfl⟩ := List.getElem?_eq_some_iff.1 h
  rw [putCursor, List.set_getElem_self]

theorem call_cursor (h : r.cursors[n]? = some k) (call : CursorCall) :
    r.call (.cursor n call) =
      match k.answer call with
      | .ok (a, k') => (r.putCursor n k', .ok a)
      | .error fault => (r, .error fault) := by
  rw [Resolver.call, answer, answerAt, h]
  dsimp only
  cases k.answer call with
  | ok v => rfl
  | error fault => rfl

theorem call_no_cursor (h : r.cursors[n]? = none) (call : CursorCall) :
    r.call (.cursor n call) = (r, .ok .noCursor) := by
  rw [Resolver.call, answer, answerAt, h]
  rfl

theorem call_advance_of_next {s : String} {k' : Cursor} (h : r.cursors[n]? = some k)
    (hnext : k.next = .ok (s, k')) :
    r.call (.cursor n .advance) = (r.putCursor n k', .ok (.segment (some s))) := by
  rw [call_cursor h, Cursor.answer, hnext]
  rfl

theorem call_advance_of_exhausted {fault : PathFault} (h : r.cursors[n]? = some k)
    (hnext : k.next = .error fault) : r.call (.cursor n .advance) = (r, .error fault) := by
  rw [call_cursor h, Cursor.answer, hnext]
  rfl

/-- Any other call on a cursor is answered and changes nothing. -/
theorem call_cursor_of_ok {call : CursorCall} {a : PathAnswer} (h : r.cursors[n]? = some k)
    (ha : k.answer call = .ok (a, k)) : r.call (.cursor n call) = (r, .ok a) := by
  rw [call_cursor h, ha]
  dsimp only
  rw [putCursor_self h]

/-- A call on the resolver itself is one on the cursor that was begun last. -/
theorem call_current (h : r.cursors.length = n + 1) :
    r.call .peek = r.call (.cursor n .peek) ∧ r.call .advance = r.call (.cursor n .advance) ∧
      r.call .remaining = r.call (.cursor n .remaining) := by
  have hn : n < r.cursors.length := by omega
  have hlast : r.cursors[n]? = some r.cursors[n] := List.getElem?_eq_getElem hn
  have hcurrent : r.current = .ok r.cursors[n] := by
    rw [current, List.getLast?_eq_getElem?, h, Nat.add_sub_cancel, hlast]
  have hnumber : r.currentNumber = .ok n := by
    rw [currentNumber, if_neg (by simpa using List.ne_nil_of_length_pos (by omega)), h]
    rfl
  refine ⟨?_, ?_, ?_⟩
  · rw [call_cursor_of_ok hlast rfl, Resolver.call, answer, hcurrent]
    rfl
  · rw [call_cursor hlast, Cursor.answer, Resolver.call, answer, advance, hnumber, hcurrent]
    simp only [ok_bind]
    cases r.cursors[n].next with
    | ok v => rfl
    | error fault => rfl
  · rw [call_cursor_of_ok hlast rfl, Resolver.call, answer, hcurrent]
    rfl

theorem call_not_begun (h : r.cursors = []) :
    r.call .peek = (r, .error (.notBegun r.path)) ∧
      r.call .advance = (r, .error (.notBegun r.path)) ∧
      r.call .remaining = (r, .error (.notBegun r.path)) := by
  have hcurrent : r.current = .error (.notBegun r.path) := by rw [current, h]; rfl
  have hnumber : r.currentNumber = .error (.notBegun r.path) := by rw [currentNumber, h]; rfl
  refine ⟨?_, ?_, ?_⟩
  · rw [Resolver.call, answer, hcurrent]
    rfl
  · rw [Resolver.call, answer, advance, hnumber]
    rfl
  · rw [Resolver.call, answer, hcurrent]
    rfl

theorem call_compile_none (h : r.segments = none) (vars : Variables) :
    r.call (.compile vars) = ({ r with segments := some (compilePath vars r.path) },
      .ok (.segments (compilePath vars r.path))) := by
  rw [Resolver.call, answer, compile, h]
  rfl

theorem call_compile_some {ss : List String} (h : r.segments = some ss) (vars : Variables) :
    r.call (.compile vars) = (r, .error (.alreadyCompiled r.path)) := by
  rw [Resolver.call, answer, compile, h]
  rfl

theorem call_start_none (h : r.segments = none) :
    r.call .start = (r, .error (.notCompiled r.path)) := by
  rw [Resolver.call, answer, start, compiled, h]
  rfl

theorem call_start_some {ss : List String} (h : r.segments = some ss) :
    r.call .start = ({ r with cursors := r.cursors ++ [⟨ss, 0⟩] },
      .ok (.number r.cursors.length)) := by
  have hstart : r.start = .ok { r with cursors := r.cursors ++ [⟨ss, 0⟩] } := by
    rw [start, compiled, h]
    rfl
  have hnumber : ({ r with cursors := r.cursors ++ [⟨ss, 0⟩] } : Resolver).currentNumber =
      .ok r.cursors.length := by
    simp [currentNumber]
  rw [Resolver.call, answer, hstart, ok_bind, hnumber]
  rfl

theorem effect_cursor (r : Resolver) (n : Nat) (call : CursorCall) :
    Effect r (.cursor n call) (r.call (.cursor n call)).1 (r.call (.cursor n call)).2 := by
  cases hk : r.cursors[n]? with
  | none =>
      rw [call_no_cursor hk]
      exact .kept (fun _ => rfl) rfl rfl
  | some k =>
      cases call with
      | advance =>
          cases hnext : k.next with
          | ok v =>
              rw [call_advance_of_next hk hnext]
              exact .moved rfl hk hnext
          | error fault =>
              rw [call_advance_of_exhausted hk hnext]
              exact .kept (fun _ => rfl) rfl rfl
      | peek =>
          rw [call_cursor_of_ok hk rfl]
          refine .kept (fun _ => rfl) rfl ?_
          cases k.peek <;> rfl
      | remaining | position | exhausted | length | shown =>
          rw [call_cursor_of_ok hk rfl]
          exact .kept (fun _ => rfl) rfl rfl

theorem call_segments (r : Resolver) : r.call .segments = (r, .segments <$> r.compiled) := by
  rw [Resolver.call, answer]
  cases r.compiled with
  | ok ss => rfl
  | error fault => rfl

theorem call_currentNumber (r : Resolver) :
    r.call .currentNumber = (r, .number <$> r.currentNumber) := by
  rw [Resolver.call, answer]
  cases r.currentNumber with
  | ok n => rfl
  | error fault => rfl

theorem effect_current (r : Resolver) (c : PathCall)
    (hc : c = .peek ∨ c = .advance ∨ c = .remaining) : Effect r c (r.call c).1 (r.call c).2 := by
  cases hl : r.cursors.length with
  | zero =>
      obtain ⟨hpeek, hadvance, hremaining⟩ := call_not_begun (List.length_eq_zero_iff.1 hl)
      rcases hc with rfl | rfl | rfl
      · rw [hpeek]
        exact .kept (fun _ => rfl) rfl rfl
      · rw [hadvance]
        exact .kept (fun _ => rfl) rfl rfl
      · rw [hremaining]
        exact .kept (fun _ => rfl) rfl rfl
  | succ n =>
      obtain ⟨hpeek, hadvance, hremaining⟩ := call_current hl
      have hk : r.cursors[n]? = some r.cursors[n] := List.getElem?_eq_getElem (by omega)
      rcases hc with rfl | rfl | rfl
      · rw [hpeek, call_cursor_of_ok hk rfl]
        exact .kept (fun _ => rfl) rfl (by cases r.cursors[n].peek <;> rfl)
      · rw [hadvance]
        cases hnext : r.cursors[n].next with
        | ok v =>
            rw [call_advance_of_next hk hnext]
            exact .moved (by rw [hl]; rfl) hk hnext
        | error fault =>
            rw [call_advance_of_exhausted hk hnext]
            exact .kept (fun _ => rfl) rfl rfl
      · rw [hremaining, call_cursor_of_ok hk rfl]
        exact .kept (fun _ => rfl) rfl rfl

theorem effect_call (r : Resolver) (c : PathCall) : Effect r c (r.call c).1 (r.call c).2 := by
  cases c with
  | cursor n call => exact effect_cursor r n call
  | compile vars =>
      cases hs : r.segments with
      | none =>
          rw [call_compile_none hs]
          exact .compiled hs
      | some ss =>
          rw [call_compile_some hs]
          exact .kept (by rw [hs]; nofun) rfl rfl
  | start =>
      cases hs : r.segments with
      | none =>
          rw [call_start_none hs]
          exact .kept (fun _ => rfl) rfl rfl
      | some ss =>
          rw [call_start_some hs]
          exact .begun hs
  | isCompiled | text => exact .kept (fun _ => rfl) rfl rfl
  | segments =>
      rw [call_segments]
      exact .kept (fun _ => rfl) rfl (by cases r.compiled <;> rfl)
  | currentNumber =>
      rw [call_currentNumber]
      exact .kept (fun _ => rfl) rfl (by cases r.currentNumber <;> rfl)
  | peek | advance | remaining => exact effect_current r _ (by simp)

end Calls

section Runs

variable {r r' : Resolver} {c : PathCall} {a : Except PathFault PathAnswer}
  {given : Nat → List String}

theorem Effect.path (h : Effect r c r' a) : r'.path = r.path := by
  cases h <;> rfl

/-- The path is compiled at most once, by the first compilation. -/
theorem Effect.segments (h : Effect r c r' a) :
    r'.segments = r.segments.or (c.vars?.map (compilePath · r.path)) := by
  cases h with
  | compiled hs =>
      rw [hs]
      rfl
  | begun hs => exact (Option.or_none).symm
  | @moved _ n k s k' hc _ _ =>
      have hvars : c.vars? = none := by
        cases c with
        | compile vars => cases hc
        | _ => rfl
      rw [hvars]
      exact (Option.or_none).symm
  | kept hvars _ _ =>
      cases hs : r.segments with
      | some ss => rfl
      | none =>
          rw [hvars hs]
          rfl

theorem Effect.length_cursors (h : Effect r c r' a) :
    r'.cursors.length = r.cursors.length + if PathEvent.begins (c, a) then 1 else 0 := by
  cases h with
  | compiled hs => rfl
  | begun hs => exact List.length_append
  | @moved _ n k s k' hc _ _ =>
      have hbegins : PathEvent.begins (c, .ok (.segment (some s))) = false := by
        cases c with
        | start => cases hc
        | _ => rfl
      rw [hbegins]
      exact List.length_set
  | kept _ hbegins _ =>
      rw [hbegins]
      rfl

/-- A call moves on no other cursor than its own. -/
theorem Effect.cursor_of_ne {m : Nat} (h : Effect r c r' a) (hm : m < r.cursors.length)
    (hne : c.advances? r.cursors.length ≠ some m) : r'.cursors[m]? = r.cursors[m]? := by
  cases h with
  | compiled hs => rfl
  | begun hs => exact List.getElem?_append_left hm
  | moved hc hk hnext =>
      refine List.getElem?_set_ne ?_
      rintro rfl
      exact hne hc
  | kept _ _ _ => rfl

/-- Each cursor goes through the compiled segments: behind it are those that it has given. -/
structure Tracks (r : Resolver) (given : Nat → List String) : Prop where
  cursor : ∀ {n k}, r.cursors[n]? = some k →
    r.segments = some k.segments ∧ k.position = (given n).length ∧
      given n ++ k.remaining = k.segments
  fresh : ∀ n, r.cursors.length ≤ n → given n = []

theorem tracks_start (path : String) : Tracks { path } fun _ => [] where
  cursor := nofun
  fresh _ _ := rfl

theorem gives_of_moves_eq_none {e : PathEvent} {begun : Nat} (h : e.moves begun = none) (n : Nat) :
    e.gives n begun = [] := by
  rw [PathEvent.gives, h]

theorem Tracks.effect (h : Tracks r given) (heffect : Effect r c r' a) :
    Tracks r' fun n => given n ++ PathEvent.gives n r.cursors.length (c, a) := by
  cases heffect with
  | compiled hs =>
      refine ⟨?_, fun n hn => by rw [h.fresh n hn]; rfl⟩
      intro n k hk
      -- no cursor has begun before the path is compiled
      obtain ⟨hsegments, -⟩ := h.cursor hk
      rw [hs] at hsegments
      cases hsegments
  | @begun ss hs =>
      refine ⟨?_, fun n hn => ?_⟩
      · intro n k hk
        rw [gives_of_moves_eq_none rfl, List.append_nil]
        rcases Nat.lt_or_ge n r.cursors.length with hn | hn
        · exact h.cursor ((List.getElem?_append_left hn).symm.trans hk)
        · rw [List.getElem?_append_right hn, List.getElem?_singleton] at hk
          split at hk
          · cases hk
            rw [h.fresh n hn]
            exact ⟨hs, rfl, rfl⟩
          · cases hk
      · rw [List.length_append] at hn
        rw [h.fresh n (by omega)]
        rfl
  | @moved _ n k s k' hc hk hnext =>
      obtain ⟨hlt, rfl, rfl⟩ := Cursor.of_next hnext
      obtain ⟨hsegments, hposition, hsplit⟩ := h.cursor hk
      have hgives : ∀ m, PathEvent.gives m r.cursors.length
          (c, .ok (.segment (some k.segments[k.position]))) =
            if n = m then [k.segments[k.position]] else [] := by
        intro m
        rw [PathEvent.gives, PathEvent.moves, hc]
        rfl
      obtain ⟨hn, -⟩ := List.getElem?_eq_some_iff.1 hk
      refine ⟨?_, fun m hm => ?_⟩
      · intro m l hl
        rw [hgives]
        split
        · next hm =>
            subst hm
            rw [putCursor, List.getElem?_set_self hn] at hl
            cases hl
            refine ⟨hsegments, ?_, ?_⟩
            · rw [List.length_append, ← hposition]
              rfl
            · rw [List.append_assoc, List.singleton_append, ← Cursor.remaining_eq_cons hlt]
              exact hsplit
        · next hm =>
            rw [putCursor, List.getElem?_set_ne hm] at hl
            rw [List.append_nil]
            exact h.cursor hl
      · rw [putCursor, List.length_set] at hm
        rw [hgives, if_neg (by omega), h.fresh m hm]
        rfl
  | kept _ _ hmoves =>
      simp only [gives_of_moves_eq_none hmoves, List.append_nil]
      exact h

theorem run_cons (r : Resolver) (c : PathCall) (cs : List PathCall) :
    r.run (c :: cs) =
      (((r.call c).1.run cs).1, (r.call c).2 :: ((r.call c).1.run cs).2) := rfl

/-- The calls of a run, with their answers. -/
def events (r : Resolver) (calls : List PathCall) : List PathEvent := calls.zip (r.run calls).2

theorem events_cons (r : Resolver) (c : PathCall) (cs : List PathCall) :
    r.events (c :: cs) = (c, (r.call c).2) :: (r.call c).1.events cs := rfl

theorem Tracks.run (h : Tracks r given) (calls : List PathCall) :
    Tracks (r.run calls).1 fun n =>
      given n ++ PathEvent.given n r.cursors.length (r.events calls) := by
  induction calls generalizing r given with
  | nil =>
      simp only [events, List.zip_nil_left, PathEvent.given, List.append_nil]
      exact h
  | cons c cs ih =>
      have heffect := effect_call r c
      have hrun := ih (h.effect heffect)
      rw [heffect.length_cursors] at hrun
      simp only [List.append_assoc] at hrun
      exact hrun

theorem path_run (r : Resolver) (calls : List PathCall) : (r.run calls).1.path = r.path := by
  induction calls generalizing r with
  | nil => rfl
  | cons c cs ih => exact (ih _).trans (effect_call r c).path

theorem segments_run (r : Resolver) (calls : List PathCall) :
    (r.run calls).1.segments =
      r.segments.or ((calls.findSome? PathCall.vars?).map (compilePath · r.path)) := by
  induction calls generalizing r with
  | nil => exact Option.or_none.symm
  | cons c cs ih =>
      have heffect := effect_call r c
      rw [run_cons, ih, heffect.segments, heffect.path, Option.or_assoc, List.findSome?_cons]
      cases c.vars? with
      | none => rfl
      | some vars => rfl

theorem length_cursors_run (r : Resolver) (calls : List PathCall) :
    (r.run calls).1.cursors.length = r.cursors.length + PathEvent.begun (r.events calls) := by
  induction calls generalizing r with
  | nil => rfl
  | cons c cs ih =>
      rw [run_cons, ih, (effect_call r c).length_cursors, events_cons, PathEvent.begun,
        PathEvent.begun, List.countP_cons, Nat.add_assoc, Nat.add_comm (List.countP _ _)]

/-- How a cursor answers that has given some segments and has others before it. -/
structure Answers (r : Resolver) (n : Nat) (given rest : List String) : Prop where
  position : r.call (.cursor n .position) = (r, .ok (.number given.length))
  remaining : r.call (.cursor n .remaining) = (r, .ok (.segments rest))
  length : r.call (.cursor n .length) = (r, .ok (.number rest.length))
  exhausted : r.call (.cursor n .exhausted) = (r, .ok (.flag rest.isEmpty))
  peek : r.call (.cursor n .peek) = (r, .ok (.segment rest.head?))
  advance_nil : rest = [] → r.call (.cursor n .advance) = (r, .error (.exhausted given))
  advance_cons {s rest'} : rest = s :: rest' →
    (r.call (.cursor n .advance)).2 = .ok (.segment (some s))

theorem answers_of_split {n : Nat} {k : Cursor} {given : List String}
    (hk : r.cursors[n]? = some k) (hposition : k.position = given.length)
    (hsplit : given ++ k.remaining = k.segments) : Answers r n given k.remaining where
  position := by rw [call_cursor_of_ok hk rfl, hposition]
  remaining := call_cursor_of_ok hk rfl
  length := by rw [call_cursor_of_ok hk rfl, k.length_eq]
  exhausted := by rw [call_cursor_of_ok hk rfl, k.exhausted_eq]
  peek := by rw [call_cursor_of_ok hk rfl, k.peek_eq_head?]
  advance_nil hrest := by
    have hend : k.segments.length ≤ k.position := List.drop_eq_nil_iff.1 hrest
    rw [hrest, List.append_nil] at hsplit
    rw [hsplit]
    exact call_advance_of_exhausted hk (Cursor.next_eq_error hend)
  advance_cons {s rest'} hrest := by
    have hlt : k.position < k.segments.length := by
      apply Nat.lt_of_not_le
      intro hend
      rw [Cursor.remaining, List.drop_eq_nil_of_le hend] at hrest
      cases hrest
    rw [Cursor.remaining_eq_cons hlt] at hrest
    cases hrest
    rw [call_advance_of_next hk (Cursor.next_eq_ok hlt)]

/-- After any run, the path has the segments that the first compilation gave it, for good, and no
cursor begins before that. A cursor stands behind the segments that it has given in the run, by
calls of its own and by calls on the resolver while it was the last one begun; what is left of the
path is before it. Calls on the resolver are calls on the last cursor, and no call moves on any
other cursor than its own. -/
theorem run_answers (path : String) (calls : List PathCall) :
    let fresh : Resolver := { path }
    let r := (fresh.run calls).1
    let begun := PathEvent.begun (fresh.events calls)
    let given := fun n => PathEvent.given n 0 (fresh.events calls)
    (match (calls.findSome? PathCall.vars?).map (compilePath · path) with
      | none => begun = 0 ∧ r.call .start = (r, .error (.notCompiled path)) ∧
          ∀ vars, (r.call (.compile vars)).2 = .ok (.segments (compilePath vars path))
      | some ss => r.call .segments = (r, .ok (.segments ss)) ∧
          (∀ vars, r.call (.compile vars) = (r, .error (.alreadyCompiled path))) ∧
          (r.call .start).2 = .ok (.number begun) ∧
          ∀ n < begun, ∃ rest, given n ++ rest = ss ∧ Answers r n (given n) rest) ∧
      (match begun with
      | 0 => r.call .peek = (r, .error (.notBegun path)) ∧
          r.call .advance = (r, .error (.notBegun path)) ∧
          r.call .remaining = (r, .error (.notBegun path))
      | n + 1 => r.call .peek = r.call (.cursor n .peek) ∧
          r.call .advance = r.call (.cursor n .advance) ∧
          r.call .remaining = r.call (.cursor n .remaining)) ∧
      ∀ c m, m < begun → c.advances? begun ≠ some m →
        (r.call c).1.cursors[m]? = r.cursors[m]? := by
  intro fresh r begun given
  have hpath : r.path = path := path_run fresh calls
  have hsegments : r.segments = (calls.findSome? PathCall.vars?).map (compilePath · path) :=
    (segments_run fresh calls).trans Option.none_or
  have hlength : r.cursors.length = begun := (length_cursors_run fresh calls).trans (Nat.zero_add _)
  have htracks : Tracks r given := (tracks_start path).run calls
  refine ⟨?_, ?_, ?_⟩
  · rw [← hsegments]
    cases hs : r.segments with
    | none =>
        refine ⟨?_, hpath ▸ call_start_none hs, fun vars => ?_⟩
        · rw [← hlength, List.length_eq_zero_iff, List.eq_nil_iff_forall_not_mem]
          intro k hk
          obtain ⟨n, hn⟩ := List.getElem?_of_mem hk
          obtain ⟨hsome, -⟩ := htracks.cursor hn
          rw [hs] at hsome
          cases hsome
        · rw [call_compile_none hs, hpath]
    | some ss =>
        refine ⟨?_, fun vars => hpath ▸ call_compile_some hs vars, ?_, ?_⟩
        · rw [call_segments, compiled, hs]
          rfl
        · rw [call_start_some hs, hlength]
        · intro n hn
          have hk : r.cursors[n]? = some r.cursors[n] := List.getElem?_eq_getElem (hlength ▸ hn)
          obtain ⟨hsome, hposition, hsplit⟩ := htracks.cursor hk
          rw [hs] at hsome
          cases hsome
          exact ⟨_, hsplit, answers_of_split hk hposition hsplit⟩
  · cases hbegun : begun with
    | zero => exact hpath ▸ call_not_begun (List.length_eq_zero_iff.1 (hlength.trans hbegun))
    | succ n => exact call_current (hlength.trans hbegun)
  · intro c m hm hne
    rw [← hlength] at hm hne
    exact (effect_call r c).cursor_of_ne hm hne

/-- The first cursor is moved on through the resolver and then by itself, beyond its end. -/
def crossing : List PathCall :=
  [.start, .compile [], .start, .advance, .start, .cursor 0 .advance, .cursor 0 .advance, .advance,
    .compile []]

theorem run_answers_crossing :
    let r := (({ path := "a.b" } : Resolver).run crossing).1
    Answers r 0 ["a", "b"] [] ∧ Answers r 1 ["a"] ["b"] ∧
      r.call .advance = r.call (.cursor 1 .advance) ∧
      (r.call .advance).1.cursors[0]? = r.cursors[0]? := by
  intro r
  have hcompiled : (crossing.findSome? PathCall.vars?).map (compilePath · "a.b") =
      some ["a", "b"] := by decide +kernel
  have hbegun : PathEvent.begun (({ path := "a.b" } : Resolver).events crossing) = 2 := by
    decide +kernel
  have hfirst : PathEvent.given 0 0 (({ path := "a.b" } : Resolver).events crossing) =
      ["a", "b"] := by decide +kernel
  have hsecond : PathEvent.given 1 0 (({ path := "a.b" } : Resolver).events crossing) =
      ["a"] := by decide +kernel
  obtain ⟨hanswers, hcurrent, hothers⟩ := run_answers "a.b" crossing
  rw [hcompiled] at hanswers
  obtain ⟨-, -, -, hcursors⟩ := hanswers
  rw [hbegun] at hcursors hcurrent hothers
  obtain ⟨rest, hrest, hzero⟩ := hcursors 0 (by decide)
  obtain ⟨rest', hrest', hone⟩ := hcursors 1 (by decide)
  simp only [hfirst] at hrest hzero
  simp only [hsecond] at hrest' hone
  cases hrest
  cases hrest'
  exact ⟨hzero, hone, hcurrent.2.1, hothers .advance 0 (by decide) (by decide)⟩

end Runs

end Resolver

end DocumentSink
