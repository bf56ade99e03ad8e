import DocumentSink.Proofs.Compile
import DocumentSink.Proofs.Faults

/-!
The walks of a plan and the resolvers behind them. A resolver that is compiled shows a row its path,
its segments and the cursor begun last, and a walk is begun, looked at and advanced as its resolver
is. A value is put by advancing, segment by segment, whether it gets to its place or not. Main
statement: after any calls on a plan, the walk of each field is what a resolver of its path shows
that has been compiled once and then begun and advanced, and nothing else.
-/

namespace DocumentSink

namespace Resolver

/-- What a row sees of a resolver, once the path is compiled. -/
def walk? (r : Resolver) : Option Walk := r.segments.map fun ss => ⟨r.path, ss, r.cursors.getLast?⟩

variable {r : Resolver} {w w' : Walk} {s : String} {fault : PathFault}

theorem current_of_walk? (h : r.walk? = some w) : r.current = w.current := by
  obtain ⟨ss, -, rfl⟩ := Option.map_eq_some_iff.1 h
  rfl

theorem call_peek (r : Resolver) : r.call .peek = (r, (.segment ·.peek) <$> r.current) := by
  rw [Resolver.call, answer]
  cases r.current with
  | ok c => rfl
  | error fault => rfl

theorem call_remaining (r : Resolver) :
    r.call .remaining = (r, (.segments ·.remaining) <$> r.current) := by
  rw [Resolver.call, answer]
  cases r.current with
  | ok c => rfl
  | error fault => rfl

theorem start_of_walk? (h : r.walk? = some w) :
    (r.call .start).2 = .ok (.number r.cursors.length) ∧
      (r.call .start).1.walk? = some w.start := by
  obtain ⟨ss, hss, rfl⟩ := Option.map_eq_some_iff.1 h
  rw [call_start_some hss]
  refine ⟨rfl, ?_⟩
  rw [walk?, hss, List.getLast?_concat]
  rfl

/-- The current cursor is the last one, by its number. -/
theorem cursor_of_current {c : Cursor} (h : r.current = .ok c) :
    ∃ n, r.cursors.length = n + 1 ∧ r.cursors[n]? = some c := by
  rw [current] at h
  split at h
  · next c' hlast =>
      cases h
      obtain ⟨cs, hcs⟩ := List.getLast?_eq_some_iff.1 hlast
      refine ⟨cs.length, ?_, ?_⟩
      · rw [hcs, List.length_append]
        rfl
      · rw [hcs, List.getElem?_concat_length]
  · cases h

theorem not_begun_of_current (h : r.current = .error fault) :
    r.cursors = [] ∧ fault = .notBegun r.path := by
  rw [current] at h
  split at h
  · cases h
  · next hlast =>
      cases h
      exact ⟨List.getLast?_eq_none_iff.1 hlast, rfl⟩

theorem advance_of_walk? (h : r.walk? = some w) (hw : w.advance = .ok (s, w')) :
    (r.call .advance).2 = .ok (.segment (some s)) ∧ (r.call .advance).1.walk? = some w' := by
  rw [Walk.advance, ← current_of_walk? h] at hw
  obtain ⟨c, hc, hw⟩ := bind_eq_ok.1 hw
  obtain ⟨⟨s', c'⟩, hnext, hw⟩ := bind_eq_ok.1 hw
  cases hw
  obtain ⟨n, hlength, hn⟩ := cursor_of_current hc
  rw [(call_current hlength).2.1, call_advance_of_next hn hnext]
  obtain ⟨ss, hss, rfl⟩ := Option.map_eq_some_iff.1 h
  refine ⟨rfl, ?_⟩
  have hlast : (r.putCursor n c').cursors.getLast? = some c' := by
    rw [putCursor, List.getLast?_eq_getElem?, List.length_set, hlength, Nat.add_sub_cancel,
      List.getElem?_set_self (by omega)]
  rw [walk?, hlast]
  exact congrArg (Option.map _) hss

theorem advance_error_of_walk? (h : r.walk? = some w) (hw : w.advance = .error fault) :
    r.call .advance = (r, .error fault) := by
  rw [Walk.advance, ← current_of_walk? h] at hw
  rcases bind_eq_error.1 hw with hc | ⟨c, hc, hw⟩
  · obtain ⟨hnone, rfl⟩ := not_begun_of_current hc
    exact (call_not_begun hnone).2.1
  · obtain ⟨n, hlength, hn⟩ := cursor_of_current hc
    rcases bind_eq_error.1 hw with hnext | ⟨_, -, hw⟩
    · rw [(call_current hlength).2.1, call_advance_of_exhausted hn hnext]
    · cases hw

theorem run_concat (r : Resolver) (calls : List PathCall) (c : PathCall) :
    (r.run (calls ++ [c])).1 = ((r.run calls).1.call c).1 := by
  induction calls generalizing r with
  | nil => rfl
  | cons c' calls ih => exact ih _

end Resolver

/-- The call on a resolver behind one on a field. -/
def FieldCall.onPath : FieldCall → PathCall
  | start => .start
  | peek => .peek
  | advance => .advance
  | remaining => .remaining

/-- A field answers what its resolver answers. A beginning gives nothing but the number of the
cursor. -/
inductive PlanAnswer.Says : PlanAnswer → Except PathFault PathAnswer → Prop
  | done (n : Nat) : Says .done (.ok (.number n))
  | segment (s : Except PathFault (Option String)) : Says (.segment s) (.segment <$> s)
  | segments (ss : Except PathFault (List String)) : Says (.segments ss) (.segments <$> ss)

namespace FieldPlan

variable {p : FieldPlan} {r : Resolver}

/-- A call on a field is the call on its resolver, in what it does and in what it says. -/
theorem call_of_walk? (h : r.walk? = some p.toWalk) (c : FieldCall) :
    (r.call c.onPath).1.walk? = some (p.call c).1.toWalk ∧
      (p.call c).2.Says (r.call c.onPath).2 := by
  cases c with
  | start =>
      obtain ⟨hanswer, hwalk⟩ := Resolver.start_of_walk? h
      rw [FieldCall.onPath]
      refine ⟨hwalk, ?_⟩
      rw [hanswer]
      exact .done _
  | peek =>
      rw [FieldCall.onPath, Resolver.call_peek, Resolver.current_of_walk? h, call]
      refine ⟨h, ?_⟩
      cases p.current with
      | ok c => exact .segment (.ok c.peek)
      | error fault => exact .segment (.error fault)
  | remaining =>
      rw [FieldCall.onPath, Resolver.call_remaining, Resolver.current_of_walk? h, call, remaining]
      refine ⟨h, ?_⟩
      cases p.current with
      | ok c => exact .segments (.ok c.remaining)
      | error fault => exact .segments (.error fault)
  | advance =>
      rw [FieldCall.onPath, call, advance]
      cases hw : p.toWalk.advance with
      | ok v =>
          obtain ⟨s, w⟩ := v
          obtain ⟨hanswer, hwalk⟩ := Resolver.advance_of_walk? h hw
          refine ⟨hwalk, ?_⟩
          rw [hanswer]
          exact .segment (.ok (some s))
      | error fault =>
          rw [Resolver.advance_error_of_walk? h hw]
          exact ⟨h, .segment (.error fault)⟩

end FieldPlan

namespace Walk

variable {vars : Variables} {w w' : Walk} {s : String}

/-- A walk that a resolver of its path shows after it has been compiled, begun and advanced. -/
def IsReached (vars : Variables) (w : Walk) : Prop :=
  ∃ calls : List PathCall, (∀ c ∈ calls, c = .start ∨ c = .advance) ∧
    (({ path := w.path } : Resolver).run (.compile vars :: calls)).1.walk? = some w

theorem isReached_ofPath (vars : Variables) (path : String) : (ofPath vars path).IsReached vars :=
  ⟨[], List.forall_mem_nil _, rfl⟩

theorem IsReached.concat (h : w.IsReached vars) {c : PathCall} (hc : c = .start ∨ c = .advance)
    (hpath : w'.path = w.path)
    (hcall : ∀ r : Resolver, r.walk? = some w → (r.call c).1.walk? = some w') :
    w'.IsReached vars := by
  obtain ⟨calls, hcalls, hwalk⟩ := h
  refine ⟨calls ++ [c], List.forall_mem_append.2 ⟨hcalls, List.forall_mem_singleton.2 hc⟩, ?_⟩
  rw [hpath, ← List.cons_append, Resolver.run_concat]
  exact hcall _ hwalk

theorem IsReached.start (h : w.IsReached vars) : w.start.IsReached vars :=
  h.concat (.inl rfl) rfl fun _ hr => (Resolver.start_of_walk? hr).2

theorem IsReached.advance (h : w.IsReached vars) (hw : w.advance = .ok (s, w')) :
    w'.IsReached vars :=
  h.concat (.inr rfl) (congrArg (·.path) (start_advance hw)) fun _ hr =>
    (Resolver.advance_of_walk? hr hw).2

theorem cursor_of_current {c : Cursor} (h : w.current = .ok c) : w.cursor = some c := by
  rw [current] at h
  split at h
  · next hc =>
      cases h
      exact hc
  · cases h

theorem advance_skip {c : Cursor} {n : Nat} (hc : w.cursor = some c) (hn : n < c.length) :
    ∃ s, (w.skip n).advance = .ok (s, w.skip (n + 1)) := by
  have hlt : (c.skip n).position < (c.skip n).segments.length := by
    rw [Cursor.length] at hn
    dsimp only [Cursor.skip]
    omega
  have hcurrent : (w.skip n).current = .ok (c.skip n) := by
    rw [current, skip, hc]
    rfl
  refine ⟨(c.skip n).segments[(c.skip n).position], ?_⟩
  rw [Walk.advance, hcurrent, ok_bind, Cursor.next_eq_ok hlt, ok_bind, skip, skip, hc]
  rfl

/-- Segments that are skipped are advances one by one. -/
theorem IsReached.skip {c : Cursor} (h : w.IsReached vars) (hc : w.cursor = some c) {n : Nat}
    (hn : n ≤ c.length) : (w.skip n).IsReached vars := by
  induction n with
  | zero =>
      obtain ⟨path, ss, cursor⟩ := w
      cases hc
      exact h
  | succ n ih =>
      obtain ⟨s, hs⟩ := advance_skip hc hn
      exact (ih (Nat.le_of_succ_le hn)).advance hs

theorem IsReached.finish (h : w.IsReached vars) : w.finish.IsReached vars := by
  cases hc : w.cursor with
  | none =>
      have hfinish : w.finish = w := by
        obtain ⟨path, ss, cursor⟩ := w
        cases hc
        rfl
      rwa [hfinish]
  | some c =>
      have hfinish : w.finish = w.skip c.length := by rw [Walk.finish, Walk.skip, hc]; rfl
      rw [hfinish]
      exact h.skip hc (Nat.le_refl _)

end Walk

namespace FieldPlan

variable {vars : Variables} {p : FieldPlan} {row : Row}

/-- No more keys lead into objects than there are segments before the cursor. -/
theorem length_of_route {containers : List String} {key : String}
    (h : p.route = .ok (containers, key)) :
    ∃ c, p.cursor = some c ∧ containers.length ≤ c.length := by
  obtain ⟨keys, hkeys, h⟩ := bind_eq_ok.1 h
  obtain ⟨c, hcurrent, hkeys⟩ := bind_eq_ok.1 hkeys
  cases hkeys
  have hterminal : p.terminal.length ≤ 1 := by
    rw [terminal]
    split
    · exact Nat.le_refl _
    · exact Nat.zero_le _
  split at h
  · cases h
    refine ⟨c, Walk.cursor_of_current hcurrent, ?_⟩
    rw [List.length_dropLast, List.length_append, c.length_eq]
    omega
  · cases h

theorem isReached_put (h : p.toWalk.IsReached vars) (a : Assembly) (d : Draft) :
    (fieldLeft (p.put a d)).toWalk.IsReached vars := by
  rw [put]
  split
  · exact h
  · next containers key hroute =>
      split
      · exact h.finish
      · next b hb =>
          obtain ⟨c, hc, hlength⟩ := length_of_route hroute
          obtain ⟨n, hdepth, hn⟩ := getElem?_of_put hb
          obtain ⟨hn, -⟩ := List.getElem?_eq_some_iff.1 hn
          exact h.skip hc (by omega)

theorem isReached_place (h : p.toWalk.IsReached vars) (row : Row) (a : Assembly) :
    (fieldLeft (p.place row a)).toWalk.IsReached vars := by
  rw [place]
  split
  · exact h
  · split
    · exact h
    · exact isReached_put h a _

theorem isReached_placeAll {ps : List FieldPlan} (h : ∀ p ∈ ps, p.toWalk.IsReached vars) (row : Row)
    (a : Assembly) : ∀ p ∈ (placeAll row a ps).2.1, p.toWalk.IsReached vars := by
  induction ps generalizing a with
  | nil => exact h
  | cons p ps ih =>
      rw [List.forall_mem_cons] at h
      have hp := isReached_place h.1 row a
      rw [placeAll]
      split
      · next hplace =>
          rw [hplace, fieldLeft] at hp
          exact List.forall_mem_cons.2 ⟨hp, h.2⟩
      · next hplace =>
          rw [hplace, fieldLeft] at hp
          exact List.forall_mem_cons.2 ⟨hp, ih h.2 _⟩

theorem isReached_call (h : p.toWalk.IsReached vars) (c : FieldCall) :
    (p.call c).1.toWalk.IsReached vars := by
  cases c with
  | start => exact h.start
  | peek | remaining => exact h
  | advance =>
      rw [call, advance]
      cases hw : p.toWalk.advance with
      | ok v => exact h.advance hw
      | error fault => exact h

end FieldPlan

namespace Plan

variable {vars : Variables} {plan : Plan}

/-- Each walk of a plan is one that a resolver shows. -/
def IsReached (vars : Variables) (plan : Plan) : Prop :=
  ∀ p ∈ plan.fields, p.toWalk.IsReached vars

theorem IsReached.startRow (h : plan.IsReached vars) : plan.startRow.IsReached vars := by
  intro p hp
  obtain ⟨q, hq, rfl⟩ := List.mem_map.1 hp
  exact (h q hq).start

theorem IsReached.insertDocument (h : plan.IsReached vars) (row : Row) :
    (plan.insertDocument row).plan.IsReached vars :=
  FieldPlan.isReached_placeAll h.startRow row _

theorem IsReached.mapMany (h : plan.IsReached vars) (rows : List Row) :
    (plan.mapMany rows).1.IsReached vars := by
  induction rows generalizing plan with
  | nil => exact h
  | cons row rows ih =>
      rw [Plan.mapMany]
      split
      · exact h.insertDocument row
      · exact ih (h.insertDocument row)

theorem IsReached.callField (h : plan.IsReached vars) (n : Nat) (c : FieldCall) :
    (plan.callField n c).1.IsReached vars := by
  rw [Plan.callField]
  split
  · exact h
  · next p hp =>
      intro q hq
      rcases List.mem_or_eq_of_mem_set hq with hq | rfl
      · exact h q hq
      · exact FieldPlan.isReached_call (h p (List.mem_of_getElem? hp)) c

theorem IsReached.call (h : plan.IsReached vars) (c : PlanCall) :
    (plan.call c).1.IsReached vars := by
  cases c with
  | startRow => exact h.startRow
  | remaining => exact h
  | field n c => exact h.callField n c
  | insertDocument row => exact h.insertDocument row
  | matchQuery row => exact h.startRow
  | modifierUpdate row isInsert =>
      rw [Plan.call, Plan.modifierUpdate]
      split
      · exact h
      · exact h.startRow
  | mapMany rows => exact h.mapMany rows

theorem IsReached.run (h : plan.IsReached vars) (calls : List PlanCall) :
    (plan.run calls).1.IsReached vars := by
  induction calls generalizing plan with
  | nil => exact h
  | cons c calls ih => exact ih (h.call c)

/-- The fields of a plan have the mappings and paths that they had, whatever is called. -/
theorem paths_run (plan : Plan) (calls : List PlanCall) :
    (plan.run calls).1.fields.map (fun p => (p.mapping, p.path)) =
      plan.fields.map fun p => (p.mapping, p.path) := by
  have hshown (ps : List FieldPlan) : ps.map (fun p => (p.mapping, p.path)) =
      (ps.map (·.start)).map fun p => (p.mapping, p.path) := by
    rw [List.map_map]
    rfl
  have hstart : (plan.run calls).1.fields.map (·.start) = plan.fields.map (·.start) :=
    congrArg (·.fields) (startRow_run plan calls)
  rw [hshown, hstart, ← hshown]

/-- After any calls on a plan, there is a field for each mapping of the definition, in order, and
its walk is that of a resolver of the mapping's path that is compiled, begun and advanced. What the
field answers is what that resolver answers. -/
theorem isReached_run {d : Definition} (hplan : d.compile vars = .ok plan)
    (calls : List PlanCall) :
    let fields := (plan.run calls).1.fields
    fields.map (fun p => (p.mapping, p.path)) = d.mappings.map (fun m => (m, m.documentPath)) ∧
      ∀ p ∈ fields, ∃ onPath : List PathCall, (∀ c ∈ onPath, c = .start ∨ c = .advance) ∧
        let r := (({ path := p.path } : Resolver).run (.compile vars :: onPath)).1
        r.walk? = some p.toWalk ∧ ∀ c, (p.call c).2.Says (r.call c.onPath).2 := by
  intro fields
  have hfields := Definition.fields_of_compile hplan
  have hfresh : plan.IsReached vars := by
    intro p hp
    rw [hfields] at hp
    obtain ⟨m, -, rfl⟩ := List.mem_map.1 hp
    exact Walk.isReached_ofPath vars m.documentPath
  constructor
  · rw [paths_run, hfields, List.map_map]
    rfl
  · intro p hp
    obtain ⟨onPath, honPath, hwalk⟩ := hfresh.run calls p hp
    exact ⟨onPath, honPath, hwalk, fun c => (FieldPlan.call_of_walk? hwalk c).2⟩

end Plan

end DocumentSink
