import DocumentSink.Proofs.Cursors
import DocumentSink.Proofs.Held
import DocumentSink.Proofs.Selection

/-!
What can go wrong with a row. A cursor that has just begun has all keys of its field, and a field
that names a key has at least one; so a walk never asks for a segment that is not there, and the
only faults are fragments that cannot be read, paths that lead through values, and the wrong mode.
Main statement: the faults of each call, after any calls on the plan.
-/

namespace DocumentSink

namespace Cursor

variable {c : Cursor}

theorem getLastD_segments (h : c.position < c.segments.length)
    (hlast : c.segments.length - 1 = c.position) :
    c.segments.getLastD "" = c.segments[c.position] := by
  rw [List.getLastD_eq_getLast?, List.getLast?_eq_getElem?, hlast, List.getElem?_eq_getElem h,
    Option.getD_some]

theorem length_skip_one (h : c.position < c.segments.length) :
    c.length = (c.skip 1).length + 1 := by
  simp only [length, skip]
  omega

theorem length_of_next {s : String} {d : Cursor} (h : c.next = .ok (s, d)) :
    d.length < c.length := by
  obtain ⟨hc, -, rfl⟩ := of_next h
  rw [length_skip_one hc]
  exact Nat.lt_succ_self _

end Cursor

namespace FieldMapping

variable {m : FieldMapping} {d : Draft} {objects : HeldObjects} {members : Record Draft}
  {c : Cursor}

/-- The number of segments that are no containers. -/
def kept (m : FieldMapping) : Nat := if m.useIncomingName then 0 else 1

/-- Writes a draft segment by segment: as long as there are more of them than are kept, the next one
leads into an object, and behind them stands the key, which is the incoming name or one more
segment. The cursor is left where the walk ends, also at a fault. -/
def putAlong (m : FieldMapping) (d : Draft) (objects : HeldObjects) (members : Record Draft)
    (c : Cursor) : Except (MappingFault × Cursor) ((HeldObjects × Record Draft) × Cursor) :=
  if m.kept < c.length then
    match _h : c.next with
    | .error fault => .error (.cursor fault, c)
    | .ok (segment, c) =>
      match Record.get? segment members with
      | none => do
        let ((objects, inner), c) ← putAlong m d objects [] c
        return ((objects, members.put segment (.object inner)), c)
      | some (.object inner) => do
        let ((objects, inner), c) ← putAlong m d objects inner c
        return ((objects, members.put segment (.object inner)), c)
      | some (.held name) => do
        let ((objects, inner), c) ← putAlong m d objects ((Record.get? name objects).getD []) c
        return ((objects.put name inner, members), c)
      | some (.value _) => .error (.blocked m.incomingName m.documentPath segment, c)
  else if m.useIncomingName then .ok ((objects, members.put m.incomingName d), c)
  else
    match c.next with
    | .error fault => .error (.cursor fault, c)
    | .ok (key, c) => .ok ((objects, members.put key d), c)
termination_by c.length
decreasing_by all_goals exact Cursor.length_of_next _h

/-- The segments that lead into objects, and the key behind them. -/
def containers (m : FieldMapping) (c : Cursor) : List String :=
  c.remaining.take (c.length - m.kept)

def key (m : FieldMapping) (c : Cursor) : String :=
  if m.useIncomingName then m.incomingName else c.segments.getLastD ""

theorem containers_cons (h : m.kept < c.length) (hc : c.position < c.segments.length) :
    m.containers c = c.segments[c.position] :: m.containers (c.skip 1) := by
  have hlength : c.length - m.kept = (c.skip 1).length - m.kept + 1 := by
    rw [Cursor.length_skip_one hc] at h ⊢
    omega
  rw [containers, hlength, Cursor.remaining_eq_cons hc, List.take_succ_cons, containers]

theorem kept_le_skip (h : m.kept < c.length) (hc : c.position < c.segments.length) :
    m.kept ≤ (c.skip 1).length := by
  rw [Cursor.length_skip_one hc] at h
  exact Nat.le_of_lt_succ h

theorem length_eq_kept (hlt : ¬ m.kept < c.length) (h : m.kept ≤ c.length) : c.length = m.kept :=
  Nat.le_antisymm (Nat.le_of_not_lt hlt) h

theorem containers_eq_nil (h : c.length = m.kept) : m.containers c = [] := by
  rw [containers, h, Nat.sub_self, List.take_zero]

/-- A walk that has the kept segments before it finds each that it asks for, and puts what is put at
the path as a whole. -/
theorem putAlong_eq (m : FieldMapping) (d : Draft) (objects : HeldObjects) (members : Record Draft)
    (c : Cursor) (hkept : m.kept ≤ c.length) (hend : c.position ≤ c.segments.length) :
    m.putAlong d objects members c =
      match Draft.put (m.key c) d objects members c.position (m.containers c) with
      | .ok r => .ok (r, ⟨c.segments, c.segments.length⟩)
      | .error b =>
        .error (.blocked m.incomingName m.documentPath b.key, ⟨c.segments, b.depth + 1⟩) := by
  have hskip (c : Cursor) : m.key (c.skip 1) = m.key c := rfl
  -- Each step takes one segment of more than are kept, so the kept ones stay before the cursor; that
  -- excludes both cases in which it has none.
  fun_induction putAlong m d objects members c with
  | case1 members c hlt fault hnext =>
      have hc := Nat.lt_of_sub_pos (Nat.zero_lt_of_lt hlt)
      rw [Cursor.next_eq_ok hc] at hnext
      cases hnext
  | case2 members c hlt segment c' hnext hget ih =>
      obtain ⟨hc, rfl, rfl⟩ := Cursor.of_next hnext
      rw [ih (kept_le_skip hlt hc) hc, containers_cons hlt hc, Draft.put, hget, hskip]
      dsimp only [Cursor.skip]
      cases Draft.put (m.key c) d objects [] (c.position + 1) _ <;> rfl
  | case3 members c hlt segment c' hnext inner hget ih =>
      obtain ⟨hc, rfl, rfl⟩ := Cursor.of_next hnext
      rw [ih (kept_le_skip hlt hc) hc, containers_cons hlt hc, Draft.put, hget, hskip]
      dsimp only [Cursor.skip]
      cases Draft.put (m.key c) d objects inner (c.position + 1) _ <;> rfl
  | case4 members c hlt segment c' hnext name hget ih =>
      obtain ⟨hc, rfl, rfl⟩ := Cursor.of_next hnext
      rw [ih (kept_le_skip hlt hc) hc, containers_cons hlt hc, Draft.put, hget, hskip]
      dsimp only [Cursor.skip]
      cases Draft.put (m.key c) d objects _ (c.position + 1) _ <;> rfl
  | case5 members c hlt segment c' hnext v hget =>
      obtain ⟨hc, rfl, rfl⟩ := Cursor.of_next hnext
      rw [containers_cons hlt hc, Draft.put, hget]
      rfl
  | case6 members c hlt hname =>
      have hlength := length_eq_kept hlt hkept
      have hposition : c.position = c.segments.length := by
        rw [kept, if_pos hname, Cursor.length] at hlength
        omega
      rw [containers_eq_nil hlength, Draft.put, key, if_pos hname, ← hposition]
  | case7 members c hlt hname fault hnext =>
      rw [kept, if_neg hname] at hkept
      rw [Cursor.next_eq_ok (Nat.lt_of_sub_pos hkept)] at hnext
      cases hnext
  | case8 members c hlt hname key c' hnext =>
      obtain ⟨hc, rfl, rfl⟩ := Cursor.of_next hnext
      have hlength := length_eq_kept hlt hkept
      have hposition : c.position + 1 = c.segments.length := by
        rw [kept, if_neg hname, Cursor.length] at hlength
        omega
      rw [containers_eq_nil hlength, Draft.put, FieldMapping.key, if_neg hname,
        Cursor.getLastD_segments hc (Nat.pred_eq_of_eq_succ hposition.symm), Cursor.skip, hposition]

end FieldMapping

namespace FieldPlan

variable {p : FieldPlan} {ps : List FieldPlan} {row : Row} {fault : MappingFault}

/-- Puts a draft segment by segment, from where the cursor stands. -/
def putAlong (p : FieldPlan) (a : Assembly) (d : Draft) :
    Except (MappingFault × FieldPlan) (Assembly × FieldPlan) :=
  match p.current with
  | .error fault => .error (.cursor fault, p)
  | .ok c =>
    match p.mapping.putAlong d a.objects a.document c with
    | .ok ((objects, document), c) => .ok (⟨objects, document⟩, { p with cursor := some c })
    | .error (fault, c) => .error (fault, { p with cursor := some c })

/-- The keys of a path, as the mapping tells containers and key apart at its beginning. -/
theorem split_keyPath (h : p.keyPath ≠ []) :
    p.mapping.kept ≤ p.segments.length ∧ p.mapping.key ⟨p.segments, 0⟩ = p.keyPath.getLastD "" ∧
      p.mapping.containers ⟨p.segments, 0⟩ = p.keyPath.dropLast := by
  have hcontainers : p.mapping.containers ⟨p.segments, 0⟩ =
      p.segments.take (p.segments.length - p.mapping.kept) := rfl
  rw [hcontainers, FieldMapping.key, FieldMapping.kept]
  rw [keyPath, terminal] at h ⊢
  cases hname : p.mapping.useIncomingName with
  | true => simp
  | false =>
      rw [hname, if_neg Bool.false_ne_true, List.append_nil] at h
      rw [if_neg Bool.false_ne_true, if_neg Bool.false_ne_true, if_neg Bool.false_ne_true,
        List.append_nil]
      exact ⟨List.length_pos_iff.2 h, rfl, List.dropLast_eq_take.symm⟩

/-- From the beginning of a row on, the segments one by one are the path as a whole. -/
theorem putAlong_start (h : p.keyPath ≠ []) (a : Assembly) (d : Draft) :
    p.start.putAlong a d = p.start.put a d := by
  obtain ⟨hkept, hkey, hcontainers⟩ := split_keyPath h
  have hcurrent : p.start.current = .ok ⟨p.segments, 0⟩ := rfl
  have hmapping : p.start.mapping = p.mapping := rfl
  rw [putAlong, hcurrent, put, route_start h, hmapping]
  dsimp only
  rw [FieldMapping.putAlong_eq _ _ _ _ _ hkept (Nat.zero_le _), hkey, hcontainers]
  dsimp only
  cases Draft.put (p.keyPath.getLastD "") d a.objects a.document 0 p.keyPath.dropLast with
  | error b => simp [start, Walk.start, skip, Walk.skip, Cursor.skip]
  | ok r => simp [start, Walk.start, finish, Walk.finish, Cursor.skip, Cursor.length]

section Placing

/-- A path leads through a value: the fault names the field and a key on the way to its own. -/
def Blocks (p : FieldPlan) (fault : MappingFault) : Prop :=
  ∃ key ∈ p.keyPath.dropLast,
    fault = .blocked p.mapping.incomingName p.mapping.documentPath key

/-- A path is blocked at one of its keys. -/
theorem getElem?_of_put {key : String} {d : Draft} {objects : HeldObjects} {members : Record Draft}
    {depth : Nat} {path : List String} {b : Draft.Blocked}
    (h : Draft.put key d objects members depth path = .error b) :
    ∃ n, b.depth = depth + n ∧ path[n]? = some b.key := by
  induction path generalizing objects members depth with
  | nil => cases h
  | cons k path ih =>
      rw [Draft.put] at h
      have hinner {objects : HeldObjects} {inner : Record Draft}
          {f : HeldObjects × Record Draft → HeldObjects × Record Draft}
          (h : (do return f (← Draft.put key d objects inner (depth + 1) path)) = .error b) :
          ∃ n, b.depth = depth + n ∧ (k :: path)[n]? = some b.key := by
        rcases bind_eq_error.1 h with h | ⟨_, -, h⟩
        · obtain ⟨n, hdepth, hkey⟩ := ih h
          exact ⟨n + 1, by omega, hkey⟩
        · cases h
      split at h
      · exact hinner h
      · exact hinner h
      · exact hinner h
      · cases h
        exact ⟨0, rfl, rfl⟩

/-- A field that has begun its row fails with its fragment or on its way. -/
theorem fault_of_place {a : Assembly} (h : stepResult (p.start.place row a) = .error fault) :
    p.counts row = true ∧ (p.Fails row fault ∨ p.Blocks fault) := by
  have hvalue : p.start.value? row = p.value? row := rfl
  rw [place, hvalue, value?_eq] at h
  cases hcounts : p.counts row with
  | false =>
      rw [hcounts] at h
      cases h
  | true =>
      refine ⟨rfl, ?_⟩
      rw [hcounts, if_pos rfl] at h
      have hvalue : p.value? row = some (p.valueIn row) := by rw [value?_eq, hcounts, if_pos rfl]
      have hpath := keyPath_ne_nil (inert_of_value? hvalue)
      have hdraft : p.start.draft (p.valueIn row) = p.draft (p.valueIn row) := rfl
      dsimp only at h
      rw [hdraft] at h
      cases hd : p.draft (p.valueIn row) with
      | error fault' =>
          rw [hd] at h
          cases h
          left
          have hplaced := read_draft hvalue
          rw [hd, map_error] at hplaced
          exact placed_eq_error.1 hplaced.symm
      | ok d =>
          rw [hd] at h
          dsimp only at h
          rw [put, route_start hpath] at h
          right
          dsimp only at h
          split at h
          · cases h
          · next b hb =>
              cases h
              obtain ⟨n, -, hkey⟩ := getElem?_of_put hb
              exact ⟨b.key, List.mem_of_getElem? hkey, rfl⟩

/-- A run of placements fails with the fault of one of its fields. -/
theorem fault_of_placeAll {a : Assembly}
    (h : runResult (placeAll row a (ps.map start)) = .error fault) :
    ∃ p ∈ ps, p.counts row = true ∧ (p.Fails row fault ∨ p.Blocks fault) := by
  induction ps generalizing a with
  | nil => cases h
  | cons p ps ih =>
      rw [List.map_cons, placeAll] at h
      cases hplace : p.start.place row a with
      | error r =>
          obtain ⟨fault', q⟩ := r
          rw [hplace] at h
          cases h
          exact ⟨p, List.mem_cons_self, fault_of_place (congrArg stepResult hplace)⟩
      | ok r =>
          obtain ⟨a', q⟩ := r
          rw [hplace] at h
          obtain ⟨p', hp', hfault⟩ := ih h
          exact ⟨p', List.mem_cons_of_mem p hp', hfault⟩

end Placing

end FieldPlan

theorem FirstFails.exists_mem {row : Row} {ps : List FieldPlan} {P : FieldPlan → Bool}
    {fault : MappingFault} (h : FirstFails row (ps.filter P) fault) :
    ∃ p ∈ ps, P p = true ∧ p.Fails row fault := by
  obtain ⟨before, p, after, hsplit, -, hfails⟩ := h
  have hp : p ∈ ps.filter P := hsplit ▸ List.mem_append_right before List.mem_cons_self
  exact ⟨p, (List.mem_filter.1 hp).1, (List.mem_filter.1 hp).2, hfails⟩

namespace Plan

variable {plan : Plan} {row : Row} {fault : MappingFault}

theorem fault_of_insertDocument (h : (plan.insertDocument row).answer = .error fault) :
    ∃ p ∈ plan.fields, p.counts row = true ∧ (p.Fails row fault ∨ p.Blocks fault) := by
  rw [insertDocument_answer] at h
  exact FieldPlan.fault_of_placeAll (map_eq_error.1 h)

theorem fault_of_matchQuery (h : (plan.matchQuery row).answer = .error fault) :
    ∃ p ∈ plan.fields, p.countsInQuery row = true ∧ p.Fails row fault := by
  rw [answer_matchQuery, map_eq_error, FieldPlan.entries_eq_error, filter_matchFields] at h
  exact h.exists_mem

theorem fault_of_modifierUpdate {isInsert : Bool} (hmode : plan.modifierMode = true)
    (h : (plan.modifierUpdate row isInsert).answer = .error fault) :
    ∃ p ∈ plan.fields, p.countsInUpdate row isInsert = true ∧ p.Fails row fault := by
  rw [answer_modifierUpdate hmode, map_eq_error, FieldPlan.entries_eq_error, hmode,
    filter_applies] at h
  exact h.exists_mem

/-- After any calls on a plan, a whole document fails with the fragment of a field that counts or
on the way of its path, a query with a fragment, and an update with a fragment or for the mode. No
walk asks for a segment that is not there: where a field names a key, taking the segments one by one
from the beginning of the row is putting at the path as a whole. -/
theorem faults_run (plan : Plan) (before : List PlanCall) (row : Row) (fault : MappingFault) :
    let reached := (plan.run before).1
    ((reached.insertDocument row).answer = .error fault →
      ∃ p ∈ plan.fields, p.counts row = true ∧ (p.Fails row fault ∨ p.Blocks fault)) ∧
    ((reached.matchQuery row).answer = .error fault →
      ∃ p ∈ plan.fields, p.countsInQuery row = true ∧ p.Fails row fault) ∧
    (∀ isInsert, (reached.modifierUpdate row isInsert).answer = .error fault →
      if plan.modifierMode then
        ∃ p ∈ plan.fields, p.countsInUpdate row isInsert = true ∧ p.Fails row fault
      else fault = .notModifierMode) ∧
    ∀ p ∈ reached.fields, p.inert = false →
      ∀ a d, p.start.putAlong a d = p.start.put a d := by
  intro reached
  have hreached := startRow_run plan before
  refine ⟨?_, ?_, ?_, ?_⟩
  · rw [insertDocument_congr hreached]
    exact fault_of_insertDocument
  · rw [matchQuery_congr hreached]
    exact fault_of_matchQuery
  · intro isInsert
    rw [(modifierUpdate_congr hreached row isInsert).1]
    intro h
    split
    · next hmode => exact fault_of_modifierUpdate hmode h
    · next hmode =>
        rw [modifierUpdate, Bool.eq_false_iff.2 hmode] at h
        cases h
        rfl
  · intro p _ hp a d
    exact FieldPlan.putAlong_start (FieldPlan.keyPath_ne_nil hp) a d

/-- A walk that has not begun at the start of its path can ask for a segment too many. -/
example :
    let p : FieldPlan := ⟨⟨"x", ["x"], some ⟨["x"], 1⟩⟩, { incomingName := "a" }⟩
    p.put ⟨[], []⟩ (.value .null) = .error (.cursor (.exhausted ["x"]), p) :=
  rfl

/-- A path through the value of another field, a fragment at a path of empty segments with the name
of the field behind them, and a field that has such a path alone and so names no key. -/
def faulty : Plan where
  write := { modifierUpdate := true }
  modifierMode := true
  fields := [
    ⟨⟨"x", ["x"], none⟩, { incomingName := "a", documentPath := "x", operator := .set }⟩,
    ⟨⟨"x.y.z", ["x", "y", "z"], none⟩, { incomingName := "b", documentPath := "x.y.z" }⟩,
    ⟨⟨".", ["", ""], none⟩,
      { incomingName := "f", documentPath := ".", useIncomingName := true, isFragment := true,
        isMatchKey := true }⟩,
    ⟨⟨".", ["", ""], none⟩,
      { incomingName := "f", documentPath := ".", operator := .set, isFragment := true,
        isMatchKey := true }⟩]
  indexes := []
  vars := []

theorem faults_run_faulty :
    let row : Row := [("a", .int 0), ("b", .int 1), ("f", .int 2)]
    let blocked := MappingFault.blocked "b" "x.y.z" "x"
    let unread := MappingFault.fragment "f" (.noText "int")
    let before := [.startRow, .field 1 .advance]
    let reached := (faulty.run before).1
    (reached.insertDocument row).answer = .error blocked ∧
      (∃ p ∈ faulty.fields, p.counts row = true ∧ (p.Fails row blocked ∨ p.Blocks blocked)) ∧
      (reached.matchQuery row).answer = .error unread ∧
      (∃ p ∈ faulty.fields, p.countsInQuery row = true ∧ p.Fails row unread) ∧
      (reached.modifierUpdate row true).answer = .ok (.object
        [("$set", .object [("x", .int 0)])]) := by
  intro row blocked unread before reached
  have hblocked := faults_run faulty before row blocked
  have hunread := faults_run faulty before row unread
  exact ⟨rfl, hblocked.1 rfl, rfl, hunread.2.1 rfl, rfl⟩

end Plan

end DocumentSink
