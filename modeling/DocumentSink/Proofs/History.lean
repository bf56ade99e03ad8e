import DocumentSink.Plan.Call
import DocumentSink.Proofs.Except

/-!
Rows do not see what came before them. A call moves cursors and nothing else, whether it goes well
or fails, and each row begins by setting all cursors back; so after any run of calls a plan answers
for a row what it answered when it was made.
-/

namespace DocumentSink

theorem Walk.start_advance {w w' : Walk} {s : String} (h : w.advance = .ok (s, w')) :
    w'.start = w.start := by
  rw [advance, bind_eq_ok] at h
  obtain ⟨c, -, h⟩ := h
  rw [bind_eq_ok] at h
  obtain ⟨⟨s', c'⟩, -, h⟩ := h
  cases h
  rfl

namespace FieldPlan

variable {p q : FieldPlan}

theorem start_skip (p : FieldPlan) (n : Nat) : (p.skip n).start = p.start := rfl

theorem start_finish (p : FieldPlan) : p.finish.start = p.start := rfl

/-- The field as a step leaves it, whether it goes well or fails. -/
def fieldLeft (r : Except (MappingFault × FieldPlan) (Assembly × FieldPlan)) : FieldPlan :=
  match r with
  | .ok (_, p) => p
  | .error (_, p) => p

theorem start_put (p : FieldPlan) (a : Assembly) (d : Draft) :
    (fieldLeft (p.put a d)).start = p.start := by
  rw [put]
  split
  · rfl
  · split
    · exact start_finish p
    · exact start_skip p _

theorem start_place (p : FieldPlan) (row : Row) (a : Assembly) :
    (fieldLeft (p.place row a)).start = p.start := by
  rw [place]
  split
  · rfl
  · split
    · rfl
    · exact start_put p a _

theorem start_placeAll (row : Row) (a : Assembly) (ps : List FieldPlan) :
    (placeAll row a ps).2.1.map start = ps.map start := by
  induction ps generalizing a with
  | nil => rfl
  | cons p ps ih =>
      have hp := start_place p row a
      rw [placeAll]
      split
      · next h =>
          rw [h, fieldLeft] at hp
          simp only [List.map_cons, hp]
      · next h =>
          rw [h, fieldLeft] at hp
          simp only [List.map_cons, hp, ih]

theorem start_advance {s : String} (h : p.advance = .ok (s, q)) : q.start = p.start := by
  rw [advance, bind_eq_ok] at h
  obtain ⟨⟨s', w⟩, hw, h⟩ := h
  cases h
  rw [start, start, Walk.start_advance hw]

theorem start_call (p : FieldPlan) (c : FieldCall) : (p.call c).1.start = p.start := by
  cases c with
  | start => rfl
  | peek => rfl
  | remaining => rfl
  | advance =>
      rw [call]
      split
      · next h => exact start_advance h
      · rfl

end FieldPlan

namespace Plan

theorem startRow_startRow (plan : Plan) : plan.startRow.startRow = plan.startRow := by
  simp only [startRow, List.map_map]
  rfl

/-- Fields that agree up to their cursors begin a row alike. -/
theorem startRow_fields {plan : Plan} {ps : List FieldPlan}
    (h : ps.map (·.start) = plan.fields.map (·.start)) :
    { plan with fields := ps }.startRow = plan.startRow := by
  rw [startRow, startRow, h]

theorem startRow_insertDocument (plan : Plan) (row : Row) :
    (plan.insertDocument row).plan.startRow = plan.startRow := by
  have hfields := FieldPlan.start_placeAll row ⟨.ofRow row, []⟩ plan.startRow.fields
  exact (startRow_fields hfields).trans (startRow_startRow plan)

theorem startRow_modifierUpdate (plan : Plan) (row : Row) (isInsert : Bool) :
    (plan.modifierUpdate row isInsert).plan.startRow = plan.startRow := by
  rw [modifierUpdate]
  split
  · rfl
  · exact startRow_startRow plan

theorem startRow_mapMany (plan : Plan) (rows : List Row) :
    (plan.mapMany rows).1.startRow = plan.startRow := by
  induction rows generalizing plan with
  | nil => rfl
  | cons row rows ih =>
      rw [mapMany]
      split
      · exact startRow_insertDocument plan row
      · exact (ih _).trans (startRow_insertDocument plan row)

theorem startRow_callField (plan : Plan) (n : Nat) (c : FieldCall) :
    (plan.callField n c).1.startRow = plan.startRow := by
  rw [callField]
  split
  · rfl
  · next p hp =>
      obtain ⟨hn, rfl⟩ := List.getElem?_eq_some_iff.1 hp
      apply startRow_fields
      rw [List.map_set, FieldPlan.start_call, ← List.map_set, List.set_getElem_self]

theorem startRow_call (plan : Plan) (c : PlanCall) : (plan.call c).1.startRow = plan.startRow := by
  cases c with
  | startRow => exact startRow_startRow plan
  | remaining => rfl
  | field n c => exact startRow_callField plan n c
  | insertDocument row => exact startRow_insertDocument plan row
  | matchQuery row => exact startRow_startRow plan
  | modifierUpdate row isInsert => exact startRow_modifierUpdate plan row isInsert
  | mapMany rows => exact startRow_mapMany plan rows

/-- A run of calls moves cursors alone. -/
theorem startRow_run (plan : Plan) (calls : List PlanCall) :
    (plan.run calls).1.startRow = plan.startRow := by
  induction calls generalizing plan with
  | nil => rfl
  | cons c calls ih => exact (ih _).trans (startRow_call plan c)

section Answers

variable {p q : Plan}

theorem insertDocument_congr (h : p.startRow = q.startRow) (row : Row) :
    p.insertDocument row = q.insertDocument row := by
  rw [insertDocument, insertDocument, h]

theorem matchQuery_congr (h : p.startRow = q.startRow) (row : Row) :
    p.matchQuery row = q.matchQuery row := by
  rw [matchQuery, matchQuery, h]

theorem modifierUpdate_congr (h : p.startRow = q.startRow) (row : Row) (isInsert : Bool) :
    (p.modifierUpdate row isInsert).answer = (q.modifierUpdate row isInsert).answer ∧
      (p.modifierUpdate row isInsert).row = (q.modifierUpdate row isInsert).row := by
  have hmode : p.startRow.modifierMode = q.startRow.modifierMode := by rw [h]
  change p.modifierMode = q.modifierMode at hmode
  rw [modifierUpdate, modifierUpdate, hmode, h]
  split
  · exact ⟨rfl, rfl⟩
  · exact ⟨rfl, rfl⟩

/-- Many rows are mapped one by one, each as if it came first, up to the first that fails. -/
theorem mapMany_congr (h : p.startRow = q.startRow) (rows : List Row) :
    (p.mapMany rows).2 = rows.mapM fun row => (q.insertDocument row).answer := by
  induction rows generalizing p with
  | nil => rfl
  | cons row rows ih =>
      have hnext : (p.insertDocument row).plan.startRow = q.startRow :=
        (startRow_insertDocument p row).trans h
      rw [mapMany, List.mapM_cons, insertDocument_congr h row]
      rw [insertDocument_congr h row] at hnext
      cases hrow : (q.insertDocument row).answer with
      | error fault => simp only [error_bind]
      | ok doc =>
          simp only [ok_bind, ← ih hnext]
          cases ((q.insertDocument row).plan.mapMany rows).2 <;> rfl

end Answers

/-- After any calls on a plan, a row has the outcome that it has on a plan made anew, and many rows
have the documents that each has there alone, or the fault of the first that fails. -/
theorem outcome_run {d : Definition} {vars : Variables} {plan fresh : Plan}
    (hplan : d.compile vars = .ok plan) (hfresh : d.compile vars = .ok fresh)
    (calls : List PlanCall) :
    let reached := (plan.run calls).1
    (∀ row, reached.insertDocument row = fresh.insertDocument row) ∧
      (∀ row, reached.matchQuery row = fresh.matchQuery row) ∧
      (∀ row isInsert,
        (reached.modifierUpdate row isInsert).answer = (fresh.modifierUpdate row isInsert).answer ∧
          (reached.modifierUpdate row isInsert).row = (fresh.modifierUpdate row isInsert).row) ∧
      ∀ rows, (reached.mapMany rows).2 = rows.mapM fun row => (fresh.insertDocument row).answer := by
  rw [hplan] at hfresh
  cases hfresh
  have hreached := startRow_run plan calls
  exact ⟨insertDocument_congr hreached, matchQuery_congr hreached, modifierUpdate_congr hreached,
    mapMany_congr hreached⟩

/-- The second path goes through the first. -/
def halting : Definition where
  mappings := [{ incomingName := "a", documentPath := "x" },
    { incomingName := "b", documentPath := "x.y.z" }]

theorem outcome_run_halting :
    let row : Row := [("b", .int 3)]
    let doc := Value.object [("x", .object [("y", .object [("z", .int 3)])])]
    let calls := [.insertDocument [("a", .int 1), ("b", .int 2)], .field 0 .start, .field 1 .advance]
    ∃ plan, halting.compile [] = .ok plan ∧
      (plan.insertDocument [("a", .int 1), ("b", .int 2)]).answer =
        .error (.blocked "b" "x.y.z" "x") ∧
      ((plan.run calls).1.insertDocument row).answer = .ok doc ∧
      ((plan.run calls).1.mapMany [row, row]).2 = .ok [doc, doc] := by
  intro row doc calls
  have hfields : halting.mappings.map (FieldPlan.ofMapping []) = [
      ⟨⟨"x", ["x"], none⟩, { incomingName := "a", documentPath := "x" }⟩,
      ⟨⟨"x.y.z", ["x", "y", "z"], none⟩, { incomingName := "b", documentPath := "x.y.z" }⟩] := by
    decide +kernel
  have hplan : halting.compile [] = .ok
      ⟨{}, false, halting.mappings.map (FieldPlan.ofMapping []), [], []⟩ := rfl
  rw [hfields] at hplan
  obtain ⟨hinsert, -, -, hmany⟩ := outcome_run hplan hplan calls
  refine ⟨_, hplan, rfl, ?_, ?_⟩
  · rw [hinsert row]
    rfl
  · rw [hmany [row, row]]
    rfl

end Plan

end DocumentSink
