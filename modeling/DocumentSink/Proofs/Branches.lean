import DocumentSink.Proofs.History

/-!
The two branches of an upsert. The check for a look-up finds exactly the mappings that count in one
branch only. Where it finds none, a row has one update, or one fault, for whichever branch it is
meant.
-/

namespace DocumentSink

theorem FieldMapping.applies_ne_iff {m : FieldMapping} {mode : Bool} :
    m.applies mode true ≠ m.applies mode false ↔
      m.isEffective mode = true ∧ m.policy ≠ .insertAndUpdate := by
  rw [applies, applies]
  cases m.isEffective mode with
  | false => simp
  | true => cases m.policy <;> simp [ApplyPolicy.admits]

theorem needsLookup_iff {mode : Bool} {ms : List FieldMapping} :
    needsLookup mode ms = true ↔ ∃ m ∈ ms, m.applies mode true ≠ m.applies mode false := by
  simp only [needsLookup, List.any_eq_true, FieldMapping.applies_ne_iff, Bool.and_eq_true,
    decide_eq_true_eq]

namespace Plan

variable {plan : Plan}

theorem applies_eq_of_no_lookup (h : plan.needsLookup = false) :
    ∀ p ∈ plan.fields, p.mapping.applies plan.modifierMode true =
      p.mapping.applies plan.modifierMode false := by
  intro p hp
  by_contra hne
  have hneeds : plan.needsLookup = true :=
    needsLookup_iff.2 ⟨p.mapping, List.mem_map_of_mem hp, hne⟩
  rw [h] at hneeds
  cases hneeds

/-- Without a look-up, both branches take the same fields. -/
theorem modifierUpdate_of_no_lookup (h : plan.needsLookup = false) (row : Row) :
    plan.modifierUpdate row true = plan.modifierUpdate row false := by
  have hfields : (plan.startRow.fields.filter fun p => p.mapping.applies plan.modifierMode true) =
      plan.startRow.fields.filter fun p => p.mapping.applies plan.modifierMode false := by
    apply List.filter_congr
    intro p hp
    obtain ⟨q, hq, rfl⟩ := List.mem_map.1 hp
    exact applies_eq_of_no_lookup h q hq
  have hmode : plan.startRow.modifierMode = plan.modifierMode := rfl
  rw [modifierUpdate, modifierUpdate]
  split
  · rfl
  · simp only [hmode, hfields]

theorem row_modifierUpdate (plan : Plan) (row : Row) (isInsert : Bool) :
    (plan.modifierUpdate row isInsert).row = row := by
  rw [modifierUpdate]
  split
  · rfl
  · rfl

/-- The check finds a need to look up exactly where some field counts in one branch only. Without
need, a row has one answer in both branches, a body or a fault, whatever calls came before either,
and neither changes the row. -/
theorem modifierUpdate_branches (plan : Plan) :
    (plan.needsLookup = true ↔ ∃ p ∈ plan.fields,
      p.mapping.applies plan.modifierMode true ≠ p.mapping.applies plan.modifierMode false) ∧
    (plan.needsLookup = false → ∀ (before before' : List PlanCall) (row : Row),
      let insert := (plan.run before).1.modifierUpdate row true
      let update := (plan.run before').1.modifierUpdate row false
      insert.answer = update.answer ∧ insert.row = row ∧ update.row = row) := by
  refine ⟨?_, ?_⟩
  · rw [needsLookup, needsLookup_iff, mappings]
    simp only [List.mem_map, exists_exists_and_eq_and]
  · intro h before before' row insert update
    refine ⟨?_, row_modifierUpdate _ row true, row_modifierUpdate _ row false⟩
    have hinsert := (modifierUpdate_congr (startRow_run plan before) row true).1
    have hupdate := (modifierUpdate_congr (startRow_run plan before') row false).1
    rw [hinsert, hupdate, modifierUpdate_of_no_lookup h]

/-- A match key with an operator, an operator in both branches at two equal paths, and a field
without an operator: none of them counts in one branch only. -/
def unconditional : Plan where
  write := { modifierUpdate := true }
  modifierMode := true
  fields := [
    ⟨⟨"k", ["k"], none⟩,
      { incomingName := "k", documentPath := "k", isMatchKey := true, operator := .set,
        policy := .insertOnly }⟩,
    ⟨⟨"x.y", ["x", "y"], none⟩, { incomingName := "a", documentPath := "x.y", operator := .set }⟩,
    ⟨⟨"x.y", ["x", "y"], none⟩, { incomingName := "b", documentPath := "x.y", operator := .set }⟩,
    ⟨⟨"z", ["z"], none⟩, { incomingName := "c", documentPath := "z", policy := .updateOnly }⟩,
    ⟨⟨"f", ["f"], none⟩,
      { incomingName := "f", documentPath := "f", operator := .push, isFragment := true }⟩]
  indexes := []
  vars := []

theorem modifierUpdate_branches_unconditional :
    let row : Row := [("k", .int 0), ("a", .int 1), ("b", .int 2), ("c", .int 3)]
    let before := [PlanCall.startRow, .field 1 .advance]
    unconditional.needsLookup = false ∧
      ((unconditional.run before).1.modifierUpdate row true).answer =
        (unconditional.modifierUpdate row false).answer ∧
      (unconditional.modifierUpdate row false).answer =
        .ok (.object [("$set", .object [("x.y", .int 2)])]) ∧
      ((unconditional.run before).1.modifierUpdate [("f", .int 1)] true).answer =
        .error (.fragment "f" (.noText "int")) := by
  intro row before
  have h : unconditional.needsLookup = false := rfl
  have hrows := (modifierUpdate_branches unconditional).2 h before []
  refine ⟨h, (hrows row).1, ?_, ?_⟩
  · rfl
  · exact (hrows [("f", .int 1)]).1.trans rfl

end Plan

end DocumentSink
