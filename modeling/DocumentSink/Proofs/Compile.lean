import DocumentSink.Plan
import DocumentSink.Proofs.Except
import DocumentSink.Proofs.Segments

/-!
What a plan has of its definition: the options and their mode, a field for each mapping with its
path compiled, and an index plan for each index with its terms read, all in order.
-/

namespace DocumentSink

namespace Definition

variable {d : Definition} {vars : Variables} {plan : Plan}

theorem compile_eq_ok : d.compile vars = .ok plan ↔
    ∃ indexes, (d.indexes.mapM fun i => do return IndexPlan.mk i (← i.terms vars)) = .ok indexes ∧
      plan = ⟨d.write, d.write.modifierUpdate, d.mappings.map (FieldPlan.ofMapping vars), indexes,
        vars⟩ := by
  rw [compile, bind_eq_ok]
  apply exists_congr
  intro indexes
  rw [pure_eq_ok, Except.ok.injEq, eq_comm (a := plan)]

theorem write_of_compile (h : d.compile vars = .ok plan) : plan.write = d.write := by
  obtain ⟨indexes, -, rfl⟩ := compile_eq_ok.1 h
  rfl

theorem fields_of_compile (h : d.compile vars = .ok plan) :
    plan.fields = d.mappings.map (FieldPlan.ofMapping vars) := by
  obtain ⟨indexes, -, rfl⟩ := compile_eq_ok.1 h
  rfl

theorem no_point_of_compile (h : d.compile vars = .ok plan) :
    ∀ p ∈ plan.fields, ∀ s ∈ p.segments, '.' ∉ s.toList := by
  rw [fields_of_compile h]
  intro p hp s hs
  obtain ⟨m, -, rfl⟩ := List.mem_map.1 hp
  exact no_point_of_mem_compilePath hs

theorem mappings_of_compile (h : d.compile vars = .ok plan) : plan.mappings = d.mappings := by
  rw [Plan.mappings, fields_of_compile h, List.map_map]
  exact List.map_id _

/-- The indexes of a plan are those of the definition, each with the terms of its specification. -/
theorem indexes_of_compile (h : d.compile vars = .ok plan) :
    plan.indexes.map (·.spec) = d.indexes ∧ ∀ i ∈ plan.indexes, i.spec.terms vars = .ok i.terms := by
  obtain ⟨indexes, hindexes, rfl⟩ := compile_eq_ok.1 h
  have hread := mapM_eq_ok_iff.1 hindexes
  clear h hindexes
  generalize d.indexes = specs at hread
  change indexes.map (·.spec) = specs ∧ ∀ i ∈ indexes, i.spec.terms vars = .ok i.terms
  induction hread with
  | nil => exact ⟨rfl, List.forall_mem_nil _⟩
  | cons hi _ ih =>
      obtain ⟨terms, hterms, hi⟩ := bind_eq_ok.1 hi
      cases hi
      rw [List.map_cons, ih.1]
      exact ⟨rfl, List.forall_mem_cons.2 ⟨hterms, ih.2⟩⟩

end Definition

end DocumentSink
