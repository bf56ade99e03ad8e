import DocumentSink.Variables

/-!
Substitution piece by piece. The pieces of a text give the text back, so a text without references
stays as it is, whatever the variables, and so does every text without variables.
-/

namespace DocumentSink.Variables

theorem flatMap_written_pieces (s : List Char) : (pieces s).flatMap Piece.written = s := by
  fun_induction pieces s with
  | case1 s ref r h ih =>
      rw [List.flatMap_cons, ih]
      exact (eq_written_of_reference? h).symm
  | case2 h => rfl
  | case3 c r h ih => rw [List.flatMap_cons, ih]; rfl

theorem eq_char_of_no_references {text : String} (h : hasReferences text = false) {p : Piece}
    (hp : p ∈ pieces text.toList) : ∃ c, p = .char c := by
  cases p with
  | char c => exact ⟨c, rfl⟩
  | reference r =>
      rw [hasReferences, List.any_eq_false] at h
      exact absurd rfl (h _ hp)

/-- What does not change any piece does not change the text. -/
theorem substitute_eq_self {text : String} {vars : Variables}
    (h : ∀ p ∈ pieces text.toList, vars.textOf p = p.written) : vars.substitute text = text := by
  have hpieces : (pieces text.toList).flatMap vars.textOf =
      (pieces text.toList).flatMap Piece.written := by
    rw [List.flatMap_def, List.flatMap_def, List.map_congr_left h]
  rw [substitute, hpieces, flatMap_written_pieces, String.ofList_toList]

theorem substitute_of_no_references {text : String} (h : hasReferences text = false)
    (vars : Variables) : vars.substitute text = text := by
  apply substitute_eq_self
  intro p hp
  obtain ⟨c, rfl⟩ := eq_char_of_no_references h hp
  rfl

theorem substitute_nil (text : String) : substitute [] text = text := by
  apply substitute_eq_self
  intro p _
  cases p with
  | char c => rfl
  | reference r => rfl

/-- Every reference begins with a dollar or a percent sign. -/
theorem mem_of_hasReferences {text : String} (h : hasReferences text = true) :
    '$' ∈ text.toList ∨ '%' ∈ text.toList := by
  obtain ⟨p, hp, href⟩ := List.any_eq_true.1 h
  have hwritten : ∀ c ∈ p.written, c ∈ text.toList := by
    intro c hc
    rw [← flatMap_written_pieces text.toList]
    exact List.mem_flatMap.2 ⟨p, hp, hc⟩
  cases p with
  | char c => cases href
  | reference r =>
      obtain ⟨form, name⟩ := r
      cases form with
      | braces => exact .inl (hwritten '$' List.mem_cons_self)
      | percents => exact .inr (hwritten '%' List.mem_cons_self)

end DocumentSink.Variables
