import DocumentSink.Proofs.Except
import DocumentSink.Text.Wide

/-!
Texts with surrogates in them. A text has characters exactly if it has no surrogate, and otherwise
it is refused.
-/

namespace DocumentSink.Wide

variable {s : Wide} {t : List Char} {position : Nat}

theorem charsAt_eq_ok : charsAt position s = .ok t ↔ s = ofChars t := by
  constructor
  · intro h
    induction s generalizing position t with
    | nil =>
        cases h
        rfl
    | cons c s ih =>
        cases c with
        | char c =>
            obtain ⟨t', ht, rfl⟩ := map_eq_ok.1 h
            rw [ih ht]
            rfl
        | surrogate n => cases h
  · rintro rfl
    exact charsAt_ofChars position t

theorem chars_eq_ok : s.chars = .ok t ↔ s = ofChars t := charsAt_eq_ok

theorem isSurrogate_of_mem_ofChars {c : CodePoint} (h : c ∈ ofChars t) : c.isSurrogate = false := by
  obtain ⟨_, -, rfl⟩ := List.mem_map.1 h
  rfl

/-- Texts without surrogates are those of characters. -/
theorem exists_chars_iff : (∃ t, s.chars = .ok t) ↔ ∀ c ∈ s, c.isSurrogate = false := by
  constructor
  · rintro ⟨t, ht⟩ c hc
    rw [chars_eq_ok.1 ht] at hc
    exact isSurrogate_of_mem_ofChars hc
  · intro h
    refine ⟨s.filterMap CodePoint.char?, chars_eq_ok.2 ?_⟩
    induction s with
    | nil => rfl
    | cons c s ih =>
        rw [List.forall_mem_cons] at h
        cases c with
        | char c => exact congrArg (CodePoint.char c :: ·) (ih h.2)
        | surrogate n => cases h.1

theorem exists_fault_iff : (∃ fault, s.chars = .error fault) ↔ ∃ c ∈ s, c.isSurrogate = true := by
  have hnot := not_congr (exists_chars_iff (s := s))
  simp only [not_forall, Bool.not_eq_false, exists_prop] at hnot
  rw [← hnot]
  cases s.chars with
  | ok t => simp
  | error fault => simp

end DocumentSink.Wide
