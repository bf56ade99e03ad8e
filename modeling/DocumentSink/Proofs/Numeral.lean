import DocumentSink.Numeral.Integer
import DocumentSink.Text.Blank
import Mathlib.Tactic.Common

/-!
Written numbers read back. In a base up to sixteen, the written form of a number is made of digits
that read as themselves, without underscores, and they denote the number. Main statements: the
hexadecimal form of a number is read as that number, and a text that is read holds no other
characters than numbers can.
-/

namespace DocumentSink.Numeral

theorem ofDigits_append_one (base : Nat) (ds : List Nat) (d : Nat) :
    ofDigits base (ds ++ [d]) = ofDigits base ds * base + d := by
  rw [ofDigits, List.foldl_append]
  rfl

theorem toDigits_eq_map {base : Nat} (hb : 1 < base) (n : Nat) :
    ∃ d ds, Nat.toDigits base n = (d :: ds).map Nat.digitChar ∧ (∀ e ∈ d :: ds, e < base) ∧
      ofDigits base (d :: ds) = n := by
  induction n using Nat.strongRecOn with
  | ind n ih =>
      rw [Nat.toDigits_eq_if hb]
      by_cases hn : n < base
      · refine ⟨n, [], by rw [if_pos hn]; rfl, ?_, ?_⟩
        · simpa using hn
        · simp [ofDigits]
      · obtain ⟨d, ds, hds, hlt, hval⟩ := ih (n / base) (Nat.div_lt_self (by omega) hb)
        refine ⟨d, ds ++ [n % base], ?_, ?_, ?_⟩
        · rw [if_neg hn, hds, ← List.cons_append, List.map_append]
          rfl
        · intro e he
          rw [← List.cons_append, List.mem_append, List.mem_singleton] at he
          rcases he with he | rfl
          · exact hlt e he
          · exact Nat.mod_lt _ (by omega)
        · rw [← List.cons_append, ofDigits_append_one, hval, Nat.mul_comm]
          exact Nat.div_add_mod n base

theorem digitChar_ne_underscore : ∀ d, d < 16 → Nat.digitChar d ≠ '_' := by decide

theorem hexDigit?_digitChar : ∀ d, d < 16 → hexDigit? (Nat.digitChar d) = some d := by decide

theorem isBlank_digitChar : ∀ d, d < 16 → Text.isBlank (Nat.digitChar d) = false := by decide

theorem digitChar_ne_mark : ∀ d, d < 16 →
    Nat.digitChar d ≠ '-' ∧ Nat.digitChar d ≠ '+' ∧ Nat.digitChar d ≠ 'x' ∧
      Nat.digitChar d ≠ 'X' := by decide

theorem moreDigits_map {value : Char → Option Nat} {ds : List Nat}
    (h : ∀ d ∈ ds, value (Nat.digitChar d) = some d ∧ Nat.digitChar d ≠ '_') :
    moreDigits value (ds.map Nat.digitChar) = some ds := by
  induction ds with
  | nil => rfl
  | cons d ds ih =>
      obtain ⟨hd, hu⟩ := h d List.mem_cons_self
      rw [List.map_cons, moreDigits]
      · rw [hd, ih fun e he => h e (List.mem_cons_of_mem d he)]
        rfl
      · intro _ _ he _
        exact hu he

theorem digits?_map {value : Char → Option Nat} {d : Nat} {ds : List Nat}
    (hd : value (Nat.digitChar d) = some d)
    (h : ∀ e ∈ ds, value (Nat.digitChar e) = some e ∧ Nat.digitChar e ≠ '_') :
    digits? value ((d :: ds).map Nat.digitChar) = some (d :: ds) := by
  rw [List.map_cons, digits?, hd, moreDigits_map h]
  rfl

theorem signed_of_ne {c : Char} {s : List Char} (hm : c ≠ '-') (hp : c ≠ '+') :
    signed (c :: s) = (false, c :: s) := by
  rw [signed]
  · rintro _ ⟨⟩
    exact hm rfl
  · rintro _ ⟨⟩
    exact hp rfl

theorem dropHexMark_digits {d : Nat} {ds : List Nat} (h : ∀ e ∈ d :: ds, e < 16) :
    dropHexMark ((d :: ds).map Nat.digitChar) = (d :: ds).map Nat.digitChar := by
  cases ds with
  | nil => rfl
  | cons e ds =>
      have he := digitChar_ne_mark e (h e (by simp))
      simp only [List.map_cons, dropHexMark, beq_eq_false_iff_ne.2 he.2.2.1,
        beq_eq_false_iff_ne.2 he.2.2.2, Bool.or_self, Bool.and_false, Bool.false_eq_true, if_false]

/-- The hexadecimal form of a number is read as the number. -/
theorem hexadecimal?_toDigits (n : Nat) : hexadecimal? (Nat.toDigits 16 n) = some (n : Int) := by
  obtain ⟨d, ds, he, hlt, hval⟩ := toDigits_eq_map (show 1 < 16 by decide) n
  have hd := hlt d List.mem_cons_self
  have hmark := digitChar_ne_mark d hd
  have hread : digits? hexDigit? ((d :: ds).map Nat.digitChar) = some (d :: ds) :=
    digits?_map (hexDigit?_digitChar d hd) fun e hm =>
      have hlt := hlt e (List.mem_cons_of_mem d hm)
      ⟨hexDigit?_digitChar e hlt, digitChar_ne_underscore e hlt⟩
  have hsign : signed ((d :: ds).map Nat.digitChar) = (false, (d :: ds).map Nat.digitChar) :=
    signed_of_ne hmark.1 hmark.2.1
  rw [he, hexadecimal?]
  simp only [hsign]
  rw [dropHexMark_digits hlt, hread, Option.map_some, hval]
  rfl

section Letters

variable {value : Char → Option Nat} {s : List Char} {c : Char}

/-- A character that a hexadecimal text can hold. -/
def isHexLetter (c : Char) : Bool := (hexDigit? c).isSome || ['-', '+', '_', 'x', 'X'].contains c

theorem mem_moreDigits {ds : List Nat} (h : moreDigits value s = some ds) (hc : c ∈ s) :
    c = '_' ∨ (value c).isSome := by
  fun_induction moreDigits value s generalizing ds with
  | case1 => cases hc
  | case2 d s ih =>
      obtain ⟨n, hd, h⟩ := Option.bind_eq_some_iff.1 h
      obtain ⟨ns, hns, -⟩ := Option.map_eq_some_iff.1 h
      rcases List.mem_cons.1 hc with rfl | hc
      · exact .inl rfl
      · rcases List.mem_cons.1 hc with rfl | hc
        · exact .inr (hd ▸ rfl)
        · exact ih hns hc
  | case3 d s _ ih =>
      obtain ⟨n, hd, h⟩ := Option.bind_eq_some_iff.1 h
      obtain ⟨ns, hns, -⟩ := Option.map_eq_some_iff.1 h
      rcases List.mem_cons.1 hc with rfl | hc
      · exact .inr (hd ▸ rfl)
      · exact ih hns hc

theorem mem_digits? {ds : List Nat} (h : digits? value s = some ds) (hc : c ∈ s) :
    c = '_' ∨ (value c).isSome := by
  cases s with
  | nil => cases hc
  | cons d s =>
      obtain ⟨n, hd, h⟩ := Option.bind_eq_some_iff.1 h
      obtain ⟨ns, hns, -⟩ := Option.map_eq_some_iff.1 h
      rcases List.mem_cons.1 hc with rfl | hc
      · exact .inr (hd ▸ rfl)
      · exact mem_moreDigits hns hc

/-- What a sign or a mark in front takes away are letters too. -/
theorem mem_signed (h : c ∈ s) : isHexLetter c = true ∨ c ∈ (signed s).2 := by
  unfold signed
  split
  · rcases List.mem_cons.1 h with rfl | h
    · exact .inl rfl
    · exact .inr h
  · rcases List.mem_cons.1 h with rfl | h
    · exact .inl rfl
    · exact .inr h
  · exact .inr h

theorem mem_dropHexMark (h : c ∈ s) : isHexLetter c = true ∨ c ∈ dropHexMark s := by
  unfold dropHexMark
  split
  · next zero x s =>
      split
      · next hmark =>
          simp only [Bool.and_eq_true, decide_eq_true_eq, Bool.or_eq_true, beq_iff_eq] at hmark
          have hzero : isHexLetter zero = true := by
            have : (hexDigit? zero).isSome := by
              rw [hexDigit?]
              split
              · rfl
              · split
                · rfl
                · rw [hmark.1]
                  rfl
            rw [isHexLetter, this]
            rfl
          have hx : isHexLetter x = true := by
            rcases hmark.2 with rfl | rfl <;> rfl
          rcases List.mem_cons.1 h with rfl | h
          · exact .inl hzero
          · rcases List.mem_cons.1 h with rfl | h
            · exact .inl hx
            · split
              · rcases List.mem_cons.1 h with rfl | h
                · exact .inl rfl
                · exact .inr h
              · exact .inr h
      · exact .inr h
  · exact .inr h

/-- A text that is read in base sixteen holds nothing but what such a text can. -/
theorem isHexLetter_of_hexadecimal? {n : Int} (h : hexadecimal? s = some n) :
    ∀ c ∈ s, isHexLetter c = true := by
  intro c hc
  obtain ⟨ds, hds, -⟩ := Option.map_eq_some_iff.1 h
  rcases mem_signed hc with hletter | hc
  · exact hletter
  · rcases mem_dropHexMark hc with hletter | hc
    · exact hletter
    · rcases mem_digits? hds hc with rfl | hdigit
      · rfl
      · rw [isHexLetter, hdigit]
        rfl

end Letters

end DocumentSink.Numeral
