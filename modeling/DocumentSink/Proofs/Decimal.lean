import DocumentSink.Proofs.Numeral

/-!
Decimal numerals. A numeral is an optional sign and then digits of any script, with at most one
underscore between two of them; with more than 4300 digits it denotes nothing. Main statements:
exactly the numerals are read, as what they denote, and the written form of an integer is a numeral
of it unless it is too long.
-/

namespace DocumentSink.Numeral

/-- Digits one behind another, and what each is worth. Two of them may have an underscore between
them. -/
inductive Digits : List Char → List Nat → Prop
  | last {c d} : digit? c = some d → Digits [c] [d]
  | next {c d s ds} : digit? c = some d → Digits s ds → Digits (c :: s) (d :: ds)
  | spaced {c d s ds} : digit? c = some d → Digits s ds → Digits (c :: '_' :: s) (d :: ds)

/-- A numeral of any length: an optional sign, digits, and the integer that they make. -/
inductive Spells : List Char → List Nat → Int → Prop
  | plain {s ds} : Digits s ds → Spells s ds (ofDigits 10 ds)
  | plus {s ds} : Digits s ds → Spells ('+' :: s) ds (ofDigits 10 ds)
  | minus {s ds} : Digits s ds → Spells ('-' :: s) ds (-(ofDigits 10 ds : Int))

/-- The numerals of an integer. -/
inductive Denotes : List Char → Int → Prop
  | plain {s ds} : Digits s ds → ds.length ≤ digitLimit → Denotes s (ofDigits 10 ds)
  | plus {s ds} : Digits s ds → ds.length ≤ digitLimit → Denotes ('+' :: s) (ofDigits 10 ds)
  | minus {s ds} : Digits s ds → ds.length ≤ digitLimit →
      Denotes ('-' :: s) (-(ofDigits 10 ds : Int))

section Reading

variable {s : List Char} {c : Char} {d : Nat} {ds : List Nat} {n m : Int}

theorem moreDigits_underscore :
    moreDigits digit? ('_' :: c :: s) = digits? digit? (c :: s) := by
  rw [moreDigits, digits?]

theorem moreDigits_cons (hc : c ≠ '_') : moreDigits digit? (c :: s) = digits? digit? (c :: s) := by
  rw [digits?, moreDigits]
  rintro _ _ rfl
  exact absurd rfl hc

theorem digits_of_more (h : moreDigits digit? s = some ds) (hc : digit? c = some d) :
    Digits (c :: s) (d :: ds) := by
  fun_induction moreDigits digit? s generalizing c d ds with
  | case1 =>
      cases h
      exact .last hc
  | case2 e s ih =>
      obtain ⟨v, hv, h⟩ := Option.bind_eq_some_iff.1 h
      obtain ⟨vs, hvs, rfl⟩ := Option.map_eq_some_iff.1 h
      exact .spaced hc (ih hvs hv)
  | case3 e s _ ih =>
      obtain ⟨v, hv, h⟩ := Option.bind_eq_some_iff.1 h
      obtain ⟨vs, hvs, rfl⟩ := Option.map_eq_some_iff.1 h
      exact .next hc (ih hvs hv)

theorem Digits.digit?_head (h : Digits (c :: s) ds) : ∃ d, digit? c = some d := by
  cases h with
  | last h | next h | spaced h => exact ⟨_, h⟩

theorem Digits.head_ne (h : Digits (c :: s) ds) {e : Char} (he : digit? e = none) : c ≠ e := by
  rintro rfl
  obtain ⟨d, hd⟩ := h.digit?_head
  rw [he] at hd
  cases hd

theorem digits?_eq_some_iff : digits? digit? s = some ds ↔ Digits s ds := by
  constructor
  · intro h
    cases s with
    | nil => cases h
    | cons c s =>
        obtain ⟨d, hc, h⟩ := Option.bind_eq_some_iff.1 h
        obtain ⟨ds, hds, rfl⟩ := Option.map_eq_some_iff.1 h
        exact digits_of_more hds hc
  · intro h
    induction h with
    | last hc =>
        rw [digits?, hc]
        rfl
    | @next c d s ds hc hs ih =>
        cases s with
        | nil => cases hs
        | cons e s =>
            rw [digits?, hc, moreDigits_cons (hs.head_ne (by decide)), ih]
            rfl
    | @spaced c d s ds hc hs ih =>
        cases s with
        | nil => cases hs
        | cons e s =>
            rw [digits?, hc, moreDigits_underscore, ih]
            rfl

theorem Digits.signed_eq (h : Digits s ds) : signed s = (false, s) := by
  cases s with
  | nil => cases h
  | cons c s => exact signed_of_ne (h.head_ne (by decide)) (h.head_ne (by decide))

theorem spells_iff :
    Spells s ds n ↔ Digits (signed s).2 ds ∧ withSign (signed s).1 (ofDigits 10 ds) = n := by
  constructor
  · intro h
    cases h with
    | plain hds =>
        rw [hds.signed_eq]
        exact ⟨hds, rfl⟩
    | plus hds => exact ⟨hds, rfl⟩
    | minus hds => exact ⟨hds, rfl⟩
  · rintro ⟨hds, rfl⟩
    unfold signed at hds ⊢
    split at hds
    · exact .minus hds
    · exact .plus hds
    · exact .plain hds

theorem denotes_iff : Denotes s n ↔ ∃ ds, Spells s ds n ∧ ds.length ≤ digitLimit := by
  constructor
  · intro h
    cases h with
    | plain hds hlimit => exact ⟨_, .plain hds, hlimit⟩
    | plus hds hlimit => exact ⟨_, .plus hds, hlimit⟩
    | minus hds hlimit => exact ⟨_, .minus hds, hlimit⟩
  · rintro ⟨ds, hspells, hlimit⟩
    cases hspells with
    | plain hds => exact .plain hds hlimit
    | plus hds => exact .plus hds hlimit
    | minus hds => exact .minus hds hlimit

theorem Spells.ne_nil (h : Spells s ds n) : s ≠ [] := by
  rintro rfl
  cases h with
  | plain hds => cases hds

/-- A numeral has one list of digits and makes one integer. -/
theorem Spells.unique {ds' : List Nat} (h : Spells s ds n) (h' : Spells s ds' m) :
    ds = ds' ∧ n = m := by
  obtain ⟨hds, rfl⟩ := spells_iff.1 h
  obtain ⟨hds', rfl⟩ := spells_iff.1 h'
  rw [← digits?_eq_some_iff] at hds hds'
  rw [hds] at hds'
  cases hds'
  exact ⟨rfl, rfl⟩

/-- A numeral is one of its integer exactly if it is not too long. -/
theorem Spells.denotes_iff_length_le (h : Spells s ds n) :
    Denotes s m ↔ ds.length ≤ digitLimit ∧ m = n := by
  rw [denotes_iff]
  constructor
  · rintro ⟨ds', hspells, hlimit⟩
    obtain ⟨rfl, rfl⟩ := h.unique hspells
    exact ⟨hlimit, rfl⟩
  · rintro ⟨hlimit, rfl⟩
    exact ⟨ds, h, hlimit⟩

/-- A text is read exactly as what it denotes. -/
theorem decimal?_eq_some_iff : decimal? s = some n ↔ Denotes s n := by
  rw [decimal?, denotes_iff, Option.bind_eq_some_iff]
  apply exists_congr
  intro ds
  rw [digits?_eq_some_iff, Option.ite_none_left_eq_some, Nat.not_lt, Option.some.injEq, spells_iff,
    and_assoc, and_comm (b := ds.length ≤ digitLimit)]

theorem Denotes.unique (h : Denotes s n) (h' : Denotes s m) : n = m := by
  rw [← decimal?_eq_some_iff] at h h'
  rw [h] at h'
  exact Option.some.inj h'

end Reading

section Writing

variable {n : Int} {c : Char}

theorem digits_map {d : Nat} {ds : List Nat} (h : ∀ e ∈ d :: ds, e < 10) :
    Digits ((d :: ds).map Nat.digitChar) (d :: ds) := by
  have hdigit : ∀ e, e < 10 → digit? (Nat.digitChar e) = some e := by decide
  induction ds generalizing d with
  | nil => exact .last (hdigit d (h d List.mem_cons_self))
  | cons e ds ih =>
      obtain ⟨hd, hds⟩ := List.forall_mem_cons.1 h
      exact .next (hdigit d hd) (ih hds)

theorem digits_replicate {c : Char} {d : Nat} (h : digit? c = some d) (n : Nat) :
    Digits (List.replicate (n + 1) c) (List.replicate (n + 1) d) := by
  induction n with
  | zero => exact .last h
  | succ n ih => exact .next h ih

/-- The written form of an integer is a numeral of it, with as many digits as were written. -/
theorem spells_decimal (n : Int) :
    ∃ ds, Spells (decimal n) ds n ∧ ds.length = (Nat.toDigits 10 n.natAbs).length := by
  obtain ⟨d, ds, hmap, hlt, hval⟩ := toDigits_eq_map (show 1 < 10 by decide) n.natAbs
  have hdigits := digits_map hlt
  rw [← hmap] at hdigits
  refine ⟨d :: ds, ?_, by rw [hmap, List.length_map]⟩
  rw [decimal]
  split
  · next hneg =>
      have hn : n = -(ofDigits 10 (d :: ds) : Int) := by omega
      have hminus := Spells.minus hdigits
      rwa [← hn] at hminus
  · next hpos =>
      have hn : n = (ofDigits 10 (d :: ds) : Int) := by omega
      have hplain := Spells.plain hdigits
      rwa [← hn] at hplain

/-- The written form of an integer denotes it. -/
theorem denotes_decimal (h : (Nat.toDigits 10 n.natAbs).length ≤ digitLimit) :
    Denotes (decimal n) n := by
  obtain ⟨ds, hspells, hlength⟩ := spells_decimal n
  exact denotes_iff.2 ⟨ds, hspells, hlength ▸ h⟩

/-- The characters of written integers. -/
def decimalLetters : List Char := "-0123456789".toList

theorem mem_decimal (h : c ∈ decimal n) : c ∈ decimalLetters := by
  have hletter : ∀ d, d < 10 → Nat.digitChar d ∈ decimalLetters := by decide
  have hdigits : c ∈ Nat.toDigits 10 n.natAbs → c ∈ decimalLetters := by
    obtain ⟨d, ds, hmap, hlt, -⟩ := toDigits_eq_map (show 1 < 10 by decide) n.natAbs
    rw [hmap]
    intro hc
    obtain ⟨e, he, rfl⟩ := List.mem_map.1 hc
    exact hletter e (hlt e he)
  rw [decimal] at h
  split at h
  · rcases List.mem_cons.1 h with rfl | h
    · decide
    · exact hdigits h
  · exact hdigits h

theorem not_mem_decimal (h : c ∉ decimalLetters) (n : Int) : c ∉ decimal n := mt mem_decimal h

theorem decimal_ne_nil (n : Int) : decimal n ≠ [] := by
  rw [decimal]
  split
  · exact List.cons_ne_nil _ _
  · exact Nat.toDigits_ne_nil

theorem trimmed_decimal (n : Int) : Text.Trimmed (decimal n) := by
  have hletters := Text.no_blank_of_any (s := decimalLetters) (by decide)
  exact Text.trimmed_of_no_blank fun c hc => hletters c (mem_decimal hc)

end Writing

end DocumentSink.Numeral
