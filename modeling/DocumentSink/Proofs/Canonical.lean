import DocumentSink.Proofs.Password

/-!
Canonical stored passwords. The plain hexadecimal numerals are exactly what numbers are written as,
and a stored number that writes a password is the one that the password is stored as. So a stored
form in this notation is kept whenever its password is restored and stored again.
-/

namespace DocumentSink

namespace Numeral

/-- The digits of base sixteen, as numbers are written. -/
def plainHexDigits : List Char := "0123456789abcdef".toList

/-- The numerals of base sixteen as they are written: without capitals, signs and marks, and with no
zero in front of other digits. -/
structure PlainHex (s : List Char) : Prop where
  nonempty : s ≠ []
  digits : ∀ c ∈ s, c ∈ plainHexDigits
  leading : s.head? = some '0' → s = ['0']

instance (s : List Char) : Decidable (PlainHex s) :=
  decidable_of_iff (s ≠ [] ∧ s.all (· ∈ plainHexDigits) ∧ (s.head? = some '0' → s = ['0']))
    ⟨fun h => ⟨h.1, by simpa using h.2.1, h.2.2⟩,
      fun h => ⟨h.nonempty, by simpa using h.digits, h.leading⟩⟩

theorem exists_digitChar {c : Char} (h : c ∈ plainHexDigits) : ∃ d < 16, Nat.digitChar d = c := by
  have hdigits : plainHexDigits = (List.range 16).map Nat.digitChar := by decide +kernel
  rw [hdigits, List.mem_map] at h
  obtain ⟨d, hd, hc⟩ := h
  exact ⟨d, List.mem_range.1 hd, hc⟩

theorem PlainHex.init {s : List Char} {c : Char} (h : PlainHex (s ++ [c])) (hs : s ≠ []) :
    PlainHex s ∧ s.head? ≠ some '0' := by
  have hhead : (s ++ [c]).head? = s.head? := by
    cases s with
    | nil => exact absurd rfl hs
    | cons d s => rfl
  have hzero : s.head? ≠ some '0' := by
    intro h0
    have hone := congrArg List.length (h.leading (hhead.trans h0))
    have hpos := List.length_pos_iff.2 hs
    rw [List.length_append, List.length_singleton, List.length_singleton] at hone
    omega
  exact ⟨⟨hs, fun d hd => h.digits d (List.mem_append_left _ hd), fun h0 => absurd h0 hzero⟩, hzero⟩

/-- A plain numeral is what some number is written as. -/
theorem PlainHex.exists_toDigits {s : List Char} (h : PlainHex s) : ∃ n, Nat.toDigits 16 n = s := by
  induction s using List.reverseRecOn with
  | nil => exact absurd rfl h.nonempty
  | append_singleton s c ih =>
      obtain ⟨d, hd, hc⟩ := exists_digitChar (h.digits c (by simp))
      have hlast : Nat.toDigits 16 d = [c] := by rw [Nat.toDigits_of_lt_base hd, hc]
      by_cases hs : s = []
      · exact ⟨d, by rw [hlast, hs, List.nil_append]⟩
      · obtain ⟨hinit, hzero⟩ := h.init hs
        obtain ⟨n, hn⟩ := ih hinit
        have hpos : 0 < n := by
          apply Nat.pos_of_ne_zero
          rintro rfl
          rw [← hn] at hzero
          exact hzero rfl
        refine ⟨16 * n + d, ?_⟩
        rw [← Nat.toDigits_append_toDigits (by decide) hpos hd, hn, hlast]

end Numeral

namespace Password

variable {digits password : String}

/-- A stored number is the one that its password is concealed as. -/
theorem concealed_of_reveal (hd : Numeral.PlainHex digits.toList)
    (h : reveal digits = .ok password) : concealed password.toList = digits.toList := by
  obtain ⟨n, hn⟩ := hd.exists_toDigits
  rw [← String.ofList_toList (s := digits), ← hn, reveal_toDigits] at h
  cases hdecode : Utf8.decode (octets (n ^^^ seed)) with
  | error fault =>
      rw [hdecode] at h
      cases h
  | ok s =>
      rw [hdecode] at h
      cases h
      have hnumber : ofOctets (Utf8.encode s) = n ^^^ seed := by
        rw [← Utf8.decode_eq_ok.1 hdecode, ofOctets_octets]
      rw [concealed, String.toList_ofList, hnumber, Nat.xor_assoc, Nat.xor_self, Nat.xor_zero, hn]

/-- A password that a plain numeral reveals is concealed as that numeral and revealed by no other
one. So behind the mark the numeral is restored to the password, and unless the password refers to
variables it is what the password is stored as. -/
theorem conceal_of_reveal (hd : Numeral.PlainHex digits.toList)
    (h : reveal digits = .ok password) (hne : password ≠ "") :
    conceal password = .ofList (mark ++ digits.toList) ∧
      (∀ other : String, Numeral.PlainHex other.toList → reveal other = .ok password →
        other = digits) ∧
      restore (.ofList (mark ++ digits.toList)) = .ok password ∧
      (Variables.hasReferences password = false →
        store password = .ofList (mark ++ digits.toList)) := by
  have hconcealed := concealed_of_reveal hd h
  have hempty : password.isEmpty = false := by
    simpa using hne
  have hconceal : conceal password = .ofList (mark ++ digits.toList) := by
    rw [conceal, hempty, hconcealed]
    rfl
  have hmark : mark.isPrefixOf (mark ++ digits.toList) = true :=
    List.isPrefixOf_iff_prefix.2 (List.prefix_append _ _)
  refine ⟨hconceal, ?_, ?_, ?_⟩
  · intro other ho ho'
    exact String.toList_inj.1 ((concealed_of_reveal ho ho').symm.trans hconcealed)
  · rw [restore, String.toList_ofList, if_pos hmark, List.drop_left, String.ofList_toList, h]
  · intro href
    rw [store, href, hconceal]
    rfl

/-- A password with more octets than the seed, whose stored form begins with its own letters. -/
theorem conceal_of_reveal_long :
    let digits := "c3a4e282acf09f988020616e642071756974652071d1f5cae807c88081eb15ab64ca97bdc9"
    let password := "ä€😀 and quite some more letters"
    reveal digits = .ok password ∧ conceal password = .ofList (mark ++ digits.toList) ∧
      store password = .ofList (mark ++ digits.toList) := by
  intro digits password
  have hd : Numeral.PlainHex digits.toList := by decide +kernel
  have hreveal : reveal digits = .ok password := by decide +kernel
  obtain ⟨hconceal, -, -, hstore⟩ := conceal_of_reveal hd hreveal (by decide)
  exact ⟨hreveal, hconceal, hstore (by decide +kernel)⟩

end Password

end DocumentSink
