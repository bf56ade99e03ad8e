import DocumentSink.Text.Utf8
import Mathlib.Tactic.Common

/-!
Decoding undoes encoding, and decodes nothing else. The octets of a character are read back as that
character wherever they stand, so a text is read back from its octets; octets that are read are those
of what they are read as. Only NUL has an octet that is zero.
-/

namespace DocumentSink.Utf8

theorem toNat_ofNat {n : Nat} (h : n < 256) : (UInt8.ofNat n).toNat = n := by
  rw [UInt8.toNat_ofNat', Nat.mod_eq_of_lt h]

theorem ofNat_lt {n : Nat} (h : n < 256) (b : UInt8) : UInt8.ofNat n < b ↔ n < b.toNat := by
  rw [UInt8.lt_iff_toNat_lt, toNat_ofNat h]

theorem ofNat_eq {n : Nat} (h : n < 256) (b : UInt8) : UInt8.ofNat n = b ↔ n = b.toNat := by
  rw [← UInt8.toNat_inj, toNat_ofNat h]

@[simp] theorem toNat_tail (n : Nat) : (tail n).toNat = 0x80 + n % 64 :=
  toNat_ofNat (by omega)

theorem tail_lt (n : Nat) (b : UInt8) : tail n < b ↔ 0x80 + n % 64 < b.toNat :=
  ofNat_lt (by omega) b

theorem le_tail (n : Nat) (b : UInt8) : b ≤ tail n ↔ b.toNat ≤ 0x80 + n % 64 := by
  rw [UInt8.le_iff_toNat_le, toNat_tail]

@[simp] theorem isTail_tail (n : Nat) : isTail (tail n) = true := by
  simp only [isTail, le_tail, tail_lt, Bool.and_eq_true, decide_eq_true_eq, UInt8.reduceToNat]
  omega

/-- The number of a character is no surrogate and no more than the last code point. -/
theorem toNat_valid (c : Char) : c.toNat < 0xD800 ∨ 0xDFFF < c.toNat ∧ c.toNat < 0x110000 :=
  c.valid

theorem char_ofNat {c : Char} {n : Nat} (h : n = c.toNat) : Char.ofNat n = c := by
  rw [h, Char.ofNat_toNat]

theorem isSecond_three {c : Char} (h : 0x800 ≤ c.toNat) (h' : c.toNat < 0x10000) :
    isSecond (.ofNat (0xE0 + c.toNat / 4096)) (tail (c.toNat / 64)) = true := by
  have hc := toNat_valid c
  have hlt : 0xE0 + c.toNat / 4096 < 256 := by omega
  simp only [isSecond, ofNat_eq hlt, UInt8.reduceToNat]
  split
  · simp only [le_tail, tail_lt, Bool.and_eq_true, decide_eq_true_eq, UInt8.reduceToNat]
    omega
  · split
    · simp only [le_tail, tail_lt, Bool.and_eq_true, decide_eq_true_eq, UInt8.reduceToNat]
      omega
    · rw [if_neg (by omega), if_neg (by omega)]
      exact isTail_tail _

theorem isSecond_four {c : Char} (h : 0x10000 ≤ c.toNat) :
    isSecond (.ofNat (0xF0 + c.toNat / 262144)) (tail (c.toNat / 4096)) = true := by
  have hc := toNat_valid c
  have hlt : 0xF0 + c.toNat / 262144 < 256 := by omega
  simp only [isSecond, ofNat_eq hlt, UInt8.reduceToNat]
  rw [if_neg (by omega), if_neg (by omega)]
  split
  · simp only [le_tail, tail_lt, Bool.and_eq_true, decide_eq_true_eq, UInt8.reduceToNat]
    omega
  · split
    · simp only [le_tail, tail_lt, Bool.and_eq_true, decide_eq_true_eq, UInt8.reduceToNat]
      omega
    · exact isTail_tail _

theorem decodeAt_one {c : Char} (h : c.toNat < 0x80) (pos : Nat) (s : List UInt8) :
    decodeAt pos (encodeChar c ++ s) = (c :: ·) <$> decodeAt (pos + 1) s := by
  have hlt : c.toNat < 256 := by omega
  have he : encodeChar c = [.ofNat c.toNat] := by rw [encodeChar, if_pos h]
  rw [he, List.cons_append, List.nil_append, decodeAt.eq_def]
  simp only [ofNat_lt hlt, UInt8.reduceToNat]
  rw [if_pos h, toNat_ofNat hlt, Char.ofNat_toNat]

theorem decodeAt_two {c : Char} (h : 0x80 ≤ c.toNat) (h' : c.toNat < 0x800) (pos : Nat)
    (s : List UInt8) :
    decodeAt pos (encodeChar c ++ s) = (c :: ·) <$> decodeAt (pos + 2) s := by
  have hlt : 0xC0 + c.toNat / 64 < 256 := by omega
  have he : encodeChar c = [.ofNat (0xC0 + c.toNat / 64), tail c.toNat] := by
    rw [encodeChar, if_neg (by omega), if_pos h']
  have hj : join2 (.ofNat (0xC0 + c.toNat / 64)) (tail c.toNat) = c := by
    apply char_ofNat
    rw [toNat_ofNat hlt, toNat_tail]
    omega
  rw [he, List.cons_append, List.cons_append, List.nil_append, decodeAt]
  simp only [ofNat_lt hlt, UInt8.reduceToNat]
  rw [if_neg (by omega), if_neg (by omega), if_pos (by omega), isTail_tail, if_pos rfl, hj]

theorem decodeAt_three {c : Char} (h : 0x800 ≤ c.toNat) (h' : c.toNat < 0x10000) (pos : Nat)
    (s : List UInt8) :
    decodeAt pos (encodeChar c ++ s) = (c :: ·) <$> decodeAt (pos + 3) s := by
  have hlt : 0xE0 + c.toNat / 4096 < 256 := by omega
  have he : encodeChar c =
      [.ofNat (0xE0 + c.toNat / 4096), tail (c.toNat / 64), tail c.toNat] := by
    rw [encodeChar, if_neg (by omega), if_neg (by omega), if_pos h']
  have hj : join3 (.ofNat (0xE0 + c.toNat / 4096)) (tail (c.toNat / 64)) (tail c.toNat) = c := by
    apply char_ofNat
    rw [toNat_ofNat hlt, toNat_tail, toNat_tail]
    omega
  rw [he, List.cons_append, List.cons_append, List.cons_append, List.nil_append, decodeAt]
  simp only [ofNat_lt hlt, UInt8.reduceToNat]
  rw [if_neg (by omega), if_neg (by omega), if_neg (by omega), if_pos (by omega)]
  simp only [isSecond_three h h', isTail_tail, Bool.not_true, Bool.false_eq_true, if_false,
    if_true, hj]

theorem decodeAt_four {c : Char} (h : 0x10000 ≤ c.toNat) (pos : Nat) (s : List UInt8) :
    decodeAt pos (encodeChar c ++ s) = (c :: ·) <$> decodeAt (pos + 4) s := by
  have hc := toNat_valid c
  have hlt : 0xF0 + c.toNat / 262144 < 256 := by omega
  have he : encodeChar c = [.ofNat (0xF0 + c.toNat / 262144), tail (c.toNat / 4096),
      tail (c.toNat / 64), tail c.toNat] := by
    rw [encodeChar, if_neg (by omega), if_neg (by omega), if_neg (by omega)]
  have hj : join4 (.ofNat (0xF0 + c.toNat / 262144)) (tail (c.toNat / 4096))
      (tail (c.toNat / 64)) (tail c.toNat) = c := by
    apply char_ofNat
    rw [toNat_ofNat hlt, toNat_tail, toNat_tail, toNat_tail]
    omega
  rw [he, List.cons_append, List.cons_append, List.cons_append, List.cons_append,
    List.nil_append, decodeAt]
  simp only [ofNat_lt hlt, UInt8.reduceToNat]
  rw [if_neg (by omega), if_neg (by omega), if_neg (by omega), if_neg (by omega),
    if_pos (by omega)]
  simp only [isSecond_four h, isTail_tail, Bool.not_true, Bool.false_eq_true, if_false,
    if_true, hj]

/-- The octets of a character are read as that character, whatever follows them. -/
theorem decodeAt_encodeChar (c : Char) (pos : Nat) (s : List UInt8) :
    ∃ next, decodeAt pos (encodeChar c ++ s) = (c :: ·) <$> decodeAt next s := by
  by_cases h1 : c.toNat < 0x80
  · exact ⟨_, decodeAt_one h1 pos s⟩
  · by_cases h2 : c.toNat < 0x800
    · exact ⟨_, decodeAt_two (by omega) h2 pos s⟩
    · by_cases h3 : c.toNat < 0x10000
      · exact ⟨_, decodeAt_three (by omega) h3 pos s⟩
      · exact ⟨_, decodeAt_four (by omega) pos s⟩

theorem decodeAt_encode (s : List Char) (pos : Nat) : decodeAt pos (encode s) = .ok s := by
  induction s generalizing pos with
  | nil => rfl
  | cons c s ih =>
      obtain ⟨next, h⟩ := decodeAt_encodeChar c pos (encode s)
      change decodeAt pos (encodeChar c ++ encode s) = _
      rw [h, ih]
      rfl

theorem decode_encode (s : List Char) : decode (encode s) = .ok s := decodeAt_encode s 0

theorem encode_cons (c : Char) (s : List Char) : encode (c :: s) = encodeChar c ++ encode s := rfl

section Strict

theorem isTail_iff {b : UInt8} : isTail b = true ↔ 0x80 ≤ b.toNat ∧ b.toNat < 0xC0 := by
  rw [isTail, Bool.and_eq_true, decide_eq_true_eq, decide_eq_true_eq, UInt8.le_iff_toNat_le,
    UInt8.lt_iff_toNat_lt]
  rfl

/-- A second octet continues the lead octet, and what they begin is no shorter form, no surrogate
and no number past the last code point. -/
theorem isSecond_iff {a b : UInt8} : isSecond a b = true ↔ (0x80 ≤ b.toNat ∧ b.toNat < 0xC0) ∧
    (a.toNat = 0xE0 → 0xA0 ≤ b.toNat) ∧ (a.toNat = 0xED → b.toNat < 0xA0) ∧
    (a.toNat = 0xF0 → 0x90 ≤ b.toNat) ∧ (a.toNat = 0xF4 → b.toNat < 0x90) := by
  rw [isSecond]
  simp only [← UInt8.toNat_inj, UInt8.reduceToNat]
  split_ifs
  all_goals
    simp only [isTail_iff, Bool.and_eq_true, decide_eq_true_eq, UInt8.le_iff_toNat_le,
      UInt8.lt_iff_toNat_lt, UInt8.reduceToNat]
    omega

theorem toNat_charOfNat {n : Nat} (h : n < 0xD800 ∨ 0xDFFF < n ∧ n < 0x110000) :
    (Char.ofNat n).toNat = n := by
  have hvalid : n.isValidChar := h
  rw [Char.ofNat, dif_pos hvalid]
  rfl

theorem eq_ofNat {a : UInt8} {n : Nat} (h : n = a.toNat) : UInt8.ofNat n = a := by
  rw [h, UInt8.ofNat_toNat]

theorem encodeChar_one {a : UInt8} (h : a.toNat < 0x80) :
    encodeChar (.ofNat a.toNat) = [a] := by
  have hn := toNat_charOfNat (n := a.toNat) (by omega)
  simp only [encodeChar, hn]
  rw [if_pos h, UInt8.ofNat_toNat]

theorem encodeChar_two {a b : UInt8} (h : 0xC2 ≤ a.toNat) (h' : a.toNat < 0xE0)
    (hb : isTail b = true) : encodeChar (join2 a b) = [a, b] := by
  rw [isTail_iff] at hb
  have hn : (join2 a b).toNat = (a.toNat - 0xC0) * 64 + (b.toNat - 0x80) :=
    toNat_charOfNat (by omega)
  simp only [encodeChar, hn, tail]
  rw [if_neg (by omega), if_pos (by omega), eq_ofNat (a := a) (by omega),
    eq_ofNat (a := b) (by omega)]

theorem encodeChar_three {a b c : UInt8} (h : 0xE0 ≤ a.toNat) (h' : a.toNat < 0xF0)
    (hb : isSecond a b = true) (hc : isTail c = true) :
    encodeChar (join3 a b c) = [a, b, c] := by
  rw [isSecond_iff] at hb
  rw [isTail_iff] at hc
  have hn : (join3 a b c).toNat =
      (a.toNat - 0xE0) * 4096 + (b.toNat - 0x80) * 64 + (c.toNat - 0x80) :=
    toNat_charOfNat (by omega)
  simp only [encodeChar, hn, tail]
  rw [if_neg (by omega), if_neg (by omega), if_pos (by omega), eq_ofNat (a := a) (by omega),
    eq_ofNat (a := b) (by omega), eq_ofNat (a := c) (by omega)]

theorem encodeChar_four {a b c d : UInt8} (h : 0xF0 ≤ a.toNat) (h' : a.toNat < 0xF5)
    (hb : isSecond a b = true) (hc : isTail c = true) (hd : isTail d = true) :
    encodeChar (join4 a b c d) = [a, b, c, d] := by
  rw [isSecond_iff] at hb
  rw [isTail_iff] at hc hd
  have hn : (join4 a b c d).toNat = (a.toNat - 0xF0) * 262144 + (b.toNat - 0x80) * 4096 +
      (c.toNat - 0x80) * 64 + (d.toNat - 0x80) :=
    toNat_charOfNat (by omega)
  simp only [encodeChar, hn, tail]
  rw [if_neg (by omega), if_neg (by omega), if_neg (by omega), eq_ofNat (a := a) (by omega),
    eq_ofNat (a := b) (by omega), eq_ofNat (a := c) (by omega), eq_ofNat (a := d) (by omega)]

theorem map_cons_eq_ok {c : Char} {x : Except Fault (List Char)} {s : List Char}
    (h : (c :: ·) <$> x = .ok s) : ∃ t, x = .ok t ∧ s = c :: t := by
  cases x with
  | error f => cases h
  | ok t =>
      cases h
      exact ⟨t, rfl, rfl⟩

theorem encode_of_read {c : Char} {octets rest : List UInt8} {next : Nat} {s : List Char}
    (hc : encodeChar c = octets) (hrest : ∀ {t}, decodeAt next rest = .ok t → encode t = rest)
    (h : (c :: ·) <$> decodeAt next rest = .ok s) : encode s = octets ++ rest := by
  obtain ⟨t, ht, rfl⟩ := map_cons_eq_ok h
  rw [encode_cons, hc, hrest ht]

/-- Decoding is strict: octets that decode are those that their text encodes to. -/
theorem encode_of_decodeAt {bs : List UInt8} {pos : Nat} {s : List Char}
    (h : decodeAt pos bs = .ok s) : encode s = bs := by
  fun_induction decodeAt pos bs generalizing s with
  | case1 =>
      cases h
      rfl
  | case2 pos a rest ha ih =>
      rw [UInt8.lt_iff_toNat_lt] at ha
      exact encode_of_read (encodeChar_one ha) ih h
  | case5 pos a h1 h2 h3 b rest hb ih =>
      rw [UInt8.lt_iff_toNat_lt] at h2 h3
      exact encode_of_read (encodeChar_two (Nat.le_of_not_lt h2) h3 hb) ih h
  | case11 pos a h1 h2 h3 h4 b c rest hb hc ih =>
      rw [Bool.not_eq_true', Bool.not_eq_false] at hb
      rw [UInt8.lt_iff_toNat_lt] at h3 h4
      exact encode_of_read (encodeChar_three (Nat.le_of_not_lt h3) h4 hb hc) ih h
  | case21 pos a h1 h2 h3 h4 h5 b c d rest hb hc hd ih =>
      rw [Bool.not_eq_true', Bool.not_eq_false] at hb hc
      rw [UInt8.lt_iff_toNat_lt] at h4 h5
      exact encode_of_read (encodeChar_four (Nat.le_of_not_lt h4) h5 hb hc hd) ih h
  | _ => cases h

/-- Octets decode to a text exactly when they are what the text encodes to. -/
theorem decode_eq_ok {bs : List UInt8} {s : List Char} : decode bs = .ok s ↔ bs = encode s := by
  constructor
  · intro h
    exact (encode_of_decodeAt h).symm
  · rintro rfl
    exact decode_encode s

end Strict

/-- Zero is an octet of NUL alone. -/
theorem zero_not_mem_encodeChar {c : Char} (h : c ≠ '\x00') : (0 : UInt8) ∉ encodeChar c := by
  have hc := toNat_valid c
  have hn : c.toNat ≠ 0 := fun e => h (Char.toNat_inj.1 e)
  have hne {n : Nat} (hlt : n < 256) (h0 : n ≠ 0) : (0 : UInt8) ≠ UInt8.ofNat n :=
    fun e => h0 ((ofNat_eq hlt 0).1 e.symm)
  have htail (n : Nat) : (0 : UInt8) ≠ tail n := hne (by omega) (by omega)
  rw [encodeChar]
  split
  · exact List.not_mem_cons_of_ne_of_not_mem (hne (by omega) hn) List.not_mem_nil
  · split
    · exact List.not_mem_cons_of_ne_of_not_mem (hne (by omega) (by omega)) (by simp [htail])
    · split
      · exact List.not_mem_cons_of_ne_of_not_mem (hne (by omega) (by omega)) (by simp [htail])
      · exact List.not_mem_cons_of_ne_of_not_mem (hne (by omega) (by omega)) (by simp [htail])

theorem zero_not_mem_encode {s : List Char} (h : '\x00' ∉ s) : (0 : UInt8) ∉ encode s := by
  intro hzero
  obtain ⟨c, hc, hmem⟩ := List.mem_flatMap.1 hzero
  exact zero_not_mem_encodeChar (fun e => h (e ▸ hc)) hmem

theorem encodeChar_head {c : Char} (h : c ≠ '\x00') : ∃ b bs, encodeChar c = b :: bs ∧ b ≠ 0 := by
  obtain ⟨b, bs, he⟩ : ∃ b bs, encodeChar c = b :: bs := by
    rw [encodeChar]
    split
    · exact ⟨_, _, rfl⟩
    · split
      · exact ⟨_, _, rfl⟩
      · split <;> exact ⟨_, _, rfl⟩
  refine ⟨b, bs, he, ?_⟩
  rintro rfl
  exact zero_not_mem_encodeChar h (he ▸ List.mem_cons_self)

/-- Leading zeros of the octets are those of the leading NULs. -/
theorem dropWhile_encode (s : List Char) :
    (encode s).dropWhile (· = 0) = encode (s.dropWhile (· = '\x00')) := by
  induction s with
  | nil => rfl
  | cons c s ih =>
      by_cases hc : c = '\x00'
      · subst hc
        rw [List.dropWhile_cons_of_pos (by decide), ← ih]
        rfl
      · obtain ⟨b, bs, he, hb⟩ := encodeChar_head hc
        rw [List.dropWhile_cons_of_neg (by simpa using hc), encode_cons, he, List.cons_append,
          List.dropWhile_cons_of_neg (by simpa using hb)]

end DocumentSink.Utf8
