import DocumentSink.Password
import DocumentSink.Proofs.Numeral
import DocumentSink.Proofs.Substitution
import DocumentSink.Proofs.Utf8
import Mathlib.Data.List.Induction

/-!
Passwords come back. A stored number keeps all of a password but its leading NULs, and one that
refers to variables is kept as it is. Only a password that refers to variables and carries the mark
of concealed ones is taken for what it is not.
-/

namespace DocumentSink.Password

theorem ofOctets_append_one (bs : List UInt8) (b : UInt8) :
    ofOctets (bs ++ [b]) = ofOctets bs * 256 + b.toNat := by
  rw [ofOctets, List.foldl_append]
  rfl

theorem octets_zero : octets 0 = [] := by rw [octets, dif_pos rfl]

theorem octets_step {n : Nat} (h : n ≠ 0) : octets n = octets (n / 256) ++ [.ofNat (n % 256)] := by
  rw [octets, dif_neg h]

/-- A number keeps its octets up to leading zeros. -/
theorem octets_ofOctets (bs : List UInt8) : octets (ofOctets bs) = bs.dropWhile (· = 0) := by
  induction bs using List.reverseRecOn with
  | nil => exact octets_zero
  | append_singleton bs b ih =>
      have hb : b.toNat < 256 := b.toNat_lt
      rw [ofOctets_append_one, List.dropWhile_append, ← ih]
      by_cases hn : ofOctets bs * 256 + b.toNat = 0
      · have h0 : b = 0 := UInt8.toNat_inj.1 (by rw [UInt8.toNat_zero]; omega)
        have hbs : ofOctets bs = 0 := by omega
        rw [hn, hbs, octets_zero, h0]
        rfl
      · rw [octets_step hn]
        have hdiv : (ofOctets bs * 256 + b.toNat) / 256 = ofOctets bs := by omega
        have hmod : (ofOctets bs * 256 + b.toNat) % 256 = b.toNat := by omega
        rw [hdiv, hmod, UInt8.ofNat_toNat]
        by_cases hbs : ofOctets bs = 0
        · have h0 : b ≠ 0 := by
            rintro rfl
            rw [UInt8.toNat_zero] at hn
            omega
          simp [hbs, octets_zero, h0]
        · rw [octets_step hbs]
          simp

/-- A number comes back from its octets. -/
theorem ofOctets_octets (n : Nat) : ofOctets (octets n) = n := by
  induction n using Nat.strongRecOn with
  | ind n ih =>
      by_cases hn : n = 0
      · rw [hn, octets_zero]
        rfl
      · rw [octets_step hn, ofOctets_append_one, ih (n / 256) (by omega),
          Utf8.toNat_ofNat (Nat.mod_lt n (by decide))]
        omega

/-- So the octets of a number begin with no zero. -/
theorem dropWhile_octets (n : Nat) : (octets n).dropWhile (· = 0) = octets n := by
  rw [← octets_ofOctets, ofOctets_octets]

/-- A number that is written in hexadecimal reveals what its octets write behind the seed. -/
theorem reveal_toDigits (n : Nat) :
    reveal (.ofList (Nat.toDigits 16 n)) =
      match Utf8.decode (octets (n ^^^ seed)) with
      | .error fault => .error (.notText fault)
      | .ok s => .ok (.ofList s) := by
  obtain ⟨d, ds, he, hlt, -⟩ := Numeral.toDigits_eq_map (show 1 < 16 by decide) n
  have hblank : ∀ c ∈ Nat.toDigits 16 n, Text.isBlank c = false := by
    intro c hc
    rw [he, List.mem_map] at hc
    obtain ⟨e, hm, rfl⟩ := hc
    exact Numeral.isBlank_digitChar e (hlt e hm)
  have htrim := Text.trim_of_trimmed (Text.trimmed_of_no_blank hblank)
  have hempty : (String.ofList (Nat.toDigits 16 n)).isEmpty = false := by
    simp [Nat.toDigits_ne_nil]
  rw [reveal, hempty]
  simp only [Bool.false_eq_true, if_false, String.toList_ofList, htrim,
    Numeral.hexadecimal?_toDigits]
  rw [if_neg (by omega)]
  cases hdecode : Utf8.decode (octets (n ^^^ seed)) with
  | error fault => simp only [Int.toNat_natCast, hdecode]
  | ok s => simp only [Int.toNat_natCast, hdecode]

/-- What digits conceal is revealed, without its leading NULs. -/
theorem reveal_concealed (s : List Char) :
    reveal (.ofList (concealed s)) = .ok (.ofList (s.dropWhile (· = '\x00'))) := by
  rw [concealed, reveal_toDigits, Nat.xor_assoc, Nat.xor_self, Nat.xor_zero, octets_ofOctets,
    Utf8.dropWhile_encode, Utf8.decode_encode]

/-- What is revealed has no leading NUL. -/
theorem dropWhile_of_reveal {digits password : String} (h : reveal digits = .ok password) :
    password.toList.dropWhile (· = '\x00') = password.toList := by
  rw [reveal] at h
  split at h
  · cases h
    rfl
  · dsimp only at h
    split at h
    · cases h
    · next n _ =>
        split at h
        · cases h
        · cases hdecode : Utf8.decode (octets (n.toNat ^^^ seed)) with
          | error fault =>
              rw [hdecode] at h
              cases h
          | ok s =>
              rw [hdecode] at h
              cases h
              have hoctets := Utf8.decode_eq_ok.1 hdecode
              have hdrop := dropWhile_octets (n.toNat ^^^ seed)
              rw [hoctets, Utf8.dropWhile_encode] at hdrop
              have hs := congrArg Utf8.decode hdrop
              rw [Utf8.decode_encode, Utf8.decode_encode, Except.ok.injEq] at hs
              rw [String.toList_ofList, hs]

/-- A password as it comes back from its stored form. -/
def settled (password : String) : String :=
  if Variables.hasReferences password then password
  else .ofList (password.toList.dropWhile (· = '\x00'))

theorem settled_of_head {password : String} (h : password.toList.head? ≠ some '\x00') :
    settled password = password := by
  rw [settled]
  split
  · rfl
  · cases hs : password.toList with
    | nil => rw [← String.ofList_toList (s := password), hs]; rfl
    | cons c s =>
        have hc : c ≠ '\x00' := by
          rintro rfl
          exact h (by rw [hs]; rfl)
        rw [List.dropWhile_cons_of_neg (by simpa using hc), ← hs, String.ofList_toList]

/-- A password that is stored as it is and looks concealed. -/
def isMistakable (password : String) : Bool :=
  mark.isPrefixOf password.toList && Variables.hasReferences password

theorem restore_conceal (password : String) :
    restore (conceal password) = .ok (.ofList (password.toList.dropWhile (· = '\x00'))) := by
  rw [conceal]
  split
  · next h =>
      rw [String.isEmpty_iff.1 h]
      rfl
  · have hmark : mark.isPrefixOf (mark ++ concealed password.toList) = true :=
      List.isPrefixOf_iff_prefix.2 (List.prefix_append _ _)
    rw [restore, String.toList_ofList, if_pos hmark, List.drop_left, reveal_concealed]

theorem restore_store {password : String} (h : isMistakable password = false) :
    restore (store password) = .ok (settled password) := by
  rw [store, settled]
  split
  · next hr =>
      have hmark : mark.isPrefixOf password.toList = false := by
        simpa [isMistakable, hr] using h
      rw [restore, hmark]
      rfl
  · exact restore_conceal password

/-- What is stored as it is and looks concealed cannot be restored: no number has a reference in
it. -/
theorem restore_of_mistakable {password : String} (h : isMistakable password = true) :
    restore (store password) =
      .error (.notHexadecimal (.ofList (Text.trim (password.toList.drop mark.length)))) := by
  obtain ⟨hmark, href⟩ := Bool.and_eq_true_iff.1 h
  obtain ⟨rest, hrest⟩ := List.isPrefixOf_iff_prefix.1 hmark
  have hletter : ∃ c ∈ rest, Text.isBlank c = false ∧ Numeral.isHexLetter c = false := by
    have hdollar : '$' ∉ mark ∧ Text.isBlank '$' = false ∧ Numeral.isHexLetter '$' = false := by
      decide
    have hpercent : '%' ∉ mark ∧ Text.isBlank '%' = false ∧ Numeral.isHexLetter '%' = false := by
      decide
    have hmem := Variables.mem_of_hasReferences href
    rw [← hrest, List.mem_append, List.mem_append] at hmem
    rcases hmem with hm | hm
    · exact ⟨'$', hm.resolve_left hdollar.1, hdollar.2⟩
    · exact ⟨'%', hm.resolve_left hpercent.1, hpercent.2⟩
  obtain ⟨c, hc, hblank, hhex⟩ := hletter
  have hnone : Numeral.hexadecimal? (Text.trim rest) = none := by
    rw [Option.eq_none_iff_forall_ne_some]
    intro n hn
    rw [Numeral.isHexLetter_of_hexadecimal? hn c (Text.mem_trim hc hblank)] at hhex
    cases hhex
  have hempty : (String.ofList rest).isEmpty = false := by
    have hne : rest ≠ [] := List.ne_nil_of_mem hc
    simpa using hne
  rw [store, if_pos href, restore, if_pos hmark, ← hrest, List.drop_left, reveal, hempty]
  simp only [Bool.false_eq_true, if_false, String.toList_ofList, hnone]

/-- A password that does not begin with NUL comes back from its stored form, unless it carries the
mark of concealed ones and refers to variables: then it is stored as it is, and what stands behind
the mark is no number. -/
theorem restore_store_iff {password : String} (h : password.toList.head? ≠ some '\x00') :
    (restore (store password) = .ok password ↔ isMistakable password = false) ∧
      (isMistakable password = true → restore (store password) =
        .error (.notHexadecimal (.ofList (Text.trim (password.toList.drop mark.length))))) := by
  refine ⟨?_, restore_of_mistakable⟩
  constructor
  · intro hok
    rw [← Bool.not_eq_true]
    intro hmistakable
    rw [restore_of_mistakable hmistakable] at hok
    cases hok
  · intro hplain
    rw [restore_store hplain, settled_of_head h]

/-- A reference without the mark, and the mark before letters past ASCII without a reference. -/
theorem restore_store_iff_marked :
    restore (store "%%KEY%%\x00") = .ok "%%KEY%%\x00" ∧
      restore (store "Encrypted ä€😀\x00") = .ok "Encrypted ä€😀\x00" :=
  ⟨(restore_store_iff (by decide)).1.2 (by decide +kernel),
    (restore_store_iff (by decide)).1.2 (by decide +kernel)⟩

/-- The mark before a reference: stored as it is, and refused when it is restored. -/
theorem restore_store_mistakable :
    let password := "Encrypted $\x7bKEY\x7d"
    password.toList.head? ≠ some '\x00' ∧ store password = password ∧
      restore (store password) = .error (.notHexadecimal "$\x7bKEY\x7d") := by
  decide +kernel

end DocumentSink.Password
