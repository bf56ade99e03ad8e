import DocumentSink.Proofs.Segmentation
import Mathlib.Tactic.TFAE

/-!
Texts that substitution can change. Looking for a reference and replacing references are two scans;
here they are compared. Main statement: a text has references exactly where one begins somewhere in
it, and exactly where some variables change it, for which one variable is enough.
-/

namespace DocumentSink.Variables

variable {s text : List Char}

/-- A reference begins somewhere in a text. -/
def HoldsReference (s : List Char) : Prop := ∃ t, t <:+ s ∧ BeginsWithReference t

theorem hasReferences_iff {text : String} :
    hasReferences text = true ↔ ∃ r, .reference r ∈ pieces text.toList := by
  rw [hasReferences, List.any_eq_true]
  constructor
  · rintro ⟨p, hp, href⟩
    cases p with
    | char c => cases href
    | reference r => exact ⟨r, hp⟩
  · rintro ⟨r, hr⟩
    exact ⟨.reference r, hr, rfl⟩

theorem holdsReference_of_mem {r : Reference} (h : .reference r ∈ pieces s) : HoldsReference s := by
  fun_induction pieces s with
  | case1 s r t href ih =>
      exact ⟨s, List.suffix_rfl, r, proper_of_reference? href, t,
        (eq_written_of_reference? href).symm⟩
  | case2 href => cases h
  | case3 c t href ih =>
      rcases List.mem_cons.1 h with h | h
      · cases h
      · obtain ⟨u, hu, hbegins⟩ := ih h
        exact ⟨u, hu.trans (List.suffix_cons c t), hbegins⟩

theorem exists_mem_of_holdsReference (h : HoldsReference s) : ∃ r, .reference r ∈ pieces s := by
  obtain ⟨u, hu, hbegins⟩ := h
  fun_induction pieces s with
  | case1 s r t href ih => exact ⟨r, List.mem_cons_self⟩
  | case2 href =>
      rw [List.suffix_nil] at hu
      rw [hu] at hbegins
      exact absurd hbegins (reference?_eq_none.1 href)
  | case3 c t href ih =>
      -- no reference begins with the first character, so the one that is there begins behind it
      rcases List.suffix_cons_iff.1 hu with rfl | hu
      · exact absurd hbegins (reference?_eq_none.1 href)
      · obtain ⟨r, hr⟩ := ih hu
        exact ⟨r, List.mem_cons_of_mem _ hr⟩

theorem hasReferences_iff_holdsReference {text : String} :
    hasReferences text = true ↔ HoldsReference text.toList := by
  rw [hasReferences_iff]
  exact ⟨fun ⟨_, hr⟩ => holdsReference_of_mem hr, exists_mem_of_holdsReference⟩

section Surrogates

/-- A reference in a text with surrogates, of which its name may have some. -/
inductive WritesReference : Wide → Prop
  | braces {name : Wide} : name ≠ [] → .char '\x7d' ∉ name →
      WritesReference (.char '$' :: .char '\x7b' :: name ++ [.char '\x7d'])
  | percents {name : Wide} : name ≠ [] → .char '%' ∉ name →
      WritesReference (.char '%' :: .char '%' :: name ++ [.char '%', .char '%'])

variable {c : CodePoint} {d : Char} {l r name : Wide} {t : List Char}

/-- The character that is put for a code point. -/
def standIn (c : CodePoint) : Char := c.char?.getD '\uFFFD'

theorem standIn_eq (hd : d ≠ '\uFFFD') : standIn c = d ↔ c = .char d := by
  cases c with
  | char c => simp [standIn, CodePoint.char?]
  | surrogate n =>
      refine ⟨fun h => absurd h.symm hd, ?_⟩
      rintro ⟨⟩

theorem mem_map_standIn (hd : d ≠ '\uFFFD') : d ∈ l.map standIn ↔ .char d ∈ l := by
  simp only [List.mem_map, standIn_eq hd, exists_eq_right]

theorem map_standIn_ofChars (s : List Char) : (Wide.ofChars s).map standIn = s := by
  rw [Wide.ofChars, List.map_map]
  exact List.map_id s

/-- Characters of which none is put for a surrogate stand for themselves. -/
theorem map_standIn_eq (ht : '\uFFFD' ∉ t) : l.map standIn = t ↔ l = Wide.ofChars t := by
  constructor
  · rintro rfl
    have hsame : l.map (CodePoint.char ∘ standIn) = l.map id :=
      List.map_congr_left fun c hc =>
        ((standIn_eq fun h => ht (h ▸ List.mem_map_of_mem hc)).1 rfl).symm
    rw [Wide.ofChars, List.map_map, hsame, List.map_id]
  · rintro rfl
    exact map_standIn_ofChars t

/-- What is put for a text is a reference where the text is one. -/
theorem writesReference_iff : WritesReference l ↔
    ∃ ref : Reference, ref.IsProper ∧ l.map standIn = ref.written := by
  have hplain (form : Form) : form.stop ≠ '\uFFFD' := by cases form <;> decide
  constructor
  · intro h
    cases h with
    | @braces name hname hstop =>
        refine ⟨⟨.braces, name.map standIn⟩, ⟨mt List.map_eq_nil_iff.1 hname, ?_⟩, ?_⟩
        · exact mt (mem_map_standIn (hplain .braces)).1 hstop
        · rw [List.map_append, List.map_cons, List.map_cons]
          rfl
    | @percents name hname hstop =>
        refine ⟨⟨.percents, name.map standIn⟩, ⟨mt List.map_eq_nil_iff.1 hname, ?_⟩, ?_⟩
        · exact mt (mem_map_standIn (hplain .percents)).1 hstop
        · rw [List.map_append, List.map_cons, List.map_cons]
          rfl
  · rintro ⟨⟨form, name⟩, ⟨hname, hstop⟩, hl⟩
    cases form with
    | braces =>
        obtain ⟨front, close, rfl, hfront, hclose⟩ := List.map_eq_append_iff.1 hl
        obtain ⟨_, rest, rfl, hdollar, hfront⟩ := List.map_eq_cons_iff.1 hfront
        obtain ⟨_, name, rfl, hbrace, rfl⟩ := List.map_eq_cons_iff.1 hfront
        rw [(standIn_eq (by decide)).1 hdollar, (standIn_eq (by decide)).1 hbrace,
          (map_standIn_eq (by decide)).1 hclose]
        exact .braces (mt List.map_eq_nil_iff.2 hname)
          (mt (mem_map_standIn (hplain .braces)).2 hstop)
    | percents =>
        obtain ⟨front, close, rfl, hfront, hclose⟩ := List.map_eq_append_iff.1 hl
        obtain ⟨_, rest, rfl, hfirst, hfront⟩ := List.map_eq_cons_iff.1 hfront
        obtain ⟨_, name, rfl, hsecond, rfl⟩ := List.map_eq_cons_iff.1 hfront
        rw [(standIn_eq (by decide)).1 hfirst, (standIn_eq (by decide)).1 hsecond,
          (map_standIn_eq (by decide)).1 hclose]
        exact .percents (mt List.map_eq_nil_iff.2 hname)
          (mt (mem_map_standIn (hplain .percents)).2 hstop)

/-- A text with surrogates has references exactly where one is written in it. -/
theorem hasReferencesIn_iff {s : Wide} : hasReferencesIn s = true ↔
    ∃ left ref right, s = left ++ ref ++ right ∧ WritesReference ref := by
  rw [hasReferencesIn, hasReferences_iff_holdsReference, String.toList_ofList]
  change HoldsReference (s.map standIn) ↔ _
  simp only [writesReference_iff]
  constructor
  · rintro ⟨t, ⟨left, hleft⟩, ref, href, right, rfl⟩
    obtain ⟨l, m, rfl, rfl, hm⟩ := List.map_eq_append_iff.1 hleft.symm
    obtain ⟨r, n, rfl, hr, rfl⟩ := List.map_eq_append_iff.1 hm
    exact ⟨l, r, n, (List.append_assoc l r n).symm, ref, href, hr⟩
  · rintro ⟨left, r, right, rfl, ref, href, hr⟩
    rw [List.map_append, List.map_append, List.append_assoc, hr]
    exact ⟨_, List.suffix_append _ _, ref, href, List.prefix_append _ _⟩

end Surrogates

theorem length_textOf_le (vars : Variables) {text : String} {p : Piece}
    (h : p ∈ pieces text.toList) :
    (vars.textOf p).length ≤ (vars.substitute text).toList.length := by
  rw [substitute, String.toList_ofList, List.flatMap_def]
  exact (List.sublist_flatten_of_mem (List.mem_map_of_mem h)).length_le

/-- A value that is longer than the text cannot stand in it unseen, however often it stands in. -/
theorem substitute_longer {text : String} {r : Reference}
    (h : .reference r ∈ pieces text.toList) :
    substitute [(.ofList r.name, .text (text ++ "x"))] text ≠ text := by
  intro hsame
  have hlength := length_textOf_le [(.ofList r.name, .text (text ++ "x"))] h
  have htext : textOf [(.ofList r.name, .text (text ++ "x"))] (.reference r) =
      (text ++ "x").toList := by
    rw [Segmentation.textOf_reference, replacement, Record.get?, if_pos rfl]
    rfl
  rw [hsame, htext, String.toList_append, List.length_append] at hlength
  exact absurd hlength (Nat.not_succ_le_self _)

/-- A text has references exactly where one begins somewhere in it, where some variables change it,
and where a single variable does, with a text as value. -/
theorem hasReferences_tfae (text : String) :
    [hasReferences text = true, HoldsReference text.toList,
      ∃ vars : Variables, vars.substitute text ≠ text,
      ∃ name value : String, substitute [(name, .text value)] text ≠ text].TFAE := by
  tfae_have 1 → 2 := fun h =>
    have ⟨_, hr⟩ := hasReferences_iff.1 h
    holdsReference_of_mem hr
  tfae_have 2 → 4 := fun h =>
    have ⟨r, hr⟩ := exists_mem_of_holdsReference h
    ⟨.ofList r.name, text ++ "x", substitute_longer hr⟩
  tfae_have 4 → 3 := fun ⟨name, value, h⟩ => ⟨[(name, .text value)], h⟩
  tfae_have 3 → 1 := by
    rintro ⟨vars, h⟩
    cases href : hasReferences text with
    | true => rfl
    | false => exact absurd (substitute_of_no_references href vars) h
  tfae_finish

end DocumentSink.Variables
