import DocumentSink.Index
import DocumentSink.Proofs.Decimal
import DocumentSink.Proofs.Except
import DocumentSink.Proofs.Substitution
import Mathlib.Data.List.ReduceOption

/-!
The notation of index terms. A specification has parts with commas between them; a part is blank, a
path, or a path with a direction behind the first colon. Main statements: a specification is read
exactly as this notation says, where every numeral of one or minus one counts as a direction, and
else it is refused for the first part that the notation does not have; and terms that are printed
read back.
-/

namespace DocumentSink

/-- The two directions as the notation has them. -/
inductive Direction.Exact : List Char → Direction → Prop
  | ascending : Exact ['1'] .ascending
  | descending : Exact ['-', '1'] .descending

/-- A direction written as any numeral of it. -/
def Direction.Numeral (s : List Char) (d : Direction) : Prop := Numeral.Denotes s d.toInt

theorem Direction.exact_decimal (d : Direction) : Exact (Numeral.decimal d.toInt) d := by
  cases d with
  | ascending => exact .ascending
  | descending => exact .descending

theorem Direction.Exact.numeral {s : List Char} {d : Direction} (h : Exact s d) :
    Direction.Numeral s d := by
  cases h with
  | ascending => exact Numeral.denotes_decimal (n := 1) (by decide)
  | descending => exact Numeral.denotes_decimal (n := -1) (by decide)

namespace IndexTerm

/-- What a part between two commas writes: no term, a path, or a path with a direction. Blanks
around any of them do not count. -/
inductive Writes (direction : List Char → Direction → Prop) (part : List Char) :
    Option IndexTerm → Prop
  | nothing : Text.trim part = [] → Writes direction part none
  | path : Text.trim part ≠ [] → ':' ∉ Text.trim part →
      Writes direction part (some ⟨.ofList (Text.trim part), .ascending⟩)
  | directed {before after d} : Text.trim part = before ++ ':' :: after → ':' ∉ before →
      Text.trim before ≠ [] → direction (Text.trim after) d →
      Writes direction part (some ⟨.ofList (Text.trim before), d⟩)

/-- Why a part is refused: it has a colon with no path before it, or with no direction behind it. -/
inductive Refused (spec : String) (part : List Char) : IndexFault → Prop
  | noPath {before after} : Text.trim part = before ++ ':' :: after → ':' ∉ before →
      Text.trim before = [] → Refused spec part (.noPath spec (.ofList (Text.trim part)))
  | badDirection {before after} : Text.trim part = before ++ ':' :: after → ':' ∉ before →
      Text.trim before ≠ [] → (∀ d, ¬ Direction.Numeral (Text.trim after) d) →
      Refused spec part (.badDirection spec (.ofList (Text.trim after)))

section Parts

variable {spec : String} {part before after : List Char} {o : Option IndexTerm} {f : IndexFault}

theorem direction?_eq_some_iff {s : List Char} {d : Direction} :
    direction? s = some d ↔ Direction.Numeral s d := by
  rw [Direction.Numeral, ← Numeral.decimal?_eq_some_iff, direction?]
  constructor
  · intro h
    split at h
    · next hn =>
        cases h
        exact hn
    · next hn =>
        cases h
        exact hn
    · cases h
  · intro h
    rw [h]
    cases d with
    | ascending => rfl
    | descending => rfl

theorem ofPart_blank (h : Text.trim part = []) : ofPart spec part = .ok none := by
  rw [ofPart, h]
  rfl

theorem ofPart_path (hne : Text.trim part ≠ []) (hcolon : ':' ∉ Text.trim part) :
    ofPart spec part = .ok (some ⟨.ofList (Text.trim part), .ascending⟩) := by
  have htwice := Text.trim_of_trimmed (Text.trimmed_trim part)
  have hempty : ¬ (Text.trim part).isEmpty = true := mt List.isEmpty_iff.1 hne
  rw [ofPart]
  dsimp only
  rw [if_neg hempty, Text.cutFirst_of_not_mem hcolon]
  dsimp only
  rw [htwice, if_neg hempty]

theorem ofPart_colon (h : Text.trim part = before ++ ':' :: after) (hcolon : ':' ∉ before) :
    ofPart spec part =
      if (Text.trim before).isEmpty then .error (.noPath spec (.ofList (Text.trim part)))
      else match direction? (Text.trim after) with
        | some d => .ok (some ⟨.ofList (Text.trim before), d⟩)
        | none => .error (.badDirection spec (.ofList (Text.trim after))) := by
  have hne := Text.not_isEmpty_of_cut h
  have hcut := Text.cutFirst_eq_some_iff.2 ⟨h, hcolon⟩
  cases hd : direction? (Text.trim after) with
  | none => simp only [ofPart, if_neg hne, hcut, hd]
  | some d => simp only [ofPart, if_neg hne, hcut, hd]

theorem Writes.ofPart (h : Writes Direction.Numeral part o) : ofPart spec part = .ok o := by
  cases h with
  | nothing hblank => exact ofPart_blank hblank
  | path hne hcolon => exact ofPart_path hne hcolon
  | directed hpart hcolon hne hd =>
      rw [ofPart_colon hpart hcolon, if_neg (by simpa using hne), direction?_eq_some_iff.2 hd]

theorem Refused.ofPart (h : Refused spec part f) : ofPart spec part = .error f := by
  cases h with
  | noPath hpart hcolon hblank =>
      rw [ofPart_colon hpart hcolon, if_pos (by simpa using hblank)]
  | badDirection hpart hcolon hne hd =>
      have hnone : direction? (Text.trim _) = none :=
        Option.eq_none_iff_forall_ne_some.2 fun d hs => hd d (direction?_eq_some_iff.1 hs)
      rw [ofPart_colon hpart hcolon, if_neg (by simpa using hne), hnone]

/-- There is no part that neither writes something nor is refused. -/
theorem writes_or_refused (spec : String) (part : List Char) :
    (∃ o, Writes Direction.Numeral part o) ∨ ∃ f, Refused spec part f := by
  by_cases hpart : Text.trim part = []
  · exact .inl ⟨_, .nothing hpart⟩
  cases hcut : Text.cutFirst ':' (Text.trim part) with
  | none => exact .inl ⟨_, .path hpart (Text.cutFirst_eq_none_iff.1 hcut)⟩
  | some halves =>
      obtain ⟨hhalves, hcolon⟩ := Text.cutFirst_eq_some_iff.1 hcut
      by_cases hpath : Text.trim halves.1 = []
      · exact .inr ⟨_, .noPath hhalves hcolon hpath⟩
      by_cases hd : ∃ d, Direction.Numeral (Text.trim halves.2) d
      · obtain ⟨d, hd⟩ := hd
        exact .inl ⟨_, .directed hhalves hcolon hpath hd⟩
      · exact .inr ⟨_, .badDirection hhalves hcolon hpath (not_exists.1 hd)⟩

theorem ofPart_eq_ok_iff : ofPart spec part = .ok o ↔ Writes Direction.Numeral part o := by
  refine ⟨fun h => ?_, Writes.ofPart⟩
  rcases writes_or_refused spec part with ⟨o', ho'⟩ | ⟨f, hf⟩
  · rw [ho'.ofPart, Except.ok.injEq] at h
    exact h ▸ ho'
  · rw [hf.ofPart] at h
    cases h

theorem ofPart_eq_error_iff : ofPart spec part = .error f ↔ Refused spec part f := by
  refine ⟨fun h => ?_, Refused.ofPart⟩
  rcases writes_or_refused spec part with ⟨o, ho⟩ | ⟨f', hf'⟩
  · rw [ho.ofPart] at h
    cases h
  · rw [hf'.ofPart, Except.error.injEq] at h
    exact h ▸ hf'

theorem Writes.numeral (h : Writes Direction.Exact part o) : Writes Direction.Numeral part o := by
  cases h with
  | nothing hblank => exact .nothing hblank
  | path hne hcolon => exact .path hne hcolon
  | directed hpart hcolon hne hd => exact .directed hpart hcolon hne hd.numeral

end Parts

end IndexTerm

/-- The terms that a specification writes: those of its parts, in order. -/
def WritesTerms (direction : List Char → Direction → Prop) (s : List Char)
    (terms : List IndexTerm) : Prop :=
  ∃ os, List.Forall₂ (IndexTerm.Writes direction) (Text.split ',' s) os ∧ os.reduceOption = terms

/-- The fault of a text that writes no terms: that of its first refused part. -/
def RefusedFor (spec : String) (s : List Char) (fault : IndexFault) : Prop :=
  ∃ before part after, Text.split ',' s = before ++ part :: after ∧
    (∀ p ∈ before, ∃ o, IndexTerm.Writes Direction.Numeral p o) ∧ IndexTerm.Refused spec part fault

section Specifications

variable {vars : Variables} {spec : String} {s : List Char} {terms : List IndexTerm}
  {fault : IndexFault}

theorem indexTerms_eq_ok_iff : indexTerms vars spec = .ok terms ↔
    WritesTerms Direction.Numeral (vars.substitute spec).toList terms := by
  rw [indexTerms, map_eq_ok]
  simp only [mapM_eq_ok_iff, IndexTerm.ofPart_eq_ok_iff]
  rfl

theorem indexTerms_eq_error_iff : indexTerms vars spec = .error fault ↔
    RefusedFor spec (vars.substitute spec).toList fault := by
  rw [indexTerms, map_eq_error, mapM_eq_error_iff]
  simp only [IndexTerm.ofPart_eq_ok_iff, IndexTerm.ofPart_eq_error_iff]
  rfl

theorem RefusedFor.spec_eq (h : RefusedFor spec s fault) : fault.spec = spec := by
  obtain ⟨_, _, _, _, _, hpart⟩ := h
  cases hpart with
  | noPath => rfl
  | badDirection => rfl

theorem WritesTerms.numeral (h : WritesTerms Direction.Exact s terms) :
    WritesTerms Direction.Numeral s terms := by
  obtain ⟨os, hos, hterms⟩ := h
  exact ⟨os, hos.imp fun _ _ => IndexTerm.Writes.numeral, hterms⟩

end Specifications

/-- A specification without variables is read as the terms that it writes, where any numeral of one
or minus one is a direction; so the exact notation is read as it should be. Every other
specification is refused, for the first part that writes nothing. -/
theorem indexTerms_outcome (spec : String) :
    (∀ terms, indexTerms [] spec = .ok terms ↔
      WritesTerms Direction.Numeral spec.toList terms) ∧
    (∀ terms, WritesTerms Direction.Exact spec.toList terms → indexTerms [] spec = .ok terms) ∧
    ∀ fault, indexTerms [] spec = .error fault ↔ RefusedFor spec spec.toList fault := by
  have hok (terms : List IndexTerm) :
      indexTerms [] spec = .ok terms ↔ WritesTerms Direction.Numeral spec.toList terms := by
    rw [indexTerms_eq_ok_iff, Variables.substitute_nil]
  refine ⟨hok, fun terms h => (hok terms).2 h.numeral, fun fault => ?_⟩
  rw [indexTerms_eq_error_iff, Variables.substitute_nil]

/-- Blanks around everything, a part without text, and a path alone. -/
theorem indexTerms_outcome_spaced :
    let terms : List IndexTerm := [⟨"a b", .descending⟩, ⟨"c", .ascending⟩]
    WritesTerms Direction.Exact " a b : -1 ,, c".toList terms ∧
      indexTerms [] " a b : -1 ,, c" = .ok terms := by
  intro terms
  have hwrites : WritesTerms Direction.Exact " a b : -1 ,, c".toList terms := by
    have hsplit : Text.split ',' " a b : -1 ,, c".toList =
        [" a b : -1 ".toList, [], [' ', 'c']] := by decide +kernel
    have hpart : Text.trim " a b : -1 ".toList = "a b ".toList ++ ':' :: [' ', '-', '1'] := by
      decide +kernel
    rw [WritesTerms, hsplit]
    refine ⟨_, .cons (.directed hpart (by decide +kernel) (by decide +kernel) .descending)
      (.cons (.nothing rfl) (.cons (.path (by decide) (by decide)) .nil)), ?_⟩
    decide +kernel
  exact ⟨hwrites, (indexTerms_outcome _).2.1 terms hwrites⟩

/-- A plus sign before a direction is read, though the exact notation has none. -/
theorem indexTerms_signed :
    indexTerms [] "a:+1" = .ok [⟨"a", .ascending⟩] ∧
      ¬ ∃ terms, WritesTerms Direction.Exact "a:+1".toList terms := by
  refine ⟨by decide +kernel, ?_⟩
  rintro ⟨terms, os, hos, -⟩
  have hsplit : Text.split ',' "a:+1".toList = [['a', ':', '+', '1']] := by decide +kernel
  rw [hsplit] at hos
  obtain ⟨o, -, hpart, -, -⟩ := List.forall₂_cons_left_iff.1 hos
  cases hpart with
  | nothing hblank => exact absurd hblank (by decide)
  | path hne hcolon => exact absurd hcolon (by decide)
  | directed hpart hcolon hne hd =>
      have hcut := Text.cutFirst_eq_some_iff.2 ⟨hpart, hcolon⟩
      rw [show Text.cutFirst ':' (Text.trim ['a', ':', '+', '1']) = some (['a'], ['+', '1']) by
        decide] at hcut
      cases hcut
      nomatch hd

namespace IndexTerm

/-- A term that a specification can write: its path is not empty, has no blanks at its ends and
holds neither separator. Its direction is one of the two by its type. -/
structure WellFormed (t : IndexTerm) : Prop where
  path_ne : t.path.toList ≠ []
  trimmed : Text.Trimmed t.path.toList
  no_comma : ',' ∉ t.path.toList
  no_colon : ':' ∉ t.path.toList

/-- The text of terms, with commas between them. -/
def writtenAll (terms : List IndexTerm) : String := Text.joinWith ',' (terms.map written)

variable {t : IndexTerm} {part : List Char} {direction : List Char → Direction → Prop}

theorem wellFormed_of_trim {s : List Char} (d : Direction) (hne : Text.trim s ≠ [])
    (hcomma : ',' ∉ Text.trim s) (hcolon : ':' ∉ Text.trim s) :
    WellFormed ⟨.ofList (Text.trim s), d⟩ := by
  have hpath : (String.ofList (Text.trim s)).toList = Text.trim s := String.toList_ofList
  constructor <;> rw [hpath]
  · exact hne
  · exact Text.trimmed_trim s
  · exact hcomma
  · exact hcolon

theorem Writes.wellFormed (h : Writes direction part (some t)) (hcomma : ',' ∉ part) :
    t.WellFormed := by
  have hsubset := (Text.trim_infix part).subset
  cases h with
  | path hne hcolon =>
      exact wellFormed_of_trim .ascending hne (fun hmem => hcomma (hsubset hmem)) hcolon
  | @directed before after d hpart hcolon hne hd =>
      have hbefore := (Text.trim_infix before).subset
      refine wellFormed_of_trim d hne (fun hmem => hcomma (hsubset ?_)) fun hmem =>
        hcolon (hbefore hmem)
      rw [hpart]
      exact List.mem_append_left _ (hbefore hmem)

theorem toList_written (t : IndexTerm) :
    t.written.toList = t.path.toList ++ ':' :: Numeral.decimal t.direction.toInt := by
  simp [written, Numeral.decimalText]

/-- A printed term is a part that writes it. -/
theorem WellFormed.writes (h : t.WellFormed) :
    Writes Direction.Exact t.written.toList (some t) := by
  have hdecimal := Numeral.trimmed_decimal t.direction.toInt
  have hne := Numeral.decimal_ne_nil t.direction.toInt
  have htrim : Text.trim t.written.toList =
      t.path.toList ++ ':' :: Numeral.decimal t.direction.toInt := by
    have htrimmed := Text.trimmed_between h.trimmed h.path_ne hdecimal hne [':']
    rw [List.append_assoc] at htrimmed
    rw [toList_written]
    exact Text.trim_of_trimmed htrimmed
  have hpath := Text.trim_of_trimmed h.trimmed
  have hpathne : Text.trim t.path.toList ≠ [] := by
    rw [hpath]
    exact h.path_ne
  have hd : Direction.Exact (Text.trim (Numeral.decimal t.direction.toInt)) t.direction := by
    rw [Text.trim_of_trimmed hdecimal]
    exact t.direction.exact_decimal
  have hwrites := Writes.directed htrim h.no_colon hpathne hd
  rwa [hpath, String.ofList_toList] at hwrites

theorem WellFormed.no_comma_written (h : t.WellFormed) : ',' ∉ t.written.toList := by
  have hdecimal : ',' ∉ Numeral.decimal t.direction.toInt := Numeral.not_mem_decimal (by decide) _
  rw [toList_written, List.mem_append, List.mem_cons]
  rintro (hmem | hmem | hmem)
  · exact h.no_comma hmem
  · cases hmem
  · exact hdecimal hmem

theorem writesTerms_writtenAll {terms : List IndexTerm} (h : ∀ t ∈ terms, t.WellFormed) :
    WritesTerms Direction.Exact (writtenAll terms).toList terms := by
  rw [writtenAll, Text.joinWith, String.toList_ofList, List.map_map]
  cases hterms : terms with
  | nil => exact ⟨[none], .cons (.nothing rfl) .nil, rfl⟩
  | cons first rest =>
      rw [← hterms]
      have hsplit : Text.split ',' (Text.join ',' (terms.map (String.toList ∘ written))) =
          terms.map (String.toList ∘ written) := by
        apply Text.split_join
        · rw [hterms]
          exact List.cons_ne_nil _ _
        · intro part hpart
          obtain ⟨t, ht, rfl⟩ := List.mem_map.1 hpart
          exact (h t ht).no_comma_written
      refine ⟨terms.map some, ?_, ?_⟩
      · rw [hsplit, List.forall₂_map_left_iff, List.forall₂_map_right_iff, List.forall₂_same]
        exact fun t ht => (h t ht).writes
      · rw [List.reduceOption, List.filterMap_map]
        exact List.filterMap_some

end IndexTerm

/-- What is read is well formed, whatever the variables are. -/
theorem wellFormed_of_indexTerms {vars : Variables} {spec : String} {terms : List IndexTerm}
    (h : indexTerms vars spec = .ok terms) : ∀ t ∈ terms, t.WellFormed := by
  obtain ⟨os, hos, rfl⟩ := map_eq_ok.1 h
  intro t ht
  obtain ⟨part, hpart, hwrites⟩ := exists_of_mapM_eq_ok hos (List.reduceOption_mem_iff.1 ht)
  exact (IndexTerm.ofPart_eq_ok_iff.1 hwrites).wellFormed (Text.not_mem_of_mem_split hpart)

/-- Well-formed terms that are printed read back. All that is ever read is well formed, so it reads
back as well when it is printed. -/
theorem indexTerms_writtenAll (vars : Variables) (spec : String) :
    (∀ terms, indexTerms vars spec = .ok terms →
      (∀ t ∈ terms, t.WellFormed) ∧ indexTerms [] (IndexTerm.writtenAll terms) = .ok terms) ∧
    ∀ terms : List IndexTerm, (∀ t ∈ terms, t.WellFormed) →
      indexTerms [] (IndexTerm.writtenAll terms) = .ok terms := by
  have hback (terms : List IndexTerm) (h : ∀ t ∈ terms, t.WellFormed) :
      indexTerms [] (IndexTerm.writtenAll terms) = .ok terms := by
    rw [indexTerms_eq_ok_iff, Variables.substitute_nil]
    exact (IndexTerm.writesTerms_writtenAll h).numeral
  refine ⟨fun terms h => ?_, hback⟩
  have hwell := wellFormed_of_indexTerms h
  exact ⟨hwell, hback terms hwell⟩

/-- A reference in the specification, and one in a path that is printed. -/
theorem indexTerms_writtenAll_referring :
    let vars : Variables := [("F", .text " created ")]
    let read : List IndexTerm := [⟨"created", .descending⟩, ⟨"a b", .ascending⟩]
    let terms : List IndexTerm := [⟨"$\x7bF\x7d", .ascending⟩, ⟨".", .descending⟩]
    indexTerms vars "$\x7bF\x7d:-1, a b ,," = .ok read ∧
      indexTerms [] "created:-1,a b:1" = .ok read ∧
      indexTerms [] "$\x7bF\x7d:1,.:-1" = .ok terms := by
  intro vars read terms
  have hread : indexTerms vars "$\x7bF\x7d:-1, a b ,," = .ok read := by decide +kernel
  obtain ⟨hfirst, hsecond⟩ := indexTerms_writtenAll vars "$\x7bF\x7d:-1, a b ,,"
  have hterms : ∀ t ∈ terms, t.WellFormed := by
    rw [List.forall_mem_cons, List.forall_mem_singleton]
    have hfield : Text.Trimmed "$\x7bF\x7d".toList :=
      Text.trimmed_of_no_blank (Text.no_blank_of_any (by decide))
    have hpoint : Text.Trimmed ".".toList :=
      Text.trimmed_of_no_blank (Text.no_blank_of_any (by decide))
    exact ⟨⟨by decide, hfield, by decide, by decide⟩, ⟨by decide, hpoint, by decide, by decide⟩⟩
  have hprinted : IndexTerm.writtenAll read = "created:-1,a b:1" := by decide +kernel
  have hprinted' : IndexTerm.writtenAll terms = "$\x7bF\x7d:1,.:-1" := by decide +kernel
  exact ⟨hread, hprinted ▸ (hfirst read hread).2, hprinted' ▸ hsecond terms hterms⟩

end DocumentSink
