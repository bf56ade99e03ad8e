/-!
Cutting a text at a separator: into all parts, at its first and at its last occurrence. Joining the
parts with the separator gives the text back, and a split gives back parts that were joined, as long
as none holds the separator. What stands before a first separator, or behind a last one, holds none.
-/

namespace DocumentSink.Text

/-- The parts between the occurrences of `sep`. -/
def split (sep : Char) : List Char → List (List Char)
  | [] => [[]]
  | c :: s =>
    if c = sep then [] :: split sep s
    else match split sep s with
      | [] => [[c]]
      | part :: parts => (c :: part) :: parts

def join (sep : Char) : List (List Char) → List Char
  | [] => []
  | [part] => part
  | part :: parts => part ++ sep :: join sep parts

/-- What stands before and after the first `sep`, if there is one. -/
def cutFirst (sep : Char) : List Char → Option (List Char × List Char)
  | [] => none
  | c :: s =>
    if c = sep then some ([], s)
    else (cutFirst sep s).map fun (before, after) => (c :: before, after)

/-- What stands before and after the last `sep`, if there is one. -/
def cutLast (sep : Char) (s : List Char) : Option (List Char × List Char) :=
  (cutFirst sep s.reverse).map fun (after, before) => (before.reverse, after.reverse)

/-- What stands before and after the first occurrence of a whole word. -/
def cutWord (word : List Char) : List Char → Option (List Char × List Char)
  | [] => if word.isEmpty then some ([], []) else none
  | c :: s =>
    if word.isPrefixOf (c :: s) then some ([], (c :: s).drop word.length)
    else (cutWord word s).map fun (before, after) => (c :: before, after)

def splitOn (sep : Char) (s : String) : List String := (split sep s.toList).map .ofList

def joinWith (sep : Char) (parts : List String) : String :=
  .ofList (join sep (parts.map (·.toList)))

theorem eq_of_cutFirst {sep : Char} {s before after : List Char}
    (h : cutFirst sep s = some (before, after)) : s = before ++ sep :: after := by
  induction s generalizing before with
  | nil => simp [cutFirst] at h
  | cons c s ih =>
      by_cases hc : c = sep
      · simp only [cutFirst, hc, if_true, Option.some.injEq, Prod.mk.injEq] at h
        rw [hc, ← h.1, ← h.2, List.nil_append]
      · simp only [cutFirst, hc, if_false, Option.map_eq_some_iff, Prod.exists, Prod.mk.injEq] at h
        obtain ⟨b, a, hb, rfl, rfl⟩ := h
        rw [List.cons_append, ← ih hb]

theorem cutFirst_of_not_mem {sep : Char} {s : List Char} (h : sep ∉ s) : cutFirst sep s = none := by
  induction s with
  | nil => rfl
  | cons c s ih =>
      rw [List.mem_cons, not_or] at h
      rw [cutFirst, if_neg (Ne.symm h.1), ih h.2]
      rfl

theorem cutFirst_append_of_not_mem {sep : Char} {before : List Char} (h : sep ∉ before)
    (after : List Char) : cutFirst sep (before ++ sep :: after) = some (before, after) := by
  induction before with
  | nil => rw [List.nil_append, cutFirst, if_pos rfl]
  | cons c before ih =>
      rw [List.mem_cons, not_or] at h
      rw [List.cons_append, cutFirst, if_neg (Ne.symm h.1), ih h.2]
      rfl

theorem not_mem_of_cutFirst {sep : Char} {s before after : List Char}
    (h : cutFirst sep s = some (before, after)) : sep ∉ before := by
  induction s generalizing before with
  | nil => cases h
  | cons c s ih =>
      rw [cutFirst] at h
      split at h
      · cases h
        exact List.not_mem_nil
      · next hc =>
          obtain ⟨p, hp, hcons⟩ := Option.map_eq_some_iff.1 h
          cases hcons
          rw [List.mem_cons, not_or]
          exact ⟨Ne.symm hc, ih hp⟩

theorem cutFirst_eq_some_iff {sep : Char} {s before after : List Char} :
    cutFirst sep s = some (before, after) ↔ s = before ++ sep :: after ∧ sep ∉ before := by
  constructor
  · intro h
    exact ⟨eq_of_cutFirst h, not_mem_of_cutFirst h⟩
  · rintro ⟨rfl, h⟩
    exact cutFirst_append_of_not_mem h after

theorem cutFirst_eq_none_iff {sep : Char} {s : List Char} : cutFirst sep s = none ↔ sep ∉ s := by
  refine ⟨fun h hmem => ?_, cutFirst_of_not_mem⟩
  obtain ⟨before, after, rfl, hbefore⟩ := List.eq_append_cons_of_mem hmem
  rw [cutFirst_append_of_not_mem hbefore] at h
  cases h

theorem cutLast_eq_some_iff {sep : Char} {s before after : List Char} :
    cutLast sep s = some (before, after) ↔ s = before ++ sep :: after ∧ sep ∉ after := by
  constructor
  · intro h
    obtain ⟨⟨a, b⟩, hcut, hhalves⟩ := Option.map_eq_some_iff.1 h
    cases hhalves
    obtain ⟨hs, hnot⟩ := cutFirst_eq_some_iff.1 hcut
    refine ⟨?_, fun hmem => hnot (List.mem_reverse.1 hmem)⟩
    rw [← List.reverse_reverse s, hs, List.reverse_append, List.reverse_cons, List.append_assoc]
    rfl
  · rintro ⟨rfl, h⟩
    have hreverse : (before ++ sep :: after).reverse = after.reverse ++ sep :: before.reverse := by
      rw [List.reverse_append, List.reverse_cons, List.append_assoc]
      rfl
    have hcut := cutFirst_append_of_not_mem (mt List.mem_reverse.1 h) before.reverse
    rw [← hreverse] at hcut
    rw [cutLast, hcut]
    simp only [Option.map_some, List.reverse_reverse]

theorem cutLast_eq_none_iff {sep : Char} {s : List Char} : cutLast sep s = none ↔ sep ∉ s := by
  rw [cutLast, Option.map_eq_none_iff, cutFirst_eq_none_iff, List.mem_reverse]

theorem not_isEmpty_of_cut {sep : Char} {s before after : List Char}
    (h : s = before ++ sep :: after) : ¬ s.isEmpty = true := by
  rw [h, List.isEmpty_iff]
  exact List.append_ne_nil_of_right_ne_nil before (List.cons_ne_nil sep after)

theorem eq_of_cutWord {word s before after : List Char}
    (h : cutWord word s = some (before, after)) : s = before ++ word ++ after := by
  induction s generalizing before with
  | nil =>
      simp only [cutWord] at h
      split at h
      · next hw =>
          simp only [Option.some.injEq, Prod.mk.injEq] at h
          simp [List.isEmpty_iff.1 hw, ← h.1, ← h.2]
      · exact absurd h (by simp)
  | cons c s ih =>
      simp only [cutWord] at h
      split at h
      · next hw =>
          simp only [Option.some.injEq, Prod.mk.injEq] at h
          obtain ⟨rest, hr⟩ := List.isPrefixOf_iff_prefix.1 hw
          rw [← h.1, ← h.2, ← hr]
          simp
      · simp only [Option.map_eq_some_iff, Prod.exists, Prod.mk.injEq] at h
        obtain ⟨b, a, hb, rfl, rfl⟩ := h
        rw [List.cons_append, List.cons_append, ← ih hb]

theorem split_ne_nil (sep : Char) (s : List Char) : split sep s ≠ [] := by
  cases s with
  | nil => simp [split]
  | cons c s =>
      simp only [split]
      split
      · simp
      · split <;> simp

theorem join_split (sep : Char) (s : List Char) : join sep (split sep s) = s := by
  induction s with
  | nil => rfl
  | cons c s ih =>
      simp only [split]
      split
      · next h =>
          cases hs : split sep s with
          | nil => exact absurd hs (split_ne_nil sep s)
          | cons part parts => rw [hs] at ih; simp [join, ih, h]
      · cases hs : split sep s with
        | nil => exact absurd hs (split_ne_nil sep s)
        | cons part parts =>
            rw [hs] at ih
            cases parts with
            | nil => simp only [join] at ih ⊢; rw [ih]
            | cons next parts => simp only [join, List.cons_append] at ih ⊢; rw [ih]

/-- There is one part more than there are separators. -/
theorem length_split (sep : Char) (s : List Char) : (split sep s).length = s.count sep + 1 := by
  induction s with
  | nil => rfl
  | cons c s ih =>
      rw [split]
      split
      · next hc => rw [List.length_cons, ih, hc, List.count_cons_self]
      · next hc =>
          rw [List.count_cons_of_ne hc, ← ih]
          split
          · next hs => exact absurd hs (split_ne_nil sep s)
          · next hs => rw [hs]; rfl

/-- No part of a split holds the separator. -/
theorem not_mem_of_mem_split {sep : Char} {s part : List Char} (h : part ∈ split sep s) :
    sep ∉ part := by
  induction s generalizing part with
  | nil =>
      rw [List.mem_singleton.1 h]
      exact List.not_mem_nil
  | cons c s ih =>
      rw [split] at h
      split at h
      · rcases List.mem_cons.1 h with rfl | h
        · exact List.not_mem_nil
        · exact ih h
      · next hc =>
          cases hs : split sep s with
          | nil => exact absurd hs (split_ne_nil sep s)
          | cons first parts =>
              rw [hs] at h ih
              rcases List.mem_cons.1 h with rfl | h
              · rw [List.mem_cons, not_or]
                exact ⟨Ne.symm hc, ih List.mem_cons_self⟩
              · exact ih (List.mem_cons_of_mem first h)

theorem split_of_not_mem {sep : Char} {s : List Char} (h : sep ∉ s) : split sep s = [s] := by
  induction s with
  | nil => rfl
  | cons c s ih =>
      rw [List.mem_cons, not_or] at h
      rw [split, if_neg (Ne.symm h.1), ih h.2]

/-- A part without the separator stands first, if the separator follows it. -/
theorem split_append {sep : Char} {part : List Char} (h : sep ∉ part) (s : List Char) :
    split sep (part ++ sep :: s) = part :: split sep s := by
  induction part with
  | nil => rw [List.nil_append, split, if_pos rfl]
  | cons c part ih =>
      rw [List.mem_cons, not_or] at h
      rw [List.cons_append, split, if_neg (Ne.symm h.1), ih h.2]

theorem split_join {sep : Char} {parts : List (List Char)} (hne : parts ≠ [])
    (h : ∀ part ∈ parts, sep ∉ part) : split sep (join sep parts) = parts := by
  induction parts with
  | nil => exact absurd rfl hne
  | cons part parts ih =>
      rw [List.forall_mem_cons] at h
      cases parts with
      | nil => exact split_of_not_mem h.1
      | cons next parts =>
          rw [join, split_append h.1, ih (List.cons_ne_nil _ _) h.2]
          exact List.cons_ne_nil next parts

theorem joinWith_splitOn (sep : Char) (s : String) : joinWith sep (splitOn sep s) = s := by
  have hparts : (splitOn sep s).map (·.toList) = split sep s.toList := by
    rw [splitOn, List.map_map]
    simp only [Function.comp_def, String.toList_ofList, List.map_id']
  rw [joinWith, hparts, join_split, String.ofList_toList]

/-- Parts without the separator are what their join splits into. -/
theorem splitOn_joinWith {sep : Char} {parts : List String} (hne : parts ≠ [])
    (h : ∀ part ∈ parts, sep ∉ part.toList) : splitOn sep (joinWith sep parts) = parts := by
  have hparts : ∀ part ∈ parts.map (·.toList), sep ∉ part := by
    intro part hpart
    obtain ⟨s, hs, rfl⟩ := List.mem_map.1 hpart
    exact h s hs
  rw [splitOn, joinWith, String.toList_ofList, split_join (by simpa using hne) hparts, List.map_map]
  simp only [Function.comp_def, String.ofList_toList, List.map_id']

end DocumentSink.Text
