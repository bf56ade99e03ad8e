import DocumentSink.Proofs.Stored
import Mathlib.Data.List.Induction
import Mathlib.Data.List.Nodup

/-!
Saving and loading. All that a store answers about a step is read from the step's own rows, and a
save leaves there the rows of one content and no others. So a run of saves leaves under each step
its last definition, and under every other step what stood there.
-/

namespace DocumentSink

namespace AttributeStore

abbrev Row := AttributeKey × AttributeValue

def rowsAt (step : String) (n : Nat) (r : Record AttributeValue) : List Row :=
  r.map fun p => (⟨step, n, p.1⟩, p.2)

/-- The rows of records under the positions from a number on. -/
def listRows (step : String) (n : Nat) : List (Record AttributeValue) → List Row
  | [] => []
  | r :: rs => rowsAt step n r ++ listRows step (n + 1) rs

def asTexts (r : Record String) : Record AttributeValue := r.map fun p => (p.1, .text p.2)

def contentRows (step : String) (c : Step) : List Row :=
  rowsAt step 0 (asTexts c.options) ++ listRows step 0 (c.fields.map asTexts) ++
    listRows step 0 (c.indexes.map asTexts)

/-- The rows of a definition, with flags as flags. -/
def definitionRows (step : String) (d : Definition) : List Row :=
  rowsAt step 0 (optionValues d.write) ++ listRows step 0 (d.mappings.map fieldValues) ++
    listRows step 0 (d.indexes.map indexValues)

/-- A row with the text of its value. -/
def plainRow (p : Row) : Row := (p.1, .text p.2.plain)

/-- A row as a store keeps it. -/
def keptRow (b : Backend) (p : Row) : Row := (p.1, b.keep p.2)

def rowsOf (s : AttributeStore) (step : String) : List Row :=
  s.attributes.filter fun p => p.1.step = step

/-- Under a step a store has the rows of a content and no others, in any order. -/
def Keeps (s : AttributeStore) (step : String) (c : Step) : Prop :=
  (s.rowsOf step).Perm (contentRows step c)

/-- Under a step a store has values with the texts of a content and no others, in any order. -/
def Shows (s : AttributeStore) (step : String) (c : Step) : Prop :=
  ((s.rowsOf step).map plainRow).Perm (contentRows step c)

def saved (s : AttributeStore) (step : String) (d : Definition) : AttributeStore :=
  { s with attributes :=
      (s.without step).attributes ++ (definitionRows step d).map (keptRow s.backend) }

/-- Whether a store answers an access with some integers. -/
def Admits (s : AttributeStore) (ints : List Int) : Prop :=
  s.backend = .memory ∨ s.isOpen ∧ ∀ n ∈ ints, Numeral.isWord n

/-- Whether a store can hold a definition: a table has to be open, and counts with 64 bits. -/
def Takes (s : AttributeStore) (d : Definition) : Prop :=
  s.backend = .memory ∨ s.isOpen ∧ d.mappings.length ≤ Nat.pow 2 63 ∧
    d.indexes.length ≤ Nat.pow 2 63

def saveAll (s : AttributeStore) (saves : List (String × Definition)) :
    Except StoreFault AttributeStore :=
  saves.foldlM (fun s p => s.save p.1 p.2) s

def lastSaved (step : String) (saves : List (String × Definition)) : Option Definition :=
  saves.foldl (fun last p => if p.1 = step then some p.2 else last) none

/-- Two stores give the same answers about a step. -/
structure SameAnswers (step : String) (s t : AttributeStore) : Prop where
  text : ∀ number code, s.getText ⟨step, number, code⟩ = t.getText ⟨step, number, code⟩
  flag : ∀ number code default,
    s.getFlag ⟨step, number, code⟩ default = t.getFlag ⟨step, number, code⟩ default
  count : ∀ code, s.count step code = t.count step code
  has : s.has step = t.has step

section Answers

variable {s t : AttributeStore} {step : String}

theorem access_eq_ok {α : Type} {ints : List Int} {a b : α} :
    s.access ints a = .ok b ↔ s.Admits ints ∧ b = a := by
  have hok : (Except.ok a : Except StoreFault α) = .ok b ↔ b = a := by
    rw [Except.ok.injEq, eq_comm]
  rw [access]
  split
  · next hm => exact hok.trans ⟨fun h => ⟨.inl hm, h⟩, fun h => h.2⟩
  · next hm =>
      split
      · next ho =>
          rw [Bool.not_eq_true'] at ho
          simp [Admits, hm, ho]
      · next ho =>
          rw [Bool.not_eq_true', Bool.not_eq_false] at ho
          split
          · next hi =>
              exact hok.trans ⟨fun h => ⟨.inr ⟨ho, List.all_eq_true.1 hi⟩, h⟩, fun h => h.2⟩
          · next hi =>
              refine ⟨fun h => (by cases h), ?_⟩
              rintro ⟨h | h, -⟩
              · exact absurd h hm
              · exact absurd (List.all_eq_true.2 h.2) hi

/-- Without integers, only a closed table refuses an access. -/
theorem access_eq_error {α : Type} {a : α} {fault : StoreFault} :
    s.access [] a = .error fault ↔ ¬ s.Admits [] ∧ fault = .closed := by
  by_cases hm : s.backend = .memory
  · simp [access, Admits, hm]
  · by_cases ho : s.isOpen = true
    · simp [access, Admits, hm, ho]
    · rw [access, if_neg hm, if_pos (by simpa using ho), Except.error.injEq, eq_comm]
      have hnot : ¬ s.Admits [] := by
        rintro (h | ⟨h, -⟩)
        · exact hm h
        · exact ho h
      exact ⟨fun h => ⟨hnot, h⟩, fun h => h.2⟩

theorem find?_eq_rowsOf (s : AttributeStore) (k : AttributeKey) :
    s.find? k = ((s.rowsOf k.step).find? fun p => p.1 = k).map (·.2) := by
  rw [find?, rowsOf, List.find?_filter]
  congr 2
  funext p
  by_cases h : p.1 = k <;> simp [h]

theorem countOf_eq_rowsOf (s : AttributeStore) (step code : String) :
    s.countOf step code = (s.rowsOf step).countP fun p => p.1.code = code := by
  rw [countOf, rowsOf, List.countP_filter]
  congr 1
  funext p
  rw [Bool.and_comm]

theorem hasStep_eq_rowsOf (s : AttributeStore) (step : String) :
    s.hasStep step = !(s.rowsOf step).isEmpty := by
  rw [hasStep, rowsOf]
  induction s.attributes with
  | nil => rfl
  | cons p ps ih => by_cases h : p.1.step = step <;> simp [h, ih]

/-- What a store answers about a step is read from the rows of the step. -/
theorem sameAnswers_of_rows (hbackend : s.backend = t.backend) (hopen : s.isOpen = t.isOpen)
    (h : s.rowsOf step = t.rowsOf step) : SameAnswers step s t := by
  have haccess {α : Type} (ints : List Int) (a : α) : s.access ints a = t.access ints a := by
    rw [access, access, hbackend, hopen]
  have hfind (number : Int) (code : String) :
      s.find? ⟨step, number, code⟩ = t.find? ⟨step, number, code⟩ := by
    rw [find?_eq_rowsOf, find?_eq_rowsOf]
    simp only [h]
  refine ⟨?_, ?_, ?_, ?_⟩
  · intro number code
    rw [getText, getText, haccess, text, text, hfind]
  · intro number code default
    rw [getFlag, getFlag, haccess, flag, flag, hfind]
  · intro code
    rw [count, count, countOf_eq_rowsOf, countOf_eq_rowsOf, h]
    exact haccess _ _
  · rw [has, has, hasStep_eq_rowsOf, hasStep_eq_rowsOf, h]
    exact haccess _ _

theorem legible_of_rows (h : ∀ p ∈ s.rowsOf step, p.2.isLong = false) : s.Legible step := by
  intro number code
  rw [isLongAt, find?_eq_rowsOf]
  cases hrow : (s.rowsOf step).find? fun p => p.1 = ⟨step, number, code⟩ with
  | none => rfl
  | some p => exact h p (List.mem_of_find?_eq_some hrow)

end Answers

section Rows

def valueAt (rows : List Row) (k : AttributeKey) : Option AttributeValue :=
  (rows.find? fun p => p.1 = k).map (·.2)

variable {step : String} {rows : List Row}

theorem valueAt_append (ps qs : List Row) (k : AttributeKey) :
    valueAt (ps ++ qs) k = (valueAt ps k).or (valueAt qs k) := by
  rw [valueAt, List.find?_append, Option.map_or]
  rfl

theorem valueAt_of_not_mem {k : AttributeKey} (h : k ∉ rows.map (·.1)) : valueAt rows k = none := by
  rw [valueAt, Option.map_eq_none_iff, List.find?_eq_none]
  intro p hp hk
  exact h (of_decide_eq_true hk ▸ List.mem_map_of_mem hp)

theorem key_of_mem_rowsAt {n : Nat} {r : Record AttributeValue} {k : AttributeKey}
    (h : k ∈ (rowsAt step n r).map (·.1)) : k.step = step ∧ k.number = n ∧ k.code ∈ r.names := by
  rw [rowsAt, List.map_map] at h
  obtain ⟨p, hp, rfl⟩ := List.mem_map.1 h
  exact ⟨rfl, rfl, List.mem_map_of_mem hp⟩

theorem key_of_mem_listRows {n : Nat} {rs : List (Record AttributeValue)} {k : AttributeKey}
    (h : k ∈ (listRows step n rs).map (·.1)) :
    k.step = step ∧ (n : Int) ≤ k.number ∧ k.number < n + rs.length ∧
      ∃ r ∈ rs, k.code ∈ r.names := by
  induction rs generalizing n with
  | nil => exact absurd h List.not_mem_nil
  | cons r rs ih =>
      rw [listRows, List.map_append] at h
      rw [List.length_cons]
      rcases List.mem_append.1 h with h | h
      · obtain ⟨hstep, hnumber, hcode⟩ := key_of_mem_rowsAt h
        exact ⟨hstep, by omega, by omega, r, List.mem_cons_self, hcode⟩
      · obtain ⟨hstep, hlow, hhigh, r', hr', hcode⟩ := ih h
        exact ⟨hstep, by omega, by omega, r', List.mem_cons_of_mem r hr', hcode⟩

theorem valueAt_rowsAt (step : String) (n : Nat) (r : Record AttributeValue) (code : String) :
    valueAt (rowsAt step n r) ⟨step, n, code⟩ = r.get? code := by
  induction r with
  | nil => rfl
  | cons p r ih =>
      have hrows : rowsAt step n (p :: r) = (⟨step, n, p.1⟩, p.2) :: rowsAt step n r := rfl
      rw [hrows]
      by_cases h : p.1 = code
      · simp [valueAt, Record.get?, h]
      · simpa [valueAt, Record.get?, h] using ih

theorem valueAt_listRows (step : String) (n i : Nat) (rs : List (Record AttributeValue))
    (code : String) : valueAt (listRows step n rs) ⟨step, (n + i : Nat), code⟩ =
      rs[i]?.bind (·.get? code) := by
  induction rs generalizing n i with
  | nil => rfl
  | cons r rs ih =>
      rw [listRows, valueAt_append]
      cases i with
      | zero =>
          have hrest : valueAt (listRows step (n + 1) rs) ⟨step, (n + 0 : Nat), code⟩ = none := by
            apply valueAt_of_not_mem
            intro h
            have hlow := (key_of_mem_listRows h).2.1
            simp only at hlow
            omega
          rw [hrest, Option.or_none, Nat.add_zero, valueAt_rowsAt]
          rfl
      | succ i =>
          have hfirst : valueAt (rowsAt step n r) ⟨step, (n + (i + 1) : Nat), code⟩ = none := by
            apply valueAt_of_not_mem
            intro h
            have hnumber := (key_of_mem_rowsAt h).2.1
            simp only at hnumber
            omega
          have hnext : n + (i + 1) = n + 1 + i := by omega
          rw [hfirst, Option.none_or, hnext, ih]
          rfl

theorem countP_rowsAt (step : String) (n : Nat) (r : Record AttributeValue) (code : String) :
    ((rowsAt step n r).countP fun p => p.1.code = code) = r.names.count code := by
  rw [rowsAt, List.countP_map, List.count, Record.names, List.countP_map]
  rfl

/-- A code that each record has equally often counts the records. -/
theorem countP_listRows {n k : Nat} {rs : List (Record AttributeValue)} {code : String}
    (hrs : ∀ r ∈ rs, r.names.count code = k) :
    ((listRows step n rs).countP fun p => p.1.code = code) = rs.length * k := by
  induction rs generalizing n with
  | nil => exact (Nat.zero_mul _).symm
  | cons r rs ih =>
      rw [List.forall_mem_cons] at hrs
      rw [listRows, List.countP_append, countP_rowsAt, hrs.1, ih hrs.2, List.length_cons,
        Nat.succ_mul, Nat.add_comm]

theorem nodup_rowsAt {n : Nat} {r : Record AttributeValue} (h : r.names.Nodup) :
    ((rowsAt step n r).map (·.1)).Nodup := by
  have hcodes : ((rowsAt step n r).map (·.1)).map (·.code) = r.names := by
    simp [rowsAt, Record.names]
  exact List.Nodup.of_map _ (hcodes ▸ h)

theorem nodup_listRows {n : Nat} {rs : List (Record AttributeValue)}
    (h : ∀ r ∈ rs, r.names.Nodup) :
    ((listRows step n rs).map (·.1)).Nodup := by
  induction rs generalizing n with
  | nil => exact List.nodup_nil
  | cons r rs ih =>
      rw [List.forall_mem_cons] at h
      rw [listRows, List.map_append, List.nodup_append]
      refine ⟨nodup_rowsAt h.1, ih h.2, ?_⟩
      rintro k hk _ hl rfl
      have hnumber := (key_of_mem_rowsAt hk).2.1
      have hlow := (key_of_mem_listRows hl).2.1
      omega

end Rows

section Content

variable {step : String} {c : Step}

theorem not_mem_of_mem {codes codes' : List String} (h : (codes ++ codes').Nodup) {code : String}
    (hc : code ∈ codes) : code ∉ codes' :=
  fun hc' => (List.nodup_append.1 h).2.2 code hc code hc' rfl

theorem optionCode_not_other {code : String} (h : code ∈ Step.optionCodes) :
    code ∉ Step.fieldCodes ∧ code ∉ Step.indexCodes := by
  have hn := Step.codes_nodup
  rw [List.append_assoc] at hn
  have := not_mem_of_mem hn h
  rw [List.mem_append, not_or] at this
  exact this

theorem fieldCode_not_index {code : String} (h : code ∈ Step.fieldCodes) :
    code ∉ Step.indexCodes := by
  have hn := Step.codes_nodup
  exact not_mem_of_mem hn (List.mem_append_right _ h)

@[simp] theorem names_asTexts (r : Record String) : (asTexts r).names = r.names := by
  rw [Record.names, asTexts, List.map_map]
  rfl

theorem get?_asTexts (r : Record String) (code : String) :
    (asTexts r).get? code = (r.get? code).map .text := by
  rw [Record.get?_eq_find?, Record.get?_eq_find?, asTexts, List.find?_map, Option.map_map,
    Option.map_map]
  rfl

theorem code_of_mem_texts {n : Nat} {rs : List (Record String)} {codes : List String}
    (hrs : ∀ r ∈ rs, Step.HasCodes codes r) {k : AttributeKey}
    (h : k ∈ (listRows step n (rs.map asTexts)).map (·.1)) : k.code ∈ codes := by
  obtain ⟨-, -, -, r, hr, hcode⟩ := key_of_mem_listRows h
  obtain ⟨q, hq, rfl⟩ := List.mem_map.1 hr
  rw [names_asTexts] at hcode
  exact (hrs q hq).subset _ hcode

theorem code_of_mem_options (hc : c.Coded) {k : AttributeKey}
    (h : k ∈ (rowsAt step 0 (asTexts c.options)).map (·.1)) : k.code ∈ Step.optionCodes := by
  have hcode := (key_of_mem_rowsAt h).2.2
  rw [names_asTexts] at hcode
  exact hc.options.subset _ hcode

theorem code_of_mem_fields (hc : c.Coded) {n : Nat} {k : AttributeKey}
    (h : k ∈ (listRows step n (c.fields.map asTexts)).map (·.1)) : k.code ∈ Step.fieldCodes :=
  code_of_mem_texts (fun r hr => (hc.fields r hr).1) h

theorem code_of_mem_indexes (hc : c.Coded) {n : Nat} {k : AttributeKey}
    (h : k ∈ (listRows step n (c.indexes.map asTexts)).map (·.1)) : k.code ∈ Step.indexCodes :=
  code_of_mem_texts (fun r hr => (hc.indexes r hr).1) h

theorem nodup_listTexts {n : Nat} {rs : List (Record String)} {codes : List String}
    (hrs : ∀ r ∈ rs, Step.HasCodes codes r) :
    ((listRows step n (rs.map asTexts)).map (·.1)).Nodup := by
  apply nodup_listRows
  intro r hr
  obtain ⟨q, hq, rfl⟩ := List.mem_map.1 hr
  rw [names_asTexts]
  exact (hrs q hq).nodup

theorem nodup_contentRows (hc : c.Coded) : ((contentRows step c).map (·.1)).Nodup := by
  have hoptions : ((rowsAt step 0 (asTexts c.options)).map (·.1)).Nodup :=
    nodup_rowsAt (names_asTexts c.options ▸ hc.options.nodup)
  have hfields : ((listRows step 0 (c.fields.map asTexts)).map (·.1)).Nodup :=
    nodup_listTexts fun r hr => (hc.fields r hr).1
  have hindexes : ((listRows step 0 (c.indexes.map asTexts)).map (·.1)).Nodup :=
    nodup_listTexts fun r hr => (hc.indexes r hr).1
  rw [contentRows, List.map_append, List.map_append, List.nodup_append, List.nodup_append]
  refine ⟨⟨hoptions, hfields, ?_⟩, hindexes, ?_⟩
  · rintro k ho _ hf rfl
    exact (optionCode_not_other (code_of_mem_options hc ho)).1 (code_of_mem_fields hc hf)
  · rintro k h _ hi rfl
    rcases List.mem_append.1 h with ho | hf
    · exact (optionCode_not_other (code_of_mem_options hc ho)).2 (code_of_mem_indexes hc hi)
    · exact fieldCode_not_index (code_of_mem_fields hc hf) (code_of_mem_indexes hc hi)

theorem step_of_mem_contentRows {k : AttributeKey} (h : k ∈ (contentRows step c).map (·.1)) :
    k.step = step := by
  rw [contentRows, List.map_append, List.map_append, List.mem_append, List.mem_append] at h
  rcases h with (h | h) | h
  · exact (key_of_mem_rowsAt h).1
  · exact (key_of_mem_listRows h).1
  · exact (key_of_mem_listRows h).1

variable {s : AttributeStore}

theorem valueAt_plainRows (rows : List Row) (k : AttributeKey) :
    valueAt (rows.map plainRow) k = (valueAt rows k).map fun v => .text v.plain := by
  rw [valueAt, valueAt, List.find?_map, Option.map_map, Option.map_map]
  rfl

/-- A record of values as their texts. -/
def plains (r : Record AttributeValue) : Record String := r.map fun p => (p.1, p.2.plain)

theorem plains_asTexts (r : Record String) : plains (asTexts r) = r := by
  rw [plains, asTexts, List.map_map]
  exact List.map_id r

theorem map_plainRow_rowsAt (step : String) (n : Nat) (r : Record AttributeValue) :
    (rowsAt step n r).map plainRow = rowsAt step n (asTexts (plains r)) := by
  rw [rowsAt, rowsAt, asTexts, plains, List.map_map, List.map_map, List.map_map]
  rfl

theorem map_plainRow_listRows (step : String) (n : Nat) (rs : List (Record AttributeValue)) :
    (listRows step n rs).map plainRow = listRows step n ((rs.map plains).map asTexts) := by
  induction rs generalizing n with
  | nil => rfl
  | cons r rs ih =>
      rw [listRows, List.map_append, map_plainRow_rowsAt, ih, List.map_cons, List.map_cons, listRows]

theorem map_plainRow_contentRows (step : String) (c : Step) :
    (contentRows step c).map plainRow = contentRows step c := by
  have hplains : plains ∘ asTexts = id := funext plains_asTexts
  simp only [contentRows, List.map_append, map_plainRow_rowsAt, map_plainRow_listRows,
    plains_asTexts, List.map_map, hplains, Function.comp_id]

theorem Keeps.shows (h : s.Keeps step c) : s.Shows step c := by
  have hrows := h.map plainRow
  rw [map_plainRow_contentRows] at hrows
  exact hrows

/-- What a store answers under a step is what the rows of the content hold, in whatever order it
has them. -/
theorem text?_of_shows (hc : c.Coded) (h : s.Shows step c) {number : Int} {code : String}
    {t : Option String}
    (ht : valueAt (contentRows step c) ⟨step, number, code⟩ = t.map .text) :
    s.text? ⟨step, number, code⟩ = t := by
  have hcount : ((contentRows step c).countP fun p => p.1 = ⟨step, number, code⟩) ≤ 1 := by
    have hkeys : ((contentRows step c).map (·.1)).count ⟨step, number, code⟩ ≤ 1 :=
      List.nodup_iff_count_le_one.1 (nodup_contentRows hc) _
    rw [List.count, List.countP_map] at hkeys
    exact hkeys
  have hvalue : (s.text? ⟨step, number, code⟩).map AttributeValue.text = t.map .text := by
    rw [← ht, text?, find?_eq_rowsOf, Option.map_map]
    refine (valueAt_plainRows (s.rowsOf step) ⟨step, number, code⟩).symm.trans ?_
    rw [valueAt, valueAt, Record.find?_perm h hcount]
  exact Option.map_injective (fun _ _ => AttributeValue.text.inj) hvalue

theorem countOf_of_shows (h : s.Shows step c) (code : String) :
    s.countOf step code = (contentRows step c).countP fun p => p.1.code = code := by
  rw [countOf_eq_rowsOf, ← h.countP_eq, List.countP_map]
  rfl

/-- Records at their positions are found among rows with other codes. -/
theorem valueAt_among {rs : List (Record String)} {codes : List String} {before after : List Row}
    (hbefore : ∀ k ∈ before.map (·.1), k.code ∉ codes)
    (hafter : ∀ k ∈ after.map (·.1), k.code ∉ codes) {code : String} (hcode : code ∈ codes)
    (i : Nat) :
    valueAt (before ++ listRows step 0 (rs.map asTexts) ++ after) ⟨step, i, code⟩ =
      (rs[i]?.bind (·.get? code)).map .text := by
  have hlist := valueAt_listRows step 0 i (rs.map asTexts) code
  rw [Nat.zero_add] at hlist
  rw [valueAt_append, valueAt_append, valueAt_of_not_mem fun hm => hbefore _ hm hcode,
    valueAt_of_not_mem fun hm => hafter _ hm hcode, Option.none_or, Option.or_none, hlist,
    List.getElem?_map]
  cases rs[i]? with
  | none => rfl
  | some r => exact get?_asTexts r code

/-- Among rows with other codes, the code that every record has once counts them. -/
theorem countP_among {rs : List (Record String)} {codes : List String} {before after : List Row}
    (hbefore : ∀ k ∈ before.map (·.1), k.code ∉ codes)
    (hafter : ∀ k ∈ after.map (·.1), k.code ∉ codes) {leading : String} (hleading : leading ∈ codes)
    (hrs : ∀ r ∈ rs, Step.HasCodes codes r ∧ leading ∈ r.names) :
    ((before ++ listRows step 0 (rs.map asTexts) ++ after).countP fun p => p.1.code = leading) =
      rs.length := by
  have hnone : ∀ rows : List Row, (∀ k ∈ rows.map (·.1), k.code ∉ codes) →
      (rows.countP fun p => p.1.code = leading) = 0 := by
    intro rows h
    rw [List.countP_eq_zero]
    intro p hp hcode
    exact h p.1 (List.mem_map_of_mem hp) (of_decide_eq_true hcode ▸ hleading)
  have hone : ∀ r ∈ rs.map asTexts, r.names.count leading = 1 := by
    intro r hr
    obtain ⟨q, hq, rfl⟩ := List.mem_map.1 hr
    rw [names_asTexts]
    exact List.count_eq_one_of_mem (hrs q hq).1.nodup (hrs q hq).2
  rw [List.countP_append, List.countP_append, hnone before hbefore, hnone after hafter,
    countP_listRows hone, List.length_map]
  omega

/-- A store that counts some records and has each at its position reads them back. -/
theorem entries_agree {rs : List (Record String)} {codes : List String} {leading : String}
    (hleading : leading ∈ codes) (hcount : s.countOf step leading = rs.length)
    (htext : ∀ code ∈ codes, ∀ i : Nat, s.text? ⟨step, i, code⟩ = rs[i]?.bind (·.get? code))
    (hrs : ∀ r ∈ rs, Step.HasCodes codes r ∧ leading ∈ r.names) :
    List.Forall₂ (Step.SameAt codes) (s.entries step leading codes) rs := by
  rw [entries, hcount, List.forall₂_iff_get]
  refine ⟨by rw [List.length_map, List.length_range], ?_⟩
  intro i hi hi' code hcode
  have ht : s.text? ⟨step, i, code⟩ = rs[i].get? code := by
    rw [htext code hcode, List.getElem?_eq_getElem hi', Option.bind_some]
  rw [List.get_eq_getElem, List.get_eq_getElem, List.getElem_map, List.getElem_range]
  by_cases hne : code = leading
  · subst hne
    obtain ⟨t, hleads⟩ :=
      Option.isSome_iff_exists.1 (Record.isSome_get? (hrs _ (List.getElem_mem hi')).2)
    rw [get?_entryAt_leading, ht, hleads, Option.getD_some]
  · rw [get?_entryAt s step hcode hne, ht]

/-- Rows with the texts of a content are read back as texts that agree with it, code by code. -/
theorem content_agrees (hc : c.Coded) (h : s.Shows step c) : (s.content step).Agrees c := by
  have hoptions : Step.SameAt Step.optionCodes (s.recordAt step 0 Step.optionCodes) c.options := by
    intro code hcode
    rw [get?_recordAt s step 0 hcode]
    apply text?_of_shows hc h
    have hfields : valueAt (listRows step 0 (c.fields.map asTexts)) ⟨step, 0, code⟩ = none :=
      valueAt_of_not_mem fun hm => (optionCode_not_other hcode).1 (code_of_mem_fields hc hm)
    have hindexes : valueAt (listRows step 0 (c.indexes.map asTexts)) ⟨step, 0, code⟩ = none :=
      valueAt_of_not_mem fun hm => (optionCode_not_other hcode).2 (code_of_mem_indexes hc hm)
    have hvalue : valueAt (rowsAt step 0 (asTexts c.options)) ⟨step, 0, code⟩ =
        (asTexts c.options).get? code := valueAt_rowsAt step 0 (asTexts c.options) code
    rw [contentRows, valueAt_append, valueAt_append, hfields, hindexes, Option.or_none,
      Option.or_none, hvalue, get?_asTexts]
  have hfields : List.Forall₂ (Step.SameAt Step.fieldCodes)
      (s.entries step FieldPart.incomingName.code Step.fieldCodes) c.fields := by
    have hbefore : ∀ k ∈ (rowsAt step 0 (asTexts c.options)).map (·.1),
        k.code ∉ Step.fieldCodes :=
      fun k hk => (optionCode_not_other (code_of_mem_options hc hk)).1
    have hafter : ∀ k ∈ (listRows step 0 (c.indexes.map asTexts)).map (·.1),
        k.code ∉ Step.fieldCodes :=
      fun k hk hf => fieldCode_not_index hf (code_of_mem_indexes hc hk)
    have hleading := Step.mem_fieldCodes .incomingName
    apply entries_agree hleading
    · rw [countOf_of_shows h]
      exact countP_among hbefore hafter hleading hc.fields
    · intro code hcode i
      exact text?_of_shows hc h (valueAt_among hbefore hafter hcode i)
    · exact hc.fields
  have hindexes : List.Forall₂ (Step.SameAt Step.indexCodes)
      (s.entries step IndexPart.fieldSpec.code Step.indexCodes) c.indexes := by
    have hrows : contentRows step c = rowsAt step 0 (asTexts c.options) ++
        listRows step 0 (c.fields.map asTexts) ++ listRows step 0 (c.indexes.map asTexts) ++ [] :=
      (List.append_nil _).symm
    have hbefore : ∀ k ∈ (rowsAt step 0 (asTexts c.options) ++
        listRows step 0 (c.fields.map asTexts)).map (·.1), k.code ∉ Step.indexCodes := by
      intro k hk
      rw [List.map_append, List.mem_append] at hk
      rcases hk with hk | hk
      · exact (optionCode_not_other (code_of_mem_options hc hk)).2
      · exact fieldCode_not_index (code_of_mem_fields hc hk)
    have hafter : ∀ k ∈ ([] : List Row).map (·.1), k.code ∉ Step.indexCodes :=
      fun _ hk => absurd hk List.not_mem_nil
    have hleading := Step.mem_indexCodes .fieldSpec
    apply entries_agree hleading
    · rw [countOf_of_shows h, hrows]
      exact countP_among hbefore hafter hleading hc.indexes
    · intro code hcode i
      apply text?_of_shows hc h
      rw [hrows]
      exact valueAt_among hbefore hafter hcode i
    · exact hc.indexes
  exact ⟨hoptions, hfields, hindexes⟩

/-- An open store that has the texts of a content, and nothing without a text, loads what the
content stands for. -/
theorem loadStep_of_shows (hc : c.Coded) (h : s.Shows step c) (hlegible : s.Legible step) :
    s.loadStep step = c.definition.mapError .ofContent := by
  rw [hlegible.loadStep, (content_agrees hc h).definition]

end Content

section Saving

variable {s s' : AttributeStore} {step : String} {d : Definition}

def putRows (s : AttributeStore) (rows : List Row) : Except StoreFault AttributeStore :=
  rows.foldlM (fun s p => s.put p.1 p.2) s

theorem putRows_append (s : AttributeStore) (ps qs : List Row) :
    s.putRows (ps ++ qs) = s.putRows ps >>= (putRows · qs) := List.foldlM_append

theorem putAll_eq (s : AttributeStore) (step : String) (n : Nat) (r : Record AttributeValue) :
    s.putAll step n r = s.putRows (rowsAt step n r) := by
  rw [putRows, rowsAt, List.foldlM_map]
  rfl

theorem putLists_eq (s : AttributeStore) (step : String) (n : Nat)
    (rs : List (Record AttributeValue)) :
    s.putLists step n rs = s.putRows (listRows step n rs) := by
  induction rs generalizing s n with
  | nil => rfl
  | cons r rs ih =>
      rw [putLists, listRows, putRows_append, putAll_eq]
      congr 1
      funext t
      exact ih t (n + 1)

/-- A save drops the rows of the step and puts those of the definition. -/
theorem save_eq (s : AttributeStore) (step : String) (d : Definition) :
    s.save step d = s.delete step >>= (putRows · (definitionRows step d)) := by
  have hoptions (t : AttributeStore) (r : Record AttributeValue) :
      t.putAll step 0 r = t.putRows (rowsAt step 0 r) := putAll_eq t step 0 r
  simp only [save, definitionRows, putRows_append, hoptions, putLists_eq, bind_assoc]

theorem plains_optionValues (w : WriteOptions) :
    plains (optionValues w) = Step.ofWriteOptions w := by
  rw [plains, optionValues, List.map_filterMap, Step.ofWriteOptions, Step.optionsOf]
  congr 1
  funext k
  obtain ⟨o, isOptional⟩ := k
  dsimp only
  split
  · rfl
  · cases o <;> rfl

/-- The rows of a definition have the texts of its content. -/
theorem map_plainRow_definitionRows (step : String) (d : Definition) :
    (definitionRows step d).map plainRow = contentRows step (.ofDefinition d) := by
  have hfields : (d.mappings.map fieldValues).map plains = d.mappings.map Step.ofMapping := by
    rw [List.map_map]
    rfl
  have hindexes : (d.indexes.map indexValues).map plains = d.indexes.map Step.ofIndex := by
    rw [List.map_map]
    rfl
  rw [definitionRows, List.map_append, List.map_append, map_plainRow_rowsAt, map_plainRow_listRows,
    map_plainRow_listRows, plains_optionValues, hfields, hindexes]
  rfl

theorem keys_definitionRows (step : String) (d : Definition) :
    (definitionRows step d).map (·.1) = (contentRows step (.ofDefinition d)).map (·.1) := by
  rw [← map_plainRow_definitionRows, List.map_map]
  rfl

/-- A saved value is no integer. -/
theorem intsOf_of_mem_definitionRows {p : Row} (h : p ∈ definitionRows step d) :
    intsOf p.2 = [] := by
  have hrow {n : Nat} {r : Record AttributeValue} (hr : ∀ q ∈ r, intsOf q.2 = [])
      (hp : p ∈ rowsAt step n r) : intsOf p.2 = [] := by
    obtain ⟨q, hq, rfl⟩ := List.mem_map.1 hp
    exact hr q hq
  have hlist {n : Nat} {rs : List (Record AttributeValue)}
      (hrs : ∀ r ∈ rs, ∀ q ∈ r, intsOf q.2 = []) (hp : p ∈ listRows step n rs) :
      intsOf p.2 = [] := by
    induction rs generalizing n with
    | nil => exact absurd hp List.not_mem_nil
    | cons r rs ih =>
        obtain ⟨hr, hrs⟩ := List.forall_mem_cons.1 hrs
        rcases List.mem_append.1 hp with hp | hp
        · exact hrow hr hp
        · exact ih hrs hp
  rw [definitionRows, List.mem_append, List.mem_append] at h
  rcases h with (h | h) | h
  · refine hrow ?_ h
    intro q hq
    obtain ⟨⟨o, isOptional⟩, -, hk⟩ := List.mem_filterMap.1 hq
    dsimp only at hk
    split at hk
    · cases hk
    · cases hk
      cases o <;> rfl
  · refine hlist ?_ h
    intro r hr q hq
    obtain ⟨m, -, rfl⟩ := List.mem_map.1 hr
    obtain ⟨part, -, rfl⟩ := List.mem_map.1 hq
    cases part <;> rfl
  · refine hlist ?_ h
    intro r hr q hq
    obtain ⟨i, -, rfl⟩ := List.mem_map.1 hr
    obtain ⟨part, -, rfl⟩ := List.mem_map.1 hq
    cases part <;> rfl

@[simp] theorem plain_keep (b : Backend) (v : AttributeValue) : (b.keep v).plain = v.plain := by
  cases b with
  | memory => rfl
  | table => cases v <;> rfl

theorem isLong_keep (b : Backend) (v : AttributeValue) : (b.keep v).isLong = v.isLong := by
  cases b with
  | memory => rfl
  | table => cases v <;> rfl

theorem map_plainRow_kept (b : Backend) (rows : List Row) :
    (rows.map (keptRow b)).map plainRow = rows.map plainRow := by
  rw [List.map_map]
  congr 1
  funext p
  exact Prod.ext rfl (congrArg AttributeValue.text (plain_keep b p.2))

theorem insert_of_not_mem {k : AttributeKey} {ps : List Row} (h : k ∉ ps.map (·.1))
    (v : AttributeValue) : insert k v ps = ps ++ [(k, v)] := by
  induction ps with
  | nil => rfl
  | cons p ps ih =>
      rw [List.map_cons, List.mem_cons, not_or] at h
      rw [insert, if_neg (Ne.symm h.1), ih h.2, List.cons_append]

/-- Rows with new keys are put at the end, as the store keeps them. -/
theorem putRows_eq_ok {rows : List Row} (hnodup : (rows.map (·.1)).Nodup)
    (hnew : ∀ k ∈ rows.map (·.1), k ∉ s.attributes.map (·.1)) :
    s.putRows rows = .ok s' ↔ (∀ p ∈ rows, s.Admits (p.1.number :: intsOf p.2)) ∧
      s' = { s with attributes := s.attributes ++ rows.map (keptRow s.backend) } := by
  induction rows generalizing s with
  | nil =>
      rw [List.map_nil, List.append_nil, putRows, List.foldlM_nil, pure_eq_ok, Except.ok.injEq,
        eq_comm]
      exact ⟨fun h => ⟨List.forall_mem_nil _, h⟩, fun h => h.2⟩
  | cons p rows ih =>
      rw [List.map_cons, List.nodup_cons] at hnodup
      rw [List.map_cons, List.forall_mem_cons] at hnew
      have hput : ∀ t, s.put p.1 p.2 = .ok t ↔ s.Admits (p.1.number :: intsOf p.2) ∧
          t = { s with attributes := s.attributes ++ [keptRow s.backend p] } := by
        intro t
        rw [put, access_eq_ok, insert_of_not_mem hnew.1]
        rfl
      have hrest := @ih { s with attributes := s.attributes ++ [keptRow s.backend p] } hnodup.2 (by
        intro k hk hm
        rw [List.map_append, List.mem_append] at hm
        rcases hm with hm | hm
        · exact hnew.2 k hk hm
        · have he : k = p.1 := List.mem_singleton.1 hm
          exact hnodup.1 (he ▸ hk))
      rw [putRows, List.foldlM_cons, bind_eq_ok, List.forall_mem_cons]
      constructor
      · rintro ⟨t, ht, hs⟩
        obtain ⟨hp, rfl⟩ := (hput t).1 ht
        obtain ⟨hps, rfl⟩ := hrest.1 hs
        exact ⟨⟨hp, hps⟩, by simp⟩
      · rintro ⟨⟨hp, hps⟩, rfl⟩
        exact ⟨_, (hput _).2 ⟨hp, rfl⟩, hrest.2 ⟨hps, by simp⟩⟩

theorem isWord_iff {n : Int} (h : 0 ≤ n) : Numeral.isWord n ↔ n < Nat.pow 2 63 := by
  rw [Numeral.isWord, Bool.and_eq_true, decide_eq_true_eq, decide_eq_true_eq]
  omega

theorem exists_last_row {n : Nat} {rs : List (Record AttributeValue)} (hne : ∀ r ∈ rs, r ≠ [])
    (h : rs ≠ []) : ∃ p ∈ listRows step n rs, p.1.number = (n + rs.length - 1 : Nat) := by
  induction rs generalizing n with
  | nil => exact absurd rfl h
  | cons r rs ih =>
      rw [List.forall_mem_cons] at hne
      rcases rs.eq_nil_or_concat with rfl | hrs
      · obtain ⟨p, r', rfl⟩ := List.exists_cons_of_ne_nil hne.1
        refine ⟨_, List.mem_append_left _ List.mem_cons_self, rfl⟩
      · have hcons : rs ≠ [] := by
          rintro rfl
          simp at hrs
        obtain ⟨p, hp, hnumber⟩ := ih (n := n + 1) hne.2 hcons
        refine ⟨p, List.mem_append_right _ hp, ?_⟩
        rw [hnumber, List.length_cons]
        congr 1
        omega

theorem forall_isWord_listRows {rs : List (Record AttributeValue)} (hne : ∀ r ∈ rs, r ≠ []) :
    (∀ p ∈ listRows step 0 rs, Numeral.isWord p.1.number) ↔ rs.length ≤ Nat.pow 2 63 := by
  constructor
  · intro h
    by_cases hrs : rs = []
    · rw [hrs]
      exact Nat.zero_le _
    · obtain ⟨p, hp, hnumber⟩ := exists_last_row (n := 0) hne hrs
      have hword := h p hp
      rw [hnumber, isWord_iff (by omega)] at hword
      omega
  · intro h p hp
    obtain ⟨-, hlow, hhigh, -⟩ := key_of_mem_listRows (List.mem_map_of_mem hp)
    rw [isWord_iff (by omega)]
    omega

/-- A store can hold a definition exactly when it answers all accesses of a save. -/
theorem takes_iff (step : String) : s.Takes d ↔ s.Admits [] ∧
    ∀ p ∈ definitionRows step d, s.Admits (p.1.number :: intsOf p.2) := by
  have hfields : (∀ p ∈ listRows step 0 (d.mappings.map fieldValues),
      Numeral.isWord p.1.number) ↔ d.mappings.length ≤ Nat.pow 2 63 := by
    rw [forall_isWord_listRows, List.length_map]
    intro r hr
    obtain ⟨m, -, rfl⟩ := List.mem_map.1 hr
    exact List.cons_ne_nil _ _
  have hindexes : (∀ p ∈ listRows step 0 (d.indexes.map indexValues),
      Numeral.isWord p.1.number) ↔ d.indexes.length ≤ Nat.pow 2 63 := by
    rw [forall_isWord_listRows, List.length_map]
    intro r hr
    obtain ⟨i, -, rfl⟩ := List.mem_map.1 hr
    exact List.cons_ne_nil _ _
  by_cases hm : s.backend = .memory
  · constructor
    · intro _
      exact ⟨.inl hm, fun _ _ => .inl hm⟩
    · intro _
      exact .inl hm
  · have hadmits (ints : List Int) :
        s.Admits ints ↔ s.isOpen ∧ ∀ n ∈ ints, Numeral.isWord n := or_iff_right hm
    rw [Takes, or_iff_right hm, ← hfields, ← hindexes]
    constructor
    · rintro ⟨ho, hf, hi⟩
      refine ⟨(hadmits _).2 ⟨ho, List.forall_mem_nil _⟩, ?_⟩
      intro p hp
      rw [intsOf_of_mem_definitionRows hp]
      refine (hadmits _).2 ⟨ho, List.forall_mem_singleton.2 ?_⟩
      rw [definitionRows, List.mem_append, List.mem_append] at hp
      rcases hp with (hp | hp) | hp
      · rw [(key_of_mem_rowsAt (List.mem_map_of_mem hp)).2.1]
        decide
      · exact hf p hp
      · exact hi p hp
    · rintro ⟨h0, hrows⟩
      have hwords (p : Row) (hp : p ∈ definitionRows step d) :
          Numeral.isWord p.1.number :=
        ((hadmits _).1 (hrows p hp)).2 _ List.mem_cons_self
      refine ⟨((hadmits _).1 h0).1, fun p hp => hwords p ?_, fun p hp => hwords p ?_⟩
      · exact List.mem_append_left _ (List.mem_append_right _ hp)
      · exact List.mem_append_right _ hp

theorem save_eq_ok : s.save step d = .ok s' ↔ s.Takes d ∧ s' = s.saved step d := by
  have hnodup : ((definitionRows step d).map (·.1)).Nodup :=
    keys_definitionRows step d ▸ nodup_contentRows (Step.coded_ofDefinition d)
  have hnew : ∀ k ∈ (definitionRows step d).map (·.1),
      k ∉ (s.without step).attributes.map (·.1) := by
    intro k hk hm
    rw [keys_definitionRows] at hk
    obtain ⟨p, hp, rfl⟩ := List.mem_map.1 hm
    have hne := of_decide_eq_true (List.mem_filter.1 hp).2
    exact hne (step_of_mem_contentRows hk)
  have hput := @putRows_eq_ok (s.without step) s' _ hnodup hnew
  rw [save_eq, bind_eq_ok, takes_iff step]
  constructor
  · rintro ⟨t, ht, hs⟩
    obtain ⟨h0, rfl⟩ := access_eq_ok.1 ht
    obtain ⟨hrows, rfl⟩ := hput.1 hs
    exact ⟨⟨h0, hrows⟩, rfl⟩
  · rintro ⟨⟨h0, hrows⟩, rfl⟩
    exact ⟨_, access_eq_ok.2 ⟨h0, rfl⟩, hput.2 ⟨hrows, rfl⟩⟩

theorem step_of_mem_saved {b : Backend} {p : Row}
    (h : p ∈ (definitionRows step d).map (keptRow b)) : p.1.step = step := by
  obtain ⟨q, hq, rfl⟩ := List.mem_map.1 h
  have hkey : q.1 ∈ (definitionRows step d).map (·.1) := List.mem_map_of_mem hq
  rw [keys_definitionRows] at hkey
  exact step_of_mem_contentRows hkey

theorem rowsOf_saved (s : AttributeStore) (step : String) (d : Definition) :
    (s.saved step d).rowsOf step = (definitionRows step d).map (keptRow s.backend) := by
  have hold : ((s.without step).attributes.filter fun p => p.1.step = step) = [] := by
    rw [List.filter_eq_nil_iff]
    intro p hp
    simpa using (List.mem_filter.1 hp).2
  have hnew : (((definitionRows step d).map (keptRow s.backend)).filter fun p => p.1.step = step) =
      (definitionRows step d).map (keptRow s.backend) :=
    List.filter_eq_self.2 fun p hp => decide_eq_true (step_of_mem_saved hp)
  rw [rowsOf, saved, List.filter_append, hold, hnew, List.nil_append]

theorem rowsOf_saved_ne {other : String} (h : other ≠ step) (s : AttributeStore) (d : Definition) :
    (s.saved step d).rowsOf other = s.rowsOf other := by
  have hold : ((s.without step).attributes.filter fun p => p.1.step = other) =
      s.attributes.filter fun p => p.1.step = other := by
    rw [without, List.filter_filter]
    congr 1
    funext p
    by_cases hp : p.1.step = other <;> simp [hp, h]
  have hnew : (((definitionRows step d).map (keptRow s.backend)).filter
      fun p => p.1.step = other) = [] := by
    rw [List.filter_eq_nil_iff]
    intro p hp he
    exact h (of_decide_eq_true he ▸ step_of_mem_saved hp)
  rw [rowsOf, saved, List.filter_append, hold, hnew, List.append_nil, rowsOf]

/-- A step with rows is there. -/
theorem hasStep_of_shows {c : Step} (h : s.Shows step c) (hne : c.options ≠ []) :
    s.hasStep step = true := by
  rw [hasStep_eq_rowsOf, Bool.not_eq_true', List.isEmpty_eq_false_iff]
  intro hrows
  rw [Shows, hrows] at h
  have hnil := h.nil_eq
  rw [contentRows, eq_comm, List.append_eq_nil_iff, List.append_eq_nil_iff] at hnil
  exact hne (List.map_eq_nil_iff.1 (List.map_eq_nil_iff.1 hnil.1.1))

/-- The rows of a definition load as that definition, settled. -/
theorem load_of_rows (hadmits : s.Admits [])
    (hrows : s.rowsOf step = (definitionRows step d).map (keptRow s.backend))
    (hp : Password.isMistakable d.write.password = false) :
    s.load step = .ok (Step.settled d) := by
  have hshows : s.Shows step (.ofDefinition d) := by
    rw [Shows, hrows, map_plainRow_kept, map_plainRow_definitionRows]
  have hlegible : s.Legible step := by
    apply legible_of_rows
    rw [hrows]
    intro p hp
    obtain ⟨q, hq, rfl⟩ := List.mem_map.1 hp
    have hints := intsOf_of_mem_definitionRows hq
    rw [keptRow, isLong_keep]
    cases hv : q.2 with
    | int n =>
        rw [hv] at hints
        cases hints
    | _ => rfl
  have hflag : (Step.ofWriteOptions d.write) ≠ [] := by
    intro h
    have := Step.get?_flag d.write .truncate
    rw [h] at this
    cases this
  have hhas : s.has step = .ok true :=
    access_eq_ok.2 ⟨hadmits, (hasStep_of_shows hshows hflag).symm⟩
  rw [load, hhas, mapError_ok, ok_bind, if_neg (by decide),
    loadStep_of_shows (Step.coded_ofDefinition d) hshows hlegible,
    Step.definition_ofDefinition hp, mapError_ok]

end Saving

section Runs

variable {s s' : AttributeStore} {saves : List (String × Definition)}

def savedAll (s : AttributeStore) (saves : List (String × Definition)) : AttributeStore :=
  saves.foldl (fun s p => s.saved p.1 p.2) s

theorem savedAll_access (s : AttributeStore) (saves : List (String × Definition)) :
    (s.savedAll saves).backend = s.backend ∧ (s.savedAll saves).isOpen = s.isOpen := by
  induction saves generalizing s with
  | nil => exact ⟨rfl, rfl⟩
  | cons p saves ih => exact ih (s.saved p.1 p.2)

theorem saveAll_eq_ok :
    s.saveAll saves = .ok s' ↔ (∀ p ∈ saves, s.Takes p.2) ∧ s' = s.savedAll saves := by
  induction saves generalizing s with
  | nil =>
      rw [saveAll, List.foldlM_nil, pure_eq_ok, Except.ok.injEq, eq_comm]
      exact ⟨fun h => ⟨List.forall_mem_nil _, h⟩, fun h => h.2⟩
  | cons p saves ih =>
      rw [saveAll, List.foldlM_cons, bind_eq_ok, List.forall_mem_cons]
      constructor
      · rintro ⟨t, ht, hs⟩
        obtain ⟨hp, rfl⟩ := save_eq_ok.1 ht
        obtain ⟨hps, rfl⟩ := ih.1 hs
        exact ⟨⟨hp, hps⟩, rfl⟩
      · rintro ⟨⟨hp, hps⟩, rfl⟩
        exact ⟨_, save_eq_ok.2 ⟨hp, rfl⟩, ih.2 ⟨hps, rfl⟩⟩

theorem lastSaved_concat (step : String) (saves : List (String × Definition))
    (p : String × Definition) :
    lastSaved step (saves ++ [p]) = if p.1 = step then some p.2 else lastSaved step saves := by
  rw [lastSaved, List.foldl_append]
  rfl

theorem savedAll_concat (s : AttributeStore) (saves : List (String × Definition))
    (p : String × Definition) :
    s.savedAll (saves ++ [p]) = (s.savedAll saves).saved p.1 p.2 := by
  rw [savedAll, List.foldl_append]
  rfl

theorem mem_of_lastSaved {step : String} {d : Definition} (h : lastSaved step saves = some d) :
    (step, d) ∈ saves := by
  induction saves using List.reverseRecOn with
  | nil => cases h
  | append_singleton saves p ih =>
      rw [lastSaved_concat] at h
      split at h
      · next hp =>
          cases h
          exact List.mem_append_right _ (hp ▸ List.mem_singleton_self _)
      · exact List.mem_append_left _ (ih h)

/-- After a run, a step has the rows of what was saved last there, or else those it had. -/
theorem rowsOf_savedAll (s : AttributeStore) (saves : List (String × Definition)) (step : String) :
    (s.savedAll saves).rowsOf step =
      ((lastSaved step saves).map fun d =>
        (definitionRows step d).map (keptRow s.backend)).getD (s.rowsOf step) := by
  induction saves using List.reverseRecOn with
  | nil => rfl
  | append_singleton saves p ih =>
      rw [savedAll_concat, lastSaved_concat]
      split
      · next hp =>
          rw [hp, rowsOf_saved, (savedAll_access s saves).1]
          rfl
      · next hp => rw [rowsOf_saved_ne (Ne.symm hp), ih]

/-- A run of saves succeeds when the store can hold what is saved. After it, every step that was
saved loads what was saved there last, settled, and every other step has the answers it had. -/
theorem load_saveAll (s : AttributeStore) (saves : List (String × Definition)) :
    ((∃ s', s.saveAll saves = .ok s') ↔ ∀ p ∈ saves, s.Takes p.2) ∧
      ∀ s', s.saveAll saves = .ok s' →
        (∀ step d, lastSaved step saves = some d →
          Password.isMistakable d.write.password = false →
            s'.load step = .ok (Step.settled d)) ∧
        ∀ step, lastSaved step saves = none → SameAnswers step s' s := by
  refine ⟨⟨fun ⟨s', h⟩ => (saveAll_eq_ok.1 h).1, fun h => ⟨_, saveAll_eq_ok.2 ⟨h, rfl⟩⟩⟩, ?_⟩
  intro s' hs
  obtain ⟨htakes, rfl⟩ := saveAll_eq_ok.1 hs
  have haccess := savedAll_access s saves
  constructor
  · intro step d hlast hp
    have hrows := rowsOf_savedAll s saves step
    rw [hlast] at hrows
    have hadmits : (s.savedAll saves).Admits [] := by
      rw [Admits, haccess.1, haccess.2]
      exact ((takes_iff step).1 (htakes _ (mem_of_lastSaved hlast))).1
    exact load_of_rows hadmits (haccess.1.symm ▸ hrows) hp
  · intro step hlast
    have hrows := rowsOf_savedAll s saves step
    rw [hlast] at hrows
    exact sameAnswers_of_rows haccess.1 haccess.2 hrows

/-- An open table with more entries under one step than are saved there, and with a code that means
nothing. -/
def untidy : AttributeStore where
  backend := .table
  attributes := [
    (⟨"a", 0, "incoming_field_name"⟩, .text "old"), (⟨"a", 1, "incoming_field_name"⟩, .int 7),
    (⟨"a", 2, "incoming_field_name"⟩, .flag true), (⟨"a", 1, "path_to_fields"⟩, .text "old"),
    (⟨"b", 0, "no_code"⟩, .flag false)]

theorem load_saveAll_untidy :
    let first : Definition := { mappings := [{ incomingName := "x" }, { incomingName := "y" }] }
    let last : Definition := {
      write := { password := "\x00key", writeRetries := "", writeRetryDelay := "" }
      mappings := [{ incomingName := "", isFragment := true }] }
    let saves := [("a", first), ("c", first), ("a", last)]
    ∃ s', untidy.saveAll saves = .ok s' ∧ lastSaved "a" saves = some last ∧
      s'.load "a" = .ok { last with write := { last.write with
        password := "key", writeRetries := "5", writeRetryDelay := "10" } } ∧
      SameAnswers "b" s' untidy := by
  intro first last saves
  have htakes : ∀ p ∈ saves, untidy.Takes p.2 := by
    unfold Takes
    decide +kernel
  obtain ⟨s', hs⟩ := (load_saveAll untidy saves).1.2 htakes
  obtain ⟨hsaved, hkept⟩ := (load_saveAll untidy saves).2 s' hs
  have hsettled : Step.settled last = { last with write := { last.write with
      password := "key", writeRetries := "5", writeRetryDelay := "10" } } := by
    decide +kernel
  exact ⟨s', hs, rfl, hsettled ▸ hsaved "a" last rfl (by decide), hkept "b" rfl⟩

end Runs

end AttributeStore

end DocumentSink
