import DocumentSink.Proofs.Attributes
import DocumentSink.Store.Call

/-!
Memory and table. A table has the rows of a memory, with each value as its columns hold it: a flag is
its letter there. Every call keeps the two so, and the text of a value is the same in both; so no
run of calls can be told from the answers of the two.
-/

namespace DocumentSink.AttributeStore

/-- A value as a row of a table holds it. -/
def held (v : AttributeValue) : AttributeValue := v.columns.value

def heldRow (p : Row) : Row := (p.1, held p.2)

/-- An open table with the rows of a memory. -/
structure Mirrors (m t : AttributeStore) : Prop where
  memory : m.backend = .memory
  table : t.backend = .table
  isOpen : t.isOpen = true
  rows : t.attributes = m.attributes.map heldRow

/-- Two stores answer alike under the numbers that a table takes, and load alike. -/
structure Alike (s t : AttributeStore) : Prop where
  text : ∀ step number code, Numeral.isWord number →
    s.getText ⟨step, number, code⟩ = t.getText ⟨step, number, code⟩
  flag : ∀ step number code default, Numeral.isWord number →
    s.getFlag ⟨step, number, code⟩ default = t.getFlag ⟨step, number, code⟩ default
  count : ∀ step code, s.count step code = t.count step code
  has : ∀ step, s.has step = t.has step
  load : ∀ step, s.load step = t.load step

section Rows

@[simp] theorem written_held (v : AttributeValue) : (held v).written = v.written := by
  cases v <;> rfl

@[simp] theorem truth_held (default : Bool) (v : AttributeValue) :
    (held v).truth default = v.truth default := by
  cases v with
  | flag b => exact congrArg Except.ok (readFlag_flagToken default b)
  | _ => rfl

theorem valueAt_heldRows (rows : List Row) (k : AttributeKey) :
    valueAt (rows.map heldRow) k = (valueAt rows k).map held := by
  induction rows with
  | nil => rfl
  | cons p rows ih =>
      rw [List.map_cons, valueAt, valueAt, List.find?_cons, List.find?_cons]
      by_cases h : p.1 = k
      · simp [heldRow, h]
      · simpa [heldRow, h, valueAt] using ih

theorem insert_heldRows (k : AttributeKey) (v : AttributeValue) (rows : List Row) :
    insert k (held v) (rows.map heldRow) = (insert k v rows).map heldRow := by
  induction rows with
  | nil => rfl
  | cons p rows ih =>
      have hkey : (heldRow p).1 = p.1 := rfl
      rw [List.map_cons, insert, insert, hkey]
      by_cases h : p.1 = k
      · rw [if_pos h, if_pos h]
        rfl
      · rw [if_neg h, if_neg h, List.map_cons, ih]

theorem filter_heldRows (f : AttributeKey → Bool) (rows : List Row) :
    (rows.map heldRow).filter (fun p => f p.1) = (rows.filter fun p => f p.1).map heldRow :=
  List.filter_map

end Rows

section Calls

variable {m t : AttributeStore} {c : StoreCall} {calls : List StoreCall}

theorem Mirrors.admits (h : Mirrors m t) {ints : List Int} (hints : ∀ n ∈ ints, Numeral.isWord n) :
    m.Admits ints ∧ t.Admits ints := ⟨.inl h.memory, .inr ⟨h.isOpen, hints⟩⟩

theorem Mirrors.access (h : Mirrors m t) {α : Type} {ints : List Int}
    (hints : ∀ n ∈ ints, Numeral.isWord n) {a b : α} (hab : a = b) :
    m.access ints a = t.access ints b := by
  rw [access_eq_ok.2 ⟨(h.admits hints).1, rfl⟩, access_eq_ok.2 ⟨(h.admits hints).2, rfl⟩, hab]

/-- What a call makes of the rows of a store. -/
def rowsAfter (s : AttributeStore) : StoreCall → List Row
  | .put k v => insert k (s.backend.keep v) s.attributes
  | .delete step => s.attributes.filter fun p => p.1.step ≠ step

theorem call_of_admits {s : AttributeStore} (h : s.Admits c.ints) :
    s.call c = ({ s with attributes := s.rowsAfter c }, .ok ()) := by
  have hattempt : s.attempt c = .ok { s with attributes := s.rowsAfter c } := by
    cases c with
    | put k v => exact access_eq_ok.2 ⟨h, rfl⟩
    | delete step => exact access_eq_ok.2 ⟨h, rfl⟩
  rw [call, hattempt]

theorem Mirrors.rowsAfter (h : Mirrors m t) (c : StoreCall) :
    t.rowsAfter c = (m.rowsAfter c).map heldRow := by
  cases c with
  | put k v =>
      rw [AttributeStore.rowsAfter, AttributeStore.rowsAfter, h.memory, h.table, h.rows]
      exact insert_heldRows k v m.attributes
  | delete step =>
      rw [AttributeStore.rowsAfter, AttributeStore.rowsAfter, h.rows]
      exact filter_heldRows (fun k => k.step ≠ step) m.attributes

/-- A call whose integers a table takes is refused by neither store, and leaves the table with the
rows of the memory. -/
theorem Mirrors.call (h : Mirrors m t) (hc : ∀ n ∈ c.ints, Numeral.isWord n) :
    (m.call c).2 = .ok () ∧ (t.call c).2 = .ok () ∧ Mirrors (m.call c).1 (t.call c).1 := by
  rw [call_of_admits (h.admits hc).1, call_of_admits (h.admits hc).2]
  exact ⟨rfl, rfl, h.memory, h.table, h.isOpen, h.rowsAfter c⟩

theorem Mirrors.run (h : Mirrors m t) (hcalls : ∀ c ∈ calls, ∀ n ∈ c.ints, Numeral.isWord n) :
    (m.run calls).2 = calls.map (fun _ => .ok ()) ∧ (t.run calls).2 = calls.map (fun _ => .ok ()) ∧
      Mirrors (m.run calls).1 (t.run calls).1 := by
  induction calls generalizing m t with
  | nil => exact ⟨rfl, rfl, h⟩
  | cons c calls ih =>
      rw [List.forall_mem_cons] at hcalls
      obtain ⟨hm, ht, hnext⟩ := h.call hcalls.1
      obtain ⟨hms, hts, hlast⟩ := ih hnext hcalls.2
      rw [AttributeStore.run, AttributeStore.run]
      exact ⟨congrArg₂ _ hm hms, congrArg₂ _ ht hts, hlast⟩

end Calls

section Answers

variable {m t : AttributeStore}

theorem Mirrors.find? (h : Mirrors m t) (k : AttributeKey) :
    t.find? k = (m.find? k).map held := by
  have hvalue := valueAt_heldRows m.attributes k
  rw [← h.rows] at hvalue
  exact hvalue

theorem Mirrors.text (h : Mirrors m t) : t.text = m.text := by
  funext k
  rw [AttributeStore.text, AttributeStore.text, h.find?]
  cases m.find? k with
  | none => rfl
  | some v => exact congrArg (some <$> ·) (written_held v)

theorem Mirrors.flag (h : Mirrors m t) : t.flag = m.flag := by
  funext k default
  rw [AttributeStore.flag, AttributeStore.flag, h.find?]
  cases m.find? k with
  | none => rfl
  | some v => exact truth_held default v

theorem Mirrors.countOf (h : Mirrors m t) (step code : String) :
    t.countOf step code = m.countOf step code := by
  rw [AttributeStore.countOf, AttributeStore.countOf, h.rows, List.countP_map]
  rfl

theorem Mirrors.hasStep (h : Mirrors m t) (step : String) : t.hasStep step = m.hasStep step := by
  rw [AttributeStore.hasStep, AttributeStore.hasStep, h.rows, List.any_map]
  rfl

/-- A load looks at nothing but texts, flags and counts. -/
theorem loadStep_congr {s : AttributeStore} (htext : s.text = t.text) (hflag : s.flag = t.flag)
    {step : String} (hcount : s.countOf step = t.countOf step) :
    s.loadStep step = t.loadStep step := by
  have htextAt : s.textAt = t.textAt := by
    funext step n code
    rw [textAt, textAt, htext]
  have hflagAt : s.flagAt = t.flagAt := by
    funext step n code
    rw [flagAt, flagAt, hflag]
  have hrequire : s.requireFlag step = t.requireFlag step := by
    funext o
    rw [requireFlag, requireFlag, htext]
  have hfield : s.loadField step = t.loadField step := by
    funext n
    simp only [loadField, htextAt, hflagAt]
  have hindex : s.loadIndex step = t.loadIndex step := by
    funext n
    simp only [loadIndex, htextAt, hflagAt]
  simp only [loadStep, loadOptions, hrequire, htextAt, hflagAt, hcount, hfield, hindex]

theorem Mirrors.alike (h : Mirrors m t) : Alike m t := by
  have hnone : ∀ n ∈ ([] : List Int), Numeral.isWord n := List.forall_mem_nil _
  refine ⟨?_, ?_, ?_, ?_, ?_⟩
  · intro step number code hnumber
    rw [getText, getText, h.access (List.forall_mem_singleton.2 hnumber) rfl, h.text]
  · intro step number code default hnumber
    rw [getFlag, getFlag, h.access (List.forall_mem_singleton.2 hnumber) rfl, h.flag]
  · intro step code
    exact h.access hnone (h.countOf step code).symm
  · intro step
    exact h.access hnone (h.hasStep step).symm
  · intro step
    have hhas : m.has step = t.has step := h.access hnone (h.hasStep step).symm
    rw [load, load, hhas, loadStep_congr h.text h.flag (funext (h.countOf step))]

end Answers

theorem call_tooLarge {s : AttributeStore} (hbackend : s.backend = .table) (hopen : s.isOpen = true)
    {c : StoreCall} (hc : ∃ n ∈ c.ints, Numeral.isWord n = false) :
    s.call c = (s, .error .tooLarge) := by
  have haccess {α : Type} (a : α) : s.access c.ints a = .error .tooLarge := by
    have hall : ¬ c.ints.all Numeral.isWord := by
      obtain ⟨n, hn, hword⟩ := hc
      intro h
      rw [List.all_eq_true.1 h n hn] at hword
      cases hword
    have hmemory : s.backend ≠ .memory := by
      rw [hbackend]
      decide
    rw [access, if_neg hmemory, hopen, if_neg (by decide), if_neg hall]
  have hattempt : s.attempt c = .error .tooLarge := by
    cases c with
    | put k v => exact haccess _
    | delete step => exact haccess _
  rw [call, hattempt]

/-- A run of calls with integers of 64 bits leaves a memory and a table, both empty at first, that
answer alike and load alike, and neither refuses a call. A table refuses any other integer, and stays
as it is. -/
theorem alike_run (calls : List StoreCall) (hcalls : ∀ c ∈ calls, ∀ n ∈ c.ints, Numeral.isWord n) :
    (run { backend := .memory } calls).2 = calls.map (fun _ => .ok ()) ∧
      (run { backend := .table } calls).2 = calls.map (fun _ => .ok ()) ∧
      Alike (run { backend := .memory } calls).1 (run { backend := .table } calls).1 ∧
      ∀ k v, (∃ n ∈ (StoreCall.put k v).ints, Numeral.isWord n = false) →
        (run { backend := .table } calls).1.call (.put k v) =
          ((run { backend := .table } calls).1, .error .tooLarge) := by
  have hstart : Mirrors { backend := .memory } { backend := .table } := ⟨rfl, rfl, rfl, rfl⟩
  obtain ⟨hm, ht, hmirrors⟩ := hstart.run hcalls
  refine ⟨hm, ht, hmirrors.alike, ?_⟩
  intro k v hlarge
  exact call_tooLarge hmirrors.table hmirrors.isOpen hlarge

/-- Values of each type in place of one of another, at the ends of the 64 bits, and a step that goes
and comes back. -/
def mixedCalls : List StoreCall := [
  .put ⟨"a", 0, "truncate"⟩ (.flag true), .put ⟨"a", 0, "port"⟩ (.int (-9223372036854775808)),
  .put ⟨"a", 9223372036854775807, "port"⟩ (.text " y "), .put ⟨"a", 0, "truncate"⟩ (.text "no"),
  .put ⟨"b", -1, "x"⟩ (.int 1), .delete "a", .put ⟨"a", 0, "port"⟩ (.flag false),
  .put ⟨"b", -1, "x"⟩ (.flag true)]

theorem alike_run_mixed :
    let m := (run { backend := .memory } mixedCalls).1
    let t := (run { backend := .table } mixedCalls).1
    (∀ c ∈ mixedCalls, ∀ n ∈ c.ints, Numeral.isWord n) ∧ Alike m t ∧
      m.attributes ≠ t.attributes ∧
      t.call (.put ⟨"b", -1, "x"⟩ (.int 9223372036854775808)) = (t, .error .tooLarge) := by
  intro m t
  have hcalls : ∀ c ∈ mixedCalls, ∀ n ∈ c.ints, Numeral.isWord n := by decide +kernel
  obtain ⟨-, -, halike, hrefused⟩ := alike_run mixedCalls hcalls
  refine ⟨hcalls, halike, ?_, ?_⟩
  · decide +kernel
  · exact hrefused _ _ ⟨9223372036854775808, by decide, by decide⟩

end DocumentSink.AttributeStore
