/-!
Ordered records: names with values, in the order in which the names first came. Writing a name that
is there keeps its place. Main statements: a written name reads back, and every other name reads as
before.
-/

namespace DocumentSink

/-- Pairs of a name and a value; a name counts where it first stands. -/
abbrev Record (α : Type) := List (String × α)

namespace Record

variable {α : Type}

def get? (name : String) : Record α → Option α
  | [] => none
  | (n, v) :: r => if n = name then some v else get? name r

/-- Replaces the value of a name in its place, or appends the pair. -/
def put (name : String) (value : α) : Record α → Record α
  | [] => [(name, value)]
  | (n, v) :: r => if n = name then (n, value) :: r else (n, v) :: put name value r

def names (r : Record α) : List String := r.map (·.1)

theorem names_append (r s : Record α) : names (r ++ s) = r.names ++ s.names := List.map_append

/-- Writes all pairs of a second record, in order. -/
def putAll (r s : Record α) : Record α := s.foldl (fun r p => r.put p.1 p.2) r

@[simp] theorem get?_put_self (name : String) (value : α) (r : Record α) :
    get? name (put name value r) = some value := by
  induction r with
  | nil => simp [put, get?]
  | cons p r ih =>
      obtain ⟨n, v⟩ := p
      by_cases h : n = name <;> simp [put, get?, h, ih]

theorem get?_put_ne {name other : String} (h : other ≠ name) (value : α) (r : Record α) :
    get? other (put name value r) = get? other r := by
  induction r with
  | nil => simp [put, get?, Ne.symm h]
  | cons p r ih =>
      obtain ⟨n, v⟩ := p
      by_cases hn : n = name
      · subst hn; simp [put, get?, Ne.symm h]
      · by_cases ho : n = other
        · subst ho; simp [put, get?, h]
        · simp [put, get?, hn, ho, ih]

/-- A value that is written over itself changes nothing. -/
theorem put_of_get? {name : String} {value : α} {r : Record α} (h : get? name r = some value) :
    r.put name value = r := by
  induction r with
  | nil => cases h
  | cons p r ih =>
      obtain ⟨n, v⟩ := p
      rw [get?] at h
      rw [put]
      split at h
      · next hn =>
          cases h
          rw [if_pos hn]
      · next hn => rw [if_neg hn, ih h]

theorem put_ne_nil (name : String) (value : α) (r : Record α) : r.put name value ≠ [] := by
  intro h
  have := get?_put_self name value r
  rw [h] at this
  cases this

theorem mem_names_put {name n : String} {value : α} {r : Record α} :
    n ∈ (r.put name value).names ↔ n = name ∨ n ∈ r.names := by
  induction r with
  | nil => simp [put, names]
  | cons p r ih =>
      rw [put]
      split
      · next h => simp [names, h]
      · simp only [names, List.map_cons, List.mem_cons] at ih ⊢
        rw [ih]
        exact or_left_comm

theorem nodup_put {r : Record α} (h : r.names.Nodup) (name : String) (value : α) :
    (r.put name value).names.Nodup := by
  induction r with
  | nil => exact List.nodup_cons.2 ⟨List.not_mem_nil, List.nodup_nil⟩
  | cons p r ih =>
      have hp := List.nodup_cons.1 h
      rw [put]
      split
      · exact h
      · next hne =>
          refine List.nodup_cons.2 ⟨?_, ih hp.2⟩
          intro hm
          rcases mem_names_put.1 hm with hm | hm
          · exact hne hm
          · exact hp.1 hm

/-- The names of what is put one after another, each value with a view of what is there. -/
theorem mem_names_foldl_put {κ : Type} {key : κ → String} {value : Record α → κ → α} {keys : List κ}
    {r : Record α} {n : String} :
    n ∈ (keys.foldl (fun r k => r.put (key k) (value r k)) r).names ↔
      n ∈ r.names ∨ ∃ k ∈ keys, key k = n := by
  induction keys generalizing r with
  | nil => simp only [List.foldl_nil, List.not_mem_nil, false_and, exists_false, or_false]
  | cons k keys ih =>
      rw [List.foldl_cons, ih, mem_names_put, or_assoc, or_left_comm, eq_comm]
      simp only [List.mem_cons, or_and_right, exists_or, exists_eq_left]

theorem nodup_foldl_put {κ : Type} {key : κ → String} {value : Record α → κ → α} {keys : List κ}
    {r : Record α} (h : r.names.Nodup) :
    (keys.foldl (fun r k => r.put (key k) (value r k)) r).names.Nodup := by
  induction keys generalizing r with
  | nil => exact h
  | cons k keys ih => exact ih (nodup_put h _ _)

theorem get?_of_mem {name : String} {value : α} {r : Record α} (hr : r.names.Nodup)
    (h : (name, value) ∈ r) : r.get? name = some value := by
  induction r with
  | nil => cases h
  | cons p r ih =>
      rw [names, List.map_cons, List.nodup_cons] at hr
      rcases List.mem_cons.1 h with rfl | h
      · exact if_pos rfl
      · have hne : p.1 ≠ name := fun he => hr.1 (he ▸ List.mem_map_of_mem h)
        exact (if_neg hne).trans (ih hr.2 h)

theorem mem_of_get? {name : String} {value : α} {r : Record α} (h : r.get? name = some value) :
    (name, value) ∈ r := by
  induction r with
  | nil => cases h
  | cons p r ih =>
      rw [get?] at h
      split at h
      · next hn =>
          cases h
          exact List.mem_cons.2 (.inl (by rw [← hn]))
      · exact List.mem_cons_of_mem p (ih h)

theorem isSome_get? {name : String} {r : Record α} (h : name ∈ r.names) : (r.get? name).isSome := by
  induction r with
  | nil => exact absurd h List.not_mem_nil
  | cons p r ih =>
      rw [get?]
      split
      · rfl
      · next hne => exact ih ((List.mem_cons.1 h).resolve_left (Ne.symm hne))

theorem get?_append_of_not_mem {name : String} {r s : Record α} (h : name ∉ s.names) :
    get? name (r ++ s) = get? name r := by
  induction r with
  | nil =>
      induction s with
      | nil => rfl
      | cons p s ih =>
          rw [names, List.map_cons, List.mem_cons, not_or] at h
          exact (if_neg (Ne.symm h.1)).trans (ih h.2)
  | cons p r ih => rw [List.cons_append, get?, get?, ih]

theorem get?_eq_find? (name : String) (r : Record α) :
    get? name r = (r.find? fun p => p.1 = name).map (·.2) := by
  induction r with
  | nil => rfl
  | cons p r ih =>
      rw [get?, List.find?_cons]
      by_cases h : p.1 = name
      · simp [h]
      · simp [h, ih]

/-- What is found is found in any order, unless there is more than one to find. -/
theorem find?_perm {β : Type} {f : β → Bool} {l l' : List β} (h : l.Perm l')
    (hl : l'.countP f ≤ 1) : l.find? f = l'.find? f := by
  have hfilter := h.filter f
  rw [List.countP_eq_length_filter] at hl
  rw [← List.head?_filter, ← List.head?_filter]
  cases hf : l'.filter f with
  | nil =>
      rw [hf] at hfilter
      rw [hfilter.eq_nil]
  | cons b bs =>
      rw [hf, List.length_cons] at hl
      have hbs : bs = [] := List.eq_nil_of_length_eq_zero (by omega)
      rw [hf, hbs] at hfilter
      rw [hfilter.eq_singleton, hbs]

theorem get?_perm {r s : Record α} (h : r.Perm s) {name : String} (hs : s.names.count name ≤ 1) :
    get? name r = get? name s := by
  have hcount : (s.countP fun p => p.1 = name) ≤ 1 := by
    rw [names, List.count, List.countP_map] at hs
    exact hs
  rw [get?_eq_find?, get?_eq_find?, find?_perm h hcount]

theorem get?_filterMap_of_not_mem {κ : Type} {name : κ → String} {f : κ → Option α} {n : String}
    {keys : List κ} (h : n ∉ keys.map name) :
    get? n (keys.filterMap fun k => (f k).map (name k, ·)) = none := by
  induction keys with
  | nil => rfl
  | cons j keys ih =>
      simp only [List.map_cons, List.mem_cons, not_or] at h
      cases hf : f j <;> simp [hf, get?, Ne.symm h.1, ih h.2]

theorem names_filterMap_sublist {κ : Type} (name : κ → String) (f : κ → Option α) (keys : List κ) :
    (names (keys.filterMap fun k => (f k).map (name k, ·))).Sublist (keys.map name) := by
  induction keys with
  | nil => exact List.Sublist.slnil
  | cons k keys ih =>
      cases hf : f k with
      | none =>
          simp only [List.filterMap_cons, hf, Option.map_none, List.map_cons]
          exact ih.cons _
      | some v =>
          simp only [List.filterMap_cons, hf, Option.map_some, List.map_cons, names]
          exact ih.cons_cons _

theorem get?_filterMap_names (f : String → Option α) (names : List String) (n : String) :
    get? n (names.filterMap fun k => (f k).map (k, ·)) = if n ∈ names then f n else none := by
  induction names with
  | nil => rfl
  | cons k names ih =>
      by_cases hk : k = n
      · subst hk
        cases hf : f k <;> simp [hf, get?, ih]
      · cases hf : f k <;> simp [hf, get?, ih, hk, Ne.symm hk]

/-- A record of what some keys have, each under a name of its own. -/
theorem get?_filterMap {κ : Type} {name : κ → String} {f : κ → Option α} {keys : List κ}
    (h : (keys.map name).Nodup) {k : κ} (hk : k ∈ keys) :
    get? (name k) (keys.filterMap fun k => (f k).map (name k, ·)) = f k := by
  induction keys with
  | nil => exact absurd hk List.not_mem_nil
  | cons j keys ih =>
      rw [List.map_cons, List.nodup_cons] at h
      rcases List.mem_cons.1 hk with rfl | hk
      · cases hf : f k <;> simp [hf, get?, get?_filterMap_of_not_mem h.1]
      · have hne : name j ≠ name k := fun e => h.1 (e ▸ List.mem_map_of_mem hk)
        cases hf : f j <;> simp [hf, get?, hne, ih h.2 hk]

theorem get?_map {κ : Type} {name : κ → String} {f : κ → α} {keys : List κ}
    (h : (keys.map name).Nodup) {k : κ} (hk : k ∈ keys) :
    get? (name k) (keys.map fun k => (name k, f k)) = some (f k) := by
  have he : (keys.map fun k => (name k, f k)) =
      keys.filterMap fun k => (some (f k)).map (name k, ·) := by
    rw [← List.filterMap_eq_map]
    rfl
  rw [he]
  exact get?_filterMap h hk

end Record

end DocumentSink
