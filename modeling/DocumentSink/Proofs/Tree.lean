import DocumentSink.Document.Draft
import DocumentSink.Proofs.Except
import Mathlib.Tactic.Common

/-!
Values put at the end of a path of names. Where no value that is no object stands on the way, the
value is found at the end of the path, every place on the way holds an object, and all other places
keep what they have.
-/

namespace DocumentSink

open Draft (Blocked)

namespace Value

/-- The members of the object at the end of a path; none where there is no object. -/
def membersAt (path : List String) (m : Record Value) : Record Value :=
  match lookup path (.object m) with
  | some (.object ms) => ms
  | _ => []

def blocks (k : String) (m : Record Value) : Bool := (Record.get? k m).any (!·.isObject)

/-- Writes a value under a key of the object at the end of a path, with the objects on the way to it
where they are missing. `depth` names came before the path. -/
def putAt (key : String) (v : Value) (m : Record Value) (depth : Nat) :
    List String → Except Blocked (Record Value)
  | [] => .ok (m.put key v)
  | k :: path =>
    if blocks k m then .error ⟨k, depth⟩
    else do return m.put k (.object (← putAt key v (membersAt [k] m) (depth + 1) path))

/-- A value that is no object stands at the end of a path. -/
def IsLeaf (doc : Value) (path : List String) (v : Value) : Prop :=
  doc.lookup path = some v ∧ v.isObject = false

/-- No name stands twice in one object, and no object below the first is empty. -/
structure IsTrim (doc : Value) : Prop where
  nodup : ∀ path ms, doc.lookup path = some (.object ms) → (Record.names ms).Nodup
  nonempty : ∀ path ms, doc.lookup path = some (.object ms) → path ≠ [] → ms ≠ []

section Lookup

theorem lookup_append (p q : List String) (v : Value) :
    lookup (p ++ q) v = (lookup p v).bind (lookup q) := by
  induction p generalizing v with
  | nil => rfl
  | cons k p ih =>
      cases v with
      | object ms =>
          simp only [List.cons_append, lookup]
          cases Record.get? k ms with
          | none => rfl
          | some w => exact ih w
      | _ => rfl

theorem lookup_of_not_object {v : Value} (h : v.isObject = false) {path : List String}
    (hpath : path ≠ []) : lookup path v = none := by
  cases path with
  | nil => exact absurd rfl hpath
  | cons k path =>
      cases v with
      | object ms => cases h
      | _ => rfl

theorem lookup_empty {path : List String} (h : path ≠ []) : lookup path (.object []) = none := by
  cases path with
  | nil => exact absurd rfl h
  | cons k path => rfl

/-- No leaf stands below another. -/
theorem IsLeaf.eq_of_prefix {doc v w : Value} {p q : List String} (hp : doc.IsLeaf p v)
    (hq : doc.IsLeaf q w) (h : p <+: q) : p = q := by
  obtain ⟨r, rfl⟩ := h
  by_contra hne
  have hr : r ≠ [] := by
    rintro rfl
    exact hne (List.append_nil p).symm
  have hlookup := hq.1
  rw [lookup_append, hp.1, Option.bind_some, lookup_of_not_object hp.2 hr] at hlookup
  cases hlookup

end Lookup

section Put

variable {key k : String} {v : Value} {m m' : Record Value} {depth : Nat} {path : List String}

theorem putAt_cons_eq_ok :
    putAt key v m depth (k :: path) = .ok m' ↔ blocks k m = false ∧
      ∃ inner, putAt key v (membersAt [k] m) (depth + 1) path = .ok inner ∧
        m' = m.put k (.object inner) := by
  rw [putAt]
  cases blocks k m with
  | true => simp
  | false =>
      simp only [Bool.false_eq_true, if_false, bind_eq_ok, pure_eq_ok, Except.ok.injEq, true_and]
      apply exists_congr
      intro inner
      exact and_congr_right' eq_comm

theorem lookup_singleton (k : String) (m : Record Value) :
    lookup [k] (.object m) = Record.get? k m := by
  rw [lookup]
  cases Record.get? k m <;> rfl

theorem lookup_membersAt (h : blocks k m = false) {q : List String} (hq : q ≠ []) :
    lookup q (.object (membersAt [k] m)) = lookup (k :: q) (.object m) := by
  rw [membersAt, lookup_singleton, lookup]
  cases hget : Record.get? k m with
  | none => exact lookup_empty hq
  | some w =>
      cases w with
      | object ms => rfl
      | _ =>
          rw [blocks, hget] at h
          cases h

theorem membersAt_cons (h : blocks k m = false) (q : List String) :
    membersAt (k :: q) m = membersAt q (membersAt [k] m) := by
  cases q with
  | nil => rfl
  | cons j q => rw [membersAt, membersAt, lookup_membersAt h (List.cons_ne_nil j q)]

theorem lookup_put_self (k : String) (w : Value) (m : Record Value) (q : List String) :
    lookup (k :: q) (.object (m.put k w)) = lookup q w := by
  rw [lookup, Record.get?_put_self]
  rfl

theorem lookup_put_ne {n : String} (h : n ≠ k) (w : Value) (m : Record Value) (q : List String) :
    lookup (n :: q) (.object (m.put k w)) = lookup (n :: q) (.object m) := by
  rw [lookup, lookup, Record.get?_put_ne h]

/-- The value is found at the end of its path. -/
theorem lookup_putAt_append (h : putAt key v m depth path = .ok m') (q : List String) :
    lookup (path ++ key :: q) (.object m') = lookup q v := by
  induction path generalizing m m' depth with
  | nil =>
      cases h
      exact lookup_put_self key v m q
  | cons k path ih =>
      obtain ⟨-, inner, hinner, rfl⟩ := putAt_cons_eq_ok.1 h
      rw [List.cons_append, lookup_put_self]
      exact ih hinner

/-- A place that is neither on the way nor below the value keeps what it has. -/
theorem lookup_putAt_of_apart (h : putAt key v m depth path = .ok m') {q : List String}
    (hbelow : ¬ path ++ [key] <+: q) (habove : ¬ q <+: path) :
    lookup q (.object m') = lookup q (.object m) := by
  induction path generalizing m m' depth q with
  | nil =>
      cases h
      cases q with
      | nil => exact absurd List.nil_prefix habove
      | cons n q =>
          have hne : n ≠ key := by
            rintro rfl
            exact hbelow ⟨q, rfl⟩
          exact lookup_put_ne hne v m q
  | cons k path ih =>
      obtain ⟨hblock, inner, hinner, rfl⟩ := putAt_cons_eq_ok.1 h
      cases q with
      | nil => exact absurd List.nil_prefix habove
      | cons n q =>
          by_cases hn : n = k
          · subst hn
            rw [List.cons_append, List.cons_prefix_cons, not_and] at hbelow
            rw [List.cons_prefix_cons, not_and] at habove
            have hq : q ≠ [] := by
              rintro rfl
              exact habove rfl List.nil_prefix
            rw [lookup_put_self, ih hinner (hbelow rfl) (habove rfl), lookup_membersAt hblock hq]
          · exact lookup_put_ne hn _ m q

theorem lookup_putAt_of_prefix (h : putAt key v m depth path = .ok m') {q : List String}
    (hq : q <+: path) :
    ∃ n w, lookup q (.object m') = some (.object ((membersAt q m).put n w)) := by
  induction path generalizing m m' depth q with
  | nil =>
      cases h
      rw [List.prefix_nil.1 hq]
      exact ⟨key, v, rfl⟩
  | cons k path ih =>
      obtain ⟨hblock, inner, hinner, rfl⟩ := putAt_cons_eq_ok.1 h
      cases q with
      | nil => exact ⟨k, .object inner, rfl⟩
      | cons n q =>
          obtain ⟨rfl, hrest⟩ := List.cons_prefix_cons.1 hq
          rw [lookup_put_self, membersAt_cons hblock]
          exact ih hinner hrest

theorem blocks_iff : blocks k m = true ↔ ∃ w, IsLeaf (.object m) [k] w := by
  rw [blocks]
  simp only [IsLeaf, lookup_singleton]
  cases Record.get? k m with
  | none => simp
  | some w => simp

/-- A leaf on the way is the fault, and there is no other. -/
theorem putAt_eq_error {b : Blocked} : putAt key v m depth path = .error b ↔
    ∃ q w, q ++ [b.key] <+: path ∧ IsLeaf (.object m) (q ++ [b.key]) w ∧
      b.depth = depth + q.length := by
  induction path generalizing m depth with
  | nil => simp [putAt]
  | cons k path ih =>
      rw [putAt]
      split
      · next hblock =>
          obtain ⟨u, hu⟩ := blocks_iff.1 hblock
          constructor
          · intro h
            cases h
            exact ⟨[], u, List.cons_prefix_cons.2 ⟨rfl, List.nil_prefix⟩, hu, rfl⟩
          · rintro ⟨q, w, hq, hw, hdepth⟩
            have hpath : [k] = q ++ [b.key] := by
              apply hu.eq_of_prefix hw
              have hk : [k] <+: k :: path := List.cons_prefix_cons.2 ⟨rfl, List.nil_prefix⟩
              apply List.prefix_of_prefix_length_le hk hq
              simp
            cases q with
            | nil =>
                obtain ⟨key', depth'⟩ := b
                simp only [List.nil_append, List.cons.injEq, and_true] at hpath
                simp only [List.length_nil, Nat.add_zero] at hdepth
                rw [hpath, hdepth]
            | cons n q => simp at hpath
      · next hblock =>
          rw [Bool.not_eq_true] at hblock
          have hinner : (do return m.put k (.object (← putAt key v (membersAt [k] m) (depth + 1)
              path))) = Except.error b ↔ putAt key v (membersAt [k] m) (depth + 1) path = .error b := by
            cases putAt key v (membersAt [k] m) (depth + 1) path with
            | error b' => simp
            | ok inner => simp
          rw [hinner, ih]
          constructor
          · rintro ⟨q, w, hq, hw, hdepth⟩
            refine ⟨k :: q, w, List.cons_prefix_cons.2 ⟨rfl, hq⟩, ⟨?_, hw.2⟩, ?_⟩
            · rw [List.cons_append, ← lookup_membersAt hblock (by simp)]
              exact hw.1
            · rw [hdepth, List.length_cons]
              omega
          · rintro ⟨q, w, hq, hw, hdepth⟩
            cases q with
            | nil =>
                obtain ⟨rfl, -⟩ := List.cons_prefix_cons.1 hq
                rw [blocks_iff.2 ⟨w, hw⟩] at hblock
                cases hblock
            | cons n q =>
                obtain ⟨rfl, hrest⟩ := List.cons_prefix_cons.1 hq
                refine ⟨q, w, hrest, ⟨?_, hw.2⟩, ?_⟩
                · rw [lookup_membersAt hblock (by simp)]
                  exact hw.1
                · rw [hdepth, List.length_cons]
                  omega

theorem IsLeaf.putAt_error {q : List String} {w : Value} (hw : IsLeaf (.object m) q w)
    (hq : q <+: path) (key : String) (v : Value) (depth : Nat) :
    ∃ b, putAt key v m depth path = .error b ∧ q.getLast? = some b.key := by
  have hne : q ≠ [] := by
    rintro rfl
    cases hw.1
    cases hw.2
  obtain ⟨r, k, rfl⟩ := (List.eq_nil_or_concat q).resolve_left hne
  rw [List.concat_eq_append] at hq hw ⊢
  exact ⟨⟨k, depth + r.length⟩, putAt_eq_error.2 ⟨r, w, hq, hw, rfl⟩, List.getLast?_concat⟩

/-- A value can be put at the end of a path exactly if only objects stand on the way. -/
theorem exists_putAt_iff (key : String) (v : Value) (m : Record Value) (depth : Nat)
    (path : List String) :
    (∃ m', putAt key v m depth path = .ok m') ↔
      ∀ q w, q <+: path → lookup q (.object m) = some w → w.isObject = true := by
  constructor
  · rintro ⟨m', hm'⟩ q w hq hw
    by_contra hobject
    have hleaf : IsLeaf (.object m) q w := ⟨hw, Bool.eq_false_iff.2 hobject⟩
    obtain ⟨b, herror, -⟩ := hleaf.putAt_error hq key v depth
    rw [hm'] at herror
    cases herror
  · intro h
    cases hput : putAt key v m depth path with
    | ok m' => exact ⟨m', rfl⟩
    | error b =>
        obtain ⟨q, w, hq, hw, -⟩ := putAt_eq_error.1 hput
        have hobject := h _ w hq hw.1
        rw [hw.2] at hobject
        cases hobject

/-- Where a value was put, the leaves are that value and all that did not stand at its place or
below it. -/
theorem isLeaf_putAt (h : putAt key v m depth path = .ok m') (hv : v.isObject = false)
    (q : List String) (w : Value) :
    IsLeaf (.object m') q w ↔
      (q = path ++ [key] ∧ w = v) ∨ (IsLeaf (.object m) q w ∧ ¬ path ++ [key] <+: q) := by
  have hfound (r : List String) :
      lookup (path ++ [key] ++ r) (.object m') = lookup r v := by
    rw [List.append_assoc]
    exact lookup_putAt_append h r
  constructor
  · intro hw
    by_cases hbelow : path ++ [key] <+: q
    · obtain ⟨r, rfl⟩ := hbelow
      have hlookup := hw.1
      rw [hfound] at hlookup
      by_cases hr : r = []
      · subst hr
        cases hlookup
        exact .inl ⟨List.append_nil _, rfl⟩
      · rw [lookup_of_not_object hv hr] at hlookup
        cases hlookup
    · by_cases habove : q <+: path
      · obtain ⟨n, u, hobject⟩ := lookup_putAt_of_prefix h habove
        have hlookup := hw.1
        rw [hobject] at hlookup
        cases hlookup
        cases hw.2
      · rw [IsLeaf, lookup_putAt_of_apart h hbelow habove] at hw
        exact .inr ⟨hw, hbelow⟩
  · rintro (⟨rfl, rfl⟩ | ⟨hw, hbelow⟩)
    · have hself := hfound []
      rw [List.append_nil] at hself
      exact ⟨hself, hv⟩
    · by_cases habove : q <+: path
      · obtain ⟨b, herror, -⟩ := hw.putAt_error habove key v depth
        rw [h] at herror
        cases herror
      · rw [IsLeaf, lookup_putAt_of_apart h hbelow habove]
        exact hw

theorem isTrim_putAt (h : putAt key v m depth path = .ok m') (hv : v.isObject = false)
    (hm : IsTrim (.object m)) : IsTrim (.object m') := by
  have hold (q : List String) : (Record.names (membersAt q m)).Nodup := by
    rw [membersAt]
    split
    · next ms hms => exact hm.nodup q ms hms
    · exact List.nodup_nil
  have hcases (q : List String) (ms : Record Value)
      (hq : lookup q (.object m') = some (.object ms)) :
      lookup q (.object m) = some (.object ms) ∨ ∃ n w, ms = (membersAt q m).put n w := by
    by_cases hbelow : path ++ [key] <+: q
    · obtain ⟨r, rfl⟩ := hbelow
      rw [List.append_assoc, List.singleton_append, lookup_putAt_append h] at hq
      by_cases hr : r = []
      · subst hr
        cases hq
        cases hv
      · rw [lookup_of_not_object hv hr] at hq
        cases hq
    · by_cases habove : q <+: path
      · obtain ⟨n, w, hobject⟩ := lookup_putAt_of_prefix h habove
        rw [hobject] at hq
        cases hq
        exact .inr ⟨n, w, rfl⟩
      · rw [lookup_putAt_of_apart h hbelow habove] at hq
        exact .inl hq
  constructor
  · intro q ms hq
    rcases hcases q ms hq with hq | ⟨n, w, rfl⟩
    · exact hm.nodup q ms hq
    · exact Record.nodup_put (hold q) n w
  · intro q ms hq hne
    rcases hcases q ms hq with hq | ⟨n, w, rfl⟩
    · exact hm.nonempty q ms hq hne
    · exact Record.put_ne_nil n w _

end Put

end Value

namespace Draft

theorem get?_ofMembers (k : String) (m : Record Value) :
    Record.get? k (ofMembers m) = (Record.get? k m).map ofValue := by
  induction m with
  | nil => rfl
  | cons p m ih =>
      obtain ⟨n, v⟩ := p
      rw [ofMembers, Record.get?, Record.get?]
      split
      · rfl
      · exact ih

mutual
theorem read_ofValue (held : String → Value) : ∀ v : Value, read held (ofValue v) = v
  | .object ms => congrArg Value.object (readMembers_ofMembers held ms)
  | .null => rfl
  | .bool _ => rfl
  | .int _ => rfl
  | .float _ => rfl
  | .text _ => rfl
  | .list _ => rfl

theorem readMembers_ofMembers (held : String → Value) : ∀ ms : List (String × Value),
    readMembers held (ofMembers ms) = ms
  | [] => rfl
  | (n, v) :: ms => by rw [ofMembers, readMembers, read_ofValue held v, readMembers_ofMembers held ms]
end

end Draft

end DocumentSink
