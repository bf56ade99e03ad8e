import DocumentSink.Proofs.Tree
import Mathlib.Data.Finset.Card
import Mathlib.Data.Finset.Insert
import Mathlib.Data.Finset.Lattice.Basic

/-!
Drafts in which no object of the row stands twice. Such a draft is a tree as its value is, and what
is written into one of its objects shows at one place. Main statement: a put into such a draft goes
as the put into its value, and it leaves such a draft.
-/

namespace DocumentSink

namespace Draft

open Value (putAt blocks membersAt lookup_singleton)

/-- A draft shows a value, and the objects of the row in it are these, each at one place. -/
inductive Shows (objects : HeldObjects) : Draft → Value → Finset String → Prop
  | value {v} : v.isObject = false → Shows objects (.value v) v ∅
  | nil : Shows objects (.object []) (.object []) ∅
  | cons {k d v members m s t} : Shows objects d v s →
      Shows objects (.object members) (.object m) t → Disjoint s t →
      Shows objects (.object ((k, d) :: members)) (.object ((k, v) :: m)) (s ∪ t)
  | held {name members m s} : Record.get? name objects = some members →
      Shows objects (.object members) (.object m) s → name ∉ s →
      Shows objects (.held name) (.object m) (insert name s)

/-- What stands under a name: nothing, or a draft that shows the value there. -/
inductive Slot (objects : HeldObjects) : Option Draft → Option Value → Finset String → Prop
  | free : Slot objects none none ∅
  | taken {d v s} : Shows objects d v s → Slot objects (some d) (some v) s

section Showing

variable {objects objects' : HeldObjects} {d : Draft} {v : Value} {s t : Finset String}
  {members : Record Draft} {m : Record Value}

mutual
theorem shows_ofValue (objects : HeldObjects) : ∀ v : Value, Shows objects (ofValue v) v ∅
  | .object m => shows_ofMembers objects m
  | .null => .value rfl
  | .bool _ => .value rfl
  | .int _ => .value rfl
  | .float _ => .value rfl
  | .text _ => .value rfl
  | .list _ => .value rfl

theorem shows_ofMembers (objects : HeldObjects) : ∀ m : List (String × Value),
    Shows objects (.object (ofMembers m)) (.object m) ∅
  | [] => .nil
  | (_, v) :: m =>
      .cons (shows_ofValue objects v) (shows_ofMembers objects m) (Finset.disjoint_empty_left _)
end

/-- Only the objects that a draft names matter to what it shows. -/
theorem Shows.frame (h : Shows objects d v s)
    (hs : ∀ name ∈ s, Record.get? name objects' = Record.get? name objects) :
    Shows objects' d v s := by
  induction h with
  | value hv => exact .value hv
  | nil => exact .nil
  | cons _ _ hdisjoint ihd ihm =>
      refine .cons (ihd fun name hname => hs name ?_) (ihm fun name hname => hs name ?_) hdisjoint
      · exact Finset.mem_union_left _ hname
      · exact Finset.mem_union_right _ hname
  | @held name members m s hget _ hname ih =>
      refine .held ?_ (ih fun other hother => hs other (Finset.mem_insert_of_mem hother)) hname
      rw [hs name (Finset.mem_insert_self name s), hget]

theorem Shows.subset_names (h : Shows objects d v s) : s ⊆ (Record.names objects).toFinset := by
  induction h with
  | value _ => exact Finset.empty_subset _
  | nil => exact Finset.empty_subset _
  | cons _ _ _ ihd ihm => exact Finset.union_subset ihd ihm
  | held hget _ _ ih =>
      refine Finset.insert_subset (List.mem_toFinset.2 ?_) ih
      exact List.mem_map_of_mem (Record.mem_of_get? hget)

theorem Shows.card_le (h : Shows objects d v s) : s.card ≤ objects.length := by
  refine (Finset.card_le_card h.subset_names).trans ((List.toFinset_card_le _).trans ?_)
  rw [Record.names, List.length_map]

/-- Each object is read at most once, so as deep as there are names is deep enough. -/
theorem Shows.read_of_card_le {depth : Nat} (h : Shows objects d v s) (hs : s.card ≤ depth) :
    read (objects.read depth) d = v := by
  induction h generalizing depth with
  | value _ => rfl
  | nil => rfl
  | @cons k d v members m s t _ _ _ ihd ihm =>
      have hd := ihd ((Finset.card_le_card Finset.subset_union_left).trans hs)
      have hm := ihm ((Finset.card_le_card Finset.subset_union_right).trans hs)
      rw [read, Value.object.injEq] at hm
      rw [read, readMembers, hd, hm]
  | @held name members m s hget _ hname ih =>
      rw [Finset.card_insert_of_notMem hname] at hs
      obtain ⟨depth, rfl⟩ := Nat.exists_eq_add_of_le' hs
      have hm := ih (Nat.le_add_left s.card depth)
      rw [read, Value.object.injEq] at hm
      rw [read, ← Nat.add_assoc, HeldObjects.read, hget, Option.getD_some, hm]

theorem Shows.read_eq (h : Shows objects d v s) : read objects.value d = v :=
  h.read_of_card_le h.card_le

/-- What is put under a name stands there, and all else where it stood, as long as it has none of
the objects that stand elsewhere. -/
def Opens (objects : HeldObjects) (k : String) (members : Record Draft) (m : Record Value)
    (elsewhere : Finset String) : Prop :=
  ∀ {objects' d v s},
    (∀ name ∈ elsewhere, Record.get? name objects' = Record.get? name objects) →
    Shows objects' d v s → Disjoint s elsewhere →
      Shows objects' (.object (Record.put k d members)) (.object (m.put k v)) (s ∪ elsewhere)

/-- The objects of an object are those under one name and those that stand elsewhere. -/
theorem Shows.slot (h : Shows objects (.object members) (.object m) s) (k : String) :
    ∃ t r, Slot objects (Record.get? k members) (Record.get? k m) t ∧ Disjoint t r ∧ s = t ∪ r ∧
      Opens objects k members m r := by
  induction members generalizing m s with
  | nil =>
      cases h
      refine ⟨∅, ∅, .free, Finset.disjoint_empty_left _, rfl, ?_⟩
      intro objects' d v t' _ hd hdisjoint
      exact .cons hd .nil hdisjoint
  | cons p members ih =>
      cases h with
      | @cons n d v _ m s₁ s₂ hd hm hdisjoint =>
          by_cases hn : n = k
          · refine ⟨s₁, s₂, ?_, hdisjoint, rfl, ?_⟩
            · rw [Record.get?, Record.get?, if_pos hn, if_pos hn]
              exact .taken hd
            · intro objects' d' v' t' hframe hd' hdisjoint'
              rw [Record.put, Record.put, if_pos hn, if_pos hn]
              exact .cons hd' (hm.frame hframe) hdisjoint'
          · obtain ⟨t, r, hslot, htr, rfl, hopens⟩ := ih hm
            rw [Finset.disjoint_union_right] at hdisjoint
            refine ⟨t, s₁ ∪ r, ?_, ?_, ?_, ?_⟩
            · rw [Record.get?, Record.get?, if_neg hn, if_neg hn]
              exact hslot
            · exact Finset.disjoint_union_right.2 ⟨hdisjoint.1.symm, htr⟩
            · exact Finset.union_left_comm s₁ t r
            · intro objects' d' v' t' hframe hd' hdisjoint'
              rw [Finset.disjoint_union_right] at hdisjoint'
              simp only [Finset.mem_union, or_imp, forall_and] at hframe
              rw [Record.put, Record.put, if_neg hn, if_neg hn, Finset.union_left_comm]
              refine .cons (hd.frame hframe.1) (hopens hframe.2 hd' hdisjoint'.2) ?_
              exact Finset.disjoint_union_right.2 ⟨hdisjoint'.1.symm, hdisjoint.2⟩

end Showing

section Putting

variable {objects : HeldObjects} {d : Draft} {v : Value} {s t : Finset String} {key : String}
  {members : Record Draft} {m : Record Value} {depth : Nat} {path : List String}

/-- What a put leaves: members that show a value, with objects that they or the draft named before,
and every object that the members did not name as it was. -/
structure Left (objects : HeldObjects) (s t : Finset String) (m : Record Value)
    (r : HeldObjects × Record Draft) : Prop where
  shows : ∃ u ⊆ s ∪ t, Shows r.1 (.object r.2) (.object m) u
  frame : ∀ name ∉ s, Record.get? name r.1 = Record.get? name objects

section Below

variable {objects₁ : HeldObjects} {inner : Record Draft} {m₁ : Record Value}
  {elsewhere : Finset String} {name k : String}

/-- What a put has left in an object of the draft's own. -/
theorem Left.own (h : Left objects s t m₁ (objects₁, inner))
    (hopens : Opens objects k members m elsewhere) (hs : Disjoint s elsewhere)
    (ht : Disjoint elsewhere t) :
    Left objects (s ∪ elsewhere) t (m.put k (.object m₁))
      (objects₁, Record.put k (.object inner) members) := by
  obtain ⟨⟨u, hu, hshows⟩, hframe⟩ := h
  refine ⟨⟨u ∪ elsewhere, ?_, hopens ?_ hshows ?_⟩, ?_⟩
  · grind
  · exact fun name hname => hframe name (Finset.disjoint_right.1 hs hname)
  · exact (Finset.disjoint_union_left.2 ⟨hs, ht.symm⟩).mono_left hu
  · exact fun name hname => hframe name (mt (Finset.mem_union_left elsewhere) hname)

/-- What a put has left in an object of the row, which the members go on to name. -/
theorem Left.held (h : Left objects s t m₁ (objects₁, inner))
    (hopens : Opens objects k members m elsewhere)
    (hk : Record.get? k members = some (.held name)) (hname : name ∉ s ∪ t)
    (hs : Disjoint (insert name s) elsewhere) (ht : Disjoint elsewhere t) :
    Left objects (insert name s ∪ elsewhere) t (m.put k (.object m₁))
      (Record.put name inner objects₁, members) := by
  obtain ⟨⟨u, hu, hshows⟩, hframe⟩ := h
  have hu' : name ∉ u := fun hmem => hname (hu hmem)
  have hother {other : String} (hmem : other ∉ insert name s) :
      Record.get? other (Record.put name inner objects₁) = Record.get? other objects := by
    rw [Finset.mem_insert, not_or] at hmem
    rw [Record.get?_put_ne hmem.1, hframe other hmem.2]
  have hshows' : Shows (Record.put name inner objects₁) (.held name) (.object m₁)
      (insert name u) := by
    refine .held (Record.get?_put_self name inner objects₁) (hshows.frame ?_) hu'
    intro other hmem
    exact Record.get?_put_ne (ne_of_mem_of_not_mem hmem hu') inner objects₁
  have hapart : Disjoint (insert name u) elsewhere := by
    have hs' := Finset.disjoint_insert_left.1 hs
    have hrest := (Finset.disjoint_union_left.2 ⟨hs'.2, ht.symm⟩).mono_left hu
    exact Finset.disjoint_insert_left.2 ⟨hs'.1, hrest⟩
  have hmembers := hopens (fun _ hmem => hother (Finset.disjoint_right.1 hs hmem)) hshows' hapart
  -- the members name the object already, so that writing its draft again changes nothing
  rw [Record.put_of_get? hk] at hmembers
  refine ⟨⟨_, ?_, hmembers⟩, fun other hmem => hother (mt (Finset.mem_union_left _) hmem)⟩
  grind

end Below

/-- Where no object of the row stands twice, a put does to a draft what it does to its value. -/
theorem Shows.put (hd : Shows objects d v t) (hm : Shows objects (.object members) (.object m) s)
    (hst : Disjoint s t) (key : String) (depth : Nat) (path : List String) :
    Follows (Left objects s t) (putAt key v m depth path)
      (Draft.put key d objects members depth path) := by
  induction path generalizing members m s depth with
  | nil =>
      obtain ⟨u, elsewhere, -, -, rfl, hopens⟩ := hm.slot key
      rw [Finset.disjoint_union_left] at hst
      refine .ok ⟨⟨t ∪ elsewhere, ?_, hopens (fun _ _ => rfl) hd hst.2.symm⟩, fun _ _ => rfl⟩
      grind
  | cons k path ih =>
      obtain ⟨u, elsewhere, hslot, hu, rfl, hopens⟩ := hm.slot k
      rw [Finset.disjoint_union_left] at hst
      -- one step down, into the object of the draft's own that is there or into a new one
      have hown {inner : Record Draft} {m₁ : Record Value}
          (hinner : Shows objects (.object inner) (.object m₁) u) :
          Follows (Left objects (u ∪ elsewhere) t)
            (putAt key v m₁ (depth + 1) path >>= fun m₁ => .ok (m.put k (.object m₁)))
            (Draft.put key d objects inner (depth + 1) path >>= fun r =>
              .ok (r.1, Record.put k (.object r.2) members)) :=
        (ih hinner hst.1 (depth + 1)).bind fun _ _ h => .ok (h.own hopens hu hst.2)
      rw [Draft.put, putAt, blocks, membersAt, lookup_singleton]
      generalize hk : Record.get? k members = e at hslot ⊢
      generalize Record.get? k m = w at hslot ⊢
      cases hslot with
      | free => exact hown .nil
      | taken hslot =>
          cases hslot with
          | value hv =>
              simp only [Option.any_some, hv, Bool.not_false, if_true]
              exact .error _
          | nil => exact hown .nil
          | cons hfirst hrest hapart => exact hown (.cons hfirst hrest hapart)
          | @held name inner m₁ s hget hinner hname =>
              have hname' : name ∉ s ∪ t := by grind
              have hheld : Follows (Left objects (insert name s ∪ elsewhere) t)
                  (putAt key v m₁ (depth + 1) path >>= fun m₁ => .ok (m.put k (.object m₁)))
                  (Draft.put key d objects inner (depth + 1) path >>= fun r =>
                    .ok (Record.put name r.2 r.1, members)) :=
                (ih hinner (Finset.disjoint_insert_left.1 hst.1).2 (depth + 1)).bind
                  fun _ _ h => .ok (h.held hopens hk hname' hu hst.2)
              dsimp only
              rw [hget]
              exact hheld

end Putting

end Draft

end DocumentSink
