import DocumentSink.Plan.Heap
import DocumentSink.Proofs.Compile
import Mathlib.Data.List.Basic

/-!
What references see of the objects. Two heaps show the same plan where they agree on the objects of
the plan. Compiling a clone makes new objects only, and the plan on them is that of the definition.
-/

namespace DocumentSink

def PlanRef.mappings (p : PlanRef) : List Nat := p.fields.map (·.mapping)

namespace FieldPlan

theorem zipWith_mk (ps : List FieldPlan) :
    List.zipWith mk (ps.map (·.toWalk)) (ps.map (·.mapping)) = ps := by
  induction ps with
  | nil => rfl
  | cons p ps ih => rw [List.map_cons, List.map_cons, List.zipWith_cons_cons, ih]

end FieldPlan

namespace Heap

/-- How many objects there are of each kind. -/
def sizes (h : Heap) : Nat × Nat × Nat := (h.writes.length, h.mappings.length, h.walks.length)

variable {h h' h'' : Heap} {p : PlanRef} {d : DefinitionRef} {vars : Variables}

section Views

theorem fields_plan (h : Heap) (p : PlanRef) :
    (h.plan p).fields =
      List.zipWith FieldPlan.mk (p.walks.map h.walk) (p.mappings.map h.mapping) := by
  rw [PlanRef.mappings, PlanRef.walks, List.map_map, List.map_map, plan]
  induction p.fields with
  | nil => rfl
  | cons f fs ih =>
      rw [List.map_cons, List.map_cons, List.map_cons, List.zipWith_cons_cons, ← ih]
      rfl

theorem mappings_plan (h : Heap) (p : PlanRef) :
    (h.plan p).mappings = p.mappings.map h.mapping := by
  rw [Plan.mappings, plan, PlanRef.mappings, List.map_map, List.map_map]
  rfl

theorem walks_plan (h : Heap) (p : PlanRef) :
    (h.plan p).fields.map (·.toWalk) = p.walks.map h.walk := by
  rw [plan, PlanRef.walks, List.map_map, List.map_map]
  rfl

/-- A reference shows a plan whose options, mappings and walks are those of its objects. -/
theorem plan_eq {plan : Plan} (hwrite : h.write p.write = plan.write)
    (hmode : p.modifierMode = plan.modifierMode) (hindexes : p.indexes = plan.indexes)
    (hvars : p.vars = plan.vars) (hmappings : p.mappings.map h.mapping = plan.mappings)
    (hwalks : p.walks.map h.walk = plan.fields.map (·.toWalk)) : h.plan p = plan := by
  have hfields : (h.plan p).fields = plan.fields := by
    rw [fields_plan, hmappings, hwalks, Plan.mappings, FieldPlan.zipWith_mk]
  obtain ⟨write, mode, fields, indexes, vars⟩ := plan
  cases hwrite
  cases hmode
  cases hindexes
  cases hvars
  cases hfields
  rfl

theorem plan_congr (hwrite : h'.write p.write = h.write p.write)
    (hmappings : ∀ m ∈ p.mappings, h'.mapping m = h.mapping m)
    (hwalks : ∀ n ∈ p.walks, h'.walk n = h.walk n) : h'.plan p = h.plan p := by
  apply plan_eq hwrite rfl rfl rfl
  · rw [mappings_plan]
    exact List.map_congr_left hmappings
  · rw [walks_plan]
    exact List.map_congr_left hwalks

theorem mapping_assignMapping_of_ne {m n : Nat} (hne : n ≠ m) (name : String) (v : Value) :
    (h.assignMapping n name v).mapping m = h.mapping m := by
  rw [mapping, mapping, assignMapping, List.getElem?_modify_ne _ _ hne]

theorem sizes_assignMapping (h : Heap) (n : Nat) (name : String) (v : Value) :
    (h.assignMapping n name v).sizes = h.sizes := by
  rw [sizes, assignMapping, List.length_modify]
  rfl

theorem sizes_assignWrite (h : Heap) (n : Nat) (name : String) (v : Value) :
    (h.assignWrite n name v).sizes = h.sizes := by
  rw [sizes, assignWrite, List.length_modify]
  rfl

theorem mapping_assignMapping_self {n : Nat} (hn : n < h.mappings.length) (name : String)
    (v : Value) : (h.assignMapping n name v).mapping n = (h.mapping n).assign name v := by
  rw [mapping, mapping, assignMapping, List.getElem?_modify_eq, List.getElem?_eq_getElem hn]
  rfl

theorem write_assignWrite_self {n : Nat} (hn : n < h.writes.length) (name : String) (v : Value) :
    (h.assignWrite n name v).write n = (h.write n).assign name v := by
  rw [write, write, assignWrite, List.getElem?_modify_eq, List.getElem?_eq_getElem hn]
  rfl

theorem write_assignWrite_of_ne {m n : Nat} (hne : n ≠ m) (name : String) (v : Value) :
    (h.assignWrite n name v).write m = h.write m := by
  rw [write, write, assignWrite, List.getElem?_modify_ne _ _ hne]

end Views

section Moving

variable {n : Nat} {ns : List Nat} {ws : List Walk}

theorem setWalks_cons (h : Heap) (n : Nat) (w : Walk) (ws : List (Nat × Walk)) :
    h.setWalks ((n, w) :: ws) = { h with walks := h.walks.set n w }.setWalks ws := rfl

theorem sizes_setWalks (h : Heap) (ws : List (Nat × Walk)) : (h.setWalks ws).sizes = h.sizes := by
  induction ws generalizing h with
  | nil => rfl
  | cons p ws ih => rw [setWalks_cons, ih, sizes, List.length_set, sizes]

theorem walk_setWalks_of_not_mem (hn : n ∉ ns) : (h.setWalks (ns.zip ws)).walk n = h.walk n := by
  induction ns generalizing h ws with
  | nil => rfl
  | cons m ns ih =>
      cases ws with
      | nil => rfl
      | cons w ws =>
          rw [List.mem_cons, not_or] at hn
          rw [List.zip_cons_cons, setWalks_cons, ih hn.2, walk, walk,
            List.getElem?_set_ne (Ne.symm hn.1)]

/-- Walks that are set are found at their numbers. -/
theorem map_walk_setWalks (hns : ns.Nodup) (hbound : ∀ n ∈ ns, n < h.walks.length)
    (hlength : ns.length = ws.length) : ns.map (h.setWalks (ns.zip ws)).walk = ws := by
  induction ns generalizing h ws with
  | nil =>
      rw [List.eq_nil_of_length_eq_zero hlength.symm]
      rfl
  | cons n ns ih =>
      cases ws with
      | nil => cases hlength
      | cons w ws =>
          rw [List.nodup_cons] at hns
          rw [List.forall_mem_cons] at hbound
          have hset : n < (h.walks.set n w).length := by
            rw [List.length_set]
            exact hbound.1
          rw [List.zip_cons_cons, setWalks_cons, List.map_cons, walk_setWalks_of_not_mem hns.1]
          congr 1
          · rw [walk, List.getElem?_eq_getElem hset, List.getElem_set_self, Option.getD_some]
          · refine ih hns.2 ?_ (Nat.succ.inj hlength)
            intro m hm
            rw [List.length_set]
            exact hbound.2 m hm

theorem mappings_startRow (plan : Plan) : plan.startRow.mappings = plan.mappings := by
  rw [Plan.mappings, Plan.mappings, Plan.startRow, List.map_map]
  rfl

/-- Behind a plan that has moved its cursors and nothing else, the reference shows the plan where it
is now. -/
theorem plan_moveTo {plan : Plan} (hplan : plan.startRow = (h.plan p).startRow)
    (hnodup : p.walks.Nodup) (hbound : ∀ n ∈ p.walks, n < h.walks.length) :
    (h.moveTo p plan).plan p = plan := by
  have hmappings : plan.mappings = p.mappings.map h.mapping := by
    rw [← mappings_startRow, hplan, mappings_startRow, mappings_plan]
  have hwrite : plan.write = h.write p.write := congrArg Plan.write hplan
  have hmode : plan.modifierMode = p.modifierMode := congrArg Plan.modifierMode hplan
  have hindexes : plan.indexes = p.indexes := congrArg Plan.indexes hplan
  have hvars : plan.vars = p.vars := congrArg Plan.vars hplan
  have hlength : p.walks.length = (plan.fields.map (·.toWalk)).length := by
    have := congrArg List.length hmappings
    simpa only [Plan.mappings, PlanRef.mappings, PlanRef.walks, List.length_map] using this.symm
  exact plan_eq hwrite.symm hmode.symm hindexes.symm hvars.symm hmappings.symm
    (map_walk_setWalks hnodup hbound hlength)

theorem plan_moveTo_of_disjoint {q : PlanRef} (hdisjoint : q.walks.Disjoint p.walks) (plan : Plan) :
    (h.moveTo p plan).plan q = h.plan q :=
  plan_congr rfl (fun _ _ => rfl) fun _ hn => walk_setWalks_of_not_mem (hdisjoint hn)

end Moving

section Growth

/-- A later heap has all objects of a former one as they were there. -/
structure Extends (h h' : Heap) : Prop where
  writes : h.writes <+: h'.writes
  mappings : h.mappings <+: h'.mappings
  walks : h.walks <+: h'.walks

theorem Extends.refl (h : Heap) : h.Extends h :=
  ⟨List.prefix_rfl, List.prefix_rfl, List.prefix_rfl⟩

theorem Extends.trans (hh : h.Extends h') (hh' : h'.Extends h'') : h.Extends h'' :=
  ⟨hh.writes.trans hh'.writes, hh.mappings.trans hh'.mappings, hh.walks.trans hh'.walks⟩

theorem getElem?_of_prefix {α : Type} {l l' : List α} (hl : l <+: l') {n : Nat}
    (hn : n < l.length) : l'[n]? = l[n]? := by
  obtain ⟨r, rfl⟩ := hl
  exact List.getElem?_append_left hn

/-- The objects of a definition are in a heap. -/
structure Holds (h : Heap) (d : DefinitionRef) : Prop where
  write : d.write < h.writes.length
  mappings : ∀ m ∈ d.mappings, m < h.mappings.length

theorem Holds.of_sizes (hd : h.Holds d) (hh : h'.sizes = h.sizes) : h'.Holds d := by
  rw [sizes, sizes, Prod.mk.injEq, Prod.mk.injEq] at hh
  refine ⟨?_, ?_⟩
  · rw [hh.1]
    exact hd.write
  · rw [hh.2.1]
    exact hd.mappings

theorem Extends.holds (hh : h.Extends h') (hd : h.Holds d) : h'.Holds d :=
  ⟨Nat.lt_of_lt_of_le hd.write hh.writes.length_le,
    fun m hm => Nat.lt_of_lt_of_le (hd.mappings m hm) hh.mappings.length_le⟩

theorem Extends.definition (hh : h.Extends h') (hd : h.Holds d) :
    h'.definition d = h.definition d := by
  rw [Heap.definition, Heap.definition, Heap.write, Heap.write,
    getElem?_of_prefix hh.writes hd.write]
  congr 1
  apply List.map_congr_left
  intro m hm
  rw [mapping, mapping, getElem?_of_prefix hh.mappings (hd.mappings m hm)]

/-- An edit of the object at a position is an edit of the definition there. -/
theorem definition_assignMapping (hd : h.Holds d) (hnodup : d.mappings.Nodup) {n m : Nat}
    (hn : d.mappings[n]? = some m) (name : String) (v : Value) :
    (h.assignMapping m name v).definition d = (h.definition d).assignMapping n name v := by
  have hmappings : d.mappings.map (h.assignMapping m name v).mapping =
      (d.mappings.map h.mapping).modify n (·.assign name v) := by
    apply List.ext_getElem?
    intro i
    rw [List.getElem?_modify, List.getElem?_map, List.getElem?_map]
    cases hi : d.mappings[i]? with
    | none => rfl
    | some j =>
        rw [Option.map_some, Option.map_some, Option.map_eq_map, Option.map_some]
        congr 1
        split
        · next hni =>
            rw [hni, hi] at hn
            cases hn
            exact mapping_assignMapping_self (hd.mappings _ (List.mem_of_getElem? hi)) name v
        · next hni =>
            refine mapping_assignMapping_of_ne ?_ name v
            rintro rfl
            have hlt := (List.getElem?_eq_some_iff.1 hn).1
            exact hni ((List.getElem?_inj hlt hnodup).1 (hn.trans hi.symm))
  exact congrArg (Definition.mk _ · _) hmappings

theorem definition_assignWrite (hd : h.Holds d) (name : String) (v : Value) :
    (h.assignWrite d.write name v).definition d = (h.definition d).assignWrite name v :=
  congrArg (Definition.mk · _ _) (write_assignWrite_self hd.write name v)

theorem mapping_addMapping_of_lt (d : DefinitionRef) {n : Nat} (hn : n < h.mappings.length)
    (m : FieldMapping) : (h.addMapping d m).1.mapping n = h.mapping n := by
  rw [mapping, mapping, addMapping, List.getElem?_append_left hn]

theorem holds_addMapping (hd : h.Holds d) (m : FieldMapping) :
    (h.addMapping d m).1.Holds (h.addMapping d m).2 := by
  refine ⟨hd.write, ?_⟩
  intro n hn
  rw [addMapping, List.length_append]
  rcases List.mem_append.1 hn with hn | hn
  · exact Nat.lt_succ_of_lt (hd.mappings n hn)
  · rw [List.mem_singleton.1 hn]
    exact Nat.lt_succ_self _

theorem definition_addMapping (hd : h.Holds d) (m : FieldMapping) :
    (h.addMapping d m).1.definition (h.addMapping d m).2 = (h.definition d).addMapping m := by
  have hold : d.mappings.map (h.addMapping d m).1.mapping = d.mappings.map h.mapping := by
    apply List.map_congr_left
    intro n hn
    exact mapping_addMapping_of_lt d (hd.mappings n hn) m
  have hnew : (h.addMapping d m).1.mapping h.mappings.length = m := by
    rw [mapping, addMapping, List.getElem?_concat_length, Option.getD_some]
  have hmappings : (d.mappings ++ [h.mappings.length]).map (h.addMapping d m).1.mapping =
      d.mappings.map h.mapping ++ [m] := by
    rw [List.map_append, List.map_singleton, hold, hnew]
  exact congrArg (Definition.mk _ · _) hmappings

/-- All objects of a plan are in a heap and were not in a former one, and it has no walk twice. -/
structure Added (h h' : Heap) (p : PlanRef) : Prop where
  write : h.writes.length ≤ p.write ∧ p.write < h'.writes.length
  mappings : ∀ m ∈ p.mappings, h.mappings.length ≤ m ∧ m < h'.mappings.length
  walks : ∀ n ∈ p.walks, h.walks.length ≤ n ∧ n < h'.walks.length
  nodup : p.walks.Nodup

theorem Added.mono (hp : Added h h' p) {early late : Heap} (hearly : early.Extends h)
    (hlate : h'.Extends late) : Added early late p := by
  have hwrites := And.intro hearly.writes.length_le hlate.writes.length_le
  have hmappings := And.intro hearly.mappings.length_le hlate.mappings.length_le
  have hwalks := And.intro hearly.walks.length_le hlate.walks.length_le
  refine ⟨?_, ?_, ?_, hp.nodup⟩
  · exact ⟨Nat.le_trans hwrites.1 hp.write.1, Nat.lt_of_lt_of_le hp.write.2 hwrites.2⟩
  · intro m hm
    obtain ⟨hle, hlt⟩ := hp.mappings m hm
    exact ⟨Nat.le_trans hmappings.1 hle, Nat.lt_of_lt_of_le hlt hmappings.2⟩
  · intro n hn
    obtain ⟨hle, hlt⟩ := hp.walks n hn
    exact ⟨Nat.le_trans hwalks.1 hle, Nat.lt_of_lt_of_le hlt hwalks.2⟩

theorem Extends.plan (hh : h'.Extends h'') (hp : Added h h' p) : h''.plan p = h'.plan p := by
  apply plan_congr
  · rw [Heap.write, Heap.write, getElem?_of_prefix hh.writes hp.write.2]
  · intro m hm
    rw [mapping, mapping, getElem?_of_prefix hh.mappings (hp.mappings m hm).2]
  · intro n hn
    rw [walk, walk, getElem?_of_prefix hh.walks (hp.walks n hn).2]

/-- New objects are found at the numbers behind the old ones. -/
theorem map_getD_range' {α : Type} (l new : List α) (a : α) :
    (List.range' l.length new.length).map (fun n => (l ++ new)[n]?.getD a) = new := by
  apply List.ext_getElem
  · rw [List.length_map, List.length_range']
  · intro i hi hnew
    rw [List.getElem_map, List.getElem_range', Nat.one_mul,
      List.getElem?_append_right (Nat.le_add_right _ _), Nat.add_sub_cancel_left,
      List.getElem?_eq_getElem hnew, Option.getD_some]

theorem extends_allocate (h : Heap) (d : Definition) : h.Extends (h.allocate d).1 :=
  ⟨List.prefix_append _ _, List.prefix_append _ _, List.prefix_rfl⟩

theorem mem_mappings_allocate {d : Definition} {m : Nat} :
    m ∈ (h.allocate d).2.mappings ↔
      h.mappings.length ≤ m ∧ m < (h.allocate d).1.mappings.length := by
  rw [allocate, List.length_append]
  exact List.mem_range'_1

theorem holds_allocate (h : Heap) (d : Definition) : (h.allocate d).1.Holds (h.allocate d).2 := by
  refine ⟨?_, fun m hm => (mem_mappings_allocate.1 hm).2⟩
  rw [allocate, List.length_append]
  exact Nat.lt_succ_self _

theorem nodup_mappings_allocate (h : Heap) (d : Definition) : (h.allocate d).2.mappings.Nodup :=
  List.nodup_range'

/-- What is allocated is the definition. -/
theorem definition_allocate (h : Heap) (d : Definition) :
    (h.allocate d).1.definition (h.allocate d).2 = d := by
  have hwrite : (h.writes ++ [d.write])[h.writes.length]?.getD {} = d.write := by
    rw [List.getElem?_concat_length, Option.getD_some]
  have hmappings := map_getD_range' h.mappings d.mappings {}
  exact congrArg₂ (Definition.mk · · d.indexes) hwrite hmappings

end Growth

section Compiling

variable {plan : Plan}

theorem compile_eq_ok : h.compile d vars = .ok (h', p) ↔
    ∃ plan, (h.definition d).compile vars = .ok plan ∧
      h' = { h with walks := h.walks ++ plan.fields.map (·.toWalk) } ∧
      p = ⟨d.write, plan.modifierMode,
        (d.mappings.zipIdx h.walks.length).map fun (m, n) => ⟨m, n⟩, plan.indexes, plan.vars⟩ := by
  rw [compile, bind_eq_ok]
  apply exists_congr
  intro plan
  rw [pure_eq_ok, Except.ok.injEq, Prod.mk.injEq, eq_comm (a := h'), eq_comm (a := p)]

/-- A plan on the objects of a definition: only its walks are new. -/
structure IsCompiled (h h' : Heap) (d : DefinitionRef) (p : PlanRef) : Prop where
  writes : h'.writes = h.writes
  mappings : h'.mappings = h.mappings
  walks : h.walks <+: h'.walks
  write : p.write = d.write
  sameMappings : p.mappings = d.mappings
  newWalks : p.walks = List.range' h.walks.length d.mappings.length
  length_walks : h'.walks.length = h.walks.length + d.mappings.length

theorem length_fields_of_compile (h' : (h.definition d).compile vars = .ok plan) :
    plan.fields.length = d.mappings.length := by
  rw [Definition.fields_of_compile h', List.length_map]
  exact List.length_map _

theorem isCompiled_of_compile (hc : h.compile d vars = .ok (h', p)) : IsCompiled h h' d p := by
  obtain ⟨plan, hplan, rfl, rfl⟩ := compile_eq_ok.1 hc
  refine ⟨rfl, rfl, List.prefix_append _ _, rfl, ?_, ?_, ?_⟩
  · rw [PlanRef.mappings, List.map_map]
    exact List.zipIdx_map_fst _ _
  · rw [PlanRef.walks, List.map_map]
    exact List.zipIdx_map_snd _ _
  · rw [List.length_append, List.length_map, length_fields_of_compile hplan]

/-- The reference shows the plan of the definition. -/
theorem compile_of_compile (hc : h.compile d vars = .ok (h', p)) :
    (h.definition d).compile vars = .ok (h'.plan p) := by
  have hcompiled := isCompiled_of_compile hc
  obtain ⟨plan, hplan, hheap, hp⟩ := compile_eq_ok.1 hc
  have hmappings : p.mappings.map h'.mapping = plan.mappings := by
    rw [Definition.mappings_of_compile hplan, hcompiled.sameMappings, hheap]
    rfl
  have hwrite : h'.write p.write = plan.write := by
    rw [Definition.write_of_compile hplan, hcompiled.write, hheap]
    rfl
  have hwalks : p.walks.map h'.walk = plan.fields.map (·.toWalk) := by
    have hnew := map_getD_range' h.walks (plan.fields.map (·.toWalk)) default
    rw [List.length_map, length_fields_of_compile hplan] at hnew
    rw [hcompiled.newWalks, hheap]
    exact hnew
  rw [hplan, plan_eq hwrite (congrArg PlanRef.modifierMode hp) (congrArg PlanRef.indexes hp)
    (congrArg PlanRef.vars hp) hmappings hwalks]

theorem IsCompiled.extends (hp : IsCompiled h h' d p) : h.Extends h' :=
  ⟨hp.writes ▸ List.prefix_rfl, hp.mappings ▸ List.prefix_rfl, hp.walks⟩

/-- All objects of a plan that is compiled from a clone are new. -/
theorem added_of_clone (hc : (h.clone d).1.compile (h.clone d).2 vars = .ok (h', p)) :
    Added h h' p ∧ h.Extends h' ∧ (h.definition d).compile vars = .ok (h'.plan p) := by
  have hcompiled := isCompiled_of_compile hc
  have hplan := compile_of_compile hc
  rw [clone] at hcompiled hplan
  have hholds := holds_allocate h (h.definition d)
  rw [definition_allocate] at hplan
  refine ⟨⟨?_, ?_, ?_, ?_⟩, (extends_allocate h _).trans hcompiled.extends, hplan⟩
  · rw [hcompiled.write, hcompiled.writes]
    exact ⟨Nat.le_refl _, hholds.write⟩
  · intro m hm
    rw [hcompiled.sameMappings, mem_mappings_allocate] at hm
    rw [hcompiled.mappings]
    exact hm
  · intro n hn
    rw [hcompiled.newWalks, List.mem_range'_1] at hn
    rw [hcompiled.length_walks]
    exact hn
  · rw [hcompiled.newWalks]
    exact List.nodup_range'

/-- The plans of some workers are those of the definition, each on new objects, and no walk is in
two of them. -/
theorem workerPlans_spec {workers : Nat} {ps : List PlanRef} (hd : h.Holds d)
    (hw : h.workerPlans d vars workers = .ok (h', ps)) :
    h.Extends h' ∧ ps.length = workers ∧
      (∀ p ∈ ps, Added h h' p ∧ (h.definition d).compile vars = .ok (h'.plan p)) ∧
      ps.Pairwise fun p q => p.walks.Disjoint q.walks := by
  induction workers generalizing h ps with
  | zero =>
      cases hw
      exact ⟨.refl _, rfl, List.forall_mem_nil _, List.Pairwise.nil⟩
  | succ workers ih =>
      rw [workerPlans] at hw
      obtain ⟨⟨h₁, p⟩, hc, hw⟩ := bind_eq_ok.1 hw
      obtain ⟨⟨h₂, qs⟩, hrest, hw⟩ := bind_eq_ok.1 hw
      cases hw
      obtain ⟨hp, hh, hplan⟩ := added_of_clone hc
      obtain ⟨hh', hlength, hqs, hpairwise⟩ := ih (hh.holds hd) hrest
      refine ⟨hh.trans hh', congrArg (· + 1) hlength, ?_, List.pairwise_cons.2 ⟨?_, hpairwise⟩⟩
      · refine List.forall_mem_cons.2 ⟨⟨hp.mono (.refl h) hh', ?_⟩, ?_⟩
        · rw [hplan, hh'.plan hp]
        · intro q hq
          obtain ⟨hadded, hq⟩ := hqs q hq
          refine ⟨hadded.mono hh (.refl h'), ?_⟩
          rw [← hq, hh.definition hd]
      · -- the walks of the first plan were there before those of the others were made
        intro q hq n hn hn'
        have hlt := (hp.walks n hn).2
        have hle := ((hqs q hq).1.walks n hn').1
        exact Nat.not_lt_of_le hle hlt

end Compiling

end Heap

end DocumentSink
