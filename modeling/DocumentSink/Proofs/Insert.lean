import DocumentSink.Proofs.Held

/-!
The document of a row where no value to place is an object. The run of the placements is one of
values alone. It ends early exactly when a path goes through an earlier one; else the leaves of the
document are the values that no later placement covers.
-/

namespace DocumentSink

namespace Placement

variable {es : List Placement} {e : Placement} {m m' : Record Value}

/-- What holds of every run that has gone well. -/
structure Sound (es : List Placement) (m : Record Value) : Prop where
  leaves : ∀ path v, (Value.object m).IsLeaf path v ↔ Lasts es path v
  trim : (Value.object m).IsTrim
  clear : Clear es

theorem sound_nil : Sound [] [] := by
  refine ⟨fun path v => ⟨?_, ?_⟩, ⟨?_, ?_⟩, List.Pairwise.nil⟩
  · rintro ⟨hlookup, hv⟩
    cases path with
    | nil =>
        cases hlookup
        cases hv
    | cons k path => cases hlookup
  · rintro ⟨before, p, after, hsplit, -⟩
    exact absurd hsplit (by simp)
  · intro path ms h
    cases path with
    | nil =>
        cases h
        exact List.nodup_nil
    | cons k path => cases h
  · intro path ms h hne
    rw [Value.lookup_empty hne] at h
    cases h

theorem sound_place (hm : Sound es m) (hpath : e.1.keyPath ≠ []) (hv : e.2.isObject = false)
    (h : place m e = .ok m') : Sound (es ++ [e]) m' := by
  have hput := place_eq_ok.1 h
  refine ⟨?_, Value.isTrim_putAt hput hv hm.trim, ?_⟩
  · intro path v
    rw [Value.isLeaf_putAt hput hv, keyPath_split hpath, hm.leaves, lasts_concat]
  · refine List.pairwise_append.2 ⟨hm.clear, List.pairwise_singleton _ _, ?_⟩
    intro f hf _ he hthrough
    rw [List.mem_singleton.1 he] at hthrough
    obtain ⟨path, v, hlasts, hprefix⟩ := exists_lasts hf
    have hbefore : path <+: e.1.keyPath.dropLast :=
      hprefix.trans ((prefix_dropLast_iff hpath).2 hthrough)
    obtain ⟨b, herror, -⟩ := ((hm.leaves path v).2 hlasts).putAt_error hbefore
      (e.1.keyPath.getLastD "") e.2 0
    rw [hput] at herror
    cases herror

theorem clash_place (hm : Sound es m) (hpath : e.1.keyPath ≠ []) {fault : MappingFault}
    (h : place m e = .error fault) (after : List Placement) :
    IsClash (es ++ e :: after) fault := by
  obtain ⟨b, hput, rfl⟩ := place_eq_error.1 h
  obtain ⟨q, w, hq, hleaf, -⟩ := Value.putAt_eq_error.1 hput
  obtain ⟨p, hp, hpq⟩ := ((hm.leaves _ w).1 hleaf).mem
  refine ⟨es, e.1, e.2, after, q ++ [b.key], b.key, rfl, hm.clear, ?_,
    (prefix_dropLast_iff hpath).1 hq, ?_, List.getLast?_concat, rfl⟩
  · rw [← hpq]
    exact List.mem_map_of_mem hp
  · intro q' hq' hthrough
    obtain ⟨f, hf, rfl⟩ := List.mem_map.1 hq'
    obtain ⟨path, v, hlasts, hprefix⟩ := exists_lasts hf
    have hother := (hm.leaves path v).2 hlasts
    have hbefore := hprefix.trans ((prefix_dropLast_iff hpath).2 hthrough)
    -- both leaves stand on one way, so they are one
    have hsame : path = q ++ [b.key] := by
      rcases List.prefix_or_prefix_of_prefix hbefore hq with hle | hle
      · exact hother.eq_of_prefix hleaf hle
      · exact (hleaf.eq_of_prefix hother hle).symm
    rw [← hsame]
    exact hprefix.length_le

theorem clash_not_clear {fault : MappingFault} (h : IsClash es fault) : ¬ Clear es := by
  obtain ⟨before, p, v, after, q, segment, rfl, -, hq, hthrough, -⟩ := h
  obtain ⟨f, hf, rfl⟩ := List.mem_map.1 hq
  intro hclear
  exact (List.pairwise_append.1 hclear).2.2 f hf (p, v) List.mem_cons_self hthrough

/-- A run of placements either goes well to its end or fails at the first clash. -/
theorem run_sound (hm : Sound es m) {fs : List Placement} (hpath : ∀ e ∈ fs, e.1.keyPath ≠ [])
    (hv : ∀ e ∈ fs, e.2.isObject = false) :
    (∀ m', fs.foldlM place m = .ok m' → Sound (es ++ fs) m') ∧
      ∀ fault, fs.foldlM place m = .error fault → IsClash (es ++ fs) fault := by
  induction fs generalizing es m with
  | nil =>
      rw [List.append_nil]
      constructor
      · intro m' h
        cases h
        exact hm
      · intro fault h
        cases h
  | cons e fs ih =>
      rw [List.forall_mem_cons] at hpath hv
      rw [List.foldlM_cons]
      cases hplace : place m e with
      | error fault =>
          constructor
          · intro m' h
            cases h
          · intro fault' h
            cases h
            exact clash_place hm hpath.1 hplace fs
      | ok m₁ =>
          have hnext := ih (sound_place hm hpath.1 hv.1 hplace) hpath.2 hv.2
          rw [List.append_assoc] at hnext
          exact hnext

/-- A run on values of a row is that of the placements. -/
theorem foldlM_placeRaw {as : List Placement}
    (h : List.Forall₂ (fun e f => e.1.placed e.2 = .ok f.2 ∧ f.1 = e.1) as es) (m : Record Value) :
    as.foldlM placeRaw m = es.foldlM place m := by
  induction h generalizing m with
  | nil => rfl
  | @cons e f as es he _ ih =>
      have hplace : placeRaw m e = place m f := by
        rw [placeRaw, he.1, ok_bind, ← he.2]
      rw [List.foldlM_cons, List.foldlM_cons, hplace]
      congr 1
      funext m'
      exact ih m'

theorem isObject_of_placed {p : FieldPlan} {v w : Value} (h : p.placed v = .ok w)
    (hw : w.isObject = false) : v.isObject = false := by
  cases v with
  | object ms =>
      cases hf : p.mapping.isFragment with
      | true => simp [FieldPlan.placed, hf, readFragment] at h
      | false =>
          rw [FieldPlan.placed, hf] at h
          cases h
          cases hw
  | _ => rfl

theorem forall_not_object {as : List Placement}
    (h : List.Forall₂ (fun e f => e.1.placed e.2 = .ok f.2 ∧ f.1 = e.1) as es)
    (hv : ∀ f ∈ es, f.2.isObject = false) : ∀ e ∈ as, e.2.isObject = false := by
  induction h with
  | nil => exact List.forall_mem_nil _
  | cons he _ ih =>
      rw [List.forall_mem_cons] at hv ⊢
      exact ⟨isObject_of_placed he.1 hv.1, ih hv.2⟩

end Placement

namespace Plan

variable {plan : Plan} {row : Row} {es : List Placement}

/-- Where no value to place is an object, none of the active values is one, so that no path can go
on behind an object of the row. -/
theorem staysOut_of_placements (hes : FieldPlan.placements row plan.fields = .ok es)
    (hv : ∀ e ∈ es, e.2.isObject = false) :
    Placement.StaysOut (FieldPlan.active row plan.fields) := by
  have hnone := Placement.forall_not_object (FieldPlan.forall₂_placements hes) hv
  rintro before f after path ms hsplit hlasts hthrough
  obtain ⟨p, hp, -⟩ := hlasts.mem
  rw [hsplit, List.forall_mem_append] at hnone
  cases hnone.1 _ hp

theorem insertDocument_eq_run (hes : FieldPlan.placements row plan.fields = .ok es)
    (hv : ∀ e ∈ es, e.2.isObject = false) :
    (plan.insertDocument row).answer = Value.object <$> es.foldlM Placement.place [] := by
  rw [(insertDocument_of_staysOut (staysOut_of_placements hes hv)).2,
    Placement.foldlM_placeRaw (FieldPlan.forall₂_placements hes)]

/-- Where no value to place is an object, a row has no document exactly when a key path goes through
that of an earlier field, and the fault is the first such. Else the leaves of the document are the
values that no later field covers; there is no empty object and no name twice. -/
theorem insertDocument_leaves (hes : FieldPlan.placements row plan.fields = .ok es)
    (hv : ∀ e ∈ es, e.2.isObject = false) :
    ((∃ fault, (plan.insertDocument row).answer = .error fault) ↔ ¬ Placement.Clear es) ∧
      (∀ fault, (plan.insertDocument row).answer = .error fault → Placement.IsClash es fault) ∧
      ∀ doc, (plan.insertDocument row).answer = .ok doc →
        (∀ path v, doc.IsLeaf path v ↔ Placement.Lasts es path v) ∧ doc.IsTrim := by
  obtain ⟨hok, herror⟩ := Placement.run_sound Placement.sound_nil
    (FieldPlan.keyPath_of_placements hes) hv
  rw [List.nil_append] at hok herror
  rw [insertDocument_eq_run hes hv]
  cases hrun : es.foldlM Placement.place [] with
  | error fault =>
      have hclash := herror fault hrun
      refine ⟨?_, ?_, ?_⟩
      · constructor
        · intro _
          exact Placement.clash_not_clear hclash
        · intro _
          exact ⟨fault, rfl⟩
      · intro fault' h
        cases h
        exact hclash
      · intro doc h
        cases h
  | ok m =>
      have hsound := hok m hrun
      refine ⟨?_, ?_, ?_⟩
      · constructor
        · rintro ⟨fault, h⟩
          cases h
        · intro h
          exact absurd hsound.clear h
      · intro fault h
        cases h
      · intro doc h
        cases h
        exact ⟨hsound.leaves, hsound.trim⟩

/-- Four fields: the second covers the first, the third has its incoming name as key, and the last
goes through the second. -/
def crossing : Plan where
  write := {}
  modifierMode := false
  fields := [
    ⟨⟨"x.y", ["x", "y"], none⟩, { incomingName := "a", documentPath := "x.y" }⟩,
    ⟨⟨"x", ["x"], none⟩, { incomingName := "b", documentPath := "x" }⟩,
    ⟨⟨"z", ["z"], none⟩, { incomingName := "c", documentPath := "z", useIncomingName := true }⟩,
    ⟨⟨"x.w", ["x", "w"], none⟩, { incomingName := "d", documentPath := "x.w" }⟩]
  indexes := []
  vars := []

theorem insertDocument_leaves_crossing :
    let doc := Value.object [("x", .int 2), ("z", .object [("c", .int 3)])]
    let es := crossing.fields.take 3 |>.zip [.int 1, .int 2, .int 3]
    let clash := MappingFault.blocked "d" "x.w" "x"
    (crossing.insertDocument [("a", .int 1), ("b", .int 2), ("c", .int 3)]).answer = .ok doc ∧
      (∀ path v, doc.IsLeaf path v ↔ Placement.Lasts es path v) ∧ doc.IsTrim ∧
      (crossing.insertDocument [("b", .int 2), ("d", .int 4)]).answer = .error clash ∧
      Placement.IsClash [(crossing.fields[1], .int 2), (crossing.fields[3], .int 4)] clash := by
  intro doc es clash
  have hes : FieldPlan.placements [("a", .int 1), ("b", .int 2), ("c", .int 3)] crossing.fields =
      .ok es := rfl
  have hv : ∀ e ∈ es, e.2.isObject = false := by decide
  have hes' : FieldPlan.placements [("b", .int 2), ("d", .int 4)] crossing.fields =
      .ok [(crossing.fields[1], .int 2), (crossing.fields[3], .int 4)] := rfl
  have hv' : ∀ e ∈ [(crossing.fields[1], Value.int 2), (crossing.fields[3], .int 4)],
      e.2.isObject = false := by decide
  obtain ⟨hleaves, htrim⟩ := (insertDocument_leaves hes hv).2.2 doc rfl
  exact ⟨rfl, hleaves, htrim, rfl, (insertDocument_leaves hes' hv').2.1 clash rfl⟩

end Plan

end DocumentSink
