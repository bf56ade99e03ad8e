import DocumentSink.Proofs.Bodies
import DocumentSink.Proofs.Compile
import DocumentSink.Proofs.Held
import DocumentSink.Proofs.History

/-!
Dotted keys. A query and an update name by one text the place that a document has at the end of a
path of keys. Where no key path leads to another, the value under a dotted key is the value at that
place, and the key splits into that path, unless an incoming name has a point of its own in it.
-/

namespace DocumentSink

namespace Placement

/-- No key path leads to another. -/
def Apart (es : List Placement) : Prop :=
  es.Pairwise fun e f => ¬ e.1.keyPath <+: f.1.keyPath ∧ ¬ f.1.keyPath <+: e.1.keyPath

instance (es : List Placement) : Decidable (Apart es) :=
  inferInstanceAs (Decidable (es.Pairwise _))

variable {es : List Placement} {m m' : Record Value}

/-- Where no key path leads to another, none goes on behind an object. -/
theorem Apart.staysOut (h : Apart es) : StaysOut es := by
  apply staysOut_of_pairwise
  apply h.imp
  intro e f hapart _ hthrough
  exact hapart.1 hthrough.1

/-- Each value is at the end of its own path when all are placed. -/
theorem lookup_of_apart (hpaths : ∀ e ∈ es, e.1.keyPath ≠ []) (hapart : Apart es)
    (h : es.foldlM placeRaw m = .ok m') :
    ∀ e ∈ es, ∃ w, e.1.placed e.2 = .ok w ∧ Value.lookup e.1.keyPath (.object m') = some w := by
  induction es generalizing m with
  | nil => exact List.forall_mem_nil _
  | cons e es ih =>
      rw [List.forall_mem_cons] at hpaths
      obtain ⟨hfirst, hrest⟩ := List.pairwise_cons.1 hapart
      rw [List.foldlM_cons, bind_eq_ok] at h
      obtain ⟨m₁, hplace, hrun⟩ := h
      refine List.forall_mem_cons.2 ⟨?_, ih hpaths.2 hrest hrun⟩
      obtain ⟨w, hw, hfound⟩ := lookup_placeRaw hpaths.1 hplace
      refine ⟨w, hw, ?_⟩
      rw [lookup_run_of_apart hpaths.2 (fun f hf => (hfirst f hf).symm) hrun, hfound]

end Placement

namespace FieldPlan

variable {p : FieldPlan}

/-- The dotted path splits into the keys that it was joined from, if none of them has a point. -/
theorem splitOn_dotted (hinert : p.inert = false) (hsegments : ∀ s ∈ p.segments, '.' ∉ s.toList)
    (hterminal : ∀ name ∈ p.terminal, '.' ∉ name.toList) :
    Text.splitOn '.' p.dotted = p.keyPath :=
  Text.splitOn_joinWith (keyPath_ne_nil hinert) (List.forall_mem_append.2 ⟨hsegments, hterminal⟩)

end FieldPlan

/-- The value of every field that has one is in the document, at the end of the field's path. -/
def Stands (row : Row) (fields : List FieldPlan) (doc : Value) : Prop :=
  ∀ e ∈ FieldPlan.active row fields, ∃ w, e.1.placed e.2 = .ok w ∧ doc.lookup e.1.keyPath = some w

/-- A dotted key is that of a field with a value in the row, and the value under it is the one at the
end of the field's path. Split at its points the key leads there as well, unless it ends in an
incoming name that holds a point. -/
def Leads (row : Row) (fields : List FieldPlan) (doc : Value) (pair : String × Value) : Prop :=
  ∃ e ∈ FieldPlan.active row fields, e.1.dotted = pair.1 ∧
    doc.lookup e.1.keyPath = some pair.2 ∧
    ((∀ name ∈ e.1.terminal, '.' ∉ name.toList) →
      doc.lookup (Text.splitOn '.' pair.1) = some pair.2)

/-- Every field with a value in the row has its dotted key, and every key leads to its value. -/
structure Addresses (row : Row) (fields : List FieldPlan) (doc : Value) (pairs : Record Value) :
    Prop where
  keys : ∀ e ∈ FieldPlan.active row fields, e.1.dotted ∈ pairs.names
  leads : ∀ pair ∈ pairs, Leads row fields doc pair

section Leading

variable {row : Row} {ps qs : List FieldPlan} {doc : Value}

theorem Stands.mono (h : Stands row qs doc) (hsub : ps ⊆ qs) : Stands row ps doc :=
  fun e he => h e (FieldPlan.active_subset hsub he)

/-- Where the values of fields stand, there is an entry for each. -/
theorem Stands.entries (h : Stands row ps doc) :
    ∃ es, FieldPlan.entries row (ps.map FieldPlan.start) = .ok es ∧
      FieldPlan.EntriesOf row ps es := by
  apply FieldPlan.entries_start
  intro e he
  obtain ⟨w, hw, -⟩ := h e he
  exact ⟨w, hw⟩

theorem Stands.addresses (h : Stands row ps doc)
    (hsegments : ∀ p ∈ ps, ∀ s ∈ p.segments, '.' ∉ s.toList)
    {es : List (FieldPlan × String × Value)} (hes : FieldPlan.EntriesOf row ps es) :
    Addresses row ps doc (pairsOf es) := by
  constructor
  · intro e he
    obtain ⟨w, hw, -⟩ := h e he
    exact mem_names_pairsOf ((hes (e.1.start, e.1.dotted, w)).2 ⟨e, he, rfl, rfl, hw⟩)
  · intro pair hpair
    obtain ⟨t, ht, rfl⟩ := mem_pairsOf hpair
    obtain ⟨e, he, -, hkey, hv⟩ := (hes t).1 ht
    obtain ⟨w, hw, hlookup⟩ := h e he
    rw [hv] at hw
    cases hw
    obtain ⟨hp, hvalue⟩ := FieldPlan.mem_active.1 he
    refine ⟨e, he, hkey.symm, hlookup, ?_⟩
    intro hterminal
    rw [hkey, FieldPlan.splitOn_dotted (FieldPlan.inert_of_value? hvalue) (hsegments e.1 hp)
      hterminal, hlookup]

end Leading

namespace Plan

variable {plan : Plan} {row : Row} {doc : Value}

/-- The fields under one operator in an update of a branch. -/
def updateFields (plan : Plan) (isInsert : Bool) (token : String) : List FieldPlan :=
  (plan.fields.filter fun p => p.mapping.applies plan.modifierMode isInsert).filter fun p =>
    (p.mapping.effectiveOperator plan.modifierMode).token = token

theorem matchFields_subset (plan : Plan) : plan.matchFields ⊆ plan.fields :=
  List.filter_subset_self _

theorem updateFields_subset (plan : Plan) (isInsert : Bool) (token : String) :
    plan.updateFields isInsert token ⊆ plan.fields :=
  List.Subset.trans (List.filter_subset_self _) (List.filter_subset_self _)

/-- The values of fields that are apart stand where they were placed. -/
theorem stands_insertDocument (hapart : Placement.Apart (FieldPlan.active row plan.fields))
    (hdoc : (plan.insertDocument row).answer = .ok doc) : Stands row plan.fields doc := by
  rw [(insertDocument_of_staysOut hapart.staysOut).2, map_eq_ok] at hdoc
  obtain ⟨m, hrun, rfl⟩ := hdoc
  exact Placement.lookup_of_apart (FieldPlan.keyPath_of_active row plan.fields) hapart hrun

theorem matchQuery_of_stands (h : Stands row plan.fields doc)
    (hsegments : ∀ p ∈ plan.fields, ∀ s ∈ p.segments, '.' ∉ s.toList) :
    ∃ query, (plan.matchQuery row).answer = .ok (.object query) ∧
      Addresses row plan.matchFields doc query := by
  have hsub := matchFields_subset plan
  obtain ⟨es, hes, hentries⟩ := (h.mono hsub).entries
  rw [answer_matchQuery, hes]
  exact ⟨_, rfl, (h.mono hsub).addresses (fun p hp => hsegments p (hsub hp)) hentries⟩

theorem modifierUpdate_of_stands (h : Stands row plan.fields doc)
    (hsegments : ∀ p ∈ plan.fields, ∀ s ∈ p.segments, '.' ∉ s.toList)
    (hmode : plan.modifierMode = true) (isInsert : Bool) :
    ∃ groups, (plan.modifierUpdate row isInsert).answer = .ok (.object groups) ∧
      (∀ token, FieldPlan.active row (plan.updateFields isInsert token) ≠ [] →
        token ∈ Record.names groups) ∧
      ∀ token group, (token, group) ∈ groups → ∃ pairs, group = .object pairs ∧
        Addresses row (plan.updateFields isInsert token) doc pairs := by
  have happlies : (plan.fields.filter fun p => p.mapping.applies plan.modifierMode isInsert) ⊆
      plan.fields := List.filter_subset_self _
  obtain ⟨es, hes, hentries⟩ := (h.mono happlies).entries
  have hsub := updateFields_subset plan isInsert
  have hunder (token : String) : FieldPlan.EntriesOf row (plan.updateFields isInsert token)
      (es.filter fun t => (t.1.mapping.effectiveOperator plan.modifierMode).token = token) :=
    hentries.filter fun _ => rfl
  rw [answer_modifierUpdate hmode, hes]
  refine ⟨_, rfl, ?_, ?_⟩
  · intro token hactive
    obtain ⟨e, he⟩ := List.exists_mem_of_ne_nil _ hactive
    obtain ⟨w, hw, -⟩ := h.mono (hsub token) e he
    have hmem := (hunder token (e.1.start, e.1.dotted, w)).2 ⟨e, he, rfl, rfl, hw⟩
    obtain ⟨ht, htoken⟩ := List.mem_filter.1 hmem
    rw [Record.names, List.map_map]
    exact mem_names_groupsOf.2 ⟨_, ht, of_decide_eq_true htoken⟩
  · intro token group hgroup
    obtain ⟨⟨token', pairs⟩, hpairs, heq⟩ := List.mem_map.1 hgroup
    cases heq
    refine ⟨pairs, rfl, ?_⟩
    rw [eq_pairsOf_of_mem hpairs]
    exact (h.mono (hsub token)).addresses (fun p hp => hsegments p (hsub token hp)) (hunder token)

/-- Where a row has a document and no key path in it leads to another, its query and its updates
come as well, whatever calls there were before each of them. They have a key for every field that
counts, and every dotted key in them leads to its value in the document. -/
theorem dotted_insertDocument {d : Definition} {vars : Variables}
    (hplan : d.compile vars = .ok plan) (before later : List PlanCall)
    (row : Row) (doc : Value) (hdoc : ((plan.run before).1.insertDocument row).answer = .ok doc)
    (hapart : Placement.Apart (FieldPlan.active row plan.fields)) :
    (∃ query, ((plan.run later).1.matchQuery row).answer = .ok (.object query) ∧
      Addresses row plan.matchFields doc query) ∧
    (plan.modifierMode = true → ∀ isInsert, ∃ groups,
      ((plan.run later).1.modifierUpdate row isInsert).answer = .ok (.object groups) ∧
      (∀ token, FieldPlan.active row (plan.updateFields isInsert token) ≠ [] →
        token ∈ Record.names groups) ∧
      ∀ token group, (token, group) ∈ groups → ∃ pairs, group = .object pairs ∧
        Addresses row (plan.updateFields isInsert token) doc pairs) := by
  have hlater := startRow_run plan later
  rw [insertDocument_congr (startRow_run plan before)] at hdoc
  have hstands := stands_insertDocument hapart hdoc
  have hsegments := Definition.no_point_of_compile hplan
  constructor
  · rw [matchQuery_congr hlater]
    exact matchQuery_of_stands hstands hsegments
  · intro hmode isInsert
    rw [(modifierUpdate_congr hlater row isInsert).1]
    exact modifierUpdate_of_stands hstands hsegments hmode isInsert

/-- A match key, an incoming name as a key beside it, and a path that begins with a variable. -/
def addressing : Definition where
  mappings := [{ incomingName := "k", documentPath := "x.y", isMatchKey := true },
    { incomingName := "n", documentPath := "x", useIncomingName := true, operator := .set },
    { incomingName := "s", documentPath := "%%P%%.z", operator := .set }]
  write := { modifierUpdate := true }

def addressed : Plan where
  write := addressing.write
  modifierMode := true
  fields := [
    ⟨⟨"x.y", ["x", "y"], none⟩, addressing.mappings[0]⟩,
    ⟨⟨"x", ["x"], none⟩, addressing.mappings[1]⟩,
    ⟨⟨"%%P%%.z", ["w", "z"], none⟩, addressing.mappings[2]⟩]
  indexes := []
  vars := [("P", .text "w")]

theorem dotted_insertDocument_addressed :
    let row : Row := [("k", .int 1), ("n", .int 2), ("s", .int 3)]
    let doc := Value.object [
      ("x", .object [("y", .int 1), ("n", .int 2)]), ("w", .object [("z", .int 3)])]
    let before := [PlanCall.insertDocument [("n", .int 4)], .field 2 .advance]
    addressing.compile [("P", .text "w")] = .ok addressed ∧
      ((addressed.run before).1.insertDocument row).answer = .ok doc ∧
      (addressed.matchQuery row).answer = .ok (.object [("x.y", .int 1)]) ∧
      (addressed.modifierUpdate row false).answer =
        .ok (.object [("$set", .object [("x.n", .int 2), ("w.z", .int 3)])]) ∧
      doc.lookup (Text.splitOn '.' "x.y") = some (.int 1) ∧
      doc.lookup (Text.splitOn '.' "x.n") = some (.int 2) ∧
      doc.lookup (Text.splitOn '.' "w.z") = some (.int 3) := by
  intro row doc before
  have hfields : addressing.mappings.map (FieldPlan.ofMapping [("P", .text "w")]) =
      addressed.fields := by
    decide +kernel
  have hplan : addressing.compile [("P", .text "w")] = .ok addressed := by
    change Except.ok (Plan.mk _ _ (addressing.mappings.map _) _ _) = _
    rw [hfields]
    rfl
  obtain ⟨⟨query, hquery, hpairs⟩, hgroups⟩ :=
    dotted_insertDocument hplan before [] row doc rfl (by decide)
  obtain ⟨groups, hupdate, -, hgroup⟩ := hgroups rfl false
  cases hquery
  cases hupdate
  obtain ⟨pairs, hset, hunder⟩ := hgroup _ _ List.mem_cons_self
  cases hset
  -- no incoming name has a point in it
  have hnames : ∀ e ∈ FieldPlan.active row addressed.fields, ∀ name ∈ e.1.terminal,
      '.' ∉ name.toList := by
    decide
  have hsplit {fields : List FieldPlan} {pair : String × Value} (hsub : fields ⊆ addressed.fields)
      (h : Leads row fields doc pair) :
      doc.lookup (Text.splitOn '.' pair.1) = some pair.2 := by
    obtain ⟨e, he, -, -, hlookup⟩ := h
    exact hlookup (hnames e (FieldPlan.active_subset hsub he))
  have hmatch := hsplit (matchFields_subset _) (hpairs.leads _ List.mem_cons_self)
  have hfirst := hsplit (updateFields_subset _ _ _) (hunder.leads _ List.mem_cons_self)
  have hsecond := hsplit (updateFields_subset _ _ _)
    (hunder.leads _ (List.mem_cons_of_mem _ List.mem_cons_self))
  exact ⟨hplan, rfl, rfl, rfl, hmatch, hfirst, hsecond⟩

/-- An incoming name with a point in it, as the key of a match key. -/
def pointed : Definition where
  mappings := [{
    incomingName := "a.b"
    documentPath := "x"
    useIncomingName := true
    isMatchKey := true }]

/-- The dotted key of the query splits into three keys, where the document has two. -/
theorem dotted_insertDocument_pointed :
    let row : Row := [("a.b", .int 1)]
    ∃ plan doc, pointed.compile [] = .ok plan ∧
      Placement.Apart (FieldPlan.active row plan.fields) ∧
      (plan.insertDocument row).answer = .ok doc ∧
      doc = .object [("x", .object [("a.b", .int 1)])] ∧
      (plan.matchQuery row).answer = .ok (.object [("x.a.b", .int 1)]) ∧
      doc.lookup (Text.splitOn '.' "x.a.b") = none := by
  intro row
  have hfields : pointed.mappings.map (FieldPlan.ofMapping []) =
      [⟨⟨"x", ["x"], none⟩, pointed.mappings[0]⟩] := by
    decide +kernel
  have hplan : pointed.compile [] = .ok
      ⟨{}, false, pointed.mappings.map (FieldPlan.ofMapping []), [], []⟩ := rfl
  rw [hfields] at hplan
  exact ⟨_, _, hplan, by decide, rfl, rfl, rfl, by decide +kernel⟩

end Plan

end DocumentSink
