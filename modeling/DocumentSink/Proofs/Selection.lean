import DocumentSink.Proofs.Bodies
import DocumentSink.Proofs.History

/-!
Which fields count in a query and in an update of a row, and what the bodies have of them. Fields
that do not count are not looked at, so only the fragments of those that do can fail, and the first
that fails is the fault. Of fields with one dotted path the last has its value in the body. Main
statement: the answers to a query and to an update, after any calls on the plan.
-/

namespace DocumentSink

namespace FieldPlan

/-- The value that a row has under the incoming name of a field. -/
def valueIn (row : Row) (p : FieldPlan) : Value :=
  (Record.get? p.mapping.incomingName row).getD .null

/-- The field names a key, and the row has a value for it that is not null. -/
def counts (row : Row) (p : FieldPlan) : Bool := !p.inert && !(p.valueIn row).isNull

def countsInQuery (row : Row) (p : FieldPlan) : Bool := p.mapping.isMatchKey && p.counts row

def countsInUpdate (row : Row) (isInsert : Bool) (p : FieldPlan) : Bool :=
  !p.mapping.isMatchKey && p.mapping.operator ≠ .none && p.mapping.policy.admits isInsert &&
    p.counts row

/-- What a field stores of a row: the value, or for a fragment what its text writes. -/
def Stores (row : Row) (p : FieldPlan) (v : Value) : Prop :=
  if p.mapping.isFragment then readFragment (p.valueIn row) = .ok v else v = p.valueIn row

/-- A field whose fragment writes no value, with the fault that says so. -/
def Fails (row : Row) (p : FieldPlan) (fault : MappingFault) : Prop :=
  p.mapping.isFragment = true ∧ ∃ f, readFragment (p.valueIn row) = .error f ∧
    fault = .fragment p.mapping.incomingName f

variable {row : Row} {p : FieldPlan} {ps : List FieldPlan} {v : Value} {fault : MappingFault}

theorem value?_eq (row : Row) (p : FieldPlan) :
    p.value? row = if p.counts row then some (p.valueIn row) else none := by
  rw [value?, counts, valueIn]
  cases p.inert with
  | true => rfl
  | false =>
      cases Record.get? p.mapping.incomingName row with
      | none => rfl
      | some v => cases v <;> rfl

theorem active_eq : active row ps = (ps.filter (·.counts row)).map fun p => (p, p.valueIn row) := by
  induction ps with
  | nil => rfl
  | cons p ps ih =>
      have hp := value?_eq row p
      cases hc : p.counts row with
      | true =>
          rw [hc, if_pos rfl] at hp
          rw [active_cons_some hp, ih, List.filter_cons_of_pos hc, List.map_cons]
      | false =>
          rw [hc, if_neg Bool.false_ne_true] at hp
          rw [active_cons_none hp, ih, List.filter_cons_of_neg (by simpa using hc)]

theorem placed_eq_ok : p.placed (p.valueIn row) = .ok v ↔ p.Stores row v := by
  rw [placed, Stores]
  split
  · cases readFragment (p.valueIn row) <;> simp
  · simp [eq_comm]

theorem placed_eq_error : p.placed (p.valueIn row) = .error fault ↔ p.Fails row fault := by
  rw [placed, Fails]
  split
  · next h => cases readFragment (p.valueIn row) <;> simp [h, eq_comm]
  · next h => simp [h]

/-- What a field stores where it stores something. -/
def storedValue (row : Row) (p : FieldPlan) : Value :=
  match p.placed (p.valueIn row) with
  | .ok v => v
  | .error _ => .null

/-- The entry of a field at the beginning of a row. -/
def entry (row : Row) (p : FieldPlan) : FieldPlan × String × Value :=
  (p.start, p.dotted, p.storedValue row)

theorem entries_map_start : entries row (ps.map start) =
    (ps.filter (·.counts row)).mapM fun p => do
      let v ← p.placed (p.valueIn row)
      return (p.start, p.dotted, v) := by
  have hfilter : (ps.map start).filter (·.counts row) = (ps.filter (·.counts row)).map start :=
    List.filter_map
  rw [entries, active_eq, hfilter, List.map_map, List.mapM_map]
  rfl

theorem entries_eq_ok {es : List (FieldPlan × String × Value)} :
    entries row (ps.map start) = .ok es ↔
      (∀ p ∈ ps.filter (·.counts row), ∃ v, p.Stores row v) ∧
        es = (ps.filter (·.counts row)).map (entry row) := by
  rw [entries_map_start]
  apply mapM_eq_ok_iff_map
  intro p e
  simp only [← placed_eq_ok, entry, storedValue]
  cases p.placed (p.valueIn row) <;> simp [eq_comm]

end FieldPlan

/-- The first of some fields that fails, with its fault. -/
def FirstFails (row : Row) (ps : List FieldPlan) (fault : MappingFault) : Prop :=
  ∃ before p after, ps = before ++ p :: after ∧ (∀ q ∈ before, ∃ v, q.Stores row v) ∧
    p.Fails row fault

/-- Under each dotted path stands what the last of the fields with that path stores. -/
structure HoldsLatest (row : Row) (ps : List FieldPlan) (pairs : Record Value) : Prop where
  nodup : pairs.names.Nodup
  mem_iff : ∀ key v, (key, v) ∈ pairs ↔
    ∃ p, Latest (fun q => q.dotted = key) ps p ∧ p.dotted = key ∧ p.Stores row v

/-- Under each operator of the fields, and under nothing else, stands a group of the fields with
that operator. -/
structure HoldsGroups (row : Row) (ps : List FieldPlan) (groups : Record Value) : Prop where
  nodup : groups.names.Nodup
  mem_iff : ∀ token, token ∈ groups.names ↔
    ∃ o, o ≠ .none ∧ o.token = token ∧ ∃ p ∈ ps, p.mapping.operator = o
  group : ∀ o v, (o.token, v) ∈ groups → ∃ pairs, v = .object pairs ∧ pairs ≠ [] ∧
    HoldsLatest row (ps.filter fun p => p.mapping.operator = o) pairs

/-- An answer that is made of some fields: it fails exactly if one of them does, with the fault of
the first that does, and else it is a body. -/
structure MadeOf (row : Row) (ps : List FieldPlan) (IsBody : Record Value → Prop)
    (answer : Except MappingFault Value) : Prop where
  fails_iff : (∃ fault, answer = .error fault) ↔ ∃ p ∈ ps, ∃ fault, p.Fails row fault
  first : ∀ fault, answer = .error fault → FirstFails row ps fault
  body : ∀ v, answer = .ok v → ∃ members, v = .object members ∧ IsBody members

section Answers

variable {row : Row} {ps : List FieldPlan}

theorem FieldPlan.Fails.not_stores {p : FieldPlan} {fault : MappingFault} (h : p.Fails row fault) :
    ¬ ∃ v, p.Stores row v := by
  rintro ⟨v, hv⟩
  rw [← FieldPlan.placed_eq_error, FieldPlan.placed_eq_ok.2 hv] at h
  cases h

theorem FieldPlan.storedValue_eq_iff {p : FieldPlan} (h : ∃ v, p.Stores row v) (v : Value) :
    p.storedValue row = v ↔ p.Stores row v := by
  obtain ⟨w, hw⟩ := h
  rw [← FieldPlan.placed_eq_ok] at hw
  rw [← FieldPlan.placed_eq_ok, FieldPlan.storedValue, hw, Except.ok.injEq]

theorem FieldPlan.entries_eq_error {fault : MappingFault} :
    FieldPlan.entries row (ps.map FieldPlan.start) = .error fault ↔
      FirstFails row (ps.filter (·.counts row)) fault := by
  have hfield (p : FieldPlan) : (do
      let v ← p.placed (p.valueIn row)
      return (p.start, p.dotted, v)) = .error fault ↔ p.Fails row fault := by
    rw [← FieldPlan.placed_eq_error]
    cases p.placed (p.valueIn row) <;> simp
  have hok (p : FieldPlan) : (∃ e, (do
      let v ← p.placed (p.valueIn row)
      return (p.start, p.dotted, v)) = Except.ok (ε := MappingFault) e) ↔ ∃ v, p.Stores row v := by
    simp only [← FieldPlan.placed_eq_ok]
    cases p.placed (p.valueIn row) <;> simp
  rw [FieldPlan.entries_map_start, mapM_eq_error_iff]
  simp only [hfield, hok, FirstFails]

/-- The pairs of the entries of fields that all store something. -/
theorem holdsLatest_pairsOf (h : ∀ p ∈ ps, ∃ v, p.Stores row v) :
    HoldsLatest row ps (pairsOf (ps.map (FieldPlan.entry row))) := by
  refine ⟨Record.nodup_foldl_put List.nodup_nil, ?_⟩
  intro key v
  rw [mem_pairsOf_iff]
  simp only [latest_map, FieldPlan.entry, Prod.mk.injEq]
  constructor
  · rintro ⟨_, p, ⟨-, hkey, hv⟩, hlatest⟩
    exact ⟨p, hlatest, hkey, (FieldPlan.storedValue_eq_iff (h p hlatest.mem) v).1 hv⟩
  · rintro ⟨p, hlatest, hkey, hv⟩
    exact ⟨p.start, p, ⟨rfl, hkey, (FieldPlan.storedValue_eq_iff ⟨v, hv⟩ v).2 hv⟩, hlatest⟩

theorem Operator.token_inj {o o' : Operator} (h : o.token = o'.token) : o = o' := by
  revert h
  cases o <;> cases o' <;> decide

/-- The groups of the entries of fields that all store something under an operator. -/
theorem holdsGroups_groupsOf {mode : Bool}
    (hoperator : ∀ p ∈ ps, p.mapping.effectiveOperator mode = p.mapping.operator ∧
      p.mapping.operator ≠ .none)
    (h : ∀ p ∈ ps, ∃ v, p.Stores row v) :
    HoldsGroups row ps ((groupsOf (·.mapping.effectiveOperator mode)
      (ps.map (FieldPlan.entry row))).map fun (token, group) => (token, .object group)) := by
  have hnames (groups : Record (Record Value)) :
      Record.names (groups.map fun (token, group) => (token, Value.object group)) =
        groups.names := by
    rw [Record.names, List.map_map]
    rfl
  have hunder (o : Operator) : ((ps.map (FieldPlan.entry row)).filter fun t =>
      (t.1.mapping.effectiveOperator mode).token = o.token) =
        (ps.filter fun p => p.mapping.operator = o).map (FieldPlan.entry row) := by
    rw [List.filter_map]
    congr 1
    apply List.filter_congr
    intro p hp
    simp only [Function.comp_apply, FieldPlan.entry, FieldPlan.start, (hoperator p hp).1]
    exact decide_eq_decide.2 ⟨Operator.token_inj, congrArg Operator.token⟩
  refine ⟨?_, ?_, ?_⟩
  · rw [hnames]
    exact Record.nodup_foldl_put List.nodup_nil
  · intro token
    rw [hnames, mem_names_groupsOf]
    constructor
    · rintro ⟨t, ht, rfl⟩
      obtain ⟨p, hp, rfl⟩ := List.mem_map.1 ht
      obtain ⟨heffective, hne⟩ := hoperator p hp
      exact ⟨p.mapping.operator, hne, congrArg Operator.token heffective.symm, p, hp, rfl⟩
    · rintro ⟨_, -, rfl, p, hp, rfl⟩
      exact ⟨_, List.mem_map_of_mem hp, congrArg Operator.token (hoperator p hp).1⟩
  · intro o v hv
    obtain ⟨⟨token, group⟩, hgroup, heq⟩ := List.mem_map.1 hv
    cases heq
    have hpairs := eq_pairsOf_of_mem hgroup
    rw [hunder] at hpairs
    refine ⟨group, rfl, ?_, ?_⟩
    · obtain ⟨t, ht, htoken⟩ := mem_names_groupsOf.1 (List.mem_map_of_mem hgroup)
      rw [hpairs, ← hunder]
      exact pairsOf_ne_nil (List.ne_nil_of_mem (List.mem_filter.2 ⟨ht, decide_eq_true htoken⟩))
    · rw [hpairs]
      exact holdsLatest_pairsOf fun p hp => h p (List.mem_of_mem_filter hp)

/-- What is made of the entries of some fields is made of those that count. -/
theorem madeOf_entries {IsBody : Record Value → Prop}
    {f : List (FieldPlan × String × Value) → Record Value}
    (hbody : (∀ p ∈ ps.filter (·.counts row), ∃ v, p.Stores row v) →
      IsBody (f ((ps.filter (·.counts row)).map (FieldPlan.entry row)))) :
    MadeOf row (ps.filter (·.counts row)) IsBody
      ((fun es => .object (f es)) <$> FieldPlan.entries row (ps.map FieldPlan.start)) := by
  cases hes : FieldPlan.entries row (ps.map FieldPlan.start) with
  | error fault =>
      have hfirst := FieldPlan.entries_eq_error.1 hes
      rw [map_error]
      refine ⟨⟨fun _ => ?_, fun _ => ⟨fault, rfl⟩⟩, ?_, nofun⟩
      · obtain ⟨before, p, after, hsplit, -, hfails⟩ := hfirst
        rw [hsplit]
        exact ⟨p, List.mem_append_right _ List.mem_cons_self, fault, hfails⟩
      · rintro _ ⟨⟩
        exact hfirst
  | ok es =>
      obtain ⟨hstores, rfl⟩ := FieldPlan.entries_eq_ok.1 hes
      rw [map_ok]
      refine ⟨⟨nofun, ?_⟩, nofun, ?_⟩
      · rintro ⟨p, hp, fault, hfails⟩
        exact absurd (hstores p hp) hfails.not_stores
      · rintro _ ⟨⟩
        exact ⟨_, rfl, hbody hstores⟩

end Answers

namespace Plan

variable {plan : Plan} {row : Row}

theorem filter_matchFields (plan : Plan) (row : Row) :
    plan.matchFields.filter (·.counts row) = plan.fields.filter (·.countsInQuery row) := by
  rw [matchFields, List.filter_filter]
  apply List.filter_congr
  intro p _
  rw [FieldPlan.countsInQuery, FieldPlan.counts]
  cases p.inert <;> cases p.mapping.isMatchKey <;> simp

theorem filter_applies (fields : List FieldPlan) (row : Row) (isInsert : Bool) :
    ((fields.filter fun p => p.mapping.applies true isInsert).filter (·.counts row)) =
      fields.filter (·.countsInUpdate row isInsert) := by
  rw [List.filter_filter]
  apply List.filter_congr
  intro p _
  rw [FieldPlan.countsInUpdate, FieldMapping.applies, FieldMapping.isEffective,
    FieldMapping.effectiveOperator, Bool.and_comm]
  cases p.mapping.isMatchKey <;> simp

theorem operator_of_countsInUpdate {fields : List FieldPlan} {isInsert : Bool} :
    ∀ p ∈ fields.filter (·.countsInUpdate row isInsert),
      p.mapping.effectiveOperator true = p.mapping.operator ∧ p.mapping.operator ≠ .none := by
  intro p hp
  have hcounts := (List.mem_filter.1 hp).2
  simp only [FieldPlan.countsInUpdate, Bool.and_eq_true, Bool.not_eq_true',
    decide_eq_true_eq] at hcounts
  obtain ⟨⟨⟨hkey, hne⟩, -⟩, -⟩ := hcounts
  refine ⟨?_, hne⟩
  rw [FieldMapping.effectiveOperator, hkey]
  rfl

/-- Two match keys and three fields with an operator at equal paths, fragments that count nowhere or
in updates only, and a field that names no key. -/
def selective : Plan where
  write := { modifierUpdate := true }
  modifierMode := true
  fields := [
    ⟨⟨"id", ["id"], none⟩, { incomingName := "k", documentPath := "id", isMatchKey := true }⟩,
    ⟨⟨"id", ["id"], none⟩,
      { incomingName := "l", documentPath := "id", isMatchKey := true, operator := .set }⟩,
    ⟨⟨"x.y", ["x", "y"], none⟩, { incomingName := "a", documentPath := "x.y", operator := .set }⟩,
    ⟨⟨"x.y", ["x", "y"], none⟩, { incomingName := "b", documentPath := "x.y", operator := .push }⟩,
    ⟨⟨"x.y", ["x", "y"], none⟩, { incomingName := "k", documentPath := "x.y", operator := .set }⟩,
    ⟨⟨"f", ["f"], none⟩, { incomingName := "f", documentPath := "f", isFragment := true }⟩,
    ⟨⟨"u", ["u"], none⟩,
      { incomingName := "f", documentPath := "u", operator := .set, policy := .updateOnly,
        isFragment := true }⟩,
    ⟨⟨"", [], none⟩, { incomingName := "f", operator := .set, isFragment := true }⟩]
  indexes := []
  vars := []

end Plan

end DocumentSink
