import DocumentSink.Document.Query
import DocumentSink.Proofs.Placement

/-!
Bodies of queries and updates. Their entries are those of the fields that have a value in the row,
and do not depend on where the cursors stood. A query has the pairs of its entries, and an update
has in the group of each operator the pairs of the entries under it.
-/

namespace DocumentSink

namespace FieldPlan

variable {p : FieldPlan} {ps qs : List FieldPlan} {row : Row}

theorem mem_active {e : Placement} :
    e ∈ active row ps ↔ e.1 ∈ ps ∧ e.1.value? row = some e.2 := by
  obtain ⟨p, v⟩ := e
  simp only [active, List.mem_filterMap, Option.map_eq_some_iff, Prod.mk.injEq]
  constructor
  · rintro ⟨q, hq, w, hw, rfl, rfl⟩
    exact ⟨hq, hw⟩
  · rintro ⟨hp, hv⟩
    exact ⟨p, hp, v, hv, rfl, rfl⟩

theorem active_subset (h : ps ⊆ qs) : active row ps ⊆ active row qs := by
  intro e he
  rw [mem_active] at he ⊢
  exact ⟨h he.1, he.2⟩

/-- The entries of fields at the beginning of a row: one for each field with a value, with the whole
dotted path and what is placed for the value. -/
def EntriesOf (row : Row) (ps : List FieldPlan) (es : List (FieldPlan × String × Value)) : Prop :=
  ∀ t, t ∈ es ↔ ∃ e ∈ active row ps,
    t.1 = e.1.start ∧ t.2.1 = e.1.dotted ∧ e.1.placed e.2 = .ok t.2.2

variable {es : List (FieldPlan × String × Value)}

theorem EntriesOf.skip (h : EntriesOf row ps es) (hvalue : p.value? row = none) :
    EntriesOf row (p :: ps) es := by
  intro t
  rw [active_cons_none hvalue]
  exact h t

theorem EntriesOf.cons {v w : Value} (h : EntriesOf row ps es) (hvalue : p.value? row = some v)
    (hw : p.placed v = .ok w) : EntriesOf row (p :: ps) ((p.start, p.dotted, w) :: es) := by
  intro t
  rw [List.mem_cons, active_cons_some hvalue, h t]
  constructor
  · rintro (rfl | ⟨e, he, hentry⟩)
    · exact ⟨(p, v), List.mem_cons_self, rfl, rfl, hw⟩
    · exact ⟨e, List.mem_cons_of_mem _ he, hentry⟩
  · rintro ⟨e, he, hentry⟩
    rcases List.mem_cons.1 he with rfl | he
    · obtain ⟨q, key, w'⟩ := t
      obtain ⟨rfl, rfl, hw'⟩ := hentry
      rw [hw] at hw'
      cases hw'
      exact .inl rfl
    · exact .inr ⟨e, he, hentry⟩

/-- Fields of some kind have the entries of their kind. -/
theorem EntriesOf.filter (h : EntriesOf row ps es) {kind : FieldPlan → Bool}
    (hkind : ∀ p, kind p.start = kind p) :
    EntriesOf row (ps.filter kind) (es.filter fun t => kind t.1) := by
  intro t
  rw [List.mem_filter, h t]
  constructor
  · rintro ⟨⟨e, he, hentry⟩, ht⟩
    rw [hentry.1, hkind] at ht
    obtain ⟨hp, hvalue⟩ := mem_active.1 he
    exact ⟨e, mem_active.2 ⟨List.mem_filter.2 ⟨hp, ht⟩, hvalue⟩, hentry⟩
  · rintro ⟨e, he, hentry⟩
    obtain ⟨hp, hvalue⟩ := mem_active.1 he
    obtain ⟨hp, ht⟩ := List.mem_filter.1 hp
    refine ⟨⟨e, mem_active.2 ⟨hp, hvalue⟩, hentry⟩, ?_⟩
    rw [hentry.1, hkind]
    exact ht

/-- There are entries if all values can be placed. -/
theorem entries_start (h : ∀ e ∈ active row ps, ∃ w, e.1.placed e.2 = .ok w) :
    ∃ es, entries row (ps.map start) = .ok es ∧ EntriesOf row ps es := by
  induction ps with
  | nil => exact ⟨[], rfl, fun t => ⟨nofun, fun ⟨_, he, _⟩ => nomatch he⟩⟩
  | cons p ps ih =>
      cases hvalue : p.value? row with
      | none =>
          have hstart : p.start.value? row = none := hvalue
          rw [active_cons_none hvalue] at h
          obtain ⟨es, hes, hentries⟩ := ih h
          refine ⟨es, ?_, hentries.skip hvalue⟩
          rw [List.map_cons, entries, active_cons_none hstart]
          exact hes
      | some v =>
          have hstart : p.start.value? row = some v := hvalue
          rw [active_cons_some hvalue] at h
          obtain ⟨⟨w, hw⟩, hrest⟩ := List.forall_mem_cons.1 h
          obtain ⟨es, hes, hentries⟩ := ih hrest
          have hplaced : p.start.placed v = .ok w := hw
          refine ⟨(p.start, p.dotted, w) :: es, ?_, hentries.cons hvalue hw⟩
          rw [entries] at hes
          rw [List.map_cons, entries, active_cons_some hstart, List.mapM_cons]
          simp only [hplaced, ok_bind, hes]
          rfl

end FieldPlan

section Bodies

variable {es : List (FieldPlan × String × Value)} {operator : FieldPlan → Operator}
  {groups : Record (Record Value)} {token : String}

/-- The pairs of keys and values that entries give. -/
def pairsOf (es : List (FieldPlan × String × Value)) : Record Value :=
  es.foldl (fun r (_, key, v) => r.put key v) []

/-- Under a key stands the value of the last entry with that key. -/
theorem mem_pairsOf_iff {key : String} {v : Value} :
    (key, v) ∈ pairsOf es ↔ ∃ p, Latest (fun t => t.2.1 = key) es (p, key, v) := by
  have hget : (key, v) ∈ pairsOf es ↔ (pairsOf es).get? key = some v :=
    ⟨Record.get?_of_mem (Record.nodup_foldl_put List.nodup_nil), Record.mem_of_get?⟩
  rw [hget]
  clear hget
  induction es using List.reverseRecOn with
  | nil => exact ⟨nofun, fun ⟨_, h⟩ => absurd h not_latest_nil⟩
  | append_singleton es t ih =>
      obtain ⟨p, k, w⟩ := t
      have hput : pairsOf (es ++ [(p, k, w)]) = (pairsOf es).put k w := by
        rw [pairsOf, List.foldl_append]
        rfl
      rw [hput]
      simp only [latest_concat, Prod.mk.injEq]
      by_cases hk : k = key
      · subst hk
        simp [eq_comm]
      · simp [Record.get?_put_ne (Ne.symm hk), ih, hk, Ne.symm hk]

theorem mem_pairsOf {pair : String × Value} (h : pair ∈ pairsOf es) : ∃ t ∈ es, t.2 = pair := by
  obtain ⟨p, hlatest⟩ := mem_pairsOf_iff.1 h
  exact ⟨_, hlatest.mem, rfl⟩

theorem mem_names_pairsOf {t : FieldPlan × String × Value} (h : t ∈ es) :
    t.2.1 ∈ (pairsOf es).names :=
  Record.mem_names_foldl_put.2 (.inr ⟨t, h, rfl⟩)

theorem pairsOf_ne_nil (h : es ≠ []) : pairsOf es ≠ [] := by
  obtain ⟨t, ht⟩ := List.exists_mem_of_ne_nil es h
  intro hnil
  have hname := mem_names_pairsOf ht
  rw [hnil] at hname
  cases hname

/-- The groups of an update, from entries with the operator of each. -/
def groupsOf (operator : FieldPlan → Operator) (es : List (FieldPlan × String × Value)) :
    Record (Record Value) :=
  es.foldl (fun groups (p, key, v) => Plan.addUpdate groups (operator p) key v) []

theorem get?_addUpdate_self (groups : Record (Record Value)) (o : Operator) (key : String)
    (v : Value) : ((Plan.addUpdate groups o key v).get? o.token).getD [] =
      ((groups.get? o.token).getD []).put key v := by
  rw [Plan.addUpdate, Record.get?_put_self, Option.getD_some]

theorem get?_addUpdate_ne {o : Operator} (h : token ≠ o.token) (groups : Record (Record Value))
    (key : String) (v : Value) :
    (Plan.addUpdate groups o key v).get? token = groups.get? token := by
  rw [Plan.addUpdate, Record.get?_put_ne h]

/-- A group grows by the entries under its operator. -/
theorem get?_foldl_addUpdate :
    ((es.foldl (fun groups (p, key, v) => Plan.addUpdate groups (operator p) key v) groups).get?
      token).getD [] = (es.filter fun t => (operator t.1).token = token).foldl
        (fun r (_, key, v) => r.put key v) ((groups.get? token).getD []) := by
  induction es generalizing groups with
  | nil => rfl
  | cons t es ih =>
      obtain ⟨p, key, v⟩ := t
      rw [List.foldl_cons, ih]
      by_cases h : (operator p).token = token
      · subst h
        rw [List.filter_cons, if_pos (decide_eq_true rfl), List.foldl_cons, get?_addUpdate_self]
      · rw [List.filter_cons, if_neg (by simpa using h), get?_addUpdate_ne (Ne.symm h)]

theorem mem_names_groupsOf :
    token ∈ (groupsOf operator es).names ↔ ∃ t ∈ es, (operator t.1).token = token := by
  rw [groupsOf]
  refine Record.mem_names_foldl_put.trans (or_iff_right ?_)
  exact List.not_mem_nil

/-- The group under a token has the pairs of the entries under it. -/
theorem eq_pairsOf_of_mem {group : Record Value} (h : (token, group) ∈ groupsOf operator es) :
    group = pairsOf (es.filter fun t => (operator t.1).token = token) := by
  have hnodup : (groupsOf operator es).names.Nodup := Record.nodup_foldl_put List.nodup_nil
  have hget : ((groupsOf operator es).get? token).getD [] = _ := get?_foldl_addUpdate
  rw [Record.get?_of_mem hnodup h] at hget
  exact hget

end Bodies

namespace Plan

variable {plan : Plan}

theorem startRow_matchFields (plan : Plan) :
    plan.startRow.matchFields = plan.matchFields.map FieldPlan.start := List.filter_map

theorem answer_matchQuery (plan : Plan) (row : Row) :
    (plan.matchQuery row).answer =
      (fun es => .object (pairsOf es)) <$>
        FieldPlan.entries row (plan.matchFields.map FieldPlan.start) := by
  rw [matchQuery, startRow_matchFields]
  rfl

theorem answer_modifierUpdate (hmode : plan.modifierMode = true) (row : Row) (isInsert : Bool) :
    (plan.modifierUpdate row isInsert).answer =
      (fun es => .object ((groupsOf (·.mapping.effectiveOperator plan.modifierMode) es).map
        fun (token, group) => (token, .object group))) <$>
      FieldPlan.entries row ((plan.fields.filter fun p =>
        p.mapping.applies plan.modifierMode isInsert).map FieldPlan.start) := by
  have hfilter : (plan.startRow.fields.filter fun p =>
      p.mapping.applies plan.modifierMode isInsert) =
      (plan.fields.filter fun p => p.mapping.applies plan.modifierMode isInsert).map
        FieldPlan.start := List.filter_map
  rw [modifierUpdate, if_neg (by rw [hmode]; decide), ← hfilter]
  rfl

end Plan

end DocumentSink
