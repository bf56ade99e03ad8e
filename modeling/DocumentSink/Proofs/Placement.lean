import DocumentSink.Document.Query
import DocumentSink.Proofs.Tree
import Mathlib.Data.List.Induction

/-!
Placements: the fields that have a value in a row, each with its value. A value lasts at its path as
long as no later path is the same or leads to it, and a path clashes with an earlier one that it goes
on behind.
-/

namespace DocumentSink

section Latest

variable {α β : Type} {P : α → Prop} {l : List α} {a b : α}

/-- An element of a list behind which no other has a property. -/
def Latest (P : α → Prop) (l : List α) (a : α) : Prop :=
  ∃ before after, l = before ++ a :: after ∧ ∀ b ∈ after, ¬ P b

theorem latest_concat : Latest P (l ++ [b]) a ↔ a = b ∨ Latest P l a ∧ ¬ P b := by
  constructor
  · rintro ⟨before, after, hsplit, hafter⟩
    rcases List.eq_nil_or_concat after with rfl | ⟨after, c, rfl⟩
    · obtain ⟨rfl, he⟩ := List.append_inj' hsplit rfl
      cases he
      exact .inl rfl
    · rw [List.concat_eq_append, ← List.cons_append, ← List.append_assoc] at hsplit
      obtain ⟨rfl, he⟩ := List.append_inj' hsplit rfl
      cases he
      simp only [List.concat_eq_append, List.forall_mem_append, List.forall_mem_singleton] at hafter
      exact .inr ⟨⟨before, after, rfl, hafter.1⟩, hafter.2⟩
  · rintro (rfl | ⟨⟨before, after, rfl, hafter⟩, hb⟩)
    · exact ⟨l, [], rfl, List.forall_mem_nil _⟩
    · refine ⟨before, after ++ [b], by simp, ?_⟩
      rw [List.forall_mem_append]
      exact ⟨hafter, List.forall_mem_singleton.2 hb⟩

theorem not_latest_nil : ¬ Latest P [] a := by
  rintro ⟨before, after, h, -⟩
  cases before <;> cases h

theorem Latest.mem (h : Latest P l a) : a ∈ l := by
  obtain ⟨before, after, rfl, -⟩ := h
  exact List.mem_append_right _ List.mem_cons_self

theorem latest_map {f : α → β} {Q : β → Prop} {c : β} :
    Latest Q (l.map f) c ↔ ∃ a, f a = c ∧ Latest (fun a => Q (f a)) l a := by
  constructor
  · rintro ⟨before, after, hsplit, hafter⟩
    obtain ⟨before, rest, rfl, rfl, hrest⟩ := List.map_eq_append_iff.1 hsplit
    obtain ⟨a, after, rfl, rfl, rfl⟩ := List.map_eq_cons_iff.1 hrest
    exact ⟨a, rfl, before, after, rfl, fun b hb => hafter (f b) (List.mem_map_of_mem hb)⟩
  · rintro ⟨a, rfl, before, after, rfl, hafter⟩
    refine ⟨before.map f, after.map f, by simp, ?_⟩
    intro b hb
    obtain ⟨a, ha, rfl⟩ := List.mem_map.1 hb
    exact hafter a ha

end Latest

/-- A field with the value that is placed for it. -/
abbrev Placement := FieldPlan × Value

namespace FieldPlan

def placements (row : Row) (ps : List FieldPlan) : Except MappingFault (List Placement) :=
  (active row ps).mapM fun (p, v) => return (p, ← p.placed v)

end FieldPlan

/-- A path goes on behind the end of another. -/
def GoesThrough (path q : List String) : Prop := q <+: path ∧ q ≠ path

instance (path q : List String) : Decidable (GoesThrough path q) :=
  inferInstanceAs (Decidable (q <+: path ∧ q ≠ path))

namespace Placement

/-- No path goes through that of an earlier placement. -/
def Clear (es : List Placement) : Prop :=
  es.Pairwise fun e f => ¬ GoesThrough f.1.keyPath e.1.keyPath

/-- A value is placed at a path, and no later path is the same or leads to it. -/
def Lasts (es : List Placement) (path : List String) (v : Value) : Prop :=
  ∃ before p after, es = before ++ (p, v) :: after ∧ p.keyPath = path ∧
    ∀ f ∈ after, ¬ f.1.keyPath <+: path

/-- The fault of the first placement whose path goes through an earlier one: it names the end of the
shortest of those. -/
def IsClash (es : List Placement) (fault : MappingFault) : Prop :=
  ∃ before p v after q segment, es = before ++ (p, v) :: after ∧ Clear before ∧
    q ∈ before.map (·.1.keyPath) ∧ GoesThrough p.keyPath q ∧
    (∀ q' ∈ before.map (·.1.keyPath), GoesThrough p.keyPath q' → q.length ≤ q'.length) ∧
    q.getLast? = some segment ∧
    fault = .blocked p.mapping.incomingName p.mapping.documentPath segment

def place (m : Record Value) (e : Placement) : Except MappingFault (Record Value) :=
  (Value.putAt (e.1.keyPath.getLastD "") e.2 m 0 e.1.keyPath.dropLast).mapError fun b =>
    .blocked e.1.mapping.incomingName e.1.mapping.documentPath b.key

section Lasting

variable {es : List Placement} {e f : Placement} {path : List String} {v : Value}

theorem lasts_iff_latest :
    Lasts es path v ↔ ∃ p, p.keyPath = path ∧ Latest (fun f => f.1.keyPath <+: path) es (p, v) := by
  constructor
  · rintro ⟨before, p, after, hsplit, hp, hafter⟩
    exact ⟨p, hp, before, after, hsplit, hafter⟩
  · rintro ⟨p, hp, before, after, hsplit, hafter⟩
    exact ⟨before, p, after, hsplit, hp, hafter⟩

theorem lasts_concat : Lasts (es ++ [e]) path v ↔
    (path = e.1.keyPath ∧ v = e.2) ∨ (Lasts es path v ∧ ¬ e.1.keyPath <+: path) := by
  simp only [lasts_iff_latest, latest_concat]
  constructor
  · rintro ⟨p, hp, rfl | ⟨hlatest, he⟩⟩
    · exact .inl ⟨hp.symm, rfl⟩
    · exact .inr ⟨⟨p, hp, hlatest⟩, he⟩
  · rintro (⟨rfl, rfl⟩ | ⟨⟨p, hp, hlatest⟩, he⟩)
    · exact ⟨e.1, rfl, .inl rfl⟩
    · exact ⟨p, hp, .inr ⟨hlatest, he⟩⟩

/-- Where something is placed, something lasts there or on the way. -/
theorem exists_lasts (h : f ∈ es) : ∃ path v, Lasts es path v ∧ path <+: f.1.keyPath := by
  induction es using List.reverseRecOn with
  | nil => exact absurd h List.not_mem_nil
  | append_singleton es e ih =>
      rcases List.mem_append.1 h with h | h
      · obtain ⟨path, v, hlasts, hpath⟩ := ih h
        by_cases he : e.1.keyPath <+: path
        · exact ⟨e.1.keyPath, e.2, lasts_concat.2 (.inl ⟨rfl, rfl⟩), he.trans hpath⟩
        · exact ⟨path, v, lasts_concat.2 (.inr ⟨hlasts, he⟩), hpath⟩
      · rw [List.mem_singleton.1 h]
        exact ⟨e.1.keyPath, e.2, lasts_concat.2 (.inl ⟨rfl, rfl⟩), List.prefix_rfl⟩

theorem Lasts.mem (h : Lasts es path v) : ∃ p, (p, v) ∈ es ∧ p.keyPath = path := by
  obtain ⟨p, hp, hlatest⟩ := lasts_iff_latest.1 h
  exact ⟨p, hlatest.mem, hp⟩

end Lasting

section Paths

variable {e : Placement} {m m' : Record Value}

theorem keyPath_split {p : FieldPlan} (h : p.keyPath ≠ []) :
    p.keyPath.dropLast ++ [p.keyPath.getLastD ""] = p.keyPath := by
  rw [List.getLastD_eq_getLast?, List.getLast?_eq_some_getLast h, Option.getD_some]
  exact List.dropLast_append_getLast h

/-- The places on the way are those that the path goes through. -/
theorem prefix_dropLast_iff {p : FieldPlan} (h : p.keyPath ≠ []) {q : List String} :
    q <+: p.keyPath.dropLast ↔ GoesThrough p.keyPath q := by
  have hpos := List.length_pos_of_ne_nil h
  constructor
  · intro hq
    refine ⟨hq.trans (List.dropLast_prefix _), ?_⟩
    rintro rfl
    have hle := hq.length_le
    rw [List.length_dropLast] at hle
    omega
  · rintro ⟨hq, hne⟩
    have hlt : q.length < p.keyPath.length := by
      by_contra hge
      exact hne (hq.eq_of_length_le (Nat.le_of_not_lt hge))
    apply List.prefix_of_prefix_length_le hq (List.dropLast_prefix _)
    rw [List.length_dropLast]
    omega

theorem place_eq_ok : place m e = .ok m' ↔
    Value.putAt (e.1.keyPath.getLastD "") e.2 m 0 e.1.keyPath.dropLast = .ok m' := by
  rw [place]
  cases Value.putAt (e.1.keyPath.getLastD "") e.2 m 0 e.1.keyPath.dropLast <;> simp

theorem place_eq_error {fault : MappingFault} : place m e = .error fault ↔
    ∃ b, Value.putAt (e.1.keyPath.getLastD "") e.2 m 0 e.1.keyPath.dropLast = .error b ∧
      fault = .blocked e.1.mapping.incomingName e.1.mapping.documentPath b.key := by
  rw [place]
  cases Value.putAt (e.1.keyPath.getLastD "") e.2 m 0 e.1.keyPath.dropLast <;> simp [eq_comm]

end Paths

end Placement

namespace FieldPlan

variable {row : Row} {p : FieldPlan} {ps : List FieldPlan} {es : List Placement}

theorem active_cons_none (h : p.value? row = none) : active row (p :: ps) = active row ps := by
  rw [active, List.filterMap_cons, h]
  rfl

theorem active_cons_some {v : Value} (h : p.value? row = some v) :
    active row (p :: ps) = (p, v) :: active row ps := by
  rw [active, List.filterMap_cons, h]
  rfl

theorem keyPath_ne_nil (h : p.inert = false) : p.keyPath ≠ [] := by
  rw [inert] at h
  rw [keyPath, terminal]
  split at h
  · next hname =>
      rw [if_pos hname]
      exact List.append_ne_nil_of_right_ne_nil _ (List.cons_ne_nil _ _)
  · next hname =>
      rw [if_neg hname, List.append_nil]
      intro hnil
      rw [hnil] at h
      cases h

theorem inert_of_value? {v : Value} (h : p.value? row = some v) : p.inert = false := by
  rw [value?] at h
  split at h
  · cases h
  · next hinert => exact Bool.not_eq_true _ ▸ hinert

theorem keyPath_of_active (row : Row) (ps : List FieldPlan) :
    ∀ e ∈ active row ps, e.1.keyPath ≠ [] := by
  intro e he
  obtain ⟨p, -, hp⟩ := List.mem_filterMap.1 he
  obtain ⟨v, hv, rfl⟩ := Option.map_eq_some_iff.1 hp
  exact keyPath_ne_nil (inert_of_value? hv)

/-- The placements are those of the active fields, each with its value parsed. -/
theorem forall₂_placements (h : placements row ps = .ok es) :
    List.Forall₂ (fun e f => e.1.placed e.2 = .ok f.2 ∧ f.1 = e.1) (active row ps) es := by
  refine (mapM_eq_ok_iff.1 h).imp ?_
  rintro ⟨p, v⟩ f hf
  obtain ⟨w, hw, hf⟩ := bind_eq_ok.1 hf
  cases hf
  exact ⟨hw, rfl⟩

theorem keyPath_of_placements (h : placements row ps = .ok es) : ∀ e ∈ es, e.1.keyPath ≠ [] := by
  have hfields : ∀ f ∈ es, ∃ e ∈ active row ps, f.1 = e.1 := by
    have hes := forall₂_placements h
    clear h
    generalize active row ps = as at hes
    induction hes with
    | nil => exact List.forall_mem_nil _
    | @cons e f as es he _ ih =>
        refine List.forall_mem_cons.2 ⟨⟨e, List.mem_cons_self, he.2⟩, ?_⟩
        intro f hf
        obtain ⟨e', he', hfield⟩ := ih f hf
        exact ⟨e', List.mem_cons_of_mem e he', hfield⟩
  intro f hf
  obtain ⟨e, he, hfield⟩ := hfields f hf
  rw [hfield]
  exact keyPath_of_active row ps e he

theorem route_start (h : p.keyPath ≠ []) :
    p.start.route = .ok (p.keyPath.dropLast, p.keyPath.getLastD "") := by
  have hleft : p.start.keysLeft = .ok p.keyPath := rfl
  rw [route, hleft, ok_bind, List.getLastD_eq_getLast?, List.getLast?_eq_some_getLast h]
  rfl

/-- The assembly that a step or a run gives, or its fault. -/
def stepResult (r : Except (MappingFault × FieldPlan) (Assembly × FieldPlan)) :
    Except MappingFault Assembly :=
  match r with
  | .ok (a, _) => .ok a
  | .error (fault, _) => .error fault

def runResult (r : Assembly × List FieldPlan × Option MappingFault) :
    Except MappingFault Assembly :=
  match r.2.2 with
  | some fault => .error fault
  | none => .ok r.1

end FieldPlan

theorem Plan.insertDocument_answer (plan : Plan) (row : Row) :
    (plan.insertDocument row).answer =
      (fun a => Draft.read a.objects.value (.object a.document)) <$>
        FieldPlan.runResult (FieldPlan.placeAll row ⟨.ofRow row, []⟩ plan.startRow.fields) := by
  rw [insertDocument]
  generalize FieldPlan.placeAll row ⟨.ofRow row, []⟩ plan.startRow.fields = r
  obtain ⟨a, fields, fault⟩ := r
  cases fault with
  | none => rfl
  | some fault => rfl

end DocumentSink
