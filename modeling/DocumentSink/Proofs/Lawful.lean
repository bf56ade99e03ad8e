import DocumentSink.Proofs.Faults
import DocumentSink.Proofs.Unshared

/-!
Fields placed one by one. As long as no object of the row stands twice, a document is a tree, and a
field that is placed replaces what stood at its path, makes objects of the places on the way, and
keeps all else. Its cursor gives every segment once. Main statements: when a field that has begun
its row can be placed and what it does then, and that a row that places no object twice has the
document of a run on values.
-/

namespace DocumentSink

namespace Assembly

/-- The document of an assembly, as far as it has come. -/
def value (a : Assembly) : Value := Draft.read a.objects.value (.object a.document)

/-- No object of the row stands at two places of the document and of a draft that is to be put. -/
def Unshared (a : Assembly) (d : Draft) : Prop :=
  ∃ m v s t, Draft.Shows a.objects (.object a.document) (.object m) s ∧
    Draft.Shows a.objects d v t ∧ Disjoint s t

/-- Values have no objects of a row in them, so nothing is shared. -/
theorem unshared_ofValue (objects : HeldObjects) (m : Record Value) (v : Value) :
    (⟨objects, Draft.ofMembers m⟩ : Assembly).Unshared (.ofValue v) :=
  ⟨m, v, ∅, ∅, Draft.shows_ofMembers objects m, Draft.shows_ofValue objects v,
    Finset.disjoint_empty_left _⟩

end Assembly

namespace Cursor

/-- A cursor gives some segments, one after another, and stands behind them then. -/
inductive Gives : Cursor → List String → Cursor → Prop
  | done (c : Cursor) : Gives c [] c
  | next {c d e s ss} : c.next = .ok (s, d) → Gives d ss e → Gives c (s :: ss) e

theorem Gives.append_remaining {c e : Cursor} {ss : List String} (h : c.Gives ss e) :
    ss ++ e.remaining = c.remaining := by
  induction h with
  | done c => rfl
  | next hnext _ ih =>
      obtain ⟨hc, rfl, rfl⟩ := of_next hnext
      rw [List.cons_append, ih, remaining_eq_cons hc]

end Cursor

/-- A walk gets its segments from the cursor, by moving it on one by one. -/
theorem FieldMapping.gives_of_putAlong (m : FieldMapping) (d : Draft) (objects : HeldObjects)
    (members : Record Draft) (c : Cursor) :
    ∀ r, m.putAlong d objects members c = .ok r → ∃ ss, c.Gives ss r.2 := by
  -- behind a segment the walk goes on with the cursor moved, and its result goes into the object
  have hstep {objects : HeldObjects} {inner : Record Draft} {c c' : Cursor} {segment : String}
      (hnext : c.next = .ok (segment, c'))
      (ih : ∀ r, m.putAlong d objects inner c' = .ok r → ∃ ss, c'.Gives ss r.2)
      (f : HeldObjects × Record Draft → HeldObjects × Record Draft) :
      ∀ r, (m.putAlong d objects inner c' >>= fun p => .ok (f p.1, p.2)) = .ok r →
        ∃ ss, c.Gives ss r.2 := by
    intro r h
    obtain ⟨p, hrest, hp⟩ := bind_eq_ok.1 h
    obtain ⟨ss, hss⟩ := ih p hrest
    cases hp
    exact ⟨segment :: ss, .next hnext hss⟩
  fun_induction putAlong m d objects members c with
  | case1 members c hlt fault hnext =>
      intro r h
      cases h
  | case2 members c hlt segment c' hnext hget ih =>
      exact hstep hnext ih fun p => (p.1, members.put segment (.object p.2))
  | case3 members c hlt segment c' hnext inner hget ih =>
      exact hstep hnext ih fun p => (p.1, members.put segment (.object p.2))
  | case4 members c hlt segment c' hnext name hget ih =>
      exact hstep hnext ih fun p => (p.1.put name p.2, members)
  | case5 members c hlt segment c' hnext v hget =>
      intro r h
      cases h
  | case6 members c hlt hname =>
      intro r h
      cases h
      exact ⟨[], .done _⟩
  | case7 members c hlt hname fault hnext =>
      intro r h
      cases h
  | case8 members c hlt hname key c' hnext =>
      intro r h
      cases h
      exact ⟨[key], .next hnext (.done _)⟩

namespace FieldPlan

variable {p p' : FieldPlan} {a a' : Assembly} {d : Draft}

/-- A put goes as the put into the value of the document, and ends its cursor. -/
theorem put_start_follows {m : Record Value} {v : Value} {s t : Finset String}
    (hp : p.keyPath ≠ []) (hm : Draft.Shows a.objects (.object a.document) (.object m) s)
    (hv : Draft.Shows a.objects d v t) (hst : Disjoint s t) :
    Follows (fun m' r => r.2 = p.start.finish ∧
        Draft.Left a.objects s t m' (r.1.objects, r.1.document))
      ((Value.putAt (p.keyPath.getLastD "") v m 0 p.keyPath.dropLast).mapError fun b =>
        (.blocked p.mapping.incomingName p.mapping.documentPath b.key, p.start.skip (b.depth + 1)))
      (p.start.put a d) := by
  have hfollows := hv.put hm hst (p.keyPath.getLastD "") 0 p.keyPath.dropLast
  rw [put, route_start hp]
  dsimp only
  generalize Value.putAt (p.keyPath.getLastD "") v m 0 p.keyPath.dropLast = x at hfollows ⊢
  generalize Draft.put (p.keyPath.getLastD "") d a.objects a.document 0 p.keyPath.dropLast = y
    at hfollows ⊢
  cases hfollows with
  | error b => exact .error _
  | ok hleft => exact .ok ⟨rfl, hleft⟩

/-- A draft can be put exactly if all that stands on the way below the document are objects. -/
theorem exists_put_start_iff (hp : p.keyPath ≠ []) (h : a.Unshared d) :
    (∃ r, p.start.put a d = .ok r) ↔
      ∀ q w, q ≠ [] → GoesThrough p.keyPath q → a.value.lookup q = some w → w.isObject = true := by
  obtain ⟨m, v, s, t, hm, hv, hst⟩ := h
  have hvalue : a.value = .object m := hm.read_eq
  rw [(put_start_follows hp hm hv hst).exists_ok_iff]
  simp only [mapError_eq_ok, Value.exists_putAt_iff, Placement.prefix_dropLast_iff hp, hvalue]
  refine ⟨fun h q w _ => h q w, fun h q w hq hw => ?_⟩
  by_cases hnil : q = []
  · subst hnil
    cases hw
    rfl
  · exact h q w hnil hq hw

/-- Where a draft has been put, the document is the one that its value has been put into. -/
theorem putAt_of_put_start (hp : p.keyPath ≠ []) (h : a.Unshared d)
    (hput : p.start.put a d = .ok (a', p')) :
    ∃ m m' s, a.value = .object m ∧ a'.value = .object m' ∧
      Value.putAt (p.keyPath.getLastD "") (Draft.read a.objects.value d) m 0 p.keyPath.dropLast =
        .ok m' ∧ Draft.Shows a'.objects (.object a'.document) (.object m') s ∧
      p' = p.start.finish := by
  obtain ⟨m, v, s, t, hm, hv, hst⟩ := h
  obtain ⟨m', hm', hfinish, ⟨u, -, hu⟩, -⟩ := (hput ▸ put_start_follows hp hm hv hst).of_ok
  rw [mapError_eq_ok] at hm'
  rw [hv.read_eq]
  exact ⟨m, m', u, hm.read_eq, hu.read_eq, hm', hu, hfinish⟩

/-- A walk to the end of a path has taken the segments from the cursor, each once. -/
theorem gives_of_putAlong (h : p.start.putAlong a d = .ok (a', p.start.finish)) :
    ∃ c, p.start.finish = { p with cursor := some c } ∧
      Cursor.Gives ⟨p.segments, 0⟩ p.segments c ∧ c.exhausted = true := by
  rw [putAlong, show p.start.current = .ok ⟨p.segments, 0⟩ from rfl] at h
  dsimp only at h
  split at h
  · next objects document c hput =>
      obtain ⟨-, hfinish⟩ := Prod.mk.inj (Except.ok.inj h)
      have hc : c = ⟨p.segments, 0 + (p.segments.length - 0)⟩ :=
        Option.some.inj (congrArg (·.cursor) hfinish)
      have hrest : c.remaining = [] := by simp [hc, Cursor.remaining]
      obtain ⟨ss, hgives⟩ := FieldMapping.gives_of_putAlong _ _ _ _ _ _ hput
      have hss : ss ++ c.remaining = p.segments := hgives.append_remaining
      rw [hrest, List.append_nil] at hss
      rw [hss] at hgives
      refine ⟨c, hfinish.symm, hgives, ?_⟩
      rw [Cursor.exhausted_eq, hrest]
      rfl
  · cases h

/-- A field that has begun its row can put its draft exactly if each place on the way that there is
holds an object. Its value is then found at the end of its path, and all places on the way hold
objects; every other place keeps what it had. -/
theorem put_start_lawful (hp : p.inert = false) (h : a.Unshared d) :
    let v := Draft.read a.objects.value d
    ((∃ r, p.start.put a d = .ok r) ↔
      ∀ q w, q ≠ [] → GoesThrough p.keyPath q → a.value.lookup q = some w → w.isObject = true) ∧
    ∀ a' p', p.start.put a d = .ok (a', p') →
      (∀ q, a'.value.lookup (p.keyPath ++ q) = v.lookup q) ∧
      (∀ q, GoesThrough p.keyPath q → ∃ m, a'.value.lookup q = some (.object m)) ∧
      (∀ q, ¬ p.keyPath <+: q → ¬ GoesThrough p.keyPath q →
        a'.value.lookup q = a.value.lookup q) ∧
      (∃ s, Draft.Shows a'.objects (.object a'.document) a'.value s) ∧
      p.start.putAlong a d = .ok (a', p') ∧
      ∃ c, p' = { p with cursor := some c } ∧ Cursor.Gives ⟨p.segments, 0⟩ p.segments c ∧
        c.exhausted = true := by
  intro v
  have hpath := keyPath_ne_nil hp
  refine ⟨exists_put_start_iff hpath h, ?_⟩
  intro a' p' hput
  obtain ⟨m, m', s, hm, hm', hputAt, hs, rfl⟩ := putAt_of_put_start hpath h hput
  have halong := (putAlong_start hpath a d).trans hput
  have hway (q : List String) : q <+: p.keyPath.dropLast ↔ GoesThrough p.keyPath q :=
    Placement.prefix_dropLast_iff hpath
  rw [hm, hm']
  refine ⟨?_, ?_, ?_, ⟨s, hs⟩, halong, gives_of_putAlong halong⟩
  · intro q
    rw [← Placement.keyPath_split hpath, List.append_assoc]
    exact Value.lookup_putAt_append hputAt q
  · intro q hq
    obtain ⟨n, w, hobject⟩ := Value.lookup_putAt_of_prefix hputAt ((hway q).2 hq)
    exact ⟨_, hobject⟩
  · intro q hbelow habove
    refine Value.lookup_putAt_of_apart hputAt ?_ (mt (hway q).1 habove)
    rwa [Placement.keyPath_split hpath]

/-- The path leads on behind an object that the row holds: the value is found there, and the object
keeps its other members. A path through another value cannot be walked. -/
theorem put_start_lawful_held :
    let a : Assembly := ⟨[("a", [("y", .value (.int 1))])], [("x", .held "a")]⟩
    let b : Assembly := ⟨[], Draft.ofMembers [("w", .object [("k", .int 5)])]⟩
    let d := Draft.ofValue (.object [("n", .int 2)])
    let p : FieldPlan := ⟨⟨"x", ["x"], none⟩, { incomingName := "z", useIncomingName := true }⟩
    let q : FieldPlan := ⟨⟨"w.k.z", ["w", "k", "z"], none⟩, { incomingName := "z" }⟩
    (∃ a' p', p.start.put a d = .ok (a', p') ∧
      a'.value.lookup ["x", "z", "n"] = some (.int 2) ∧
      (∃ m, a'.value.lookup ["x"] = some (.object m)) ∧
      a'.value.lookup ["x", "y"] = some (.int 1)) ∧
    ¬ ∃ r, q.start.put b d = .ok r := by
  intro a b d p q
  have hshows : Draft.Shows a.objects (.object a.document)
      (.object [("x", .object [("y", .int 1)])]) {"a"} := by
    have hheld : Draft.Shows a.objects (.held "a") (.object [("y", .int 1)]) {"a"} :=
      .held rfl (.cons (.value rfl) .nil (Finset.disjoint_empty_left _)) (Finset.notMem_empty _)
    exact .cons hheld .nil (Finset.disjoint_empty_right _)
  have hunshared : a.Unshared d :=
    ⟨_, _, _, _, hshows, Draft.shows_ofValue _ _, Finset.disjoint_empty_right _⟩
  have hplain : b.Unshared d := Assembly.unshared_ofValue [] _ _
  have hlaw := put_start_lawful (p := p) rfl hunshared
  have hstuck := put_start_lawful (p := q) rfl hplain
  constructor
  · have hput : ∃ a', p.start.put a d = .ok (a', p.start.finish) := ⟨_, rfl⟩
    obtain ⟨a', hput⟩ := hput
    obtain ⟨hfound, hway, hkept, -⟩ := hlaw.2 a' _ hput
    refine ⟨a', _, hput, hfound ["n"], hway ["x"] (by decide), ?_⟩
    exact hkept ["x", "y"] (by decide) (by decide)
  · rw [hstuck.1]
    intro hway
    exact absurd (hway ["w", "k"] (.int 5) (List.cons_ne_nil _ _) (by decide) rfl) (by decide)

end FieldPlan

namespace Placement

variable {row : Row} {es : List Placement} {m : Record Value} {a : Assembly} {p : FieldPlan}
  {v : Value} {d : Draft}

/-- The names of the objects of the row that are placed. -/
def objectNames (es : List Placement) : List String :=
  (es.filter (·.2.isObject)).map (·.1.mapping.incomingName)

theorem objectNames_append (es fs : List Placement) :
    objectNames (es ++ fs) = objectNames es ++ objectNames fs := by
  rw [objectNames, List.filter_append, List.map_append]
  rfl

/-- What holds of a run in which no object of the row is placed twice: the draft shows the value of
a run on values, by way of objects that were placed, and all others are as the row has them. -/
structure Shown (row : Row) (es : List Placement) (m : Record Value) (a : Assembly) : Prop where
  shows : ∃ s, (∀ name ∈ s, name ∈ objectNames es) ∧
    Draft.Shows a.objects (.object a.document) (.object m) s
  fresh : ∀ name ∉ objectNames es,
    Record.get? name a.objects = Record.get? name (HeldObjects.ofRow row)

theorem shown_nil (row : Row) : Shown row [] [] ⟨.ofRow row, []⟩ :=
  ⟨⟨∅, fun _ hmem => absurd hmem (Finset.notMem_empty _), .nil⟩, fun _ _ => rfl⟩

/-- What is placed for a value shows that value, by way of an object that was not placed before. -/
theorem Shown.shows_draft (h : Shown row es m a) (hvalue : p.value? row = some v)
    (hnew : ∀ name ∈ objectNames [(p, v)], name ∉ objectNames es) (hd : p.draft v = .ok d) :
    ∃ w t, p.placed v = .ok w ∧ Draft.Shows a.objects d w t ∧
      ∀ name ∈ t, name ∈ objectNames [(p, v)] := by
  have hplaced := FieldPlan.read_draft hvalue
  have hget := FieldPlan.get?_of_value? hvalue
  rw [hd, map_ok] at hplaced
  rw [FieldPlan.draft_eq] at hd
  split at hd
  · next hobject =>
      rw [Bool.and_eq_true] at hobject
      cases hd
      cases v with
      | object ms =>
          have hname : p.mapping.incomingName ∈ objectNames [(p, .object ms)] :=
            List.mem_cons_self
          have hfresh := (h.fresh _ (hnew _ hname)).trans (HeldObjects.get?_ofRow hget)
          rw [Draft.read, HeldObjects.value_ofRow hget] at hplaced
          refine ⟨.object ms, insert p.mapping.incomingName ∅, hplaced.symm, ?_, ?_⟩
          · exact .held hfresh (Draft.shows_ofMembers _ ms) (Finset.notMem_empty _)
          · intro name hmem
            rw [Finset.mem_insert] at hmem
            rcases hmem with rfl | hmem
            · exact hname
            · cases hmem
      | _ => cases hobject.1
  · obtain ⟨w, hw, rfl⟩ := map_eq_ok.1 hd
    exact ⟨w, ∅, hw, Draft.shows_ofValue _ w, fun _ hmem => absurd hmem (Finset.notMem_empty _)⟩

/-- What a put leaves shows the value with one more placement. -/
theorem Shown.concat {e : Placement} {s t : Finset String} {m' : Record Value} {a' : Assembly}
    (h : Shown row es m a) (hs : ∀ name ∈ s, name ∈ objectNames es)
    (ht : ∀ name ∈ t, name ∈ objectNames [e])
    (hleft : Draft.Left a.objects s t m' (a'.objects, a'.document)) :
    Shown row (es ++ [e]) m' a' := by
  obtain ⟨⟨u, hu, hshows⟩, hframe⟩ := hleft
  refine ⟨⟨u, ?_, hshows⟩, ?_⟩
  · intro name hmem
    rw [objectNames_append, List.mem_append]
    exact (Finset.mem_union.1 (hu hmem)).imp (hs name) (ht name)
  · intro name hmem
    rw [objectNames_append, List.mem_append, not_or] at hmem
    exact (hframe name (mt (hs name) hmem.1)).trans (h.fresh name hmem.1)

/-- One field places its value as a run on values does. -/
theorem Shown.place (h : Shown row es m a) (hvalue : p.value? row = some v)
    (hnew : ∀ name ∈ objectNames [(p, v)], name ∉ objectNames es) :
    Follows (Shown row (es ++ [(p, v)])) (placeRaw m (p, v))
      (FieldPlan.stepResult (p.start.place row a)) := by
  have hpath := FieldPlan.keyPath_ne_nil (FieldPlan.inert_of_value? hvalue)
  have hstart : p.start.value? row = some v := hvalue
  have hdraft : p.start.draft v = p.draft v := rfl
  rw [FieldPlan.place, hstart]
  dsimp only
  rw [hdraft]
  cases hd : p.draft v with
  | error fault =>
      have hplaced := FieldPlan.read_draft hvalue
      rw [hd, map_error] at hplaced
      rw [placeRaw, ← hplaced]
      exact .error fault
  | ok d =>
      obtain ⟨w, t, hw, hshows, ht⟩ := h.shows_draft hvalue hnew hd
      obtain ⟨s, hs, hm⟩ := h.shows
      have hst : Disjoint s t :=
        Finset.disjoint_left.2 fun name hmem hmem' => hnew name (ht name hmem') (hs name hmem)
      have hfollows := FieldPlan.put_start_follows hpath hm hshows hst
      rw [placeRaw, hw, ok_bind, Placement.place]
      dsimp only
      generalize Value.putAt (p.keyPath.getLastD "") w m 0 p.keyPath.dropLast = x at hfollows ⊢
      generalize p.start.put a d = y at hfollows ⊢
      cases x with
      | error b =>
          rw [mapError_error] at hfollows
          cases hfollows
          exact .error _
      | ok m' =>
          rw [mapError_ok] at hfollows
          cases hfollows with
          | ok hleft => exact .ok (h.concat hs ht hleft.2)

/-- Fields that place no object twice place their values as a run on values does. -/
theorem Shown.placeAll {ps : List FieldPlan} (h : Shown row es m a)
    (honce : (objectNames (es ++ FieldPlan.active row ps)).Nodup) :
    Follows (Shown row (es ++ FieldPlan.active row ps))
      ((FieldPlan.active row ps).foldlM placeRaw m)
      (FieldPlan.runResult (FieldPlan.placeAll row a (ps.map FieldPlan.start))) := by
  induction ps generalizing es m a with
  | nil =>
      have hall : es ++ FieldPlan.active row [] = es := List.append_nil es
      rw [hall]
      exact .ok h
  | cons p ps ih =>
      rw [List.map_cons, FieldPlan.placeAll]
      cases hvalue : p.value? row with
      | none =>
          have hskip : p.start.place row a = .ok (a, p.start) := by
            have hstart : p.start.value? row = none := hvalue
            rw [FieldPlan.place, hstart]
          rw [FieldPlan.active_cons_none hvalue] at honce ⊢
          rw [hskip]
          exact ih h honce
      | some v =>
          rw [FieldPlan.active_cons_some hvalue, List.append_cons] at honce ⊢
          have hnew : ∀ name ∈ objectNames [(p, v)], name ∉ objectNames es := by
            rw [objectNames_append, objectNames_append, List.nodup_append] at honce
            intro name hmem hold
            exact (List.nodup_append.1 honce.1).2.2 name hold name hmem rfl
          have hfollows := h.place hvalue hnew
          rw [List.foldlM_cons]
          cases hplace : p.start.place row a with
          | error r =>
              rw [hplace] at hfollows
              rw [hfollows.of_error]
              exact .error r.1
          | ok r =>
              rw [hplace] at hfollows
              obtain ⟨m', hm', hnext⟩ := hfollows.of_ok
              rw [hm', ok_bind]
              exact ih hnext honce

end Placement

/-- Where no object of the row is placed twice, the document is that of a run on values, also where
later paths lead into objects that earlier fields placed. -/
theorem Plan.insertDocument_of_once {plan : Plan} {row : Row}
    (honce : (Placement.objectNames (FieldPlan.active row plan.fields)).Nodup) :
    (plan.insertDocument row).answer =
      Value.object <$> (FieldPlan.active row plan.fields).foldlM Placement.placeRaw [] := by
  have hrun : Follows (Placement.Shown row (FieldPlan.active row plan.fields))
      ((FieldPlan.active row plan.fields).foldlM Placement.placeRaw [])
      (FieldPlan.runResult (FieldPlan.placeAll row ⟨.ofRow row, []⟩ plan.startRow.fields)) :=
    (Placement.shown_nil row).placeAll honce
  rw [insertDocument_answer]
  refine (hrun.map_eq fun m a hshown => ?_).symm
  obtain ⟨s, -, hshows⟩ := hshown.shows
  exact hshows.read_eq.symm

/-- A value that is put into an object of the row. -/
example :
    let plan : Plan := {
      write := {}
      modifierMode := false
      fields := [
        ⟨⟨"x", ["x"], none⟩, { incomingName := "a", documentPath := "x" }⟩,
        ⟨⟨"x.y", ["x", "y"], none⟩, { incomingName := "b", documentPath := "x.y" }⟩]
      indexes := []
      vars := [] }
    (plan.insertDocument [("a", .object [("n", .null)]), ("b", .int 1)]).answer =
      .ok (.object [("x", .object [("n", .null), ("y", .int 1)])]) :=
  rfl

end DocumentSink
