import DocumentSink.Proofs.Placement

/-!
The objects of a row, and what is written into them. An object stands where it is placed until a
later field covers the place; only a path that goes on behind such a place writes into the object.
Where no path does, the row stays as it was, and the document is that of a run on values alone, so
that fields on different ways keep apart.
-/

namespace DocumentSink

namespace Draft

open Value (putAt)

/-- The draft at the end of a path through the objects of the draft's own. -/
def lookup : List String → Draft → Option Draft
  | [], d => some d
  | k :: path, object members => (Record.get? k members).bind (lookup path)
  | _ :: _, _ => none

def isLeaf : Draft → Bool
  | object _ => false
  | _ => true

/-- Every object in a draft is one of its own or one of the row. -/
def Clean (members : Record Draft) : Prop :=
  ∀ q v, lookup q (object members) = some (value v) → v.isObject = false

/-- No object of the row stands on a path below the members. -/
def StaysOut (path : List String) (members : Record Draft) : Prop :=
  ∀ q name, q <+: path → lookup q (object members) ≠ some (held name)

section Reading

variable (h : String → Value)

theorem get?_readMembers (k : String) (members : Record Draft) :
    Record.get? k (readMembers h members) = (Record.get? k members).map (read h) := by
  induction members with
  | nil => rfl
  | cons p members ih =>
      obtain ⟨n, d⟩ := p
      rw [readMembers, Record.get?, Record.get?]
      split
      · rfl
      · exact ih

theorem readMembers_put (k : String) (d : Draft) (members : Record Draft) :
    readMembers h (Record.put k d members) = Record.put k (read h d) (readMembers h members) := by
  induction members with
  | nil => rfl
  | cons p members ih =>
      obtain ⟨n, e⟩ := p
      rw [Record.put, readMembers, Record.put]
      split
      · rfl
      · rw [readMembers, ih]

end Reading

/-- The leaves of a value are values that are no objects. -/
theorem leaf_of_lookup_ofValue {path : List String} {v : Value} {e : Draft} (he : e.isLeaf = true)
    (h : lookup path (ofValue v) = some e) : ∃ w, e = value w ∧ w.isObject = false := by
  induction path generalizing v with
  | nil =>
      cases v with
      | object ms =>
          cases h
          cases he
      | _ =>
          cases h
          exact ⟨_, rfl, rfl⟩
  | cons k path ih =>
      cases v with
      | object ms =>
          rw [ofValue, lookup, get?_ofMembers] at h
          cases hk : Record.get? k ms with
          | none =>
              rw [hk] at h
              cases h
          | some w =>
              rw [hk] at h
              exact ih h
      | _ => cases h

section Put

variable {key : String} {d : Draft} {objects objects' : HeldObjects} {members members' : Record Draft}
  {depth : Nat} {path : List String}

theorem lookup_cons {k : String} {e : Draft} (hk : Record.get? k members = some e)
    (q : List String) : lookup (k :: q) (object members) = lookup q e := by
  rw [lookup, hk]
  rfl

theorem lookup_empty {q : List String} {e : Draft} (he : e.isLeaf = true) :
    lookup q (object []) ≠ some e := by
  cases q with
  | nil =>
      intro h
      cases h
      cases he
  | cons k q => exact nofun

theorem clean_nil : Clean [] := by
  intro q v h
  exact absurd h (lookup_empty rfl)

theorem Clean.inner {k : String} {inner : Record Draft} (h : Clean members)
    (hk : Record.get? k members = some (.object inner)) : Clean inner := by
  intro q v hq
  exact h (k :: q) v ((lookup_cons hk q).trans hq)

theorem StaysOut.tail {k : String} {inner : Record Draft} (h : StaysOut (k :: path) members)
    (hk : Record.get? k members = some (.object inner)) : StaysOut path inner := by
  intro q name hq hheld
  exact h (k :: q) name (List.cons_prefix_cons.2 ⟨rfl, hq⟩) ((lookup_cons hk q).trans hheld)

theorem staysOut_nil : StaysOut path [] := fun _ _ _ => lookup_empty rfl

theorem StaysOut.get?_ne {k : String} (h : StaysOut (k :: path) members) (name : String) :
    Record.get? k members ≠ some (held name) := by
  intro hk
  exact h [k] name (List.cons_prefix_cons.2 ⟨rfl, List.nil_prefix⟩) (lookup_cons hk [])

/-- A put that stays out of the objects of the row leaves them alone, and does to the draft what it
does to its value. -/
theorem put_of_staysOut (read' : String → Value) (key : String) (d : Draft)
    (objects : HeldObjects) (depth : Nat) (hclean : Clean members) (h : StaysOut path members) :
    (fun r => (r.1, readMembers read' r.2)) <$> put key d objects members depth path =
      (fun m => (objects, m)) <$> putAt key (read read' d) (readMembers read' members) depth path := by
  induction path generalizing members depth with
  | nil => rw [put, putAt, map_ok, map_ok, readMembers_put]
  | cons k path ih =>
      have hstep {inner : Record Draft} (hclean : Clean inner) (hinner : StaysOut path inner) :
          (fun r => (r.1, readMembers read' r.2)) <$>
              (put key d objects inner (depth + 1) path >>= fun p =>
                .ok (p.1, Record.put k (.object p.2) members)) =
            (fun m => (objects, m)) <$> (do
              return Record.put k (.object (← putAt key (read read' d) (readMembers read' inner)
                (depth + 1) path)) (readMembers read' members)) := by
        rcases map_eq_map (ih (depth + 1) hclean hinner) with ⟨b, hp, hv⟩ | ⟨r, m, hp, hv, hr⟩
        · rw [hp, hv]
          rfl
        · obtain ⟨objects', inner'⟩ := r
          cases hr
          rw [hp, hv]
          simp only [ok_bind, pure_eq_ok, map_ok, readMembers_put, read]
      rw [put, putAt, Value.blocks, Value.membersAt, Value.lookup_singleton, get?_readMembers]
      cases hk : Record.get? k members with
      | none => exact hstep clean_nil staysOut_nil
      | some e =>
          cases e with
          | value v =>
              have hv := hclean [k] v (lookup_cons hk [])
              simp [read, hv]
          | object inner => exact hstep (hclean.inner hk) (h.tail hk)
          | held name => exact absurd hk (h.get?_ne name)

/-- The leaves of a draft behind a put are those of what was put, at its place, and those that did
not stand there or below. -/
theorem lookup_put (h : StaysOut path members)
    (hput : put key d objects members depth path = .ok (objects', members')) {q : List String}
    {e : Draft} (he : e.isLeaf = true) (hq : lookup q (object members') = some e) :
    (∃ r, q = path ++ key :: r ∧ lookup r d = some e) ∨
      lookup q (object members) = some e ∧ ¬ path ++ [key] <+: q := by
  induction path generalizing members members' depth q with
  | nil =>
      cases hput
      cases q with
      | nil =>
          cases hq
          cases he
      | cons n q =>
          by_cases hn : n = key
          · subst hn
            rw [lookup_cons (Record.get?_put_self n d members)] at hq
            exact .inl ⟨q, rfl, hq⟩
          · rw [lookup, Record.get?_put_ne hn] at hq
            refine .inr ⟨hq, ?_⟩
            intro hprefix
            exact hn (List.cons_prefix_cons.1 hprefix).1.symm
  | cons k path ih =>
      -- one step down, into the object that is there or into a new one
      have hstep {inner : Record Draft} (hinner : StaysOut path inner)
          (hlookup : ∀ r, lookup r (object inner) = some e →
            lookup (k :: r) (object members) = some e)
          (hrest : (put key d objects inner (depth + 1) path >>= fun p =>
            .ok (p.1, Record.put k (.object p.2) members)) = .ok (objects', members')) :
          (∃ r, q = k :: path ++ key :: r ∧ lookup r d = some e) ∨
            lookup q (object members) = some e ∧ ¬ k :: path ++ [key] <+: q := by
        obtain ⟨⟨objects₁, inner'⟩, hp, hr⟩ := bind_eq_ok.1 hrest
        cases hr
        cases q with
        | nil =>
            cases hq
            cases he
        | cons n q =>
            by_cases hn : n = k
            · subst hn
              rw [lookup_cons (Record.get?_put_self n _ members)] at hq
              rcases ih hinner hp hq with ⟨r, rfl, hr⟩ | ⟨hold, hbelow⟩
              · exact .inl ⟨r, rfl, hr⟩
              · refine .inr ⟨hlookup q hold, ?_⟩
                intro hprefix
                exact hbelow (List.cons_prefix_cons.1 hprefix).2
            · rw [lookup, Record.get?_put_ne hn] at hq
              refine .inr ⟨hq, ?_⟩
              intro hprefix
              exact hn (List.cons_prefix_cons.1 hprefix).1.symm
      rw [put] at hput
      cases hk : Record.get? k members with
      | none =>
          rw [hk] at hput
          exact hstep staysOut_nil (fun r hr => absurd hr (lookup_empty he)) hput
      | some e' =>
          rw [hk] at hput
          cases e' with
          | value v => cases hput
          | object inner =>
              exact hstep (h.tail hk) (fun r hr => (lookup_cons hk r).trans hr) hput
          | held name => exact absurd hk (h.get?_ne name)

end Put

end Draft

namespace HeldObjects

variable {row : Row} {name : String}

theorem get?_ofRow {ms : Record Value} (h : Record.get? name row = some (.object ms)) :
    Record.get? name (ofRow row) = some (Draft.ofMembers ms) := by
  induction row with
  | nil => cases h
  | cons p row ih =>
      obtain ⟨n, v⟩ := p
      rw [Record.get?] at h
      split at h
      · next hn =>
          cases h
          change Record.get? name ((n, Draft.ofMembers ms) :: ofRow row) = _
          rw [Record.get?, if_pos hn]
      · next hn =>
          cases v with
          | object ms' =>
              change Record.get? name ((n, Draft.ofMembers ms') :: ofRow row) = _
              rw [Record.get?, if_neg hn, ih h]
          | _ => exact ih h

/-- Before anything is written into it, an object of the row has the value it has there. -/
theorem value_ofRow {ms : Record Value} (h : Record.get? name row = some (.object ms)) :
    (ofRow row).value name = .object ms := by
  have hget := get?_ofRow h
  rw [value]
  cases hlength : (ofRow row).length with
  | zero =>
      rw [List.eq_nil_of_length_eq_zero hlength] at hget
      cases hget
  | succ depth =>
      rw [read, hget, Option.getD_some, Draft.readMembers_ofMembers]

theorem names_toRow (objects : HeldObjects) (row : Row) :
    Record.names (objects.toRow row) = Record.names row := by
  rw [Record.names, toRow, List.map_map]
  congr 1
  funext p
  obtain ⟨n, v⟩ := p
  cases v <;> rfl

theorem get?_toRow (objects : HeldObjects) (row : Row) (name : String) :
    Record.get? name (objects.toRow row) =
      (Record.get? name row).map fun v => if v.isObject then objects.value name else v := by
  induction row with
  | nil => rfl
  | cons p row ih =>
      obtain ⟨n, v⟩ := p
      by_cases hn : n = name
      · subst hn
        cases v <;> simp [toRow, Record.get?, Value.isObject]
      · have hrest : Record.get? name (objects.toRow ((n, v) :: row)) =
            Record.get? name (objects.toRow row) := by
          cases v <;> simp [toRow, Record.get?, hn]
        rw [hrest, ih, Record.get?, if_neg hn]

/-- Objects that nothing was written into are those of the row. -/
theorem get?_toRow_ofRow (row : Row) (name : String) :
    Record.get? name ((ofRow row).toRow row) = Record.get? name row := by
  rw [get?_toRow]
  cases h : Record.get? name row with
  | none => rfl
  | some v =>
      cases v with
      | object ms => exact congrArg some (value_ofRow h)
      | _ => rfl

end HeldObjects

namespace FieldPlan

variable {row : Row} {p : FieldPlan} {v : Value} {d : Draft}

theorem get?_of_value? (h : p.value? row = some v) :
    Record.get? p.mapping.incomingName row = some v := by
  rw [value?] at h
  split at h
  · cases h
  · split at h
    · cases h
    · exact h

theorem draft_eq (p : FieldPlan) (v : Value) :
    p.draft v = if v.isObject && !p.mapping.isFragment then .ok (.held p.mapping.incomingName)
      else Draft.ofValue <$> p.placed v := by
  cases v with
  | object ms => cases hf : p.mapping.isFragment <;> simp [draft, hf, Value.isObject]
  | _ => rfl

/-- What is placed for a value has that value, parsed where it is a fragment. -/
theorem read_draft (h : p.value? row = some v) :
    Draft.read (HeldObjects.ofRow row).value <$> p.draft v = p.placed v := by
  have hget := get?_of_value? h
  rw [draft_eq]
  split
  · next hobject =>
      rw [Bool.and_eq_true, Bool.not_eq_true'] at hobject
      rw [placed, hobject.2, if_neg Bool.false_ne_true, map_ok, Draft.read]
      cases v with
      | object ms => rw [HeldObjects.value_ofRow hget]
      | _ => cases hobject.1
  · cases p.placed v with
    | error fault => rfl
    | ok w => rw [map_ok, map_ok, Draft.read_ofValue]

/-- In what is placed for a value, an object of the row stands at the top or nowhere. -/
theorem lookup_draft (h : p.draft v = .ok d) {r : List String} {e : Draft} (he : e.isLeaf = true)
    (hr : Draft.lookup r d = some e) :
    (e = .held p.mapping.incomingName ∧ r = [] ∧ v.isObject = true) ∨
      ∃ w, e = .value w ∧ w.isObject = false := by
  rw [draft_eq] at h
  split at h
  · next hobject =>
      rw [Bool.and_eq_true] at hobject
      cases h
      cases r with
      | nil =>
          cases hr
          exact .inl ⟨rfl, rfl, hobject.1⟩
      | cons k r => cases hr
  · obtain ⟨w, -, rfl⟩ := map_eq_ok.1 h
    exact .inr (Draft.leaf_of_lookup_ofValue he hr)

end FieldPlan

namespace Placement

/-- No path goes on behind a place where an object of the row still stands. The values are those of
the row. -/
def StaysOut (es : List Placement) : Prop :=
  ∀ before f after path ms, es = before ++ f :: after → Lasts before path (.object ms) →
    ¬ GoesThrough f.1.keyPath path

/-- It is enough that no path goes on behind that of an earlier object. -/
theorem staysOut_of_pairwise {es : List Placement}
    (h : es.Pairwise fun e f => e.2.isObject = true → ¬ GoesThrough f.1.keyPath e.1.keyPath) :
    StaysOut es := by
  rintro before f after path ms rfl hlasts
  obtain ⟨p, hp, rfl⟩ := hlasts.mem
  exact (List.pairwise_append.1 h).2.2 _ hp f List.mem_cons_self rfl

/-- Places a value of the row, parsed where it is a fragment. -/
def placeRaw (m : Record Value) (e : Placement) : Except MappingFault (Record Value) := do
  place m (e.1, ← e.1.placed e.2)

/-- What holds of a run that wrote into no object of the row: the objects are as the row has them,
each stands where it lasts, and the draft has the value of a run on values. -/
structure Untouched (row : Row) (es : List Placement) (a : Assembly) (m : Record Value) : Prop where
  objects : a.objects = .ofRow row
  members : Draft.readMembers (HeldObjects.ofRow row).value a.document = m
  clean : Draft.Clean a.document
  standing : ∀ q name, Draft.lookup q (.object a.document) = some (.held name) →
    ∃ ms, Lasts es q (.object ms)

variable {row : Row} {es : List Placement} {a a' : Assembly} {m : Record Value} {p p' : FieldPlan}
  {v : Value}

theorem untouched_nil (row : Row) : Untouched row [] ⟨.ofRow row, []⟩ [] :=
  ⟨rfl, rfl, Draft.clean_nil, fun _ _ h => absurd h (Draft.lookup_empty rfl)⟩

theorem staysOut_dropLast (h : Untouched row es a m) (hpath : p.keyPath ≠ [])
    (hout : ∀ path ms, Lasts es path (.object ms) → ¬ GoesThrough p.keyPath path) :
    Draft.StaysOut p.keyPath.dropLast a.document := by
  intro q name hq hheld
  obtain ⟨ms, hlasts⟩ := h.standing q name hheld
  exact hout q ms hlasts ((prefix_dropLast_iff hpath).1 hq)

/-- After a put, an object of the row that is placed stands at the end of its path, and others stand
where they did and are not covered. -/
theorem untouched_put (h : Untouched row es a m) (hpath : p.keyPath ≠ [])
    (hstays : Draft.StaysOut p.keyPath.dropLast a.document) {d : Draft} (hd : p.draft v = .ok d)
    {document : Record Draft} (hput : Draft.put (p.keyPath.getLastD "") d a.objects a.document 0
      p.keyPath.dropLast = .ok (a.objects, document)) :
    Untouched row (es ++ [(p, v)]) ⟨a.objects, document⟩
      (Draft.readMembers (HeldObjects.ofRow row).value document) := by
  have hsplit := keyPath_split hpath
  refine ⟨h.objects, rfl, ?_, ?_⟩
  · intro q w hq
    rcases Draft.lookup_put hstays hput rfl hq with ⟨r, -, hr⟩ | ⟨hold, -⟩
    · rcases FieldPlan.lookup_draft hd rfl hr with ⟨hheld, -⟩ | ⟨w', hw, hobject⟩
      · cases hheld
      · cases hw
        exact hobject
    · exact h.clean q w hold
  · intro q name hq
    rcases Draft.lookup_put hstays hput rfl hq with ⟨r, rfl, hr⟩ | ⟨hold, hbelow⟩
    · rcases FieldPlan.lookup_draft hd rfl hr with ⟨-, rfl, hobject⟩ | ⟨w, hw, -⟩
      · cases v with
        | object ms => exact ⟨ms, lasts_concat.2 (.inl ⟨hsplit, rfl⟩)⟩
        | _ => cases hobject
      · cases hw
    · rw [hsplit] at hbelow
      obtain ⟨ms, hlasts⟩ := h.standing q name hold
      exact ⟨ms, lasts_concat.2 (.inr ⟨hlasts, hbelow⟩)⟩

/-- One field, whose path stays out of the objects of the row, places its value as a run on values
does. -/
theorem place_untouched (h : Untouched row es a m)
    (hout : ∀ path ms, Lasts es path (.object ms) → ¬ GoesThrough p.keyPath path)
    (hvalue : p.value? row = some v) :
    (∀ a', FieldPlan.stepResult (p.start.place row a) = .ok a' →
      ∃ m', placeRaw m (p, v) = .ok m' ∧ Untouched row (es ++ [(p, v)]) a' m') ∧
    ∀ fault, FieldPlan.stepResult (p.start.place row a) = .error fault →
      placeRaw m (p, v) = .error fault := by
  have hpath := FieldPlan.keyPath_ne_nil (FieldPlan.inert_of_value? hvalue)
  have hstays := staysOut_dropLast h hpath hout
  have hstart : p.start.value? row = some v := hvalue
  have hdraft : p.start.draft v = p.draft v := rfl
  rw [FieldPlan.place, hstart]
  dsimp only
  rw [hdraft, placeRaw, ← FieldPlan.read_draft hvalue]
  cases hd : p.draft v with
  | error fault =>
      constructor
      · intro a' ha
        cases ha
      · intro fault' hf
        cases hf
        rfl
  | ok d =>
      have hput := Draft.put_of_staysOut (HeldObjects.ofRow row).value (p.keyPath.getLastD "") d
        a.objects 0 h.clean hstays
      rw [h.members] at hput
      dsimp only
      rw [FieldPlan.put, FieldPlan.route_start hpath, map_ok, ok_bind, place]
      dsimp only
      rcases map_eq_map hput with ⟨b, hp, hv⟩ | ⟨r, m', hp, hv, hr⟩
      · rw [hp, hv]
        constructor
        · intro a' ha
          cases ha
        · intro fault hf
          cases hf
          rfl
      · obtain ⟨objects, document⟩ := r
        cases hr
        rw [hp, hv]
        constructor
        · intro a' ha
          cases ha
          exact ⟨_, rfl, untouched_put h hpath hstays hd hp⟩
        · intro fault hf
          cases hf

/-- Fields whose paths stay out of the objects of the row leave these alone, and place their values
as a run on values does. -/
theorem placeAll_untouched {ps : List FieldPlan} (h : Untouched row es a m)
    (hout : StaysOut (es ++ FieldPlan.active row ps)) :
    (FieldPlan.placeAll row a (ps.map FieldPlan.start)).1.objects = .ofRow row ∧
      (fun a => Draft.readMembers (HeldObjects.ofRow row).value a.document) <$>
        FieldPlan.runResult (FieldPlan.placeAll row a (ps.map FieldPlan.start)) =
          (FieldPlan.active row ps).foldlM placeRaw m := by
  induction ps generalizing es a m with
  | nil => exact ⟨h.objects, congrArg Except.ok h.members⟩
  | cons p ps ih =>
      cases hvalue : p.value? row with
      | none =>
          have hskip : p.start.place row a = .ok (a, p.start) := by
            have hstart : p.start.value? row = none := hvalue
            rw [FieldPlan.place, hstart]
          rw [FieldPlan.active_cons_none hvalue] at hout ⊢
          rw [List.map_cons, FieldPlan.placeAll, hskip]
          exact ih h hout
      | some v =>
          rw [FieldPlan.active_cons_some hvalue] at hout ⊢
          have hfirst : ∀ path ms, Lasts es path (.object ms) → ¬ GoesThrough p.keyPath path :=
            fun path ms hlasts => hout es (p, v) _ path ms rfl hlasts
          obtain ⟨hok, herror⟩ := place_untouched h hfirst hvalue
          rw [List.foldlM_cons, List.map_cons, FieldPlan.placeAll]
          cases hplace : p.start.place row a with
          | error r =>
              obtain ⟨fault, p'⟩ := r
              rw [hplace] at herror
              rw [herror fault rfl]
              exact ⟨h.objects, rfl⟩
          | ok r =>
              obtain ⟨a', p'⟩ := r
              rw [hplace] at hok
              obtain ⟨m', hm', hnext⟩ := hok a' rfl
              rw [List.append_cons] at hout
              rw [hm', ok_bind]
              exact ih hnext hout

theorem placeRaw_eq_ok {m' : Record Value} {e : Placement} :
    placeRaw m e = .ok m' ↔ ∃ w, e.1.placed e.2 = .ok w ∧
      Value.putAt (e.1.keyPath.getLastD "") w m 0 e.1.keyPath.dropLast = .ok m' := by
  rw [placeRaw, bind_eq_ok]
  simp only [place_eq_ok]

/-- A value that is placed is found at the end of its path. -/
theorem lookup_placeRaw {m' : Record Value} (hpath : p.keyPath ≠ [])
    (h : placeRaw m (p, v) = .ok m') :
    ∃ w, p.placed v = .ok w ∧ Value.lookup p.keyPath (.object m') = some w := by
  obtain ⟨w, hw, hput⟩ := placeRaw_eq_ok.1 h
  have hfound := Value.lookup_putAt_append hput []
  rw [keyPath_split hpath] at hfound
  exact ⟨w, hw, hfound⟩

/-- Placements on other ways leave a place as it is. -/
theorem lookup_run_of_apart {m' : Record Value} {q : List String}
    (hpath : ∀ f ∈ es, f.1.keyPath ≠ [])
    (hapart : ∀ f ∈ es, ¬ f.1.keyPath <+: q ∧ ¬ q <+: f.1.keyPath)
    (h : es.foldlM placeRaw m = .ok m') :
    Value.lookup q (.object m') = Value.lookup q (.object m) := by
  induction es generalizing m with
  | nil =>
      cases h
      rfl
  | cons f es ih =>
      rw [List.forall_mem_cons] at hpath hapart
      rw [List.foldlM_cons, bind_eq_ok] at h
      obtain ⟨m₁, hfirst, hrest⟩ := h
      obtain ⟨w, -, hput⟩ := placeRaw_eq_ok.1 hfirst
      rw [ih hpath.2 hapart.2 hrest]
      apply Value.lookup_putAt_of_apart hput
      · rw [keyPath_split hpath.1]
        exact hapart.1.1
      · intro hq
        exact hapart.1.2 (hq.trans (List.dropLast_prefix _))

end Placement

namespace Plan

variable {plan : Plan} {row : Row}

/-- Where no path goes on behind an object of the row, the document is that of a run on values, and
the row stays as it was, also where the run fails. -/
theorem insertDocument_of_staysOut
    (hout : Placement.StaysOut (FieldPlan.active row plan.fields)) :
    (plan.insertDocument row).row = (HeldObjects.ofRow row).toRow row ∧
      (plan.insertDocument row).answer =
        Value.object <$> (FieldPlan.active row plan.fields).foldlM Placement.placeRaw [] := by
  obtain ⟨hobjects, hrun⟩ :=
    @Placement.placeAll_untouched row [] ⟨.ofRow row, []⟩ [] plan.fields
      (Placement.untouched_nil row) hout
  constructor
  · change (FieldPlan.placeAll row _ plan.startRow.fields).1.objects.toRow row = _
    exact congrArg (HeldObjects.toRow · row) hobjects
  · rw [insertDocument_answer, ← hrun, startRow]
    generalize FieldPlan.placeAll row ⟨.ofRow row, []⟩ (plan.fields.map FieldPlan.start) = r
      at hobjects ⊢
    obtain ⟨a, fields, fault⟩ := r
    cases fault with
    | some fault => rfl
    | none =>
        dsimp only at hobjects
        change Except.ok (Draft.read a.objects.value (.object a.document)) = _
        rw [hobjects]
        rfl

/-- The names of a row and its values that are no objects never change. Its objects do not change
either, whether a document comes or a fault, as long as no path goes on behind one of them; and then
the value of a field stands at its place in the document, if no later field covers the place or goes
on behind it. -/
theorem insertDocument_frame (plan : Plan) (row : Row) :
    Record.names (plan.insertDocument row).row = Record.names row ∧
    (∀ name v, Record.get? name row = some v → v.isObject = false →
      Record.get? name (plan.insertDocument row).row = some v) ∧
    (Placement.StaysOut (FieldPlan.active row plan.fields) →
      (∀ name, Record.get? name (plan.insertDocument row).row = Record.get? name row) ∧
      ∀ doc, (plan.insertDocument row).answer = .ok doc →
        ∀ before p v after, FieldPlan.active row plan.fields = before ++ (p, v) :: after →
          (∀ f ∈ after, ¬ f.1.keyPath <+: p.keyPath ∧ ¬ p.keyPath <+: f.1.keyPath) →
            ∃ w, p.placed v = .ok w ∧ doc.lookup p.keyPath = some w) := by
  have hleft : (plan.insertDocument row).row =
      (FieldPlan.placeAll row ⟨.ofRow row, []⟩ plan.startRow.fields).1.objects.toRow row := rfl
  refine ⟨?_, ?_, ?_⟩
  · rw [hleft, HeldObjects.names_toRow]
  · intro name v hget hv
    rw [hleft, HeldObjects.get?_toRow, hget, Option.map_some, if_neg (by rw [hv]; decide)]
  · intro hout
    obtain ⟨hrow, hanswer⟩ := insertDocument_of_staysOut hout
    refine ⟨?_, ?_⟩
    · intro name
      rw [hrow]
      exact HeldObjects.get?_toRow_ofRow row name
    · intro doc hdoc before p v after hactive hapart
      have hpaths := FieldPlan.keyPath_of_active row plan.fields
      rw [hactive, List.forall_mem_append, List.forall_mem_cons] at hpaths
      rw [hanswer, hactive, map_eq_ok] at hdoc
      obtain ⟨m, hrun, rfl⟩ := hdoc
      rw [List.foldlM_append, bind_eq_ok] at hrun
      obtain ⟨m₁, -, hrun⟩ := hrun
      rw [List.foldlM_cons, bind_eq_ok] at hrun
      obtain ⟨m₂, hplace, hafter⟩ := hrun
      obtain ⟨w, hw, hfound⟩ := Placement.lookup_placeRaw hpaths.2.1 hplace
      refine ⟨w, hw, ?_⟩
      rw [Placement.lookup_run_of_apart hpaths.2.2 hapart hafter, hfound]

/-- An object, another below a path of its own, and a value beside that. -/
def besides : Plan where
  write := {}
  modifierMode := false
  fields := [
    ⟨⟨"x", ["x"], none⟩, { incomingName := "a", documentPath := "x" }⟩,
    ⟨⟨"w.k", ["w", "k"], none⟩, { incomingName := "b", documentPath := "w.k" }⟩,
    ⟨⟨"w.m", ["w", "m"], none⟩, { incomingName := "c", documentPath := "w.m" }⟩]
  indexes := []
  vars := []

theorem insertDocument_frame_besides :
    let row : Row := [("a", .object [("y", .int 1)]), ("b", .object []), ("c", .int 2)]
    let doc := Value.object [
      ("x", .object [("y", .int 1)]), ("w", .object [("k", .object []), ("m", .int 2)])]
    Placement.StaysOut (FieldPlan.active row besides.fields) ∧
      (besides.insertDocument row).answer = .ok doc ∧
      (∀ name, Record.get? name (besides.insertDocument row).row = Record.get? name row) ∧
      doc.lookup ["x"] = some (.object [("y", .int 1)]) := by
  intro row doc
  have hout : Placement.StaysOut (FieldPlan.active row besides.fields) :=
    Placement.staysOut_of_pairwise (by decide)
  have hdoc : (besides.insertDocument row).answer = .ok doc := rfl
  obtain ⟨hrow, hfound⟩ := (insertDocument_frame besides row).2.2 hout
  have hactive : FieldPlan.active row besides.fields =
      [] ++ (besides.fields[0], .object [("y", .int 1)]) ::
        [(besides.fields[1], .object []), (besides.fields[2], .int 2)] := rfl
  obtain ⟨w, hw, hlookup⟩ := hfound doc hdoc _ _ _ _ hactive (by decide)
  cases hw
  exact ⟨hout, hdoc, hrow, hlookup⟩

/-- An object is placed at two paths, and a value below one of them. -/
def below : Plan where
  write := {}
  modifierMode := false
  fields := [
    ⟨⟨"x", ["x"], none⟩, { incomingName := "a", documentPath := "x" }⟩,
    ⟨⟨"w", ["w"], none⟩, { incomingName := "a", documentPath := "w" }⟩,
    ⟨⟨"x.y", ["x", "y"], none⟩, { incomingName := "b", documentPath := "x.y" }⟩]
  indexes := []
  vars := []

/-- The value goes into the object of the row, and shows at the other path as well. -/
theorem insertDocument_below :
    let row : Row := [("a", .object []), ("b", .int 1)]
    let written := Value.object [("y", .int 1)]
    (below.insertDocument row).row = [("a", written), ("b", .int 1)] ∧
      (below.insertDocument row).answer = .ok (.object [("x", written), ("w", written)]) ∧
      Record.get? "a" (below.insertDocument row).row ≠ Record.get? "a" row := by
  refine ⟨rfl, rfl, ?_⟩
  intro h
  cases h

end Plan

end DocumentSink
