import DocumentSink.Definition.Shape
import DocumentSink.Proofs.Placement
import DocumentSink.Proofs.Step

/-!
What members are taken for. Where they are written one after another, the last one of a name counts.
Lax validation keeps the laws of validation: an object is read exactly when each of its parts is.
-/

namespace DocumentSink

namespace Record

variable {α : Type} {name : String} {value : α}

theorem putAll_concat (r s : Record α) (p : String × α) :
    r.putAll (s ++ [p]) = (r.putAll s).put p.1 p.2 := by
  rw [putAll, List.foldl_append]
  rfl

theorem putAll_append (r s t : Record α) : r.putAll (s ++ t) = (r.putAll s).putAll t := by
  rw [putAll, List.foldl_append]
  rfl

/-- After some pairs are written, a name has the value of the last pair with the name. -/
theorem get?_putAll_eq_some {s : Record α} :
    (putAll [] s).get? name = some value ↔ Latest (fun p => p.1 = name) s (name, value) := by
  induction s using List.reverseRecOn with
  | nil => exact ⟨nofun, fun h => absurd h not_latest_nil⟩
  | append_singleton s p ih =>
      obtain ⟨n, v⟩ := p
      rw [putAll_concat, latest_concat]
      dsimp only
      by_cases hn : n = name
      · subst hn
        simp [eq_comm]
      · rw [get?_put_ne (Ne.symm hn), ih]
        simp [hn, Ne.symm hn]

theorem get?_putAll_eq_none {s : Record α} :
    (putAll [] s).get? name = none ↔ name ∉ s.names := by
  induction s using List.reverseRecOn with
  | nil => exact ⟨fun _ => List.not_mem_nil, fun _ => rfl⟩
  | append_singleton s p ih =>
      obtain ⟨n, v⟩ := p
      rw [putAll_concat, names_append, List.mem_append, not_or, ← ih]
      dsimp only
      by_cases hn : n = name
      · subst hn
        simp [names]
      · rw [get?_put_ne (Ne.symm hn)]
        simp [names, Ne.symm hn]

end Record

namespace Validation

variable {α : Type} {members assigned : Record Value} {name : String} {read : Value → Option α}
  {default a : α} {v : Value}

theorem takes_of_get? (h : members.get? name = some v) :
    Takes members name read default a ↔ read v = some a := by
  rw [Takes, h]

theorem takes_of_no_member (h : members.get? name = none) :
    Takes members name read default a ↔ a = default := by
  rw [Takes, h]

/-- What is taken for a name to which values are assigned one after another: what the last of them
is read as, or the default without any. -/
def TakesLast (assigned : Record Value) (name : String) (read : Value → Option α) (default a : α) :
    Prop :=
  (∀ v, Latest (fun p => p.1 = name) assigned (name, v) → read v = some a) ∧
    (name ∉ assigned.names → a = default)

theorem takes_putAll : Takes (Record.putAll [] assigned) name read default a ↔
    TakesLast assigned name read default a := by
  rw [TakesLast, ← Record.get?_putAll_eq_none]
  simp only [← Record.get?_putAll_eq_some]
  cases hv : Record.get? name (Record.putAll [] assigned) with
  | none =>
      rw [takes_of_no_member hv]
      exact ⟨fun h => ⟨nofun, fun _ => h⟩, fun h => h.2 rfl⟩
  | some v =>
      rw [takes_of_get? hv]
      constructor
      · intro h
        refine ⟨?_, nofun⟩
        rintro _ ⟨⟩
        exact h
      · intro h
        exact h.1 v rfl

end Validation

namespace Read

variable {α β : Type} {a : α} {b : β} {x : Read α}

theorem seq_eq_ok {f : Read (α → β)} :
    f <*> x = .ok b ↔ ∃ g a, f = .ok g ∧ x = .ok a ∧ g a = b := by
  cases f with
  | faults fs =>
      cases x with
      | faults gs => exact ⟨nofun, nofun⟩
      | ok a => exact ⟨nofun, nofun⟩
  | ok g =>
      cases x with
      | faults gs => exact ⟨nofun, nofun⟩
      | ok a =>
          constructor
          · intro h
            cases h
            exact ⟨g, a, rfl, rfl, rfl⟩
          · rintro ⟨_, _, ⟨⟩, ⟨⟩, rfl⟩
            rfl

theorem map_eq_ok {f : α → β} : f <$> x = .ok b ↔ ∃ a, x = .ok a ∧ f a = b := by
  cases x with
  | faults fs => exact ⟨nofun, nofun⟩
  | ok a =>
      constructor
      · intro h
        cases h
        exact ⟨a, rfl, rfl⟩
      · rintro ⟨_, ⟨⟩, rfl⟩
        rfl

theorem below_eq_ok {p : Place} : below p x = .ok a ↔ x = .ok a := by
  cases x with
  | faults fs => exact ⟨nofun, nofun⟩
  | ok a => exact Iff.rfl

theorem toOption_eq_some : x.toOption = some a ↔ x = .ok a := by
  cases x with
  | faults fs => exact ⟨nofun, nofun⟩
  | ok b => rw [toOption, Option.some.injEq, ok.injEq]

theorem toExcept_eq_ok : x.toExcept = .ok a ↔ x = .ok a := by
  cases x with
  | faults fs => exact ⟨nofun, nofun⟩
  | ok b => rw [toExcept, Except.ok.injEq, ok.injEq]

end Read

open Value
open Validation (Takes)

theorem Value.part_eq_ok {α : Type} {members : Record Value} {name : String}
    {read : Value → Read α} {default a : α} : part members name read default = .ok a ↔
      Takes members name (fun v => (read v).toOption) default a := by
  rw [part, Takes]
  cases members.get? name with
  | none => exact ⟨fun h => by cases h; rfl, fun h => h ▸ rfl⟩
  | some v =>
      dsimp only
      rw [Read.below_eq_ok, Read.toOption_eq_some]

theorem FieldMapping.ofMembers_eq_ok {members : Record Value} {m : FieldMapping} :
    ofMembers members = .ok m ↔
      part members "incoming_name" asText "" = .ok m.incomingName ∧
      part members "document_path" asText "" = .ok m.documentPath ∧
      part members "use_incoming_name_as_key" asFlag false = .ok m.useIncomingName ∧
      part members "is_match_key" asFlag false = .ok m.isMatchKey ∧
      part members "operator" (asChoice Operator.ofExactToken?) .none = .ok m.operator ∧
      part members "apply_policy" (asChoice ApplyPolicy.ofExactToken?) .insertAndUpdate =
        .ok m.policy ∧
      part members "is_json_fragment" asFlag false = .ok m.isFragment := by
  rw [ofMembers]
  simp only [Read.seq_eq_ok, Read.map_eq_ok]
  constructor
  · rintro ⟨_, _, ⟨_, _, ⟨_, _, ⟨_, _, ⟨_, _, ⟨_, _, ⟨_, h1, rfl⟩, h2, rfl⟩, h3, rfl⟩, h4, rfl⟩,
      h5, rfl⟩, h6, rfl⟩, h7, rfl⟩
    exact ⟨h1, h2, h3, h4, h5, h6, h7⟩
  · rintro ⟨h1, h2, h3, h4, h5, h6, h7⟩
    exact ⟨_, _, ⟨_, _, ⟨_, _, ⟨_, _, ⟨_, _, ⟨_, _, ⟨_, h1, rfl⟩, h2, rfl⟩, h3, rfl⟩, h4, rfl⟩,
      h5, rfl⟩, h6, rfl⟩, h7, rfl⟩

theorem IndexSpec.ofMembers_eq_ok {members : Record Value} {i : IndexSpec} :
    ofMembers members = .ok i ↔
      part members "field_spec" asText "" = .ok i.fieldSpec ∧
      part members "drop" asFlag false = .ok i.drop ∧
      part members "unique" asFlag false = .ok i.unique ∧
      part members "sparse" asFlag false = .ok i.sparse := by
  rw [ofMembers]
  simp only [Read.seq_eq_ok, Read.map_eq_ok]
  constructor
  · rintro ⟨_, _, ⟨_, _, ⟨_, _, ⟨_, h1, rfl⟩, h2, rfl⟩, h3, rfl⟩, h4, rfl⟩
    exact ⟨h1, h2, h3, h4⟩
  · rintro ⟨h1, h2, h3, h4⟩
    exact ⟨_, _, ⟨_, _, ⟨_, _, ⟨_, h1, rfl⟩, h2, rfl⟩, h3, rfl⟩, h4, rfl⟩

namespace WriteOption

variable {members : Record Value} {v w : WriteOptions}

/-- Some options have what is read for an option. -/
def Reads (members : Record Value) (w : WriteOptions) : WriteOption → Prop
  | text o => part members o.name asText (o.get {}) = .ok (o.get w)
  | flag o => part members o.name asFlag (o.get {}) = .ok (o.get w)

/-- Two have the same at an option. -/
def Same (v w : WriteOptions) : WriteOption → Prop
  | text o => o.get v = o.get w
  | flag o => o.get v = o.get w

theorem eq_of_same (h : ∀ o, Same v w o) : v = w :=
  WriteOptions.ext_get (fun o => h (.text o)) fun o => h (.flag o)

theorem ofMembers_faults (members : Record Value) (fs : List ShapeFault) (o : WriteOption) :
    ∃ gs, ofMembers members (.faults fs) o = .faults gs := by
  cases o with
  | text o =>
      rw [ofMembers]
      cases part members o.name asText (o.get {}) with
      | ok s => exact ⟨_, rfl⟩
      | faults gs => exact ⟨_, rfl⟩
  | flag o =>
      rw [ofMembers]
      cases part members o.name asFlag (o.get {}) with
      | ok b => exact ⟨_, rfl⟩
      | faults gs => exact ⟨_, rfl⟩

theorem foldl_ofMembers_faults (members : Record Value) (l : List WriteOption)
    (fs : List ShapeFault) : ∃ gs, l.foldl (ofMembers members) (.faults fs) = .faults gs := by
  induction l generalizing fs with
  | nil => exact ⟨fs, rfl⟩
  | cons o l ih =>
      obtain ⟨gs, hgs⟩ := ofMembers_faults members fs o
      rw [List.foldl_cons, hgs]
      exact ih gs

/-- Reading one option fails, or gives options that are others at that one alone. -/
theorem ofMembers_ok (members : Record Value) (w : WriteOptions) (o : WriteOption) :
    (∃ fs, ofMembers members (.ok w) o = .faults fs ∧ ∀ v, ¬ Reads members v o) ∨
      ∃ u, ofMembers members (.ok w) o = .ok u ∧ (∀ v, Reads members v o ↔ Same v u o) ∧
        ∀ o' ≠ o, ∀ v, Same v u o' ↔ Same v w o' := by
  cases o with
  | text o =>
      cases hpart : part members o.name asText (o.get {}) with
      | faults fs =>
          refine .inl ⟨fs, by rw [ofMembers, hpart]; rfl, fun v h => ?_⟩
          rw [Reads, hpart] at h
          cases h
      | ok s =>
          refine .inr ⟨o.set w s, by rw [ofMembers, hpart]; rfl, fun v => ?_, ?_⟩
          · rw [Reads, Same, hpart, TextOption.get_set, if_pos rfl, Read.ok.injEq]
            exact eq_comm
          · intro o' hne v
            cases o' with
            | text p =>
                rw [Same, Same, TextOption.get_set, if_neg (fun h => hne (congrArg text h))]
            | flag p => rw [Same, Same, FlagOption.get_set_text]
  | flag o =>
      cases hpart : part members o.name asFlag (o.get {}) with
      | faults fs =>
          refine .inl ⟨fs, by rw [ofMembers, hpart]; rfl, fun v h => ?_⟩
          rw [Reads, hpart] at h
          cases h
      | ok b =>
          refine .inr ⟨o.set w b, by rw [ofMembers, hpart]; rfl, fun v => ?_, ?_⟩
          · rw [Reads, Same, hpart, FlagOption.get_set, if_pos rfl, Read.ok.injEq]
            exact eq_comm
          · intro o' hne v
            cases o' with
            | text p => rw [Same, Same, TextOption.get_set_flag]
            | flag p =>
                rw [Same, Same, FlagOption.get_set, if_neg (fun h => hne (congrArg flag h))]

theorem foldl_ofMembers {l : List WriteOption} (hl : l.Nodup) (w : WriteOptions) :
    l.foldl (ofMembers members) (.ok w) = .ok v ↔
      (∀ o ∈ l, Reads members v o) ∧ ∀ o ∉ l, Same v w o := by
  induction l generalizing w with
  | nil =>
      rw [List.foldl_nil, Read.ok.injEq]
      constructor
      · rintro rfl
        exact ⟨List.forall_mem_nil _, fun o _ => by cases o <;> rfl⟩
      · rintro ⟨-, hsame⟩
        exact (eq_of_same fun o => hsame o List.not_mem_nil).symm
  | cons o l ih =>
      obtain ⟨ho, hl⟩ := List.nodup_cons.1 hl
      rw [List.foldl_cons, List.forall_mem_cons]
      rcases ofMembers_ok members w o with ⟨fs, hfs, hnot⟩ | ⟨u, hu, hreads, hothers⟩
      · obtain ⟨gs, hgs⟩ := foldl_ofMembers_faults members l fs
        rw [hfs, hgs]
        exact ⟨nofun, fun h => absurd h.1.1 (hnot v)⟩
      · rw [hu, ih hl u, hreads]
        constructor
        · rintro ⟨hmem, hsame⟩
          refine ⟨⟨hsame o ho, hmem⟩, fun o' ho' => ?_⟩
          obtain ⟨hne, hl'⟩ := not_or.1 (mt List.mem_cons.2 ho')
          exact (hothers o' hne v).1 (hsame o' hl')
        · rintro ⟨⟨hsame, hmem⟩, hrest⟩
          refine ⟨hmem, fun o' ho' => ?_⟩
          by_cases hne : o' = o
          · exact hne ▸ hsame
          · refine (hothers o' hne v).2 (hrest o' ?_)
            rw [List.mem_cons, not_or]
            exact ⟨hne, ho'⟩

theorem nodup_all : all.Nodup := by decide

end WriteOption

/-- Options are read one by one. -/
theorem WriteOptions.ofMembers_eq_ok {members : Record Value} {w : WriteOptions} :
    ofMembers members = .ok w ↔ ∀ o, WriteOption.Reads members w o := by
  rw [ofMembers, WriteOption.foldl_ofMembers WriteOption.nodup_all]
  constructor
  · rintro ⟨hreads, -⟩ o
    exact hreads o (WriteOption.mem_all o)
  · intro h
    exact ⟨fun o _ => h o, fun o ho => absurd (WriteOption.mem_all o) ho⟩

theorem Validation.lax_lawful : lax.Lawful where
  text_text _ := rfl
  flag_bool _ := rfl
  options_eq_ok {members w} := by
    rw [lax, Read.toExcept_eq_ok, WriteOptions.ofMembers_eq_ok]
    simp only [← part_eq_ok]
    refine ⟨fun h => ⟨fun o => h (.text o), fun o => h (.flag o)⟩, fun h o => ?_⟩
    cases o with
    | text o => exact h.1 o
    | flag o => exact h.2 o
  mapping_eq_ok {members m} := by
    rw [lax, Read.toExcept_eq_ok, FieldMapping.ofMembers_eq_ok]
    simp only [← part_eq_ok]
  index_eq_ok {members i} := by
    rw [lax, Read.toExcept_eq_ok, IndexSpec.ofMembers_eq_ok]
    simp only [← part_eq_ok]

end DocumentSink
