import DocumentSink.Proofs.Decoding
import DocumentSink.Proofs.Xml.RoundTrip
import Mathlib.Data.List.Nodup

/-!
Markup of a definition. Content becomes a tree whenever markup can carry its texts; the tree on its
lines has the same content under the codes, for the line ends count as texts of the two groups
alone. Main statement: a definition that is written reads back, settled.
-/

namespace DocumentSink.Markup

open Xml (Element)

def leaves (r : Record String) : List Element := r.map fun p => .leaf p.1 p.2

/-- The group of some entries, unless there are none. -/
def groupOf (tag entryTag : String) (entries : List (Record String)) : List Element :=
  if entries.isEmpty then [] else [.group tag (entries.map fun r => .group entryTag (leaves r))]

def tree (s : Step) : Element :=
  .group stepTag (leaves s.options ++ groupOf fieldsTag fieldTag s.fields ++
    groupOf indexesTag indexTag s.indexes)

def Carried (r : Record String) : Prop := ∀ p ∈ r, ∀ c ∈ p.2.toList, Xml.isChar c

structure StepCarried (s : Step) : Prop where
  options : Carried s.options
  fields : ∀ r ∈ s.fields, Carried r
  indexes : ∀ r ∈ s.indexes, Carried r

theorem carried_of_all {r : Record String} (h : r.all fun p => p.2.toList.all Xml.isChar) :
    Carried r := by
  intro p hp
  exact List.all_eq_true.1 (List.all_eq_true.1 h p hp)

instance (r : Record String) : Decidable (Carried r) :=
  decidable_of_iff (r.all fun p => p.2.toList.all Xml.isChar)
    ⟨carried_of_all, fun h => List.all_eq_true.2 fun p hp => List.all_eq_true.2 (h p hp)⟩

instance (s : Step) : Decidable (StepCarried s) :=
  decidable_of_iff (Carried s.options ∧ (∀ r ∈ s.fields, Carried r) ∧ ∀ r ∈ s.indexes, Carried r)
    ⟨fun h => ⟨h.1, h.2.1, h.2.2⟩, fun h => ⟨h.options, h.fields, h.indexes⟩⟩

section Writing

theorem leaf_eq_ok {p : String × String} {e : Element} :
    leaf p = .ok e ↔ (∀ c ∈ p.2.toList, Xml.isChar c) ∧ e = .leaf p.1 p.2 := by
  rw [leaf]
  split
  · next c hc =>
      have hbad := List.find?_some hc
      have hmem := List.mem_of_find?_eq_some hc
      constructor
      · intro h
        cases h
      · rintro ⟨hall, -⟩
        rw [hall c hmem] at hbad
        cases hbad
  · next hnone =>
      have hall : ∀ c ∈ p.2.toList, Xml.isChar c := by simpa using hnone
      rw [Except.ok.injEq, eq_comm]
      exact ⟨fun h => ⟨hall, h⟩, fun h => h.2⟩

theorem leaves_eq_ok {r : Record String} {es : List Element} :
    r.mapM leaf = .ok es ↔ Carried r ∧ es = leaves r :=
  mapM_eq_ok_iff_map fun _ _ => leaf_eq_ok

theorem entry_eq_ok (entryTag : String) (r : Record String) (e : Element) :
    (do return .group entryTag (← r.mapM leaf)) = Except.ok (ε := WriteFault) e ↔
      Carried r ∧ e = .group entryTag (leaves r) := by
  simp only [bind_eq_ok, leaves_eq_ok, pure_eq_ok, Except.ok.injEq]
  constructor
  · rintro ⟨_, ⟨hr, rfl⟩, rfl⟩
    exact ⟨hr, rfl⟩
  · rintro ⟨hr, rfl⟩
    exact ⟨_, ⟨hr, rfl⟩, rfl⟩

theorem group_eq_ok {tag entryTag : String} {rs : List (Record String)} {es : List Element} :
    group leaf tag entryTag rs = .ok es ↔ (∀ r ∈ rs, Carried r) ∧ es = groupOf tag entryTag rs := by
  have hentries := @mapM_eq_ok_iff_map _ _ _ _ _ _ (entry_eq_ok entryTag) rs
  rw [group, bind_eq_ok]
  simp only [hentries]
  simp only [pure_eq_ok, Except.ok.injEq, groupOf]
  constructor
  · rintro ⟨_, ⟨hrs, rfl⟩, rfl⟩
    exact ⟨hrs, by simp only [List.isEmpty_map]⟩
  · rintro ⟨hrs, rfl⟩
    exact ⟨_, ⟨hrs, rfl⟩, by simp only [List.isEmpty_map]⟩

/-- Content becomes a tree exactly when markup can carry its texts. -/
theorem ofContent_eq_ok {s : Step} {e : Element} :
    ofContent leaf s = .ok e ↔ StepCarried s ∧ e = tree s := by
  simp only [ofContent, bind_eq_ok, leaves_eq_ok, group_eq_ok, pure_eq_ok, Except.ok.injEq]
  constructor
  · rintro ⟨_, ⟨ho, rfl⟩, _, ⟨hf, rfl⟩, _, ⟨hi, rfl⟩, rfl⟩
    exact ⟨⟨ho, hf, hi⟩, rfl⟩
  · rintro ⟨⟨ho, hf, hi⟩, rfl⟩
    exact ⟨_, ⟨ho, rfl⟩, _, ⟨hf, rfl⟩, _, ⟨hi, rfl⟩, rfl⟩

end Writing

section Tree

theorem isTag_of_code {code : String}
    (h : code ∈ Step.optionCodes ++ Step.fieldCodes ++ Step.indexCodes) : Xml.isTag code := by
  revert code
  decide +kernel

theorem writable_leaves {r : Record String} (htags : ∀ p ∈ r, Xml.isTag p.1) (h : Carried r) :
    ∀ e ∈ leaves r, Xml.Writable e := by
  intro e he
  obtain ⟨p, hp, rfl⟩ := List.mem_map.1 he
  exact Xml.writable_leaf (htags p hp) (h p hp)

theorem writable_groupOf (tag entryTag : String) {rs : List (Record String)} (htag : Xml.isTag tag)
    (hentry : Xml.isTag entryTag) (htags : ∀ r ∈ rs, ∀ p ∈ r, Xml.isTag p.1)
    (h : ∀ r ∈ rs, Carried r) : ∀ e ∈ groupOf tag entryTag rs, Xml.Writable e := by
  intro e he
  rw [groupOf] at he
  split at he
  · exact absurd he List.not_mem_nil
  · rw [List.mem_singleton.1 he]
    apply Xml.writable_group htag
    intro e he
    obtain ⟨r, hr, rfl⟩ := List.mem_map.1 he
    exact Xml.writable_group hentry (writable_leaves (htags r hr) (h r hr))

theorem writable_tree {s : Step} (hs : s.Coded) (h : StepCarried s) : Xml.Writable (tree s) := by
  have hname {r : Record String} {codes : List String} (hr : Step.HasCodes codes r) :
      ∀ p ∈ r, p.1 ∈ codes := fun p hp => hr.subset p.1 (List.mem_map_of_mem hp)
  have hoptions := writable_leaves
    (fun p hp => isTag_of_code (by simp [hname hs.options p hp])) h.options
  have hfields := writable_groupOf fieldsTag fieldTag (by decide) (by decide)
    (fun r hr p hp => isTag_of_code (by simp [hname (hs.fields r hr).1 p hp])) h.fields
  have hindexes := writable_groupOf indexesTag indexTag (by decide)
    (by decide) (fun r hr p hp => isTag_of_code (by simp [hname (hs.indexes r hr).1 p hp])) h.indexes
  apply Xml.writable_group (by decide)
  intro e he
  rw [List.mem_append, List.mem_append] at he
  rcases he with (he | he) | he
  · exact hoptions e he
  · exact hfields e he
  · exact hindexes e he

/-- UTF-8 writes the text of a content without a zero. -/
theorem null_not_mem_write {s : Step} (hs : s.Coded) (h : StepCarried s) :
    '\x00' ∉ Xml.write 0 (tree s) := by
  intro hm
  have hchar := (Xml.isPlain_write 0 _ (writable_tree hs h) _ hm).1
  revert hchar
  decide

end Tree

section Showing

/-- Elements with the texts of a record, one for each pair, in any order. -/
def ShowsTexts (es : List Element) (r : Record String) : Prop :=
  (es.map fun e => (e.name, e.text)).Perm (r.map fun p => (⟨"", p.1⟩, p.2))

/-- A group with an element for each of some records. Without records it may be missing. -/
def ShowsGroup (tag entryTag : String) (gs : List Element) (rs : List (Record String)) : Prop :=
  gs = [] ∧ rs = [] ∨ ∃ g, gs = [g] ∧ g.hasTag tag ∧
    List.Forall₂ (fun e r => e.hasTag entryTag ∧ ShowsTexts e.children r) g.children rs

/-- An element whose children are the texts of the options of a content and its two groups, in any
order. -/
def Shows (e : Element) (s : Step) : Prop :=
  ∃ options fields indexes, e.children.Perm (options ++ fields ++ indexes) ∧
    ShowsTexts options s.options ∧ ShowsGroup fieldsTag fieldTag fields s.fields ∧
    ShowsGroup indexesTag indexTag indexes s.indexes

variable {es gs : List Element} {r : Record String} {tag entryTag : String}
  {rs : List (Record String)}

def textsOf (es : List Element) : Record String :=
  (es.filter fun c => c.name.space.isEmpty).map fun c => (c.name.label, c.text)

theorem textsOf_append (es es' : List Element) : textsOf (es ++ es') = textsOf es ++ textsOf es' := by
  rw [textsOf, List.filter_append, List.map_append]
  rfl

theorem ShowsTexts.perm (h : ShowsTexts es r) : (textsOf es).Perm r := by
  let isPlain : Xml.Name × String → Bool := fun q => q.1.space.isEmpty
  let pair : Xml.Name × String → String × String := fun q => (q.1.label, q.2)
  have hes : (((es.map fun e => (e.name, e.text)).filter isPlain).map pair) = textsOf es := by
    rw [List.filter_map, List.map_map]
    rfl
  have hr : (((r.map fun p => ((⟨"", p.1⟩ : Xml.Name), p.2)).filter isPlain).map pair) = r := by
    have hall : ∀ q ∈ r.map fun p => ((⟨"", p.1⟩ : Xml.Name), p.2), isPlain q = true := by
      intro q hq
      obtain ⟨p, -, rfl⟩ := List.mem_map.1 hq
      rfl
    rw [List.filter_eq_self.2 hall, List.map_map]
    exact List.map_id r
  have hperm := (h.filter isPlain).map pair
  rw [hes, hr] at hperm
  exact hperm

theorem ShowsTexts.label_mem (h : ShowsTexts es r) {e : Element} (he : e ∈ es) :
    e.name.label ∈ r.names := by
  have hm := h.subset (List.mem_map_of_mem he)
  obtain ⟨p, hp, hpair⟩ := List.mem_map.1 hm
  rw [Prod.mk.injEq] at hpair
  rw [← hpair.1]
  exact List.mem_map_of_mem hp

theorem ShowsTexts.sameAt {codes : List String} (h : ShowsTexts es r)
    (hr : Step.HasCodes codes r) : Step.SameAt codes (textsOf es) r := by
  intro code _
  exact Record.get?_perm h.perm (List.nodup_iff_count_le_one.1 hr.nodup code)

theorem ShowsGroup.hasTag (h : ShowsGroup tag entryTag gs rs) : ∀ g ∈ gs, g.hasTag tag := by
  intro g hg
  rcases h with ⟨rfl, -⟩ | ⟨g', rfl, hg', -⟩
  · exact absurd hg List.not_mem_nil
  · rw [List.mem_singleton.1 hg]
    exact hg'

theorem ShowsGroup.length_le (h : ShowsGroup tag entryTag gs rs) : gs.length ≤ 1 := by
  rcases h with ⟨rfl, -⟩ | ⟨g, rfl, -⟩
  · exact Nat.zero_le 1
  · exact Nat.le_refl 1

/-- The group is the one child with its tag. -/
theorem ShowsGroup.child? {e : Element} {others : List Element} (h : ShowsGroup tag entryTag gs rs)
    (hchildren : e.children.Perm (gs ++ others)) (hothers : ∀ c ∈ others, c.hasTag tag = false) :
    e.child? tag = gs.head? := by
  have hnone : others.countP (Element.hasTag tag) = 0 := by
    rw [List.countP_eq_zero]
    intro c hc
    rw [hothers c hc]
    exact Bool.false_ne_true
  have hcount : (gs ++ others).countP (Element.hasTag tag) ≤ 1 := by
    rw [List.countP_append, hnone]
    exact Nat.le_trans List.countP_le_length h.length_le
  have hfound : others.find? (Element.hasTag tag) = none := by
    rw [List.find?_eq_none]
    intro c hc
    rw [hothers c hc]
    exact Bool.false_ne_true
  rw [Element.child?, Record.find?_perm hchildren hcount, List.find?_append, hfound,
    Option.or_none, ← List.head?_filter, List.filter_eq_self.2 h.hasTag]

theorem ShowsGroup.entries {codes : List String} {e : Element}
    (h : ShowsGroup tag entryTag gs rs) (hchild : e.child? tag = gs.head?)
    (hrs : ∀ r ∈ rs, Step.HasCodes codes r) :
    List.Forall₂ (Step.SameAt codes) ((entriesOf tag entryTag e).map texts) rs := by
  rw [entriesOf, hchild]
  rcases h with ⟨rfl, rfl⟩ | ⟨g, rfl, -, hentries⟩
  · exact .nil
  · change List.Forall₂ _ ((g.children.filter (Element.hasTag entryTag)).map texts) rs
    generalize g.children = cs at hentries
    induction hentries with
    | nil => exact .nil
    | @cons c r cs rs hc _ ih =>
        rw [List.forall_mem_cons] at hrs
        rw [List.filter_cons_of_pos hc.1, List.map_cons]
        exact .cons (hc.2.sameAt hrs.1) (ih hrs.2)

theorem ShowsTexts.hasTag (h : ShowsTexts es r) (htag : tag ∉ r.names) :
    ∀ e ∈ es, e.hasTag tag = false := by
  intro e he
  rw [Element.hasTag, decide_eq_false_iff_not]
  intro hname
  have hlabel := h.label_mem he
  rw [hname] at hlabel
  exact htag hlabel

theorem ShowsGroup.hasTag_ne {other : String} (h : ShowsGroup tag entryTag gs rs)
    (hne : tag ≠ other) : ∀ g ∈ gs, g.hasTag other = false := by
  intro g hg
  have hname : g.name = ⟨"", tag⟩ := of_decide_eq_true (h.hasTag g hg)
  rw [Element.hasTag, hname, decide_eq_false_iff_not]
  intro he
  exact hne (Xml.Name.mk.inj he).2

theorem ShowsGroup.names (h : ShowsGroup tag entryTag gs rs) : ∀ n ∈ (textsOf gs).names, n = tag := by
  intro n hn
  obtain ⟨p, hp, rfl⟩ := List.mem_map.1 hn
  obtain ⟨g, hg, rfl⟩ := List.mem_map.1 hp
  have hname : g.name = ⟨"", tag⟩ := of_decide_eq_true (h.hasTag g (List.mem_of_mem_filter hg))
  rw [hname]

theorem tags_not_codes : fieldsTag ∉ Step.optionCodes ∧ indexesTag ∉ Step.optionCodes := by
  decide +kernel

/-- An element that shows a content is read as one that agrees with it. -/
theorem agrees_of_shows {e : Element} {s : Step} (hs : s.Coded) (h : Shows e s) :
    (toStep e).Agrees s := by
  obtain ⟨options, fields, indexes, hchildren, hoptions, hfields, hindexes⟩ := h
  have hnotTag {tag : String} (htag : tag ∉ Step.optionCodes) : tag ∉ s.options.names :=
    fun hm => htag (hs.options.subset tag hm)
  refine ⟨?_, ?_, ?_⟩
  · intro code hcode
    have hperm : (texts e).Perm (textsOf options ++ textsOf fields ++ textsOf indexes) := by
      rw [← textsOf_append, ← textsOf_append]
      exact (hchildren.filter _).map _
    have hf : code ∉ (textsOf fields).names := by
      intro hm
      exact tags_not_codes.1 (hfields.names code hm ▸ hcode)
    have hi : code ∉ (textsOf indexes).names := by
      intro hm
      exact tags_not_codes.2 (hindexes.names code hm ▸ hcode)
    have hcount : (textsOf options ++ textsOf fields ++ textsOf indexes).names.count code ≤ 1 := by
      have hone := List.nodup_iff_count_le_one.1
        ((hoptions.perm.map Prod.fst).nodup_iff.2 hs.options.nodup) code
      rw [Record.names_append, Record.names_append, List.count_append, List.count_append,
        List.count_eq_zero_of_not_mem hf, List.count_eq_zero_of_not_mem hi]
      exact hone
    have hget : (texts e).get? code = (textsOf options).get? code := by
      rw [Record.get?_perm hperm hcount, Record.get?_append_of_not_mem hi,
        Record.get?_append_of_not_mem hf]
    exact hget.trans (hoptions.sameAt hs.options code hcode)
  · have hothers : ∀ c ∈ options ++ indexes, c.hasTag fieldsTag = false := by
      intro c hc
      rcases List.mem_append.1 hc with hc | hc
      · exact hoptions.hasTag (hnotTag tags_not_codes.1) c hc
      · exact hindexes.hasTag_ne (by decide) c hc
    have hperm : e.children.Perm (fields ++ (options ++ indexes)) := by
      refine hchildren.trans ?_
      rw [← List.append_assoc]
      exact List.perm_append_comm.append_right indexes
    exact hfields.entries (hfields.child? hperm hothers) fun r hr => (hs.fields r hr).1
  · have hothers : ∀ c ∈ options ++ fields, c.hasTag indexesTag = false := by
      intro c hc
      rcases List.mem_append.1 hc with hc | hc
      · exact hoptions.hasTag (hnotTag tags_not_codes.2) c hc
      · exact hfields.hasTag_ne (by decide) c hc
    have hperm : e.children.Perm (indexes ++ (options ++ fields)) :=
      hchildren.trans List.perm_append_comm
    exact hindexes.entries (hindexes.child? hperm hothers) fun r hr => (hs.indexes r hr).1

end Showing

section Tree

theorem laidOut_leaves (level : Nat) (r : Record String) :
    (leaves r).map (Xml.laidOut level) = leaves r := by
  rw [leaves, List.map_map]
  rfl

theorem showsTexts_leaves (r : Record String) : ShowsTexts (leaves r) r := by
  rw [ShowsTexts, leaves, List.map_map]
  exact .refl _

theorem showsGroup_groupOf (level : Nat) (tag entryTag : String) (rs : List (Record String)) :
    ShowsGroup tag entryTag ((groupOf tag entryTag rs).map (Xml.laidOut level)) rs := by
  rw [groupOf]
  split
  · next hrs => exact .inl ⟨rfl, List.isEmpty_iff.1 hrs⟩
  · refine .inr ⟨_, rfl, ?_, ?_⟩
    · rw [Xml.hasTag_laidOut]
      exact decide_eq_true rfl
    · rw [Xml.children_laidOut, Element.group, Element.children, List.map_map,
        List.forall₂_map_left_iff, List.forall₂_same]
      intro r _
      refine ⟨?_, ?_⟩
      · rw [Function.comp_apply, Xml.hasTag_laidOut]
        exact decide_eq_true rfl
      · rw [Function.comp_apply, Xml.children_laidOut, Element.group, Element.children,
          laidOut_leaves]
        exact showsTexts_leaves r

/-- The tree of a content, on its lines, shows it. -/
theorem shows_tree (s : Step) : Shows (Xml.laidOut 0 (tree s)) s := by
  refine ⟨_, _, _, ?_, showsTexts_leaves s.options, showsGroup_groupOf 1 _ _ s.fields,
    showsGroup_groupOf 1 _ _ s.indexes⟩
  rw [Xml.children_laidOut, tree, Element.group, Element.children, List.map_append,
    List.map_append, laidOut_leaves]

/-- The tree on its lines has the content it was made of. -/
theorem agrees_tree {s : Step} (hs : s.Coded) :
    (toStep (Xml.laidOut 0 (tree s))).Agrees s := agrees_of_shows hs (shows_tree s)

end Tree

theorem write_eq_ok {d : Definition} {text : String} : write d = .ok text ↔
    StepCarried (.ofDefinition d) ∧ text = .ofList (Xml.write 0 (tree (.ofDefinition d))) := by
  rw [write]
  cases he : ofContent leaf (Step.ofDefinition d) with
  | error fault =>
      constructor
      · intro h
        cases h
      · rintro ⟨hcarried, -⟩
        rw [ofContent_eq_ok.2 ⟨hcarried, rfl⟩] at he
        cases he
  | ok e =>
      obtain ⟨hcarried, rfl⟩ := ofContent_eq_ok.1 he
      rw [map_ok, Except.ok.injEq, eq_comm]
      exact ⟨fun h => ⟨hcarried, h⟩, fun h => h.2⟩

/-- What is written is read as the definition, settled. -/
theorem read_written {d : Definition} {text : String}
    (hp : Password.isMistakable d.write.password = false) (h : write d = .ok text) :
    read text = .ok (Step.settled d) := by
  obtain ⟨hcarried, rfl⟩ := write_eq_ok.1 h
  have hcoded := Step.coded_ofDefinition d
  have hread := Xml.read_write (writable_tree hcoded hcarried)
  have hroot := Xml.find?_root (Xml.name_laidOut 0 (tree (.ofDefinition d)))
  have hdefinition := (agrees_tree hcoded).definition.trans (Step.definition_ofDefinition hp)
  rw [read_of_root (by rw [String.toList_ofList, hread]), outcome_of_find hroot, hdefinition,
    mapError_ok]

/-- A definition is written as markup exactly when markup can carry its texts, and what is written
is read as that definition, settled. -/
theorem read_of_write {d : Definition} (hp : Password.isMistakable d.write.password = false) :
    ((∃ text, write d = .ok text) ↔ StepCarried (.ofDefinition d)) ∧
      ∀ text, write d = .ok text → read text = .ok (Step.settled d) := by
  constructor
  · constructor
    · rintro ⟨text, h⟩
      exact (write_eq_ok.1 h).1
    · intro hcarried
      exact ⟨_, write_eq_ok.2 ⟨hcarried, rfl⟩⟩
  · intro text h
    exact read_written hp h

/-- Blank and empty values, line ends, marks of markup, and leading NULs. -/
def awkward : Definition where
  write := {
    hostnames := " \t", dbName := "]]>", collection := "a\r\nb\r", username := "<&>",
    password := "\x00\x00key", writeRetries := "", writeRetryDelay := "" }
  mappings := [
    { incomingName := "", documentPath := "\n", operator := .push },
    { incomingName := "\n", documentPath := "", isFragment := true }]
  indexes := [{ fieldSpec := "  ", unique := true }]

theorem read_of_write_awkward :
    Password.isMistakable awkward.write.password = false ∧
      ∃ text, write awkward = .ok text ∧
        read text = .ok { awkward with write := { awkward.write with
          password := "key", writeRetries := "5", writeRetryDelay := "10" } } := by
  have hp : Password.isMistakable awkward.write.password = false := by decide
  have hcarried : StepCarried (.ofDefinition awkward) := by
    refine ⟨carried_of_all (by decide +kernel), ?_, ?_⟩
    · have hall : (Step.ofDefinition awkward).fields.all fun r =>
          r.all fun p => p.2.toList.all Xml.isChar := by decide +kernel
      intro r hr
      exact carried_of_all (List.all_eq_true.1 hall r hr)
    · have hall : (Step.ofDefinition awkward).indexes.all fun r =>
          r.all fun p => p.2.toList.all Xml.isChar := by decide +kernel
      intro r hr
      exact carried_of_all (List.all_eq_true.1 hall r hr)
  have hsettled : Step.settled awkward = { awkward with write := { awkward.write with
      password := "key", writeRetries := "5", writeRetryDelay := "10" } } := by
    decide +kernel
  obtain ⟨hwrite, hread⟩ := read_of_write hp
  obtain ⟨text, htext⟩ := hwrite.2 hcarried
  exact ⟨hp, text, htext, hsettled ▸ hread text htext⟩

end DocumentSink.Markup
