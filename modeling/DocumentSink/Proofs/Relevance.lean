import DocumentSink.Proofs.Markup
import Mathlib.Data.Quot

/-!
What a load of markup looks at: of the step, the first child with each code and the entries of the
first groups; of an entry, the first child with each code; and of those children the texts. All else
may change.
-/

namespace DocumentSink.Markup

open Xml (Element)

/-- The first children with some tags are there in both elements or in neither, with the same
texts. -/
def SameTexts (tags : List String) (e e' : Element) : Prop :=
  ∀ tag ∈ tags, e.childText? tag = e'.childText? tag

/-- Two steps agree in all that a load looks at. -/
structure SameStep (e e' : Element) : Prop where
  options : SameTexts Step.optionCodes e e'
  fields : List.Forall₂ (SameTexts Step.fieldCodes) (entriesOf fieldsTag fieldTag e)
    (entriesOf fieldsTag fieldTag e')
  indexes : List.Forall₂ (SameTexts Step.indexCodes) (entriesOf indexesTag indexTag e)
    (entriesOf indexesTag indexTag e')

instance (tags : List String) (e e' : Element) : Decidable (SameTexts tags e e') :=
  inferInstanceAs (Decidable (∀ tag ∈ tags, e.childText? tag = e'.childText? tag))

instance (e e' : Element) : Decidable (SameStep e e') :=
  decidable_of_iff (SameTexts Step.optionCodes e e' ∧
      List.Forall₂ (SameTexts Step.fieldCodes) (entriesOf fieldsTag fieldTag e)
        (entriesOf fieldsTag fieldTag e') ∧
      List.Forall₂ (SameTexts Step.indexCodes) (entriesOf indexesTag indexTag e)
        (entriesOf indexesTag indexTag e'))
    ⟨fun h => ⟨h.1, h.2.1, h.2.2⟩, fun h => ⟨h.options, h.fields, h.indexes⟩⟩

section Reading

variable {e e' root root' : Element} {codes : List String}

theorem SameTexts.sameAt (h : SameTexts codes e e') : Step.SameAt codes (texts e) (texts e') := by
  intro code hcode
  rw [get?_texts, get?_texts, h code hcode]

theorem sameAt_entries {es es' : List Element} (h : List.Forall₂ (SameTexts codes) es es') :
    List.Forall₂ (Step.SameAt codes) (es.map texts) (es'.map texts) := by
  rw [List.forall₂_map_left_iff, List.forall₂_map_right_iff]
  exact h.imp fun _ _ => SameTexts.sameAt

theorem SameStep.agrees (h : SameStep e e') : (toStep e).Agrees (toStep e') :=
  ⟨h.options.sameAt, sameAt_entries h.fields, sameAt_entries h.indexes⟩

theorem SameStep.outcome_eq (h : SameStep e e') (he : root.find? stepTag = some e)
    (he' : root'.find? stepTag = some e') : outcome root = outcome root' := by
  rw [outcome, outcome, he, he']
  dsimp only
  rw [h.agrees.definition]

end Reading

/-- A change among the children of an element, of which some tags are looked up once and others all
through: a child more that no look-up finds, two children of different names in the other order, or
for a child another of its name that is as good under each tag that finds it. -/
inductive Change (once all : List String) (AsGood : String → Element → Element → Prop) :
    List Element → List Element → Prop
  | insert (before : List Element) (c : Element) (after : List Element)
      (honce : ∀ tag ∈ once, c.hasTag tag = true → ∃ b ∈ before, b.hasTag tag = true)
      (hall : ∀ tag ∈ all, c.hasTag tag = false) :
      Change once all AsGood (before ++ after) (before ++ c :: after)
  | swap (before : List Element) (b c : Element) (after : List Element) (hne : b.name ≠ c.name) :
      Change once all AsGood (before ++ b :: c :: after) (before ++ c :: b :: after)
  | replace (before : List Element) (c c' : Element) (after : List Element)
      (hname : c.name = c'.name)
      (hgood : ∀ tag ∈ once ++ all, c.hasTag tag = true → AsGood tag c c') :
      Change once all AsGood (before ++ c :: after) (before ++ c' :: after)

/-- Two elements differ by changes of their children. Their own texts are not looked at. -/
def Revised (once all : List String) (AsGood : String → Element → Element → Prop)
    (e e' : Element) : Prop :=
  Relation.EqvGen (Change once all AsGood) e.children e'.children

def EntryRevised (codes : List String) : Element → Element → Prop :=
  Revised codes [] fun _ c c' => c.text = c'.text

def GroupRevised (entryTag : String) (codes : List String) : Element → Element → Prop :=
  Revised [] [entryTag] fun _ => EntryRevised codes

def StepRevised : Element → Element → Prop :=
  Revised (Step.optionCodes ++ [fieldsTag, indexesTag]) [] fun tag c c' =>
    if tag = fieldsTag then GroupRevised fieldTag Step.fieldCodes c c'
    else if tag = indexesTag then GroupRevised indexTag Step.indexCodes c c'
    else c.text = c'.text

/-- A change of a document: its root gets an element around it, with no step before it, or its root
is the step and is revised. -/
inductive Edit : Element → Element → Prop
  | wrap (name : Xml.Name) (text : String) (before : List Element) (e : Element)
      (after : List Element) (hname : name ≠ ⟨"", stepTag⟩)
      (hbefore : Element.findIn? stepTag before = none) (he : (e.find? stepTag).isSome = true) :
      Edit e (.mk name text (before ++ e :: after))
  | revise (e e' : Element) (he : e.hasTag stepTag = true) (he' : e'.hasTag stepTag = true)
      (h : StepRevised e e') : Edit e e'

section Editing

variable {e e' root root' : Element} {codes once all : List String} {tag entryTag : String}
  {AsGood : String → Element → Element → Prop} {cs cs' : List Element} {β : Type}
  {view : Element → β}

theorem eq_of_eqvGen {α : Type} {r : α → α → Prop} {f : α → β} (hf : ∀ a b, r a b → f a = f b)
    {a b : α} (h : Relation.EqvGen r a b) : f a = f b :=
  congrArg (Quot.lift f hf) (Quot.eq.2 h)

theorem hasTag_eq_of_name (h : e.name = e'.name) (tag : String) : e.hasTag tag = e'.hasTag tag := by
  rw [Element.hasTag, Element.hasTag, h]

theorem hasTag_of_ne (hne : e.name ≠ e'.name) (h : e.hasTag tag = true) : e'.hasTag tag = false := by
  rw [Element.hasTag, decide_eq_true_iff] at h
  rw [Element.hasTag, decide_eq_false_iff_not, ← h]
  exact Ne.symm hne

/-- What is seen of the first child with a tag stays. -/
theorem Change.find? (hview : ∀ c c', AsGood tag c c' → view c = view c') (htag : tag ∈ once)
    (h : Change once all AsGood cs cs') :
    (cs.find? (Element.hasTag tag)).map view = (cs'.find? (Element.hasTag tag)).map view := by
  cases h with
  | insert before c after honce hall =>
      rw [List.find?_append, List.find?_append, List.find?_cons]
      cases hc : c.hasTag tag with
      | false => rfl
      | true =>
          obtain ⟨b, hb, hbtag⟩ := honce tag htag hc
          obtain ⟨d, hd⟩ := Option.isSome_iff_exists.1 (List.find?_isSome.2 ⟨b, hb, hbtag⟩)
          rw [hd, Option.some_or, Option.some_or]
  | swap before b c after hne =>
      simp only [List.find?_append, List.find?_cons]
      cases hb : b.hasTag tag with
      | false => rfl
      | true => rw [hasTag_of_ne hne hb]
  | replace before c c' after hname hgood =>
      simp only [List.find?_append, List.find?_cons, ← hasTag_eq_of_name hname]
      cases hc : c.hasTag tag with
      | false => rfl
      | true =>
          have hsame := hview c c' (hgood tag (List.mem_append_left all htag) hc)
          cases before.find? (Element.hasTag tag) with
          | some d => rfl
          | none => exact congrArg some hsame

/-- What is seen of the children with a tag stays. -/
theorem Change.filter (hview : ∀ c c', AsGood tag c c' → view c = view c') (htag : tag ∈ all)
    (h : Change once all AsGood cs cs') :
    (cs.filter (Element.hasTag tag)).map view = (cs'.filter (Element.hasTag tag)).map view := by
  cases h with
  | insert before c after honce hall =>
      simp only [List.filter_append, List.filter_cons, hall tag htag]
      rfl
  | swap before b c after hne =>
      simp only [List.filter_append, List.filter_cons]
      cases hb : b.hasTag tag with
      | false => rfl
      | true => rw [hasTag_of_ne hne hb]; rfl
  | replace before c c' after hname hgood =>
      simp only [List.filter_append, List.filter_cons, ← hasTag_eq_of_name hname]
      cases hc : c.hasTag tag with
      | false => rfl
      | true =>
          have hsame := hview c c' (hgood tag (List.mem_append_right once htag) hc)
          simp only [if_true, List.map_append, List.map_cons, hsame]

theorem Revised.child? (hview : ∀ c c', AsGood tag c c' → view c = view c') (htag : tag ∈ once)
    (h : Revised once all AsGood e e') : (e.child? tag).map view = (e'.child? tag).map view :=
  eq_of_eqvGen (f := fun cs => (cs.find? (Element.hasTag tag)).map view)
    (fun _ _ => Change.find? hview htag) h

theorem Revised.childrenWith (hview : ∀ c c', AsGood tag c c' → view c = view c')
    (htag : tag ∈ all) (h : Revised once all AsGood e e') :
    (e.childrenWith tag).map view = (e'.childrenWith tag).map view :=
  eq_of_eqvGen (f := fun cs => (cs.filter (Element.hasTag tag)).map view)
    (fun _ _ => Change.filter hview htag) h

/-- Presence and text of the first child with each of some tags. -/
def textsAt (codes : List String) (e : Element) : List (Option String) := codes.map e.childText?

theorem sameTexts_iff : SameTexts codes e e' ↔ textsAt codes e = textsAt codes e' :=
  List.map_inj_left.symm

theorem forall₂_sameTexts_iff {es es' : List Element} :
    List.Forall₂ (SameTexts codes) es es' ↔ es.map (textsAt codes) = es'.map (textsAt codes) := by
  have hkernel : SameTexts codes = fun e e' => textsAt codes e = textsAt codes e' := by
    funext e e'
    exact propext sameTexts_iff
  rw [← List.forall₂_eq_eq_eq, List.forall₂_map_left_iff, List.forall₂_map_right_iff, hkernel]

theorem EntryRevised.textsAt_eq (h : EntryRevised codes e e') :
    textsAt codes e = textsAt codes e' := by
  apply List.map_congr_left
  intro code hcode
  exact h.child? (fun _ _ => id) hcode

/-- The entries of a group, each as its texts. -/
def entriesAt (entryTag : String) (codes : List String) (g : Element) :
    List (List (Option String)) :=
  (g.childrenWith entryTag).map (textsAt codes)

theorem GroupRevised.entriesAt_eq (h : GroupRevised entryTag codes e e') :
    entriesAt entryTag codes e = entriesAt entryTag codes e' :=
  h.childrenWith (fun _ _ => EntryRevised.textsAt_eq) List.mem_cons_self

theorem map_entriesOf (tag entryTag : String) (codes : List String) (e : Element) :
    (entriesOf tag entryTag e).map (textsAt codes) =
      ((e.child? tag).map (entriesAt entryTag codes)).getD [] := by
  rw [entriesOf]
  cases e.child? tag <;> rfl

/-- A step that is revised agrees in all that a load looks at. -/
theorem StepRevised.sameStep (h : StepRevised e e') : SameStep e e' := by
  refine ⟨?_, ?_, ?_⟩
  · intro code hcode
    have hfields : code ≠ fieldsTag := fun he => tags_not_codes.1 (he ▸ hcode)
    have hindexes : code ≠ indexesTag := fun he => tags_not_codes.2 (he ▸ hcode)
    refine Revised.child? ?_ (List.mem_append_left _ hcode) h
    intro c c' hgood
    rw [if_neg hfields, if_neg hindexes] at hgood
    exact hgood
  · have hgroup : (e.child? fieldsTag).map (entriesAt fieldTag Step.fieldCodes) =
        (e'.child? fieldsTag).map (entriesAt fieldTag Step.fieldCodes) := by
      refine Revised.child? ?_ (List.mem_append_right _ List.mem_cons_self) h
      intro c c' hgood
      rw [if_pos rfl] at hgood
      exact hgood.entriesAt_eq
    rw [forall₂_sameTexts_iff, map_entriesOf, map_entriesOf, hgroup]
  · have hgroup : (e.child? indexesTag).map (entriesAt indexTag Step.indexCodes) =
        (e'.child? indexesTag).map (entriesAt indexTag Step.indexCodes) := by
      refine Revised.child? ?_
        (List.mem_append_right _ (List.mem_cons_of_mem _ List.mem_cons_self)) h
      intro c c' hgood
      have hother : indexesTag ≠ fieldsTag := by decide
      rw [if_neg hother, if_pos rfl] at hgood
      exact hgood.entriesAt_eq
    rw [forall₂_sameTexts_iff, map_entriesOf, map_entriesOf, hgroup]

theorem find?_of_hasTag (h : e.hasTag tag = true) : e.find? tag = some e := by
  obtain ⟨name, text, children⟩ := e
  have hname : name = ⟨"", tag⟩ := of_decide_eq_true h
  rw [Element.find?, if_pos hname]

theorem findIn?_append (tag : String) (before es : List Element) :
    Element.findIn? tag (before ++ es) =
      (Element.findIn? tag before).orElse fun _ => Element.findIn? tag es := by
  induction before with
  | nil => rfl
  | cons b before ih =>
      rw [List.cons_append, Element.findIn?, Element.findIn?, ih]
      cases Element.find? tag b <;> rfl

/-- An element around a document is passed by. -/
theorem find?_wrap {name : Xml.Name} {text : String} {before after : List Element}
    (hname : name ≠ ⟨"", tag⟩) (hbefore : Element.findIn? tag before = none)
    (he : (e.find? tag).isSome = true) :
    (Element.mk name text (before ++ e :: after)).find? tag = e.find? tag := by
  obtain ⟨step, hstep⟩ := Option.isSome_iff_exists.1 he
  rw [Element.find?, if_neg hname, findIn?_append, hbefore, Element.findIn?, hstep]
  rfl

/-- No change of a document changes what is made of it. -/
theorem Edit.outcome_eq (h : Edit root root') : outcome root = outcome root' := by
  cases h with
  | wrap name text before e after hname hbefore he =>
      rw [outcome, outcome, find?_wrap hname hbefore he]
  | revise e e' he he' h =>
      exact h.sameStep.outcome_eq (find?_of_hasTag he) (find?_of_hasTag he')

end Editing

end DocumentSink.Markup
