import DocumentSink.Builder.Call
import DocumentSink.Proofs.Shape
import DocumentSink.Proofs.Terms

/-!
Runs of calls on a builder, whatever validates what they are given. Each call that goes well assigns
its options and adds its mapping or its index. Of the calls that fail only one leaves a trace, which
has host names and a port without a text: it is like one without a port. Main statement: what a
definition is that is built behind any run, when none is built, and that what comes later leaves it
as it is.
-/

namespace DocumentSink

namespace BuilderCall

/-- The options that a call assigns, in order. A port without a text is not assigned. -/
def assignments : BuilderCall → Record Value
  | hosts hostnames port =>
    let text := if port.isNull then none else port.display?
    ("hostnames", hostnames) :: (text.map fun s => ("port", Value.text s)).toList
  | credentials username password => [("username", username), ("password", password)]
  | option name v => [(name, v)]
  | truncate enabled => [("truncate", enabled)]
  | upsert enabled multi => [("upsert", enabled), ("multi", multi)]
  | modifierUpdate enabled =>
    ("modifier_update", enabled) :: if enabled.truthy then [("upsert", .bool true)] else []
  | _ => []

def isMapping : BuilderCall → Bool
  | field .. | matchKey .. | modifier .. => true
  | _ => false

def isIndex : BuilderCall → Bool
  | index .. => true
  | _ => false

/-- The one call that fails and leaves a trace. -/
def hasLongPort : BuilderCall → Bool
  | hosts _ port => port.hasLong
  | _ => false

/-- The mapping that a call describes. -/
inductive Maps (rules : Validation) : BuilderCall → FieldMapping → Prop
  | field {name path key fragment n p k f} : rules.text name = some n → rules.text path = some p →
      rules.flag (Builder.keyChoice path key) = some k → rules.flag fragment = some f →
      Maps rules (.field name path key fragment)
        { incomingName := n, documentPath := p, useIncomingName := k, isFragment := f }
  | matchKey {name path key n p k} : rules.text name = some n → rules.text path = some p →
      rules.flag (Builder.keyChoice path key) = some k →
      Maps rules (.matchKey name path key)
        { incomingName := n, documentPath := p, useIncomingName := k, isMatchKey := true }
  | modifier {name path operator policy key n p o q k} : rules.text name = some n →
      rules.text path = some p → rules.operator operator = some o → rules.policy policy = some q →
      rules.flag key = some k →
      Maps rules (.modifier name path operator policy key)
        { incomingName := n, documentPath := p, useIncomingName := k, operator := o, policy := q }

/-- The index that a call describes. -/
inductive Indexes (rules : Validation) : BuilderCall → IndexSpec → Prop
  | index {spec unique sparse drop s u p d} : rules.text spec = some s →
      rules.flag unique = some u → rules.flag sparse = some p → rules.flag drop = some d →
      Indexes rules (.index spec unique sparse drop)
        { fieldSpec := s, drop := d, unique := u, sparse := p }

end BuilderCall

open BuilderCall
open Validation (takes_putAll TakesLast)

namespace Builder

variable {rules : Validation} {b b' b'' : Builder} {c : BuilderCall}
  {made made' : List BuilderCall} {members : Record Value}

/-- A builder has got what some calls assign and describe. -/
structure Grown (rules : Validation) (b b' : Builder) (made : List BuilderCall) : Prop where
  options : b'.options = b.options.putAll (made.flatMap (·.assignments))
  mappings : ∃ ms, b'.mappings = b.mappings ++ ms ∧
    List.Forall₂ (Maps rules) (made.filter (·.isMapping)) ms
  indexes : ∃ is, b'.indexes = b.indexes ++ is ∧
    List.Forall₂ (Indexes rules) (made.filter (·.isIndex)) is

theorem Grown.refl (b : Builder) : Grown rules b b [] :=
  ⟨rfl, ⟨[], (List.append_nil _).symm, .nil⟩, ⟨[], (List.append_nil _).symm, .nil⟩⟩

theorem Grown.trans (h : Grown rules b b' made) (h' : Grown rules b' b'' made') :
    Grown rules b b'' (made ++ made') := by
  obtain ⟨ms, hms, hmaps⟩ := h.mappings
  obtain ⟨ms', hms', hmaps'⟩ := h'.mappings
  obtain ⟨is, his, hindexes⟩ := h.indexes
  obtain ⟨is', his', hindexes'⟩ := h'.indexes
  refine ⟨?_, ⟨ms ++ ms', ?_, ?_⟩, ⟨is ++ is', ?_, ?_⟩⟩
  · rw [h'.options, h.options, List.flatMap_append, Record.putAll_append]
  · rw [hms', hms, List.append_assoc]
  · rw [List.filter_append]
    exact List.rel_append hmaps hmaps'
  · rw [his', his, List.append_assoc]
  · rw [List.filter_append]
    exact List.rel_append hindexes hindexes'

theorem grown_of_options (hoptions : b' = { b with options := b.options.putAll c.assignments })
    (hmapping : c.isMapping = false) (hindex : c.isIndex = false) : Grown rules b b' [c] := by
  subst hoptions
  refine ⟨?_, ⟨[], (List.append_nil _).symm, ?_⟩, ⟨[], (List.append_nil _).symm, ?_⟩⟩
  · rw [List.flatMap_singleton]
  · rw [List.filter_cons_of_neg (by rw [hmapping]; exact Bool.false_ne_true)]
    exact .nil
  · rw [List.filter_cons_of_neg (by rw [hindex]; exact Bool.false_ne_true)]
    exact .nil

theorem grown_of_mapping {m : FieldMapping} (hassigned : c.assignments = [])
    (hmapping : c.isMapping = true) (hindex : c.isIndex = false) (hmaps : Maps rules c m) :
    Grown rules b { b with mappings := b.mappings ++ [m] } [c] := by
  refine ⟨?_, ⟨[m], rfl, ?_⟩, ⟨[], (List.append_nil _).symm, ?_⟩⟩
  · rw [List.flatMap_singleton, hassigned]
    rfl
  · rw [List.filter_cons_of_pos hmapping]
    exact .cons hmaps .nil
  · rw [List.filter_cons_of_neg (by rw [hindex]; exact Bool.false_ne_true)]
    exact .nil

theorem grown_of_index {i : IndexSpec} (hassigned : c.assignments = [])
    (hmapping : c.isMapping = false) (hindex : c.isIndex = true) (hindexes : Indexes rules c i) :
    Grown rules b { b with indexes := b.indexes ++ [i] } [c] := by
  refine ⟨?_, ⟨[], (List.append_nil _).symm, ?_⟩, ⟨[i], rfl, ?_⟩⟩
  · rw [List.flatMap_singleton, hassigned]
    rfl
  · rw [List.filter_cons_of_neg (by rw [hmapping]; exact Bool.false_ne_true)]
    exact .nil
  · rw [List.filter_cons_of_pos hindex]
    exact .cons hindexes .nil

/-- What a call does: it adds all that it assigns and describes, or it fails and does nothing. -/
inductive Effect (rules : Validation) (b : Builder) (c : BuilderCall) :
    Builder → Except (BuilderFault rules.Refusal) Unit → Prop
  | made {b' done} : done = .ok () ∨ c.hasLongPort = true → Grown rules b b' [c] →
      Effect rules b c b' done
  | refused {fault} : c.hasLongPort = false → Effect rules b c b (.error fault)

theorem Effect.mappings {done : Except (BuilderFault rules.Refusal) Unit}
    (h : Effect rules b c b' done) : ∃ ms, b'.mappings = b.mappings ++ ms := by
  cases h with
  | made _ hgrown =>
      obtain ⟨ms, hms, -⟩ := hgrown.mappings
      exact ⟨ms, hms⟩
  | refused => exact ⟨[], (List.append_nil _).symm⟩

theorem effect_addMapping (hassigned : c.assignments = []) (hmapping : c.isMapping = true)
    (hindex : c.isIndex = false) (hport : c.hasLongPort = false)
    (hmaps : ∀ m, rules.mapping members = .ok m → Maps rules c m) :
    Effect rules b c (b.addMapping rules members).1 (b.addMapping rules members).2 := by
  rw [addMapping]
  cases hm : rules.mapping members with
  | ok m => exact .made (.inl rfl) (grown_of_mapping hassigned hmapping hindex (hmaps m hm))
  | error refusal => exact .refused hport

theorem effect_addIndex (hassigned : c.assignments = []) (hmapping : c.isMapping = false)
    (hindex : c.isIndex = true) (hport : c.hasLongPort = false)
    (hindexes : ∀ i, rules.index members = .ok i → Indexes rules c i) :
    Effect rules b c (b.addIndex rules members).1 (b.addIndex rules members).2 := by
  rw [addIndex]
  cases hi : rules.index members with
  | ok i => exact .made (.inl rfl) (grown_of_index hassigned hmapping hindex (hindexes i hi))
  | error refusal => exact .refused hport

theorem effect_hosts (b : Builder) (hostnames port : Value) :
    Effect rules b (.hosts hostnames port) (b.call rules (.hosts hostnames port)).1
      (b.call rules (.hosts hostnames port)).2 := by
  rw [call]
  cases hnull : port.isNull with
  | true =>
      refine .made (.inl rfl) (grown_of_options ?_ rfl rfl)
      rw [assignments, hnull]
      rfl
  | false =>
      rw [if_neg Bool.false_ne_true]
      cases htext : port.display? with
      | some text =>
          refine .made (.inl rfl) (grown_of_options ?_ rfl rfl)
          rw [assignments, hnull, if_neg Bool.false_ne_true, htext]
          rfl
      | none =>
          refine .made (.inr ?_) (grown_of_options ?_ rfl rfl)
          · rw [Value.display?] at htext
            split at htext
            · assumption
            · cases htext
          · rw [assignments, hnull, if_neg Bool.false_ne_true, htext]
            rfl

open Validation (takes_of_get? takes_of_no_member)

theorem effect_call (hrules : rules.Lawful) (b : Builder) (c : BuilderCall) :
    Effect rules b c (b.call rules c).1 (b.call rules c).2 := by
  cases c with
  | hosts hostnames port => exact effect_hosts b hostnames port
  | credentials username password => exact .made (.inl rfl) (grown_of_options rfl rfl rfl)
  | option name v =>
      rw [call]
      split
      · exact .made (.inl rfl) (grown_of_options rfl rfl rfl)
      · exact .refused rfl
  | truncate enabled => exact .made (.inl rfl) (grown_of_options rfl rfl rfl)
  | upsert enabled multi => exact .made (.inl rfl) (grown_of_options rfl rfl rfl)
  | modifierUpdate enabled =>
      refine .made (.inl rfl) (grown_of_options ?_ rfl rfl)
      rw [call, assignments]
      cases enabled.truthy with
      | true => rfl
      | false => rfl
  | field name path key fragment =>
      refine effect_addMapping rfl rfl rfl rfl ?_
      rintro ⟨n, p, k, q, o, a, f⟩ hm
      obtain ⟨hname, hpath, hkey, hmatch, hoperator, hpolicy, hfragment⟩ :=
        hrules.mapping_eq_ok.1 hm
      rw [takes_of_get? rfl] at hname hpath hkey hfragment
      obtain rfl : q = false := (takes_of_no_member rfl).1 hmatch
      obtain rfl : o = .none := (takes_of_no_member rfl).1 hoperator
      obtain rfl : a = .insertAndUpdate := (takes_of_no_member rfl).1 hpolicy
      exact .field hname hpath hkey hfragment
  | matchKey name path key =>
      refine effect_addMapping rfl rfl rfl rfl ?_
      rintro ⟨n, p, k, q, o, a, f⟩ hm
      obtain ⟨hname, hpath, hkey, hmatch, hoperator, hpolicy, hfragment⟩ :=
        hrules.mapping_eq_ok.1 hm
      rw [takes_of_get? rfl] at hname hpath hkey hmatch
      obtain rfl : true = q := Option.some.inj ((hrules.flag_bool true).symm.trans hmatch)
      obtain rfl : o = .none := (takes_of_no_member rfl).1 hoperator
      obtain rfl : a = .insertAndUpdate := (takes_of_no_member rfl).1 hpolicy
      obtain rfl : f = false := (takes_of_no_member rfl).1 hfragment
      exact .matchKey hname hpath hkey
  | modifier name path operator policy key =>
      refine effect_addMapping rfl rfl rfl rfl ?_
      rintro ⟨n, p, k, q, o, a, f⟩ hm
      obtain ⟨hname, hpath, hkey, hmatch, hoperator, hpolicy, hfragment⟩ :=
        hrules.mapping_eq_ok.1 hm
      rw [takes_of_get? rfl] at hname hpath hkey hoperator hpolicy
      obtain rfl : q = false := (takes_of_no_member rfl).1 hmatch
      obtain rfl : f = false := (takes_of_no_member rfl).1 hfragment
      exact .modifier hname hpath hoperator hpolicy hkey
  | index spec unique sparse drop =>
      refine effect_addIndex rfl rfl rfl rfl ?_
      rintro ⟨s, d, u, p⟩ hi
      obtain ⟨hspec, hdrop, hunique, hsparse⟩ := hrules.index_eq_ok.1 hi
      rw [takes_of_get? rfl] at hspec hdrop hunique hsparse
      exact .index hspec hunique hsparse hdrop

end Builder

namespace IndexSpec

/-- Why an index is refused: it refers to no variables, and cannot be read or has no terms. -/
inductive Refused (i : IndexSpec) : IndexFault → Prop
  | unreadable {fault} : Variables.hasReferences i.fieldSpec = false →
      RefusedFor i.fieldSpec i.fieldSpec.toList fault → Refused i fault
  | noTerms : Variables.hasReferences i.fieldSpec = false →
      WritesTerms Direction.Numeral i.fieldSpec.toList [] → Refused i (.noTerms i.fieldSpec)

/-- The fault of the first index that is refused. -/
def FirstRefused (indexes : List IndexSpec) (fault : IndexFault) : Prop :=
  ∃ before i after, indexes = before ++ i :: after ∧ (∀ j ∈ before, ∀ f, ¬ j.Refused f) ∧
    i.Refused fault ∧ fault.spec = i.fieldSpec

theorem Refused.spec_eq {i : IndexSpec} {fault : IndexFault} (h : i.Refused fault) :
    fault.spec = i.fieldSpec := by
  cases h with
  | unreadable _ hspec => exact hspec.spec_eq
  | noTerms => rfl

end IndexSpec

namespace Builder

variable {rules : Validation} {b : Builder} {d : Built} {i : IndexSpec} {fault : IndexFault}

theorem checkIndex_eq_error : checkIndex i = .error fault ↔ i.Refused fault := by
  rw [checkIndex]
  cases href : Variables.hasReferences i.fieldSpec with
  | true =>
      rw [if_pos rfl]
      refine ⟨nofun, ?_⟩
      intro h
      cases h with
      | unreadable hnot => exact absurd (href.symm.trans hnot) nofun
      | noTerms hnot => exact absurd (href.symm.trans hnot) nofun
  | false =>
      have hterms (terms : List IndexTerm) : indexTerms [] i.fieldSpec = .ok terms ↔
          WritesTerms Direction.Numeral i.fieldSpec.toList terms := by
        rw [indexTerms_eq_ok_iff, Variables.substitute_nil]
      have hfault (f : IndexFault) : indexTerms [] i.fieldSpec = .error f ↔
          RefusedFor i.fieldSpec i.fieldSpec.toList f := by
        rw [indexTerms_eq_error_iff, Variables.substitute_nil]
      rw [if_neg Bool.false_ne_true]
      constructor
      · intro h
        split at h
        · next f hf =>
            cases h
            exact .unreadable href ((hfault _).1 hf)
        · next hnil =>
            cases h
            exact .noTerms href ((hterms []).1 hnil)
        · cases h
      · intro h
        cases h with
        | unreadable _ hf => rw [(hfault _).2 hf]
        | noTerms _ hnil => rw [(hterms []).2 hnil]

theorem checkIndex_eq_ok : checkIndex i = .ok () ↔ ∀ f, ¬ i.Refused f := by
  simp only [← checkIndex_eq_error]
  cases checkIndex i with
  | ok u => exact ⟨fun _ => nofun, fun _ => rfl⟩
  | error f => exact ⟨nofun, fun h => absurd rfl (h f)⟩

theorem checks_eq_ok :
    b.indexes.forM checkIndex = .ok () ↔ ∀ i ∈ b.indexes, ∀ f, ¬ i.Refused f := by
  simp only [forM_eq_ok, checkIndex_eq_ok]

theorem checks_eq_error :
    b.indexes.forM checkIndex = .error fault ↔ IndexSpec.FirstRefused b.indexes fault := by
  rw [forM_eq_error_iff]
  constructor
  · rintro ⟨before, i, after, hsplit, hbefore, hi⟩
    have hi := checkIndex_eq_error.1 hi
    exact ⟨before, i, after, hsplit, fun j hj => checkIndex_eq_ok.1 (hbefore j hj), hi, hi.spec_eq⟩
  · rintro ⟨before, i, after, hsplit, hbefore, hi, -⟩
    exact ⟨before, i, after, hsplit, fun j hj => checkIndex_eq_ok.2 (hbefore j hj),
      checkIndex_eq_error.2 hi⟩

theorem build_of_checks (h : b.indexes.forM checkIndex = .ok ()) : b.build rules =
    (fun w => ⟨w, List.range b.mappings.length, b.indexes⟩) <$>
      (rules.options b.options).mapError .invalid := by
  rw [build, h, mapError_ok, ok_bind]
  cases rules.options b.options with
  | ok w => rfl
  | error refusal => rfl

theorem build_of_refused (h : b.indexes.forM checkIndex = .error fault) :
    b.build rules = .error (.index fault) := by
  rw [build, h, mapError_error, error_bind]

theorem build_eq_ok : b.build rules = .ok d ↔ (∀ i ∈ b.indexes, ∀ f, ¬ i.Refused f) ∧
    ∃ w, rules.options b.options = .ok w ∧ ⟨w, List.range b.mappings.length, b.indexes⟩ = d := by
  rw [← checks_eq_ok]
  cases h : b.indexes.forM checkIndex with
  | error fault =>
      rw [build_of_refused h]
      simp
  | ok u =>
      rw [build_of_checks h, map_eq_ok, and_iff_right rfl]
      simp only [mapError_eq_ok]

theorem build_eq_index :
    b.build rules = .error (.index fault) ↔ IndexSpec.FirstRefused b.indexes fault := by
  rw [← checks_eq_error]
  cases h : b.indexes.forM checkIndex with
  | error f =>
      rw [build_of_refused h]
      simp
  | ok u =>
      rw [build_of_checks h, map_eq_error, mapError_eq_error]
      simp

theorem build_eq_invalid {refusal : rules.Refusal} :
    b.build rules = .error (.invalid refusal) ↔
      (∀ i ∈ b.indexes, ∀ f, ¬ i.Refused f) ∧ rules.options b.options = .error refusal := by
  rw [← checks_eq_ok]
  cases h : b.indexes.forM checkIndex with
  | error fault =>
      rw [build_of_refused h]
      simp
  | ok u =>
      rw [build_of_checks h, map_eq_error, mapError_eq_error, and_iff_right rfl]
      simp

end Builder

/-- All items of a list by number are the list. -/
theorem filterMap_range_getElem? {α : Type} (l : List α) :
    (List.range l.length).filterMap (l[·]?) = l := by
  induction l using List.reverseRecOn with
  | nil => rfl
  | append_singleton l a ih =>
      have hfind : ∀ n ∈ List.range l.length, (l ++ [a])[n]? = l[n]? := by
        intro n hn
        exact List.getElem?_append_left (List.mem_range.1 hn)
      rw [List.length_append, List.length_singleton, List.range_succ, List.filterMap_append,
        List.filterMap_congr hfind, ih, List.filterMap_cons_some List.getElem?_concat_length]
      rfl

namespace Built

variable {b b' : Builder} {d : Built}

/-- All mappings of a definition have numbers that the builder has given. -/
def Known (b : Builder) (d : Built) : Prop := ∀ n ∈ d.mappings, n < b.mappings.length

/-- Mappings that are added do not show in a definition. -/
theorem definition_of_append {ms : List FieldMapping} (h : d.Known b)
    (hms : b'.mappings = b.mappings ++ ms) : d.definition b' = d.definition b := by
  have hfind : ∀ n ∈ d.mappings, b'.mappings[n]? = b.mappings[n]? := by
    intro n hn
    rw [hms, List.getElem?_append_left (h n hn)]
  rw [definition, definition, List.filterMap_congr hfind]

end Built

namespace WorkshopCall

/-- A call that changes a mapping where it is. -/
def isEdit : WorkshopCall → Bool
  | assignMapping .. => true
  | _ => false

/-- The definition that a call removes a mapping from. -/
def removesFrom? : WorkshopCall → Option Nat
  | removeMapping k _ => some k
  | _ => none

/-- Whether a call is on the builder, and the one that leaves a trace where it fails. -/
def hasLongPort : WorkshopCall → Bool
  | add c => c.hasLongPort
  | _ => false

/-- The call on the builder, if it is one and leaves something in it. -/
def made? {ε : Type} : WorkshopCall → Except ε WorkshopAnswer → Option BuilderCall
  | add c, .ok _ => some c
  | add c, .error _ => if c.hasLongPort then some c else none
  | _, _ => none

end WorkshopCall

namespace Workshop

variable {rules : Validation}

/-- What a call does, where `w` stands. -/
inductive Effect (rules : Validation) (w : Workshop) :
    WorkshopCall → Except (BuilderFault rules.Refusal) WorkshopAnswer → Workshop → Prop
  | added {c b done} : Builder.Effect rules w.builder c b done →
      Effect rules w (.add c) ((fun _ => .done) <$> done) { w with builder := b }
  | built {d} : w.builder.build rules = .ok d →
      Effect rules w .build (.ok (.definition (d.definition w.builder)))
        { w with built := w.built ++ [d] }
  | unbuilt {fault} : w.builder.build rules = .error fault →
      Effect rules w .build (.error fault) w
  | assigned (k n : Nat) (name : String) (v : Value) :
      Effect rules w (.assignMapping k n name v)
        (.ok (.definitions (w.assignMapping k n name v).definitions)) (w.assignMapping k n name v)
  | removed (k n : Nat) :
      Effect rules w (.removeMapping k n) (.ok (.definitions (w.removeMapping k n).definitions))
        (w.removeMapping k n)

variable {w w' : Workshop} {c : WorkshopCall}
  {a : Except (BuilderFault rules.Refusal) WorkshopAnswer} {d : Definition} {k : Nat}

theorem call_build_of_ok {e : Built} (h : w.builder.build rules = .ok e) : w.call rules .build =
    ({ w with built := w.built ++ [e] }, .ok (.definition (e.definition w.builder))) := by
  rw [call, h]

theorem call_build_of_error {fault : BuilderFault rules.Refusal}
    (h : w.builder.build rules = .error fault) : w.call rules .build = (w, .error fault) := by
  rw [call, h]

theorem effect_call (hrules : rules.Lawful) (w : Workshop) (c : WorkshopCall) :
    w.Effect rules c (w.call rules c).2 (w.call rules c).1 := by
  cases c with
  | add c => exact .added (Builder.effect_call hrules w.builder c)
  | build =>
      cases h : w.builder.build rules with
      | error fault =>
          rw [call_build_of_error h]
          exact .unbuilt h
      | ok d =>
          rw [call_build_of_ok h]
          exact .built h
  | assignMapping k n name v => exact .assigned k n name v
  | removeMapping k n => exact .removed k n

theorem Effect.eq_of_error {fault : BuilderFault rules.Refusal}
    (h : w.Effect rules c (.error fault) w') (hport : c.hasLongPort = false) : w' = w := by
  generalize ha : Except.error fault = a at h
  cases h with
  | unbuilt => rfl
  | @added c b done hbuilder =>
      cases hbuilder with
      | refused => rfl
      | made hdone =>
          rcases hdone with rfl | hlong
          · cases ha
          · exact absurd (hport.symm.trans hlong) nofun
  | built => cases ha
  | assigned => cases ha
  | removed => cases ha

theorem Effect.grown (h : w.Effect rules c a w') (hedit : c.isEdit = false) :
    Builder.Grown rules w.builder w'.builder (c.made? a).toList := by
  cases h with
  | @added c b done hbuilder =>
      cases hbuilder with
      | refused hport =>
          rw [map_error, WorkshopCall.made?, hport]
          exact .refl _
      | made hdone hgrown =>
          rcases hdone with rfl | hlong
          · exact hgrown
          · cases done with
            | ok u => exact hgrown
            | error fault =>
                rw [map_error, WorkshopCall.made?, hlong]
                exact hgrown
  | built => exact .refl _
  | unbuilt => exact .refl _
  | assigned => cases hedit
  | removed => exact .refl _

/-- All built definitions have mappings that the builder knows. -/
def Sound (w : Workshop) : Prop := ∀ d ∈ w.built, d.Known w.builder

theorem sound_start (dbName collection : Value) : (start dbName collection).Sound :=
  List.forall_mem_nil _

theorem Sound.of_length_le (h : w.Sound) (hbuilt : w'.built = w.built)
    (hlength : w.builder.mappings.length ≤ w'.builder.mappings.length) : w'.Sound := by
  intro d hd n hn
  rw [hbuilt] at hd
  exact Nat.lt_of_lt_of_le (h d hd n hn) hlength

theorem Effect.sound (h : w.Effect rules c a w') (hw : w.Sound) : w'.Sound := by
  cases h with
  | added hbuilder =>
      obtain ⟨ms, hms⟩ := hbuilder.mappings
      refine hw.of_length_le rfl ?_
      rw [hms, List.length_append]
      exact Nat.le_add_right _ _
  | built hbuild =>
      obtain ⟨-, options, -, rfl⟩ := Builder.build_eq_ok.1 hbuild
      intro d hd
      rcases List.mem_append.1 hd with hd | hd
      · exact hw d hd
      · cases List.mem_singleton.1 hd
        exact fun n hn => List.mem_range.1 hn
  | assigned k n name v =>
      rw [assignMapping]
      split
      · next m hm =>
          refine hw.of_length_le rfl ?_
          exact Nat.le_of_eq (List.length_modify _ _ _).symm
      · exact hw
  | removed k n =>
      intro d hd m hm
      obtain ⟨i, hi⟩ := List.getElem?_of_mem hd
      rw [removeMapping, List.getElem?_modify, Option.map_eq_map, Option.map_eq_some_iff] at hi
      obtain ⟨e, he, rfl⟩ := hi
      refine hw e (List.mem_of_getElem? he) m ?_
      split at hm
      · exact List.mem_of_mem_eraseIdx hm
      · exact hm
  | unbuilt => exact hw

/-- A call leaves a definition as it is, unless it changes a mapping or removes one from it. -/
theorem Effect.definition (h : w.Effect rules c a w') (hw : w.Sound)
    (hd : w.definitions[k]? = some d) (hedit : c.isEdit = false) (hremoves : c.removesFrom? ≠ some k) :
    w'.definitions[k]? = some d := by
  rw [definitions, List.getElem?_map, Option.map_eq_some_iff] at hd ⊢
  obtain ⟨e, he, rfl⟩ := hd
  cases h with
  | added hbuilder =>
      obtain ⟨ms, hms⟩ := hbuilder.mappings
      exact ⟨e, he, Built.definition_of_append (hw e (List.mem_of_getElem? he)) hms⟩
  | built hbuild =>
      obtain ⟨hk, -⟩ := List.getElem?_eq_some_iff.1 he
      exact ⟨e, (List.getElem?_append_left hk).trans he, rfl⟩
  | assigned => cases hedit
  | removed k' n =>
      refine ⟨e, ?_, rfl⟩
      rw [removeMapping, List.getElem?_modify_ne _ _ (fun hk => hremoves (congrArg some hk))]
      exact he
  | unbuilt => exact ⟨e, he, rfl⟩

theorem run_cons (rules : Validation) (w : Workshop) (c : WorkshopCall)
    (calls : List WorkshopCall) : w.run rules (c :: calls) =
      (((w.call rules c).1.run rules calls).1,
        (w.call rules c).2 :: ((w.call rules c).1.run rules calls).2) := rfl

/-- The calls of a run that leave something in the builder, in order. -/
def made (rules : Validation) (w : Workshop) (calls : List WorkshopCall) : List BuilderCall :=
  (calls.zip (w.run rules calls).2).filterMap fun p => p.1.made? p.2

theorem made_cons (w : Workshop) (c : WorkshopCall) (calls : List WorkshopCall) :
    w.made rules (c :: calls) =
      (c.made? (w.call rules c).2).toList ++ (w.call rules c).1.made rules calls := by
  rw [made, run_cons, List.zip_cons_cons, List.filterMap_cons]
  cases c.made? (w.call rules c).2 with
  | none => rfl
  | some b => rfl

theorem grown_run (hrules : rules.Lawful) (w : Workshop) (calls : List WorkshopCall)
    (h : ∀ c ∈ calls, c.isEdit = false) :
    Builder.Grown rules w.builder (w.run rules calls).1.builder (w.made rules calls) := by
  induction calls generalizing w with
  | nil => exact .refl _
  | cons c calls ih =>
      obtain ⟨hc, hcalls⟩ := List.forall_mem_cons.1 h
      rw [run_cons, made_cons]
      exact ((effect_call hrules w c).grown hc).trans (ih _ hcalls)

theorem Sound.run (hrules : rules.Lawful) (hw : w.Sound) (calls : List WorkshopCall) :
    (w.run rules calls).1.Sound := by
  induction calls generalizing w with
  | nil => exact hw
  | cons c calls ih => exact ih ((effect_call hrules w c).sound hw)

theorem Sound.definition_run (hrules : rules.Lawful) (hw : w.Sound)
    (hd : w.definitions[k]? = some d) {calls : List WorkshopCall}
    (h : ∀ c ∈ calls, c.isEdit = false ∧ c.removesFrom? ≠ some k) :
    (w.run rules calls).1.definitions[k]? = some d := by
  induction calls generalizing w with
  | nil => exact hd
  | cons c calls ih =>
      obtain ⟨⟨hedit, hremoves⟩, hcalls⟩ := List.forall_mem_cons.1 h
      have heffect := effect_call hrules w c
      exact ih (heffect.sound hw) (heffect.definition hw hd hedit hremoves) hcalls

theorem call_build_eq_error {fault : BuilderFault rules.Refusal} :
    (w.call rules .build).2 = .error fault ↔ w.builder.build rules = .error fault := by
  cases h : w.builder.build rules with
  | error fault' => rw [call_build_of_error h, Except.error.injEq, Except.error.injEq]
  | ok e =>
      rw [call_build_of_ok h]
      exact ⟨nofun, nofun⟩

theorem call_build_eq_ok : (w.call rules .build).2 = .ok (.definition d) ↔
    ∃ e, w.builder.build rules = .ok e ∧ e.definition w.builder = d := by
  cases h : w.builder.build rules with
  | error fault =>
      rw [call_build_of_error h]
      exact ⟨nofun, nofun⟩
  | ok e =>
      rw [call_build_of_ok h]
      simp

/-- A call that fails is as if it had not been made, unless it has a port without a text. -/
theorem run_of_error (hrules : rules.Lawful) {fault : BuilderFault rules.Refusal}
    (hfault : (w.call rules c).2 = .error fault) (hport : c.hasLongPort = false)
    (later : List WorkshopCall) : w.run rules (c :: later) =
      ((w.run rules later).1, .error fault :: (w.run rules later).2) := by
  have heffect := effect_call hrules w c
  rw [hfault] at heffect
  rw [run_cons, hfault, heffect.eq_of_error hport]

/-- Host names with a port that has no text are as host names without a port, but for the answer. -/
theorem run_of_long_port {port : Value} (hport : port.hasLong = true) (hostnames : Value)
    (later : List WorkshopCall) : w.run rules (.add (.hosts hostnames port) :: later) =
      ((w.run rules (.add (.hosts hostnames .null) :: later)).1,
        .error .tooLong :: (w.run rules (.add (.hosts hostnames .null) :: later)).2.tail) := by
  have hnull : port.isNull = false := by
    cases port with
    | null => exact absurd hport nofun
    | _ => rfl
  have hcall : w.builder.call rules (.hosts hostnames port) =
      (w.builder.setOption "hostnames" hostnames, .error .tooLong) := by
    rw [Builder.call, hnull, Value.display?, hport]
    rfl
  rw [run_cons, run_cons, call, hcall]
  rfl

/-- Options that are assigned one after another, whoever validates them. -/
structure Configured (rules : Validation) (assigned : Record Value) (w : WriteOptions) : Prop where
  text : ∀ o : TextOption, TakesLast assigned o.name rules.text (o.get {}) (o.get w)
  flag : ∀ o : FlagOption, TakesLast assigned o.name rules.flag (o.get {}) (o.get w)

/-- What comes of a build where options are assigned, and mappings and indexes are described. -/
structure Builds (rules : Validation) (w : Workshop) (assigned : Record Value)
    (mappings : List FieldMapping) (indexes : List IndexSpec) : Prop where
  refused : ∀ fault, (w.call rules .build).2 = .error (.index fault) ↔
    IndexSpec.FirstRefused indexes fault
  invalid : (∃ refusal, (w.call rules .build).2 = .error (.invalid refusal)) ↔
    (∀ i ∈ indexes, ∀ f, ¬ i.Refused f) ∧ ¬ ∃ options, Configured rules assigned options
  definition : ∀ d, (w.call rules .build).2 = .ok (.definition d) ↔
    (∀ i ∈ indexes, ∀ f, ¬ i.Refused f) ∧ Configured rules assigned d.write ∧
      d.mappings = mappings ∧ d.indexes = indexes
  texts : ∀ d, (w.call rules .build).2 = .ok (.definition d) → ∀ (o : TextOption) (s : String),
    Latest (fun p => p.1 = o.name) assigned (o.name, .text s) → o.get d.write = s
  flags : ∀ d, (w.call rules .build).2 = .ok (.definition d) → ∀ (o : FlagOption) (b : Bool),
    Latest (fun p => p.1 = o.name) assigned (o.name, .bool b) → o.get d.write = b
  kept : ∀ d, (w.call rules .build).2 = .ok (.definition d) →
    (w.call rules .build).1.definitions = w.definitions ++ [d]

theorem builds_of_options (hrules : rules.Lawful) {assigned : Record Value}
    (hoptions : w.builder.options = Record.putAll [] assigned) :
    w.Builds rules assigned w.builder.mappings w.builder.indexes := by
  have hread (options : WriteOptions) : rules.options w.builder.options = .ok options ↔
      Configured rules assigned options := by
    rw [hrules.options_eq_ok, hoptions]
    simp only [takes_putAll]
    exact ⟨fun h => ⟨h.1, h.2⟩, fun h => ⟨h.text, h.flag⟩⟩
  have hdefinition (d : Definition) : (w.call rules .build).2 = .ok (.definition d) ↔
      (∀ i ∈ w.builder.indexes, ∀ f, ¬ i.Refused f) ∧ Configured rules assigned d.write ∧
        d.mappings = w.builder.mappings ∧ d.indexes = w.builder.indexes := by
    rw [call_build_eq_ok]
    constructor
    · rintro ⟨e, hbuild, rfl⟩
      obtain ⟨hnone, options, hoptions, rfl⟩ := Builder.build_eq_ok.1 hbuild
      exact ⟨hnone, (hread options).1 hoptions, filterMap_range_getElem? _, rfl⟩
    · rintro ⟨hnone, hwrite, hmappings, hindexes⟩
      refine ⟨_, Builder.build_eq_ok.2 ⟨hnone, d.write, (hread _).2 hwrite, rfl⟩, ?_⟩
      rw [Built.definition, filterMap_range_getElem?, ← hmappings, ← hindexes]
  constructor
  case refused =>
    intro fault
    rw [call_build_eq_error, Builder.build_eq_index]
  case invalid =>
    simp only [call_build_eq_error, Builder.build_eq_invalid, exists_and_left, ← hread]
    refine and_congr_right fun _ => ?_
    cases rules.options w.builder.options with
    | ok options => simp
    | error refusal => simp
  case definition => exact hdefinition
  case texts =>
    intro d hd o s hlast
    obtain ⟨-, hwrite, -⟩ := (hdefinition d).1 hd
    exact Option.some.inj (((hwrite.text o).1 _ hlast).symm.trans (hrules.text_text s))
  case flags =>
    intro d hd o b hlast
    obtain ⟨-, hwrite, -⟩ := (hdefinition d).1 hd
    exact Option.some.inj (((hwrite.flag o).1 _ hlast).symm.trans (hrules.flag_bool b))
  case kept =>
    intro d hd
    obtain ⟨e, hbuild, rfl⟩ := call_build_eq_ok.1 hd
    rw [call_build_of_ok hbuild, definitions, List.map_append]
    rfl

/-- What becomes of a builder in any run of calls, those that fail among them. A build is refused
for the first index that is; else, if the options are valid, it is the definition with what was last
assigned to each option, and with the mappings and indexes of the calls that went well, in order. A
call that fails might as well not have been made, whatever comes later, except host names with a
port that has no text: they stay. And a built definition stays as it is through all later calls, but
for changes of a mapping and removals from itself. -/
theorem run_build (rules : Validation) (hrules : rules.Lawful) (dbName collection : Value)
    (calls : List WorkshopCall) (hcalls : ∀ c ∈ calls, c.isEdit = false) :
    let fresh := start dbName collection
    let w := (fresh.run rules calls).1
    let made := fresh.made rules calls
    (∃ mappings indexes,
      List.Forall₂ (Maps rules) (made.filter (·.isMapping)) mappings ∧
      List.Forall₂ (Indexes rules) (made.filter (·.isIndex)) indexes ∧
      w.Builds rules (("db_name", dbName) :: ("collection", collection) ::
        made.flatMap (·.assignments)) mappings indexes) ∧
    (∀ c fault later, (w.call rules c).2 = .error fault → c.hasLongPort = false →
      w.run rules (c :: later) = ((w.run rules later).1, .error fault :: (w.run rules later).2)) ∧
    (∀ hostnames port later, port.hasLong = true →
      w.run rules (.add (.hosts hostnames port) :: later) =
        ((w.run rules (.add (.hosts hostnames .null) :: later)).1,
          .error .tooLong :: (w.run rules (.add (.hosts hostnames .null) :: later)).2.tail)) ∧
    ∀ k d later, w.definitions[k]? = some d →
      (∀ c ∈ later, c.isEdit = false ∧ c.removesFrom? ≠ some k) →
      (w.run rules later).1.definitions[k]? = some d := by
  intro fresh w made
  have hgrown : Builder.Grown rules fresh.builder w.builder made :=
    grown_run hrules fresh calls hcalls
  have hsound : w.Sound := (sound_start dbName collection).run hrules calls
  refine ⟨?_, fun c fault later hfault hport => run_of_error hrules hfault hport later,
    fun hostnames port later hport => run_of_long_port hport hostnames later,
    fun k d later hd hlater => hsound.definition_run hrules hd hlater⟩
  obtain ⟨mappings, hmappings : w.builder.mappings = mappings, hmaps⟩ := hgrown.mappings
  obtain ⟨indexes, hindexes : w.builder.indexes = indexes, hdescribed⟩ := hgrown.indexes
  refine ⟨mappings, indexes, hmaps, hdescribed, ?_⟩
  rw [← hmappings, ← hindexes]
  exact builds_of_options hrules hgrown.options

/-- Some calls fail, among them a build for the last index. -/
def mixed : List WorkshopCall :=
  [.add (.hosts (.text "db1") (.int 27018)), .add (.option "owner" (.text "ops")),
    .add (.modifierUpdate (.bool true)), .add (.field (.text "id") (.text "") .null (.bool false)),
    .add (.field (.int 7) (.text "a") .null (.bool false)),
    .add (.index (.text "a:1") (.bool true) (.bool false) (.bool false)), .build, .build,
    .removeMapping 1 0, .add (.upsert (.bool false) (.text "on")),
    .add (.index (.text "b:2") (.bool false) (.bool false) (.bool false)), .build]

/-- What `mixed` builds first. -/
def firstBuilt : Definition :=
  ⟨{ hostnames := "db1", port := "27018", dbName := "shop", collection := "orders",
      modifierUpdate := true, upsert := true },
    [{ incomingName := "id", useIncomingName := true }], [{ fieldSpec := "a:1", unique := true }]⟩

theorem run_build_mixed :
    let rules : Validation := .lax
    let fresh := start (.text "shop") (.text "orders")
    let w := (fresh.run rules mixed).1
    let made := fresh.made rules mixed
    let fault : IndexFault := .badDirection "b:2" "2"
    let later : List WorkshopCall := [.add (.truncate (.bool true)), .removeMapping 1 0, .build]
    (∀ c ∈ mixed, c.isEdit = false) ∧
      (∃ mappings indexes, List.Forall₂ (Maps rules) (made.filter (·.isMapping)) mappings ∧
        List.Forall₂ (Indexes rules) (made.filter (·.isIndex)) indexes ∧
        IndexSpec.FirstRefused indexes fault) ∧
      w.run rules (.build :: later) =
        ((w.run rules later).1, .error (.index fault) :: (w.run rules later).2) ∧
      (w.run rules later).1.definitions[0]? = some firstBuilt := by
  intro rules fresh w made fault later
  have hcalls : ∀ c ∈ mixed, c.isEdit = false := by decide
  have hbuild : (w.call rules .build).2 = .error (.index fault) := by decide +kernel
  have hfirst : w.definitions[0]? = some firstBuilt := by decide +kernel
  obtain ⟨⟨mappings, indexes, hmaps, hindexes, hbuilds⟩, hdropped, -, hkept⟩ :=
    run_build .lax Validation.lax_lawful (.text "shop") (.text "orders") mixed hcalls
  exact ⟨hcalls, ⟨mappings, indexes, hmaps, hindexes, (hbuilds.refused fault).1 hbuild⟩,
    hdropped .build _ later hbuild rfl, hkept 0 firstBuilt later hfirst (by decide)⟩

/-- A word for no counts as true where it is given, so that documents are inserted where they are
missing though nothing else says so; and host names are kept from a call that fails. -/
theorem builds_of_no_and_long_port :
    let fresh := start (.text "shop") (.text "orders")
    let switching : WorkshopCall := .add (.modifierUpdate (.text "no"))
    let failing : WorkshopCall := .add (.hosts (.text "h") (.int (Nat.pow 10 5000)))
    let plain : WriteOptions := { dbName := "shop", collection := "orders" }
    (fresh.run .lax [.build]).2 = [.ok (.definition ⟨plain, [], []⟩)] ∧
      (fresh.run .lax [switching, .build]).2 =
        [.ok .done, .ok (.definition ⟨{ plain with upsert := true }, [], []⟩)] ∧
      (fresh.run .lax [failing, .build]).2 =
        [.error .tooLong, .ok (.definition ⟨{ plain with hostnames := "h" }, [], []⟩)] := by
  decide +kernel

end Workshop

end DocumentSink
