import DocumentSink.Proofs.Resave
import DocumentSink.Proofs.Wide
import DocumentSink.Step.Encode

/-!
Definitions that markup cannot carry. Flags and tokens are plain, so only the texts that an author
is free to choose can be refused, the password in its stored form; the fault names the first that
is. Main statements: which definitions are refused, and with which fault; and that definitions of
characters are written as by `Markup.write`.
-/

namespace DocumentSink

/-- The options that are texts, in the order in which they are written. -/
def TextOption.all : List TextOption := [
  .hostnames, .port, .username, .password, .dbName, .collection, .batchInsertSize, .connectTimeout,
  .socketTimeout, .readPreference, .writeConcern, .wTimeout, .writeRetries, .writeRetryDelay]

/-- The option, if it is a text. -/
def WriteOption.text? : WriteOption → Option TextOption
  | .text o => some o
  | .flag _ => none

/-- The texts that the author of a definition chooses, each under the code that it is written with,
in the order in which they are written. The password counts as it is stored. -/
def WideDefinition.freeTexts (d : WideDefinition) : Record (Except Wide.Fault Wide) :=
  (TextOption.all.map fun o =>
    (o.code, if o = .password then Password.storeWide (d.text .password) else .ok (d.text o))) ++
  (d.mappings.flatMap fun m => [(FieldPart.incomingName.code, .ok m.incomingName),
    (FieldPart.documentPath.code, .ok m.documentPath)]) ++
  d.indexes.map fun i => (IndexPart.fieldSpec.code, .ok i.fieldSpec)

namespace Markup

/-- Why a text is refused: a surrogate where octets are needed, or a code point that markup cannot
carry, of which the first counts. -/
inductive Refuses : String × Except Wide.Fault Wide → EncodeFault → Prop
  | surrogate {tag fault} : Refuses (tag, .error fault) (.notUnicode fault)
  | char {tag left c right} : (∀ x ∈ left, x.isCarried = true) → c.isCarried = false →
      Refuses (tag, .ok (left ++ c :: right)) (.refused tag c)

/-- The fault of the first of some texts that is refused. -/
def IsFirstRefused (texts : Record (Except Wide.Fault Wide)) (fault : EncodeFault) : Prop :=
  ∃ before p after, texts = before ++ p :: after ∧ (∀ q ∈ before, ∀ f, ¬ Refuses q f) ∧
    Refuses p fault

/-- The fault of a text, if it has one. -/
def refusal (p : String × Except Wide.Fault Wide) : Option EncodeFault :=
  match p.2 with
  | .error fault => some (.notUnicode fault)
  | .ok s => (s.find? (!·.isCarried)).map (.refused p.1)

/-- The faults of all texts of a content, in the order in which they are written. -/
def refusals (s : Content (Except Wide.Fault Wide)) : List EncodeFault :=
  s.options.filterMap refusal ++ s.fields.flatMap (·.filterMap refusal) ++
    s.indexes.flatMap (·.filterMap refusal)

section Refusing

variable {p : String × Except Wide.Fault Wide} {r : Record (Except Wide.Fault Wide)}
  {fault : EncodeFault}

theorem refusal_eq_some : refusal p = some fault ↔ Refuses p fault := by
  obtain ⟨tag, e | s⟩ := p
  · rw [refusal, Option.some.injEq]
    constructor
    · rintro rfl
      exact .surrogate
    · rintro ⟨⟩
      rfl
  · simp only [refusal, Option.map_eq_some_iff, List.find?_eq_some_iff_append, Bool.not_eq_true',
      Bool.not_not]
    constructor
    · rintro ⟨c, ⟨hc, left, right, rfl, hleft⟩, rfl⟩
      exact .char hleft hc
    · rintro ⟨⟩
      next left c right hleft hc => exact ⟨c, ⟨hc, left, right, rfl, hleft⟩, rfl⟩

theorem refusal_eq_none : refusal p = none ↔ ∀ f, ¬ Refuses p f := by
  simp only [← refusal_eq_some]
  exact Option.eq_none_iff_forall_not_mem

/-- A text is written exactly if it has a stored form, and markup carries all of that. -/
theorem not_refuses_iff :
    (∀ f, ¬ Refuses p f) ↔ ∃ s, p.2 = .ok s ∧ ∀ c ∈ s, c.isCarried = true := by
  rw [← refusal_eq_none]
  obtain ⟨tag, e | s⟩ := p
  · simp [refusal]
  · simp [refusal]

theorem encodeLeaf_eq_error : encodeLeaf p = .error fault ↔ refusal p = some fault := by
  obtain ⟨tag, e | s⟩ := p
  · simp [encodeLeaf, refusal]
  · rw [encodeLeaf, refusal]
    dsimp only
    cases s.find? (!·.isCarried) <;> simp

theorem isFirstRefused_iff : IsFirstRefused r fault ↔ (r.filterMap refusal).head? = some fault := by
  rw [List.head?_filterMap, List.findSome?_eq_some_iff]
  simp only [refusal_eq_none, refusal_eq_some, IsFirstRefused]
  constructor
  · rintro ⟨before, p, after, hsplit, hbefore, hp⟩
    exact ⟨before, p, after, hsplit, hp, hbefore⟩
  · rintro ⟨before, p, after, hsplit, hp, hbefore⟩
    exact ⟨before, p, after, hsplit, hbefore, hp⟩

theorem IsFirstRefused.exists_mem (h : IsFirstRefused r fault) : ∃ p ∈ r, Refuses p fault := by
  obtain ⟨before, p, after, rfl, -, hp⟩ := h
  exact ⟨p, List.mem_append_right before List.mem_cons_self, hp⟩

theorem failsFirst_encodeLeaf (p : String × Except Wide.Fault Wide) :
    FailsFirst (encodeLeaf p) (refusal p).toList := by
  intro fault
  rw [encodeLeaf_eq_error, Option.head?_toList]

theorem failsFirst_leaves (r : Record (Except Wide.Fault Wide)) :
    FailsFirst (r.mapM encodeLeaf) (r.filterMap refusal) := by
  rw [List.filterMap_eq_flatMap_toList]
  exact failsFirst_mapM failsFirst_encodeLeaf r

theorem failsFirst_group (tag entryTag : String) (rs : List (Record (Except Wide.Fault Wide))) :
    FailsFirst (group encodeLeaf tag entryTag rs) (rs.flatMap (·.filterMap refusal)) := by
  have hentry (r : Record (Except Wide.Fault Wide)) : FailsFirst (do
      return Xml.Element.group entryTag (← r.mapM encodeLeaf)) (r.filterMap refusal) := by
    rw [← List.append_nil (r.filterMap refusal)]
    exact (failsFirst_leaves r).bind fun _ => failsFirst_pure _
  rw [group, ← List.append_nil (rs.flatMap _)]
  exact (failsFirst_mapM hentry rs).bind fun _ => failsFirst_pure _

/-- Content is refused with the first fault of its texts. -/
theorem failsFirst_ofContent (s : Content (Except Wide.Fault Wide)) :
    FailsFirst (ofContent encodeLeaf s) (refusals s) := by
  rw [ofContent, refusals, List.append_assoc, ← List.append_nil (s.indexes.flatMap _)]
  refine (failsFirst_leaves s.options).bind fun options => ?_
  refine (failsFirst_group fieldsTag fieldTag s.fields).bind fun fields => ?_
  exact (failsFirst_group indexesTag indexTag s.indexes).bind fun indexes => failsFirst_pure _

end Refusing

section FreeTexts

theorem isCarried_of_mem_ofString {s : String} {c : CodePoint} (h : Xml.Carried s.toList)
    (hc : c ∈ Wide.ofString s) : c.isCarried = true := by
  obtain ⟨d, hd, rfl⟩ := List.mem_map.1 hc
  exact h d hd

theorem refusal_of_carried {s : String} (h : Xml.Carried s.toList) (code : String) :
    refusal (code, .ok s) = none :=
  refusal_eq_none.2 (not_refuses_iff.2 ⟨s, rfl, fun _ => isCarried_of_mem_ofString h⟩)

theorem refusal_flagToken (code : String) (b : Bool) : refusal (code, .ok (flagToken b)) = none :=
  refusal_of_carried (Step.carried_flagToken b) code

/-- A text that is left out where it is empty is refused like one that is written. -/
theorem refusal_of_kept (isOptional : Bool) (code : String) (s : Except Wide.Fault Wide) :
    ((if isOptional && isBlankText s then none else some (code, s)).bind refusal) =
      refusal (code, s) := by
  split
  · next h =>
      obtain ⟨-, hblank⟩ := Bool.and_eq_true_iff.1 h
      obtain e | s := s
      · cases hblank
      · obtain rfl := List.isEmpty_iff.1 hblank
        rfl
  · rfl

/-- Of the options only the texts can be refused. -/
theorem refusals_options (d : WideDefinition) : d.content.options.filterMap refusal =
    TextOption.all.filterMap fun o => refusal (o.code, d.optionText (.text o)) := by
  have htexts : (Step.layout.filterMap fun k => k.1.text?) = TextOption.all := rfl
  rw [← htexts, List.filterMap_filterMap, WideDefinition.content, Step.optionsOf,
    List.filterMap_filterMap]
  congr 1
  funext k
  obtain ⟨o, isOptional⟩ := k
  refine (refusal_of_kept isOptional o.code (d.optionText o)).trans ?_
  cases o with
  | flag o => exact refusal_flagToken _ _
  | text o => rfl

theorem refusals_field (m : WideMapping) :
    (FieldPart.all.map fun p => (p.code, .ok (m.fieldText p))).filterMap refusal =
      [(FieldPart.incomingName.code, .ok m.incomingName),
        (FieldPart.documentPath.code, .ok m.documentPath)].filterMap refusal := by
  have hoperator (code : String) : refusal (code, .ok m.operator.token) = none :=
    refusal_of_carried (Step.carried_operator _) code
  have hpolicy (code : String) : refusal (code, .ok m.policy.token) = none :=
    refusal_of_carried (Step.carried_policy _) code
  simp only [FieldPart.all, List.map_cons, List.map_nil, WideMapping.fieldText,
    List.filterMap_cons, List.filterMap_nil, refusal_flagToken, hoperator, hpolicy]

theorem refusals_index (i : WideIndex) :
    (IndexPart.all.map fun p => (p.code, .ok (i.indexText p))).filterMap refusal =
      [(IndexPart.fieldSpec.code, .ok i.fieldSpec)].filterMap refusal := by
  simp only [IndexPart.all, List.map_cons, List.map_nil, WideIndex.indexText,
    List.filterMap_cons, List.filterMap_nil, refusal_flagToken]

/-- The faults of a written definition are those of its free texts. -/
theorem refusals_content (d : WideDefinition) :
    refusals d.content = d.freeTexts.filterMap refusal := by
  have hoptions : (TextOption.all.map fun o => (o.code,
      if o = .password then Password.storeWide (d.text .password) else .ok (d.text o))) =
        TextOption.all.map fun o => (o.code, d.optionText (.text o)) := rfl
  have hindexes : (d.indexes.flatMap fun i =>
      (IndexPart.all.map fun p => (p.code, .ok (i.indexText p))).filterMap refusal) =
        (d.indexes.map fun i =>
          (IndexPart.fieldSpec.code, .ok i.fieldSpec)).filterMap refusal := by
    simp only [refusals_index]
    rw [← List.filterMap_flatMap, ← List.map_eq_flatMap]
  rw [refusals, refusals_options, WideDefinition.content, WideDefinition.freeTexts,
    List.filterMap_append, List.filterMap_append, hoptions, List.filterMap_map,
    List.filterMap_flatMap, List.flatMap_map, List.flatMap_map, hindexes]
  simp only [refusals_field]
  rfl

end FreeTexts

theorem failsFirst_encode (d : WideDefinition) :
    FailsFirst (encode d) (d.freeTexts.filterMap refusal) := by
  rw [← refusals_content, ← List.append_nil (refusals _)]
  exact (failsFirst_ofContent d.content).bind fun _ => failsFirst_pure _

/-- No other text has the code of the password. -/
theorem eq_storeWide_of_mem_freeTexts {d : WideDefinition} {text : Except Wide.Fault Wide}
    (h : (TextOption.password.code, text) ∈ d.freeTexts) :
    text = Password.storeWide (d.text .password) := by
  simp only [WideDefinition.freeTexts, List.mem_append, List.mem_map, List.mem_flatMap,
    List.mem_cons, Prod.mk.injEq, List.not_mem_nil, or_false] at h
  rcases h with (⟨o, -, hcode, rfl⟩ | ⟨m, -, ⟨hcode, -⟩ | ⟨hcode, -⟩⟩) | ⟨i, -, hcode, -⟩
  · have ho : o = .password := by
      revert hcode
      cases o <;> decide
    rw [if_pos ho]
  · exact absurd hcode (by decide)
  · exact absurd hcode (by decide)
  · exact absurd hcode (by decide)

/-- No other text is without a stored form. -/
theorem storeWide_of_mem_freeTexts {d : WideDefinition} {tag : String} {fault : Wide.Fault}
    (h : (tag, .error fault) ∈ d.freeTexts) :
    Password.storeWide (d.text .password) = .error fault := by
  simp only [WideDefinition.freeTexts, List.mem_append, List.mem_map, List.mem_flatMap,
    List.mem_cons, Prod.mk.injEq, List.not_mem_nil, or_false, reduceCtorEq, and_false,
    exists_false] at h
  obtain ⟨o, -, -, ho⟩ := h
  split at ho
  · exact ho
  · cases ho

/-- A password that is refused as what markup cannot carry has references in it. -/
theorem references_of_refuses {d : WideDefinition} {p : String × Except Wide.Fault Wide}
    {c : CodePoint} (hmem : p ∈ d.freeTexts)
    (h : Refuses p (.refused TextOption.password.code c)) :
    Variables.hasReferencesIn (d.text .password) = true := by
  cases h with
  | @char _ left c right _ hchar =>
      by_contra href
      have hstored := eq_storeWide_of_mem_freeTexts hmem
      rw [Password.storeWide, if_neg href] at hstored
      obtain ⟨s, -, hs⟩ := map_eq_ok.1 hstored.symm
      -- what is stored is the concealed form, of which markup carries every character
      have hcarried : c.isCarried = true := by
        apply isCarried_of_mem_ofString (Password.carried_conceal (.ofList s))
        rw [hs]
        exact List.mem_append_right _ List.mem_cons_self
      rw [hchar] at hcarried
      cases hcarried

/-- A text without UTF-8 is a password that is to be concealed. -/
theorem password_of_refuses {d : WideDefinition} {p : String × Except Wide.Fault Wide}
    {fault : Wide.Fault} (hmem : p ∈ d.freeTexts) (h : Refuses p (.notUnicode fault)) :
    Variables.hasReferencesIn (d.text .password) = false ∧
      (d.text .password).chars = .error fault := by
  cases h with
  | surrogate =>
      have hstored := storeWide_of_mem_freeTexts hmem
      rw [Password.storeWide] at hstored
      split at hstored
      · cases hstored
      · next href => exact ⟨Bool.eq_false_iff.2 href, map_eq_error.1 hstored⟩

/-- A definition is refused exactly if one of its free texts is, and the fault is that of the first.
Every other definition is written. A password without references is never refused as a text that
markup cannot carry, since its concealed form is plain; but it may have none. -/
theorem encode_eq_error_iff (d : WideDefinition) :
    (∀ fault, encode d = .error fault ↔ IsFirstRefused d.freeTexts fault) ∧
      ((∃ text, encode d = .ok text) ↔
        ∀ p ∈ d.freeTexts, ∃ s, p.2 = .ok s ∧ ∀ c ∈ s, c.isCarried = true) ∧
      (Variables.hasReferencesIn (d.text .password) = false →
        ∀ c, encode d ≠ .error (.refused TextOption.password.code c)) ∧
      ∀ fault, encode d = .error (.notUnicode fault) →
        Variables.hasReferencesIn (d.text .password) = false ∧
          (d.text .password).chars = .error fault := by
  have hencode := failsFirst_encode d
  have herror (fault : EncodeFault) : encode d = .error fault ↔
      IsFirstRefused d.freeTexts fault := by
    rw [isFirstRefused_iff, hencode fault]
  refine ⟨herror, ?_, ?_, ?_⟩
  · rw [hencode.eq_nil_iff, List.filterMap_eq_nil_iff]
    simp only [refusal_eq_none, not_refuses_iff]
  · intro href c hc
    obtain ⟨p, hmem, hp⟩ := ((herror _).1 hc).exists_mem
    rw [references_of_refuses hmem hp] at href
    cases href
  · intro fault hfault
    obtain ⟨p, hmem, hp⟩ := ((herror _).1 hfault).exists_mem
    exact password_of_refuses hmem hp

/-- A password of control characters, and two texts behind it that cannot be carried. -/
def uncarried : WideDefinition where
  text
    | .username => "a\tb"
    | .password => "\x01\x02"
    | .collection => [.char 'c', .surrogate 0, .char '\x00']
    | o => o.get {}
  mappings := [{ incomingName := "\uFFFE" }]

theorem encode_eq_error_uncarried :
    let fault : EncodeFault := .refused "mongo_collection" (.surrogate 0)
    Variables.hasReferencesIn (uncarried.text .password) = false ∧
      IsFirstRefused uncarried.freeTexts fault ∧ encode uncarried = .error fault ∧
      ∀ c, encode uncarried ≠ .error (.refused "mongo_password" c) := by
  intro fault
  have href : Variables.hasReferencesIn (uncarried.text .password) = false := by decide +kernel
  have herror : encode uncarried = .error fault := by decide +kernel
  obtain ⟨hiff, -, hpassword, -⟩ := encode_eq_error_iff uncarried
  exact ⟨href, (hiff fault).1 herror, herror, hpassword href⟩

/-- A password of one surrogate has no octets, and that is the fault. -/
theorem encode_surrogatePassword :
    encode { text := fun o => if o = .password then [.surrogate 0] else o.get {} } =
      .error (.notUnicode ⟨.surrogate 0, 0, 1⟩) := by
  decide +kernel

section Narrow

/-- Each entry made into another. -/
def Content.map {τ σ : Type} (f : τ → σ) (s : Content τ) : Content σ where
  options := s.options.map fun p => (p.1, f p.2)
  fields := s.fields.map (·.map fun p => (p.1, f p.2))
  indexes := s.indexes.map (·.map fun p => (p.1, f p.2))

variable {ε ε' τ σ : Type} {leaf : String × τ → Except ε Xml.Element}
  {leaf' : String × σ → Except ε' Xml.Element} {f : τ → σ} {g : ε → ε'}

theorem mapM_leaves (h : ∀ p, leaf' (p.1, f p.2) = (leaf p).mapError g) (r : Record τ) :
    (r.map fun p => (p.1, f p.2)).mapM leaf' = (r.mapM leaf).mapError g := by
  rw [List.mapM_map, mapError_mapM]
  exact congrArg (List.mapM · r) (funext h)

theorem group_map (h : ∀ p, leaf' (p.1, f p.2) = (leaf p).mapError g) (tag entryTag : String)
    (rs : List (Record τ)) : group leaf' tag entryTag (rs.map (·.map fun p => (p.1, f p.2))) =
      (group leaf tag entryTag rs).mapError g := by
  rw [group, group, mapError_bind, mapError_mapM, List.mapM_map]
  simp only [Function.comp_def, mapM_leaves h, mapError_bind, pure_eq_ok, mapError_ok]

/-- Trees are made of entries alike, where leaves are. -/
theorem ofContent_map (h : ∀ p, leaf' (p.1, f p.2) = (leaf p).mapError g) (s : Content τ) :
    ofContent leaf' (Content.map f s) = (ofContent leaf s).mapError g := by
  simp only [ofContent, Content.map, mapM_leaves h, group_map h, mapError_bind, pure_eq_ok,
    mapError_ok]

theorem hasReferencesIn_ofString (s : String) :
    Variables.hasReferencesIn s = Variables.hasReferences s := by
  have hchars : ((Wide.ofString s).map fun c => c.char?.getD '\uFFFD') = s.toList := by
    rw [Wide.ofString, Wide.ofChars, List.map_map]
    exact List.map_id _
  rw [Variables.hasReferencesIn, hchars, String.ofList_toList]

theorem storeWide_ofString (s : String) :
    Password.storeWide s = .ok (Wide.ofString (Password.store s)) := by
  rw [Password.storeWide, Password.store, hasReferencesIn_ofString]
  split
  · rfl
  · rw [Wide.ofString, Wide.chars_ofChars, map_ok, String.ofList_toList]

theorem content_wide (d : Definition) :
    d.wide.content = Content.map (.ok ∘ Wide.ofString) (Step.ofDefinition d) := by
  have hoption (o : WriteOption) : d.wide.optionText o =
      .ok (Wide.ofString (Step.optionText d.write o)) := by
    cases o with
    | flag o => rfl
    | text o => cases o <;> first | rfl | exact storeWide_ofString _
  have hblank (s : String) : isBlankText (.ok (Wide.ofString s)) = s.isEmpty := by
    rw [isBlankText, Wide.ofString, Wide.ofChars, List.isEmpty_map, Bool.eq_iff_iff,
      List.isEmpty_iff, String.isEmpty_iff, String.toList_eq_nil_iff]
  rw [WideDefinition.content, Content.map, Content.mk.injEq]
  refine ⟨?_, ?_, ?_⟩
  · rw [Step.ofDefinition, Step.ofWriteOptions, Step.optionsOf, Step.optionsOf, List.map_filterMap]
    congr 1
    funext k
    obtain ⟨o, isOptional⟩ := k
    dsimp only
    rw [hoption, hblank]
    split
    · rfl
    · rfl
  · rw [Step.ofDefinition, Definition.wide, List.map_map, List.map_map]
    refine List.map_congr_left fun m _ => ?_
    rfl
  · rw [Step.ofDefinition, Definition.wide, List.map_map, List.map_map]
    refine List.map_congr_left fun i _ => ?_
    rfl

theorem find?_ofString (s : String) : (Wide.ofString s).find? (!·.isCarried) =
    (s.toList.find? (!Xml.isChar ·)).map .char := by
  rw [Wide.ofString, Wide.ofChars, List.find?_map]
  rfl

theorem encodeLeaf_ofString (p : String × String) : encodeLeaf (p.1, .ok (Wide.ofString p.2)) =
    (Markup.leaf p).mapError fun fault => .refused fault.tag (.char fault.char) := by
  have hchars : (Wide.ofString p.2).filterMap CodePoint.char? = p.2.toList := by
    rw [Wide.ofString, Wide.ofChars, List.filterMap_map]
    exact List.filterMap_some
  rw [encodeLeaf, Markup.leaf]
  dsimp only
  rw [find?_ofString, hchars, String.ofList_toList]
  cases p.2.toList.find? (!Xml.isChar ·) with
  | none => rfl
  | some c => rfl

/-- Definitions of characters are written, and refused, as by `write`. -/
theorem encode_wide (d : Definition) : encode d.wide =
    (write d).mapError fun fault => .refused fault.tag (.char fault.char) := by
  rw [encode, write, content_wide, ofContent_map encodeLeaf_ofString]
  cases ofContent Markup.leaf (Step.ofDefinition d) with
  | ok e => rfl
  | error fault => rfl

end Narrow

end Markup

end DocumentSink
