import DocumentSink.Xml.Reader
import Mathlib.Data.List.TakeDrop

/-!
Every document that is read consists of characters that markup can carry. Characters come from the
text itself, which is checked, and from references, whose numbers are; an entity stands for what its
declaration quotes, and declarations quote the text. Main statement: `carried_of_read`.
-/

namespace DocumentSink.Xml

/-- Markup can carry every character of a text. -/
def Carried (s : List Char) : Prop := ∀ c ∈ s, isChar c

instance (s : List Char) : Decidable (Carried s) :=
  decidable_of_iff (s.all isChar) List.all_eq_true

section Carried

variable {s t : List Char} {c : Char}

theorem Carried.nil : Carried [] := fun _ h => absurd h List.not_mem_nil

theorem Carried.subset (h : Carried s) (ht : t ⊆ s) : Carried t := fun c hc => h c (ht hc)

theorem Carried.cons (hc : isChar c) (h : Carried s) : Carried (c :: s) :=
  List.forall_mem_cons.2 ⟨hc, h⟩

theorem Carried.append (hs : Carried s) (ht : Carried t) : Carried (s ++ t) :=
  List.forall_mem_append.2 ⟨hs, ht⟩

end Carried

/-- The characters that a piece gives by itself. -/
def Piece.chars : Piece → List Char
  | .char c => [c]
  | .data s => s
  | .entity _ => []

def Token.chars : Token → List Char
  | .text p => p.chars
  | _ => []

def Entity.chars : Entity → List Char
  | .text s => s
  | .outside => []

/-- The text that a word quotes. -/
def Word.chars : Word → List Char
  | .literal s => s
  | _ => []

section Tokens

variable {s r : List Char} {p : Piece} {ts : List Token}

theorem carried_of_takeCharacter {base : Nat} {isDigit : Char → Bool}
    (h : takeCharacter base isDigit s = some (p, r)) : Carried p.chars := by
  unfold takeCharacter at h
  split at h
  · split at h
    · exact absurd h (by simp)
    · simp only [Option.map_eq_some_iff, Prod.mk.injEq] at h
      obtain ⟨c, hc, rfl, -⟩ := h
      rw [charOf?] at hc
      split at hc
      · next hchar =>
          rw [← Option.some.inj hc]
          exact .cons hchar .nil
      · exact absurd hc (by simp)
  · exact absurd h (by simp)

theorem carried_namedPiece (name : List Char) : Carried (namedPiece name).chars := by
  unfold namedPiece
  split
  · next c hc =>
      have hchar : isChar c := by
        unfold predefined? at hc
        split at hc <;> cases hc <;> decide
      exact .cons hchar .nil
  · exact .nil

/-- A reference gives no other characters, whatever text it stands in. -/
theorem carried_of_takeReference (h : takeReference s = some (p, r)) : Carried p.chars := by
  unfold takeReference at h
  split at h
  · exact carried_of_takeCharacter h
  · exact carried_of_takeCharacter h
  · split at h
    · simp only [Option.some.injEq, Prod.mk.injEq] at h
      rw [← h.1]
      exact carried_namedPiece _
    · exact absurd h (by simp)

theorem carried_of_nextTokens (hs : Carried s) (h : nextTokens s = some (ts, r)) :
    ∀ t ∈ ts, Carried t.chars := by
  unfold nextTokens at h
  split at h
  · simp only [Option.map_eq_some_iff, Prod.mk.injEq] at h
    obtain ⟨_, -, rfl, -⟩ := h
    exact List.forall_mem_nil _
  · simp only [Option.map_eq_some_iff, Prod.exists, Prod.mk.injEq] at h
    obtain ⟨body, after, hcut, rfl, -⟩ := h
    rw [Text.eq_of_cutWord hcut] at hs
    refine List.forall_mem_singleton.2 (hs.subset ?_)
    intro c hc
    simp [Token.chars, Piece.chars] at hc
    simp [hc]
  · simp only [Option.map_eq_some_iff, Prod.mk.injEq] at h
    obtain ⟨_, -, rfl, -⟩ := h
    exact List.forall_mem_nil _
  · unfold takeClosing at h
    simp only at h
    split at h
    · simp only [Option.some.injEq, Prod.mk.injEq] at h
      rw [← h.1]
      exact List.forall_mem_singleton.2 .nil
    · exact absurd h (by simp)
  · unfold takeOpening at h
    split at h
    · exact absurd h (by simp)
    · simp only [Option.map_eq_some_iff, Prod.exists, Prod.mk.injEq] at h
      obtain ⟨_, closed, _, -, rfl, -⟩ := h
      refine List.forall_mem_cons.2 ⟨.nil, ?_⟩
      cases closed with
      | false => exact List.forall_mem_nil _
      | true => exact List.forall_mem_singleton.2 .nil
  · simp only [Option.map_eq_some_iff, Prod.exists, Prod.mk.injEq] at h
    obtain ⟨p, _, hp, rfl, -⟩ := h
    exact List.forall_mem_singleton.2 (carried_of_takeReference hp)
  · exact absurd h (by simp)
  · simp only [Option.some.injEq, Prod.mk.injEq] at h
    rw [← h.1]
    exact List.forall_mem_singleton.2 (.cons (hs _ List.mem_cons_self) .nil)
  · exact absurd h (by simp)

theorem carried_of_tokens (hs : Carried s) (h : tokens s = some ts) :
    ∀ t ∈ ts, Carried t.chars := by
  fun_induction tokens s generalizing ts with
  | case1 =>
      rw [← Option.some.inj h]
      exact List.forall_mem_nil _
  | case2 s _ us r hnext ih =>
      simp only [Option.map_eq_some_iff] at h
      obtain ⟨vs, hvs, rfl⟩ := h
      rw [List.forall_mem_append]
      exact ⟨carried_of_nextTokens hs hnext,
        ih (hs.subset (behind_of_nextTokens hnext).suffix.subset) hvs⟩
  | case3 => exact absurd h (by simp)

end Tokens

section Words

variable {s r : List Char} {w : Word}

theorem takeWord_spec (h : takeWord s = some (w, r)) : r <:+ s ∧ w.chars = [] := by
  unfold takeWord at h
  rw [List.span_eq_takeWhile_dropWhile] at h
  simp only at h
  split at h
  · next c t hr =>
      have ht : c :: t <:+ s := hr ▸ List.dropWhile_suffix _
      split at h
      · rw [Option.ite_none_left_eq_some, Option.some.injEq, Prod.mk.injEq] at h
        rw [← h.2.1, ← h.2.2]
        exact ⟨(List.suffix_cons c t).trans ht, rfl⟩
      · rw [Option.ite_none_right_eq_some, Option.some.injEq, Prod.mk.injEq] at h
        rw [← h.2.1, ← h.2.2]
        refine ⟨List.dropWhile_suffix _, ?_⟩
        split
        · rfl
        · split
          · rfl
          · split <;> rfl
          · rfl
  · exact absurd h (by simp)

theorem takeDeclare_spec (h : takeDeclare s = some (w, r)) : r <:+ s ∧ w.chars = [] := by
  unfold takeDeclare at h
  rw [List.span_eq_takeWhile_dropWhile] at h
  simp only at h
  split at h
  · split at h
    · cases h
      exact ⟨List.dropWhile_suffix _, rfl⟩
    · exact absurd h (by simp)
  · split at h
    · cases h
      exact ⟨List.dropWhile_suffix _, rfl⟩
    · exact absurd h (by simp)

/-- A word quotes the text in which it stands. -/
theorem nextWord_spec (h : nextWord s = some (w, r)) : r <:+ s ∧ w.chars ⊆ s := by
  unfold nextWord at h
  -- one case for each mark that a word begins with; only the last but one has a quotation
  split at h
  · simp only [Option.map_eq_map, Option.map_eq_some_iff, Prod.mk.injEq] at h
    obtain ⟨t, ht, rfl, rfl⟩ := h
    exact ⟨(suffix_of_afterComment ht).trans ⟨"<!--".toList, rfl⟩, List.nil_subset _⟩
  · obtain ⟨hr, hw⟩ := takeDeclare_spec h
    rw [hw]
    exact ⟨hr.trans ⟨"<!".toList, rfl⟩, List.nil_subset _⟩
  · simp only [Option.map_eq_map, Option.map_eq_some_iff, Prod.mk.injEq] at h
    obtain ⟨t, ht, rfl, rfl⟩ := h
    exact ⟨(suffix_of_afterInstruction ht).trans ⟨"<?".toList, rfl⟩, List.nil_subset _⟩
  · split at h
    · cases h
      exact ⟨List.suffix_cons '%' _, List.nil_subset _⟩
    · split at h
      · next hn =>
          cases h
          exact ⟨((List.suffix_cons ';' _).trans (behind_of_takeName hn).suffix).trans
            (List.suffix_cons '%' _), List.nil_subset _⟩
      · exact absurd h (by simp)
  · simp only [Option.bind_eq_bind, Option.bind_eq_some_iff] at h
    obtain ⟨⟨name, t⟩, hn, h⟩ := h
    dsimp only at h
    split at h
    · cases h
      exact ⟨(behind_of_takeName hn).suffix.trans (List.suffix_cons '#' _), List.nil_subset _⟩
    · exact absurd h (by simp)
  · cases h
    exact ⟨List.suffix_cons _ _, List.nil_subset _⟩
  · cases h
    exact ⟨⟨")*".toList, rfl⟩, List.nil_subset _⟩
  · cases h
    exact ⟨⟨")?".toList, rfl⟩, List.nil_subset _⟩
  · cases h
    exact ⟨⟨")+".toList, rfl⟩, List.nil_subset _⟩
  · split at h
    · cases h
      exact ⟨List.suffix_cons _ _, List.nil_subset _⟩
    · exact absurd h (by simp)
  · cases h
    exact ⟨List.suffix_cons _ _, List.nil_subset _⟩
  · cases h
    exact ⟨List.suffix_cons _ _, List.nil_subset _⟩
  · cases h
    exact ⟨List.suffix_cons _ _, List.nil_subset _⟩
  · cases h
    exact ⟨List.suffix_cons _ _, List.nil_subset _⟩
  · cases h
    exact ⟨List.suffix_cons _ _, List.nil_subset _⟩
  · split at h
    · simp only [Option.bind_eq_bind, Option.bind_eq_some_iff] at h
      obtain ⟨⟨text, t⟩, hcut, h⟩ := h
      dsimp only at h
      split at h
      · cases h
        refine ⟨(behind_of_cutFirst hcut).suffix.trans (List.suffix_cons _ _), ?_⟩
        rw [Text.eq_of_cutFirst hcut]
        exact fun c hc => List.mem_cons_of_mem _ (List.mem_append_left _ hc)
      · exact absurd h (by simp)
    · obtain ⟨hr, hw⟩ := takeWord_spec h
      rw [hw]
      exact ⟨hr, List.nil_subset _⟩
  · exact absurd h (by simp)

/-- The words before the content quote the text, and the content is the rest of it. -/
theorem prologWords_spec {ws : List Word} (h : prologWords s = some (ws, r)) :
    r <:+ s ∧ ∀ w ∈ ws, w.chars ⊆ s := by
  fun_induction prologWords s generalizing ws r with
  | case1 => exact absurd h (by simp)
  | case2 c s _ ih =>
      obtain ⟨hr, hws⟩ := ih h
      exact ⟨hr.trans (List.suffix_cons c s),
        fun w hw => List.Subset.trans (hws w hw) (List.subset_cons_self c s)⟩
  | case3 c s =>
      cases h
      exact ⟨List.suffix_rfl, List.forall_mem_nil _⟩
  | case4 c s hspace hat ih =>
      simp only [Option.bind_eq_bind, Option.bind_eq_some_iff] at h
      obtain ⟨⟨w, t⟩, hnext, h⟩ := h
      dsimp only at h
      split at h
      · next hlength =>
          simp only [Option.bind_eq_some_iff] at h
          obtain ⟨⟨us, v⟩, hrest, h⟩ := h
          cases h
          obtain ⟨ht, hw⟩ := nextWord_spec hnext
          obtain ⟨hr, hus⟩ := ih t hlength hrest
          exact ⟨hr.trans ht, List.forall_mem_cons.2
            ⟨hw, fun u hu => List.Subset.trans (hus u hu) ht.subset⟩⟩
      · exact absurd h (by simp)

theorem carried_of_entityText {s t : List Char} (hs : Carried s) (h : entityText s = some t) :
    Carried t := by
  fun_induction entityText s generalizing t with
  | case1 =>
      cases h
      exact .nil
  | case2 => exact absurd h (by simp)
  | case3 s p r href ih =>
      simp only [Option.map_eq_some_iff] at h
      obtain ⟨u, hu, rfl⟩ := h
      have hrest := (behind_of_takeReference href).suffix.trans (List.suffix_cons '&' s)
      refine .append ?_ (ih (hs.subset hrest.subset) hu)
      -- a number stands for its character, and a name stays as it is written
      unfold keptReference
      split
      · exact carried_of_takeReference href
      · exact hs.subset (List.cons_subset_cons '&' (List.take_subset _ s))
  | case4 => exact absurd h (by simp)
  | case5 c s _ _ ih =>
      simp only [Option.map_eq_some_iff] at h
      obtain ⟨u, hu, rfl⟩ := h
      obtain ⟨hc, hs⟩ := List.forall_mem_cons.1 hs
      exact .cons hc (ih hs hu)

end Words

namespace Declarations

/-- Markup can carry the texts of all entities. -/
def Carried (d : Declarations) : Prop := ∀ e ∈ d.entities, Xml.Carried e.2.chars

section Grammar

variable {d d' : Declarations} {ws r : List Word}

theorem suffix_of_takeExternal (h : takeExternal ws = some r) : r <:+ ws := by
  unfold takeExternal at h
  split at h
  · cases h
    exact ⟨[_, _], rfl⟩
  · split at h
    · cases h
      exact ⟨[_, _, _], rfl⟩
    · exact absurd h (by simp)
  · exact absurd h (by simp)

/-- What stands behind an external identifier and the end of its declaration. -/
theorem suffix_of_external (h : (do
    match ← takeExternal ws with
    | .finish :: ws => return ws
    | _ => none) = some r) : r <:+ ws := by
  simp only [Option.bind_eq_bind, Option.bind_eq_some_iff] at h
  obtain ⟨us, hus, h⟩ := h
  split at h
  · cases h
    exact (List.suffix_cons _ _).trans (suffix_of_takeExternal hus)
  · exact absurd h (by simp)

theorem suffix_of_parameterRest (h : d.parameterRest ws = some r) : r <:+ ws := by
  unfold parameterRest at h
  split at h
  · simp only [Option.bind_eq_bind, Option.bind_eq_some_iff] at h
    obtain ⟨_, -, h⟩ := h
    cases h
    exact ⟨[_, _], rfl⟩
  · exact suffix_of_external h

theorem suffix_of_notationRest (h : notationRest ws = some r) : r <:+ ws := by
  unfold notationRest at h
  split at h
  · split at h
    · cases h
      exact ⟨[_, _, _], rfl⟩
    · exact absurd h (by simp)
  · exact suffix_of_external h

theorem suffix_of_mixedRest (h : mixedRest ws = some r) : r <:+ ws := by
  fun_induction mixedRest ws with
  | case1 =>
      cases h
      exact List.suffix_cons _ _
  | case2 _ ws ih => exact (ih h).trans ⟨[_, _], rfl⟩
  | case3 _ ws ih => exact (ih h).trans ⟨[_, _], rfl⟩
  | case4 => exact absurd h (by simp)

theorem suffix_of_group (ws : List Word) :
    (∀ cs r, groupPart cs ws = some r → r <:+ ws) ∧
      ∀ cs r, groupRest cs ws = some r → r <:+ ws := by
  induction ws with
  | nil =>
      refine ⟨fun cs r h => ?_, fun cs r h => ?_⟩
      · unfold groupPart at h
        cases h
      · cases cs <;> unfold groupRest at h <;> cases h
        exact List.suffix_rfl
  | cons w ws ih =>
      have hpart {cs r} (h : groupPart cs ws = some r) : r <:+ w :: ws :=
        (ih.1 cs r h).trans (List.suffix_cons w ws)
      have hrest {cs r} (h : groupRest cs ws = some r) : r <:+ w :: ws :=
        (ih.2 cs r h).trans (List.suffix_cons w ws)
      refine ⟨fun cs r h => ?_, fun cs r h => ?_⟩
      · cases w <;> unfold groupPart at h
        case openGroup => exact hpart h
        case name => exact hrest h
        case qualified => exact hrest h
        case repeated => exact hrest h
        all_goals cases h
      · cases cs with
        | nil =>
            unfold groupRest at h
            cases h
            exact List.suffix_rfl
        | cons c cs =>
            unfold groupRest at h
            split at h
            · split at h
              · exact hpart h
              · cases h
            · split at h
              · exact hrest h
              · cases h

theorem suffix_of_elementRest (h : elementRest ws = some r) : r <:+ ws := by
  unfold elementRest at h
  split at h
  · cases h
    exact ⟨[_, _], rfl⟩
  · cases h
    exact ⟨[_, _], rfl⟩
  · cases h
    exact ⟨[_, _, _, _], rfl⟩
  · simp only [Option.bind_eq_bind, Option.bind_eq_some_iff] at h
    obtain ⟨us, hus, h⟩ := h
    split at h
    · cases h
      exact ((List.suffix_cons _ _).trans (suffix_of_mixedRest hus)).trans ⟨[_, _], rfl⟩
    · cases h
  · simp only [Option.bind_eq_bind, Option.bind_eq_some_iff] at h
    obtain ⟨us, hus, h⟩ := h
    split at h
    · cases h
      exact ((List.suffix_cons _ _).trans ((suffix_of_group _).1 _ _ hus)).trans
        (List.suffix_cons _ _)
    · cases h
  · cases h

theorem suffix_of_choices {choice : Word → Bool} (h : choices choice ws = some r) : r <:+ ws := by
  fun_induction choices choice ws with
  | case1 =>
      cases h
      exact ⟨[_, _], rfl⟩
  | case2 => cases h
  | case3 _ _ _ ih => exact (ih h).trans ⟨[_, _], rfl⟩
  | case4 => cases h
  | case5 => cases h

theorem suffix_of_attributeType {asWords : Bool} (h : attributeType ws = some (asWords, r)) :
    r <:+ ws := by
  unfold attributeType at h
  split at h
  · cases h
    exact List.suffix_cons _ _
  · simp only [Option.map_eq_map, Option.map_eq_some_iff, Prod.mk.injEq] at h
    obtain ⟨us, hus, -, rfl⟩ := h
    exact (suffix_of_choices hus).trans ⟨[_, _], rfl⟩
  · simp only [Option.map_eq_map, Option.map_eq_some_iff, Prod.mk.injEq] at h
    obtain ⟨us, hus, -, rfl⟩ := h
    exact (suffix_of_choices hus).trans (List.suffix_cons _ _)
  · split at h
    · cases h
      exact List.suffix_cons _ _
    · cases h
  · cases h

theorem suffix_of_attributeDefault {asWords : Bool} {value : Option (List Char)}
    (h : d.attributeDefault asWords ws = some (value, r)) : r <:+ ws := by
  unfold attributeDefault at h
  split at h
  · cases h
    exact List.suffix_cons _ _
  · cases h
    exact List.suffix_cons _ _
  · simp only [Option.map_eq_map, Option.map_eq_some_iff, Prod.mk.injEq] at h
    obtain ⟨_, -, -, rfl⟩ := h
    exact ⟨[_, _], rfl⟩
  · simp only [Option.map_eq_map, Option.map_eq_some_iff, Prod.mk.injEq] at h
    obtain ⟨_, -, -, rfl⟩ := h
    exact List.suffix_cons _ _
  · cases h

end Grammar

section Declaring

variable {d d' : Declarations} {ws r : List Word}

/-- What a part of the document type makes of declarations: the entities keep texts that markup can
carry, and what is left are the last of the words. -/
structure Declares (d : Declarations) (ws : List Word) (d' : Declarations) (r : List Word) :
    Prop where
  suffix : r <:+ ws
  carried : (∀ w ∈ ws, Xml.Carried w.chars) → d.Carried → d'.Carried

theorem Declares.of_entities (hr : r <:+ ws) (h : d'.entities = d.entities) :
    Declares d ws d' r := by
  refine ⟨hr, fun _ hd => ?_⟩
  rw [Carried, h]
  exact hd

theorem Declares.trans {d₁ d₂ d₃ : Declarations} {ws₁ ws₂ ws₃ : List Word}
    (h : Declares d₁ ws₁ d₂ ws₂) (h' : Declares d₂ ws₂ d₃ ws₃) : Declares d₁ ws₁ d₃ ws₃ where
  suffix := h'.suffix.trans h.suffix
  carried := fun hws hd =>
    h'.carried (fun w hw => hws w (h.suffix.subset hw)) (h.carried hws hd)

theorem carried_declareEntity {name : List Char} {e : Entity} (hd : d.Carried)
    (he : Xml.Carried e.chars) : (d.declareEntity name e).Carried := by
  unfold declareEntity
  split
  · exact List.forall_mem_cons.2 ⟨he, hd⟩
  · exact hd

theorem carried_of_quotedEntity {s : List Char} {e : Entity} (hs : Xml.Carried s)
    (h : d.quotedEntity s = some e) : Xml.Carried e.chars := by
  unfold quotedEntity at h
  split at h
  · simp only [Option.map_eq_map, Option.map_eq_some_iff] at h
    obtain ⟨t, ht, rfl⟩ := h
    exact carried_of_entityText hs ht
  · cases h
    exact .nil

theorem entities_declareAttribute (d : Declarations) (a : Declared) :
    (d.declareAttribute a).entities = d.entities := by
  unfold declareAttribute
  split <;> rfl

theorem declares_entityRest {name : List Char} (h : d.entityRest name ws = some (d', r)) :
    Declares d ws d' r := by
  unfold entityRest at h
  split at h
  · simp only [Option.bind_eq_bind, Option.bind_eq_some_iff] at h
    obtain ⟨e, he, h⟩ := h
    cases h
    refine ⟨⟨[_, _], rfl⟩, fun hws hd => carried_declareEntity hd ?_⟩
    exact carried_of_quotedEntity (hws _ List.mem_cons_self) he
  · simp only [Option.bind_eq_bind, Option.bind_eq_some_iff] at h
    obtain ⟨us, hus, h⟩ := h
    have hsuffix := suffix_of_takeExternal hus
    split at h
    · cases h
      exact ⟨(List.suffix_cons _ _).trans hsuffix, fun _ hd => carried_declareEntity hd .nil⟩
    · cases h
      exact ⟨List.IsSuffix.trans ⟨[_, _, _], rfl⟩ hsuffix,
        fun _ hd => carried_declareEntity hd .nil⟩
    · cases h

theorem declares_attributesRest {element : List Char}
    (h : d.attributesRest element ws = some (d', r)) : Declares d ws d' r := by
  fun_induction attributesRest d element ws with
  | case1 =>
      cases h
      exact .of_entities (List.suffix_cons _ _) rfl
  | case2 d w ws hne ih =>
      simp only [Option.bind_eq_bind, Option.bind_eq_some_iff] at h
      obtain ⟨name, -, ⟨asWords, us⟩, htype, ⟨value, vs⟩, hdefault, h⟩ := h
      dsimp only at h
      split at h
      · next hlength =>
          have hvs := (suffix_of_attributeDefault hdefault).trans (suffix_of_attributeType htype)
          exact (Declares.of_entities (hvs.trans (List.suffix_cons w ws))
            (entities_declareAttribute d _)).trans (ih _ _ _ _ hlength h)
      · cases h
  | case3 => cases h

theorem declares_declaration {k : List Char} (h : d.declaration k ws = some (d', r)) :
    Declares d ws d' r := by
  unfold declaration at h
  split at h
  · simp only [Option.map_eq_map, Option.map_eq_some_iff, Prod.mk.injEq] at h
    obtain ⟨us, hus, rfl, rfl⟩ := h
    exact .of_entities ((suffix_of_parameterRest hus).trans ⟨[_, _], rfl⟩) rfl
  · obtain ⟨hr, hd'⟩ := declares_entityRest h
    exact ⟨hr.trans (List.suffix_cons _ _),
      fun hws => hd' fun w hw => hws w (List.mem_cons_of_mem _ hw)⟩
  · split at h
    · simp only [Option.map_eq_map, Option.map_eq_some_iff, Prod.mk.injEq] at h
      obtain ⟨us, hus, rfl, rfl⟩ := h
      exact .of_entities ((suffix_of_elementRest hus).trans (List.suffix_cons _ _)) rfl
    · cases h
  · simp only [Option.bind_eq_bind, Option.bind_eq_some_iff] at h
    obtain ⟨element, -, h⟩ := h
    exact (Declares.of_entities (List.suffix_cons _ _) rfl).trans (declares_attributesRest h)
  · simp only [Option.map_eq_map, Option.map_eq_some_iff, Prod.mk.injEq] at h
    obtain ⟨us, hus, rfl, rfl⟩ := h
    exact .of_entities ((suffix_of_notationRest hus).trans (List.suffix_cons _ _)) rfl
  · cases h

theorem declares_subset (h : d.subset ws = some (d', r)) : Declares d ws d' r := by
  fun_induction subset d ws with
  | case1 =>
      cases h
      exact .of_entities ⟨[_, _], rfl⟩ rfl
  | case2 d ws ih => exact (Declares.of_entities (List.suffix_cons _ ws) rfl).trans (ih h)
  | case3 d ws ih =>
      have hpast : Declares d (.parameter :: ws) d.pastUnknown ws :=
        .of_entities (List.suffix_cons _ ws) rfl
      exact hpast.trans (ih h)
  | case4 d k ws ih =>
      simp only [Option.bind_eq_bind, Option.bind_eq_some_iff] at h
      obtain ⟨⟨d₁, us⟩, hdeclaration, h⟩ := h
      dsimp only at h
      split at h
      · next hlength =>
          exact ((Declares.of_entities (List.suffix_cons _ ws) rfl).trans
            (declares_declaration hdeclaration)).trans (ih _ _ hlength h)
      · cases h
  | case5 => cases h

theorem declares_doctype (h : d.doctype ws = some (d', r)) : Declares d ws d' r := by
  have hrest {d : Declarations} {ws : List Word} (h : d.doctypeRest ws = some (d', r)) :
      Declares d ws d' r := by
    unfold doctypeRest at h
    split at h
    · cases h
      exact .of_entities (List.suffix_cons _ _) rfl
    · exact (Declares.of_entities (List.suffix_cons _ _) rfl).trans (declares_subset h)
    · cases h
  unfold doctype at h
  split at h
  · next us hus =>
      have helsewhere : Declares d ws { d with elsewhere := true } us :=
        .of_entities (suffix_of_takeExternal hus) rfl
      exact helsewhere.trans (hrest h)
  · exact hrest h

theorem carried_of_prolog (hws : ∀ w ∈ ws, Xml.Carried w.chars) (hd : d.Carried)
    (h : d.prolog ws = some d') : d'.Carried := by
  fun_induction prolog d ws with
  | case1 =>
      cases h
      exact hd
  | case2 ws ih => exact ih (fun w hw => hws w (List.mem_cons_of_mem _ hw)) h
  | case3 w ws =>
      simp only [Option.bind_eq_bind, Option.bind_eq_some_iff] at h
      obtain ⟨_, -, ⟨d₁, us⟩, hdoctype, h⟩ := h
      dsimp only at h
      split at h
      · cases h
        exact (declares_doctype hdoctype).carried
          (fun v hv => hws v (List.mem_cons_of_mem _ (List.mem_cons_of_mem w hv))) hd
      · cases h
  | case4 => cases h

end Declaring

section Expansion

variable {d : Declarations} {ts us : List Token}

theorem carried_of_tokensOf {inner : List Char → Option (List Token)} (hd : d.Carried)
    (hinner : ∀ s us, Xml.Carried s → inner s = some us → ∀ u ∈ us, Xml.Carried u.chars)
    {t : Token} (ht : Xml.Carried t.chars) (h : d.tokensOf inner t = some us) :
    ∀ u ∈ us, Xml.Carried u.chars := by
  unfold tokensOf at h
  split at h
  · next name =>
      split at h
      · next s he =>
          simp only [Option.bind_eq_bind, Option.bind_eq_some_iff] at h
          obtain ⟨vs, hvs, h⟩ := h
          rw [entity?, Option.map_eq_some_iff] at he
          obtain ⟨e, hfound, he⟩ := he
          have hs := hd e (List.mem_of_find?_eq_some hfound)
          rw [he] at hs
          split at h
          · cases h
            refine List.forall_mem_cons.2 ⟨.nil, ?_⟩
            intro u hu
            obtain ⟨v, hv, rfl⟩ := List.mem_map.1 hu
            have hchars : (fromReference v).chars = v.chars := by
              unfold fromReference
              split <;> rfl
            rw [hchars]
            exact hinner s vs hs hvs v hv
          · cases h
      · cases h
  · cases h
    exact List.forall_mem_singleton.2 ht

theorem carried_of_flatten {f : Token → Option (List Token)}
    (hf : ∀ t us, Xml.Carried t.chars → f t = some us → ∀ u ∈ us, Xml.Carried u.chars)
    (hts : ∀ t ∈ ts, Xml.Carried t.chars) (h : List.flatten <$> ts.mapM f = some us) :
    ∀ u ∈ us, Xml.Carried u.chars := by
  induction ts generalizing us with
  | nil =>
      cases h
      exact List.forall_mem_nil _
  | cons t ts ih =>
      simp only [List.mapM_cons, Option.map_eq_map, Option.bind_eq_bind, Option.map_eq_some_iff,
        Option.bind_eq_some_iff] at h
      obtain ⟨_, ⟨vs, hvs, vss, hvss, hv⟩, rfl⟩ := h
      cases hv
      obtain ⟨ht, hts⟩ := List.forall_mem_cons.1 hts
      rw [List.flatten_cons, List.forall_mem_append]
      exact ⟨hf t vs ht hvs, ih hts (by rw [hvss]; rfl)⟩

/-- What references stand for are characters that markup can carry. -/
theorem carried_of_expandAt (hd : d.Carried) (depth : Nat) (hts : ∀ t ∈ ts, Xml.Carried t.chars)
    (h : d.expandAt depth ts = some us) : ∀ u ∈ us, Xml.Carried u.chars := by
  induction depth generalizing ts us with
  | zero =>
      refine carried_of_flatten (fun _ _ => carried_of_tokensOf hd ?_) hts h
      exact fun _ _ _ hus => by cases hus
  | succ depth ih =>
      refine carried_of_flatten (fun _ _ => carried_of_tokensOf hd ?_) hts h
      intro s us hs hus
      simp only [Option.bind_eq_bind, Option.bind_eq_some_iff] at hus
      obtain ⟨vs, hvs, hus⟩ := hus
      exact ih (carried_of_tokens hs hvs) hus

end Expansion

end Declarations

/-- Markup can carry every text of a tree. -/
inductive Element.Carried : Element → Prop
  | mk {name : Name} {text : String} {children : List Element} (htext : Xml.Carried text.toList)
    (hchildren : ∀ e ∈ children, e.Carried) : Carried (.mk name text children)

section Elements

variable {e e' : Element}

theorem Element.Carried.text (h : e.Carried) : Xml.Carried e.text.toList := by
  cases h with
  | mk htext hchildren => exact htext

theorem Element.Carried.children (h : e.Carried) : ∀ c ∈ e.children, c.Carried := by
  cases h with
  | mk htext hchildren => exact hchildren

mutual
theorem Element.Carried.find? {tag : String} : ∀ {e e' : Element}, e.Carried →
    e.find? tag = some e' → e'.Carried
  | .mk name text children, e', h, hfind => by
      rw [Element.find?] at hfind
      split at hfind
      · cases hfind
        exact h
      · exact carried_of_findIn? h.children hfind

theorem carried_of_findIn? {tag : String} : ∀ {es : List Element} {e' : Element},
    (∀ e ∈ es, e.Carried) → Element.findIn? tag es = some e' → e'.Carried
  | [], e', _, hfind => by cases hfind
  | e :: es, e', h, hfind => by
      obtain ⟨he, hes⟩ := List.forall_mem_cons.1 h
      rw [Element.findIn?] at hfind
      cases hfirst : e.find? tag with
      | none =>
          rw [hfirst] at hfind
          exact carried_of_findIn? hes hfind
      | some e₁ =>
          rw [hfirst] at hfind
          cases hfind
          exact he.find? hfirst
end

end Elements

/-- Markup can carry the text of an open element so far, and those of its children. -/
structure Frame.Carried (f : Frame) : Prop where
  text : Xml.Carried f.text
  children : ∀ e ∈ f.children, e.Carried

def Progress.Carried : Progress → Prop
  | .start => True
  | .inside top outer => top.Carried ∧ ∀ f ∈ outer, f.Carried
  | .done root => root.Carried

section Reading

variable {d : Declarations} {f : Frame}

theorem Frame.Carried.addText (h : f.Carried) {s : List Char} (hs : Xml.Carried s) :
    (f.addText s).Carried := by
  unfold Frame.addText
  split
  · exact ⟨.append (hs.subset (List.reverse_subset.2 (List.Subset.refl s))) h.text, h.children⟩
  · exact h

theorem Frame.Carried.addChild (h : f.Carried) {e : Element} (he : e.Carried) :
    (f.addChild e).Carried :=
  ⟨h.text, List.forall_mem_cons.2 ⟨he, h.children⟩⟩

theorem Frame.Carried.element (h : f.Carried) : f.element.Carried := by
  refine .mk ?_ fun e he => h.children e (List.mem_reverse.1 he)
  rw [String.toList_ofList]
  exact h.text.subset (List.reverse_subset.2 (List.Subset.refl f.text))

theorem carried_of_frame {scope : Scope} {tag : List Char} {attributes : List Attribute}
    (h : d.frame scope tag attributes = some f) : f.Carried := by
  unfold Declarations.frame at h
  simp only [Option.bind_eq_bind, Option.bind_eq_some_iff] at h
  obtain ⟨_, -, _, -, _, -, h⟩ := h
  split at h
  · cases h
  · simp only [Option.bind_eq_some_iff] at h
    obtain ⟨_, -, h⟩ := h
    cases h
    exact ⟨.nil, List.forall_mem_nil _⟩

theorem Progress.Carried.step {p p' : Progress} {t : Token} (hp : p.Carried)
    (ht : Xml.Carried t.chars) (h : p.step d t = some p') : p'.Carried := by
  unfold Progress.step at h
  split at h
  · simp only [Option.bind_eq_bind, Option.bind_eq_some_iff] at h
    obtain ⟨f, hf, h⟩ := h
    cases h
    exact ⟨carried_of_frame hf, List.forall_mem_nil _⟩
  · simp only [Option.bind_eq_bind, Option.bind_eq_some_iff] at h
    obtain ⟨f, hf, h⟩ := h
    cases h
    exact ⟨carried_of_frame hf, List.forall_mem_cons.2 hp⟩
  · obtain ⟨htop, houter⟩ := hp
    split at h
    · split at h
      · cases h
        exact htop.element
      · cases h
        obtain ⟨hnext, houter⟩ := List.forall_mem_cons.1 houter
        exact ⟨hnext.addChild htop.element, houter⟩
    · cases h
  · cases h
    exact ⟨hp.1.addText ht, hp.2⟩
  · cases h
    exact ⟨hp.1.addText ht, hp.2⟩
  · split at h
    · cases h
      exact hp
    · cases h
  · cases h

theorem Progress.Carried.run {p p' : Progress} {ts : List Token} (hp : p.Carried)
    (hts : ∀ t ∈ ts, Xml.Carried t.chars) (h : ts.foldlM (Progress.step d) p = some p') :
    p'.Carried := by
  induction ts generalizing p with
  | nil =>
      cases h
      exact hp
  | cons t ts ih =>
      rw [List.foldlM_cons, Option.bind_eq_bind, Option.bind_eq_some_iff] at h
      obtain ⟨q, hq, h⟩ := h
      obtain ⟨ht, hts⟩ := List.forall_mem_cons.1 hts
      exact ih (hp.step ht hq) hts h

theorem suffix_of_takeFirstLine {s r : List Char} {standalone : Bool}
    (h : takeFirstLine s = some (standalone, r)) : r <:+ s := by
  unfold takeFirstLine at h
  split at h
  · next c s =>
      split at h
      · cases h
        exact List.suffix_rfl
      · simp only [Option.bind_eq_bind, Option.bind_eq_some_iff] at h
        obtain ⟨⟨settings, t⟩, hcut, _, -, h⟩ := h
        cases h
        exact (suffix_of_cutWord hcut).trans ⟨"<?xml".toList, rfl⟩
  · cases h
    exact List.suffix_rfl

theorem carried_of_content {d : Declarations} (hd : d.Carried) {s : List Char} (hs : Carried s)
    {e : Element} (h : content d s = some e) : e.Carried := by
  unfold content at h
  simp only [Option.bind_eq_bind, Option.bind_eq_some_iff] at h
  obtain ⟨ts, hts, us, hus, p, hp, h⟩ := h
  have hcarried := Declarations.carried_of_expandAt hd _ (carried_of_tokens hs hts) hus
  have hstart : Progress.start.Carried := trivial
  have hprogress := hstart.run hcarried hp
  split at h
  · cases h
    exact hprogress
  · cases h

/-- Markup can carry every text of a document that is read. -/
theorem carried_of_read {s : List Char} {e : Element} (h : read s = some e) : e.Carried := by
  unfold read at h
  simp only [Option.bind_eq_bind] at h
  split at h
  · cases h
  · next hall =>
      have hs : Carried (Text.lineFeeds (dropMark s)) := by
        intro c hc
        exact List.all_eq_true.1 (by simpa using hall) c hc
      simp only [Option.bind_eq_some_iff] at h
      obtain ⟨⟨standalone, t⟩, hfirst, ⟨ws, r⟩, hwords, d, hprolog, h⟩ := h
      have ht := hs.subset (suffix_of_takeFirstLine hfirst).subset
      obtain ⟨hr, hws⟩ := prologWords_spec hwords
      have hnone : Declarations.Carried { standalone } := List.forall_mem_nil _
      have hd := Declarations.carried_of_prolog (fun w hw => ht.subset (hws w hw)) hnone hprolog
      exact carried_of_content hd (ht.subset hr.subset) h

end Reading

end DocumentSink.Xml
