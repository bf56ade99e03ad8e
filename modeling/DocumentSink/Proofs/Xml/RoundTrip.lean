import DocumentSink.Proofs.Xml.Written
import DocumentSink.Xml.Reader

/-!
Written markup reads back. Reading a written tree gives the tree itself, but that an element with
children has the line end before the first of them as its text. Main statement: `read_write`.
-/

namespace DocumentSink.Xml

mutual
/-- A tree as it stands on its lines: the text of an element with children is the line end before
them. -/
def laidOut (level : Nat) : Element → Element
  | .mk name text [] => .mk name text []
  | .mk name _ (e :: es) =>
    .mk name (.ofList (newLine (level + 1))) (laidOut (level + 1) e :: laidOutAll (level + 1) es)

def laidOutAll (level : Nat) : List Element → List Element
  | [] => []
  | e :: es => laidOut level e :: laidOutAll level es
end

section Content

variable (d : Declarations)

abbrev progress (p : Progress) (ts : List Token) : Option Progress := ts.foldlM (Progress.step d) p

theorem addText_nil (f : Frame) : f.addText [] = f := by
  rw [Frame.addText]
  split <;> rfl

theorem addText_cons (f : Frame) (c : Char) (s : List Char) :
    f.addText (c :: s) = (f.addText [c]).addText s := by
  by_cases h : f.children.isEmpty <;> simp [Frame.addText, h]

/-- Text after a child does not count. -/
theorem addText_of_children {f : Frame} (h : f.children ≠ []) (s : List Char) : f.addText s = f := by
  rw [Frame.addText, if_neg fun he => h (List.isEmpty_iff.1 he)]

theorem step_charToken (top : Frame) (outer : List Frame) (c : Char) :
    Progress.step d (.inside top outer) (charToken c) = some (.inside (top.addText [c]) outer) := by
  rw [charToken]
  split <;> rfl

theorem progress_textTokens (top : Frame) (outer : List Frame) (s : List Char) (ts : List Token) :
    progress d (.inside top outer) (textTokens s ++ ts) =
      progress d (.inside (top.addText s) outer) ts := by
  induction s generalizing top with
  | nil => rw [addText_nil]; rfl
  | cons c s ih =>
      rw [textTokens, List.map_cons, List.cons_append, progress, List.foldlM_cons, step_charToken,
        addText_cons top c s]
      exact ih (top.addText [c])

/-- The frame of a tag that has no attributes, written or declared, where no prefix is bound. -/
theorem frame_tag {tag : String} (hd : ∀ a ∈ d.attributes, a.element ≠ tag.toList)
    (h : isTag tag) :
    d.frame [] tag.toList [] = some { tag := tag.toList, name := ⟨"", tag⟩, scope := [] } := by
  have hcolon : ':' ∉ tag.toList := by
    intro hm
    have := isNameChar_of_mem_tag h ':' hm
    revert this
    decide
  have hdeclared : (d.attributes.filter fun a => a.element = tag.toList) = [] := by
    simpa using hd
  have hattributes : d.attributesOf tag.toList [] = some [] := by
    simp [Declarations.attributesOf, hdeclared]
  have hname : Scope.elementName? [] tag.toList = some ⟨"", tag⟩ := by
    simp [Scope.elementName?, Scope.parts, Text.cutFirst_of_not_mem hcolon, Scope.space?]
  have hbound : Scope.bindAll [] [] = some [] := rfl
  have hnames : Scope.attributeNames? [] [] = some [] := rfl
  simp [Declarations.frame, hattributes, hbound, hnames, hname]

def Frame.holding (f : Frame) (e : Element) : Frame :=
  { f with text := e.text.toList.reverse, children := e.children.reverse }

theorem element_holding {f : Frame} {e : Element} (h : f.name = e.name) :
    (f.holding e).element = e := by
  obtain ⟨name, text, children⟩ := e
  simp only [Element.name] at h
  simp [Frame.element, Frame.holding, Element.text, Element.children, h]

def openFrame (tag : String) : Frame := { tag := tag.toList, name := ⟨"", tag⟩, scope := [] }

theorem progress_opening (hd : d.attributes = []) {tag : String} (h : isTag tag) {top : Frame}
    (hscope : top.scope = []) (outer : List Frame) (ts : List Token) :
    progress d (.inside top outer) (.opening tag.toList [] :: ts) =
      progress d (.inside (openFrame tag) (top :: outer)) ts := by
  have hstep : Progress.step d (.inside top outer) (.opening tag.toList []) =
      some (.inside (openFrame tag) (top :: outer)) := by
    rw [Progress.step, hscope, frame_tag d (by simp [hd]) h]
    rfl
  rw [progress, List.foldlM_cons, hstep]
  rfl

theorem progress_closing {tag : String} {e : Element} (he : e.name = ⟨"", tag⟩) (next : Frame)
    (outer : List Frame) (ts : List Token) :
    progress d (.inside ((openFrame tag).holding e) (next :: outer)) (.closing tag.toList :: ts) =
      progress d (.inside (next.addChild e) outer) ts := by
  have helement : ((openFrame tag).holding e).element = e := element_holding he.symm
  have hstep : Progress.step d (.inside ((openFrame tag).holding e) (next :: outer))
      (.closing tag.toList) = some (.inside (next.addChild e) outer) := by
    rw [Progress.step, helement]
    exact if_pos rfl
  rw [progress, List.foldlM_cons, hstep]
  rfl

theorem name_laidOut (level : Nat) (e : Element) : (laidOut level e).name = e.name := by
  obtain ⟨name, text, _ | ⟨e, es⟩⟩ := e
  · rfl
  · rfl

mutual
/-- An element that is read becomes a child of the innermost open one. -/
theorem progress_element (hd : d.attributes = []) (level : Nat) : ∀ (e : Element), Writable e →
    ∀ (top : Frame), top.scope = [] → ∀ outer ts,
    progress d (.inside top outer) (elementTokens level e ++ ts) =
      progress d (.inside (top.addChild (laidOut level e)) outer) ts
  | .mk ⟨_, tag⟩ text children, ⟨rfl, htag, _, hchildren⟩, top, hscope, outer, ts => by
      have hname := name_laidOut level (.mk ⟨"", tag⟩ text children)
      rw [elementTokens, List.cons_append, List.append_assoc,
        progress_opening d hd htag hscope,
        progress_body hd level tag text children hchildren]
      exact progress_closing d hname top outer ts

theorem progress_body (hd : d.attributes = []) (level : Nat) (tag text : String) :
    ∀ (children : List Element), WritableAll children → ∀ outer ts,
    progress d (.inside (openFrame tag) outer) (bodyTokens level text children ++ ts) =
      progress d (.inside ((openFrame tag).holding (laidOut level (.mk ⟨"", tag⟩ text children)))
        outer) ts
  | [], _, outer, ts => by
      rw [bodyTokens, progress_textTokens]
      have he : (openFrame tag).addText text.toList =
          (openFrame tag).holding (laidOut level (.mk ⟨"", tag⟩ text [])) := by
        simp [Frame.addText, openFrame, Frame.holding, laidOut, Element.text, Element.children]
      rw [he]
  | e :: es, ⟨he, hes⟩, outer, ts => by
      have hfirst : (openFrame tag).addText (newLine (level + 1)) =
          { openFrame tag with text := (newLine (level + 1)).reverse } := by
        simp [Frame.addText, openFrame]
      rw [bodyTokens]
      simp only [List.append_assoc]
      rw [progress_textTokens, hfirst, progress_element hd (level + 1) e he _ rfl,
        progress_children hd (level + 1) es hes _ rfl (List.cons_ne_nil _ _),
        progress_textTokens, addText_of_children (by simp [Frame.addChild])]
      simp [Frame.addChild, openFrame, Frame.holding, laidOut, Element.text, Element.children]

theorem progress_children (hd : d.attributes = []) (level : Nat) : ∀ (es : List Element),
    WritableAll es → ∀ (top : Frame), top.scope = [] → top.children ≠ [] → ∀ outer ts,
    progress d (.inside top outer) (childTokens level es ++ ts) =
      progress d (.inside { top with children := (laidOutAll level es).reverse ++ top.children }
        outer) ts
  | [], _, top, _, _, outer, ts => rfl
  | e :: es, ⟨he, hes⟩, top, hscope, hne, outer, ts => by
      rw [childTokens]
      simp only [List.append_assoc]
      rw [progress_textTokens, addText_of_children hne, progress_element hd level e he top hscope,
        progress_children hd level es hes (top.addChild (laidOut level e)) hscope
          (List.cons_ne_nil _ _)]
      simp [Frame.addChild, laidOutAll]
end

/-- A document is read from its root. -/
theorem progress_root (hd : d.attributes = []) {e : Element} (h : Writable e) :
    progress d .start (elementTokens 0 e) = some (.done (laidOut 0 e)) := by
  obtain ⟨⟨space, tag⟩, text, children⟩ := e
  obtain ⟨rfl, htag, -, hchildren⟩ := h
  have hname := name_laidOut 0 (.mk ⟨"", tag⟩ text children)
  have hopen : Progress.step d .start (.opening tag.toList []) =
      some (.inside (openFrame tag) []) := by
    rw [Progress.step, frame_tag d (by simp [hd]) htag]
    rfl
  have helement : ((openFrame tag).holding (laidOut 0 (.mk ⟨"", tag⟩ text children))).element =
      laidOut 0 (.mk ⟨"", tag⟩ text children) := element_holding hname.symm
  have hclose : Progress.step d
      (.inside ((openFrame tag).holding (laidOut 0 (.mk ⟨"", tag⟩ text children))) [])
      (.closing tag.toList) = some (.done (laidOut 0 (.mk ⟨"", tag⟩ text children))) := by
    rw [Progress.step, helement]
    exact if_pos rfl
  rw [elementTokens, progress, List.foldlM_cons, hopen, Option.bind_eq_bind, Option.bind_some]
  change progress d _ _ = _
  rw [progress_body d hd 0 tag text children hchildren, progress, List.foldlM_cons, hclose]
  rfl

theorem flatten_mapM_self {f : Token → Option (List Token)} {ts : List Token}
    (h : ∀ t ∈ ts, f t = some [t]) : List.flatten <$> ts.mapM f = some ts := by
  induction ts with
  | nil => rfl
  | cons t ts ih =>
      rw [List.forall_mem_cons] at h
      have hrest := ih h.2
      simp only [Option.map_eq_map, Option.map_eq_some_iff] at hrest ⊢
      obtain ⟨us, hus, hflat⟩ := hrest
      exact ⟨[t] :: us, by simp [h.1, hus], by simp [hflat]⟩

/-- Tokens without references to declared entities stand for themselves. -/
theorem expand_of_no_entity {ts : List Token} (h : ∀ name, Token.text (.entity name) ∉ ts) :
    d.expand ts = some ts := by
  have hself (inner : List Char → Option (List Token)) :
      ∀ t ∈ ts, d.tokensOf inner t = some [t] := by
    intro t ht
    rw [Declarations.tokensOf]
    rintro name rfl
    exact h name ht
  rw [Declarations.expand]
  cases d.depth with
  | zero => exact flatten_mapM_self (hself _)
  | succ n => exact flatten_mapM_self (hself _)

theorem no_entity_text (name : List Char) (s : List Char) :
    Token.text (.entity name) ∉ textTokens s := by
  intro h
  obtain ⟨c, -, hc⟩ := List.mem_map.1 h
  rw [charToken] at hc
  split at hc
  · cases hc
  · cases hc

mutual
theorem no_entity_element (name : List Char) (level : Nat) : ∀ e : Element,
    Token.text (.entity name) ∉ elementTokens level e
  | .mk _ text children => by
      have hbody := no_entity_body name level text children
      simp [elementTokens, hbody]

theorem no_entity_body (name : List Char) (level : Nat) (text : String) : ∀ es : List Element,
    Token.text (.entity name) ∉ bodyTokens level text es
  | [] => no_entity_text name text.toList
  | e :: es => by
      have he := no_entity_element name (level + 1) e
      have hes := no_entity_children name (level + 1) es
      simp [bodyTokens, no_entity_text, he, hes]

theorem no_entity_children (name : List Char) (level : Nat) : ∀ es : List Element,
    Token.text (.entity name) ∉ childTokens level es
  | [] => List.not_mem_nil
  | e :: es => by
      have he := no_entity_element name level e
      have hes := no_entity_children name level es
      simp [childTokens, no_entity_text, he, hes]
end

theorem tokens_nil : tokens [] = some [] := by rw [tokens]; rfl

theorem content_write (ha : d.attributes = []) {e : Element} (h : Writable e) :
    content d (write 0 e) = some (laidOut 0 e) := by
  have htokens : tokens (write 0 e) = some (elementTokens 0 e) := by
    have := tokens_write 0 e h []
    rwa [List.append_nil, tokens_nil, Option.map_some, List.append_nil] at this
  have hexpand := expand_of_no_entity d fun name => no_entity_element name 0 e
  have hroot := progress_root d ha h
  rw [progress] at hroot
  simp [content, htokens, hexpand, hroot]

end Content

section Characters

theorem isChar_of_isNameChar {c : Char} (h : isNameChar c) : isChar c ∧ c ≠ '\r' := by
  have hletters : ∀ r ∈ letterRanges, r.2 ≤ 0xD7FF := by decide +kernel
  have hmarks : ∀ r ∈ markRanges, r.2 ≤ 0xD7FF := by decide +kernel
  have hbounds : 0x20 ≤ c.toNat ∧ c.toNat ≤ 0xD7FF := by
    unfold isNameChar at h
    split at h
    · next hascii =>
        refine ⟨?_, by omega⟩
        by_contra hlow
        have hnone : ∀ n < 0x20, isNameChar (Char.ofNat n) = false := by decide
        have := hnone c.toNat (by omega)
        rw [Char.ofNat_toNat, isNameChar, if_pos hascii] at this
        rw [this] at h
        cases h
    · next hhigh =>
        rcases Bool.or_eq_true_iff.1 h with h | h
        · have := Text.le_of_inRanges hletters h
          omega
        · have := Text.le_of_inRanges hmarks h
          omega
  constructor
  · simp [isChar, hbounds]
  · rintro rfl
    exact absurd hbounds.1 (by decide)

def IsPlain (s : List Char) : Prop := ∀ c ∈ s, isChar c ∧ c ≠ '\r'

theorem isPlain_of_all {s : List Char} (h : s.all fun c => isChar c && c ≠ '\r') : IsPlain s := by
  intro c hc
  have := List.all_eq_true.1 h c hc
  rwa [Bool.and_eq_true, decide_eq_true_eq] at this

theorem IsPlain.nil : IsPlain [] := fun _ h => absurd h List.not_mem_nil

theorem IsPlain.append {s t : List Char} (hs : IsPlain s) (ht : IsPlain t) : IsPlain (s ++ t) := by
  intro c hc
  rcases List.mem_append.1 hc with hc | hc
  · exact hs c hc
  · exact ht c hc

theorem IsPlain.cons {c : Char} {s : List Char} (hc : isChar c ∧ c ≠ '\r') (hs : IsPlain s) :
    IsPlain (c :: s) := by
  intro d hd
  rcases List.mem_cons.1 hd with rfl | hd
  · exact hc
  · exact hs d hd

theorem isPlain_newLine (level : Nat) : IsPlain (newLine level) := by
  apply IsPlain.cons (by decide)
  intro c hc
  rw [List.eq_of_mem_replicate hc]
  decide

theorem isPlain_escapedChar {c : Char} (h : isChar c) : IsPlain (escapedChar c) := by
  unfold escapedChar
  split
  · exact isPlain_of_all (by decide)
  · split
    · exact isPlain_of_all (by decide)
    · split
      · exact isPlain_of_all (by decide)
      · split
        · exact isPlain_of_all (by decide)
        · next hcr => exact .cons ⟨h, hcr⟩ .nil

theorem isPlain_escaped {s : List Char} (h : ∀ c ∈ s, isChar c) : IsPlain (escaped s) := by
  intro d hd
  obtain ⟨c, hc, hd⟩ := List.mem_flatMap.1 hd
  exact isPlain_escapedChar (h c hc) d hd

theorem isPlain_tag {tag : String} (h : isTag tag) : IsPlain tag.toList :=
  fun c hc => isChar_of_isNameChar (isNameChar_of_mem_tag h c hc)

theorem isPlain_leaf {name : Name} {text : String} (level : Nat) (htag : isTag name.label)
    (htext : ∀ c ∈ text.toList, isChar c) : IsPlain (write level (.mk name text [])) := by
  have hname := isPlain_tag htag
  have hescaped := isPlain_escaped htext
  have hclose : IsPlain ['>'] := .cons (by decide) .nil
  rw [← List.append_nil (write level _)]
  by_cases ht : text.toList = []
  · rw [write_empty level ht]
    exact .cons (by decide) (hname.append (.cons (by decide) (.cons (by decide) hclose)))
  · rw [write_leaf level ht]
    exact .cons (by decide) (hname.append (.cons (by decide) (hescaped.append
      (.cons (by decide) (.cons (by decide) (hname.append hclose))))))

mutual
theorem isPlain_write (level : Nat) : ∀ e : Element, Writable e → IsPlain (write level e)
  | .mk name text [], ⟨_, htag, htext, _⟩ => isPlain_leaf level htag (htext rfl)
  | .mk name text (e :: es), ⟨_, htag, _, hchildren⟩ => by
      have hname := isPlain_tag htag
      have hclose : IsPlain ['>'] := .cons (by decide) .nil
      have hrest := isPlain_writeAll (level + 1) (e :: es) hchildren
      rw [write.eq_def]
      simp only [List.cons_append, List.append_assoc]
      exact .cons (by decide) (hname.append (.cons (by decide) (hrest.append
        ((isPlain_newLine level).append (.cons (by decide) (.cons (by decide)
          (hname.append hclose)))))))

theorem isPlain_writeAll (level : Nat) : ∀ es : List Element, WritableAll es →
    IsPlain (writeAll level es)
  | [], _ => .nil
  | e :: es, ⟨he, hes⟩ =>
      ((isPlain_newLine level).append (isPlain_write level e he)).append
        (isPlain_writeAll level es hes)
end

theorem write_root {e : Element} (h : Writable e) (level : Nat) :
    ∃ c s, write level e = '<' :: c :: s ∧ isNameStart c := by
  obtain ⟨name, text, children⟩ := e
  obtain ⟨c, t, ht, hc, -⟩ := toList_of_isTag h.2.1
  rw [write.eq_def]
  dsimp only
  rw [ht]
  split
  · exact ⟨c, _, rfl, hc⟩
  · exact ⟨c, _, rfl, hc⟩
  · exact ⟨c, _, rfl, hc⟩

end Characters

/-- Reading a written tree gives the tree on its lines. -/
theorem read_write {e : Element} (h : Writable e) : read (write 0 e) = some (laidOut 0 e) := by
  obtain ⟨c, s, hs, hc⟩ := write_root h 0
  have hplain := isPlain_write 0 e h
  have hcontent := content_write { standalone := false } rfl h
  rw [hs] at hplain hcontent ⊢
  have hmark : dropMark ('<' :: c :: s) = '<' :: c :: s := rfl
  have hlines : Text.lineFeeds ('<' :: c :: s) = '<' :: c :: s :=
    Text.lineFeeds_of_no_return fun hr => (hplain _ hr).2 rfl
  have hall : ('<' :: c :: s).all isChar = true := List.all_eq_true.2 fun d hd => (hplain d hd).1
  have hfirst : takeFirstLine ('<' :: c :: s) = some (false, '<' :: c :: s) := by
    have hne : c ≠ '?' := by
      rintro rfl
      revert hc
      decide
    rw [takeFirstLine]
    intro _ _ heq
    exact absurd (List.cons.inj (List.cons.inj heq).2).1 hne
  have hwords : prologWords ('<' :: c :: s) = some ([], '<' :: c :: s) := by
    rw [prologWords, if_neg (by decide), if_pos (show atElement ('<' :: c :: s) from hc)]
  simp [read, hmark, hlines, hall, hfirst, hwords, Declarations.prolog, hcontent]

section Parts

theorem laidOutAll_eq_map (level : Nat) (es : List Element) :
    laidOutAll level es = es.map (laidOut level) := by
  induction es with
  | nil => rfl
  | cons e es ih => rw [laidOutAll, ih, List.map_cons]

theorem children_laidOut (level : Nat) (e : Element) :
    (laidOut level e).children = e.children.map (laidOut (level + 1)) := by
  obtain ⟨name, text, _ | ⟨e, es⟩⟩ := e
  · rfl
  · exact laidOutAll_eq_map (level + 1) (e :: es)

theorem hasTag_laidOut (tag : String) (level : Nat) (e : Element) :
    (laidOut level e).hasTag tag = e.hasTag tag := by
  rw [Element.hasTag, name_laidOut, Element.hasTag]

theorem find?_root {tag : String} {e : Element} (h : e.name = ⟨"", tag⟩) :
    e.find? tag = some e := by
  obtain ⟨name, text, children⟩ := e
  exact if_pos h

theorem writableAll_iff {es : List Element} : WritableAll es ↔ ∀ e ∈ es, Writable e := by
  induction es with
  | nil => simp [WritableAll]
  | cons e es ih => simp [WritableAll, ih]

theorem writable_leaf {tag text : String} (htag : isTag tag) (htext : ∀ c ∈ text.toList, isChar c) :
    Writable (.leaf tag text) :=
  ⟨rfl, htag, fun _ => htext, trivial⟩

theorem writable_group {tag : String} {es : List Element} (htag : isTag tag)
    (h : ∀ e ∈ es, Writable e) : Writable (.group tag es) :=
  ⟨rfl, htag, fun _ _ hc => absurd hc List.not_mem_nil, writableAll_iff.2 h⟩

end Parts

end DocumentSink.Xml
