import DocumentSink.Proofs.Relevance
import DocumentSink.Proofs.Xml.Scanning

/-!
Comments and white space between tags. Comments leave no token, and white space is text of the
element that it stands in; where a load does not read that text, it may change. Main statement: what
may change in markup without changing its load.
-/

namespace DocumentSink

open Xml (Element Frame Progress)

namespace Markup

/-- The codes of the elements whose texts a load reads. -/
def textCodes : List String := Step.optionCodes ++ Step.fieldCodes ++ Step.indexCodes

def isRead (name : Xml.Name) : Bool := name.space.isEmpty && textCodes.contains name.label

mutual
/-- A tree without the texts that a load does not read. -/
def bare : Element → Element
  | .mk name text children => .mk name (if isRead name then text else "") (bareAll children)

def bareAll : List Element → List Element
  | [] => []
  | e :: es => bare e :: bareAll es
end

theorem bareAll_eq_map (es : List Element) : bareAll es = es.map bare := by
  induction es with
  | nil => rfl
  | cons e es ih => rw [bareAll, ih, List.map_cons]

@[simp] theorem name_bare (e : Element) : (bare e).name = e.name := by
  obtain ⟨name, text, children⟩ := e
  rfl

@[simp] theorem children_bare (e : Element) : (bare e).children = e.children.map bare := by
  obtain ⟨name, text, children⟩ := e
  exact bareAll_eq_map children

theorem text_bare {e : Element} (h : isRead e.name = true) : (bare e).text = e.text := by
  obtain ⟨name, text, children⟩ := e
  exact if_pos h

section Load

variable {e : Element} {tag entryTag : String} {codes : List String}

@[simp] theorem hasTag_comp_bare (tag : String) :
    Element.hasTag tag ∘ bare = Element.hasTag tag := by
  funext e
  exact hasTag_eq_of_name (name_bare e) tag

theorem child?_bare (tag : String) (e : Element) :
    (bare e).child? tag = (e.child? tag).map bare := by
  rw [Element.child?, Element.child?, children_bare, List.find?_map, hasTag_comp_bare]

theorem childrenWith_bare (tag : String) (e : Element) :
    (bare e).childrenWith tag = (e.childrenWith tag).map bare := by
  rw [Element.childrenWith, Element.childrenWith, children_bare, List.filter_map, hasTag_comp_bare]

theorem sameTexts_bare (hcodes : codes ⊆ textCodes) (e : Element) : SameTexts codes e (bare e) := by
  intro code hcode
  rw [Element.childText?, Element.childText?, child?_bare]
  cases hc : e.child? code with
  | none => rfl
  | some c =>
      have htag : c.hasTag code = true := List.find?_some hc
      have hname : c.name = ⟨"", code⟩ := of_decide_eq_true htag
      have hread : isRead c.name = true := by
        rw [hname, isRead]
        simpa using hcodes hcode
      exact congrArg some (text_bare hread).symm

theorem entriesOf_bare (tag entryTag : String) (e : Element) :
    entriesOf tag entryTag (bare e) = (entriesOf tag entryTag e).map bare := by
  rw [entriesOf, entriesOf, child?_bare]
  cases e.child? tag with
  | none => rfl
  | some g => exact childrenWith_bare entryTag g

/-- A step without the texts that a load does not read is as good. -/
theorem sameStep_bare (e : Element) : SameStep e (bare e) := by
  have hentries {tag entryTag : String} {codes : List String} (hcodes : codes ⊆ textCodes) :
      List.Forall₂ (SameTexts codes) (entriesOf tag entryTag e)
        (entriesOf tag entryTag (bare e)) := by
    rw [entriesOf_bare, List.forall₂_map_right_iff, List.forall₂_same]
    exact fun c _ => sameTexts_bare hcodes c
  refine ⟨sameTexts_bare ?_ e, hentries ?_, hentries ?_⟩
  · exact fun c hc => List.mem_append_left _ (List.mem_append_left _ hc)
  · exact fun c hc => List.mem_append_left _ (List.mem_append_right _ hc)
  · exact fun c hc => List.mem_append_right _ hc

mutual
theorem find?_bare (tag : String) : ∀ e : Element, (bare e).find? tag = (e.find? tag).map bare
  | .mk name text children => by
      rw [bare, Element.find?, Element.find?, findIn?_bare tag children]
      split <;> rfl

theorem findIn?_bare (tag : String) : ∀ es : List Element,
    Element.findIn? tag (bareAll es) = (Element.findIn? tag es).map bare
  | [] => rfl
  | e :: es => by
      rw [bareAll, Element.findIn?, Element.findIn?, find?_bare tag e, findIn?_bare tag es]
      cases e.find? tag <;> rfl
end

theorem outcome_bare (root : Element) : outcome (bare root) = outcome root := by
  cases hstep : root.find? stepTag with
  | none => rw [outcome, outcome, find?_bare, hstep]; rfl
  | some e =>
      have hbare : (bare root).find? stepTag = some (bare e) := by rw [find?_bare, hstep]; rfl
      exact ((sameStep_bare e).outcome_eq hstep hbare).symm

end Load

def bareFrame (f : Frame) : Frame :=
  { f with text := if isRead f.name then f.text else [], children := f.children.map bare }

def bareProgress : Progress → Progress
  | .start => .start
  | .inside top outer => .inside (bareFrame top) (outer.map bareFrame)
  | .done root => .done (bare root)

section Reading

variable {d : Xml.Declarations} {f : Frame}

mutual
theorem bare_bare : ∀ e : Element, bare (bare e) = bare e
  | .mk name text children => by
      rw [bare, bare, bareAll_bareAll children]
      split <;> rfl

theorem bareAll_bareAll : ∀ es : List Element, bareAll (bareAll es) = bareAll es
  | [] => rfl
  | e :: es => by rw [bareAll, bareAll, bare_bare e, bareAll_bareAll es]
end

theorem map_bare_map_bare (es : List Element) : (es.map bare).map bare = es.map bare := by
  rw [← bareAll_eq_map, ← bareAll_eq_map, bareAll_bareAll]

theorem bareFrame_bareFrame (f : Frame) : bareFrame (bareFrame f) = bareFrame f := by
  rw [bareFrame, bareFrame, map_bare_map_bare]
  dsimp only
  split <;> rfl

theorem map_bareFrame_map_bareFrame (fs : List Frame) :
    (fs.map bareFrame).map bareFrame = fs.map bareFrame := by
  rw [List.map_map]
  exact List.map_congr_left fun f _ => bareFrame_bareFrame f

theorem bareFrame_addText (f : Frame) (s : List Char) :
    bareFrame ((bareFrame f).addText s) = bareFrame (f.addText s) := by
  have hempty : (bareFrame f).children.isEmpty = f.children.isEmpty := List.isEmpty_map
  rw [Frame.addText, Frame.addText, hempty]
  split
  · rw [bareFrame, bareFrame, bareFrame, map_bare_map_bare]
    dsimp only
    split <;> rfl
  · exact bareFrame_bareFrame f

theorem bare_element (f : Frame) : bare (bareFrame f).element = bare f.element := by
  rw [Frame.element, Frame.element, bareFrame, bare, bare, bareAll_eq_map, bareAll_eq_map,
    ← List.map_reverse, map_bare_map_bare]
  split <;> rfl

theorem bareFrame_addChild (f : Frame) {e e' : Element} (h : bare e = bare e') :
    bareFrame ((bareFrame f).addChild e) = bareFrame (f.addChild e') := by
  rw [Frame.addChild, Frame.addChild, bareFrame, bareFrame, bareFrame, List.map_cons,
    List.map_cons, map_bare_map_bare, h]
  dsimp only
  split <;> rfl

/-- A token is read in the same way where texts are missing that a load does not read. -/
theorem step_bare (P : Progress) (t : Xml.Token) :
    ((bareProgress P).step d t).map bareProgress = (P.step d t).map bareProgress := by
  cases P with
  | start => rfl
  | inside top outer =>
      cases t with
      | opening tag attributes =>
          have hscope : (bareFrame top).scope = top.scope := rfl
          rw [bareProgress, Progress.step, Progress.step, hscope]
          cases d.frame top.scope tag attributes with
          | none => rfl
          | some f =>
              refine congrArg some (congrArg (Progress.inside (bareFrame f)) ?_)
              rw [List.map_cons, List.map_cons, bareFrame_bareFrame, map_bareFrame_map_bareFrame]
      | closing tag =>
          have htag : (bareFrame top).tag = top.tag := rfl
          cases outer with
          | nil =>
              have hroot := congrArg Progress.done (bare_element top)
              rw [bareProgress, List.map_nil, Progress.step, Progress.step, htag]
              split
              · exact congrArg some hroot
              · rfl
          | cons next outer =>
              have hnext := bareFrame_addChild next (bare_element top)
              rw [bareProgress, List.map_cons, Progress.step, Progress.step, htag]
              split
              · refine congrArg some ?_
                rw [bareProgress, bareProgress, hnext, map_bareFrame_map_bareFrame]
              · rfl
      | text piece =>
          cases piece with
          | entity name => rfl
          | char c =>
              refine congrArg some ?_
              rw [bareProgress, bareProgress, bareFrame_addText, map_bareFrame_map_bareFrame]
          | data s =>
              refine congrArg some ?_
              rw [bareProgress, bareProgress, bareFrame_addText, map_bareFrame_map_bareFrame]
  | done root =>
      cases t with
      | opening tag attributes => rfl
      | closing tag => rfl
      | text piece =>
          cases piece with
          | entity name => rfl
          | data s => rfl
          | char c =>
              rw [bareProgress, Progress.step, Progress.step]
              split
              · exact congrArg (fun e => some (Progress.done e)) (bare_bare root)
              · rfl

theorem run_bare (ts : List Xml.Token) (P Q : Progress) (h : bareProgress P = bareProgress Q) :
    (ts.foldlM (Progress.step d) P).map bareProgress =
      (ts.foldlM (Progress.step d) Q).map bareProgress := by
  induction ts generalizing P Q with
  | nil => exact congrArg some h
  | cons t ts ih =>
      have hstep : (P.step d t).map bareProgress = (Q.step d t).map bareProgress := by
        rw [← step_bare P, h, step_bare]
      rw [List.foldlM_cons, List.foldlM_cons]
      cases hP : P.step d t with
      | none =>
          rw [hP] at hstep
          rw [Option.map_eq_none_iff.1 hstep.symm]
      | some P' =>
          rw [hP] at hstep
          obtain ⟨Q', hQ, hbare⟩ := Option.map_eq_some_iff.1 hstep.symm
          rw [hQ]
          exact ih P' Q' hbare.symm

/-- What is text here is not read by a load: the innermost open element is none whose text is, or
has a child already, or there is none behind the root. -/
def Unread : Progress → Prop
  | .start => False
  | .inside top _ => isRead top.name = false ∨ top.children ≠ []
  | .done _ => True

theorem space_unread {P : Progress} {c : Char} (hP : Unread P) (hc : Xml.isSpace c = true) :
    ∃ Q, P.step d (.text (.char c)) = some Q ∧ Unread Q ∧ bareProgress Q = bareProgress P := by
  cases P with
  | start => exact absurd hP id
  | done root => exact ⟨.done root, if_pos hc, trivial, rfl⟩
  | inside top outer =>
      rcases hP with hread | hchildren
      · have hname : (top.addText [c]).name = top.name := by
          rw [Frame.addText]
          split <;> rfl
        have htop : bareFrame (top.addText [c]) = bareFrame top := by
          rw [Frame.addText]
          split
          · rw [bareFrame, bareFrame]
            simp only [hread]
            rfl
          · rfl
        refine ⟨.inside (top.addText [c]) outer, rfl, .inl (hname ▸ hread), ?_⟩
        rw [bareProgress, bareProgress, htop]
      · have htop := Xml.addText_of_children hchildren [c]
        refine ⟨.inside top outer, ?_, .inr hchildren, rfl⟩
        rw [Progress.step, htop]

theorem spaces_unread {P : Progress} (hP : Unread P) {spaces : List Char}
    (hspaces : ∀ c ∈ spaces, Xml.isSpace c = true) :
    ∃ Q, (Xml.spaceTokens spaces).foldlM (Progress.step d) P = some Q ∧
      bareProgress Q = bareProgress P := by
  induction spaces generalizing P with
  | nil => exact ⟨P, rfl, rfl⟩
  | cons c spaces ih =>
      rw [List.forall_mem_cons] at hspaces
      obtain ⟨P', hstep, hunread, hbare⟩ := space_unread hP hspaces.1
      obtain ⟨Q, hQ, hbare'⟩ := ih hunread hspaces.2
      refine ⟨Q, ?_, hbare'.trans hbare⟩
      rw [Xml.spaceTokens, List.map_cons, List.foldlM_cons, hstep]
      exact hQ

end Reading

section Contents

variable {d : Xml.Declarations} {p w r s s' : List Char} {ts us : List Xml.Token}

/-- Reads tokens as the content of a document goes on. -/
def resume (d : Xml.Declarations) (P : Progress) (ts : List Xml.Token) : Option Progress := do
  (← d.expand ts).foldlM (Progress.step d) P

def finished? : Progress → Option Element
  | .done root => some root
  | _ => none

theorem content_eq (d : Xml.Declarations) (s : List Char) :
    Xml.content d s = Xml.tokens s >>= fun ts => resume d .start ts >>= finished? := by
  rw [Xml.content]
  simp only [resume, bind_assoc]
  rfl

theorem flatten_mapM_append (f : Xml.Token → Option (List Xml.Token)) (ts us : List Xml.Token) :
    List.flatten <$> (ts ++ us).mapM f =
      do return (← List.flatten <$> ts.mapM f) ++ (← List.flatten <$> us.mapM f) := by
  rw [List.mapM_append]
  cases ts.mapM f with
  | none => rfl
  | some vs =>
      cases us.mapM f with
      | none => rfl
      | some ws => simp

theorem expand_append (d : Xml.Declarations) (ts us : List Xml.Token) :
    d.expand (ts ++ us) = do return (← d.expand ts) ++ (← d.expand us) := by
  rw [Xml.Declarations.expand, Xml.Declarations.expand, Xml.Declarations.expand]
  cases d.depth with
  | zero => exact flatten_mapM_append _ ts us
  | succ n => exact flatten_mapM_append _ ts us

theorem resume_append (P : Progress) (ts us : List Xml.Token) :
    resume d P (ts ++ us) = resume d P ts >>= fun Q => resume d Q us := by
  simp only [resume, expand_append]
  cases d.expand ts with
  | none => rfl
  | some vs =>
      cases d.expand us with
      | none => simp
      | some ws => simp [List.foldlM_append]

theorem resume_spaces (P : Progress) (spaces : List Char) :
    resume d P (Xml.spaceTokens spaces) =
      (Xml.spaceTokens spaces).foldlM (Progress.step d) P := by
  have hnone (name : List Char) :
      Xml.Token.text (.entity name) ∉ Xml.spaceTokens spaces := by
    intro hmem
    obtain ⟨c, -, hc⟩ := List.mem_map.1 hmem
    cases hc
  rw [resume, Xml.expand_of_no_entity d hnone]
  rfl

theorem finished_bare (P : Progress) : (finished? P).map bare = finished? (bareProgress P) := by
  cases P <;> rfl

theorem resume_bare {P Q : Progress} (h : bareProgress P = bareProgress Q) (ts : List Xml.Token) :
    (resume d P ts >>= finished?).map bare = (resume d Q ts >>= finished?).map bare := by
  have hbind (o : Option Progress) :
      (o >>= finished?).map bare = o.map bareProgress >>= finished? := by
    cases o with
    | none => rfl
    | some P => exact finished_bare P
  rw [hbind, hbind, resume, resume]
  cases d.expand ts with
  | none => rfl
  | some us => exact congrArg (· >>= finished?) (run_bare us P Q h)

/-- Filler whose white space leaves all that is read leaves all that a load reads. -/
theorem content_insert {spaces : List Char} (hscan : Xml.Scans (p ++ r) ts r)
    (hw : Xml.IsFiller w) (hspaces : Xml.Scans (w ++ r) (Xml.spaceTokens spaces) r)
    (hkeep : ∀ P, resume d .start ts = some P →
      ∃ Q, Xml.progress d P (Xml.spaceTokens spaces) = some Q ∧ bareProgress Q = bareProgress P) :
    (Xml.content d (p ++ (w ++ r))).map bare = (Xml.content d (p ++ r)).map bare := by
  have hscan' := (Xml.scans_insert hscan hw).trans hspaces
  rw [content_eq, content_eq, hscan.tokens_eq, hscan'.tokens_eq]
  cases Xml.tokens r with
  | none => rfl
  | some us =>
      change (resume d .start (ts ++ Xml.spaceTokens spaces ++ us) >>= finished?).map bare =
        (resume d .start (ts ++ us) >>= finished?).map bare
      rw [resume_append, resume_append, resume_append]
      cases hP : resume d .start ts with
      | none => rfl
      | some P =>
          obtain ⟨Q, hQ, hbare⟩ := hkeep P hP
          have hQ' : resume d P (Xml.spaceTokens spaces) = some Q :=
            (resume_spaces P spaces).trans hQ
          change ((resume d P (Xml.spaceTokens spaces) >>= fun Q => resume d Q us) >>=
            finished?).map bare = (resume d P us >>= finished?).map bare
          rw [hQ']
          exact resume_bare hbare us

/-- A frame behind all open elements. -/
def within (f : Frame) : Progress → Progress
  | .start => .inside f []
  | .inside top outer => .inside top (outer ++ [f])
  | .done root => .inside (f.addChild root) []

/-- What is read as a document is read in the same way inside an element that binds no prefix. -/
theorem step_within {f : Frame} (hf : f.scope = []) {P Q : Progress} {t : Xml.Token}
    (h : P.step d t = some Q) : (within f P).step d t = some (within f Q) := by
  cases P with
  | start =>
      cases t with
      | opening tag attributes =>
          obtain ⟨g, hg, heq⟩ := Option.bind_eq_some_iff.1 h
          cases heq
          rw [within, Progress.step, hf, hg]
          rfl
      | closing tag => cases h
      | text piece => cases h
  | inside top outer =>
      cases t with
      | opening tag attributes =>
          obtain ⟨g, hg, heq⟩ := Option.bind_eq_some_iff.1 h
          cases heq
          rw [within, Progress.step, hg]
          rfl
      | closing tag =>
          cases outer with
          | nil =>
              rw [Progress.step] at h
              split at h
              · next htag =>
                  cases h
                  exact if_pos htag
              · cases h
          | cons next outer =>
              rw [Progress.step] at h
              split at h
              · next htag =>
                  cases h
                  exact if_pos htag
              · cases h
      | text piece =>
          cases piece with
          | entity name => cases h
          | char c =>
              cases h
              rfl
          | data s =>
              cases h
              rfl
  | done root =>
      cases t with
      | opening tag attributes => cases h
      | closing tag => cases h
      | text piece =>
          cases piece with
          | entity name => cases h
          | data s => cases h
          | char c =>
              rw [Progress.step] at h
              split at h
              · cases h
                have htext : (f.addChild root).addText [c] = f.addChild root :=
                  Xml.addText_of_children (List.cons_ne_nil _ _) [c]
                rw [within, Progress.step, htext]
              · cases h

theorem progress_within {f : Frame} (hf : f.scope = []) {P Q : Progress}
    (h : Xml.progress d P ts = some Q) : Xml.progress d (within f P) ts = some (within f Q) := by
  induction ts generalizing P with
  | nil =>
      cases h
      rfl
  | cons t ts ih =>
      rw [Xml.progress, List.foldlM_cons] at h ⊢
      obtain ⟨P', hstep, hrest⟩ := Option.bind_eq_some_iff.1 h
      rw [step_within hf hstep]
      exact ih hrest

theorem resume_within {f : Frame} (hf : f.scope = []) {P Q : Progress}
    (h : resume d P ts = some Q) : resume d (within f P) ts = some (within f Q) := by
  obtain ⟨us, hus, hrun⟩ := Option.bind_eq_some_iff.1 h
  rw [resume, hus]
  exact progress_within hf hrun

theorem resume_tag {t : Xml.Token} (ht : ∀ piece, t ≠ .text piece) (P : Progress) :
    resume d P [t] = P.step d t := by
  have hnone (name : List Char) : Xml.Token.text (.entity name) ∉ [t] := by
    rw [List.mem_singleton]
    exact (ht _).symm
  rw [resume, Xml.expand_of_no_entity d hnone]
  change [t].foldlM (Progress.step d) P = P.step d t
  rw [List.foldlM_cons]
  cases P.step d t <;> rfl

/-- A content inside a tag without attributes. -/
def wrapped (tag : String) (s : List Char) : List Char :=
  '<' :: (tag.toList ++ '>' :: (s ++ '<' :: '/' :: (tag.toList ++ ['>'])))

theorem tokens_wrapped {tag : String} (htag : Xml.isTag tag) (h : Xml.tokens s = some ts) :
    Xml.tokens (wrapped tag s) =
      some ([.opening tag.toList []] ++ ts ++ [.closing tag.toList]) := by
  -- The closing tag comes where the end of the text was.
  obtain ⟨p, hp, hagain⟩ := (Xml.scans_of_tokens h).again
  rw [List.append_nil] at hp
  subst hp
  have hinner := hagain ('<' :: '/' :: (tag.toList ++ ['>'])) (by simp)
  rw [wrapped, Xml.tokens_of_next (Xml.nextTokens_opening htag _), hinner.tokens_eq,
    Xml.tokens_of_next (Xml.nextTokens_closing htag []), Xml.tokens_nil]
  simp

theorem resume_wrapped {tag : String} (htag : Xml.isTag tag)
    (hd : ∀ a ∈ d.attributes, a.element ≠ tag.toList) {root : Element}
    (h : resume d .start ts = some (.done root)) :
    resume d .start ([.opening tag.toList []] ++ ts ++ [.closing tag.toList]) =
      some (.done (.mk ⟨"", tag⟩ "" [root])) := by
  have hopening : resume d .start [.opening tag.toList []] =
      some (within (Xml.openFrame tag) .start) := by
    rw [resume_tag (fun _ => by simp), Progress.step, Xml.frame_tag d hd htag]
    rfl
  have hclosing : resume d (within (Xml.openFrame tag) (.done root)) [.closing tag.toList] =
      some (.done (.mk ⟨"", tag⟩ "" [root])) := by
    have hname : ((Xml.openFrame tag).addChild root).tag = tag.toList := rfl
    rw [resume_tag (fun _ => by simp), within, Progress.step, if_pos hname]
    rfl
  rw [resume_append, resume_append, hopening]
  change (resume d _ ts >>= fun Q => resume d Q [.closing tag.toList]) = _
  rw [resume_within rfl h]
  exact hclosing

/-- A content inside a tag is that of an element around its root. -/
theorem content_wrapped {tag : String} (htag : Xml.isTag tag)
    (hd : ∀ a ∈ d.attributes, a.element ≠ tag.toList) {root : Element}
    (h : Xml.content d s = some root) :
    Xml.content d (wrapped tag s) = some (.mk ⟨"", tag⟩ "" [root]) := by
  obtain ⟨ts, hts, h⟩ := Option.bind_eq_some_iff.1 ((content_eq d s).symm.trans h)
  obtain ⟨P, hP, hroot⟩ := Option.bind_eq_some_iff.1 h
  have hdone : P = .done root := by
    cases P with
    | start => cases hroot
    | inside top outer => cases hroot
    | done root' =>
        cases hroot
        rfl
  rw [hdone] at hP
  rw [content_eq, tokens_wrapped htag hts]
  change resume d .start _ >>= finished? = _
  rw [resume_wrapped htag hd hP]
  rfl

end Contents

/-- A change of a content: a comment between two tokens, comments and white space where the text is
not read, or a tag around it that is not that of a step and has no attributes. -/
inductive ContentEdit (d : Xml.Declarations) : List Char → List Char → Prop
  | comment (p w r : List Char) (ts : List Xml.Token) (hscan : Xml.Scans (p ++ r) ts r)
      (hw : Xml.IsComment w) : ContentEdit d (p ++ r) (p ++ (w ++ r))
  | filler (p w r : List Char) (ts : List Xml.Token) (hscan : Xml.Scans (p ++ r) ts r)
      (hplace : ∀ P, resume d .start ts = some P → Unread P) (hw : Xml.IsFiller w) :
      ContentEdit d (p ++ r) (p ++ (w ++ r))
  | wrap (s : List Char) (root : Element) (tag : String) (hs : Xml.content d s = some root)
      (hroot : (root.find? stepTag).isSome = true) (htag : Xml.isTag tag = true)
      (hne : tag ≠ stepTag) (hd : ∀ a ∈ d.attributes, a.element ≠ tag.toList) :
      ContentEdit d s (wrapped tag s)

theorem ContentEdit.outcome_eq {d : Xml.Declarations} {s s' : List Char} (h : ContentEdit d s s') :
    (Xml.content d s).map outcome = (Xml.content d s').map outcome := by
  have hbare {s s' : List Char} (h : (Xml.content d s').map bare = (Xml.content d s).map bare) :
      (Xml.content d s).map outcome = (Xml.content d s').map outcome := by
    have houtcome : outcome = outcome ∘ bare := funext fun e => (outcome_bare e).symm
    rw [houtcome, ← Option.map_map, ← Option.map_map, h]
  cases h with
  | comment p w r ts hscan hw =>
      have hfiller : Xml.IsFiller w := List.append_nil w ▸ .comment hw .nil
      have hspaces : Xml.Scans (w ++ r) (Xml.spaceTokens []) r := Xml.scans_comment hw r
      exact hbare (content_insert hscan hfiller hspaces fun P _ => ⟨P, rfl, rfl⟩)
  | filler p w r ts hscan hplace hw =>
      obtain ⟨spaces, hspaces, hfill⟩ := Xml.scans_filler hw r
      exact hbare (content_insert hscan hw hfill fun P hP => spaces_unread (hplace P hP) hspaces)
  | wrap s root tag hs hroot htag hne hd =>
      have hname : (⟨"", tag⟩ : Xml.Name) ≠ ⟨"", stepTag⟩ := fun h => hne (Xml.Name.mk.inj h).2
      have hwrap := Edit.wrap ⟨"", tag⟩ "" [] root [] hname rfl hroot
      rw [hs, content_wrapped htag hd hs]
      exact congrArg some hwrap.outcome_eq

end Markup

namespace Xml

/-- What stands before the content of a document declares, and the content. -/
def prolog (s : List Char) : Option (Declarations × List Char) := do
  let s := Text.lineFeeds (dropMark s)
  if !s.all isChar then none
  let (standalone, s) ← takeFirstLine s
  let (words, s) ← prologWords s
  return (← Declarations.prolog { standalone } words, s)

theorem read_eq_content (s : List Char) : read s = prolog s >>= fun q => content q.1 q.2 := by
  rw [read, prolog]
  dsimp only
  split
  · rfl
  · simp only [bind_assoc]
    rfl

end Xml

theorem Markup.read_of_prolog {text : String} {d : Xml.Declarations} {s : List Char}
    (h : Xml.prolog text.toList = some (d, s)) :
    read text = ((Xml.content d s).map outcome).getD (.error .malformed) := by
  have hroot : Xml.read text.toList = Xml.content d s := by
    rw [Xml.read_eq_content, h]
    rfl
  cases hs : Xml.content d s with
  | none =>
      rw [read, hroot, hs]
      rfl
  | some root => exact read_of_root (hroot.trans hs)

/-- What a load of markup depends on. Documents whose steps agree in what is looked at load alike:
as one definition, or with one fault. So do documents that differ by elements around the step, by
unknown elements, repeated tags and other orders of tags in it, or by texts that are not read; and
texts of one prolog that differ by comments, by white space where no text is read, or by tags around
the root. -/
theorem Markup.read_congr (text text' : String) :
    (∀ root root' e e', Xml.read text.toList = some root → Xml.read text'.toList = some root' →
      root.find? stepTag = some e → root'.find? stepTag = some e' → SameStep e e' →
        read text = read text') ∧
    (∀ root root', Xml.read text.toList = some root → Xml.read text'.toList = some root' →
      Relation.EqvGen Edit root root' → read text = read text') ∧
    ∀ d s s', Xml.prolog text.toList = some (d, s) → Xml.prolog text'.toList = some (d, s') →
      Relation.EqvGen (ContentEdit d) s s' → read text = read text' := by
  refine ⟨?_, ?_, ?_⟩
  · intro root root' e e' hroot hroot' he he' hsame
    rw [read_of_root hroot, read_of_root hroot']
    exact hsame.outcome_eq he he'
  · intro root root' hroot hroot' hedits
    rw [read_of_root hroot, read_of_root hroot']
    exact eq_of_eqvGen (r := Edit) (fun _ _ => Edit.outcome_eq) hedits
  · intro d s s' hs hs' hedits
    have houtcome := eq_of_eqvGen (f := fun s => (Xml.content d s).map outcome)
      (fun _ _ => ContentEdit.outcome_eq) hedits
    rw [read_of_prolog hs, read_of_prolog hs', houtcome]

namespace Markup

def plainTree : Element := .group stepTag [
  .leaf "truncate" "Y", .leaf "upsert" "", .leaf "multi" "", .leaf "modifier_update" "",
  .group fieldsTag [.group fieldTag [.leaf "incoming_field_name" "a"]]]

/-- Other elements around and between, repeated tags and another order of tags. -/
def dressedTree : Element := .group "a" [.leaf "b" "c", .group "d" [.group stepTag [
  .group fieldsTag [.leaf "x" "", .group fieldTag [
    .leaf "incoming_field_name" "a", .leaf "incoming_field_name" "c", .leaf "y" "d"]],
  .leaf "modifier_update" "", .leaf "multi" "", .leaf "upsert" "", .leaf "truncate" "Y",
  .leaf stepTag "", .leaf "truncate" "N", .group fieldsTag []]], .leaf stepTag ""]

def plainDefinition : Definition where
  write := {
    hostnames := "", port := "", truncate := true, batchInsertSize := "", readPreference := "" }
  mappings := [{ incomingName := "a" }]

theorem read_congr_dressed :
    let plain := String.ofList (Xml.write 0 plainTree)
    let dressed := String.ofList (Xml.write 0 dressedTree)
    let before := "<step>".toList
    let comment := "<!-- - -->".toList
    let after := "</step>".toList
    Xml.read plain.toList = some (Xml.laidOut 0 plainTree) ∧
      Xml.read dressed.toList = some (Xml.laidOut 0 dressedTree) ∧
      (∃ e e', (Xml.laidOut 0 plainTree).find? stepTag = some e ∧
        (Xml.laidOut 0 dressedTree).find? stepTag = some e' ∧ SameStep e e') ∧
      read plain = .ok plainDefinition ∧ read dressed = .ok plainDefinition ∧
      ContentEdit {} (before ++ after) (before ++ (comment ++ after)) ∧
      read "<step></step>" = read "<step><!-- - --></step>" := by
  intro plain dressed before comment after
  have hwritable : Xml.Writable plainTree ∧ Xml.Writable dressedTree := by decide +kernel
  have hplain : Xml.read plain.toList = some (Xml.laidOut 0 plainTree) := by
    rw [String.toList_ofList]
    exact Xml.read_write hwritable.1
  have hdressed : Xml.read dressed.toList = some (Xml.laidOut 0 dressedTree) := by
    rw [String.toList_ofList]
    exact Xml.read_write hwritable.2
  have hedit : ContentEdit {} (before ++ after) (before ++ (comment ++ after)) := by
    have hscan : Xml.Scans (before ++ after) ([.opening "step".toList []] ++ []) after :=
      .next (by decide +kernel) (.done after)
    exact .comment before comment after _ hscan ⟨" - ".toList, rfl, by decide⟩
  obtain ⟨hagree, -, -⟩ := read_congr plain dressed
  obtain ⟨-, -, hcontent⟩ := read_congr "<step></step>" "<step><!-- - --></step>"
  have hcomment := hcontent {} (before ++ after) (before ++ (comment ++ after))
    (by decide +kernel) (by decide +kernel) (.rel _ _ hedit)
  have hstep : ∃ e e', (Xml.laidOut 0 plainTree).find? stepTag = some e ∧
      (Xml.laidOut 0 dressedTree).find? stepTag = some e' ∧ SameStep e e' :=
    ⟨_, _, rfl, rfl, by decide +kernel⟩
  have hread : read plain = .ok plainDefinition := by
    rw [read_of_root hplain]
    decide +kernel
  refine ⟨hplain, hdressed, hstep, hread, ?_, hedit, hcomment⟩
  obtain ⟨e, e', he, he', hsame⟩ := hstep
  rw [← hagree _ _ e e' hplain hdressed he he' hsame, hread]

end Markup

end DocumentSink
