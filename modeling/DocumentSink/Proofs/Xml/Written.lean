import DocumentSink.Xml.Token
import DocumentSink.Xml.Writer
import Mathlib.Tactic.Common

/-!
Written markup falls into tokens as it was put together: text into its characters, an element into
its tags with what stands between them. Main statement: the tokens of a written tree, whatever
follows it.
-/

namespace DocumentSink.Xml

/-- A name that a tag can be written with. It has no colon. -/
def isTag (tag : String) : Bool :=
  match tag.toList with
  | [] => false
  | c :: s => isNameStart c && s.all isNameChar

mutual
/-- A tree in no namespace whose tags and texts can be written. Text beside children does not
count. -/
def Writable : Element → Prop
  | .mk name text children =>
    name.space = "" ∧ isTag name.label ∧ (children = [] → ∀ c ∈ text.toList, isChar c) ∧
      WritableAll children

def WritableAll : List Element → Prop
  | [] => True
  | e :: es => Writable e ∧ WritableAll es
end

mutual
instance decidableWritable : (e : Element) → Decidable (Writable e)
  | .mk name text children =>
    have : Decidable (∀ c ∈ text.toList, isChar c) := List.decidableBAll (isChar ·) _
    have := decidableWritableAll children
    inferInstanceAs (Decidable (name.space = "" ∧ isTag name.label ∧
      (children = [] → ∀ c ∈ text.toList, isChar c) ∧ WritableAll children))

instance decidableWritableAll : (es : List Element) → Decidable (WritableAll es)
  | [] => inferInstanceAs (Decidable True)
  | e :: es =>
    have := decidableWritable e
    have := decidableWritableAll es
    inferInstanceAs (Decidable (Writable e ∧ WritableAll es))
end

def charToken (c : Char) : Token :=
  if c = '&' ∨ c = '<' ∨ c = '>' ∨ c = '\r' then .text (.data [c]) else .text (.char c)

def textTokens (s : List Char) : List Token := s.map charToken

mutual
def elementTokens (level : Nat) : Element → List Token
  | .mk name text children =>
    .opening name.label.toList [] :: (bodyTokens level text children ++
      [.closing name.label.toList])

def bodyTokens (level : Nat) (text : String) : List Element → List Token
  | [] => textTokens text.toList
  | e :: es => textTokens (newLine (level + 1)) ++ elementTokens (level + 1) e ++
      childTokens (level + 1) es ++ textTokens (newLine level)

def childTokens (level : Nat) : List Element → List Token
  | [] => []
  | e :: es => textTokens (newLine level) ++ elementTokens level e ++ childTokens level es
end

theorem tokens_of_next {s r : List Char} {ts : List Token} (h : nextTokens s = some (ts, r)) :
    tokens s = (tokens r).map (ts ++ ·) := by
  have hs : s.isEmpty = false := by
    cases s with
    | nil => simp [nextTokens] at h
    | cons c s => rfl
  rw [tokens, hs, if_neg Bool.false_ne_true]
  split
  · next h' =>
      rw [h, Option.some.injEq, Prod.mk.injEq] at h'
      rw [h'.1, h'.2]
  · next h' =>
      rw [h] at h'
      cases h'

theorem map_append_append (o : Option (List Token)) (ts us : List Token) :
    (o.map (us ++ ·)).map (ts ++ ·) = o.map (ts ++ us ++ ·) := by
  cases o with
  | none => rfl
  | some vs => simp

section Text

/-- A character is a token of its own unless something else begins with it. -/
theorem nextTokens_char {c : Char} {s : List Char} (hlt : c ≠ '<') (hamp : c ≠ '&')
    (hend : c = ']' → ¬ [']', '>'] <+: s) :
    nextTokens (c :: s) = some ([.text (.char c)], s) := by
  rw [nextTokens]
  · intro _ h
    exact absurd h hlt
  · intro _ h
    exact absurd h hlt
  · intro _ h
    exact absurd h hlt
  · intro _ h
    exact absurd h hlt
  · exact hlt
  · exact hamp
  · rintro t hc rfl
    exact hend hc ⟨t, rfl⟩

theorem nextTokens_escapedChar {c : Char} {s : List Char} (hend : c = ']' → ¬ [']', '>'] <+: s) :
    nextTokens (escapedChar c ++ s) = some ([charToken c], s) := by
  by_cases hamp : c = '&'
  · subst hamp
    rfl
  · by_cases hlt : c = '<'
    · subst hlt
      rfl
    · by_cases hgt : c = '>'
      · subst hgt
        rfl
      · by_cases hcr : c = '\r'
        · subst hcr
          rfl
        · have he : escapedChar c = [c] := by simp only [escapedChar, hamp, hlt, hgt, hcr, if_false]
          have ht : charToken c = .text (.char c) := by
            simp only [charToken, hamp, hlt, hgt, hcr, or_self, if_false]
          rw [he, ht]
          exact nextTokens_char hlt hamp hend

/-- No angle bracket closes in escaped text. -/
theorem not_mem_escaped (s : List Char) : '>' ∉ escaped s := by
  intro h
  obtain ⟨c, -, hc⟩ := List.mem_flatMap.1 h
  unfold escapedChar at hc
  split at hc
  · simp at hc
  · split at hc
    · simp at hc
    · split at hc
      · simp at hc
      · split at hc
        · simp at hc
        · next hgt _ => exact hgt (List.mem_singleton.1 hc).symm

/-- So the end of a quoted section does not stand in it. -/
theorem not_prefix_escaped (s r : List Char) : ¬ [']', '>'] <+: escaped s ++ '<' :: r := by
  rintro ⟨t, ht⟩
  rcases hs : escaped s with _ | ⟨c, _ | ⟨d, u⟩⟩
  · simp [hs] at ht
  · simp [hs] at ht
  · have hd : d = '>' := by
      rw [hs] at ht
      simp only [List.cons_append, List.nil_append, List.cons.injEq] at ht
      exact ht.2.1.symm
    exact not_mem_escaped s (by simp [hs, hd])

theorem tokens_escaped (s r : List Char) :
    tokens (escaped s ++ '<' :: r) = (tokens ('<' :: r)).map (textTokens s ++ ·) := by
  induction s with
  | nil => exact (Option.map_id' (x := tokens ('<' :: r))).symm
  | cons c s ih =>
      have hnext := nextTokens_escapedChar (c := c) (s := escaped s ++ '<' :: r)
        fun _ => not_prefix_escaped s r
      have he : escaped (c :: s) ++ '<' :: r = escapedChar c ++ (escaped s ++ '<' :: r) := by
        simp [escaped]
      rw [he, tokens_of_next hnext, ih, map_append_append]
      rfl

theorem escaped_newLine (level : Nat) : escaped (newLine level) = newLine level := by
  have hspaces : ∀ n, escaped (List.replicate n ' ') = List.replicate n ' ' := by
    intro n
    induction n with
    | zero => rfl
    | succ n ih => exact congrArg (' ' :: ·) ih
  exact congrArg ('\n' :: ·) (hspaces (2 * level))

theorem tokens_newLine (level : Nat) (r : List Char) :
    tokens (newLine level ++ '<' :: r) =
      (tokens ('<' :: r)).map (textTokens (newLine level) ++ ·) := by
  have h := tokens_escaped (newLine level) r
  rwa [escaped_newLine] at h

end Text

section Tags

variable {tag : String}

theorem toList_of_isTag (h : isTag tag) :
    ∃ c s, tag.toList = c :: s ∧ isNameStart c ∧ ∀ d ∈ s, isNameChar d := by
  unfold isTag at h
  split at h
  · cases h
  · next c s he =>
      rw [Bool.and_eq_true, List.all_eq_true] at h
      exact ⟨c, s, he, h⟩

theorem takeName_tag (h : isTag tag) {c : Char} (hc : isNameChar c = false) (s : List Char) :
    takeName (tag.toList ++ c :: s) = some (tag.toList, c :: s) := by
  obtain ⟨d, t, he, hd, ht⟩ := toList_of_isTag h
  rw [he, List.cons_append, takeName, if_pos hd, List.takeWhile_append_of_pos ht,
    List.dropWhile_append_of_pos ht]
  simp [hc]

theorem takeQualified_tag (h : isTag tag) {c : Char} (hc : isNameChar c = false) (hcolon : c ≠ ':')
    (s : List Char) : takeQualified (tag.toList ++ c :: s) = some (tag.toList, c :: s) := by
  rw [takeQualified, takeName_tag h hc]
  split
  · next h' => cases h'
  · next h' =>
      simp only [Option.some.injEq, Prod.mk.injEq, List.cons.injEq] at h'
      exact absurd h'.2.1 hcolon
  · next h' => exact h'.symm

/-- Where a name begins behind an angle bracket, a tag opens. -/
theorem nextTokens_start {c : Char} (hc : isNameStart c) (s : List Char) :
    nextTokens ('<' :: c :: s) = takeOpening (c :: s) := by
  have hbang : c ≠ '!' := by
    rintro rfl
    revert hc
    decide
  have hmark : c ≠ '?' := by
    rintro rfl
    revert hc
    decide
  have hslash : c ≠ '/' := by
    rintro rfl
    revert hc
    decide
  rw [nextTokens]
  · intro _ h
    exact absurd (List.cons.inj h).1 hbang
  · intro _ h
    exact absurd (List.cons.inj h).1 hbang
  · intro _ h
    exact absurd (List.cons.inj h).1 hmark
  · intro _ h
    exact absurd (List.cons.inj h).1 hslash

theorem nextTokens_tag (h : isTag tag) (s : List Char) :
    nextTokens ('<' :: (tag.toList ++ s)) = takeOpening (tag.toList ++ s) := by
  obtain ⟨c, t, he, hc, -⟩ := toList_of_isTag h
  rw [he, List.cons_append]
  exact nextTokens_start hc (t ++ s)

theorem nextTokens_opening (h : isTag tag) (s : List Char) :
    nextTokens ('<' :: (tag.toList ++ '>' :: s)) = some ([.opening tag.toList []], s) := by
  rw [nextTokens_tag h, takeOpening, takeQualified_tag h (by decide) (by decide)]
  simp only [takeAttributes]
  rfl

theorem nextTokens_empty (h : isTag tag) (s : List Char) :
    nextTokens ('<' :: (tag.toList ++ ' ' :: '/' :: '>' :: s)) =
      some ([.opening tag.toList [], .closing tag.toList], s) := by
  rw [nextTokens_tag h, takeOpening, takeQualified_tag h (by decide) (by decide)]
  simp only [takeAttributes]
  rfl

theorem isNameChar_of_isNameStart {c : Char} (h : isNameStart c) : isNameChar c := by
  unfold isNameStart at h
  unfold isNameChar
  split
  · next hlt =>
      rw [if_pos hlt, Bool.or_eq_true] at h
      rcases h with h | h
      · simp [Char.isAlphanum, h]
      · simp [h]
  · next hlt =>
      rw [if_neg hlt] at h
      rw [h, Bool.true_or]

theorem isNameChar_of_mem_tag (h : isTag tag) : ∀ c ∈ tag.toList, isNameChar c := by
  obtain ⟨c, t, he, hc, ht⟩ := toList_of_isTag h
  intro d hd
  rw [he, List.mem_cons] at hd
  rcases hd with rfl | hd
  · exact isNameChar_of_isNameStart hc
  · exact ht d hd

theorem nextTokens_closing (h : isTag tag) (s : List Char) :
    nextTokens ('<' :: '/' :: (tag.toList ++ '>' :: s)) = some ([.closing tag.toList], s) := by
  have hletters : ∀ c ∈ tag.toList, (isNameChar c || c == ':') = true := by
    intro c hc
    rw [isNameChar_of_mem_tag h c hc, Bool.true_or]
  rw [nextTokens, takeClosing]
  simp only [List.takeWhile_append_of_pos hletters, List.dropWhile_append_of_pos hletters]
  rw [List.takeWhile_cons_of_neg (by decide), List.dropWhile_cons_of_neg (by decide),
    List.append_nil]
  rfl

end Tags

section Tree

theorem write_eq_cons (level : Nat) (e : Element) : ∃ s, write level e = '<' :: s := by
  obtain ⟨name, text, children⟩ := e
  rw [write.eq_def]
  dsimp only
  split
  · exact ⟨_, rfl⟩
  · exact ⟨_, rfl⟩
  · exact ⟨_, rfl⟩

theorem write_empty {name : Name} {text : String} (level : Nat) (ht : text.toList = [])
    (r : List Char) :
    write level (.mk name text []) ++ r = '<' :: (name.label.toList ++ ' ' :: '/' :: '>' :: r) := by
  rw [write.eq_def]
  simp [ht]

theorem write_leaf {name : Name} {text : String} (level : Nat) (ht : text.toList ≠ [])
    (r : List Char) :
    write level (.mk name text []) ++ r = '<' :: (name.label.toList ++
      '>' :: (escaped text.toList ++ '<' :: '/' :: (name.label.toList ++ '>' :: r))) := by
  rw [write.eq_def]
  dsimp only
  split
  · next h => exact absurd h ht
  · simp
  · next h _ => exact (h rfl).elim

theorem tokens_write_leaf {name : Name} {text : String} (level : Nat) (h : isTag name.label)
    (r : List Char) :
    tokens (write level (.mk name text []) ++ r) =
      (tokens r).map (elementTokens level (.mk name text []) ++ ·) := by
  rw [elementTokens, bodyTokens]
  by_cases ht : text.toList = []
  · rw [write_empty level ht, tokens_of_next (nextTokens_empty h r), ht]
    rfl
  · rw [write_leaf level ht, tokens_of_next (nextTokens_opening h _), tokens_escaped,
      tokens_of_next (nextTokens_closing h r), map_append_append, map_append_append]
    rfl

/-- An element with children has no text of its own but the line ends between them. -/
theorem write_group {name : Name} {text : String} {e : Element} {es : List Element} (level : Nat)
    (r : List Char) :
    write level (.mk name text (e :: es)) ++ r =
      '<' :: (name.label.toList ++ '>' :: (newLine (level + 1) ++ (write (level + 1) e ++
        (writeAll (level + 1) es ++ (newLine level ++
          '<' :: '/' :: (name.label.toList ++ '>' :: r)))))) := by
  rw [write.eq_def]
  simp [writeAll]

mutual
/-- The tokens of a written tree, whatever follows it. -/
theorem tokens_write (level : Nat) : ∀ (e : Element), Writable e → ∀ r,
    tokens (write level e ++ r) = (tokens r).map (elementTokens level e ++ ·)
  | .mk name text [], h, r => tokens_write_leaf level h.2.1 r
  | .mk name text (e :: es), ⟨_, htag, _, he, hes⟩, r => by
      obtain ⟨s, hs⟩ := write_eq_cons (level + 1) e
      have hfirst : ∀ r, tokens (newLine (level + 1) ++ (write (level + 1) e ++ r)) =
          (tokens r).map (textTokens (newLine (level + 1)) ++ elementTokens (level + 1) e ++ ·) := by
        intro r
        rw [hs, List.cons_append, tokens_newLine, ← List.cons_append, ← hs,
          tokens_write (level + 1) e he r, map_append_append]
      rw [write_group, tokens_of_next (nextTokens_opening htag _), hfirst,
        tokens_writeAll (level + 1) es hes, tokens_newLine,
        tokens_of_next (nextTokens_closing htag r), map_append_append, map_append_append,
        map_append_append, map_append_append, elementTokens, bodyTokens]
      simp only [List.append_assoc, List.cons_append, List.nil_append]

theorem tokens_writeAll (level : Nat) : ∀ (es : List Element), WritableAll es → ∀ r,
    tokens (writeAll level es ++ r) = (tokens r).map (childTokens level es ++ ·)
  | [], _, r => (Option.map_id' (x := tokens r)).symm
  | e :: es, ⟨he, hes⟩, r => by
      obtain ⟨s, hs⟩ := write_eq_cons level e
      have hw : writeAll level (e :: es) ++ r =
          newLine level ++ '<' :: (s ++ (writeAll level es ++ r)) := by
        rw [writeAll, hs]
        simp
      rw [hw, tokens_newLine, ← List.cons_append, ← hs, tokens_write level e he,
        tokens_writeAll level es hes, map_append_append, map_append_append, childTokens]
end

end Tree

end DocumentSink.Xml
