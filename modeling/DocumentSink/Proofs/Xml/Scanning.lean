import DocumentSink.Proofs.Xml.Written
import Mathlib.Data.List.TakeWhile

/-!
A scan of markup does not look behind what it takes: with another rest it takes the same. So the
tokens of a text up to a place stay as they are, whatever is put in at that place. Main statement:
what stands before comments and white space is scanned as without them.
-/

namespace DocumentSink.Xml

section Local

variable {α : Type} {scan result : List Char → α} {s t r : List Char}

/-- A scan that leaves `r` of `s` and gives the same with every rest that begins like `r`. -/
def IsLocal (scan result : List Char → α) (s r : List Char) : Prop :=
  ∃ p, s = p ++ r ∧ ∀ r', r'.head? = r.head? → scan (p ++ r') = result r'

/-- A scan that takes something, leaves `r` of `s`, and gives the same with every rest. -/
def IsClosed (scan result : List Char → α) (s r : List Char) : Prop :=
  ∃ p, p ≠ [] ∧ s = p ++ r ∧ ∀ r', scan (p ++ r') = result r'

theorem head?_append_of_ne_nil {p : List Char} (hp : p ≠ []) (r r' : List Char) :
    (p ++ r').head? = (p ++ r).head? := by
  cases p with
  | nil => exact absurd rfl hp
  | cons c p => rfl

theorem span_append (isPart : Char → Bool) (h : t.head? = (s.dropWhile isPart).head?) :
    (s.takeWhile isPart ++ t).takeWhile isPart = s.takeWhile isPart ∧
      (s.takeWhile isPart ++ t).dropWhile isPart = t := by
  have hpart : ∀ c ∈ s.takeWhile isPart, isPart c = true := fun c => List.mem_takeWhile_imp
  have hhead : ∀ c ∈ t.head?, isPart c = false := by
    intro c hc
    rw [h, ← List.find?_not_eq_head?_dropWhile] at hc
    simpa using List.find?_some hc
  rw [List.takeWhile_append_of_pos hpart, List.dropWhile_append_of_pos hpart]
  cases t with
  | nil => exact ⟨List.append_nil _, rfl⟩
  | cons c t =>
      have hc := hhead c rfl
      rw [List.takeWhile_cons_of_neg (by simp [hc]), List.dropWhile_cons_of_neg (by simp [hc]),
        List.append_nil]
      exact ⟨rfl, rfl⟩

theorem isLocal_skipSpace (h : skipSpace s = r) : IsLocal skipSpace id s r := by
  subst h
  exact ⟨s.takeWhile isSpace, List.takeWhile_append_dropWhile.symm,
    fun r' hr' => (span_append isSpace hr').2⟩

/-- White space before a closed scan. -/
theorem IsClosed.skipSpace (h : IsClosed scan result (skipSpace s) r) :
    IsClosed (fun s => scan (skipSpace s)) result s r := by
  obtain ⟨p, hp, hs, hscan⟩ := h
  obtain ⟨q, rfl, hskip⟩ := isLocal_skipSpace hs
  refine ⟨q ++ p, List.append_ne_nil_of_right_ne_nil q hp, (List.append_assoc q p r).symm, ?_⟩
  intro r'
  have hr' := hskip (p ++ r') (head?_append_of_ne_nil hp r r')
  dsimp only
  rw [List.append_assoc, hr']
  exact hscan r'

theorem IsClosed.comp {β : Type} (f : α → β) (h : IsClosed scan result s r) :
    IsClosed (fun s => f (scan s)) (fun r => f (result r)) s r := by
  obtain ⟨p, hp, hs, hscan⟩ := h
  exact ⟨p, hp, hs, fun r' => congrArg f (hscan r')⟩

/-- A closed scan behind some first characters. -/
theorem IsClosed.behind {scan' : List Char → α} (h : IsClosed scan result s r) (front : List Char)
    (hscan : ∀ s, scan' (front ++ s) = scan s) : IsClosed scan' result (front ++ s) r := by
  obtain ⟨p, hp, rfl, hagain⟩ := h
  refine ⟨front ++ p, List.append_ne_nil_of_right_ne_nil _ hp, (List.append_assoc _ _ _).symm, ?_⟩
  intro r'
  rw [List.append_assoc, hscan]
  exact hagain r'

end Local

section Names

variable {s name r : List Char}

theorem takeName_append (h : takeName s = some (name, r)) :
    s = name ++ r ∧ name ≠ [] ∧
      ∀ r', r'.head? = r.head? → takeName (name ++ r') = some (name, r') := by
  cases s with
  | nil => cases h
  | cons c s =>
      rw [takeName] at h
      split at h
      · next hc =>
          cases h
          refine ⟨?_, List.cons_ne_nil _ _, ?_⟩
          · rw [List.cons_append, List.takeWhile_append_dropWhile]
          · intro r' hr'
            obtain ⟨htake, hdrop⟩ := span_append isNameChar hr'
            rw [List.cons_append, takeName, if_pos hc, htake, hdrop]
      · cases h

theorem takeQualified_append (h : takeQualified s = some (name, r)) :
    s = name ++ r ∧ name ≠ [] ∧
      ∀ r', r'.head? = r.head? → takeQualified (name ++ r') = some (name, r') := by
  unfold takeQualified at h
  split at h
  · cases h
  · next pre t hpre =>
      obtain ⟨⟨label, u⟩, hlabel, heq⟩ := Option.map_eq_some_iff.1 h
      cases heq
      obtain ⟨rfl, hne, hagain⟩ := takeName_append hpre
      obtain ⟨rfl, -, hlabel'⟩ := takeName_append hlabel
      refine ⟨by simp, List.append_ne_nil_of_left_ne_nil hne _, ?_⟩
      intro r' hr'
      have hpre' := hagain (':' :: (label ++ r')) rfl
      rw [List.append_assoc, List.cons_append, takeQualified, hpre']
      exact congrArg (Option.map fun q => (pre ++ ':' :: q.1, q.2)) (hlabel' r' hr')
  · next hcolon hname =>
      cases h
      obtain ⟨rfl, hne, hagain⟩ := takeName_append hname
      refine ⟨rfl, hne, ?_⟩
      intro r' hr'
      rw [takeQualified, hagain r' hr']
      split
      · next h' => cases h'
      · next h' =>
          cases h'
          cases r with
          | nil => cases hr'
          | cons c r =>
              cases hr'
              exact (hcolon _ rfl).elim
      · next h' => exact h'.symm

end Names

section Parts

variable {s r : List Char}

theorem cutFirst_append {sep : Char} {before after : List Char}
    (h : Text.cutFirst sep s = some (before, after)) (r' : List Char) :
    Text.cutFirst sep (before ++ sep :: r') = some (before, r') := by
  induction s generalizing before with
  | nil => cases h
  | cons c s ih =>
      rw [Text.cutFirst] at h
      split at h
      · cases h
        exact if_pos rfl
      · next hne =>
          obtain ⟨⟨before', after'⟩, hs, heq⟩ := Option.map_eq_some_iff.1 h
          cases heq
          rw [List.cons_append, Text.cutFirst, if_neg hne, ih hs]
          rfl

theorem isClosed_cutFirst {sep : Char} {before : List Char}
    (h : Text.cutFirst sep s = some (before, r)) :
    IsClosed (Text.cutFirst sep) (fun r => some (before, r)) s r := by
  refine ⟨before ++ [sep], by simp, by rw [Text.eq_of_cutFirst h]; simp, fun r' => ?_⟩
  rw [List.append_assoc]
  exact cutFirst_append h r'

/-- Some text and all of a word but its last character begin the text with the word behind it. -/
theorem append_dropLast_prefix (before word r : List Char) :
    before ++ word.dropLast <+: before ++ word ++ r := by
  rw [List.append_assoc, List.prefix_append_right_inj]
  exact (List.dropLast_prefix word).trans (List.prefix_append word r)

/-- A word is cut at where it stands first. Before that it does not stand, nor reach into it. -/
theorem cutWord_of_first {word before : List Char} (hword : word ≠ [])
    (h : ¬ word <:+: before ++ word.dropLast) (r : List Char) :
    Text.cutWord word (before ++ word ++ r) = some (before, r) := by
  induction before with
  | nil =>
      obtain ⟨c, word, rfl⟩ := List.exists_cons_of_ne_nil hword
      rw [List.nil_append, List.cons_append, Text.cutWord, ← List.cons_append,
        if_pos (List.isPrefixOf_iff_prefix.2 (List.prefix_append _ r)), List.drop_left]
  | cons c before ih =>
      have hfront := append_dropLast_prefix (c :: before) word r
      have hne : ¬ word.isPrefixOf (c :: (before ++ word ++ r)) = true := by
        intro hfits
        apply h
        have hfits := List.isPrefixOf_iff_prefix.1 hfits
        refine (List.prefix_of_prefix_length_le hfits hfront ?_).isInfix
        have hpos := List.length_pos_iff.2 hword
        simp only [List.length_append, List.length_cons, List.length_dropLast]
        omega
      rw [List.cons_append, List.cons_append, Text.cutWord, if_neg hne, ih]
      · rfl
      · exact fun hstands => h (hstands.trans (List.suffix_cons c _).isInfix)

theorem first_of_cutWord {word before after : List Char} (hword : word ≠ [])
    (h : Text.cutWord word s = some (before, after)) : ¬ word <:+: before ++ word.dropLast := by
  induction s generalizing before with
  | nil =>
      rw [Text.cutWord, if_neg (by simpa using hword)] at h
      cases h
  | cons c s ih =>
      rw [Text.cutWord] at h
      split at h
      · cases h
        intro hstands
        have hle := hstands.length_le
        have hpos := List.length_pos_iff.2 hword
        simp only [List.nil_append, List.length_dropLast] at hle
        omega
      · next hne =>
          obtain ⟨⟨before', after'⟩, hs, heq⟩ := Option.map_eq_some_iff.1 h
          cases heq
          rw [List.cons_append, List.infix_cons_iff, not_or]
          refine ⟨fun hfits => hne (List.isPrefixOf_iff_prefix.2 (hfits.trans ?_)), ih hs⟩
          rw [Text.eq_of_cutWord hs]
          exact append_dropLast_prefix (c :: before') word after

theorem cutWord_append {word before after : List Char} (hword : word ≠ [])
    (h : Text.cutWord word s = some (before, after)) (r' : List Char) :
    Text.cutWord word (before ++ word ++ r') = some (before, r') :=
  cutWord_of_first hword (first_of_cutWord hword h) r'

theorem isClosed_cutWord {word before : List Char} (hword : word ≠ [])
    (h : Text.cutWord word s = some (before, r)) :
    IsClosed (Text.cutWord word) (fun r => some (before, r)) s r :=
  ⟨before ++ word, List.append_ne_nil_of_right_ne_nil before hword, Text.eq_of_cutWord h,
    cutWord_append hword h⟩

theorem isClosed_takeQuoted {text : List Char} (h : takeQuoted s = some (text, r)) :
    IsClosed takeQuoted (fun r => some (text, r)) s r := by
  unfold takeQuoted at h
  split at h
  · exact (isClosed_cutFirst h).behind ['"'] fun _ => rfl
  · exact (isClosed_cutFirst h).behind ['\''] fun _ => rfl
  · cases h

theorem isClosed_takeCharacter {base : Nat} {isDigit : Char → Bool} {p : Piece}
    (h : takeCharacter base isDigit s = some (p, r)) :
    IsClosed (takeCharacter base isDigit) (fun r => some (p, r)) s r := by
  unfold takeCharacter at h
  split at h
  · next t hdrop =>
      split at h
      · cases h
      · next hempty =>
          obtain ⟨c, hc, heq⟩ := Option.map_eq_some_iff.1 h
          cases heq
          refine ⟨s.takeWhile isDigit ++ [';'], by simp, ?_, fun r' => ?_⟩
          · rw [List.append_assoc, List.singleton_append, ← hdrop,
              List.takeWhile_append_dropWhile]
          · have hhead : (';' :: r').head? = (s.dropWhile isDigit).head? := by
              rw [hdrop]
              rfl
            obtain ⟨htake, hdrop'⟩ := span_append isDigit hhead
            rw [List.append_assoc, List.singleton_append, takeCharacter, hdrop', htake]
            exact (if_neg hempty).trans (congrArg (Option.map fun c => (Piece.data [c], r')) hc)
  · cases h

theorem takeReference_name {c : Char} {name : List Char} (hc : c ≠ '#')
    (h : takeName (c :: s) = some (name, ';' :: r)) :
    takeReference (c :: s) = some (namedPiece name, r) := by
  rw [takeReference, h]
  · rfl
  · intro _ heq
    exact hc (List.cons.inj heq).1
  · intro _ heq
    exact hc (List.cons.inj heq).1

theorem isClosed_takeReference {p : Piece} (h : takeReference s = some (p, r)) :
    IsClosed takeReference (fun r => some (p, r)) s r := by
  unfold takeReference at h
  split at h
  · exact (isClosed_takeCharacter h).behind ['#', 'x'] fun _ => rfl
  · next t hx =>
      obtain ⟨q, hq, rfl, hscan⟩ := isClosed_takeCharacter h
      refine ⟨'#' :: q, List.cons_ne_nil _ _, rfl, fun r' => ?_⟩
      obtain ⟨c, q, rfl⟩ := List.exists_cons_of_ne_nil hq
      rw [List.cons_append, takeReference, hscan]
      rintro u heq
      cases heq
      exact hx _ rfl
  · next hx hmark =>
      split at h
      · next name t hname =>
          cases h
          obtain ⟨rfl, hne, hagain⟩ := takeName_append hname
          obtain ⟨c, name, rfl⟩ := List.exists_cons_of_ne_nil hne
          refine ⟨c :: name ++ [';'], by simp, by simp, fun r' => ?_⟩
          have hc : c ≠ '#' := by
            rintro rfl
            exact hmark _ rfl
          rw [List.append_assoc, List.singleton_append]
          exact takeReference_name hc (hagain (';' :: r') rfl)
      · cases h

theorem isClosed_afterComment (h : afterComment s = some r) : IsClosed afterComment some s r := by
  unfold afterComment at h
  split at h
  · next before t hcut =>
      cases h
      refine ⟨before ++ ['-', '-'] ++ ['>'], by simp, ?_, fun r' => ?_⟩
      · rw [List.append_assoc, List.singleton_append]
        exact Text.eq_of_cutWord hcut
      · rw [List.append_assoc, List.singleton_append, afterComment,
          cutWord_append (List.cons_ne_nil _ _) hcut]
        rfl
  · cases h

theorem afterInstruction_space {target : List Char} {c : Char} (hc : isSpace c = true)
    (htarget : takeName s = some (target, c :: r)) (h : target.map Char.toLower ≠ ['x', 'm', 'l']) :
    afterInstruction s = (Text.cutWord ['?', '>'] r).map (·.2) := by
  rw [afterInstruction, htarget]
  dsimp only
  rw [if_neg h]
  split
  · next heq =>
      cases heq
      cases hc
  · next heq =>
      cases heq
      exact if_pos hc
  · next heq => cases heq

theorem isClosed_afterInstruction (h : afterInstruction s = some r) :
    IsClosed afterInstruction some s r := by
  unfold afterInstruction at h
  split at h
  · cases h
  · next target t htarget =>
      obtain ⟨rfl, hne, hagain⟩ := takeName_append htarget
      split at h
      · cases h
      · next hreserved =>
          split at h
          · next u =>
              cases h
              refine ⟨target ++ ['?', '>'], by simp, by simp, fun r' => ?_⟩
              rw [List.append_assoc, afterInstruction, hagain (['?', '>'] ++ r') rfl]
              exact if_neg hreserved
          · next c u hmark =>
              split at h
              · next hspace =>
                  obtain ⟨⟨before, after⟩, hcut, heq⟩ := Option.map_eq_some_iff.1 h
                  cases heq
                  refine ⟨target ++ c :: (before ++ ['?', '>']), by simp, ?_, fun r' => ?_⟩
                  · rw [Text.eq_of_cutWord hcut]
                    simp
                  · have hcut' := cutWord_append (List.cons_ne_nil _ _) hcut r'
                    rw [List.append_assoc, List.cons_append, afterInstruction_space hspace
                      (hagain (c :: (before ++ ['?', '>'] ++ r')) rfl) hreserved, hcut']
                    rfl
              · cases h
          · cases h

end Parts

section Tags

variable {s r : List Char} {ts : List Token}

theorem takeAttribute_of {name t u text : List Char} {value : List Piece}
    (hname : takeQualified s = some (name, t)) (hequals : skipSpace t = '=' :: u)
    (hquoted : takeQuoted (skipSpace u) = some (text, r)) (hvalue : valuePieces text = some value) :
    takeAttribute s = some (⟨name, value⟩, r) := by
  rw [takeAttribute, hname]
  dsimp only
  rw [hequals]
  simp only [hquoted, hvalue, Option.map_some]

theorem isClosed_takeAttribute {a : Attribute} (h : takeAttribute s = some (a, r)) :
    IsClosed takeAttribute (fun r => some (a, r)) s r := by
  unfold takeAttribute at h
  split at h
  · cases h
  · next name t hname =>
      obtain ⟨rfl, -, hagain⟩ := takeQualified_append hname
      split at h
      · next u hequals =>
          split at h
          · next text v hquoted =>
              obtain ⟨value, hvalue, heq⟩ := Option.map_eq_some_iff.1 h
              cases heq
              obtain ⟨p, -, rfl, hscan⟩ := (isClosed_takeQuoted hquoted).skipSpace
              obtain ⟨q, rfl, hskip⟩ := isLocal_skipSpace hequals
              refine ⟨name ++ (q ++ '=' :: p), by simp, by simp, fun r' => ?_⟩
              have hshape : name ++ (q ++ '=' :: p) ++ r' = name ++ (q ++ '=' :: (p ++ r')) := by
                simp
              have hbehind : (q ++ '=' :: (p ++ r')).head? = (q ++ '=' :: (p ++ r)).head? := by
                cases q <;> rfl
              rw [hshape]
              exact takeAttribute_of (hagain _ hbehind) (hskip _ rfl) (hscan r') hvalue
          · cases h
      · cases h

theorem takeAttributes_finish (h : skipSpace s = '>' :: r) :
    takeAttributes s = some ([], false, r) := by
  cases s with
  | nil => cases h
  | cons c s =>
      rw [takeAttributes, h]
      rfl

theorem takeAttributes_finishEmpty (h : skipSpace s = '/' :: '>' :: r) :
    takeAttributes s = some ([], true, r) := by
  cases s with
  | nil => cases h
  | cons c s =>
      rw [takeAttributes, h]
      rfl

theorem exists_start_of_takeName {name : List Char} (h : takeName s = some (name, r)) :
    ∃ c t, s = c :: t ∧ isNameStart c = true := by
  cases s with
  | nil => cases h
  | cons c t =>
      rw [takeName] at h
      split at h
      · next hc => exact ⟨c, t, rfl, hc⟩
      · cases h

theorem exists_start_of_takeQualified {name : List Char} (h : takeQualified s = some (name, r)) :
    ∃ c t, s = c :: t ∧ isNameStart c = true := by
  unfold takeQualified at h
  split at h
  · cases h
  · next hname => exact exists_start_of_takeName hname
  · next hname => exact exists_start_of_takeName hname

theorem exists_start_of_takeAttribute {a : Attribute} (h : takeAttribute s = some (a, r)) :
    ∃ c t, s = c :: t ∧ isNameStart c = true := by
  unfold takeAttribute at h
  split at h
  · cases h
  · next hname => exact exists_start_of_takeQualified hname

theorem takeAttributes_next {a : Attribute} {c : Char} (hc : isSpace c = true)
    (h : takeAttribute (skipSpace s) = some (a, r)) :
    takeAttributes (c :: s) = (takeAttributes r).map fun (as, rest) => (a :: as, rest) := by
  have hskip : skipSpace (c :: s) = skipSpace s := List.dropWhile_cons_of_pos hc
  obtain ⟨d, t, hd, hstart⟩ := exists_start_of_takeAttribute h
  rw [takeAttributes, hskip]
  split
  · next heq =>
      rw [hd] at heq
      cases heq
      exact absurd hstart (by decide)
  · next heq =>
      rw [hd] at heq
      cases heq
      exact absurd hstart (by decide)
  · rw [if_pos hc]
    split
    · next h' =>
        rw [h] at h'
        cases h'
        rfl
    · next h' =>
        rw [h] at h'
        cases h'

theorem isClosed_takeAttributes {as : List Attribute} {closed : Bool}
    (h : takeAttributes s = some (as, closed, r)) :
    IsClosed takeAttributes (fun r => some (as, closed, r)) s r := by
  fun_induction takeAttributes s generalizing as with
  | case1 => cases h
  | case2 c s t hfinish =>
      cases h
      obtain ⟨q, hq, hskip⟩ := isLocal_skipSpace hfinish
      refine ⟨q ++ ['>'], by simp, by rw [hq]; simp, fun r' => ?_⟩
      rw [List.append_assoc]
      exact takeAttributes_finish (hskip ('>' :: r') rfl)
  | case3 c s t hfinish =>
      cases h
      obtain ⟨q, hq, hskip⟩ := isLocal_skipSpace hfinish
      refine ⟨q ++ ['/', '>'], by simp, by rw [hq]; simp, fun r' => ?_⟩
      rw [List.append_assoc]
      exact takeAttributes_finishEmpty (hskip ('/' :: '>' :: r') rfl)
  | case4 c s hc a t ha hfinish hfinishEmpty ih =>
      obtain ⟨⟨as', closed', r'⟩, hrest, heq⟩ := Option.map_eq_some_iff.1 h
      cases heq
      obtain ⟨p, -, hp, hscan⟩ := ih hrest
      obtain ⟨q, -, hq, hskip⟩ := (isClosed_takeAttribute ha).skipSpace
      refine ⟨c :: (q ++ p), List.cons_ne_nil _ _, ?_, fun r' => ?_⟩
      · rw [hq, hp]
        simp
      · rw [List.cons_append, List.append_assoc, takeAttributes_next hc (hskip (p ++ r')), hscan]
        rfl
  | case5 => cases h
  | case6 => cases h

theorem exists_start_of_takeOpening (h : takeOpening s = some (ts, r)) :
    ∃ c t, s = c :: t ∧ isNameStart c = true := by
  unfold takeOpening at h
  split at h
  · cases h
  · next hname => exact exists_start_of_takeQualified hname

theorem isClosed_takeOpening (h : takeOpening s = some (ts, r)) :
    IsClosed takeOpening (fun r => some (ts, r)) s r := by
  unfold takeOpening at h
  split at h
  · cases h
  · next name t hname =>
      obtain ⟨⟨as, closed, r'⟩, has, heq⟩ := Option.map_eq_some_iff.1 h
      cases heq
      obtain ⟨rfl, hne, hagain⟩ := takeQualified_append hname
      obtain ⟨p, hp, rfl, hscan⟩ := isClosed_takeAttributes has
      have hne' := List.append_ne_nil_of_left_ne_nil hne p
      refine ⟨name ++ p, hne', (List.append_assoc name p r).symm, ?_⟩
      intro r'
      rw [List.append_assoc, takeOpening, hagain _ (head?_append_of_ne_nil hp _ _)]
      dsimp only
      rw [hscan]
      rfl

theorem isClosed_takeClosing (h : takeClosing s = some (ts, r)) :
    IsClosed takeClosing (fun r => some (ts, r)) s r := by
  unfold takeClosing at h
  dsimp only at h
  split at h
  · next hfinish =>
      cases h
      obtain ⟨q, hq, hskip⟩ := isLocal_skipSpace hfinish
      let isLetter (c : Char) : Bool := isNameChar c || c == ':'
      refine ⟨s.takeWhile isLetter ++ (q ++ ['>']), by simp, ?_, fun r' => ?_⟩
      · rw [List.append_assoc, List.append_assoc, List.singleton_append, ← hq]
        exact List.takeWhile_append_dropWhile.symm
      · have hhead : (q ++ '>' :: r').head? = (s.dropWhile isLetter).head? := by
          rw [hq]
          cases q <;> rfl
        obtain ⟨htake, hdrop⟩ := span_append isLetter hhead
        rw [List.append_assoc, List.append_assoc, List.singleton_append, takeClosing]
        dsimp only
        rw [htake, hdrop, hskip ('>' :: r') rfl]
        rfl
  · cases h

end Tags

section Tokens

variable {s t r : List Char} {ts us : List Token}

/-- What a text begins with does not depend on what follows, but for two closing brackets behind
which an angle bracket may not come. -/
theorem nextTokens_append (h : nextTokens s = some (ts, r)) :
    ∃ p, p ≠ [] ∧ s = p ++ r ∧
      ∀ r', ([']', '>'] <+: r' → [']', '>'] <+: r) → nextTokens (p ++ r') = some (ts, r') := by
  have hclosed (h : IsClosed nextTokens (fun r => some (ts, r)) s r) : ∃ p, p ≠ [] ∧ s = p ++ r ∧
      ∀ r', ([']', '>'] <+: r' → [']', '>'] <+: r) → nextTokens (p ++ r') = some (ts, r') := by
    obtain ⟨p, hp, hs, hscan⟩ := h
    exact ⟨p, hp, hs, fun r' _ => hscan r'⟩
  unfold nextTokens at h
  split at h
  · next t =>
      obtain ⟨r', ht, heq⟩ := Option.map_eq_some_iff.1 h
      cases heq
      have hcomment := (isClosed_afterComment ht).comp (Option.map fun r => (([] : List Token), r))
      exact hclosed (hcomment.behind ['<', '!', '-', '-'] fun _ => rfl)
  · next t =>
      obtain ⟨⟨body, r'⟩, ht, heq⟩ := Option.map_eq_some_iff.1 h
      cases heq
      have hsection := (isClosed_cutWord (List.cons_ne_nil _ _) ht).comp
        (Option.map fun q => ([Token.text (.data q.1)], q.2))
      exact hclosed (hsection.behind "<![CDATA[".toList fun _ => rfl)
  · next t =>
      obtain ⟨r', ht, heq⟩ := Option.map_eq_some_iff.1 h
      cases heq
      have hinstruction := (isClosed_afterInstruction ht).comp
        (Option.map fun r => (([] : List Token), r))
      exact hclosed (hinstruction.behind ['<', '?'] fun _ => rfl)
  · next t => exact hclosed ((isClosed_takeClosing h).behind ['<', '/'] fun _ => rfl)
  · next t _ _ _ _ =>
      obtain ⟨p, hp, rfl, hscan⟩ := isClosed_takeOpening h
      obtain ⟨c, p, rfl⟩ := List.exists_cons_of_ne_nil hp
      have hstart : isNameStart c = true := by
        obtain ⟨d, u, heq, hd⟩ := exists_start_of_takeOpening h
        cases heq
        exact hd
      refine hclosed ⟨'<' :: c :: p, List.cons_ne_nil _ _, rfl, fun r' => ?_⟩
      exact (nextTokens_start hstart (p ++ r')).trans (hscan r')
  · next t =>
      obtain ⟨⟨piece, r'⟩, ht, heq⟩ := Option.map_eq_some_iff.1 h
      cases heq
      have hreference := (isClosed_takeReference ht).comp
        (Option.map fun q => ([Token.text q.1], q.2))
      exact hclosed (hreference.behind ['&'] fun _ => rfl)
  · cases h
  · -- A character: the only case in which what follows is looked at.
    next c t _ _ _ _ hlt hamp hend =>
      cases h
      refine ⟨[c], List.cons_ne_nil _ _, rfl, fun r' hr' => ?_⟩
      apply nextTokens_char hlt hamp
      intro hc hr
      obtain ⟨u, rfl⟩ := hr' hr
      exact hend u hc rfl
  · cases h

end Tokens

/-- Scanning a text gives some tokens and comes to a rest. -/
inductive Scans : List Char → List Token → List Char → Prop
  | done (r : List Char) : Scans r [] r
  | next {s t r : List Char} {ts us : List Token} (h : nextTokens s = some (ts, t))
      (hrest : Scans t us r) : Scans s (ts ++ us) r

/-- A comment. No two hyphens stand inside, nor a third before the two at its end. -/
def IsComment (s : List Char) : Prop :=
  ∃ body, s = ['<', '!', '-', '-'] ++ body ++ ['-', '-', '>'] ∧ ¬ ['-', '-'] <:+: body ++ ['-']

/-- Comments and white space. -/
inductive IsFiller : List Char → Prop
  | nil : IsFiller []
  | comment {s t : List Char} (hs : IsComment s) (ht : IsFiller t) : IsFiller (s ++ t)
  | space {c : Char} {t : List Char} (hc : isSpace c = true) (ht : IsFiller t) : IsFiller (c :: t)

def spaceTokens (s : List Char) : List Token := s.map fun c => .text (.char c)

section Scans

variable {s t r : List Char} {ts us : List Token}

theorem Scans.tokens_eq (h : Scans s ts r) : tokens s = (tokens r).map (ts ++ ·) := by
  induction h with
  | done r => exact (Option.map_id' (x := tokens r)).symm
  | next h _ ih => rw [tokens_of_next h, ih, map_append_append]

theorem scans_of_tokens (h : tokens s = some ts) : Scans s ts [] := by
  fun_induction tokens s generalizing ts with
  | case1 s hs =>
      cases h
      rw [List.isEmpty_iff.1 hs]
      exact .done []
  | case2 s hs us r hnext ih =>
      obtain ⟨vs, hvs, heq⟩ := Option.map_eq_some_iff.1 h
      cases heq
      exact .next hnext (ih hvs)
  | case3 => cases h

theorem Scans.trans (h : Scans s ts t) (h' : Scans t us r) : Scans s (ts ++ us) r := by
  induction h with
  | done r => exact h'
  | next h _ ih =>
      rw [List.append_assoc]
      exact .next h (ih h')

/-- A rest that begins with neither of them does not make up the end of a section. -/
theorem sectionEnd_append {p r' : List Char} (hrest : ∀ c ∈ r'.head?, c ≠ ']' ∧ c ≠ '>')
    (h : [']', '>'] <+: p ++ r') (r : List Char) : [']', '>'] <+: p ++ r := by
  obtain ⟨u, hu⟩ := h
  rcases p with _ | ⟨c, _ | ⟨d, p⟩⟩
  · rw [List.nil_append] at hu
    exact absurd rfl (hrest ']' (hu ▸ rfl)).1
  · cases hu
    exact absurd rfl (hrest '>' rfl).2
  · cases hu
    exact ⟨p ++ r, rfl⟩

/-- What a scan has gone through is gone through again with another rest, unless that could close a
section. -/
theorem Scans.again (h : Scans s ts r) : ∃ p, s = p ++ r ∧
    ∀ r', (∀ c ∈ r'.head?, c ≠ ']' ∧ c ≠ '>') → Scans (p ++ r') ts r' := by
  induction h with
  | done r => exact ⟨[], rfl, fun r' _ => .done r'⟩
  | @next s t r ts us h _ ih =>
      obtain ⟨q, hq, rfl, hnext⟩ := nextTokens_append h
      obtain ⟨p, rfl, hagain⟩ := ih
      refine ⟨q ++ p, (List.append_assoc q p r).symm, fun r' hr' => ?_⟩
      rw [List.append_assoc]
      exact .next (hnext (p ++ r') fun hend => sectionEnd_append hr' hend r) (hagain r' hr')

theorem scans_comment (h : IsComment s) (r : List Char) : Scans (s ++ r) [] r := by
  obtain ⟨body, rfl, hbody⟩ := h
  have hcut := cutWord_of_first (List.cons_ne_nil _ _) hbody ('>' :: r)
  have hshape : ['<', '!', '-', '-'] ++ body ++ ['-', '-', '>'] ++ r =
      '<' :: '!' :: '-' :: '-' :: (body ++ ['-', '-'] ++ '>' :: r) := by
    simp
  have hnext : nextTokens ('<' :: '!' :: '-' :: '-' :: (body ++ ['-', '-'] ++ '>' :: r)) =
      some ([], r) := by
    rw [nextTokens, afterComment, hcut]
    rfl
  rw [hshape]
  exact .next hnext (.done r)

theorem scans_filler (h : IsFiller s) (r : List Char) :
    ∃ spaces, (∀ c ∈ spaces, isSpace c = true) ∧ Scans (s ++ r) (spaceTokens spaces) r := by
  induction h with
  | nil => exact ⟨[], List.forall_mem_nil _, .done r⟩
  | @comment s t hs _ ih =>
      obtain ⟨spaces, hspaces, hscan⟩ := ih
      rw [List.append_assoc]
      exact ⟨spaces, hspaces, (scans_comment hs _).trans hscan⟩
  | @space c t hc _ ih =>
      obtain ⟨spaces, hspaces, hscan⟩ := ih
      have hnext : nextTokens (c :: (t ++ r)) = some ([.text (.char c)], t ++ r) := by
        apply nextTokens_char
        · rintro rfl
          cases hc
        · rintro rfl
          cases hc
        · rintro rfl
          cases hc
      exact ⟨c :: spaces, List.forall_mem_cons.2 ⟨hc, hspaces⟩, .next hnext hscan⟩

theorem head_of_filler (h : IsFiller s) (hs : s ≠ []) :
    ∀ c ∈ (s ++ r).head?, c ≠ ']' ∧ c ≠ '>' := by
  cases h with
  | nil => exact absurd rfl hs
  | comment hcomment _ =>
      obtain ⟨body, rfl, -⟩ := hcomment
      rintro _ ⟨⟩
      decide
  | @space c t hc _ =>
      rintro _ ⟨⟩
      constructor
      · rintro rfl
        cases hc
      · rintro rfl
        cases hc

/-- Filler that is put in is scanned where it stands, and all before it as without it. -/
theorem scans_insert {p w : List Char} (h : Scans (p ++ r) ts r) (hw : IsFiller w) :
    Scans (p ++ (w ++ r)) ts (w ++ r) := by
  obtain ⟨q, hq, hagain⟩ := h.again
  obtain rfl := List.append_cancel_right hq
  by_cases hne : w = []
  · rw [hne]
    exact h
  · exact hagain (w ++ r) (head_of_filler hw hne)

end Scans

end DocumentSink.Xml
