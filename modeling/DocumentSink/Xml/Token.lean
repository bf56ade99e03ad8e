import DocumentSink.Numeral.Integer
import DocumentSink.Text.Split
import DocumentSink.Xml.Char

/-!
The pieces that the content of an element is written in: characters, references, and tags with their
attributes. Comments and processing instructions leave no piece. Text is refused where no piece
begins.
-/

namespace DocumentSink.Xml

/-- A piece of text or of an attribute's value: a character as it stands, characters that a
reference or a quoted section gives, or a reference to a declared entity. -/
inductive Piece
  | char (c : Char)
  | data (s : List Char)
  | entity (name : List Char)
  deriving DecidableEq, Repr

structure Attribute where
  name : List Char
  value : List Piece
  deriving DecidableEq, Repr

inductive Token
  | text (p : Piece)
  | opening (name : List Char) (attributes : List Attribute)
  | closing (name : List Char)
  deriving DecidableEq, Repr

/-- A name without a colon, and what follows it. -/
def takeName : List Char → Option (List Char × List Char)
  | [] => none
  | c :: s =>
    if isNameStart c then some (c :: s.takeWhile isNameChar, s.dropWhile isNameChar) else none

def takeQualified (s : List Char) : Option (List Char × List Char) :=
  match takeName s with
  | none => none
  | some (name, ':' :: r) => (takeName r).map fun (label, r) => (name ++ ':' :: label, r)
  | some (name, r) => some (name, r)

/-- What follows a comment, from after its first two hyphens on: no two hyphens stand inside. -/
def afterComment (s : List Char) : Option (List Char) :=
  match Text.cutWord ['-', '-'] s with
  | some (_, '>' :: r) => some r
  | _ => none

/-- What follows a processing instruction, from after the question mark on. Its target is not `xml`,
in whatever case. -/
def afterInstruction (s : List Char) : Option (List Char) :=
  match takeName s with
  | none => none
  | some (target, r) =>
    if target.map Char.toLower = ['x', 'm', 'l'] then none
    else match r with
      | '?' :: '>' :: r => some r
      | c :: r => if isSpace c then (Text.cutWord ['?', '>'] r).map (·.2) else none
      | [] => none

/-- The character that a number in digits names, up to the semicolon. -/
def takeCharacter (base : Nat) (isDigit : Char → Bool) (s : List Char) :
    Option (Piece × List Char) :=
  match s.dropWhile isDigit with
  | ';' :: r =>
    if (s.takeWhile isDigit).isEmpty then none
    else (charOf? (Numeral.ofDigits base ((s.takeWhile isDigit).filterMap Numeral.hexDigit?))).map
      fun c => (.data [c], r)
  | _ => none

def isHexDigit (c : Char) : Bool := c.isDigit || ('a' ≤ c && c ≤ 'f') || ('A' ≤ c && c ≤ 'F')

def predefined? (name : List Char) : Option Char :=
  match String.ofList name with
  | "amp" => some '&'
  | "lt" => some '<'
  | "gt" => some '>'
  | "apos" => some '\''
  | "quot" => some '"'
  | _ => none

def namedPiece (name : List Char) : Piece :=
  match predefined? name with
  | some c => .data [c]
  | none => .entity name

/-- A reference, from after the ampersand on. -/
def takeReference : List Char → Option (Piece × List Char)
  | '#' :: 'x' :: s => takeCharacter 16 isHexDigit s
  | '#' :: s => takeCharacter 10 Char.isDigit s
  | s =>
    match takeName s with
    | some (name, ';' :: r) => some (namedPiece name, r)
    | _ => none

/-- A text that stands behind at least one character at the end of another. -/
def Behind (r s : List Char) : Prop := ∃ t, t ≠ [] ∧ t ++ r = s

section Behind

variable {r s t : List Char}

theorem Behind.suffix (h : Behind r s) : r <:+ s := by
  obtain ⟨t, -, ht⟩ := h
  exact ⟨t, ht⟩

theorem Behind.length_lt (h : Behind r s) : r.length < s.length := by
  obtain ⟨t, hne, rfl⟩ := h
  have hpos := List.length_pos_iff.2 hne
  rw [List.length_append]
  omega

theorem Behind.cons (c : Char) (h : r <:+ s) : Behind r (c :: s) := by
  obtain ⟨t, rfl⟩ := h
  exact ⟨c :: t, List.cons_ne_nil c t, rfl⟩

theorem Behind.after (h : Behind s t) (hr : r <:+ s) : Behind r t := by
  obtain ⟨t, hne, rfl⟩ := h
  obtain ⟨u, rfl⟩ := hr
  exact ⟨t ++ u, List.append_ne_nil_of_left_ne_nil hne u, List.append_assoc t u r⟩

theorem Behind.within (h : Behind r s) (hs : s <:+ t) : Behind r t := by
  obtain ⟨u, hne, rfl⟩ := h
  obtain ⟨v, rfl⟩ := hs
  exact ⟨v ++ u, List.append_ne_nil_of_right_ne_nil v hne, List.append_assoc v u r⟩

end Behind

theorem suffix_of_skipSpace {s r : List Char} (h : skipSpace s = r) : r <:+ s :=
  h ▸ List.dropWhile_suffix isSpace

theorem behind_of_takeName {s name r : List Char} (h : takeName s = some (name, r)) :
    Behind r s := by
  cases s with
  | nil => simp [takeName] at h
  | cons c s =>
      simp only [takeName] at h
      split at h
      · simp only [Option.some.injEq, Prod.mk.injEq] at h
        rw [← h.2]
        exact .cons c (List.dropWhile_suffix _)
      · exact absurd h (by simp)

theorem behind_of_takeQualified {s name r : List Char} (h : takeQualified s = some (name, r)) :
    Behind r s := by
  unfold takeQualified at h
  split at h
  · exact absurd h (by simp)
  · next hn =>
      simp only [Option.map_eq_some_iff, Prod.exists, Prod.mk.injEq] at h
      obtain ⟨label, t, ht, -, rfl⟩ := h
      exact (behind_of_takeName hn).after
        ((behind_of_takeName ht).suffix.trans (List.suffix_cons ':' _))
  · next hn =>
      simp only [Option.some.injEq, Prod.mk.injEq] at h
      rw [← h.2]
      exact behind_of_takeName hn

theorem suffix_of_cutWord {word s before after : List Char}
    (h : Text.cutWord word s = some (before, after)) : after <:+ s :=
  ⟨before ++ word, (Text.eq_of_cutWord h).symm⟩

theorem behind_of_cutFirst {sep : Char} {s before after : List Char}
    (h : Text.cutFirst sep s = some (before, after)) : Behind after s := by
  rw [Text.eq_of_cutFirst h]
  exact (Behind.cons sep List.suffix_rfl).within (List.suffix_append before _)

theorem suffix_of_afterComment {s r : List Char} (h : afterComment s = some r) : r <:+ s := by
  unfold afterComment at h
  split at h
  · next hc =>
      rw [← Option.some.inj h]
      exact (List.suffix_cons '>' _).trans (suffix_of_cutWord hc)
  · exact absurd h (by simp)

theorem suffix_of_afterInstruction {s r : List Char} (h : afterInstruction s = some r) :
    r <:+ s := by
  unfold afterInstruction at h
  split at h
  · exact absurd h (by simp)
  · next hn =>
      have hname := (behind_of_takeName hn).suffix
      split at h
      · exact absurd h (by simp)
      · split at h
        · rw [← Option.some.inj h]
          exact List.IsSuffix.trans ⟨['?', '>'], rfl⟩ hname
        · split at h
          · simp only [Option.map_eq_some_iff, Prod.exists] at h
            obtain ⟨before, after, hc, rfl⟩ := h
            exact (suffix_of_cutWord hc).trans ((List.suffix_cons _ _).trans hname)
          · exact absurd h (by simp)
        · exact absurd h (by simp)

theorem behind_of_takeCharacter {base : Nat} {isDigit : Char → Bool} {s r : List Char} {p : Piece}
    (h : takeCharacter base isDigit s = some (p, r)) : Behind r s := by
  unfold takeCharacter at h
  split at h
  · next hd =>
      split at h
      · exact absurd h (by simp)
      · simp only [Option.map_eq_some_iff, Prod.mk.injEq] at h
        obtain ⟨c, -, -, rfl⟩ := h
        exact (Behind.cons ';' List.suffix_rfl).within (hd ▸ List.dropWhile_suffix isDigit)
  · exact absurd h (by simp)

theorem behind_of_takeReference {s r : List Char} {p : Piece}
    (h : takeReference s = some (p, r)) : Behind r s := by
  unfold takeReference at h
  split at h
  · exact .cons '#' ((behind_of_takeCharacter h).suffix.trans (List.suffix_cons 'x' _))
  · exact .cons '#' (behind_of_takeCharacter h).suffix
  · split at h
    · next hn =>
        simp only [Option.some.injEq, Prod.mk.injEq] at h
        rw [← h.2]
        exact (behind_of_takeName hn).after (List.suffix_cons ';' _)
    · exact absurd h (by simp)

def valuePieces (s : List Char) : Option (List Piece) :=
  match s with
  | [] => some []
  | '<' :: _ => none
  | '&' :: s =>
    match _h : takeReference s with
    | some (p, r) => (valuePieces r).map (p :: ·)
    | none => none
  | c :: s => (valuePieces s).map (.char c :: ·)
termination_by s.length
decreasing_by
  · exact Nat.lt_succ_of_lt (behind_of_takeReference _h).length_lt
  · exact Nat.lt_succ_self _

def takeQuoted : List Char → Option (List Char × List Char)
  | '"' :: s => Text.cutFirst '"' s
  | '\'' :: s => Text.cutFirst '\'' s
  | _ => none

/-- A name, an equals sign and a value. -/
def takeAttribute (s : List Char) : Option (Attribute × List Char) :=
  match takeQualified s with
  | none => none
  | some (name, r) =>
    match skipSpace r with
    | '=' :: r =>
      match takeQuoted (skipSpace r) with
      | some (text, r) => (valuePieces text).map fun value => (⟨name, value⟩, r)
      | none => none
    | _ => none

theorem behind_of_takeQuoted {s text r : List Char} (h : takeQuoted s = some (text, r)) :
    Behind r s := by
  unfold takeQuoted at h
  split at h
  · exact .cons '"' (behind_of_cutFirst h).suffix
  · exact .cons '\'' (behind_of_cutFirst h).suffix
  · exact absurd h (by simp)

theorem behind_of_takeAttribute {s r : List Char} {a : Attribute}
    (h : takeAttribute s = some (a, r)) : Behind r s := by
  unfold takeAttribute at h
  split at h
  · exact absurd h (by simp)
  · next hn =>
      have hname := behind_of_takeQualified hn
      split at h
      · next rest he =>
          have hrest := (List.suffix_cons '=' rest).trans (suffix_of_skipSpace he)
          split at h
          · next hq =>
              simp only [Option.map_eq_some_iff, Prod.mk.injEq] at h
              obtain ⟨value, -, -, rfl⟩ := h
              exact hname.after (((behind_of_takeQuoted hq).suffix.trans
                (List.dropWhile_suffix isSpace)).trans hrest)
          · exact absurd h (by simp)
      · exact absurd h (by simp)

/-- The rest of an opening tag: its attributes, each with white space before it, and whether the tag
also closes the element. -/
def takeAttributes (s : List Char) : Option (List Attribute × Bool × List Char) :=
  match s with
  | [] => none
  | c :: s =>
    match skipSpace (c :: s) with
    | '>' :: r => some ([], false, r)
    | '/' :: '>' :: r => some ([], true, r)
    | _ =>
      if isSpace c then
        match _h : takeAttribute (skipSpace s) with
        | some (a, r) => (takeAttributes r).map fun (as, rest) => (a :: as, rest)
        | none => none
      else none
termination_by s.length
decreasing_by
  have hrest := (behind_of_takeAttribute _h).within (List.dropWhile_suffix isSpace)
  exact Nat.lt_succ_of_lt hrest.length_lt

/-- An opening tag, from after the angle bracket on. -/
def takeOpening (s : List Char) : Option (List Token × List Char) :=
  match takeQualified s with
  | none => none
  | some (name, r) => (takeAttributes r).map fun (attributes, closed, r) =>
    (.opening name attributes :: (if closed then [.closing name] else []), r)

/-- A closing tag, from after the slash on. -/
def takeClosing (s : List Char) : Option (List Token × List Char) :=
  let isLetter (c : Char) : Bool := isNameChar c || c == ':'
  match skipSpace (s.dropWhile isLetter) with
  | '>' :: r => some ([.closing (s.takeWhile isLetter)], r)
  | _ => none

/-- What begins a text, as tokens, and what follows it. -/
def nextTokens : List Char → Option (List Token × List Char)
  | '<' :: '!' :: '-' :: '-' :: s => (afterComment s).map ([], ·)
  | '<' :: '!' :: '[' :: 'C' :: 'D' :: 'A' :: 'T' :: 'A' :: '[' :: s =>
    (Text.cutWord [']', ']', '>'] s).map fun (body, r) => ([.text (.data body)], r)
  | '<' :: '?' :: s => (afterInstruction s).map ([], ·)
  | '<' :: '/' :: s => takeClosing s
  | '<' :: s => takeOpening s
  | '&' :: s => (takeReference s).map fun (p, r) => ([.text p], r)
  | ']' :: ']' :: '>' :: _ => none
  | c :: s => some ([.text (.char c)], s)
  | [] => none

theorem suffix_of_takeAttributes {s r : List Char} {as : List Attribute} {closed : Bool}
    (h : takeAttributes s = some (as, closed, r)) : r <:+ s := by
  fun_induction takeAttributes s generalizing as with
  | case1 => exact absurd h (by simp)
  | case2 c s t he =>
      simp only [Option.some.injEq, Prod.mk.injEq] at h
      rw [← h.2.2]
      exact (List.suffix_cons '>' t).trans (suffix_of_skipSpace he)
  | case3 c s t he =>
      simp only [Option.some.injEq, Prod.mk.injEq] at h
      rw [← h.2.2]
      exact List.IsSuffix.trans ⟨['/', '>'], rfl⟩ (suffix_of_skipSpace he)
  | case4 c s _ a t ha _ _ ih =>
      simp only [Option.map_eq_some_iff, Prod.exists, Prod.mk.injEq] at h
      obtain ⟨as', closed', r', hr, -, rfl, rfl⟩ := h
      have ht := (behind_of_takeAttribute ha).within (List.dropWhile_suffix isSpace)
      exact ((ih hr).trans ht.suffix).trans (List.suffix_cons c s)
  | case5 => exact absurd h (by simp)
  | case6 => exact absurd h (by simp)

theorem behind_of_takeOpening {s r : List Char} {ts : List Token}
    (h : takeOpening s = some (ts, r)) : Behind r s := by
  unfold takeOpening at h
  split at h
  · exact absurd h (by simp)
  · next hn =>
      simp only [Option.map_eq_some_iff, Prod.exists, Prod.mk.injEq] at h
      obtain ⟨as, closed, t, ht, -, rfl⟩ := h
      exact (behind_of_takeQualified hn).after (suffix_of_takeAttributes ht)

theorem suffix_of_takeClosing {s r : List Char} {ts : List Token}
    (h : takeClosing s = some (ts, r)) : r <:+ s := by
  unfold takeClosing at h
  simp only at h
  split at h
  · next he =>
      simp only [Option.some.injEq, Prod.mk.injEq] at h
      rw [← h.2]
      exact ((List.suffix_cons '>' _).trans (suffix_of_skipSpace he)).trans
        (List.dropWhile_suffix _)
  · exact absurd h (by simp)

theorem behind_of_nextTokens {s r : List Char} {ts : List Token}
    (h : nextTokens s = some (ts, r)) : Behind r s := by
  unfold nextTokens at h
  split at h
  · simp only [Option.map_eq_some_iff, Prod.mk.injEq] at h
    obtain ⟨t, ht, -, rfl⟩ := h
    exact .cons '<' ((suffix_of_afterComment ht).trans ⟨"!--".toList, rfl⟩)
  · simp only [Option.map_eq_some_iff, Prod.exists, Prod.mk.injEq] at h
    obtain ⟨body, t, ht, -, rfl⟩ := h
    exact .cons '<' ((suffix_of_cutWord ht).trans ⟨"![CDATA[".toList, rfl⟩)
  · simp only [Option.map_eq_some_iff, Prod.mk.injEq] at h
    obtain ⟨t, ht, -, rfl⟩ := h
    exact .cons '<' ((suffix_of_afterInstruction ht).trans (List.suffix_cons '?' _))
  · exact .cons '<' ((suffix_of_takeClosing h).trans (List.suffix_cons '/' _))
  · exact .cons '<' (behind_of_takeOpening h).suffix
  · simp only [Option.map_eq_some_iff, Prod.exists, Prod.mk.injEq] at h
    obtain ⟨p, t, ht, -, rfl⟩ := h
    exact .cons '&' (behind_of_takeReference ht).suffix
  · exact absurd h (by simp)
  · simp only [Option.some.injEq, Prod.mk.injEq] at h
    rw [← h.2]
    exact .cons _ List.suffix_rfl
  · exact absurd h (by simp)

def tokens (s : List Char) : Option (List Token) :=
  if s.isEmpty then some []
  else match _h : nextTokens s with
    | some (ts, r) => (tokens r).map (ts ++ ·)
    | none => none
termination_by s.length
decreasing_by exact (behind_of_nextTokens _h).length_lt

end DocumentSink.Xml
