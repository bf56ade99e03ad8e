/-!
Classes of characters, as tables of closed ranges of code points; the blank characters and trimming;
and the comparison of a text with a token. Trimming removes blanks at both ends and nothing else; a
text is blank when nothing is left of it. Main statements: a trimmed text has no blanks at its ends,
and trimming takes away what blanks are put around such a text.
-/

namespace DocumentSink.Text

/-- A code point is in a table when one of its ranges holds it. -/
def inRanges (ranges : List (Nat × Nat)) (n : Nat) : Bool :=
  ranges.any fun r => r.1 ≤ n && n ≤ r.2

theorem le_of_inRanges {ranges : List (Nat × Nat)} {m n : Nat} (h : ∀ r ∈ ranges, r.2 ≤ m)
    (hn : inRanges ranges n) : n ≤ m := by
  obtain ⟨r, hr, hle⟩ := List.any_eq_true.1 hn
  rw [Bool.and_eq_true, decide_eq_true_eq, decide_eq_true_eq] at hle
  exact Nat.le_trans hle.2 (h r hr)

/-- White space of Unicode: tab to carriage return, the information separators, the space, and the
separators past ASCII. -/
def blankRanges : List (Nat × Nat) := [
  (0x09, 0x0D), (0x1C, 0x20), (0x85, 0x85), (0xA0, 0xA0), (0x1680, 0x1680), (0x2000, 0x200A),
  (0x2028, 0x2029), (0x202F, 0x202F), (0x205F, 0x205F), (0x3000, 0x3000)]

def isBlank (c : Char) : Bool := inRanges blankRanges c.toNat

def trimStart (s : List Char) : List Char := s.dropWhile isBlank

def trimEnd (s : List Char) : List Char := (s.reverse.dropWhile isBlank).reverse

def trim (s : List Char) : List Char := trimEnd (trimStart s)

def trimmed (s : String) : String := .ofList (trim s.toList)

def Trimmed (s : List Char) : Prop :=
  (∀ c ∈ s.head?, isBlank c = false) ∧ ∀ c ∈ s.getLast?, isBlank c = false

theorem dropWhile_isBlank {s : List Char} (h : ∀ c ∈ s.head?, isBlank c = false) :
    s.dropWhile isBlank = s := by
  cases s with
  | nil => rfl
  | cons c s => rw [List.dropWhile_cons, h c rfl, if_neg Bool.false_ne_true]

theorem trim_of_trimmed {s : List Char} (h : Trimmed s) : trim s = s := by
  have hs : s.reverse.dropWhile isBlank = s.reverse :=
    dropWhile_isBlank (by rw [List.head?_reverse]; exact h.2)
  rw [trim, trimStart, dropWhile_isBlank h.1, trimEnd, hs, List.reverse_reverse]

theorem trimmed_of_no_blank {s : List Char} (h : ∀ c ∈ s, isBlank c = false) : Trimmed s :=
  ⟨fun c hc => h c (List.mem_of_mem_head? hc), fun c hc => h c (List.mem_of_getLast? hc)⟩

theorem no_blank_of_any {s : List Char} (h : s.any isBlank = false) :
    ∀ c ∈ s, isBlank c = false :=
  fun c hc => Bool.eq_false_iff.2 (List.any_eq_false.1 h c hc)

theorem mem_dropWhile {p : Char → Bool} {c : Char} {s : List Char} (h : c ∈ s) (hc : p c = false) :
    c ∈ s.dropWhile p := by
  rw [← List.takeWhile_append_dropWhile (p := p) (l := s), List.mem_append] at h
  rcases h with h | h
  · rw [List.all_eq_true.1 List.all_takeWhile c h] at hc
    cases hc
  · exact h

/-- Trimming keeps what is no blank. -/
theorem mem_trim {c : Char} {s : List Char} (h : c ∈ s) (hc : isBlank c = false) : c ∈ trim s := by
  rw [trim, trimEnd, List.mem_reverse]
  exact mem_dropWhile (List.mem_reverse.2 (mem_dropWhile h hc)) hc

theorem isBlank_of_head_dropWhile {c : Char} {s : List Char}
    (h : c ∈ (s.dropWhile isBlank).head?) : isBlank c = false := by
  have hnot := List.head?_dropWhile_not isBlank s
  rw [h] at hnot
  exact hnot

theorem prefix_trimEnd (s : List Char) : trimEnd s <+: s := by
  have hsuffix : s.reverse.dropWhile isBlank <:+ s.reverse := List.dropWhile_suffix isBlank
  have hprefix := List.reverse_prefix.2 hsuffix
  rwa [List.reverse_reverse] at hprefix

theorem trim_infix (s : List Char) : trim s <:+: s :=
  (prefix_trimEnd _).isInfix.trans (List.dropWhile_suffix isBlank).isInfix

/-- Nothing blank is left at the ends. -/
theorem trimmed_trim (s : List Char) : Trimmed (trim s) := by
  refine ⟨fun c hc => ?_, fun c hc => ?_⟩
  · obtain ⟨rest, hrest⟩ := prefix_trimEnd (trimStart s)
    apply isBlank_of_head_dropWhile (s := s)
    rw [← trimStart, ← hrest, List.head?_append]
    rw [trim] at hc
    rw [hc]
    rfl
  · rw [trim, trimEnd, List.getLast?_reverse] at hc
    exact isBlank_of_head_dropWhile hc

theorem trim_of_blank {s : List Char} (h : ∀ c ∈ s, isBlank c = true) : trim s = [] := by
  have hstart : trimStart s = [] := by
    rw [trimStart, ← List.append_nil s, List.dropWhile_append_of_pos h]
    rfl
  rw [trim, hstart]
  rfl

theorem trim_eq_nil_iff {s : List Char} : trim s = [] ↔ ∀ c ∈ s, isBlank c = true := by
  refine ⟨fun h c hc => ?_, trim_of_blank⟩
  cases hblank : isBlank c with
  | true => rfl
  | false =>
      have hmem := mem_trim hc hblank
      rw [h] at hmem
      cases hmem

/-- Blanks put around a text are what trimming takes away. -/
theorem trim_append {a s b : List Char} (ha : ∀ c ∈ a, isBlank c = true) (hs : Trimmed s)
    (hb : ∀ c ∈ b, isBlank c = true) : trim (a ++ s ++ b) = s := by
  cases s with
  | nil =>
      rw [List.append_nil]
      exact trim_of_blank fun c hc => (List.mem_append.1 hc).elim (ha c) (hb c)
  | cons c s =>
      have hstart : trimStart (a ++ (c :: s) ++ b) = c :: s ++ b := by
        rw [trimStart, List.append_assoc, List.dropWhile_append_of_pos ha]
        exact dropWhile_isBlank hs.1
      have hend : (c :: s).reverse.dropWhile isBlank = (c :: s).reverse :=
        dropWhile_isBlank (by rw [List.head?_reverse]; exact hs.2)
      have hb' : ∀ d ∈ b.reverse, isBlank d = true := fun d hd => hb d (List.mem_reverse.1 hd)
      rw [trim, hstart, trimEnd, List.reverse_append, List.dropWhile_append_of_pos hb', hend,
        List.reverse_reverse]

/-- Whatever stands between two trimmed texts. -/
theorem trimmed_between {a b : List Char} (ha : Trimmed a) (hane : a ≠ []) (hb : Trimmed b)
    (hbne : b ≠ []) (m : List Char) : Trimmed (a ++ m ++ b) := by
  refine ⟨fun c hc => ha.1 c ?_, fun c hc => hb.2 c ?_⟩
  · cases a with
    | nil => exact absurd rfl hane
    | cons d a => exact hc
  · have hlast := List.getLast?_eq_some_getLast hbne
    rw [List.getLast?_append, hlast] at hc
    rw [hlast]
    exact hc

/-- The same letters, in upper or lower case. Every token of the program is plain ASCII without the
letter k, and no character past ASCII folds to another letter that a token holds, so folding the
ASCII letters decides it. -/
def sameLetters (a b : List Char) : Bool := a.map Char.toLower == b.map Char.toLower

/-- The same letters, on strings. -/
def sameToken (a b : String) : Bool := sameLetters a.toList b.toList

end DocumentSink.Text
