import DocumentSink.Proofs.Substitution
import Mathlib.Logic.ExistsUnique

/-!
Texts between their references. A text falls into literal parts and references in exactly one way, if
no reference may begin inside a literal part. Main statement: substitution keeps the literal parts
and replaces each reference by the value of its name, if there is one; nothing else of the variables
counts.
-/

namespace DocumentSink.Variables

/-- The character that ends a name. -/
def Form.stop : Form → Char
  | .braces => '\x7d'
  | .percents => '%'

/-- A reference has a name, and the name does not hold the character that ends it. -/
structure Reference.IsProper (r : Reference) : Prop where
  name_ne_nil : r.name ≠ []
  stop_not_mem : r.form.stop ∉ r.name

def BeginsWithReference (s : List Char) : Prop :=
  ∃ r : Reference, r.IsProper ∧ r.written <+: s

/-- A literal part, and then references, each with the literal part behind it. -/
structure Segmentation where
  first : List Char
  rest : List (Reference × List Char)
  deriving DecidableEq, Repr

def writtenRest (rest : List (Reference × List Char)) : List Char :=
  rest.flatMap fun p => p.1.written ++ p.2

/-- No reference begins inside a literal part, with what follows it in sight. -/
def IsLiteral (l follows : List Char) : Prop :=
  ∀ u v, l = u ++ v → v ≠ [] → ¬ BeginsWithReference (v ++ follows)

namespace Segmentation

def references (g : Segmentation) : List Reference := g.rest.map (·.1)

def written (g : Segmentation) : List Char := g.first ++ writtenRest g.rest

/-- A text is written as the parts say, and the parts are what they should be. -/
structure Divides (g : Segmentation) (s : List Char) : Prop where
  written : g.written = s
  proper : ∀ r ∈ g.references, r.IsProper
  first : IsLiteral g.first (writtenRest g.rest)
  rest : ∀ before r l after, g.rest = before ++ (r, l) :: after → IsLiteral l (writtenRest after)

end Segmentation

/-- What stands for a reference: the value of its name as text, or the reference as written. -/
def replacement (vars : Variables) (r : Reference) : List Char :=
  match vars.get? (.ofList r.name) with
  | none => r.written
  | some .null => r.written
  | some v => v.display.toList

def Segmentation.replaced (vars : Variables) (g : Segmentation) : List Char :=
  g.first ++ g.rest.flatMap fun p => vars.replacement p.1 ++ p.2

section Scanning

variable {r : Reference} {s t l : List Char} {c : Char}

theorem nameBefore_of_not_mem {stop : Char} {name : List Char} (hne : name ≠ [])
    (hstop : stop ∉ name) (t : List Char) :
    nameBefore stop (name ++ stop :: t) = some (name, stop :: t) := by
  have hall : ∀ c ∈ name, (c != stop) = true := by
    intro c hc
    rw [bne_iff_ne]
    rintro rfl
    exact hstop hc
  have htake : (name ++ stop :: t).takeWhile (· != stop) = name := by
    rw [List.takeWhile_append_of_pos hall, List.takeWhile_cons_of_neg (by simp), List.append_nil]
  have hdrop : (name ++ stop :: t).dropWhile (· != stop) = stop :: t := by
    rw [List.dropWhile_append_of_pos hall, List.dropWhile_cons_of_neg (by simp)]
  rw [nameBefore, htake, hdrop, if_neg (by simpa using hne)]

theorem proper_of_nameBefore {stop : Char} {name : List Char}
    (h : nameBefore stop s = some (name, t)) : name ≠ [] ∧ stop ∉ name := by
  rw [nameBefore] at h
  split at h
  · cases h
  · next hne =>
      cases h
      refine ⟨by simpa using hne, fun hmem => ?_⟩
      have hne := List.all_eq_true.1 List.all_takeWhile stop hmem
      rw [bne_self_eq_false] at hne
      cases hne

theorem reference?_written (h : r.IsProper) (t : List Char) :
    reference? (r.written ++ t) = some (r, t) := by
  obtain ⟨form, name⟩ := r
  cases form with
  | braces =>
      have hname := nameBefore_of_not_mem h.name_ne_nil h.stop_not_mem t
      simp only [Form.stop] at hname
      simp [Reference.written, reference?, hname]
  | percents =>
      have hname := nameBefore_of_not_mem h.name_ne_nil h.stop_not_mem ('%' :: t)
      simp only [Form.stop] at hname
      simp [Reference.written, reference?, hname]

theorem proper_of_reference? (h : reference? s = some (r, t)) : r.IsProper := by
  unfold reference? at h
  split at h
  · split at h
    · next hn =>
        cases h
        exact ⟨(proper_of_nameBefore hn).1, (proper_of_nameBefore hn).2⟩
    · cases h
  · split at h
    · next hn =>
        cases h
        exact ⟨(proper_of_nameBefore hn).1, (proper_of_nameBefore hn).2⟩
    · cases h
  · cases h

theorem reference?_eq_none : reference? s = none ↔ ¬ BeginsWithReference s := by
  constructor
  · rintro h ⟨r, hr, t, rfl⟩
    rw [reference?_written hr] at h
    cases h
  · intro h
    cases hs : reference? s with
    | none => rfl
    | some p =>
        obtain ⟨r, t⟩ := p
        exact absurd ⟨r, proper_of_reference? hs, t, (eq_written_of_reference? hs).symm⟩ h

theorem pieces_written (h : r.IsProper) (t : List Char) :
    pieces (r.written ++ t) = .reference r :: pieces t := by
  have href := reference?_written h t
  rw [pieces]
  split
  · next h' =>
      rw [href] at h'
      cases h'
      rfl
  · next h' =>
      rw [href] at h'
      cases h'

theorem pieces_char (h : ¬ BeginsWithReference (c :: t)) :
    pieces (c :: t) = .char c :: pieces t := by
  have href := reference?_eq_none.2 h
  rw [pieces]
  split
  · next h' =>
      rw [href] at h'
      cases h'
  · rfl

theorem IsLiteral.nil (t : List Char) : IsLiteral [] t := by
  rintro u v h hv
  exact absurd (List.append_eq_nil_iff.1 h.symm).2 hv

theorem isLiteral_cons :
    IsLiteral (c :: l) t ↔ ¬ BeginsWithReference (c :: (l ++ t)) ∧ IsLiteral l t := by
  constructor
  · intro h
    refine ⟨h [] (c :: l) rfl (List.cons_ne_nil c l), ?_⟩
    rintro u v rfl hv
    exact h (c :: u) v rfl hv
  · rintro ⟨hc, hl⟩ u v hsplit hv
    cases u with
    | nil =>
        cases hsplit
        exact hc
    | cons d u =>
        cases hsplit
        exact hl u v rfl hv

theorem pieces_literal (h : IsLiteral l t) : pieces (l ++ t) = l.map .char ++ pieces t := by
  induction l with
  | nil => rfl
  | cons c l ih =>
      obtain ⟨hc, hl⟩ := isLiteral_cons.1 h
      rw [List.cons_append, pieces_char hc, ih hl]
      rfl

end Scanning

namespace Segmentation

variable {g g' : Segmentation} {s : List Char}

/-- The characters and references of the parts, in order. -/
def pieces (g : Segmentation) : List Piece :=
  g.first.map .char ++ g.rest.flatMap fun p => .reference p.1 :: p.2.map .char

/-- The parts that characters and references make up. -/
def ofPieces : List Piece → Segmentation
  | [] => ⟨[], []⟩
  | .char c :: ps => { ofPieces ps with first := c :: (ofPieces ps).first }
  | .reference r :: ps => ⟨[], (r, (ofPieces ps).first) :: (ofPieces ps).rest⟩

theorem ofPieces_literal (l : List Char) (ps : List Piece) :
    ofPieces (l.map .char ++ ps) = ⟨l ++ (ofPieces ps).first, (ofPieces ps).rest⟩ := by
  induction l with
  | nil => rfl
  | cons c l ih => rw [List.map_cons, List.cons_append, ofPieces, ih]; rfl

theorem ofPieces_pieces (g : Segmentation) : ofPieces g.pieces = g := by
  obtain ⟨first, rest⟩ := g
  have hrest : ofPieces (rest.flatMap fun p => .reference p.1 :: p.2.map .char) = ⟨[], rest⟩ := by
    induction rest with
    | nil => rfl
    | cons p rest ih =>
        rw [List.flatMap_cons, List.cons_append, ofPieces, ofPieces_literal, ih, List.append_nil]
  rw [pieces, ofPieces_literal, hrest, List.append_nil]

/-- The scanner finds the parts of a text. -/
theorem Divides.pieces_eq (h : g.Divides s) : Variables.pieces s = g.pieces := by
  obtain ⟨first, rest⟩ := g
  have hrest : Variables.pieces (writtenRest rest) =
      rest.flatMap fun p => .reference p.1 :: p.2.map .char := by
    have hproper := h.proper
    have hliteral := h.rest
    -- What is induced on is the rest alone, whatever stands before it.
    clear h
    simp only [references] at hproper hliteral
    induction rest with
    | nil => rw [writtenRest, List.flatMap_nil, Variables.pieces]; rfl
    | cons p rest ih =>
        obtain ⟨r, l⟩ := p
        obtain ⟨hr, hproper⟩ := List.forall_mem_cons.1 hproper
        have hl := hliteral [] r l rest rfl
        have ih := ih hproper fun before r l after hsplit =>
          hliteral ((_, _) :: before) r l after (congrArg _ hsplit)
        rw [writtenRest, List.flatMap_cons, List.append_assoc, pieces_written hr]
        rw [writtenRest] at ih hl
        rw [pieces_literal hl, ih, List.flatMap_cons]
        rfl
  have hs : first ++ writtenRest rest = s := h.written
  rw [← hs, pieces_literal h.first, hrest]
  rfl

theorem Divides.unique (h : g.Divides s) (h' : g'.Divides s) : g = g' := by
  rw [← ofPieces_pieces g, ← ofPieces_pieces g', ← h.pieces_eq, ← h'.pieces_eq]

theorem divides_nil : (⟨[], []⟩ : Segmentation).Divides [] := by
  refine ⟨rfl, List.forall_mem_nil _, .nil _, ?_⟩
  intro before r l after h
  cases before <;> cases h

theorem Divides.cons_char {c : Char} (h : g.Divides s) (hc : ¬ BeginsWithReference (c :: s)) :
    Divides { g with first := c :: g.first } (c :: s) := by
  refine ⟨congrArg (c :: ·) h.written, h.proper, isLiteral_cons.2 ⟨?_, h.first⟩, h.rest⟩
  have hs : g.first ++ writtenRest g.rest = s := h.written
  dsimp only
  rw [hs]
  exact hc

theorem Divides.cons_reference {r : Reference} (h : g.Divides s) (hr : r.IsProper) :
    Divides ⟨[], (r, g.first) :: g.rest⟩ (r.written ++ s) := by
  refine ⟨?_, List.forall_mem_cons.2 ⟨hr, h.proper⟩, .nil _, ?_⟩
  · rw [← h.written, Segmentation.written, Segmentation.written, writtenRest, List.flatMap_cons,
      writtenRest, List.nil_append, List.append_assoc]
  · intro before r' l after hsplit
    cases before with
    | nil =>
        cases hsplit
        exact h.first
    | cons p before => exact h.rest before r' l after (List.cons.inj hsplit).2

theorem divides_ofPieces (s : List Char) : (ofPieces (Variables.pieces s)).Divides s := by
  fun_induction Variables.pieces s with
  | case1 s r t h ih =>
      rw [eq_written_of_reference? h]
      exact ih.cons_reference (proper_of_reference? h)
  | case2 h => exact divides_nil
  | case3 c t h ih => exact ih.cons_char (reference?_eq_none.1 h)

theorem textOf_reference (vars : Variables) (r : Reference) :
    vars.textOf (.reference r) = vars.replacement r := by
  rw [textOf, text?, replacement]
  cases vars.get? (.ofList r.name) with
  | none => rfl
  | some v => cases v <;> rfl

/-- What the parts become piece by piece. -/
theorem flatMap_textOf (vars : Variables) (g : Segmentation) :
    g.pieces.flatMap vars.textOf = g.replaced vars := by
  have hchars (l : List Char) : (l.map Piece.char).flatMap vars.textOf = l := by
    induction l with
    | nil => rfl
    | cons c l ih => exact congrArg (c :: ·) ih
  rw [pieces, replaced, List.flatMap_append, hchars, List.flatMap_assoc]
  simp only [List.flatMap_cons, textOf_reference, hchars]

end Segmentation

/-- A text falls into literal parts and references in exactly one way. Substitution keeps the
literal parts and puts for each reference the value of its name, or the reference again where there
is no value. So variables that hold the same under the names in a text make the same of it. -/
theorem substitute_of_divides (text : String) :
    (∃! g : Segmentation, g.Divides text.toList) ∧
      ∀ g : Segmentation, g.Divides text.toList →
        (∀ vars, (substitute vars text).toList = g.replaced vars) ∧
          ∀ vars vars' : Variables,
            (∀ r ∈ g.references, vars.get? (.ofList r.name) = vars'.get? (.ofList r.name)) →
              substitute vars text = substitute vars' text := by
  have hunique : ∃! g : Segmentation, g.Divides text.toList :=
    ⟨_, Segmentation.divides_ofPieces text.toList,
      fun g hg => hg.unique (Segmentation.divides_ofPieces text.toList)⟩
  refine ⟨hunique, fun g hg => ?_⟩
  have hsubstitute (vars : Variables) : (substitute vars text).toList = g.replaced vars := by
    rw [substitute, String.toList_ofList, hg.pieces_eq, Segmentation.flatMap_textOf]
  refine ⟨hsubstitute, fun vars vars' hvars => ?_⟩
  apply String.toList_injective
  rw [hsubstitute, hsubstitute, Segmentation.replaced, Segmentation.replaced]
  congr 1
  rw [List.flatMap_def, List.flatMap_def]
  congr 1
  apply List.map_congr_left
  intro p hp
  rw [replacement, replacement, hvars p.1 (List.mem_map_of_mem hp)]

/-- Percent signs side by side, a name with the mark of the other form in it, adjacent references,
and one that is not ended. -/
def tangled : String := "%%%A%%$\x7b%%B%%\x7d%%a%%b%%$\x7bc"

def tangledParts : Segmentation where
  first := ['%']
  rest := [(⟨.percents, ['A']⟩, []), (⟨.braces, ['%', '%', 'B', '%', '%']⟩, []),
    (⟨.percents, ['a']⟩, "b%%$\x7bc".toList)]

theorem substitute_of_divides_tangled :
    let vars : Variables :=
      [("A", .text "$\x7ba\x7d"), ("%%B%%", .null), ("a", .int 7), ("B", .int 1)]
    let vars' : Variables := [("%%B%%", .null), ("a", .int 7), ("A", .text "$\x7ba\x7d")]
    tangledParts.Divides tangled.toList ∧
      substitute vars tangled = "%$\x7ba\x7d$\x7b%%B%%\x7d7b%%$\x7bc" ∧
      substitute vars tangled = substitute vars' tangled := by
  intro vars vars'
  have hdivides : tangledParts.Divides tangled.toList := by
    have hpieces : Segmentation.ofPieces (pieces tangled.toList) = tangledParts := by
      decide +kernel
    rw [← hpieces]
    exact Segmentation.divides_ofPieces tangled.toList
  obtain ⟨-, hparts⟩ := substitute_of_divides tangled
  obtain ⟨hsubstitute, hsame⟩ := hparts tangledParts hdivides
  refine ⟨hdivides, ?_, hsame vars vars' ?_⟩
  · apply String.toList_injective
    rw [hsubstitute]
    decide +kernel
  · rw [show tangledParts.references = [_, _, _] from rfl]
    simp only [List.forall_mem_cons]
    exact ⟨rfl, rfl, rfl, List.forall_mem_nil _⟩

end DocumentSink.Variables
