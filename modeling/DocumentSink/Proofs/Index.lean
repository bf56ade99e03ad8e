import DocumentSink.Builder
import DocumentSink.Definition.Shape
import DocumentSink.Proofs.Compile
import DocumentSink.Proofs.Substitution
import Mathlib.Data.List.ReduceOption

/-!
Indexes without terms. A specification writes none exactly where it resolves to commas and blanks.
A built definition has no such specification, except those that refer to variables: these are not
looked at when the definition is built, and compiling it does not refuse them either.
-/

namespace DocumentSink

theorem reduceOption_of_mapM {ε α β : Type} {f : α → Except ε (Option β)} {l : List α}
    {os : List (Option β)} (h : l.mapM f = .ok os) :
    os.reduceOption = [] ↔ ∀ a ∈ l, f a = .ok none := by
  induction mapM_eq_ok_iff.1 h with
  | nil => exact ⟨fun _ => List.forall_mem_nil _, fun _ => rfl⟩
  | @cons a o l os ha hl ih =>
      have ih := ih (mapM_eq_ok_iff.2 hl)
      rw [List.forall_mem_cons, ha]
      cases o with
      | none => rw [List.reduceOption_cons_of_none, ih, and_iff_right rfl]
      | some b =>
          rw [List.reduceOption_cons_of_some]
          exact ⟨nofun, nofun⟩

/-- A part writes no term exactly where it is blank. -/
theorem IndexTerm.ofPart_eq_none {spec : String} {part : List Char} :
    ofPart spec part = .ok none ↔ Text.trim part = [] := by
  rw [ofPart, ← List.isEmpty_iff]
  cases (Text.trim part).isEmpty with
  | true => exact ⟨fun _ => rfl, fun _ => rfl⟩
  | false =>
      dsimp only
      rw [if_neg Bool.false_ne_true]
      refine ⟨?_, nofun⟩
      intro hnone
      -- any other part writes a term or has a fault, whether there is a direction or not
      cases hcut : Text.cutFirst ':' (Text.trim part) with
      | none =>
          rw [hcut] at hnone
          dsimp only at hnone
          split at hnone
          · cases hnone
          · cases hnone
      | some halves =>
          rw [hcut] at hnone
          dsimp only at hnone
          split at hnone
          · cases hnone
          · split at hnone
            · cases hnone
            · cases hnone

/-- What a specification resolves to is nothing but commas and blanks. -/
def IndexSpec.IsBlank (i : IndexSpec) (vars : Variables) : Prop :=
  ∀ part ∈ Text.split ',' (vars.substitute i.fieldSpec).toList, Text.trim part = []

theorem IndexSpec.terms_eq_nil_iff {i : IndexSpec} {vars : Variables} {terms : List IndexTerm}
    (h : i.terms vars = .ok terms) : terms = [] ↔ i.IsBlank vars := by
  obtain ⟨os, hos, rfl⟩ := map_eq_ok.1 h
  rw [reduceOption_of_mapM hos]
  simp only [IndexTerm.ofPart_eq_none]
  rfl

theorem IndexSpec.isBlank_of_no_references {i : IndexSpec}
    (h : Variables.hasReferences i.fieldSpec = false) (vars : Variables) :
    i.IsBlank vars ↔ i.IsBlank [] := by
  rw [IsBlank, IsBlank, Variables.substitute_of_no_references h,
    Variables.substitute_of_no_references h]

namespace Builder

variable {rules : Validation} {b : Builder} {d : Built} {i : IndexSpec}

theorem not_isBlank_of_check (h : checkIndex i = .ok ())
    (href : Variables.hasReferences i.fieldSpec = false) : ¬ i.IsBlank [] := by
  rw [checkIndex, if_neg (by rw [href]; exact Bool.false_ne_true)] at h
  split at h
  · cases h
  · cases h
  · next t ts hterms =>
      rw [← IndexSpec.terms_eq_nil_iff hterms]
      exact List.cons_ne_nil t ts

theorem indexes_of_build (h : b.build rules = .ok d) :
    d.indexes = b.indexes ∧ ∀ i ∈ b.indexes, checkIndex i = .ok () := by
  obtain ⟨_, hchecks, h⟩ := bind_eq_ok.1 h
  obtain ⟨_, -, h⟩ := bind_eq_ok.1 h
  cases h
  exact ⟨rfl, forM_eq_ok.1 (mapError_eq_ok.1 hchecks)⟩

/-- Whatever a builder has collected and however it is validated, a plan of what is built has all
its indexes. One of them has no terms exactly where its specification refers to variables and they
make it all commas and blanks. -/
theorem terms_of_build {later : Builder} {vars : Variables} {plan : Plan}
    (hbuild : b.build rules = .ok d) (hplan : (d.definition later).compile vars = .ok plan) :
    plan.indexes.map (·.spec) = b.indexes ∧
      ∀ i ∈ plan.indexes, i.terms = [] ↔
        Variables.hasReferences i.spec.fieldSpec = true ∧ i.spec.IsBlank vars := by
  obtain ⟨hindexes, hchecks⟩ := indexes_of_build hbuild
  obtain ⟨hspecs, hterms⟩ := Definition.indexes_of_compile hplan
  have hall : plan.indexes.map (·.spec) = b.indexes := hspecs.trans hindexes
  refine ⟨hall, ?_⟩
  intro i hi
  rw [IndexSpec.terms_eq_nil_iff (hterms i hi)]
  refine ⟨fun hblank => ⟨?_, hblank⟩, And.right⟩
  by_contra href
  rw [Bool.not_eq_true] at href
  have hmem : i.spec ∈ b.indexes := hall ▸ List.mem_map_of_mem hi
  exact not_isBlank_of_check (hchecks _ hmem) href
    ((IndexSpec.isBlank_of_no_references href vars).1 hblank)

/-- The second index refers to a variable. -/
def referring : Builder where
  indexes := [{ fieldSpec := "a.b,c:-1" }, { fieldSpec := "$\x7bX\x7d, " }]

theorem terms_of_build_referring :
    let d : Built := ⟨{}, [], referring.indexes⟩
    let vars : Variables := [("X", .text " ,")]
    ∃ plan, referring.build .lax = .ok d ∧ (d.definition referring).compile vars = .ok plan ∧
      plan.indexes.map (·.spec) = referring.indexes ∧
      (∀ i ∈ plan.indexes, i.terms = [] ↔
        Variables.hasReferences i.spec.fieldSpec = true ∧ i.spec.IsBlank vars) ∧
      plan.indexes.map (·.terms) = [[⟨"a.b", .ascending⟩, ⟨"c", .descending⟩], []] := by
  intro d vars
  have hchecks : referring.indexes.forM checkIndex = .ok () := by
    decide +kernel
  have hbuild : referring.build .lax = .ok d := by
    rw [build, hchecks]
    rfl
  have hread : ((d.definition referring).indexes.mapM fun i => do
      return IndexPlan.mk i (← i.terms vars)) = .ok [
      ⟨{ fieldSpec := "a.b,c:-1" }, [⟨"a.b", .ascending⟩, ⟨"c", .descending⟩]⟩,
      ⟨{ fieldSpec := "$\x7bX\x7d, " }, []⟩] := by
    decide +kernel
  have hplan := Definition.compile_eq_ok.2 ⟨_, hread, rfl⟩
  obtain ⟨hspecs, hterms⟩ := terms_of_build hbuild hplan
  exact ⟨_, hbuild, hplan, hspecs, hterms, rfl⟩

/-- What `index` makes of a specification that is one reference. -/
def deferring : Builder where
  options := [("db_name", .text "shop"), ("collection", .text "orders")]
  indexes := [{ fieldSpec := "$\x7bX\x7d" }]

/-- A specification that is one reference is built and compiled, and has no terms, where the value
is empty. -/
theorem terms_of_empty_reference :
    let d : Built := ⟨{ dbName := "shop", collection := "orders" }, [], deferring.indexes⟩
    ∃ plan, (start (.text "shop") (.text "orders")).call .lax
        (.index (.text "$\x7bX\x7d") (.bool false) (.bool false) (.bool false)) =
          (deferring, .ok ()) ∧
      deferring.build .lax = .ok d ∧ (d.definition deferring).compile [("X", .text "")] = .ok plan ∧
      plan.indexes = [⟨{ fieldSpec := "$\x7bX\x7d" }, []⟩] := by
  intro d
  have hchecks : deferring.indexes.forM checkIndex = .ok () := by
    decide +kernel
  have hbuild : deferring.build .lax = .ok d := by
    rw [build, hchecks]
    rfl
  have hread : ((d.definition deferring).indexes.mapM fun i => do
      return IndexPlan.mk i (← i.terms [("X", .text "")])) =
        .ok [⟨{ fieldSpec := "$\x7bX\x7d" }, []⟩] := by
    decide +kernel
  exact ⟨_, rfl, hbuild, Definition.compile_eq_ok.2 ⟨_, hread, rfl⟩, rfl⟩

end Builder

end DocumentSink
