import DocumentSink.Path
import DocumentSink.Proofs.Substitution

/-!
Segments of a path. A path that is not blank has one segment more than it has points, also where
points stand at its ends or next to each other, and no segment holds a point. Main statement:
joining the segments undoes the compilation, and the compilation undoes joining.
-/

namespace DocumentSink

/-- A path of white space alone; an empty one is blank too. -/
def BlankPath (path : String) : Prop := ∀ c ∈ path.toList, Text.isBlank c = true

instance (path : String) : Decidable (BlankPath path) :=
  decidable_of_iff (path.toList.all Text.isBlank = true) List.all_eq_true

section Compiling

variable {vars : Variables} {path s : String}

theorem compilePath_of_blank (h : BlankPath (vars.substitute path)) :
    compilePath vars path = [] := by
  rw [compilePath, Text.trim_of_blank h]
  rfl

theorem compilePath_of_not_blank (h : ¬ BlankPath (vars.substitute path)) :
    compilePath vars path = Text.splitOn '.' (vars.substitute path) := by
  rw [BlankPath, ← Text.trim_eq_nil_iff, ← List.isEmpty_iff] at h
  rw [compilePath, if_neg h]
  rfl

theorem compilePath_eq_nil_iff : compilePath vars path = [] ↔ BlankPath (vars.substitute path) := by
  refine ⟨?_, compilePath_of_blank⟩
  intro h
  by_cases hblank : BlankPath (vars.substitute path)
  · exact hblank
  · rw [compilePath_of_not_blank hblank, Text.splitOn, List.map_eq_nil_iff] at h
    exact absurd h (Text.split_ne_nil _ _)

/-- No segment of a compiled path holds a point. -/
theorem no_point_of_mem_compilePath (h : s ∈ compilePath vars path) : '.' ∉ s.toList := by
  by_cases hblank : BlankPath (vars.substitute path)
  · rw [compilePath_of_blank hblank] at h
    cases h
  · rw [compilePath_of_not_blank hblank] at h
    obtain ⟨part, hpart, rfl⟩ := List.mem_map.1 h
    rw [String.toList_ofList]
    exact Text.not_mem_of_mem_split hpart

theorem length_compilePath (h : ¬ BlankPath (vars.substitute path)) :
    (compilePath vars path).length = (vars.substitute path).toList.count '.' + 1 := by
  rw [compilePath_of_not_blank h, Text.splitOn, List.length_map, Text.length_split]

theorem joinWith_compilePath (h : ¬ BlankPath (vars.substitute path)) :
    Text.joinWith '.' (compilePath vars path) = vars.substitute path := by
  rw [compilePath_of_not_blank h, Text.joinWith_splitOn]

theorem compilePath_joinWith {segments : List String} (hne : segments ≠ [])
    (hpoint : ∀ s ∈ segments, '.' ∉ s.toList) (h : ¬ BlankPath (Text.joinWith '.' segments)) :
    compilePath [] (Text.joinWith '.' segments) = segments := by
  rw [← Variables.substitute_nil (Text.joinWith '.' segments)] at h
  rw [compilePath_of_not_blank h, Variables.substitute_nil, Text.splitOn_joinWith hne hpoint]

end Compiling

/-- What the variables make of a path is compiled to nothing exactly if it is blank, and else to
segments without points, one more than it has points, which it is joined from. Segments without
points are what their join is compiled to, unless that is blank. -/
theorem compilePath_inverse (vars : Variables) (path : String) :
    let text := vars.substitute path
    let segments := compilePath vars path
    (segments = [] ↔ BlankPath text) ∧
      (¬ BlankPath text → Text.joinWith '.' segments = text ∧
        (∀ s ∈ segments, '.' ∉ s.toList) ∧ segments.length = text.toList.count '.' + 1) ∧
      ∀ parts : List String, parts ≠ [] → (∀ s ∈ parts, '.' ∉ s.toList) →
        ¬ BlankPath (Text.joinWith '.' parts) →
          compilePath [] (Text.joinWith '.' parts) = parts := by
  intro text segments
  refine ⟨compilePath_eq_nil_iff, ?_, fun _ => compilePath_joinWith⟩
  intro h
  exact ⟨joinWith_compilePath h, fun _ => no_point_of_mem_compilePath, length_compilePath h⟩

/-- A variable brings a point and a blank, and points stand next to each other and at the end. -/
theorem compilePath_inverse_doubled :
    let vars : Variables := [("P", .text "x. ")]
    let path := "a.$\x7bP\x7d.."
    compilePath vars path = ["a", "x", " ", "", ""] ∧
      Text.joinWith '.' (compilePath vars path) = "a.x. .." ∧
      compilePath [] "a.x. .." = ["a", "x", " ", "", ""] := by
  intro vars path
  have h := compilePath_inverse vars path
  have htext : vars.substitute path = "a.x. .." := by decide +kernel
  have hsegments : compilePath vars path = ["a", "x", " ", "", ""] := by decide +kernel
  have hblank : ¬ BlankPath "a.x. .." := by decide +kernel
  refine ⟨hsegments, ?_, ?_⟩
  · rw [← htext]
    exact (h.2.1 (htext ▸ hblank)).1
  · exact h.2.2 ["a", "x", " ", "", ""] (List.cons_ne_nil _ _) (by decide +kernel) hblank

end DocumentSink
