import DocumentSink.Proofs.Attributes
import DocumentSink.Proofs.Markup

/-!
The two loads agree. A content is shown by an element of markup and kept by a store; what either
reads is the content, up to texts under codes that mean nothing. Each has its own way through it, and
both give the definition that the content stands for, or fail in the same way, whatever is missing,
blank or unknown in it.
-/

namespace DocumentSink

variable {c : Step} {s : AttributeStore} {step : String}

/-- A text that shows a content is read as what the content stands for. -/
theorem Markup.decode_of_shows (hc : c.Coded) {text : Wide} {root e : Xml.Element}
    (hroot : document text = .ok root) (he : root.find? stepTag = some e) (hshows : Shows e c) :
    decode text = c.definition.mapError .ofContent := by
  rw [decode_of_document hroot, outcome_of_find he, (agrees_of_shows hc hshows).definition]

/-- The tree of a content is the document of a text. -/
theorem Markup.document_of_carried (hc : c.Coded) (h : StepCarried c) :
    document (.ofChars (Xml.write 0 (tree c))) = .ok (Xml.laidOut 0 (tree c)) := by
  rw [document, Wide.chars_ofChars, mapError_ok, ok_bind,
    characters?_of_no_null (null_not_mem_write hc h), Option.bind_eq_bind, Option.bind_some,
    Xml.read_write (writable_tree hc h)]
  rfl

namespace AttributeStore

/-- Without rows a content lacks its flags. -/
theorem definition_of_no_rows (h : contentRows step c = []) :
    c.definition = .error (.missing .options FlagOption.truncate.code) := by
  have hoptions : c.options = [] := by
    rw [contentRows, List.append_eq_nil_iff, List.append_eq_nil_iff] at h
    exact List.map_eq_nil_iff.1 (List.map_eq_nil_iff.1 h.1.1)
  rw [Step.definition, hoptions]
  rfl

/-- A content is kept as texts. -/
theorem Keeps.legible (h : s.Keeps step c) : s.Legible step := by
  apply legible_of_rows
  intro p hp
  have hp := h.subset hp
  rw [← map_plainRow_contentRows] at hp
  obtain ⟨q, -, rfl⟩ := List.mem_map.1 hp
  rfl

/-- A store that keeps a content loads what the content stands for. Where the content is empty, the
step is not there, and this too is a failure of the configuration. -/
theorem load_of_keeps (hc : c.Coded) (hadmits : s.Admits []) (hkeeps : s.Keeps step c) :
    (s.load step).mapError LoadFault.kind = c.definition.mapError Step.Fault.kind := by
  rw [load, has, access_eq_ok.2 ⟨hadmits, rfl⟩, mapError_ok, ok_bind, hasStep_eq_rowsOf,
    loadStep_of_shows hc hkeeps.shows hkeeps.legible]
  cases hrows : s.rowsOf step with
  | nil =>
      have hnone : contentRows step c = [] := by
        rw [Keeps, hrows] at hkeeps
        exact hkeeps.nil_eq.symm
      rw [definition_of_no_rows hnone]
      rfl
  | cons p ps =>
      cases c.definition with
      | error fault => exact congrArg Except.error (LoadFault.kind_ofContent fault)
      | ok d => rfl

/-- An open store of the rows of one content. -/
def keeping (backend : Backend) (step : String) (c : Step) : AttributeStore where
  backend := backend
  attributes := contentRows step c

theorem keeps_keeping (backend : Backend) (step : String) (c : Step) :
    (keeping backend step c).Keeps step c := by
  have hall : ∀ p ∈ contentRows step c, decide (p.1.step = step) = true := by
    intro p hp
    exact decide_eq_true (step_of_mem_contentRows (List.mem_map_of_mem hp))
  rw [Keeps, rowsOf, keeping, List.filter_eq_self.2 hall]

end AttributeStore

/-- Whatever a content lacks, texts that show it and stores that keep it load alike: as one
definition, or with failures of one kind. Some text shows it whenever markup can carry it. -/
theorem read_load_agree (hc : c.Coded) :
    (Markup.StepCarried c → ∃ text root e, Markup.document text = .ok root ∧
      root.find? Markup.stepTag = some e ∧ Markup.Shows e c) ∧
    ∀ text root e s step, Markup.document text = .ok root →
      root.find? Markup.stepTag = some e → Markup.Shows e c →
        AttributeStore.Admits s [] → s.Keeps step c →
          (Markup.decode text).mapError Markup.ReadFault.kind =
            (s.load step).mapError AttributeStore.LoadFault.kind := by
  constructor
  · intro hcarried
    exact ⟨_, _, _, Markup.document_of_carried hc hcarried,
      Xml.find?_root (Xml.name_laidOut 0 (Markup.tree c)), Markup.shows_tree c⟩
  · intro text root e s step hroot he hshows hadmits hkeeps
    rw [Markup.decode_of_shows hc hroot he hshows, AttributeStore.load_of_keeps hc hadmits hkeeps]
    cases c.definition with
    | error fault => exact congrArg Except.error (Markup.ReadFault.kind_ofContent fault)
    | ok d => rfl

/-- Flags that are blank or in small letters, and others that are missing; a field of its name alone,
and another of blank tokens. -/
def patchy : Step where
  options := [
    ("mongo_user", "  "), ("truncate", "y"), ("upsert", ""), ("multi", " Y "),
    ("modifier_update", "yes"), ("write_retries", " "), ("mongo_password", "Encrypted ")]
  fields := [
    [("incoming_field_name", "a")],
    [("json_field", " "), ("incoming_field_name", ""), ("modifier_policy", "")]]
  indexes := [[("sparse", "maybe"), ("path_to_fields", "a")]]

def patchyDefinition : Definition where
  write := {
    hostnames := "", port := "", username := "  ", truncate := true, multi := true
    batchInsertSize := "", readPreference := "", writeRetries := " " }
  mappings := [{ incomingName := "a" }, { incomingName := "" }]
  indexes := [{ fieldSpec := "a" }]

theorem read_load_agree_patchy :
    let s := AttributeStore.keeping .table "a" patchy
    patchy.Coded ∧ ∃ text root e, Markup.document text = .ok root ∧
      root.find? Markup.stepTag = some e ∧ Markup.Shows e patchy ∧
        Markup.decode text = .ok patchyDefinition ∧ s.load "a" = .ok patchyDefinition := by
  intro s
  have hc : patchy.Coded := by decide +kernel
  have hcarried : Markup.StepCarried patchy := by decide +kernel
  have hadmits : s.Admits [] := .inr ⟨rfl, List.forall_mem_nil _⟩
  have hload : s.load "a" = .ok patchyDefinition := by decide +kernel
  obtain ⟨hshown, hagree⟩ := read_load_agree hc
  obtain ⟨text, root, e, hroot, he, hshows⟩ := hshown hcarried
  have hread := hagree text root e s "a" hroot he hshows hadmits
    (AttributeStore.keeps_keeping .table "a" patchy)
  rw [hload, mapError_ok] at hread
  exact ⟨hc, text, root, e, hroot, he, hshows, mapError_eq_ok.1 hread, hload⟩

end DocumentSink
