import DocumentSink.Proofs.Step
import DocumentSink.Proofs.Utf8
import DocumentSink.Step.Markup

/-!
Elements and the content that they hold. The children of an element are texts under their tags, the
first one of each tag counts, and the entries of a group are records in order. Main statement:
reading an element gives what its content stands for.
-/

namespace DocumentSink.Markup

open Xml (Element)

def texts (e : Element) : Record String :=
  (e.children.filter fun c => c.name.space.isEmpty).map fun c => (c.name.label, c.text)

def toStep (e : Element) : Step :=
  ⟨texts e, (entriesOf fieldsTag fieldTag e).map texts, (entriesOf indexesTag indexTag e).map texts⟩

def tagOf : Step.Place → String
  | .options => stepTag
  | .field => fieldTag
  | .index => indexTag

/-- The fault of a reading whose content stands for no definition. Markup does not tell which of the
fields has a token that is unknown. -/
def ReadFault.ofContent : Step.Fault → ReadFault
  | .missing place code => .missing (tagOf place) code
  | .password fault => .password fault
  | .token _ fault => .token fault

theorem ReadFault.kind_ofContent (fault : Step.Fault) : (ofContent fault).kind = fault.kind := by
  cases fault with
  | password fault => cases fault <;> rfl
  | _ => rfl

section Records

variable (e : Element) (code : String)

theorem get?_texts : (texts e).get? code = e.childText? code := by
  have hpredicate : Element.hasTag code = fun c : Element =>
      decide (c.name.space.isEmpty ∧ decide (c.name.label = code)) := by
    funext c
    rw [Element.hasTag, Bool.eq_iff_iff, decide_eq_true_iff, decide_eq_true_iff,
      decide_eq_true_iff, String.isEmpty_iff]
    constructor
    · intro hname
      rw [hname]
      exact ⟨rfl, rfl⟩
    · rintro ⟨hspace, hlabel⟩
      rw [← hspace, ← hlabel]
  rw [Record.get?_eq_find?, texts, List.find?_map, List.find?_filter, Option.map_map,
    Element.childText?, Element.child?, hpredicate]
  rfl

theorem textIn_eq : textIn e code = Step.textAt (texts e) code := by
  rw [textIn, Step.textAt, get?_texts]

theorem flagIn_eq : flagIn e code = Step.flagAt (texts e) code := by
  rw [flagIn, Step.flagAt, get?_texts]

end Records

section Parts

variable (e : Element)

/-- A flag that has to be there is looked for first and read with the other options. -/
theorem requiredFlag_eq (o : FlagOption) : requiredFlag e o =
    ((Step.checkFlag (texts e) o).mapError .ofContent >>= fun _ =>
      .ok (Step.flagAt (texts e) o.code)) := by
  rw [requiredFlag, required, Step.checkFlag, Step.flagAt, get?_texts]
  cases e.childText? o.code <;> rfl

theorem decodeOptions_eq :
    decodeOptions e = (Step.loadWriteOptions (texts e)).mapError .ofContent := by
  have hrequired (o : FlagOption) (f : Bool → Except ReadFault WriteOptions) :
      requiredFlag e o >>= f = (Step.checkFlag (texts e) o).mapError .ofContent >>= fun _ =>
        f (Step.flagAt (texts e) o.code) := by
    rw [requiredFlag_eq, bind_assoc]
    rfl
  have hchecks := Step.requiredFlags_forM (Step.checkFlag (texts e))
  have hpassword (x : Except Password.Fault String) :
      (x.mapError Step.Fault.password).mapError ReadFault.ofContent = x.mapError .password := by
    cases x <;> rfl
  simp only [Step.loadWriteOptions, hchecks, Step.loaded_eq, decodeOptions, hrequired, bind_assoc,
    mapError_bind, hpassword, textIn_eq, flagIn_eq, pure_eq_ok, ok_bind, mapError_ok]

theorem decodeField_eq (n : Nat) :
    decodeField e = (Step.loadField n (texts e)).mapError .ofContent := by
  have htoken {α : Type} (x : Except TokenFault α) :
      (x.mapError (Step.Fault.token n)).mapError ReadFault.ofContent = x.mapError .token := by
    cases x <;> rfl
  simp only [decodeField, Step.loadField, mapError_bind, htoken, textIn_eq, flagIn_eq, required,
    get?_texts]
  cases e.childText? FieldPart.incomingName.code <;> rfl

theorem decodeFields_eq (n : Nat) (es : List Element) :
    es.mapM decodeField = (Step.loadFields n (es.map texts)).mapError .ofContent := by
  induction es generalizing n with
  | nil => rfl
  | cons e es ih =>
      rw [List.mapM_cons, decodeField_eq e n, ih (n + 1), List.map_cons, Step.loadFields]
      cases Step.loadField n (texts e) with
      | error fault => rfl
      | ok m => cases Step.loadFields (n + 1) (es.map texts) <;> rfl

theorem decodeIndex_eq : decodeIndex e = (Step.loadIndex (texts e)).mapError .ofContent := by
  simp only [decodeIndex, Step.loadIndex, flagIn_eq, required, get?_texts]
  cases e.childText? IndexPart.fieldSpec.code <;> rfl

theorem decodeIndexes_eq (es : List Element) :
    es.mapM decodeIndex = ((es.map texts).mapM Step.loadIndex).mapError .ofContent := by
  induction es with
  | nil => rfl
  | cons e es ih =>
      rw [List.mapM_cons, decodeIndex_eq, ih, List.map_cons, List.mapM_cons]
      cases Step.loadIndex (texts e) with
      | error fault => rfl
      | ok i => cases (es.map texts).mapM Step.loadIndex <;> rfl

end Parts

/-- A step is read as what its content stands for. -/
theorem decodeStep_eq (e : Element) : decodeStep e = (toStep e).definition.mapError .ofContent := by
  rw [decodeStep, Step.definition, toStep, decodeOptions_eq, decodeFields_eq 0, decodeIndexes_eq]
  simp only [mapError_bind]
  rfl

/-- What a load makes of a document. -/
def outcome (root : Element) : Except ReadFault Definition :=
  match root.find? stepTag with
  | none => .error .noStep
  | some e => (toStep e).definition.mapError .ofContent

theorem decodeRoot_eq (root : Element) : decodeRoot root = outcome root := by
  rw [decodeRoot, outcome]
  cases root.find? stepTag with
  | none => rfl
  | some e => exact decodeStep_eq e

theorem read_of_root {text : String} {root : Element} (h : Xml.read text.toList = some root) :
    read text = outcome root := by
  rw [read, h]
  exact decodeRoot_eq root

theorem decode_of_document {text : Wide} {root : Element} (h : document text = .ok root) :
    decode text = outcome root := by
  rw [decode, h, ok_bind, decodeRoot_eq]

theorem outcome_of_find {root e : Element} (h : root.find? stepTag = some e) :
    outcome root = (toStep e).definition.mapError .ofContent := by rw [outcome, h]

section Encoding

variable {s : List Char}

/-- Characters that UTF-8 writes without a zero octet stand for themselves. -/
theorem characters?_of_no_null (h : '\x00' ∉ s) : Xml.characters? s = some s := by
  have hzero := Utf8.zero_not_mem_encode h
  rw [Xml.characters?]
  split
  · next he => exact absurd (he ▸ List.mem_cons_self) hzero
  · next he => exact absurd (he ▸ List.mem_cons_of_mem _ List.mem_cons_self) hzero
  · rfl

/-- A text of such characters is read as they are. -/
theorem decode_of_no_null (h : '\x00' ∉ s) : decode (.ofChars s) = read (.ofList s) := by
  rw [decode, document, Wide.chars_ofChars, mapError_ok, ok_bind, characters?_of_no_null h, read,
    String.toList_ofList]
  change (match Xml.read s with | none => _ | some root => _) >>= decodeRoot = _
  cases Xml.read s <;> rfl

end Encoding

end DocumentSink.Markup
