import DocumentSink.Advice
import DocumentSink.Message.Values
import DocumentSink.Proofs.Templates

/-!
Advice for all surroundings and all catalogs, whatever the objects of the host do in a template.
Main statement: there are two findings, one on the fields and one on the input, exactly where the
templates of both can be filled in, and otherwise there is a fault.
-/

namespace DocumentSink

open Message (Objects doubled Fills)

namespace Catalog

variable {o : Objects} {args : Record o.Object}

/-- What a catalog says: the key itself where there is no template, else what the template is
filled in to. -/
inductive Says (c : Catalog) (key : String) (args : Record o.Object) : Wide → Prop
  | key : Record.get? key c = none → Says c key args key
  | template {t out} : Record.get? key c = some t → Fills args 2 t out → Says c key args out

/-- What a catalog says without arguments: a template is the text with each brace doubled. -/
inductive SaysPlainly (c : Catalog) (key : String) : Wide → Prop
  | key : Record.get? key c = none → SaysPlainly c key key
  | template {out} : Record.get? key c = some (doubled out) → SaysPlainly c key out

variable {c : Catalog} {key : String} {out : Wide}

theorem text_eq_ok : c.text o key args = .ok out ↔ c.Says key args out := by
  rw [text]
  constructor
  · intro h
    split at h
    · next t ht => exact .template ht (Message.render_eq_ok.1 h)
    · next hnone =>
        cases h
        exact .key hnone
  · intro h
    cases h with
    | key hnone => rw [hnone]
    | template ht hfills =>
        rw [ht]
        exact Message.render_eq_ok.2 hfills

theorem says_nil_iff : c.Says (o := o) key [] out ↔ c.SaysPlainly key out := by
  constructor
  · intro h
    cases h with
    | key hnone => exact .key hnone
    | template ht hfills =>
        obtain rfl := Message.fills_nil_iff.1 hfills
        exact .template ht
  · intro h
    cases h with
    | key hnone => exact .key hnone
    | template ht => exact .template ht (Message.fills_nil_iff.2 rfl)

theorem finding_eq_ok {severity : Severity} {f : Finding} :
    Finding.mk severity <$> c.text o key args = .ok f ↔
      f.severity = severity ∧ c.Says key args f.message := by
  rw [map_eq_ok]
  simp only [text_eq_ok]
  constructor
  · rintro ⟨out, hout, rfl⟩
    exact ⟨rfl, hout⟩
  · rintro ⟨rfl, hout⟩
    exact ⟨f.message, hout, rfl⟩

end Catalog

namespace Surroundings

variable {o : Objects} {s : Surroundings} {c : Catalog} {f : Finding}

/-- A finding on the fields: a warning exactly where there is no schema or no field in it. -/
def FieldsAdvice (o : Objects) (s : Surroundings) (c : Catalog) (f : Finding) : Prop :=
  if s.hasIncomingSchema = false ∨ s.incomingFields.isZero = true then
    f.severity = .warning ∧ c.SaysPlainly Catalog.noIncomingFields f.message
  else
    f.severity = .ok ∧
      c.Says Catalog.receivingFields [("count", o.ofValue s.incomingFields)] f.message

/-- A finding on the input: an error exactly where there is none. -/
def InputAdvice (s : Surroundings) (c : Catalog) (f : Finding) : Prop :=
  if s.hasInput = true then f.severity = .ok ∧ c.SaysPlainly Catalog.receivingInput f.message
  else f.severity = .error ∧ c.SaysPlainly Catalog.noInput f.message

theorem fieldsFinding_eq_ok : s.fieldsFinding o c = .ok f ↔ s.FieldsAdvice o c f := by
  have hnothing : (!s.hasIncomingSchema || s.incomingFields.isZero) = true ↔
      s.hasIncomingSchema = false ∨ s.incomingFields.isZero = true := by
    rw [Bool.or_eq_true, Bool.not_eq_true']
  rw [fieldsFinding, FieldsAdvice, ← Catalog.says_nil_iff (o := o), ← Catalog.finding_eq_ok,
    ← Catalog.finding_eq_ok]
  simp only [hnothing]
  split
  · exact Iff.rfl
  · exact Iff.rfl

theorem inputFinding_eq_ok : s.inputFinding o c = .ok f ↔ s.InputAdvice c f := by
  rw [inputFinding, InputAdvice, ← Catalog.says_nil_iff (o := o), ← Catalog.says_nil_iff (o := o),
    ← Catalog.finding_eq_ok, ← Catalog.finding_eq_ok]
  split
  · exact Iff.rfl
  · exact Iff.rfl

theorem check_eq_ok {findings : List Finding} : s.check o c = .ok findings ↔
    ∃ first second, s.FieldsAdvice o c first ∧ s.InputAdvice c second ∧
      findings = [first, second] := by
  rw [check, bind_eq_ok]
  simp only [bind_eq_ok, fieldsFinding_eq_ok, inputFinding_eq_ok, pure_eq_ok, Except.ok.injEq]
  constructor
  · rintro ⟨first, hfirst, second, hsecond, rfl⟩
    exact ⟨first, second, hfirst, hsecond, rfl⟩
  · rintro ⟨first, second, hfirst, hsecond, rfl⟩
    exact ⟨first, hfirst, second, hsecond, rfl⟩

end Surroundings

end DocumentSink
