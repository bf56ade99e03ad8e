import DocumentSink.Definition

/-!
Validation: loosely typed values are read as texts, flags and choices, and the parts of a definition
from members by name. Who reads them stands outside of this library. It relies on this: a text is
taken for a text and a flag for a flag; and a part is read member by member, each by its kind, with
a default for every member that is not given.
-/

namespace DocumentSink

structure Validation where
  Refusal : Type
  text : Value → Option String
  flag : Value → Option Bool
  operator : Value → Option Operator
  policy : Value → Option ApplyPolicy
  options : Record Value → Except Refusal WriteOptions
  mapping : Record Value → Except Refusal FieldMapping
  index : Record Value → Except Refusal IndexSpec

namespace Validation

/-- What a member is taken for: what its value is read as, or the default without one. -/
def Takes {α : Type} (members : Record Value) (name : String) (read : Value → Option α)
    (default a : α) : Prop :=
  match members.get? name with
  | some v => read v = some a
  | none => a = default

structure Lawful (rules : Validation) : Prop where
  text_text (s : String) : rules.text (.text s) = some s
  flag_bool (b : Bool) : rules.flag (.bool b) = some b
  options_eq_ok {members : Record Value} {w : WriteOptions} : rules.options members = .ok w ↔
    (∀ o : TextOption, Takes members o.name rules.text (o.get {}) (o.get w)) ∧
      ∀ o : FlagOption, Takes members o.name rules.flag (o.get {}) (o.get w)
  mapping_eq_ok {members : Record Value} {m : FieldMapping} : rules.mapping members = .ok m ↔
    Takes members "incoming_name" rules.text "" m.incomingName ∧
      Takes members "document_path" rules.text "" m.documentPath ∧
      Takes members "use_incoming_name_as_key" rules.flag false m.useIncomingName ∧
      Takes members "is_match_key" rules.flag false m.isMatchKey ∧
      Takes members "operator" rules.operator .none m.operator ∧
      Takes members "apply_policy" rules.policy .insertAndUpdate m.policy ∧
      Takes members "is_json_fragment" rules.flag false m.isFragment
  index_eq_ok {members : Record Value} {i : IndexSpec} : rules.index members = .ok i ↔
    Takes members "field_spec" rules.text "" i.fieldSpec ∧
      Takes members "drop" rules.flag false i.drop ∧
      Takes members "unique" rules.flag false i.unique ∧
      Takes members "sparse" rules.flag false i.sparse

end Validation

end DocumentSink
