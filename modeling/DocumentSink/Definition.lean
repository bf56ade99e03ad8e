import DocumentSink.Index
import DocumentSink.Mapping
import DocumentSink.Value
import DocumentSink.Write.Options

/-!
Definitions of output steps: the write options, the field mappings and the indexes, in order; and
their edits, with the edited part by name. A value of another kind than the part's edits nothing.
-/

namespace DocumentSink

structure Definition where
  write : WriteOptions := {}
  mappings : List FieldMapping := []
  indexes : List IndexSpec := []
  deriving DecidableEq, Repr, Inhabited

def WriteOptions.assign (w : WriteOptions) (name : String) (v : Value) : WriteOptions :=
  match WriteOption.ofName? name, v with
  | some (.text o), .text s => o.set w s
  | some (.flag o), .bool b => o.set w b
  | _, _ => w

def FieldMapping.assign (m : FieldMapping) (name : String) (v : Value) : FieldMapping :=
  match name, v with
  | "incoming_name", .text s => { m with incomingName := s }
  | "document_path", .text s => { m with documentPath := s }
  | "use_incoming_name_as_key", .bool b => { m with useIncomingName := b }
  | "is_match_key", .bool b => { m with isMatchKey := b }
  | "operator", .text s => { m with operator := (Operator.ofExactToken? s).getD m.operator }
  | "apply_policy", .text s => { m with policy := (ApplyPolicy.ofExactToken? s).getD m.policy }
  | "is_json_fragment", .bool b => { m with isFragment := b }
  | _, _ => m

def IndexSpec.assign (i : IndexSpec) (name : String) (v : Value) : IndexSpec :=
  match name, v with
  | "field_spec", .text s => { i with fieldSpec := s }
  | "drop", .bool b => { i with drop := b }
  | "unique", .bool b => { i with unique := b }
  | "sparse", .bool b => { i with sparse := b }
  | _, _ => i

namespace Definition

def assignWrite (d : Definition) (name : String) (v : Value) : Definition :=
  { d with write := d.write.assign name v }

def assignMapping (d : Definition) (n : Nat) (name : String) (v : Value) : Definition :=
  { d with mappings := d.mappings.modify n (·.assign name v) }

def assignIndex (d : Definition) (n : Nat) (name : String) (v : Value) : Definition :=
  { d with indexes := d.indexes.modify n (·.assign name v) }

def addMapping (d : Definition) (m : FieldMapping) : Definition :=
  { d with mappings := d.mappings ++ [m] }

def addIndex (d : Definition) (i : IndexSpec) : Definition :=
  { d with indexes := d.indexes ++ [i] }

def removeMapping (d : Definition) (n : Nat) : Definition :=
  { d with mappings := d.mappings.eraseIdx n }

def removeIndex (d : Definition) (n : Nat) : Definition :=
  { d with indexes := d.indexes.eraseIdx n }

end Definition

end DocumentSink
