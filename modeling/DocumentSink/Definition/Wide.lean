import DocumentSink.Definition
import DocumentSink.Text.Wide

/-!
Definitions whose texts may hold surrogates. Those of characters are among them.
-/

namespace DocumentSink

structure WideMapping where
  incomingName : Wide := []
  documentPath : Wide := []
  useIncomingName : Bool := false
  isMatchKey : Bool := false
  operator : Operator := .none
  policy : ApplyPolicy := .insertAndUpdate
  isFragment : Bool := false

structure WideIndex where
  fieldSpec : Wide := []
  drop : Bool := false
  unique : Bool := false
  sparse : Bool := false

structure WideDefinition where
  text : TextOption → Wide := fun o => o.get {}
  flag : FlagOption → Bool := fun o => o.get {}
  mappings : List WideMapping := []
  indexes : List WideIndex := []

def FieldMapping.wide (m : FieldMapping) : WideMapping where
  incomingName := m.incomingName
  documentPath := m.documentPath
  useIncomingName := m.useIncomingName
  isMatchKey := m.isMatchKey
  operator := m.operator
  policy := m.policy
  isFragment := m.isFragment

def IndexSpec.wide (i : IndexSpec) : WideIndex where
  fieldSpec := i.fieldSpec
  drop := i.drop
  unique := i.unique
  sparse := i.sparse

def Definition.wide (d : Definition) : WideDefinition where
  text o := o.get d.write
  flag o := o.get d.write
  mappings := d.mappings.map (·.wide)
  indexes := d.indexes.map (·.wide)

def WideDefinition.assignText (d : WideDefinition) (o : TextOption) (s : Wide) : WideDefinition :=
  { d with text := fun p => if p = o then s else d.text p }

end DocumentSink
