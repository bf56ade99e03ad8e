import DocumentSink.Mapping.Operator

/-!
Field mappings: which value of a row goes where in a document, and how. In modifier mode the
operators of the mappings count, except those of match keys, which belong to the query; in the other
mode no operator does.
-/

namespace DocumentSink

structure FieldMapping where
  incomingName : String := ""
  documentPath : String := ""
  /-- The incoming name is the last key, behind the path. -/
  useIncomingName : Bool := false
  /-- The value identifies documents and is no part of them. -/
  isMatchKey : Bool := false
  operator : Operator := .none
  policy : ApplyPolicy := .insertAndUpdate
  /-- The value is JSON text that stands for what it writes. -/
  isFragment : Bool := false
  deriving DecidableEq, Repr, Inhabited

namespace FieldMapping

def effectiveOperator (m : FieldMapping) (modifierMode : Bool) : Operator :=
  if modifierMode && !m.isMatchKey then m.operator else .none

def isEffective (m : FieldMapping) (modifierMode : Bool) : Bool :=
  m.effectiveOperator modifierMode ≠ .none

def applies (m : FieldMapping) (modifierMode isInsert : Bool) : Bool :=
  m.isEffective modifierMode && m.policy.admits isInsert

end FieldMapping

/-- Whether a writer has to look up if a document exists: some mapping counts in one branch only. -/
def needsLookup (modifierMode : Bool) (mappings : List FieldMapping) : Bool :=
  mappings.any fun m => m.isEffective modifierMode && m.policy ≠ .insertAndUpdate

end DocumentSink
