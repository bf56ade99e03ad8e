import DocumentSink.Proofs.Except
import DocumentSink.Proofs.Password
import DocumentSink.Step

/-!
Content of a step and the definition that it stands for. The rules read nothing but the texts under
the codes, so content that agrees there stands for the same. Main statement: the content of a
definition stands for that definition, settled.
-/

namespace DocumentSink

theorem WriteOption.mem_all (o : WriteOption) : o ∈ WriteOption.all := by
  cases o with
  | text o => cases o <;> decide
  | flag o => cases o <;> decide

theorem FieldPart.mem_all (p : FieldPart) : p ∈ FieldPart.all := by cases p <;> decide

theorem IndexPart.mem_all (p : IndexPart) : p ∈ IndexPart.all := by cases p <;> decide

@[simp] theorem Operator.ofToken_token (o : Operator) : Operator.ofToken o.token = .ok o := by
  cases o <;> rfl

@[simp] theorem ApplyPolicy.ofToken_token (p : ApplyPolicy) : ApplyPolicy.ofToken p.token = .ok p := by
  cases p <;> rfl

@[simp] theorem readFlag_flagToken (default b : Bool) :
    readFlag default (some (flagToken b)) = b := by
  cases b <;> rfl

theorem WriteOptions.ext_get {v w : WriteOptions} (ht : ∀ o : TextOption, o.get v = o.get w)
    (hf : ∀ o : FlagOption, o.get v = o.get w) : v = w := by
  obtain ⟨⟩ := v
  obtain ⟨⟩ := w
  simp only [WriteOptions.mk.injEq]
  exact ⟨ht .hostnames, ht .port, hf .useAllReplicaMembers, ht .username, ht .password,
    ht .dbName, ht .collection, hf .truncate, hf .upsert, hf .multi, hf .modifierUpdate,
    ht .batchInsertSize, ht .connectTimeout, ht .socketTimeout, ht .readPreference,
    ht .writeConcern, ht .wTimeout, hf .journal, ht .writeRetries, ht .writeRetryDelay⟩

namespace Step

/-- The record of a content in which a text stands. -/
inductive Place
  | options
  | field
  | index
  deriving DecidableEq, Repr

/-- Why a content stands for no definition. -/
inductive Fault
  | missing (place : Place) (code : String)
  | password (fault : Password.Fault)
  | token (field : Nat) (fault : TokenFault)
  deriving DecidableEq, Repr

def Fault.kind : Fault → FailureKind
  | password .negative => .overflow
  | _ => .configuration

section Meaning

def checkFlag (r : Record String) (o : FlagOption) : Except Fault Unit :=
  if (r.get? o.code).isSome then .ok () else .error (.missing .options o.code)

/-- The text under a code, empty if there is none. -/
def textAt (r : Record String) (code : String) : String := (r.get? code).getD ""

/-- The flag under a code, false if there is none. -/
def flagAt (r : Record String) (code : String) : Bool := readFlag false (r.get? code)

/-- The text of an option other than the password. Only the two retry options have defaults. -/
def loadedText (r : Record String) (o : TextOption) : String :=
  match o with
  | .writeRetries => orDefault (textAt r o.code) "5"
  | .writeRetryDelay => orDefault (textAt r o.code) "10"
  | o => textAt r o.code

def loadOption (r : Record String) (password : String) (w : WriteOptions) :
    WriteOption → WriteOptions
  | .text .password => TextOption.password.set w password
  | .text o => o.set w (loadedText r o)
  | .flag o => o.set w (flagAt r o.code)

def loadWriteOptions (r : Record String) : Except Fault WriteOptions := do
  requiredFlags.forM (checkFlag r)
  let password ← (Password.restore (textAt r TextOption.password.code)).mapError .password
  return WriteOption.all.foldl (loadOption r password) {}

def loadField (n : Nat) (r : Record String) : Except Fault FieldMapping := do
  let operator ← (Operator.ofToken (textAt r FieldPart.operator.code)).mapError (.token n)
  let policy ← (ApplyPolicy.ofToken (textAt r FieldPart.policy.code)).mapError (.token n)
  match r.get? FieldPart.incomingName.code with
  | none => throw (.missing .field FieldPart.incomingName.code)
  | some incomingName =>
    return {
      incomingName
      documentPath := textAt r FieldPart.documentPath.code
      useIncomingName := flagAt r FieldPart.useIncomingName.code
      isMatchKey := flagAt r FieldPart.isMatchKey.code
      operator
      policy
      isFragment := flagAt r FieldPart.isFragment.code }

def loadFields (n : Nat) : List (Record String) → Except Fault (List FieldMapping)
  | [] => .ok []
  | r :: rs => return (← loadField n r) :: (← loadFields (n + 1) rs)

def loadIndex (r : Record String) : Except Fault IndexSpec :=
  match r.get? IndexPart.fieldSpec.code with
  | none => .error (.missing .index IndexPart.fieldSpec.code)
  | some fieldSpec => .ok {
      fieldSpec
      drop := flagAt r IndexPart.drop.code
      unique := flagAt r IndexPart.unique.code
      sparse := flagAt r IndexPart.sparse.code }

/-- The definition that a content stands for. -/
def definition (s : Step) : Except Fault Definition := do
  return {
    write := ← loadWriteOptions s.options
    mappings := ← loadFields 0 s.fields
    indexes := ← s.indexes.mapM loadIndex }

theorem requiredFlags_forM {ε : Type} (f : FlagOption → Except ε Unit) :
    requiredFlags.forM f = (f .truncate >>= fun _ => f .upsert >>= fun _ => f .multi >>= fun _ =>
      f .modifierUpdate >>= fun _ => pure ()) := rfl

/-- The options behind the checks, each from the text under its code. -/
theorem loaded_eq (r : Record String) (password : String) :
    WriteOption.all.foldl (loadOption r password) {} = {
      hostnames := textAt r TextOption.hostnames.code
      port := textAt r TextOption.port.code
      useAllReplicaMembers := flagAt r FlagOption.useAllReplicaMembers.code
      username := textAt r TextOption.username.code
      password
      dbName := textAt r TextOption.dbName.code
      collection := textAt r TextOption.collection.code
      batchInsertSize := textAt r TextOption.batchInsertSize.code
      connectTimeout := textAt r TextOption.connectTimeout.code
      socketTimeout := textAt r TextOption.socketTimeout.code
      readPreference := textAt r TextOption.readPreference.code
      writeConcern := textAt r TextOption.writeConcern.code
      wTimeout := textAt r TextOption.wTimeout.code
      journal := flagAt r FlagOption.journal.code
      truncate := flagAt r FlagOption.truncate.code
      upsert := flagAt r FlagOption.upsert.code
      multi := flagAt r FlagOption.multi.code
      modifierUpdate := flagAt r FlagOption.modifierUpdate.code
      writeRetries := orDefault (textAt r TextOption.writeRetries.code) "5"
      writeRetryDelay := orDefault (textAt r TextOption.writeRetryDelay.code) "10" } := by
  apply WriteOptions.ext_get
  · intro o
    cases o <;> rfl
  · intro o
    cases o <;> rfl

end Meaning

/-- Write options as they come back from their content. -/
def settledOptions (w : WriteOptions) : WriteOptions := { w with
  password := Password.settled w.password
  writeRetries := orDefault w.writeRetries "5"
  writeRetryDelay := orDefault w.writeRetryDelay "10" }

/-- A definition as it comes back from its content: an empty retry option has its default, and the
password is settled. -/
def settled (d : Definition) : Definition := { d with write := settledOptions d.write }

def optionCodes : List String := WriteOption.all.map (·.code)

def fieldCodes : List String := FieldPart.all.map (·.code)

def indexCodes : List String := IndexPart.all.map (·.code)

/-- No code stands for two things. -/
theorem codes_nodup : (optionCodes ++ fieldCodes ++ indexCodes).Nodup := by decide +kernel

theorem mem_optionCodes (o : WriteOption) : o.code ∈ optionCodes :=
  List.mem_map_of_mem (WriteOption.mem_all o)

theorem mem_fieldCodes (p : FieldPart) : p.code ∈ fieldCodes :=
  List.mem_map_of_mem (FieldPart.mem_all p)

theorem mem_indexCodes (p : IndexPart) : p.code ∈ indexCodes :=
  List.mem_map_of_mem (IndexPart.mem_all p)

/-- Two records hold the same texts under some codes. -/
def SameAt (codes : List String) (r s : Record String) : Prop :=
  ∀ code ∈ codes, r.get? code = s.get? code

/-- Two contents hold the same texts under all codes, entry by entry. -/
structure Agrees (s t : Step) : Prop where
  options : SameAt optionCodes s.options t.options
  fields : List.Forall₂ (SameAt fieldCodes) s.fields t.fields
  indexes : List.Forall₂ (SameAt indexCodes) s.indexes t.indexes

section Congruence

variable {codes : List String} {r s : Record String}

theorem SameAt.textAt (h : SameAt codes r s) {code : String} (hc : code ∈ codes) :
    textAt r code = textAt s code := by rw [Step.textAt, Step.textAt, h code hc]

theorem SameAt.flagAt (h : SameAt codes r s) {code : String} (hc : code ∈ codes) :
    flagAt r code = flagAt s code := by rw [Step.flagAt, Step.flagAt, h code hc]

theorem loadOption_congr (h : SameAt optionCodes r s) (password : String) :
    loadOption r password = loadOption s password := by
  funext w o
  cases o with
  | flag o =>
      have hf := h.flagAt (mem_optionCodes (.flag o))
      exact congrArg (o.set w) hf
  | text o =>
      have ht := h.textAt (mem_optionCodes (.text o))
      cases o <;> simp only [WriteOption.code] at ht <;> simp only [loadOption, loadedText, ht]

theorem loadWriteOptions_congr (h : SameAt optionCodes r s) :
    loadWriteOptions r = loadWriteOptions s := by
  have hcheck : checkFlag r = checkFlag s := by
    funext o
    have ho := h o.code (mem_optionCodes (.flag o))
    rw [checkFlag, checkFlag, ho]
  have hpassword := h.textAt (mem_optionCodes (.text .password))
  simp only [WriteOption.code] at hpassword
  simp only [loadWriteOptions, hcheck, hpassword, loadOption_congr h]

theorem loadField_congr (h : SameAt fieldCodes r s) (n : Nat) : loadField n r = loadField n s := by
  simp only [loadField, h.textAt (mem_fieldCodes _), h.flagAt (mem_fieldCodes _),
    h _ (mem_fieldCodes _)]

theorem loadFields_congr {rs ss : List (Record String)}
    (h : List.Forall₂ (SameAt fieldCodes) rs ss) (n : Nat) : loadFields n rs = loadFields n ss := by
  induction h generalizing n with
  | nil => rfl
  | cons hr _ ih => rw [loadFields, loadFields, loadField_congr hr, ih]

theorem loadIndex_congr (h : SameAt indexCodes r s) : loadIndex r = loadIndex s := by
  simp only [loadIndex, h.flagAt (mem_indexCodes _), h _ (mem_indexCodes _)]

/-- Content that agrees under the codes stands for the same definition, or has the same fault. -/
theorem Agrees.definition {s t : Step} (h : Agrees s t) : s.definition = t.definition := by
  have hindexes : s.indexes.mapM loadIndex = t.indexes.mapM loadIndex :=
    mapM_congr_forall₂ (h.indexes.imp fun _ _ => loadIndex_congr)
  rw [Step.definition, Step.definition, loadWriteOptions_congr h.options,
    loadFields_congr h.fields, hindexes]

end Congruence

section RoundTrip

theorem layout_nodup : (layout.map fun k => k.1.code).Nodup := by decide +kernel

theorem fieldCodes_nodup : fieldCodes.Nodup := by decide +kernel

theorem indexCodes_nodup : indexCodes.Nodup := by decide +kernel

def isOptional (o : WriteOption) : Bool := (o, true) ∈ layout

theorem mem_layout (o : WriteOption) : (o, isOptional o) ∈ layout := by
  cases o with
  | text o => cases o <;> decide
  | flag o => cases o <;> decide

theorem ofWriteOptions_eq (w : WriteOptions) :
    ofWriteOptions w = layout.filterMap fun k =>
      (if k.2 && (optionText w k.1).isEmpty then none else some (optionText w k.1)).map
        (k.1.code, ·) := by
  rw [ofWriteOptions, optionsOf]
  apply congrArg (List.filterMap · layout)
  funext k
  dsimp only
  split <;> rfl

theorem get?_ofWriteOptions (w : WriteOptions) (o : WriteOption) :
    (ofWriteOptions w).get? o.code =
      if isOptional o && (optionText w o).isEmpty then none else some (optionText w o) := by
  rw [ofWriteOptions_eq]
  exact Record.get?_filterMap layout_nodup (mem_layout o)

theorem textAt_ofWriteOptions (w : WriteOptions) (o : WriteOption) :
    textAt (ofWriteOptions w) o.code = optionText w o := by
  rw [textAt, get?_ofWriteOptions]
  split
  · next h =>
      rw [Bool.and_eq_true] at h
      exact (String.isEmpty_iff.1 h.2).symm
  · rfl

theorem get?_flag (w : WriteOptions) (o : FlagOption) :
    (ofWriteOptions w).get? o.code = some (flagToken (o.get w)) := by
  have h := get?_ofWriteOptions w (.flag o)
  have ho : isOptional (.flag o) = false := by cases o <;> decide
  rw [ho, Bool.false_and] at h
  exact h

theorem checkFlag_ofWriteOptions (w : WriteOptions) (o : FlagOption) :
    checkFlag (ofWriteOptions w) o = .ok () := by
  rw [checkFlag, get?_flag]
  rfl

/-- A record has texts under some of the codes, one under each. -/
structure HasCodes (codes : List String) (r : Record String) : Prop where
  nodup : r.names.Nodup
  subset : ∀ code ∈ r.names, code ∈ codes

/-- A content has its texts under the codes of their kind, and every entry has the text that counts
it. All other texts may be missing. -/
structure Coded (s : Step) : Prop where
  options : HasCodes optionCodes s.options
  fields : ∀ r ∈ s.fields, HasCodes fieldCodes r ∧ FieldPart.incomingName.code ∈ r.names
  indexes : ∀ r ∈ s.indexes, HasCodes indexCodes r ∧ IndexPart.fieldSpec.code ∈ r.names

instance (codes : List String) (r : Record String) : Decidable (HasCodes codes r) :=
  decidable_of_iff (r.names.Nodup ∧ ∀ code ∈ r.names, code ∈ codes)
    ⟨fun h => ⟨h.1, h.2⟩, fun h => ⟨h.nodup, h.subset⟩⟩

instance (s : Step) : Decidable s.Coded :=
  decidable_of_iff (HasCodes optionCodes s.options ∧
      (∀ r ∈ s.fields, HasCodes fieldCodes r ∧ FieldPart.incomingName.code ∈ r.names) ∧
      ∀ r ∈ s.indexes, HasCodes indexCodes r ∧ IndexPart.fieldSpec.code ∈ r.names)
    ⟨fun h => ⟨h.1, h.2.1, h.2.2⟩, fun h => ⟨h.options, h.fields, h.indexes⟩⟩

theorem coded_ofDefinition (d : Definition) : (ofDefinition d).Coded := by
  have hsub : (ofWriteOptions d.write).names.Sublist (layout.map fun k => k.1.code) := by
    rw [ofWriteOptions_eq]
    exact Record.names_filterMap_sublist _ _ _
  refine ⟨⟨hsub.nodup layout_nodup, ?_⟩, ?_, ?_⟩
  · intro code hcode
    obtain ⟨k, -, rfl⟩ := List.mem_map.1 (hsub.subset hcode)
    exact mem_optionCodes k.1
  · intro r hr
    obtain ⟨m, -, rfl⟩ := List.mem_map.1 hr
    exact ⟨⟨fieldCodes_nodup, fun _ hcode => hcode⟩, mem_fieldCodes .incomingName⟩
  · intro r hr
    obtain ⟨i, -, rfl⟩ := List.mem_map.1 hr
    exact ⟨⟨indexCodes_nodup, fun _ hcode => hcode⟩, mem_indexCodes .fieldSpec⟩

theorem get_loaded_text (r : Record String) (password : String) (o : TextOption) :
    o.get (WriteOption.all.foldl (loadOption r password) {}) =
      if o = .password then password else loadedText r o := by
  cases o <;> rfl

theorem get_loaded_flag (r : Record String) (password : String) (o : FlagOption) :
    o.get (WriteOption.all.foldl (loadOption r password) {}) = flagAt r o.code := by
  cases o <;> rfl

theorem loadWriteOptions_ofWriteOptions {w : WriteOptions}
    (h : Password.isMistakable w.password = false) :
    loadWriteOptions (ofWriteOptions w) = .ok (settledOptions w) := by
  have hcheck : requiredFlags.forM (checkFlag (ofWriteOptions w)) = .ok () := by
    simp [requiredFlags, checkFlag_ofWriteOptions]
  have hpassword := textAt_ofWriteOptions w (.text .password)
  simp only [WriteOption.code, optionText] at hpassword
  have hset : WriteOption.all.foldl (loadOption (ofWriteOptions w) (Password.settled w.password)) {}
      = settledOptions w := by
    apply WriteOptions.ext_get
    · intro o
      have ht := textAt_ofWriteOptions w (.text o)
      simp only [WriteOption.code] at ht
      rw [get_loaded_text]
      cases o <;> simp only [loadedText, ht] <;> rfl
    · intro o
      rw [get_loaded_flag, flagAt, get?_flag, readFlag_flagToken]
      cases o <;> rfl
  simp [loadWriteOptions, hcheck, hpassword, Password.restore_store h, hset]

theorem get?_ofMapping (m : FieldMapping) (p : FieldPart) :
    (ofMapping m).get? p.code = some (fieldText m p) :=
  Record.get?_map fieldCodes_nodup (FieldPart.mem_all p)

theorem loadField_ofMapping (n : Nat) (m : FieldMapping) : loadField n (ofMapping m) = .ok m := by
  simp [loadField, textAt, flagAt, get?_ofMapping, fieldText]

theorem loadFields_ofMapping (n : Nat) (ms : List FieldMapping) :
    loadFields n (ms.map ofMapping) = .ok ms := by
  induction ms generalizing n with
  | nil => rfl
  | cons m ms ih => simp [loadFields, loadField_ofMapping, ih]

theorem get?_ofIndex (i : IndexSpec) (p : IndexPart) :
    (ofIndex i).get? p.code = some (indexText i p) :=
  Record.get?_map indexCodes_nodup (IndexPart.mem_all p)

theorem loadIndex_ofIndex (i : IndexSpec) : loadIndex (ofIndex i) = .ok i := by
  simp [loadIndex, flagAt, get?_ofIndex, indexText]

/-- The content of a definition stands for that definition, settled. -/
theorem definition_ofDefinition {d : Definition}
    (h : Password.isMistakable d.write.password = false) :
    (ofDefinition d).definition = .ok (settled d) := by
  have hindexes : (d.indexes.map ofIndex).mapM loadIndex = .ok d.indexes := by
    rw [List.mapM_map, mapM_eq_ok_map (g := id), List.map_id]
    intro i _
    exact loadIndex_ofIndex i
  simp [definition, ofDefinition, loadWriteOptions_ofWriteOptions h, loadFields_ofMapping, hindexes,
    settled]

end RoundTrip

end Step

end DocumentSink
