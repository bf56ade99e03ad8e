import DocumentSink.Proofs.Step
import DocumentSink.Store.Attributes

/-!
What a load finds in a store. Every value but an integer that is too long has a text, and where all
values of a step have one, the step is loaded as the content that these texts make stands for.
-/

namespace DocumentSink

namespace AttributeValue

/-- The text of a value, whatever its length. -/
def plain : AttributeValue → String
  | text s => s
  | flag b => flagToken b
  | int n => Numeral.decimalText n

def isLong : AttributeValue → Bool
  | int n => Numeral.isLong n
  | _ => false

variable {v : AttributeValue}

theorem written_of_not_long (h : v.isLong = false) : v.written = .ok v.plain := by
  cases v with
  | int n => exact if_neg (Bool.eq_false_iff.1 h)
  | _ => rfl

theorem written_of_long (h : v.isLong = true) : v.written = .error .tooLong := by
  cases v with
  | int n => exact if_pos h
  | _ => cases h

/-- A flag is the one that its text writes. -/
theorem truth_eq (default : Bool) (v : AttributeValue) :
    v.truth default = (fun t => readFlag default (some t)) <$> v.written := by
  cases v with
  | flag b =>
      rw [truth, written, map_ok, readFlag_flagToken]
  | text s => rfl
  | int n => exact (map_eq_pure_bind _ _).symm

end AttributeValue

namespace AttributeStore

section Texts

/-- Under a key a value stands that has no text. -/
def isLongAt (s : AttributeStore) (k : AttributeKey) : Bool := (s.find? k).any (·.isLong)

/-- All values of a step have texts. -/
def Legible (s : AttributeStore) (step : String) : Prop :=
  ∀ (number : Int) (code : String), s.isLongAt ⟨step, number, code⟩ = false

/-- The text under a key, whatever its length. -/
def text? (s : AttributeStore) (k : AttributeKey) : Option String := (s.find? k).map (·.plain)

variable {s : AttributeStore} {k : AttributeKey}

theorem text_of_not_long (h : s.isLongAt k = false) : s.text k = .ok (s.text? k) := by
  rw [isLongAt] at h
  rw [text, text?]
  cases hk : s.find? k with
  | none => rfl
  | some v =>
      rw [hk] at h
      dsimp only
      rw [AttributeValue.written_of_not_long h]
      rfl

theorem text_of_long (h : s.isLongAt k = true) : s.text k = .error .tooLong := by
  rw [isLongAt] at h
  rw [text]
  cases hk : s.find? k with
  | none =>
      rw [hk] at h
      cases h
  | some v =>
      rw [hk] at h
      dsimp only
      rw [AttributeValue.written_of_long h]
      rfl

theorem flag_eq (s : AttributeStore) (k : AttributeKey) (default : Bool) :
    s.flag k default = readFlag default <$> s.text k := by
  rw [flag, text]
  cases s.find? k with
  | none => rfl
  | some v =>
      dsimp only
      rw [AttributeValue.truth_eq]
      cases v.written <;> rfl

end Texts

def recordAt (s : AttributeStore) (step : String) (number : Int) (codes : List String) :
    Record String :=
  codes.filterMap fun code => (s.text? ⟨step, number, code⟩).map (code, ·)

/-- The entry at a position; its leading text is empty where there is none. -/
def entryAt (s : AttributeStore) (step leading : String) (codes : List String) (n : Nat) :
    Record String :=
  let r := s.recordAt step n (leading :: codes)
  if (r.get? leading).isSome then r else (leading, "") :: r

/-- The entries that a leading code counts. -/
def entries (s : AttributeStore) (step leading : String) (codes : List String) :
    List (Record String) :=
  (List.range (s.countOf step leading)).map (s.entryAt step leading codes)

def content (s : AttributeStore) (step : String) : Step :=
  ⟨s.recordAt step 0 Step.optionCodes, s.entries step FieldPart.incomingName.code Step.fieldCodes,
    s.entries step IndexPart.fieldSpec.code Step.indexCodes⟩

/-- The fault of a load whose content stands for no definition. -/
def LoadFault.ofContent : Step.Fault → LoadFault
  | .missing _ code => .missing code
  | .password fault => .password fault
  | .token n fault => .token n fault

theorem LoadFault.kind_ofContent (fault : Step.Fault) :
    (ofContent fault).kind = fault.kind := by
  cases fault with
  | password fault => cases fault <;> rfl
  | _ => rfl

section Loading

variable {s : AttributeStore} {step : String}

theorem get?_recordAt (s : AttributeStore) (step : String) (number : Int) {codes : List String}
    {code : String} (h : code ∈ codes) :
    (s.recordAt step number codes).get? code = s.text? ⟨step, number, code⟩ := by
  rw [recordAt, Record.get?_filterMap_names, if_pos h]

theorem get?_entryAt (s : AttributeStore) (step : String) {leading code : String}
    {codes : List String} (hcode : code ∈ codes) (hne : code ≠ leading) (n : Nat) :
    (s.entryAt step leading codes n).get? code = s.text? ⟨step, n, code⟩ := by
  have hget := get?_recordAt s step n (List.mem_cons_of_mem leading hcode)
  rw [entryAt]
  split
  · exact hget
  · rw [Record.get?, if_neg (Ne.symm hne)]
    exact hget

theorem get?_entryAt_leading (s : AttributeStore) (step leading : String) (codes : List String)
    (n : Nat) : (s.entryAt step leading codes n).get? leading =
      some ((s.text? ⟨step, n, leading⟩).getD "") := by
  have hget : (s.recordAt step n (leading :: codes)).get? leading = s.text? ⟨step, n, leading⟩ :=
    get?_recordAt s step n List.mem_cons_self
  rw [entryAt, hget]
  cases ht : s.text? ⟨step, n, leading⟩ with
  | none => exact if_pos rfl
  | some t =>
      rw [Option.isSome_some, if_pos rfl, hget, ht]
      rfl

theorem Legible.text (h : s.Legible step) (number : Nat) (code : String) :
    s.text ⟨step, number, code⟩ = .ok (s.text? ⟨step, number, code⟩) :=
  text_of_not_long (h number code)

theorem Legible.textAt (h : s.Legible step) {number : Nat} {code : String} {r : Record String}
    (hr : r.get? code = s.text? ⟨step, number, code⟩) :
    s.textAt step number code = .ok (Step.textAt r code) := by
  rw [AttributeStore.textAt, h.text, Step.textAt, hr]
  rfl

theorem Legible.flagAt (h : s.Legible step) {number : Nat} {code : String} {r : Record String}
    (hr : r.get? code = s.text? ⟨step, number, code⟩) :
    s.flagAt step number code = .ok (Step.flagAt r code) := by
  rw [AttributeStore.flagAt, flag_eq, h.text, Step.flagAt, hr]
  rfl

theorem Legible.requireFlag (h : s.Legible step) (o : FlagOption) {r : Record String}
    (hr : r.get? o.code = s.text? ⟨step, 0, o.code⟩) :
    s.requireFlag step o = (Step.checkFlag r o).mapError .ofContent := by
  have ht : s.text ⟨step, 0, o.code⟩ = _ := h.text 0 o.code
  rw [AttributeStore.requireFlag, ht, Step.checkFlag, hr]
  cases s.text? ⟨step, ((0 : Nat) : Int), o.code⟩ <;> rfl

theorem Legible.loadOptions (h : s.Legible step) : s.loadOptions step =
    (Step.loadWriteOptions (s.recordAt step 0 Step.optionCodes)).mapError .ofContent := by
  have hget (o : WriteOption) : (s.recordAt step 0 Step.optionCodes).get? o.code =
      s.text? ⟨step, (0 : Nat), o.code⟩ := get?_recordAt s step 0 (Step.mem_optionCodes o)
  have htext (o : TextOption) := h.textAt (hget (.text o))
  have hflag (o : FlagOption) := h.flagAt (hget (.flag o))
  have hrequire (o : FlagOption) := h.requireFlag o (hget (.flag o))
  have hpassword (x : Except Password.Fault String) :
      (x.mapError Step.Fault.password).mapError LoadFault.ofContent = x.mapError .password := by
    cases x <;> rfl
  simp only [WriteOption.code] at htext hflag
  simp only [AttributeStore.loadOptions, Step.loadWriteOptions, Step.requiredFlags_forM, hrequire,
    htext, hflag, Step.loaded_eq, bind_assoc, mapError_bind, hpassword, pure_eq_ok, ok_bind,
    mapError_ok]

theorem Legible.loadField (h : s.Legible step) (n : Nat) : s.loadField step n =
    (Step.loadField n (s.entryAt step FieldPart.incomingName.code Step.fieldCodes n)).mapError
      .ofContent := by
  have hne (p : FieldPart) (hp : p ≠ .incomingName) : p.code ≠ FieldPart.incomingName.code := by
    revert hp
    cases p <;> decide
  have hget (p : FieldPart) (hp : p ≠ .incomingName) :=
    get?_entryAt s step (Step.mem_fieldCodes p) (hne p hp) n
  have htext (p : FieldPart) (hp : p ≠ .incomingName) := h.textAt (hget p hp)
  have hflag (p : FieldPart) (hp : p ≠ .incomingName) := h.flagAt (hget p hp)
  have hleading := get?_entryAt_leading s step FieldPart.incomingName.code Step.fieldCodes n
  have hname : s.textAt step n FieldPart.incomingName.code =
      .ok ((s.text? ⟨step, n, FieldPart.incomingName.code⟩).getD "") := by
    rw [AttributeStore.textAt, h.text]
    rfl
  have htoken {α : Type} (x : Except TokenFault α) :
      (x.mapError (Step.Fault.token n)).mapError LoadFault.ofContent =
        x.mapError (.token n) := by
    cases x <;> rfl
  simp only [AttributeStore.loadField, Step.loadField, htext .operator (by decide),
    htext .policy (by decide), htext .documentPath (by decide), hflag .useIncomingName (by decide),
    hflag .isMatchKey (by decide), hflag .isFragment (by decide), hname, hleading, mapError_bind,
    htoken, pure_eq_ok, ok_bind, mapError_ok]

theorem Legible.loadIndex (h : s.Legible step) (n : Nat) : s.loadIndex step n =
    (Step.loadIndex (s.entryAt step IndexPart.fieldSpec.code Step.indexCodes n)).mapError
      .ofContent := by
  have hne (p : IndexPart) (hp : p ≠ .fieldSpec) : p.code ≠ IndexPart.fieldSpec.code := by
    revert hp
    cases p <;> decide
  have hget (p : IndexPart) (hp : p ≠ .fieldSpec) :=
    get?_entryAt s step (Step.mem_indexCodes p) (hne p hp) n
  have hflag (p : IndexPart) (hp : p ≠ .fieldSpec) := h.flagAt (hget p hp)
  have hleading := get?_entryAt_leading s step IndexPart.fieldSpec.code Step.indexCodes n
  have hspec : s.textAt step n IndexPart.fieldSpec.code =
      .ok ((s.text? ⟨step, n, IndexPart.fieldSpec.code⟩).getD "") := by
    rw [AttributeStore.textAt, h.text]
    rfl
  simp only [AttributeStore.loadIndex, Step.loadIndex, hflag .drop (by decide),
    hflag .unique (by decide), hflag .sparse (by decide), hspec, hleading, pure_eq_ok, ok_bind,
    mapError_ok]

theorem Legible.loadFields (h : s.Legible step) (n count : Nat) :
    (List.range' n count).mapM (s.loadField step) =
      (Step.loadFields n ((List.range' n count).map
        (s.entryAt step FieldPart.incomingName.code Step.fieldCodes))).mapError
          .ofContent := by
  induction count generalizing n with
  | zero => rfl
  | succ count ih =>
      rw [List.range'_succ, List.mapM_cons, List.map_cons, Step.loadFields, h.loadField, ih (n + 1)]
      simp only [mapError_bind]
      rfl

theorem Legible.loadIndexes (h : s.Legible step) (ns : List Nat) :
    ns.mapM (s.loadIndex step) = ((ns.map
      (s.entryAt step IndexPart.fieldSpec.code Step.indexCodes)).mapM Step.loadIndex).mapError
        .ofContent := by
  induction ns with
  | nil => rfl
  | cons n ns ih =>
      rw [List.mapM_cons, List.map_cons, List.mapM_cons, h.loadIndex, ih]
      simp only [mapError_bind]
      rfl

/-- A step whose values all have texts is loaded as what the content of the texts stands for. -/
theorem Legible.loadStep (h : s.Legible step) :
    s.loadStep step = (s.content step).definition.mapError .ofContent := by
  rw [AttributeStore.loadStep, h.loadOptions, List.range_eq_range', h.loadFields, h.loadIndexes,
    Step.definition]
  simp only [mapError_bind, content, entries, List.range_eq_range']
  rfl

end Loading

end AttributeStore

end DocumentSink
