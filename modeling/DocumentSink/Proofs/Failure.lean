import DocumentSink.Proofs.Attributes
import DocumentSink.Proofs.Decoding
import DocumentSink.Proofs.Looks
import DocumentSink.Proofs.Wide
import DocumentSink.Store.Config

/-!
What escapes from a load. A failed load is a failure of the configuration, but for these causes: a
negative number behind the mark of a concealed password, an integer of a store that has no text, a
surrogate in a text, octets of a file that are no UTF-8, and a table that is closed. Main statement:
these are the only causes, and each of them does escape.
-/

namespace DocumentSink

namespace Password

/-- The digits behind the mark write a number below zero. -/
def isNegative (stored : String) : Bool :=
  mark.isPrefixOf stored.toList &&
    (Numeral.hexadecimal? (Text.trim (stored.toList.drop mark.length))).any (· < 0)

theorem reveal_eq_negative {digits : String} : reveal digits = .error .negative ↔
    (Numeral.hexadecimal? (Text.trim digits.toList)).any (· < 0) = true := by
  rw [reveal]
  split
  · next he =>
      rw [String.isEmpty_iff.1 he]
      constructor
      · intro h
        cases h
      · intro h
        revert h
        decide
  · dsimp only
    cases Numeral.hexadecimal? (Text.trim digits.toList) with
    | none => simp
    | some n =>
        by_cases hn : n < 0
        · simp [hn]
        · simp only [hn, if_false]
          cases Utf8.decode (octets (n.toNat ^^^ seed)) <;> simp [hn]

theorem restore_eq_negative {stored : String} :
    restore stored = .error .negative ↔ isNegative stored = true := by
  rw [restore, isNegative]
  split
  · next hm => rw [reveal_eq_negative, String.toList_ofList, hm, Bool.true_and]
  · next hm =>
      rw [Bool.not_eq_true] at hm
      rw [hm, Bool.false_and]
      constructor
      · intro h
        cases h
      · intro h
        cases h

end Password

namespace Step

/-- The flags that have to be there are, and the stored password is a number below zero. -/
structure Overflows (s : Step) : Prop where
  flags : ∀ o ∈ requiredFlags, (s.options.get? o.code).isSome
  password : Password.isNegative (textAt s.options TextOption.password.code) = true

variable {r : Record String} {s : Step} {fault : Fault}

theorem kind_ne_configuration :
    fault.kind ≠ .configuration ↔ fault = .password .negative := by
  cases fault with
  | password fault => cases fault <;> simp [Fault.kind]
  | _ => simp [Fault.kind]

theorem checkFlag_eq_ok {o : FlagOption} :
    checkFlag r o = .ok () ↔ (r.get? o.code).isSome := by
  rw [checkFlag]
  split
  · next h => simp [h]
  · next h => simp [h]

theorem loadWriteOptions_eq_negative :
    loadWriteOptions r = .error (.password .negative) ↔
      (∀ o ∈ requiredFlags, (r.get? o.code).isSome) ∧
        Password.isNegative (textAt r TextOption.password.code) = true := by
  have hcheck : requiredFlags.forM (checkFlag r) ≠ .error (.password .negative) := by
    intro h
    obtain ⟨o, -, ho⟩ := exists_of_forM_eq_error h
    rw [checkFlag] at ho
    split at ho <;> cases ho
  have hflags : requiredFlags.forM (checkFlag r) = .ok () ↔
      ∀ o ∈ requiredFlags, (r.get? o.code).isSome := by
    simp only [forM_eq_ok, checkFlag_eq_ok]
  have hpassword {f : String → Except Fault WriteOptions} (hf : ∀ p, ∃ w, f p = .ok w)
      (x : Except Password.Fault String) :
      (x.mapError .password >>= f) = .error (.password .negative) ↔ x = .error .negative := by
    cases x with
    | error fault => simp
    | ok password =>
        obtain ⟨w, hw⟩ := hf password
        simp [hw]
  rw [loadWriteOptions, bind_eq_error, or_iff_right hcheck, ← Password.restore_eq_negative,
    ← hflags]
  constructor
  · rintro ⟨_, hok, h⟩
    exact ⟨hok, (hpassword (fun _ => ⟨_, rfl⟩) _).1 h⟩
  · rintro ⟨hok, hr⟩
    exact ⟨(), hok, (hpassword (fun _ => ⟨_, rfl⟩) _).2 hr⟩

theorem loadField_ne_negative (n : Nat) : loadField n r ≠ .error (.password .negative) := by
  have htoken {α : Type} {x : Except TokenFault α} :
      x.mapError (Fault.token n) ≠ .error (.password .negative) := by
    intro h
    obtain ⟨_, -, h⟩ := mapError_eq_error.1 h
    cases h
  intro h
  rw [loadField] at h
  rcases bind_eq_error.1 h with h | ⟨operator, -, h⟩
  · exact htoken h
  · rcases bind_eq_error.1 h with h | ⟨policy, -, h⟩
    · exact htoken h
    · split at h <;> cases h

theorem loadFields_ne_negative {rs : List (Record String)} (n : Nat) :
    loadFields n rs ≠ .error (.password .negative) := by
  induction rs generalizing n with
  | nil => exact nofun
  | cons r rs ih =>
      intro h
      rcases bind_eq_error.1 h with h | ⟨m, -, h⟩
      · exact loadField_ne_negative n h
      · rcases bind_eq_error.1 h with h | ⟨ms, -, h⟩
        · exact ih (n + 1) h
        · cases h

theorem loadIndexes_ne_negative {rs : List (Record String)} :
    rs.mapM loadIndex ≠ .error (.password .negative) := by
  intro h
  obtain ⟨r, -, hr⟩ := exists_of_mapM_eq_error h
  rw [loadIndex] at hr
  split at hr <;> cases hr

/-- Only the options of a content can hold what overflows. -/
theorem definition_eq_negative :
    s.definition = .error (.password .negative) ↔ s.Overflows := by
  have hrest (w : WriteOptions) : (do
      let mappings ← loadFields 0 s.fields
      let indexes ← s.indexes.mapM loadIndex
      return ({ write := w, mappings, indexes } : Definition)) ≠ .error (.password .negative) := by
    intro h
    rcases bind_eq_error.1 h with h | ⟨mappings, -, h⟩
    · exact loadFields_ne_negative 0 h
    · rcases bind_eq_error.1 h with h | ⟨indexes, -, h⟩
      · exact loadIndexes_ne_negative h
      · cases h
  rw [definition, bind_eq_error, loadWriteOptions_eq_negative]
  constructor
  · rintro (⟨hflags, hpassword⟩ | ⟨w, -, h⟩)
    · exact ⟨hflags, hpassword⟩
    · exact absurd h (hrest w)
  · intro h
    exact .inl ⟨h.flags, h.password⟩

end Step

/-- A failed load that is no failure of the configuration. -/
def Escapes {ε α : Type} (x : Except ε α) (kindOf : ε → FailureKind) (kind : FailureKind) : Prop :=
  kind ≠ .configuration ∧ x.mapError kindOf = .error kind

section Escapes

variable {ε ε' α : Type} {x : Except ε α} {kindOf : ε → FailureKind} {kind : FailureKind}

theorem escapes_iff :
    Escapes x kindOf kind ↔
      kind ≠ .configuration ∧ ∃ fault, x = .error fault ∧ kindOf fault = kind :=
  and_congr_right' mapError_eq_error

theorem escapes_error {fault : ε} :
    Escapes (.error fault : Except ε α) kindOf kind ↔
      kindOf fault ≠ .configuration ∧ kind = kindOf fault := by
  rw [Escapes, mapError_error, Except.error.injEq]
  constructor
  · rintro ⟨hk, rfl⟩
    exact ⟨hk, rfl⟩
  · rintro ⟨hk, rfl⟩
    exact ⟨hk, rfl⟩

theorem escapes_mapError {f : ε → ε'} {kindOf : ε' → FailureKind} :
    Escapes (x.mapError f) kindOf kind ↔ Escapes x (kindOf ∘ f) kind := by
  cases x <;> rfl

theorem Step.escapes_definition {s : Step} :
    Escapes s.definition Fault.kind kind ↔ kind = .overflow ∧ s.Overflows := by
  rw [escapes_iff, ← definition_eq_negative]
  constructor
  · rintro ⟨hk, fault, hs, rfl⟩
    rw [kind_ne_configuration] at hk
    subst hk
    exact ⟨rfl, hs⟩
  · rintro ⟨rfl, hs⟩
    exact ⟨nofun, _, hs, rfl⟩

end Escapes

namespace Markup

/-- A text whose step overflows. -/
def Overflows (text : Wide) : Prop :=
  ∃ root e, document text = .ok root ∧ root.find? stepTag = some e ∧ (toStep e).Overflows

/-- Of texts alone, those with surrogates are no documents for another cause than their content. -/
theorem escapes_document {text : Wide} {kind : FailureKind} :
    Escapes (document text) ReadFault.kind kind ↔
      kind = .encoding ∧ ∃ c ∈ text, c.isSurrogate = true := by
  rw [← Wide.exists_fault_iff, document]
  cases text.chars with
  | error fault =>
      rw [mapError_error, error_bind, escapes_error]
      simp [ReadFault.kind]
  | ok chars =>
      rw [mapError_ok, ok_bind]
      cases Xml.characters? chars >>= Xml.read with
      | none => simp [escapes_error, ReadFault.kind]
      | some root => simp [Escapes]

theorem escapes_decode {text : Wide} {kind : FailureKind} :
    Escapes (decode text) ReadFault.kind kind ↔
      kind = .encoding ∧ (∃ c ∈ text, c.isSurrogate = true) ∨ kind = .overflow ∧ Overflows text := by
  rw [← escapes_document]
  cases hroot : document text with
  | error fault =>
      rw [decode, hroot, error_bind]
      simp [Overflows, hroot, Escapes]
  | ok root =>
      have hdocument : ¬ Escapes (.ok root : Except ReadFault Xml.Element) ReadFault.kind kind := by
        simp [Escapes]
      rw [decode_of_document hroot, outcome, or_iff_right hdocument]
      cases he : root.find? stepTag with
      | none => simp [escapes_error, ReadFault.kind, Overflows, hroot, he]
      | some e =>
          have hkind : ReadFault.kind ∘ ReadFault.ofContent = Step.Fault.kind :=
            funext ReadFault.kind_ofContent
          simp [escapes_mapError, hkind, Step.escapes_definition, Overflows, hroot, he]

end Markup

namespace AttributeStore

/-- The flags that have to be there are, and the stored password is a number below zero. -/
structure Overflows (s : AttributeStore) (step : String) : Prop where
  flags : ∀ o ∈ Step.requiredFlags, ∃ t, s.text ⟨step, 0, o.code⟩ = .ok (some t)
  password : ∃ t, s.text ⟨step, 0, TextOption.password.code⟩ = .ok (some t) ∧
    Password.isNegative t = true

/-- The first look of a load that fails finds an integer without a text. -/
def MeetsLong (s : AttributeStore) (step : String) : Prop :=
  ∃ before l after, s.looks step = before ++ l :: after ∧
    (∀ b ∈ before, b.failure s step = none) ∧ s.text ⟨step, l.number, l.code⟩ = .error .tooLong

section Looking

variable {s : AttributeStore} {step : String} {l : Look}

theorem text_eq_error {k : AttributeKey} {fault : StoreFault} (h : s.text k = .error fault) :
    fault = .tooLong := by
  cases hk : s.isLongAt k with
  | false =>
      rw [text_of_not_long hk] at h
      cases h
  | true =>
      rw [text_of_long hk] at h
      cases h
      rfl

/-- Under a key with a text, or with a value that has none, the step is there. -/
theorem hasStep_of_text {number : Int} {code : String}
    (h : s.text ⟨step, number, code⟩ ≠ .ok none) : s.hasStep step = true := by
  rw [text] at h
  cases hfind : s.find? ⟨step, number, code⟩ with
  | none =>
      rw [hfind] at h
      exact absurd rfl h
  | some v =>
      rw [find?_eq_rowsOf] at hfind
      rw [hasStep_eq_rowsOf]
      cases hrows : s.rowsOf step with
      | nil =>
          rw [hrows] at hfind
          cases hfind
      | cons p ps => rfl

/-- Apart from an integer without a text, a look fails by what it makes of a text. -/
theorem failure_eq_some {kind : FailureKind} : l.failure s step = some kind ↔
    kind = .value ∧ s.text ⟨step, l.number, l.code⟩ = .error .tooLong ∨
      ∃ t, s.text ⟨step, l.number, l.code⟩ = .ok t ∧ l.refusal t = some kind := by
  rw [Look.failure]
  cases ht : s.text ⟨step, l.number, l.code⟩ with
  | ok t => simp
  | error fault =>
      rw [text_eq_error ht]
      simp [StoreFault.kind, eq_comm]

theorem failure_requiredFlag (o : FlagOption) : (Look.requiredFlag o).failure s step = none ↔
    ∃ t, s.text ⟨step, 0, o.code⟩ = .ok (some t) := by
  have hnumber : s.text ⟨step, (Look.requiredFlag o).number, (Look.requiredFlag o).code⟩ =
      s.text ⟨step, 0, o.code⟩ := rfl
  rw [Look.failure, hnumber]
  cases s.text ⟨step, 0, o.code⟩ with
  | error fault => simp
  | ok t => cases t <;> simp [Look.requiredFlag]

theorem refusal_password {t : Option String} :
    Look.password.refusal t = some .overflow ↔ Password.isNegative (t.getD "") = true := by
  rw [← Password.restore_eq_negative, Look.password]
  dsimp only
  cases Password.restore (t.getD "") with
  | ok password => simp
  | error fault => cases fault <;> simp

theorem failure_password : Look.password.failure s step = some .overflow ↔
    ∃ t, s.text ⟨step, 0, TextOption.password.code⟩ = .ok (some t) ∧
      Password.isNegative t = true := by
  have hnumber : s.text ⟨step, Look.password.number, Look.password.code⟩ =
      s.text ⟨step, 0, TextOption.password.code⟩ := rfl
  rw [failure_eq_some, hnumber]
  simp only [refusal_password]
  constructor
  · rintro (⟨h, -⟩ | ⟨t, ht, hnegative⟩)
    · cases h
    · cases t with
      | none => exact absurd hnegative (by decide)
      | some t => exact ⟨t, ht, hnegative⟩
  · rintro ⟨t, ht, hnegative⟩
    exact .inr ⟨some t, ht, hnegative⟩

/-- What a look other than that at the password makes of a text is a failure of the configuration. -/
theorem refusal_of_ne_password {t : Option String} {kind : FailureKind}
    (h : l ∈ Step.requiredFlags.map Look.requiredFlag ∨ l ∈ s.laterLooks step)
    (hkind : l.refusal t = some kind) : kind = .configuration := by
  have htoken {α : Type} {read : String → Except TokenFault α} {n : Nat} {code : String}
      (hkind : (Look.token read n code).refusal t = some kind) : kind = .configuration := by
    revert hkind
    rw [Look.token]
    dsimp only
    cases read (t.getD "") <;> simp [eq_comm]
  rcases h with h | h
  · obtain ⟨o, -, rfl⟩ := List.mem_map.1 h
    revert hkind
    rw [Look.requiredFlag]
    cases t <;> simp [eq_comm]
  · rw [laterLooks, List.mem_append, List.mem_append] at h
    rcases h with h | h | h
    · obtain ⟨o, -, rfl⟩ := List.mem_map.1 h
      cases hkind
    · obtain ⟨n, -, h⟩ := List.mem_flatMap.1 h
      simp only [Look.field, List.mem_cons, List.not_mem_nil, or_false] at h
      rcases h with rfl | rfl | rfl | rfl | rfl | rfl | rfl
      · exact htoken hkind
      · exact htoken hkind
      all_goals cases hkind
    · obtain ⟨n, -, h⟩ := List.mem_flatMap.1 h
      simp only [Look.index, List.mem_cons, List.not_mem_nil, or_false] at h
      rcases h with rfl | rfl | rfl | rfl
      all_goals cases hkind

theorem refusal_password_kind {t : Option String} {kind : FailureKind}
    (h : Look.password.refusal t = some kind) : kind = .configuration ∨ kind = .overflow := by
  revert h
  rw [Look.password]
  dsimp only
  cases Password.restore (t.getD "") with
  | ok password => simp
  | error fault => cases fault <;> rintro ⟨⟩ <;> simp

theorem findSome?_eq_value :
    (s.looks step).findSome? (·.failure s step) = some .value ↔ s.MeetsLong step := by
  have hlook (l : Look) (hl : l ∈ s.looks step) : l.failure s step = some .value ↔
      s.text ⟨step, l.number, l.code⟩ = .error .tooLong := by
    rw [failure_eq_some]
    constructor
    · rintro (⟨-, h⟩ | ⟨t, -, h⟩)
      · exact h
      · rw [looks, List.mem_append, List.mem_cons, or_left_comm] at hl
        rcases hl with rfl | hl
        · rcases refusal_password_kind h with h | h <;> cases h
        · cases refusal_of_ne_password hl h
    · intro h
      exact .inl ⟨rfl, h⟩
  rw [List.findSome?_eq_some_iff]
  constructor
  · rintro ⟨before, l, after, hlooks, hl, hbefore⟩
    exact ⟨before, l, after, hlooks, hbefore, (hlook l (by simp [hlooks])).1 hl⟩
  · rintro ⟨before, l, after, hlooks, hbefore, hl⟩
    exact ⟨before, l, after, hlooks, (hlook l (by simp [hlooks])).2 hl, hbefore⟩

theorem findSome?_eq_overflow :
    (s.looks step).findSome? (·.failure s step) = some .overflow ↔ s.Overflows step := by
  have hother (ls : List Look)
      (hls : ∀ l ∈ ls, l ∈ Step.requiredFlags.map Look.requiredFlag ∨ l ∈ s.laterLooks step) :
      ls.findSome? (·.failure s step) ≠ some .overflow := by
    intro h
    obtain ⟨l, hl, hkind⟩ := List.exists_of_findSome?_eq_some h
    rcases failure_eq_some.1 hkind with ⟨h, -⟩ | ⟨t, -, h⟩
    · cases h
    · cases refusal_of_ne_password (hls l hl) h
  have hflags := hother (Step.requiredFlags.map Look.requiredFlag) fun _ hl => .inl hl
  have hlater := hother (s.laterLooks step) fun _ hl => .inr hl
  have hpassword : (Look.password :: s.laterLooks step).findSome? (·.failure s step) =
      some .overflow ↔ Look.password.failure s step = some .overflow := by
    rw [List.findSome?_cons]
    cases Look.password.failure s step with
    | some kind => exact Iff.rfl
    | none => simp [hlater]
  rw [looks, List.findSome?_append, Option.or_eq_some_iff, or_iff_right hflags, hpassword,
    failure_password, List.findSome?_eq_none_iff, List.forall_mem_map]
  simp only [failure_requiredFlag]
  exact ⟨fun h => ⟨h.1, h.2⟩, fun h => ⟨h.flags, h.password⟩⟩

end Looking

theorem escapes_loadStep {s : AttributeStore} {step : String} {kind : FailureKind} :
    Escapes (s.loadStep step) LoadFault.kind kind ↔
      kind = .overflow ∧ s.Overflows step ∨ kind = .value ∧ s.MeetsLong step := by
  have hfails := s.failsAt_loadStep step kind
  rw [List.head?_filterMap] at hfails
  rw [Escapes, hfails, ← findSome?_eq_overflow, ← findSome?_eq_value]
  constructor
  · rintro ⟨hne, h⟩
    obtain ⟨l, hl, hkind⟩ := List.exists_of_findSome?_eq_some h
    rcases failure_eq_some.1 hkind with ⟨rfl, -⟩ | ⟨t, -, hrefusal⟩
    · exact .inr ⟨rfl, h⟩
    · rw [looks, List.mem_append, List.mem_cons, or_left_comm] at hl
      rcases hl with rfl | hl
      · rcases refusal_password_kind hrefusal with rfl | rfl
        · exact absurd rfl hne
        · exact .inl ⟨rfl, h⟩
      · exact absurd (refusal_of_ne_password hl hrefusal) hne
  · rintro (⟨rfl, h⟩ | ⟨rfl, h⟩)
    · exact ⟨by decide, h⟩
    · exact ⟨by decide, h⟩

theorem escapes_load {s : AttributeStore} {step : String} {kind : FailureKind} :
    Escapes (s.load step) LoadFault.kind kind ↔ kind = .closed ∧ ¬ s.Admits [] ∨
      s.Admits [] ∧ (kind = .overflow ∧ s.Overflows step ∨ kind = .value ∧ s.MeetsLong step) := by
  rw [load, has]
  by_cases hadmits : s.Admits []
  · rw [access_eq_ok.2 ⟨hadmits, rfl⟩, mapError_ok, ok_bind]
    cases hhas : s.hasStep step with
    | true => simp [hadmits, ← escapes_loadStep]
    | false =>
        have hoverflows : ¬ s.Overflows step := by
          rintro ⟨-, t, ht, -⟩
          rw [hasStep_of_text (by rw [ht]; simp)] at hhas
          cases hhas
        have hlong : ¬ s.MeetsLong step := by
          rintro ⟨before, l, after, -, -, hl⟩
          rw [hasStep_of_text (by rw [hl]; simp)] at hhas
          cases hhas
        simp [escapes_error, LoadFault.kind, hadmits, hoverflows, hlong]
  · rw [access_eq_error.2 ⟨hadmits, rfl⟩, mapError_error, error_bind, escapes_error]
    simp [LoadFault.kind, StoreFault.kind, hadmits]

/-- A step with a surrogate in its name escapes from a table alone. -/
theorem escapes_loadNamed {s : AttributeStore} {step : Wide} {kind : FailureKind} :
    Escapes (s.loadNamed step) LoadFault.kind kind ↔ kind = .closed ∧ ¬ s.Admits [] ∨
      s.Admits [] ∧ (kind = .encoding ∧ s.backend = .table ∧ (∃ c ∈ step, c.isSurrogate = true) ∨
        ∃ name, step = .ofString name ∧
          (kind = .overflow ∧ s.Overflows name ∨ kind = .value ∧ s.MeetsLong name)) := by
  rw [← Wide.exists_fault_iff, loadNamed]
  cases hchars : step.chars with
  | ok chars =>
      have hname (name : String) : step = .ofString name ↔ name = .ofList chars := by
        rw [Wide.ofString, ← Wide.chars_eq_ok, hchars, Except.ok.injEq, eq_comm,
          ← String.toList_inj, String.toList_ofList]
      simp [escapes_load, hname]
  | error fault =>
      have hname (name : String) : step ≠ .ofString name := by
        rintro rfl
        rw [Wide.ofString, Wide.chars_ofChars] at hchars
        cases hchars
      by_cases hadmits : s.Admits []
      · dsimp only
        rw [access_eq_ok.2 ⟨hadmits, rfl⟩, mapError_ok, ok_bind, throw_eq_error, escapes_error]
        cases hbackend : s.backend with
        | memory => simp [LoadFault.kind, hadmits, hname]
        | table => simp [LoadFault.kind, StoreFault.kind, hadmits, hname]
      · dsimp only
        rw [access_eq_error.2 ⟨hadmits, rfl⟩, mapError_error, error_bind, escapes_error]
        simp [LoadFault.kind, StoreFault.kind, hadmits]

end AttributeStore

namespace ConfigStore

/-- Loading a file, the octets do not decode, or what they write overflows. -/
theorem escapes_loadMarkup {s : ConfigStore} {p : FilePath} {kind : FailureKind} :
    Escapes (s.loadMarkup p) LoadFault.kind kind ↔ ∃ octets, s.files.read p = .ok octets ∧
      (kind = .decoding ∧ (∀ text, octets ≠ Utf8.encode text) ∨
        kind = .overflow ∧ ∃ text, octets = Utf8.encode text ∧
          Markup.Overflows (.ofChars (Text.lineFeeds text))) := by
  rw [loadMarkup]
  cases hread : s.files.read p with
  | error fault => simp [escapes_error, LoadFault.kind]
  | ok octets =>
      simp only [mapError_ok, ok_bind, Except.ok.injEq, exists_eq_left']
      cases hdecode : Utf8.decode octets with
      | error fault =>
          have hnone : ∀ text, octets ≠ Utf8.encode text := by
            intro text h
            rw [Utf8.decode_eq_ok.2 h] at hdecode
            cases hdecode
          simp [escapes_error, LoadFault.kind, hnone]
      | ok text =>
          have hoctets := Utf8.decode_eq_ok.1 hdecode
          have hmarkup : LoadFault.kind ∘ LoadFault.markup = Markup.ReadFault.kind := rfl
          have hunique (t : List Char) : octets = Utf8.encode t ↔ t = text := by
            rw [← Utf8.decode_eq_ok, hdecode, Except.ok.injEq, eq_comm]
          have hchars : ¬ ∃ c ∈ Wide.ofChars (Text.lineFeeds text), c.isSurrogate = true := by
            rintro ⟨c, hc, hsurrogate⟩
            rw [Wide.isSurrogate_of_mem_ofChars hc] at hsurrogate
            cases hsurrogate
          simp [escapes_mapError, hmarkup, Markup.escapes_decode, hunique, hchars]

end ConfigStore

/-- Markup whose stored password is the number -1. -/
def negativeMarkup : String :=
  "<step><truncate>N</truncate><upsert>Y</upsert><multi>N</multi>" ++
  "<modifier_update>N</modifier_update><mongo_password>Encrypted -1</mongo_password></step>"

/-- A file of one octet that begins no character. -/
def brokenFile : ConfigStore := { files := ⟨[([⟨"x.xml", by decide⟩], .file [0xFF])]⟩ }

/-- A memory with a port of 5001 digits. -/
def longPort : AttributeStore where
  attributes := [
    (⟨"a", 0, "truncate"⟩, .flag true), (⟨"a", 0, "upsert"⟩, .flag true),
    (⟨"a", 0, "multi"⟩, .flag true), (⟨"a", 0, "modifier_update"⟩, .flag true),
    (⟨"a", 0, "mongo_port"⟩, .int (Nat.pow 10 5000))]

end DocumentSink
