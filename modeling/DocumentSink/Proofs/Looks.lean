import DocumentSink.Proofs.Stored

/-!
What a load of a step looks at in a store, in order: the flags that have to be there, the password,
the other options, and the parts of each field and of each index. Main statement: a load fails as
the first look that fails, and succeeds if none does.
-/

namespace DocumentSink.AttributeStore

/-- A place that a load looks at, with the kind of failure that it makes of what is found there. -/
structure Look where
  number : Nat
  code : String
  refusal : Option String → Option FailureKind := fun _ => none

namespace Look

def requiredFlag (o : FlagOption) : Look where
  number := 0
  code := o.code
  refusal := fun t => if t.isNone then some .configuration else none

def password : Look where
  number := 0
  code := TextOption.password.code
  refusal := fun t =>
    match Password.restore (t.getD "") with
    | .ok _ => none
    | .error .negative => some .overflow
    | .error _ => some .configuration

/-- The options other than the password, in the order of the constructor's arguments. -/
def optionOrder : List WriteOption := [
  .text .hostnames, .text .port, .flag .useAllReplicaMembers, .text .username, .text .dbName,
  .text .collection, .text .batchInsertSize, .text .connectTimeout, .text .socketTimeout,
  .text .readPreference, .text .writeConcern, .text .wTimeout, .flag .journal, .flag .truncate,
  .flag .upsert, .flag .multi, .flag .modifierUpdate, .text .writeRetries, .text .writeRetryDelay]

def option (o : WriteOption) : Look where
  number := 0
  code := o.code

/-- A look at a text that has to be a token. -/
def token {α : Type} (read : String → Except TokenFault α) (n : Nat) (code : String) : Look where
  number := n
  code := code
  refusal := fun t =>
    match read (t.getD "") with
    | .ok _ => none
    | .error _ => some .configuration

def field (n : Nat) : List Look := [
  token Operator.ofToken n FieldPart.operator.code,
  token ApplyPolicy.ofToken n FieldPart.policy.code,
  { number := n, code := FieldPart.incomingName.code },
  { number := n, code := FieldPart.documentPath.code },
  { number := n, code := FieldPart.useIncomingName.code },
  { number := n, code := FieldPart.isMatchKey.code },
  { number := n, code := FieldPart.isFragment.code }]

def index (n : Nat) : List Look := [
  { number := n, code := IndexPart.fieldSpec.code }, { number := n, code := IndexPart.drop.code },
  { number := n, code := IndexPart.unique.code }, { number := n, code := IndexPart.sparse.code }]

/-- How a look fails: an integer that has no text, or as the look makes of the text. -/
def failure (s : AttributeStore) (step : String) (l : Look) : Option FailureKind :=
  match s.text ⟨step, l.number, l.code⟩ with
  | .ok t => l.refusal t
  | .error fault => some fault.kind

end Look

/-- What a load looks at behind the flags and the password. -/
def laterLooks (s : AttributeStore) (step : String) : List Look :=
  Look.optionOrder.map .option ++
    ((List.range (s.countOf step FieldPart.incomingName.code)).flatMap Look.field ++
      (List.range (s.countOf step IndexPart.fieldSpec.code)).flatMap Look.index)

def looks (s : AttributeStore) (step : String) : List Look :=
  Step.requiredFlags.map .requiredFlag ++ Look.password :: s.laterLooks step

/-- A computation fails as the first of some looks that fails. -/
def FailsAt {α : Type} (s : AttributeStore) (step : String) (x : Except LoadFault α)
    (looks : List Look) : Prop :=
  FailsFirst (x.mapError LoadFault.kind) (looks.filterMap (·.failure s step))

section Composing

variable {α β : Type} {s : AttributeStore} {step : String} {x : Except LoadFault α}
  {f : α → Except LoadFault β} {l : Look} {ls ls' : List Look}

theorem failsAt_pure (a : α) : s.FailsAt step (pure a) [] := failsFirst_pure a

theorem FailsAt.bind (hx : s.FailsAt step x ls) (hf : ∀ a, s.FailsAt step (f a) ls') :
    s.FailsAt step (x >>= f) (ls ++ ls') := by
  rw [FailsAt, mapError_bind, List.filterMap_append]
  exact FailsFirst.bind hx hf

theorem FailsAt.cons (hx : s.FailsAt step x [l]) (hf : ∀ a, s.FailsAt step (f a) ls) :
    s.FailsAt step (x >>= f) (l :: ls) := hx.bind hf

/-- One look, by all that it can come to. -/
theorem failsAt_look (h : ∀ kind, x.mapError LoadFault.kind = .error kind ↔
    l.failure s step = some kind) : s.FailsAt step x [l] := by
  intro kind
  rw [h kind, List.filterMap_cons]
  cases l.failure s step <;> rfl

theorem failsAt_mapM {f : Nat → Except LoadFault α} {looks : Nat → List Look}
    (h : ∀ n, s.FailsAt step (f n) (looks n)) (ns : List Nat) :
    s.FailsAt step (ns.mapM f) (ns.flatMap looks) := by
  rw [FailsAt, mapError_mapM, List.filterMap_flatMap]
  exact failsFirst_mapM h ns

theorem failsAt_textAt (n : Nat) (code : String) :
    s.FailsAt step (s.textAt step n code) [{ number := n, code := code }] := by
  apply failsAt_look
  intro kind
  rw [textAt, Look.failure]
  cases s.text ⟨step, n, code⟩ <;> simp [LoadFault.kind]

theorem failsAt_flagAt (n : Nat) (code : String) :
    s.FailsAt step (s.flagAt step n code) [{ number := n, code := code }] := by
  apply failsAt_look
  intro kind
  rw [flagAt, flag_eq, Look.failure]
  cases s.text ⟨step, n, code⟩ <;> simp [LoadFault.kind]

theorem failsAt_requireFlag (o : FlagOption) :
    s.FailsAt step (s.requireFlag step o) [.requiredFlag o] := by
  apply failsAt_look
  intro kind
  have hnumber : s.text ⟨step, (Look.requiredFlag o).number, (Look.requiredFlag o).code⟩ =
      s.text ⟨step, 0, o.code⟩ := rfl
  rw [requireFlag, Look.failure, hnumber]
  cases s.text ⟨step, 0, o.code⟩ with
  | error fault => simp [LoadFault.kind]
  | ok t => cases t <;> simp [Look.requiredFlag, LoadFault.kind]

/-- A text that is read at once is one look. -/
theorem failsAt_read {f : String → Except LoadFault α} {g : α → Except LoadFault β}
    {refusal : Option String → Option FailureKind} {n : Nat} {code : String}
    (h : ∀ t kind, (f (t.getD "")).mapError LoadFault.kind = .error kind ↔ refusal t = some kind)
    (hg : ∀ a, s.FailsAt step (g a) ls) :
    s.FailsAt step (s.textAt step n code >>= fun t => f t >>= g) (⟨n, code, refusal⟩ :: ls) := by
  rw [← bind_assoc]
  refine FailsAt.cons (failsAt_look ?_) hg
  intro kind
  rw [textAt, Look.failure]
  cases s.text ⟨step, n, code⟩ with
  | error fault => simp [LoadFault.kind]
  | ok t => exact h t kind

theorem failsAt_token {γ : Type} {read : String → Except TokenFault γ}
    {g : γ → Except LoadFault β} {n : Nat} {code : String}
    (hg : ∀ a, s.FailsAt step (g a) ls) :
    s.FailsAt step (s.textAt step n code >>= fun t => (read t).mapError (.token n) >>= g)
      (.token read n code :: ls) := by
  refine failsAt_read (fun t kind => ?_) hg
  cases read (t.getD "") <;> simp [LoadFault.kind]

end Composing

section Loading

variable (s : AttributeStore) (step : String)

theorem failsAt_loadOptions : s.FailsAt step (s.loadOptions step)
    (Step.requiredFlags.map .requiredFlag ++ Look.password :: Look.optionOrder.map .option) := by
  have text (code : String) :
      s.FailsAt step (s.textAt step 0 code) [{ number := 0, code := code }] :=
    failsAt_textAt 0 code
  have flag (code : String) :
      s.FailsAt step (s.flagAt step 0 code) [{ number := 0, code := code }] :=
    failsAt_flagAt 0 code
  rw [loadOptions, Step.requiredFlags_forM]
  refine FailsAt.bind ?_ fun _ => failsAt_read (fun t kind => ?_) fun _ => ?_
  · exact (failsAt_requireFlag .truncate).cons fun _ => (failsAt_requireFlag .upsert).cons fun _ =>
      (failsAt_requireFlag .multi).cons fun _ =>
        (failsAt_requireFlag .modifierUpdate).cons fun _ => failsAt_pure _
  · cases Password.restore (t.getD "") with
    | error fault => cases fault <;> simp [LoadFault.kind]
    | ok password => simp
  · exact (text _).cons fun _ => (text _).cons fun _ => (flag _).cons fun _ =>
      (text _).cons fun _ => (text _).cons fun _ => (text _).cons fun _ => (text _).cons fun _ =>
      (text _).cons fun _ => (text _).cons fun _ => (text _).cons fun _ => (text _).cons fun _ =>
      (text _).cons fun _ => (flag _).cons fun _ => (flag _).cons fun _ => (flag _).cons fun _ =>
      (flag _).cons fun _ => (flag _).cons fun _ => (text _).cons fun _ => (text _).cons fun _ =>
      failsAt_pure _

theorem failsAt_loadField (n : Nat) : s.FailsAt step (s.loadField step n) (Look.field n) :=
  failsAt_token fun _ => failsAt_token fun _ =>
    (failsAt_textAt n _).cons fun _ => (failsAt_textAt n _).cons fun _ =>
      (failsAt_flagAt n _).cons fun _ => (failsAt_flagAt n _).cons fun _ =>
        (failsAt_flagAt n _).cons fun _ => failsAt_pure _

theorem failsAt_loadIndex (n : Nat) : s.FailsAt step (s.loadIndex step n) (Look.index n) :=
  (failsAt_textAt n _).cons fun _ => (failsAt_flagAt n _).cons fun _ =>
    (failsAt_flagAt n _).cons fun _ => (failsAt_flagAt n _).cons fun _ => failsAt_pure _

/-- A load fails as the first look that fails. -/
theorem failsAt_loadStep : s.FailsAt step (s.loadStep step) (s.looks step) := by
  have hlooks : s.looks step =
      (Step.requiredFlags.map .requiredFlag ++ Look.password :: Look.optionOrder.map .option) ++
        ((List.range (s.countOf step FieldPart.incomingName.code)).flatMap Look.field ++
          ((List.range (s.countOf step IndexPart.fieldSpec.code)).flatMap Look.index ++ [])) := by
    rw [looks, laterLooks, List.append_nil, List.append_assoc, List.cons_append]
  rw [hlooks]
  exact (s.failsAt_loadOptions step).bind fun _ =>
    (failsAt_mapM (s.failsAt_loadField step) _).bind fun _ =>
      (failsAt_mapM (s.failsAt_loadIndex step) _).bind fun _ => failsAt_pure _

end Loading

end DocumentSink.AttributeStore
