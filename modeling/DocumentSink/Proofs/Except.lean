import Mathlib.Data.List.Forall2

/-!
Computations that may fail. A chain succeeds with what its links give, a fault ends it, and a list
of them succeeds exactly when each does.
-/

namespace DocumentSink

variable {ε ε' α β γ : Type}

@[simp] theorem ok_bind (a : α) (f : α → Except ε β) : (Except.ok a >>= f) = f a := rfl

@[simp] theorem error_bind (e : ε) (f : α → Except ε β) : (Except.error e >>= f) = .error e := rfl

@[simp] theorem pure_eq_ok (a : α) : (pure a : Except ε α) = .ok a := rfl

@[simp] theorem throw_eq_error (e : ε) : (throw e : Except ε α) = .error e := rfl

@[simp] theorem map_ok (a : α) (f : α → β) : (f <$> (Except.ok a : Except ε α)) = .ok (f a) := rfl

@[simp] theorem map_error (e : ε) (f : α → β) :
    (f <$> (Except.error e : Except ε α)) = .error e := rfl

@[simp] theorem mapError_ok (a : α) (f : ε → ε') :
    (Except.ok a : Except ε α).mapError f = .ok a := rfl

@[simp] theorem mapError_error (e : ε) (f : ε → ε') :
    (Except.error e : Except ε α).mapError f = .error (f e) := rfl

theorem mapError_bind (x : Except ε α) (f : α → Except ε β) (g : ε → ε') :
    (x >>= f).mapError g = x.mapError g >>= fun a => (f a).mapError g := by
  cases x <;> rfl

theorem bind_eq_ok {x : Except ε α} {f : α → Except ε β} {b : β} :
    (x >>= f) = .ok b ↔ ∃ a, x = .ok a ∧ f a = .ok b := by
  cases x with
  | error e => simp
  | ok a => simp

theorem map_eq_ok {x : Except ε α} {f : α → β} {b : β} :
    f <$> x = .ok b ↔ ∃ a, x = .ok a ∧ f a = b := by
  cases x with
  | error e => simp
  | ok a => simp

theorem map_eq_error {x : Except ε α} {f : α → β} {e : ε} :
    f <$> x = .error e ↔ x = .error e := by
  cases x with
  | error e' => simp
  | ok a => simp

/-- Two computations that give one value by way of others fail alike or both succeed. -/
theorem map_eq_map {x : Except ε α} {y : Except ε β} {f : α → γ} {g : β → γ}
    (h : f <$> x = g <$> y) :
    (∃ e, x = .error e ∧ y = .error e) ∨ ∃ a b, x = .ok a ∧ y = .ok b ∧ f a = g b := by
  cases x with
  | error e =>
      cases y with
      | error e' =>
          cases h
          exact .inl ⟨e, rfl, rfl⟩
      | ok b => cases h
  | ok a =>
      cases y with
      | error e => cases h
      | ok b => exact .inr ⟨a, b, rfl, rfl, Except.ok.inj h⟩

theorem bind_eq_error {x : Except ε α} {f : α → Except ε β} {e : ε} :
    (x >>= f) = .error e ↔ x = .error e ∨ ∃ a, x = .ok a ∧ f a = .error e := by
  cases x with
  | error e' => simp
  | ok a => simp

theorem mapError_eq_ok {x : Except ε α} {f : ε → ε'} {a : α} :
    x.mapError f = .ok a ↔ x = .ok a := by
  cases x with
  | error e => simp
  | ok a => simp

theorem mapError_eq_error {x : Except ε α} {f : ε → ε'} {e' : ε'} :
    x.mapError f = .error e' ↔ ∃ e, x = .error e ∧ f e = e' := by
  cases x with
  | error e => simp
  | ok a => simp

theorem mapError_mapM (f : α → Except ε β) (g : ε → ε') (l : List α) :
    (l.mapM f).mapError g = l.mapM fun a => (f a).mapError g := by
  induction l with
  | nil => rfl
  | cons a l ih =>
      rw [List.mapM_cons, List.mapM_cons, mapError_bind, ← ih]
      simp only [mapError_bind]
      rfl

/-- A list of checks succeeds when each does. -/
theorem forM_eq_ok {f : α → Except ε Unit} {l : List α} :
    l.forM f = .ok () ↔ ∀ a ∈ l, f a = .ok () := by
  induction l with
  | nil => simp
  | cons a l ih =>
      change (f a >>= fun _ => l.forM f) = .ok () ↔ _
      rw [bind_eq_ok, List.forall_mem_cons, ← ih]
      exact ⟨fun ⟨_, h⟩ => h, fun h => ⟨(), h⟩⟩

/-- A list of computations fails as the first that does, behind others that succeed. -/
theorem mapM_eq_error_iff {f : α → Except ε β} {l : List α} {e : ε} :
    l.mapM f = .error e ↔ ∃ before a after, l = before ++ a :: after ∧
      (∀ b ∈ before, ∃ c, f b = .ok c) ∧ f a = .error e := by
  induction l with
  | nil => simp
  | cons a l ih =>
      rw [List.mapM_cons, bind_eq_error]
      constructor
      · rintro (ha | ⟨b, hb, h⟩)
        · exact ⟨[], a, l, rfl, List.forall_mem_nil _, ha⟩
        · rcases bind_eq_error.1 h with hl | ⟨bs, -, h⟩
          · obtain ⟨before, c, after, rfl, hbefore, hc⟩ := ih.1 hl
            exact ⟨a :: before, c, after, rfl, List.forall_mem_cons.2 ⟨⟨b, hb⟩, hbefore⟩, hc⟩
          · cases h
      · rintro ⟨before, c, after, hl, hbefore, hc⟩
        cases before with
        | nil =>
            cases hl
            exact .inl hc
        | cons b before =>
            cases hl
            obtain ⟨⟨v, hv⟩, hbefore⟩ := List.forall_mem_cons.1 hbefore
            exact .inr ⟨v, hv, bind_eq_error.2 (.inl (ih.2 ⟨before, c, after, rfl, hbefore, hc⟩))⟩

theorem exists_of_mapM_eq_error {f : α → Except ε β} {l : List α} {e : ε}
    (h : l.mapM f = .error e) : ∃ a ∈ l, f a = .error e := by
  obtain ⟨before, a, after, rfl, -, ha⟩ := mapM_eq_error_iff.1 h
  exact ⟨a, List.mem_append_right _ List.mem_cons_self, ha⟩

/-- A list of checks is a list of computations whose values do not count. -/
theorem forM_eq_map (f : α → Except ε Unit) (l : List α) :
    l.forM f = (fun _ => ()) <$> l.mapM f := by
  induction l with
  | nil => rfl
  | cons a l ih =>
      rw [List.mapM_cons]
      change (f a >>= fun _ => l.forM f) = _
      rw [ih]
      cases f a with
      | error e => rfl
      | ok u => cases l.mapM f <;> rfl

/-- A list of checks fails as the first that does. -/
theorem forM_eq_error_iff {f : α → Except ε Unit} {l : List α} {e : ε} :
    l.forM f = .error e ↔ ∃ before a after, l = before ++ a :: after ∧
      (∀ b ∈ before, f b = .ok ()) ∧ f a = .error e := by
  have hok (b : α) : (∃ u, f b = .ok u) ↔ f b = .ok () :=
    ⟨fun ⟨_, h⟩ => h, fun h => ⟨(), h⟩⟩
  rw [forM_eq_map, map_eq_error, mapM_eq_error_iff]
  simp only [hok]

theorem exists_of_forM_eq_error {f : α → Except ε Unit} {l : List α} {e : ε}
    (h : l.forM f = .error e) : ∃ a ∈ l, f a = .error e := by
  obtain ⟨before, a, after, rfl, -, ha⟩ := forM_eq_error_iff.1 h
  exact ⟨a, List.mem_append_right _ List.mem_cons_self, ha⟩

/-- A list of computations succeeds when each does, with all their values in order. -/
theorem mapM_eq_ok_iff {f : α → Except ε β} {l : List α} {bs : List β} :
    l.mapM f = .ok bs ↔ List.Forall₂ (fun a b => f a = .ok b) l bs := by
  induction l generalizing bs with
  | nil =>
      rw [List.mapM_nil, List.forall₂_nil_left_iff, pure_eq_ok, Except.ok.injEq]
      exact eq_comm
  | cons a l ih =>
      simp only [List.mapM_cons, bind_eq_ok, pure_eq_ok, Except.ok.injEq, ih]
      constructor
      · rintro ⟨b, hb, bs, hbs, rfl⟩
        exact .cons hb hbs
      · rintro (_ | ⟨hb, hbs⟩)
        exact ⟨_, hb, _, hbs, rfl⟩

theorem exists_of_mapM_eq_ok {f : α → Except ε β} {l : List α} {bs : List β}
    (h : l.mapM f = .ok bs) {b : β} (hb : b ∈ bs) : ∃ a ∈ l, f a = .ok b := by
  induction mapM_eq_ok_iff.1 h with
  | nil => exact absurd hb List.not_mem_nil
  | @cons a c l bs ha hl ih =>
      rcases List.mem_cons.1 hb with rfl | hb
      · exact ⟨a, List.mem_cons_self, ha⟩
      · obtain ⟨d, hd, he⟩ := ih (mapM_eq_ok_iff.2 hl) hb
        exact ⟨d, List.mem_cons_of_mem a hd, he⟩

theorem mapM_eq_ok_map {f : α → Except ε β} {g : α → β} {l : List α}
    (h : ∀ a ∈ l, f a = .ok (g a)) : l.mapM f = .ok (l.map g) :=
  mapM_eq_ok_iff.2 (List.forall₂_map_right_iff.2 (List.forall₂_same.2 h))

theorem mapM_eq_ok_iff_map {f : α → Except ε β} {P : α → Prop} {g : α → β}
    (h : ∀ a b, f a = .ok b ↔ P a ∧ b = g a) {l : List α} {bs : List β} :
    l.mapM f = .ok bs ↔ (∀ a ∈ l, P a) ∧ bs = l.map g := by
  rw [mapM_eq_ok_iff]
  constructor
  · intro hl
    induction hl with
    | nil => exact ⟨List.forall_mem_nil _, rfl⟩
    | cons ha _ ih =>
        obtain ⟨hp, rfl⟩ := (h _ _).1 ha
        obtain ⟨hps, rfl⟩ := ih
        exact ⟨List.forall_mem_cons.2 ⟨hp, hps⟩, rfl⟩
  · rintro ⟨hp, rfl⟩
    rw [List.forall₂_map_right_iff, List.forall₂_same]
    intro a ha
    exact (h a _).2 ⟨hp a ha, rfl⟩

/-- A computation fails with the first of some faults, and succeeds if there are none. -/
def FailsFirst (x : Except ε α) (faults : List ε) : Prop :=
  ∀ e, x = .error e ↔ faults.head? = some e

theorem FailsFirst.eq_nil_iff {x : Except ε α} {faults : List ε} (h : FailsFirst x faults) :
    (∃ a, x = .ok a) ↔ faults = [] := by
  cases x with
  | error e =>
      have hhead := (h e).1 rfl
      simp only [reduceCtorEq, exists_false, false_iff]
      rintro rfl
      cases hhead
  | ok a =>
      refine ⟨fun _ => List.head?_eq_none_iff.1 (Option.eq_none_iff_forall_not_mem.2 ?_),
        fun _ => ⟨a, rfl⟩⟩
      intro e he
      cases (h e).2 he

theorem failsFirst_pure (a : α) : FailsFirst (pure a : Except ε α) [] := by simp [FailsFirst]

/-- Behind a link that succeeds the faults of the next one count. -/
theorem FailsFirst.bind {x : Except ε α} {f : α → Except ε β} {faults faults' : List ε}
    (hx : FailsFirst x faults) (hf : ∀ a, FailsFirst (f a) faults') :
    FailsFirst (x >>= f) (faults ++ faults') := by
  intro e
  rw [List.head?_append, Option.or_eq_some_iff]
  cases x with
  | error e' =>
      have hhead : faults.head? = some e' := (hx e').1 rfl
      simp [hhead]
  | ok a =>
      have hnil := hx.eq_nil_iff.1 ⟨a, rfl⟩
      rw [ok_bind, hf a e, hnil]
      simp

theorem failsFirst_mapM {f : α → Except ε β} {faults : α → List ε}
    (h : ∀ a, FailsFirst (f a) (faults a)) (l : List α) :
    FailsFirst (l.mapM f) (l.flatMap faults) := by
  induction l with
  | nil => exact failsFirst_pure []
  | cons a l ih =>
      rw [List.mapM_cons, List.flatMap_cons]
      refine (h a).bind fun b => ?_
      rw [← List.append_nil (l.flatMap faults)]
      exact ih.bind fun bs => failsFirst_pure _

theorem mapM_congr_forall₂ {f : α → Except ε β} {l l' : List α}
    (h : List.Forall₂ (fun a b => f a = f b) l l') : l.mapM f = l'.mapM f := by
  induction h with
  | nil => rfl
  | cons ha _ ih => rw [List.mapM_cons, List.mapM_cons, ha, ih]

/-- Two computations fail alike, or succeed with values of which one follows the other. -/
inductive Follows (R : α → β → Prop) : Except ε α → Except ε β → Prop
  | error (e : ε) : Follows R (.error e) (.error e)
  | ok {a b} : R a b → Follows R (.ok a) (.ok b)

section Following

variable {R : α → β → Prop} {x : Except ε α} {y : Except ε β}

theorem Follows.bind {α' β' : Type} {S : α' → β' → Prop} {f : α → Except ε α'}
    {g : β → Except ε β'} (h : Follows R x y) (hfg : ∀ a b, R a b → Follows S (f a) (g b)) :
    Follows S (x >>= f) (y >>= g) := by
  cases h with
  | error e => exact .error e
  | ok h => exact hfg _ _ h

theorem Follows.of_ok {b : β} (h : Follows R x (.ok b)) : ∃ a, x = .ok a ∧ R a b := by
  cases h with
  | ok h => exact ⟨_, rfl, h⟩

theorem Follows.of_error {e : ε} (h : Follows R x (.error e)) : x = .error e := by
  cases h with
  | error e => rfl

theorem Follows.exists_ok_iff (h : Follows R x y) : (∃ b, y = .ok b) ↔ ∃ a, x = .ok a := by
  cases h with
  | error e => simp
  | ok h => simp

theorem Follows.map_eq {f : α → γ} {g : β → γ} (h : Follows R x y)
    (hfg : ∀ a b, R a b → f a = g b) : f <$> x = g <$> y := by
  cases h with
  | error e => rfl
  | ok h => rw [map_ok, map_ok, hfg _ _ h]

end Following

end DocumentSink
