import DocumentSink.Plan.Pool
import DocumentSink.Proofs.Heap
import DocumentSink.Proofs.History
import Mathlib.Data.List.InsertIdx

/-!
Workers do not see each other. A call moves walks of its own plan, and an edit changes objects of the
definition or which ones it refers to; where no worker refers to an object of the definition or to a
walk of another, each goes its way as if it were alone, in whatever order the calls come.
-/

namespace DocumentSink

namespace PoolCall

/-- The call, if it is one on the plan of a worker. -/
def on? (k : Nat) : PoolCall → Option PlanCall
  | .plan worker c => if worker = k then some c else none
  | _ => none

/-- The calls of one worker, in order. -/
def callsOn (k : Nat) (calls : List PoolCall) : List PlanCall := calls.filterMap (·.on? k)

/-- The answers to the calls of one worker, in order. -/
def answersTo (k : Nat) (calls : List PoolCall) (answers : List (Option PlanAnswer)) :
    List PlanAnswer :=
  (calls.zip answers).filterMap fun (c, a) => (c.on? k).bind fun _ => a

/-- The definition behind a call, if it is an edit. -/
def edit (d : Definition) : PoolCall → Definition
  | .plan _ _ => d
  | .assignMapping n name v => d.assignMapping n name v
  | .addMapping m => d.addMapping m
  | .removeMapping n => d.removeMapping n
  | .assignWrite name v => d.assignWrite name v

variable {k : Nat} {c : PoolCall} {calls : List PoolCall}

theorem on?_eq_some {c' : PlanCall} : c.on? k = some c' ↔ c = .plan k c' := by
  cases c with
  | plan worker c =>
      rw [on?, Option.ite_none_right_eq_some, Option.some.injEq, plan.injEq]
  | _ => exact ⟨nofun, nofun⟩

theorem callsOn_cons_none (h : c.on? k = none) : callsOn k (c :: calls) = callsOn k calls :=
  List.filterMap_cons_none h

theorem callsOn_cons_some {c' : PlanCall} (h : c.on? k = some c') :
    callsOn k (c :: calls) = c' :: callsOn k calls :=
  List.filterMap_cons_some h

theorem answersTo_cons_none (h : c.on? k = none) (a : Option PlanAnswer)
    (as : List (Option PlanAnswer)) : answersTo k (c :: calls) (a :: as) = answersTo k calls as := by
  refine List.filterMap_cons_none ?_
  simp only [h, Option.bind_none]

theorem answersTo_cons_some {c' : PlanCall} (h : c.on? k = some c') (a : PlanAnswer)
    (as : List (Option PlanAnswer)) :
    answersTo k (c :: calls) (some a :: as) = a :: answersTo k calls as := by
  refine List.filterMap_cons_some ?_
  simp only [h, Option.bind_some]

end PoolCall

namespace Pool

open PoolCall

/-- No worker refers to an object of the definition or to a walk of another, and all that is
referred to is there. -/
structure Apart (p : Pool) : Prop where
  source : p.heap.Holds p.source
  distinct : p.source.mappings.Nodup
  write : ∀ r ∈ p.workers, r.write ≠ p.source.write
  mappings : ∀ r ∈ p.workers, r.mappings.Disjoint p.source.mappings
  held : ∀ r ∈ p.workers, ∀ m ∈ r.mappings, m < p.heap.mappings.length
  walks : p.workers.Pairwise fun r s => r.walks.Disjoint s.walks
  nodup : ∀ r ∈ p.workers, r.walks.Nodup
  bound : ∀ r ∈ p.workers, ∀ n ∈ r.walks, n < p.heap.walks.length

variable {p : Pool} {k : Nat} {ref : PlanRef}

/-- No call and no edit changes who the workers are, or which options the definition refers to. -/
theorem refs_call (p : Pool) (c : PoolCall) :
    (p.call c).1.workers = p.workers ∧ (p.call c).1.source.write = p.source.write := by
  cases c with
  | plan worker c =>
      rw [call, callPlan]
      split
      · exact ⟨rfl, rfl⟩
      · exact ⟨rfl, rfl⟩
  | assignMapping n name v =>
      rw [call, assignMapping]
      split
      · exact ⟨rfl, rfl⟩
      · exact ⟨rfl, rfl⟩
  | _ => exact ⟨rfl, rfl⟩

theorem refs_run (p : Pool) (calls : List PoolCall) :
    (p.run calls).1.workers = p.workers ∧ (p.run calls).1.source.write = p.source.write := by
  induction calls generalizing p with
  | nil => exact ⟨rfl, rfl⟩
  | cons c calls ih =>
      obtain ⟨hworkers, hwrite⟩ := refs_call p c
      obtain ⟨hworkers', hwrite'⟩ := ih (p.call c).1
      exact ⟨hworkers'.trans hworkers, hwrite'.trans hwrite⟩

/-- Objects that change where they are keep the workers apart. -/
theorem Apart.of_sizes (hp : p.Apart) {h : Heap} (hh : h.sizes = p.heap.sizes) :
    Apart { p with heap := h } := by
  have hmappings : h.mappings.length = p.heap.mappings.length := congrArg (·.2.1) hh
  have hwalks : h.walks.length = p.heap.walks.length := congrArg (·.2.2) hh
  refine ⟨hp.source.of_sizes hh, hp.distinct, hp.write, hp.mappings, ?_, hp.walks, hp.nodup, ?_⟩
  · rw [hmappings]
    exact hp.held
  · rw [hwalks]
    exact hp.bound

/-- A mapping that is added is no worker's, since it is new. -/
theorem Apart.addMapping (hp : p.Apart) (m : FieldMapping) : (p.addMapping m).Apart := by
  have hlength : (p.addMapping m).heap.mappings.length = p.heap.mappings.length + 1 :=
    List.length_append
  refine ⟨Heap.holds_addMapping hp.source m, ?_, hp.write, ?_, ?_, hp.walks, hp.nodup, hp.bound⟩
  · refine List.nodup_append.2 ⟨hp.distinct, List.pairwise_singleton _ _, ?_⟩
    intro n hn n' hn'
    rw [List.mem_singleton.1 hn']
    exact Nat.ne_of_lt (hp.source.mappings n hn)
  · intro r hr n hn hsource
    rcases List.mem_append.1 hsource with hsource | hnew
    · exact hp.mappings r hr hn hsource
    · rw [List.mem_singleton.1 hnew] at hn
      exact Nat.lt_irrefl _ (hp.held r hr _ hn)
  · intro r hr n hn
    rw [hlength]
    exact Nat.lt_succ_of_lt (hp.held r hr n hn)

theorem Apart.removeMapping (hp : p.Apart) (n : Nat) : (p.removeMapping n).Apart := by
  have hsub : (p.removeMapping n).source.mappings.Sublist p.source.mappings :=
    List.eraseIdx_sublist _ _
  refine ⟨⟨hp.source.write, ?_⟩, hp.distinct.sublist hsub, hp.write, ?_, hp.held, hp.walks,
    hp.nodup, hp.bound⟩
  · intro m hm
    exact hp.source.mappings m (hsub.subset hm)
  · intro r hr m hm hsource
    exact hp.mappings r hr hm (hsub.subset hsource)

theorem Apart.call (hp : p.Apart) (c : PoolCall) : (p.call c).1.Apart := by
  cases c with
  | plan worker c =>
      rw [Pool.call, callPlan]
      split
      · exact hp
      · exact hp.of_sizes (Heap.sizes_setWalks _ _)
  | assignMapping n name v =>
      rw [Pool.call, assignMapping]
      split
      · exact hp
      · exact hp.of_sizes (Heap.sizes_assignMapping _ _ name v)
  | addMapping m => exact hp.addMapping m
  | removeMapping n => exact hp.removeMapping n
  | assignWrite name v => exact hp.of_sizes (Heap.sizes_assignWrite _ _ name v)

theorem Apart.disjoint (hp : p.Apart) {j : Nat} {other : PlanRef} (hne : j ≠ k)
    (hj : p.workers[j]? = some other) (hk : p.workers[k]? = some ref) :
    ref.walks.Disjoint other.walks := by
  obtain ⟨hjlt, rfl⟩ := List.getElem?_eq_some_iff.1 hj
  obtain ⟨hklt, rfl⟩ := List.getElem?_eq_some_iff.1 hk
  rcases Nat.lt_or_gt_of_ne hne with hlt | hlt
  · exact List.disjoint_symm (List.pairwise_iff_getElem.1 hp.walks j k hjlt hklt hlt)
  · exact List.pairwise_iff_getElem.1 hp.walks k j hklt hjlt hlt

/-- A call on the plan of a worker goes as it would alone. -/
theorem call_plan_self (hp : p.Apart) (hk : p.workers[k]? = some ref) (c : PlanCall) :
    (p.call (.plan k c)).1.heap.plan ref = ((p.heap.plan ref).call c).1 ∧
      (p.call (.plan k c)).2 = some ((p.heap.plan ref).call c).2 := by
  have hmem := List.mem_of_getElem? hk
  rw [call, callPlan, hk]
  exact ⟨Heap.plan_moveTo (Plan.startRow_call _ c) (hp.nodup ref hmem) (hp.bound ref hmem), rfl⟩

/-- Every other call, and every edit, leaves the plan of a worker alone. -/
theorem plan_call_of_other (hp : p.Apart) (hk : p.workers[k]? = some ref) {c : PoolCall}
    (hc : c.on? k = none) : (p.call c).1.heap.plan ref = p.heap.plan ref := by
  have hmem := List.mem_of_getElem? hk
  cases c with
  | plan worker c =>
      have hne : worker ≠ k := by
        rintro rfl
        rw [on?, if_pos rfl] at hc
        cases hc
      rw [call, callPlan]
      split
      · rfl
      · next other hother =>
          exact Heap.plan_moveTo_of_disjoint (hp.disjoint hne hother hk) _
  | assignMapping n name v =>
      rw [call, assignMapping]
      split
      · rfl
      · next m hm =>
          refine Heap.plan_congr rfl ?_ fun _ _ => rfl
          intro m' hm'
          have hne : m ≠ m' := by
            rintro rfl
            exact hp.mappings ref hmem hm' (List.mem_of_getElem? hm)
          exact Heap.mapping_assignMapping_of_ne hne name v
  | addMapping m =>
      refine Heap.plan_congr rfl ?_ fun _ _ => rfl
      intro n hn
      exact Heap.mapping_addMapping_of_lt p.source (hp.held ref hmem n hn) m
  | removeMapping n => rfl
  | assignWrite name v =>
      have hwrite := Heap.write_assignWrite_of_ne (h := p.heap) (hp.write ref hmem).symm name v
      exact Heap.plan_congr hwrite (fun _ _ => rfl) fun _ _ => rfl

/-- In any run, a worker is where its own calls alone have brought its plan, and has their answers.
-/
theorem run_of_apart (hp : p.Apart) (hk : p.workers[k]? = some ref) (calls : List PoolCall) :
    (p.run calls).1.heap.plan ref = ((p.heap.plan ref).run (callsOn k calls)).1 ∧
      answersTo k calls (p.run calls).2 = ((p.heap.plan ref).run (callsOn k calls)).2 := by
  induction calls generalizing p with
  | nil => exact ⟨rfl, rfl⟩
  | cons c calls ih =>
      have hk' : (p.call c).1.workers[k]? = some ref := by rw [(refs_call p c).1, hk]
      obtain ⟨hplan, hanswers⟩ := ih (hp.call c) hk'
      cases hc : c.on? k with
      | none =>
          rw [plan_call_of_other hp hk hc] at hplan hanswers
          rw [callsOn_cons_none hc]
          exact ⟨hplan, (answersTo_cons_none hc _ _).trans hanswers⟩
      | some c' =>
          obtain ⟨hmoved, hanswer⟩ := call_plan_self hp hk c'
          rw [← on?_eq_some.1 hc] at hmoved hanswer
          rw [hmoved] at hplan hanswers
          have hrun : (p.run (c :: calls)).2 = (p.call c).2 :: ((p.call c).1.run calls).2 := rfl
          rw [callsOn_cons_some hc, hrun, hanswer, answersTo_cons_some hc]
          exact ⟨hplan, congrArg _ hanswers⟩

/-- The workers of a new pool are apart, and each has the plan of the definition. -/
theorem apart_ofWorkers {d : Definition} {n : Nat} {vars : Variables}
    (h : ofWorkers d n vars = .ok p) :
    p.Apart ∧ p.workers.length = n ∧
      (∀ r ∈ p.workers, d.compile vars = .ok (p.heap.plan r)) ∧ p.definition = d := by
  obtain ⟨⟨heap, refs⟩, hworkers, hp⟩ := bind_eq_ok.1 h
  cases hp
  have hholds := Heap.holds_allocate {} d
  obtain ⟨hextends, hlength, hrefs, hwalks⟩ := Heap.workerPlans_spec hholds hworkers
  rw [Heap.definition_allocate] at hrefs
  refine ⟨⟨hextends.holds hholds, Heap.nodup_mappings_allocate _ _, ?_, ?_, ?_, hwalks, ?_, ?_⟩,
    hlength, fun r hr => (hrefs r hr).2, ?_⟩
  · intro r hr
    exact Nat.ne_of_gt (Nat.lt_of_lt_of_le hholds.write (hrefs r hr).1.write.1)
  · intro r hr m hm hsource
    exact Nat.not_lt_of_le ((hrefs r hr).1.mappings m hm).1 (hholds.mappings m hsource)
  · intro r hr m hm
    exact ((hrefs r hr).1.mappings m hm).2
  · intro r hr
    exact (hrefs r hr).1.nodup
  · intro r hr n hn
    exact ((hrefs r hr).1.walks n hn).2
  · exact (hextends.definition hholds).trans (Heap.definition_allocate {} d)

/-- Calls on plans leave the definition alone, and an edit does to it what it says. -/
theorem definition_call (hp : p.Apart) (c : PoolCall) :
    (p.call c).1.definition = c.edit p.definition := by
  cases c with
  | plan worker c =>
      rw [call, callPlan]
      split
      · rfl
      · rfl
  | assignMapping n name v =>
      rw [call, assignMapping]
      split
      · next hn =>
          have hlength : (p.source.mappings.map p.heap.mapping).length ≤ n := by
            rw [List.length_map]
            exact List.getElem?_eq_none_iff.1 hn
          exact congrArg (Definition.mk _ · _) (List.modify_eq_self hlength).symm
      · next m hm => exact Heap.definition_assignMapping hp.source hp.distinct hm name v
  | addMapping m => exact Heap.definition_addMapping hp.source m
  | removeMapping n => exact congrArg (Definition.mk _ · _) (List.eraseIdx_map _ _ _).symm
  | assignWrite name v => exact Heap.definition_assignWrite hp.source name v

theorem definition_run (hp : p.Apart) (calls : List PoolCall) :
    (p.run calls).1.definition = calls.foldl edit p.definition := by
  induction calls generalizing p with
  | nil => rfl
  | cons c calls ih =>
      rw [List.foldl_cons, ← definition_call hp c]
      exact ih (hp.call c)

/-- The plan of a single writer has the options of the definition itself, and the mappings that the
definition had at first, as calls and edits have left them. -/
theorem run_single {d : Definition} {vars : Variables} (h : single d vars = .ok p)
    (calls : List PoolCall) :
    ∃ plan, (p.run calls).1.plans = [plan] ∧
      plan.write = (p.run calls).1.definition.write ∧
      plan.mappings = p.source.mappings.map (p.run calls).1.heap.mapping := by
  have hshared : ∃ worker, p.workers = [worker] ∧ worker.write = p.source.write ∧
      worker.mappings = p.source.mappings := by
    obtain ⟨⟨heap, worker⟩, hc, hp⟩ := bind_eq_ok.1 h
    have hcompiled := Heap.isCompiled_of_compile hc
    cases hp
    exact ⟨worker, rfl, hcompiled.write, hcompiled.sameMappings⟩
  obtain ⟨worker, hworkers, hwrite, hmappings⟩ := hshared
  obtain ⟨hworkers', hwrite'⟩ := refs_run p calls
  refine ⟨(p.run calls).1.heap.plan worker, ?_, ?_, ?_⟩
  · rw [plans, hworkers', hworkers, List.map_singleton]
  · rw [definition, Heap.definition, hwrite', Heap.plan, hwrite]
  · rw [Heap.mappings_plan, hmappings]

/-- Whatever calls on the plans of some workers come in between, and whatever edits of the
definition, a worker answers its own calls as it would alone, on a plan of the definition as it was,
and its plan ends up where it would alone. The definition has the edits and nothing else. -/
theorem run_ofWorkers {d : Definition} {workers : Nat} {vars : Variables} {pool : Pool}
    (h : ofWorkers d workers vars = .ok pool) (calls : List PoolCall) :
    (pool.run calls).1.definition = calls.foldl edit d ∧
      ∀ k < workers, ∃ plan, d.compile vars = .ok plan ∧
        answersTo k calls (pool.run calls).2 = (plan.run (callsOn k calls)).2 ∧
        (pool.run calls).1.plans[k]? = some (plan.run (callsOn k calls)).1 := by
  obtain ⟨hapart, hlength, hplans, hdefinition⟩ := apart_ofWorkers h
  refine ⟨?_, ?_⟩
  · rw [definition_run hapart, hdefinition]
  · intro k hk
    rw [← hlength] at hk
    have href : pool.workers[k]? = some pool.workers[k] := List.getElem?_eq_getElem hk
    obtain ⟨hplan, hanswers⟩ := run_of_apart hapart href calls
    refine ⟨_, hplans _ (List.getElem_mem hk), hanswers, ?_⟩
    rw [plans, List.getElem?_map, (refs_run pool calls).1, href, Option.map_some, hplan]

/-- The second path goes through the first. -/
def blocking : Definition where
  mappings := [{ incomingName := "a", documentPath := "x" },
    { incomingName := "b", documentPath := "x.y.z" }]

/-- A row stops halfway for one worker, the other walks the same path, and between their calls the
mappings and the mode are edited. -/
theorem run_ofWorkers_blocking :
    let row : Row := [("a", .int 1), ("b", .int 2)]
    let doc := Value.object [("x", .object [("y", .object [("z", .int 2)])])]
    let calls := [PoolCall.plan 0 (.insertDocument row), .plan 1 (.field 1 .start),
      .assignMapping 1 "incoming_name" (.text "c"), .plan 1 (.field 1 .advance),
      .addMapping { incomingName := "d", documentPath := "x" }, .removeMapping 0,
      .plan 0 (.field 1 .remaining), .assignWrite "modifier_update" (.bool true),
      .plan 1 (.field 1 .remaining), .plan 1 (.insertDocument [("b", .int 2)])]
    ∃ pool, ofWorkers blocking 2 [] = .ok pool ∧
      (pool.run calls).1.definition =
        { blocking with
          write := { modifierUpdate := true }
          mappings := [{ incomingName := "c", documentPath := "x.y.z" },
            { incomingName := "d", documentPath := "x" }] } ∧
      answersTo 0 calls (pool.run calls).2 =
        [.document (.error (.blocked "b" "x.y.z" "x")) row, .segments (.ok ["y", "z"])] ∧
      answersTo 1 calls (pool.run calls).2 =
        [.done, .segment (.ok (some "x")), .segments (.ok ["y", "z"]),
          .document (.ok doc) [("b", .int 2)]] := by
  intro row doc calls
  have hfields : blocking.mappings.map (FieldPlan.ofMapping []) = [
      ⟨⟨"x", ["x"], none⟩, { incomingName := "a", documentPath := "x" }⟩,
      ⟨⟨"x.y.z", ["x", "y", "z"], none⟩, { incomingName := "b", documentPath := "x.y.z" }⟩] := by
    decide +kernel
  have hcompile : blocking.compile [] = .ok
      ⟨{}, false, blocking.mappings.map (FieldPlan.ofMapping []), [], []⟩ := rfl
  rw [hfields] at hcompile
  have hmade : ∃ pool, ofWorkers blocking 2 [] = .ok pool := ⟨_, rfl⟩
  obtain ⟨pool, hpool⟩ := hmade
  obtain ⟨hdefinition, hworkers⟩ := run_ofWorkers hpool calls
  obtain ⟨plan, hplan, hfirst, -⟩ := hworkers 0 (by decide)
  obtain ⟨plan', hplan', hsecond, -⟩ := hworkers 1 (by decide)
  rw [hcompile] at hplan hplan'
  cases hplan
  cases hplan'
  exact ⟨pool, hpool, hdefinition.trans rfl, hfirst.trans rfl, hsecond.trans rfl⟩

end Pool

end DocumentSink
