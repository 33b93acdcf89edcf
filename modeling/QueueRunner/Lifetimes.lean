import QueueRunner.Making

/-!
# What the tasks hold is alive

A step info holds its step, and the dispatch loop holds the steps that it
has collected.  A step that is held is not freed, so in every reachable
state the steps of the live step infos are alive.  A call of
`succeed_step` therefore works on a live step up to its end.
-/

namespace QueueRunner

/-- The steps that the step infos and the collection hold are alive. -/
structure Lifetimes (r : Runner) : Prop where
  live : ∀ i, r.live i = true → (r.shared.graph.step i.step).alive = true
  todo : ∀ s ∈ r.dispatcher.todo, (r.shared.graph.step s).alive = true
  collected : ∀ system jobs, r.dispatcher.collected.lookup system = some jobs →
    ∀ j ∈ jobs, (r.shared.graph.step j.1).alive = true

/-- A queued info was queued before, or it is new and belongs to a
collected step. -/
theorem DispatchStep.jobs_cases {s s' : Shared} {held : InfoRef → Bool} {d d' : DispatchPc}
    (hs : DispatchStep s held d s' d') {drv : StorePath} {i : InfoRef}
    (hi : s'.queues.jobs.lookup drv = some i) : s.queues.jobs.lookup drv = some i ∨
      s.queues.fresh ≤ i.gen ∧
        ∃ system jobs info, d.collected.lookup system = some jobs ∧ (i.step, info) ∈ jobs := by
  cases hs with
  | other hm hn hwalk hc ht => exact Or.inl (hm.jobs ▸ hi)
  | insert now queues system jobs cmp hjobs =>
    have hsub := InnerQueues.submitted_submitJobs s.queues
      (fun r => (s.graph.step r).finished) jobs
    rw [InnerQueues.insertNewJobs_jobs, hsub.lookup] at hi
    refine hi.imp id fun hnew => ?_
    obtain ⟨-, info, hmem, -⟩ := hsub.origin i hnew.1
    exact ⟨(hsub.gen i hnew.1).1, system, jobs, info, hjobs, hmem⟩
  | skip hjobs hm => exact Or.inl (hm.jobs ▸ hi)
  | cancel hjobs hlive hflag hfin hdep hm => exact Or.inl (hm.jobs ▸ hi)
  | pick m job ans hjobs hlive hflag hfin hdep hmachine huuid hpath hm hnext =>
    exact Or.inl (hm.jobs ▸ hi)
  | advance hm hlate hlate' htarget => exact Or.inl (hm.jobs ▸ hi)
  | abandon hm hlate => exact Or.inl (hm.jobs ▸ hi)
  | schedule w j m job =>
    rw [InnerQueues.addJobToScheduled_jobs] at hi
    exact Or.inl hi
  | remove w j =>
    rw [InnerQueues.removeJob_jobs, Map.lookup_erase_eq] at hi
    split_ifs at hi
    exact Or.inl hi
  | removeByPath drv' hn hwalk hc ht =>
    rw [InnerQueues.removeJobByPath, Map.lookup_erase_eq] at hi
    split_ifs at hi
    exact Or.inl hi
  | _ => exact Or.inl hi

/-- The info that the loop holds was live. -/
theorem DispatchStep.live_of_info {r : Runner} {s' : Shared} {d' : DispatchPc}
    (hs : DispatchStep r.shared r.held r.dispatcher s' d') {i : InfoRef}
    (hi : d'.info = some i) : r.live i = true := by
  have hinfo : r.dispatcher.info = some i → r.live i = true := by
    intro hd
    rw [Runner.live_iff, Runner.held_iff]
    exact Or.inl (Or.inl hd)
  generalize hr : r.dispatcher = d at hs hinfo
  cases hs with
  | other hm hn hwalk hc ht | scrub hn hwalk hc ht | removeByPath drv hn hwalk hc ht =>
    rw [DispatchPc.info_eq_none_of_walk? hwalk] at hi
    cases hi
  | cancel hjobs hlive hflag hfin hdep hm =>
    cases hi
    exact hlive
  | pick m job ans hjobs hlive hflag hfin hdep hmachine huuid hpath hm hnext =>
    cases hi
    exact hlive
  | advance hm hlate hlate' htarget => exact hinfo hi
  | send w j m job hopen => exact hinfo hi
  | insertJob w j m job now => exact hinfo hi
  | _ => cases hi

/-- An info that is live after a step of the dispatch loop was live before,
or it is new and belongs to a collected step. -/
theorem DispatchStep.live_cases {r : Runner} {s' : Shared} {d' : DispatchPc}
    (hs : DispatchStep r.shared r.held r.dispatcher s' d') {i : InfoRef}
    (hi : ({ r with shared := s', dispatcher := d' } : Runner).live i = true) :
    r.live i = true ∨ r.shared.queues.fresh ≤ i.gen ∧ ∃ system jobs info,
      r.dispatcher.collected.lookup system = some jobs ∧ (i.step, info) ∈ jobs := by
  rw [Runner.live_iff, Runner.held_iff] at hi
  rcases hi with (hd | htask) | ⟨drv, hjob⟩ | ⟨drv, item, hitem, rfl⟩
  · exact Or.inl (hs.live_of_info hd)
  · exact Or.inl ((r.live_iff i).mpr (Or.inl ((r.held_iff i).mpr (Or.inr htask))))
  · exact (hs.jobs_cases hjob).imp (fun h => (r.live_iff i).mpr (Or.inr (Or.inl ⟨drv, h⟩))) id
  · refine Or.inl ?_
    rcases hs.item_cases hitem with hold | ⟨w, i, m, job, hd, -, rfl⟩
    · exact r.live_of_item hold
    · rw [Runner.live_iff, Runner.held_iff, hd]
      exact Or.inl (Or.inl rfl)

/-- Only the dispatch loop makes step infos. -/
theorem RunnerStep.live_cases {cfg : Config} {r r' : Runner} {a : Action} (hok : RunnerOk cfg r)
    (hs : RunnerStep cfg r a r') {i : InfoRef} (hi : r'.live i = true) :
    r.live i = true ∨ r.shared.queues.fresh ≤ i.gen ∧ ∃ system jobs info,
      r.dispatcher.collected.lookup system = some jobs ∧ (i.step, info) ∈ jobs := by
  -- a task starts without a step info
  have hspawn : ∀ (r₀ : Runner) {res : Shared × Option CallTask},
      (r₀.spawn res).live i = true → res.1.queues = r₀.shared.queues →
      (∀ u, res.2 = some u → u.infos = []) → r₀.live i = true := by
    intro r₀ res hi hqueues hinfos
    refine Shrinks.live_of_subset (fun j hj => ?_) (fun drv j hj => ?_) ?_ hi
    · rcases r₀.held_spawn hj with hj | ⟨u, hu, hj⟩
      · exact hj
      · rw [hinfos u hu] at hj
        cases hj
    · rwa [Runner.spawn_shared, hqueues] at hj
    · rw [Runner.spawn_shared, hqueues]
  cases hs with
  | dispatch hres => exact (dispatchStep_of_resume hres).live_cases hi
  | call ht hres =>
    exact Or.inl ((hok.pointers.shrinks_call ht (fun drv item hitem => hok.attempts.find_job hitem)
      (callStep_of_resume hres)).live i hi)
  | completeBuild uuid machineId state report =>
    obtain ⟨results, hres, hcases⟩ := completeBuild_spec r.shared uuid machineId state report
    refine Or.inl (hspawn r hi (by rw [hres]) fun u hu => ?_)
    rcases hcases with ⟨a, task, -, -, ht, hinfos, -⟩ | ⟨e, -, -, ht⟩
    · rw [ht, Option.some.injEq] at hu
      rw [← hu, hinfos]
    · rw [ht] at hu
      cases hu
  | @endStream m hm =>
    obtain ⟨machines, task, hres, ht, -, -, -, -, hinfos, -⟩ := endStream_spec r.shared m
    refine Or.inl (hspawn { r with tunnels := r.tunnels.erase m } hi (by rw [hres])
      fun u hu => ?_)
    rw [ht, Option.some.injEq] at hu
    rw [← hu, hinfos]
  | queueChange curIds =>
    refine Or.inl (hspawn r hi rfl ?_)
    rintro u ⟨⟩
    rfl
  | insertMachine uuid record sortFn =>
    obtain ⟨hjobs, hscheduled, -⟩ := r.shared.queues.ensureQueuesForSystems_frame record.systems
    have hlive : r.shared.queues.live r.held i = true :=
      InnerQueues.live_congr hjobs hscheduled r.held ▸ hi
    exact Or.inl hlive
  | create hnext => exact Or.inl hi
  | dropStep hheld => exact Or.inl hi
  | dropBuild hheld => exact Or.inl hi

theorem Graph.alive_of_modifyStep {g g' : Graph} {s t : StepRef} {f : Step → Step}
    (hg : g' = g.modifyStep t f) (hf : ∀ r, (f r).alive = r.alive)
    (hs : (g.step s).alive = true) : (g'.step s).alive = true := by
  rw [hg, modifyStep_step]
  split_ifs
  · rw [hf]
    exact hs
  · exact hs

/-- A step stays alive until it is freed. -/
theorem MakeStep.alive {c c' : CreateState} (h : MakeStep c c') {s : StepRef}
    (hs : (c.graph.step s).alive = true) : (c'.graph.step s).alive = true := by
  cases h with
  | settles hg hmaking hcollects =>
    rw [(hg.step s).alive]
    exact hs
  | release l now hl hg hmaking hcollects =>
    have hsame : Graph.SameBase c.graph c'.graph := by
      rw [hg]
      exact Graph.Keeps.foldl Step.SameBase.refl (fun _ _ _ => Step.SameBase.trans)
        (fun g t => Graph.sameBase_makeRunnable g t now) l c.graph
    rw [(hsame s).alive]
    exact hs
  | create hg hparent hmaking hcollects =>
    rw [hg.step]
    split_ifs with hts hnew
    · rfl
    · exact hts ▸ hs
    · exact hs
  | finish hk hg hmaking hcollects => exact Graph.alive_of_modifyStep hg (fun _ => rfl) hs
  | addDep hk hchild hdep hg hmaking hcollects =>
    exact Graph.alive_of_modifyStep (f := fun r => { r with deps := _, depsLen := _ }) hg
      (fun _ => rfl) hs
  | complete hk hg hmaking hcollects => exact Graph.alive_of_modifyStep hg (fun _ => rfl) hs

theorem StepsStep.alive {r r' : Runner} {a : Action} (h : StepsStep r a r') {s : StepRef}
    (hs : (r.shared.graph.step s).alive = true) :
    (r'.shared.graph.step s).alive = true ∨ r.stepHeld s = false := by
  cases h with
  | make hm => exact Or.inl (hm.alive hs)
  | succeed ha ht hitem hg hcreation =>
    exact Or.inl (Graph.alive_of_modifyStep hg (fun _ => rfl) hs)
  | fail tries after hitem hg hcreation =>
    exact Or.inl (Graph.alive_of_modifyStep hg (fun _ => rfl) hs)
  | @drop t hheld hg hcreation =>
    by_cases hst : s = t
    · exact Or.inr (hst ▸ hheld)
    · refine Or.inl ?_
      rw [hg, Graph.dropStep, Graph.modifyStep_step, if_neg hst]
      exact hs

namespace Lifetimes

variable {cfg : Config} {r r' : Runner}

theorem init : Lifetimes {} := by
  refine ⟨fun i hi => ?_, by simp [DispatchPc.todo], by simp [DispatchPc.collected]⟩
  simp [Runner.live_iff, Runner.held_iff, DispatchPc.info, Runner.item] at hi

/-- A live info holds its step. -/
theorem stepHeld_of_live {i : InfoRef} (h : r.live i = true) : r.stepHeld i.step = true := by
  have hmem : i ∈ r.infos := by
    rw [Runner.live_iff, Runner.held_iff] at h
    simp only [Runner.infos, List.mem_append, Option.mem_toList, List.mem_flatMap, List.mem_map,
      Map.mem_values_iff]
    rcases h with (h | ⟨t, task, ht, hi⟩) | h | ⟨drv, item, hitem, he⟩
    · exact Or.inl (Or.inl (Or.inl h))
    · exact Or.inl (Or.inl (Or.inr ⟨task, ⟨t, ht⟩, hi⟩))
    · exact Or.inl (Or.inr h)
    · exact Or.inr ⟨item, ⟨drv, hitem⟩, he⟩
  rw [Runner.stepHeld, decide_eq_true_eq]
  exact Or.inl (List.mem_map_of_mem hmem)

/-- The dispatch loop holds what it has collected. -/
theorem stepHeld_of_collected {s : StepRef} (h : s ∈ r.dispatcher.todo ∨ ∃ system jobs info,
    r.dispatcher.collected.lookup system = some jobs ∧ (s, info) ∈ jobs) :
    r.stepHeld s = true := by
  have hmem : s ∈ r.dispatcher.steps := by
    generalize r.dispatcher = d at h
    have hjobs : ∀ {queues : NewQueues}, (∃ system jobs info,
        queues.lookup system = some jobs ∧ (s, info) ∈ jobs) →
        s ∈ (queues.values.flatten).map Prod.fst := by
      rintro queues ⟨system, jobs, info, hq, hs⟩
      exact List.mem_map_of_mem (List.mem_flatten.mpr
        ⟨jobs, Map.mem_values_iff.mpr ⟨system, hq⟩, hs⟩)
    cases d with
    | collect now todo queues => exact List.mem_append.mpr (h.imp id hjobs)
    | insert now queues => exact hjobs (h.resolve_left (by simp [DispatchPc.todo]))
    | _ => simp [DispatchPc.todo, DispatchPc.collected] at h
  rw [Runner.stepHeld, decide_eq_true_eq]
  exact Or.inr (Or.inl hmem)

/-- Every step of the runner. -/
theorem step (h : Lifetimes r) (hok : RunnerOk cfg r) {a : Action}
    (hs : RunnerStep cfg r a r') : Lifetimes r' := by
  -- what is held and alive stays alive
  have hkeep : ∀ {s}, (r.shared.graph.step s).alive = true → r.stepHeld s = true →
      (r'.shared.graph.step s).alive = true := by
    intro s hs' hheld
    exact (hs.stepsStep.alive hs').resolve_right (by simp [hheld])
  have hcollected : ∀ {s}, (s ∈ r.dispatcher.todo ∨ ∃ system jobs info,
      r.dispatcher.collected.lookup system = some jobs ∧ (s, info) ∈ jobs) →
      (r'.shared.graph.step s).alive = true := by
    intro s hmem
    refine hkeep ?_ (stepHeld_of_collected hmem)
    rcases hmem with hmem | ⟨system, jobs, info, hj, hmem⟩
    · exact h.todo s hmem
    · exact h.collected system jobs hj _ hmem
  have hlive : ∀ i, r'.live i = true → (r'.shared.graph.step i.step).alive = true := by
    intro i hi
    rcases hs.live_cases hok hi with hi | ⟨-, hnew⟩
    · exact hkeep (h.live i hi) (stepHeld_of_live hi)
    · exact hcollected (Or.inr hnew)
  have hsame : r'.dispatcher = r.dispatcher → Lifetimes r' := by
    intro hd
    refine ⟨hlive, fun s hmem => hcollected (Or.inl (hd ▸ hmem)), fun system jobs hj j hmem => ?_⟩
    exact hcollected (Or.inr ⟨system, jobs, j.2, hd ▸ hj, hmem⟩)
  cases hs with
  | dispatch hres =>
    obtain ⟨htodo, hjobs⟩ := (dispatchStep_of_resume hres).collected
      (P := fun s => (r.shared.graph.step s).alive = true) (fun _ _ _ _ halive => halive)
      h.todo h.collected
    have hbase := (dispatch_fades hres).sameBase
    exact ⟨hlive, fun s hmem => (hbase s).alive.trans (htodo s hmem),
      fun system jobs hj j hmem => (hbase j.1).alive.trans (hjobs system jobs hj j hmem)⟩
  | completeBuild uuid machineId state report => exact hsame (r.spawn_dispatcher _)
  | endStream hm => exact hsame (Runner.spawn_dispatcher _ _)
  | queueChange curIds => exact hsame (r.spawn_dispatcher _)
  | _ => exact hsame rfl

theorem reach {ok : Runner → Action → Prop}
    (h : Lts.Reach (Runner.next cfg) ok {} r) : Lifetimes r := by
  refine h.invariant_of_reach init ?_
  intro s a s' hreach hs _ hnext
  exact hs.step (RunnerOk.reach hreach) (runnerStep_of_next hnext)

end Lifetimes

end QueueRunner
