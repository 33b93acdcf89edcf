import QueueRunner.Growth

/-!
# The steps that are on their way to a machine

A step gets into a queue because `do_dispatch_once` found it runnable in
`Steps`.  From there on it is referred to by the collected jobs, the
queues, the walk of `process`, the attempt, the item in `scheduled`, and
the message.  `JobSteps P` says that all these steps have the property `P`.
It is kept by every step of the runner when the steps that the collection
finds have `P`.
-/

namespace QueueRunner

/-- Every step on its way from the collection to its message has `P`. -/
structure JobSteps (P : StepRef → Prop) (r : Runner) : Prop where
  todo : ∀ s ∈ r.dispatcher.todo, P s
  collected : ∀ system jobs, r.dispatcher.collected.lookup system = some jobs →
    ∀ j ∈ jobs, P j.1
  queue : ∀ system, ∀ i ∈ r.queueJobs system, P i.step
  walk : ∀ w, r.dispatcher.walk? = some w → ∀ i ∈ w.jobs, P i.step
  info : ∀ i, r.dispatcher.info = some i → P i.step
  item : ∀ drv item, r.item drv = some item → P item.stepInfo.step
  sent : ∀ e ∈ r.shared.log.sent, P e.2.1.step

namespace JobSteps

variable {cfg : Config} {P Q : StepRef → Prop} {r r' : Runner}

theorem init : JobSteps P {} := by
  constructor <;> simp [DispatchPc.todo, DispatchPc.collected, DispatchPc.walk?,
    DispatchPc.info, InnerQueues.queueJobs, Runner.item]

theorem mono (h : JobSteps P r) (hPQ : ∀ s, P s → Q s) : JobSteps Q r where
  todo s hs := hPQ s (h.todo s hs)
  collected system jobs hj j hmem := hPQ _ (h.collected system jobs hj j hmem)
  queue system i hi := hPQ _ (h.queue system i hi)
  walk w hw i hi := hPQ _ (h.walk w hw i hi)
  info i hi := hPQ _ (h.info i hi)
  item drv item hi := hPQ _ (h.item drv item hi)
  sent e he := hPQ _ (h.sent e he)

/-- A step that adds nothing to the queues. -/
theorem of_subset (h : JobSteps P r)
    (hqueue : ∀ system, ∀ i ∈ r'.queueJobs system, i ∈ r.queueJobs system)
    (hitem : ∀ drv item, r'.item drv = some item → r.item drv = some item)
    (hsent : r'.shared.log.sent = r.shared.log.sent)
    (hd : r'.dispatcher = r.dispatcher) : JobSteps P r' where
  todo := hd ▸ h.todo
  collected := hd ▸ h.collected
  queue system i hi := h.queue system i (hqueue system i hi)
  walk := hd ▸ h.walk
  info := hd ▸ h.info
  item drv item hi := h.item drv item (hitem drv item hi)
  sent := hsent ▸ h.sent

/-- The collection takes the runnable step with it. -/
theorem collectStep {g : Graph} {ans : Answer} {queues : NewQueues} {s : StepRef}
    (hs : P s) (hqueues : ∀ system jobs, queues.lookup system = some jobs →
      ∀ j ∈ jobs, P j.1) :
    ∀ system jobs, (QueueRunner.collectStep g ans queues s).lookup system = some jobs →
      ∀ j ∈ jobs, P j.1 := by
  intro system jobs hj j hmem
  unfold QueueRunner.collectStep at hj
  split at hj
  · exact hqueues system jobs hj j hmem
  · rename_i sys hsys
    split_ifs at hj
    · exact hqueues system jobs hj j hmem
    · simp only [Map.lookup_insert_eq] at hj
      split_ifs at hj
      · cases hj
        rcases List.mem_append.mp hmem with hmem | hmem
        · cases hl : queues.lookup sys with
          | none => simp [hl] at hmem
          | some l =>
            rw [hl] at hmem
            exact hqueues sys l hl j hmem
        · rw [List.mem_singleton.mp hmem]
          exact hs
      · exact hqueues system jobs hj j hmem

end JobSteps

/-- What a pass of the dispatch loop has collected, it has found in
`Steps`. -/
theorem DispatchStep.collected {P : StepRef → Prop} {s s' : Shared} {held : InfoRef → Bool}
    {d d' : DispatchPc} (hs : DispatchStep s held d s' d')
    (hfound : ∀ x p, s.graph.steps.lookup p = some x → (s.graph.step x).runnable = true →
      (s.graph.step x).alive = true → P x)
    (htodo : ∀ x ∈ d.todo, P x)
    (hcollected : ∀ system jobs, d.collected.lookup system = some jobs → ∀ j ∈ jobs, P j.1) :
    (∀ x ∈ d'.todo, P x) ∧
      ∀ system jobs, d'.collected.lookup system = some jobs → ∀ j ∈ jobs, P j.1 := by
  have hempty : ∀ system jobs, (∅ : NewQueues).lookup system = some jobs →
      ∀ j ∈ jobs, P j.1 := by simp
  cases hs with
  | other hm hinfo hwalk hc ht =>
    refine ⟨fun x hx => ?_, ?_⟩
    · obtain ⟨hrun, halive, p, hp⟩ := ht x hx
      exact hfound x p hp hrun halive
    · rcases hc with hc | hc
      · rw [hc]
        exact hempty
      · rw [hc]
        exact hcollected
  | collect now s todo queues ans =>
    refine ⟨fun x hx => htodo x (List.mem_cons_of_mem _ hx), ?_⟩
    exact JobSteps.collectStep (htodo s List.mem_cons_self) hcollected
  | insert now queues system jobs cmp hjobs =>
    refine ⟨by simp [DispatchPc.todo], fun system' jobs' hj => ?_⟩
    simp only [DispatchPc.collected, Map.lookup_erase_eq] at hj
    split_ifs at hj
    exact hcollected system' jobs' hj
  | scrub hinfo hwalk hc ht =>
    rw [hc, ht]
    exact ⟨by simp, hempty⟩
  | removeByPath drv hinfo hwalk hc ht =>
    rw [hc, ht]
    exact ⟨by simp, hempty⟩
  | _ => exact ⟨by simp [DispatchPc.todo], hempty⟩

/-- What a walk has before it, an earlier one had, or it is in a queue. -/
theorem DispatchStep.walk_cases {s s' : Shared} {held : InfoRef → Bool} {d d' : DispatchPc}
    (hs : DispatchStep s held d s' d') {w' : Walk} (hw' : d'.walk? = some w') {i : InfoRef}
    (hi : i ∈ w'.jobs) :
    (∃ w, d.walk? = some w ∧ i ∈ w.jobs) ∨ i ∈ s.queues.queueJobs w'.system := by
  cases hs with
  | other hm hinfo hwalk hcollected htodo =>
    rw [hwalk] at hw'
    cases hw'
  | collect now r todo queues ans => cases hw'
  | insert now queues system jobs cmp hjobs => cases hw'
  | scrub hinfo hwalk hcollected htodo =>
    rw [hwalk] at hw'
    cases hw'
  | removeByPath drv hinfo hwalk hcollected htodo =>
    rw [hwalk] at hw'
    cases hw'
  | snapshot w hinfo hjobs =>
    cases hw'
    rcases hjobs with hjobs | hjobs
    · exact Or.inr (hjobs ▸ hi)
    · rw [hjobs] at hi
      cases hi
  | skip hjobs =>
    cases hw'
    exact Or.inl ⟨_, rfl, hjobs ▸ List.mem_cons_of_mem _ hi⟩
  | cancel hjobs =>
    cases hw'
    exact Or.inl ⟨_, rfl, hjobs ▸ List.mem_cons_of_mem _ hi⟩
  | pick m job ans hjobs =>
    cases hw'
    exact Or.inl ⟨_, rfl, hjobs ▸ List.mem_cons_of_mem _ hi⟩
  | _ =>
    cases hw'
    exact Or.inl ⟨_, rfl, hi⟩

/-- The loop works on the job that it had, or on one of the walk. -/
theorem DispatchStep.info_cases {s s' : Shared} {held : InfoRef → Bool} {d d' : DispatchPc}
    (hs : DispatchStep s held d s' d') {i : InfoRef} (hi : d'.info = some i) :
    d.info = some i ∨ ∃ w, d.walk? = some w ∧ i ∈ w.jobs := by
  cases hs with
  | other hm hinfo hwalk hcollected htodo =>
    rw [DispatchPc.info_eq_none_of_walk? hwalk] at hi
    cases hi
  | scrub hinfo hwalk hcollected htodo =>
    rw [DispatchPc.info_eq_none_of_walk? hwalk] at hi
    cases hi
  | removeByPath drv hinfo hwalk hcollected htodo =>
    rw [DispatchPc.info_eq_none_of_walk? hwalk] at hi
    cases hi
  | cancel hjobs =>
    cases hi
    exact Or.inr ⟨_, rfl, by rw [hjobs]; exact List.mem_cons_self⟩
  | pick m job ans hjobs =>
    cases hi
    exact Or.inr ⟨_, rfl, by rw [hjobs]; exact List.mem_cons_self⟩
  | advance => exact Or.inl hi
  | send => exact Or.inl hi
  | insertJob => exact Or.inl hi
  | _ => cases hi

/-- A job of a queue was there before, or it was collected. -/
theorem DispatchStep.queueJobs_cases {s s' : Shared} {held : InfoRef → Bool} {d d' : DispatchPc}
    (hs : DispatchStep s held d s' d') {system : System} {i : InfoRef}
    (hi : i ∈ s'.queues.queueJobs system) : i ∈ s.queues.queueJobs system ∨
      ∃ system' jobs, d.collected.lookup system' = some jobs ∧ ∃ j ∈ jobs, j.1 = i.step := by
  have hmarks : SameMarks s s' → i ∈ s.queues.queueJobs system := fun hm => hm.queueJobs system ▸ hi
  cases hs with
  | other hm => exact Or.inl (hmarks hm)
  | insert now queues system' jobs cmp hjobs =>
    rcases InnerQueues.mem_queueJobs_insertNewJobs _ _ _ _ _ _ _ hi with hi | ⟨-, hi⟩
    · exact Or.inl hi
    · obtain ⟨-, info, hmem, -⟩ := (InnerQueues.submitted_submitJobs _ _ _).origin i hi
      exact Or.inr ⟨system', jobs, hjobs, _, hmem, rfl⟩
  | scrub =>
    rw [InnerQueues.queueJobs_removeAllWeakPointer] at hi
    exact Or.inl (List.mem_of_mem_filter hi)
  | skip hjobs hm => exact Or.inl (hmarks hm)
  | cancel hjobs hlive hflag hfin hdep hm => exact Or.inl (hmarks hm)
  | pick m job ans hjobs hlive hflag hfin hdep hmachine huuid hpath hm =>
    exact Or.inl (hmarks hm)
  | advance hm => exact Or.inl (hmarks hm)
  | abandon hm => exact Or.inl (hmarks hm)
  | schedule w i' m job =>
    rw [InnerQueues.queueJobs_addJobToScheduled] at hi
    exact Or.inl hi
  | remove w i' =>
    rw [InnerQueues.queueJobs_removeJob] at hi
    split_ifs at hi
    · exact Or.inl (List.mem_of_mem_filter hi)
    · exact Or.inl hi
  | _ => exact Or.inl hi

namespace JobSteps

variable {cfg : Config} {P Q : StepRef → Prop} {r r' : Runner}

/-- A step of the dispatch loop. -/
theorem dispatch (h : JobSteps P r)
    (hfound : ∀ s p, r.shared.graph.steps.lookup p = some s →
      (r.shared.graph.step s).runnable = true → P s)
    {s' : Shared} {d' : DispatchPc}
    (hs : DispatchStep r.shared r.held r.dispatcher s' d') :
    JobSteps P { r with shared := s', dispatcher := d' } := by
  obtain ⟨htodo, hcollected⟩ := hs.collected (fun x p hp hrun _ => hfound x p hp hrun) h.todo
    h.collected
  refine ⟨htodo, hcollected, fun system i hi => ?_, fun w' hw' i hi => ?_, fun i hi => ?_,
    fun drv item hi => ?_, fun e he => ?_⟩
  · rcases hs.queueJobs_cases hi with hi | ⟨system', jobs, hjobs, j, hj, hij⟩
    · exact h.queue system i hi
    · exact hij ▸ h.collected system' jobs hjobs j hj
  · rcases hs.walk_cases hw' hi with ⟨w, hw, hi⟩ | hi
    · exact h.walk w hw i hi
    · exact h.queue _ i hi
  · rcases hs.info_cases hi with hi | ⟨w, hw, hi⟩
    · exact h.info i hi
    · exact h.walk w hw i hi
  · rcases hs.item_cases hi with hi | ⟨w, i, m, job, hd, -, rfl⟩
    · exact h.item drv item hi
    · exact h.info i (by rw [hd]; rfl)
  · rcases hs.sent_cases he with he | ⟨w, i, m, job, hd, -, rfl⟩
    · exact h.sent e he
    · exact h.info i (by rw [hd]; rfl)

/-- A call adds nothing to the queues. -/
theorem call (h : JobSteps P r) (hok : RunnerOk cfg r) {t : TaskId} {task : CallTask}
    {res : Shared × Option CallTask}
    (hs : CallStep r.shared r.held task res.1 res.2) : JobSteps P (r.setCall t res) := by
  obtain ⟨s', t'⟩ := res
  cases hs with
  | quiet hstart hsame hinfos hpending hkeeps =>
    refine h.of_subset (fun system i hi => ?_) (fun drv item hi => ?_) hsame.sent rfl
    · rwa [Runner.queueJobs, Runner.setCall, hsame.queueJobs] at hi
    · rwa [Runner.item, Runner.setCall, hsame.scheduled] at hi
  | missing a rest hstart hp hlookup hinfos hpending hlast =>
    exact h.of_subset (fun _ _ => id) (fun _ _ => id) rfl rfl
  | jobMissing a rest item hstart hp hitem hnone =>
    exact absurd hnone (hok.attempts.find_job hitem)
  | ends a rest item job hstart hp hends hinfos hpending hlast =>
    refine h.of_subset (fun system i hi => ?_) (fun drv item hi => ?_) hends.sent rfl
    · rwa [Runner.queueJobs, Runner.setCall, hends.unscheduled.queueJobs] at hi
    · rw [Runner.item, Runner.setCall, hends.unscheduled.scheduled,
        Map.lookup_erase_eq] at hi
      split_ifs at hi
      exact hi
  | removeJob i system hstart hi hremoved hinfos hpending hlast =>
    refine h.of_subset (fun system' j hj => ?_) (fun drv item hi => ?_) hremoved.sent rfl
    · rw [Runner.queueJobs, Runner.setCall, hremoved.queueJobs,
        InnerQueues.queueJobs_removeJob] at hj
      split_ifs at hj
      · exact List.mem_of_mem_filter hj
      · exact hj
    · rwa [Runner.item, Runner.setCall, hremoved.scheduled,
        InnerQueues.removeJob_scheduled] at hi

/-- A task starts. -/
theorem spawn (h : JobSteps P r) {res : Shared × Option CallTask}
    (hqueues : res.1.queues = r.shared.queues)
    (hsent : res.1.log.sent = r.shared.log.sent) : JobSteps P (r.spawn res) := by
  refine h.of_subset (fun system i hi => ?_) (fun drv item hi => ?_) ?_
    (r.spawn_dispatcher res)
  · rwa [Runner.queueJobs, Runner.spawn_shared, hqueues] at hi
  · rwa [Runner.item, Runner.spawn_shared, hqueues] at hi
  · rwa [Runner.spawn_shared]

/-- Every step of the runner. -/
theorem step (h : JobSteps P r) (hok : RunnerOk cfg r)
    (hfound : ∀ s p, r.shared.graph.steps.lookup p = some s →
      (r.shared.graph.step s).runnable = true → P s)
    {a : Action} (hs : RunnerStep cfg r a r') : JobSteps P r' := by
  cases hs with
  | dispatch hres => exact h.dispatch hfound (dispatchStep_of_resume hres)
  | call ht hres => exact h.call hok (callStep_of_resume hres)
  | completeBuild uuid machineId state report =>
    obtain ⟨results, hs, -⟩ := completeBuild_spec r.shared uuid machineId state report
    exact h.spawn (by rw [hs]) (by rw [hs])
  | @endStream m hm =>
    obtain ⟨machines, task, hs, -⟩ := endStream_spec r.shared m
    exact spawn (r := { r with tunnels := r.tunnels.erase m })
      (h.of_subset (fun _ _ => id) (fun _ _ => id) rfl rfl) (by rw [hs]) (by rw [hs])
  | queueChange curIds => exact h.spawn rfl rfl
  | insertMachine id record sortFn =>
    obtain ⟨-, hscheduled, -, -, hqueue⟩ :=
      r.shared.queues.ensureQueuesForSystems_frame record.systems
    refine h.of_subset (fun system i hi => ?_) (fun drv item hi => ?_) rfl rfl
    · rwa [Runner.queueJobs, hqueue] at hi
    · rwa [Runner.item, hscheduled] at hi
  | create hnext => exact h.of_subset (fun _ _ => id) (fun _ _ => id) rfl rfl
  | dropStep hheld => exact h.of_subset (fun _ _ => id) (fun _ _ => id) rfl rfl
  | dropBuild hheld => exact h.of_subset (fun _ _ => id) (fun _ _ => id) rfl rfl

/-- The step exists and has become runnable. -/
def Found (r : Runner) (s : StepRef) : Prop :=
  s.gen < r.shared.graph.fresh ∧ (r.shared.graph.step s).runnable = true

/-- A step that is on its way to a machine stays runnable. -/
theorem step_found (h : JobSteps (Found r) r) (hok : RunnerOk cfg r) {a : Action}
    (hs : RunnerStep cfg r a r') : JobSteps (Found r') r' := by
  obtain ⟨hext, hmarks⟩ := hs.extends
  have hstep := h.step hok (fun s p hp hrun => ⟨(hok.create.graph.steps p s hp).2, hrun⟩) hs
  exact hstep.mono fun s hfound => ⟨lt_of_lt_of_le hfound.1 hext.fresh,
    (hmarks s hfound.1).1 hfound.2⟩

theorem reach {ok : Runner → Action → Prop}
    (h : Lts.Reach (Runner.next cfg) ok {} r) : JobSteps (Found r) r := by
  refine h.invariant_of_reach (I := fun r => JobSteps (Found r) r) init ?_
  intro s a s' hreach hs _ hnext
  exact hs.step_found (RunnerOk.reach hreach) (runnerStep_of_next hnext)

end JobSteps

end QueueRunner
