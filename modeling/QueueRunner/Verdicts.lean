import QueueRunner.JobSteps

/-!
# What the calls decide about a step

`succeed_step` marks its step as finished.  `fail_step` counts a try and
keeps the step in its queue, or gives the step up.  Only the first step of
a call decides, and nobody else does.  `CallVerdict` says what it decides.
-/

namespace QueueRunner

/-- No call has decided about a step, and what was found stays found. -/
structure Log.SameVerdicts (l l' : Log) : Prop where
  failed : l'.failed = l.failed
  succeeded : l'.succeeded = l.succeeded
  present : l.present ⊆ l'.present

namespace Log.SameVerdicts

theorem refl (l : Log) : SameVerdicts l l := ⟨rfl, rfl, List.Subset.refl _⟩

end Log.SameVerdicts

/-! ## The dispatch loop -/

theorem InnerFail.start_log (s : Shared) (step : StepRef) (job : Job) :
    (start s step job).1.log = s.log := by
  rw [start_shared]

theorem InnerFail.resume_log (s : Shared) (f : InnerFail) (ans : Answer) :
    (f.resume s ans).1.log = s.log := by
  rw [resume_shared]

/-- The dispatch loop decides about no step. -/
theorem dispatch_verdicts {cfg : Config} {s s' : Shared} {held : InfoRef → Bool}
    {d d' : DispatchPc} {ans : Answer}
    (h : d.resume cfg s held ans = some (s', d')) : s.log.SameVerdicts s'.log := by
  cases dispatchEffect_of_resume h with
  | send e => exact ⟨rfl, rfl, List.Subset.refl _⟩
  | _ => exact .refl _

/-! ## The calls -/

/-- What a step of a call decides. -/
inductive CallVerdict (cfg : Config) (s : Shared) (t : CallTask) (s' : Shared)
    (t' : Option CallTask) : Prop where
  /-- Nothing, as the call is past its first step or finds no item. -/
  | pending (hsame : s.log.SameVerdicts s'.log)
      (hitem : ∀ a, t.starting = some a → s.queues.scheduled.lookup a.drv = none)
  | succeeds (a : Attempt) (report : BuildReport) (item : ScheduledItem)
      (ht : t = .succeed a report .start)
      (hitem : s.queues.scheduled.lookup a.drv = some item)
      (hfailed : s'.log.failed = s.log.failed)
      (hsucceeded : s'.log.succeeded = item.stepInfo.step :: s.log.succeeded)
      (hfinished : (s'.graph.step item.stepInfo.step).finished = true)
      (htries : (s'.graph.step item.stepInfo.step).tries =
        (s.graph.step item.stepInfo.step).tries)
  | retries (a : Attempt) (state : BuildResultState) (timings : BuildTimings)
      (caller : Caller) (item : ScheduledItem)
      (ht : t = .fail a (.start state timings) caller)
      (hitem : s.queues.scheduled.lookup a.drv = some item)
      (hsame : s.log.SameVerdicts s'.log)
      (htries : (s'.graph.step item.stepInfo.step).tries =
        ((s.graph.step item.stepInfo.step).tries + 1) % 2 ^ 32)
      (hlt : (s'.graph.step item.stepInfo.step).tries < cfg.maxRetries.toNat)
  | givesUp (a : Attempt) (state : BuildResultState) (timings : BuildTimings)
      (caller : Caller) (item : ScheduledItem) (job : Job)
      (ht : t = .fail a (.start state timings) caller)
      (hitem : s.queues.scheduled.lookup a.drv = some item)
      (hfailed : s'.log.failed = item.stepInfo.step :: s.log.failed)
      (hsucceeded : s'.log.succeeded = s.log.succeeded)
      (ht' : t' = some (.fail a (.removeJob item job) caller))
  /-- The overhead of the attempt is too large, and `fail_step` returns
  before it decides. -/
  | overflows (a : Attempt) (state : BuildResultState) (timings : BuildTimings)
      (caller : Caller) (ht : t = .fail a (.start state timings) caller)
      (hoverhead : ¬timings.getOverhead < 2 ^ 31)
      (hsame : s.log.SameVerdicts s'.log)
  /-- The item is found, and its machine has no job for it. -/
  | jobMissing (a : Attempt) (item : ScheduledItem) (hstart : t.starting = some a)
      (hitem : s.queues.scheduled.lookup a.drv = some item)
      (hjob : (s.jobsOf item.machine).find? (fun j => j.path == a.drv) = none)

theorem succeedStart_verdict (cfg : Config) (s : Shared) (a : Attempt)
    (report : BuildReport) (ans : Answer) :
    CallVerdict cfg s (.succeed a report .start) (succeedStart s a report ans).1
      (succeedStart s a report ans).2 := by
  unfold succeedStart
  cases hq : s.queues.removeJobFromScheduled a.drv with
  | none =>
    refine .pending ⟨rfl, rfl, List.Subset.refl _⟩ ?_
    rintro b ⟨⟩
    exact InnerQueues.removeJobFromScheduled_eq_none.mp hq
  | some res =>
    obtain ⟨item, queues⟩ := res
    have hitem := (InnerQueues.unscheduled_of_removeJobFromScheduled hq).found
    simp only
    cases hm : s.machines.removeJob item.machine (Shared.seconds ans.now) a.drv with
    | mk machines job =>
      cases job with
      | none => exact .jobMissing a item rfl hitem (congrArg Prod.snd hm)
      | some job =>
        refine .succeeds a report item rfl hitem rfl rfl ?_ ?_
        · simp [Shared.endAttempt, Graph.setFinished]
        · simp [Shared.endAttempt, Graph.setFinished]

theorem failDecide_verdict (cfg : Config) {s₀ s : Shared} {a : Attempt}
    {item : ScheduledItem} (job : Job) (state : BuildResultState)
    (timings : BuildTimings) (caller : Caller) (ans : Answer)
    (hitem : s₀.queues.scheduled.lookup a.drv = some item)
    (hlog : s₀.log.SameVerdicts s.log)
    (htries : (s.graph.step item.stepInfo.step).tries =
      (s₀.graph.step item.stepInfo.step).tries) :
    CallVerdict cfg s₀ (.fail a (.start state timings) caller)
      (failDecide cfg s a item job state timings caller ans).1
      (failDecide cfg s a item job state timings caller ans).2 := by
  unfold failDecide RemoteBuild.setOverhead
  simp only
  by_cases hover : timings.getOverhead < 2 ^ 31
  case neg =>
    rw [if_neg hover]
    exact .overflows a state timings caller rfl hover
      ⟨hlog.failed, hlog.succeeded, hlog.present⟩
  rw [if_pos hover]
  simp only
  generalize ({ job.result with stepStatus := .failed } :
    RemoteBuild).updateWithResultState state = result
  by_cases hretry : result.canRetry = true
  · simp only [hretry, if_true, true_and]
    split_ifs with hlt
    · refine .retries a state timings caller item rfl hitem hlog ?_ ?_
      · simp [Graph.setAfter, Graph.incrTries, htries]
      · simpa [Graph.setAfter] using hlt
    · exact .givesUp a state timings caller item _ rfl hitem (by simp [hlog.failed])
        hlog.succeeded rfl
  · simp only [hretry, Bool.false_eq_true, if_false, false_and]
    exact .givesUp a state timings caller item _ rfl hitem (by simp [hlog.failed])
        hlog.succeeded rfl

theorem failStart_verdict (cfg : Config) (s : Shared) (a : Attempt)
    (state : BuildResultState) (timings : BuildTimings) (caller : Caller)
    (ans : Answer) :
    CallVerdict cfg s (.fail a (.start state timings) caller)
      (failStart cfg s a state timings caller ans).1
      (failStart cfg s a state timings caller ans).2 := by
  unfold failStart
  cases hq : s.queues.removeJobFromScheduled a.drv with
  | none =>
    refine .pending ⟨rfl, rfl, List.Subset.refl _⟩ ?_
    rintro b ⟨⟩
    exact InnerQueues.removeJobFromScheduled_eq_none.mp hq
  | some res =>
    obtain ⟨item, queues⟩ := res
    have hitem := (InnerQueues.unscheduled_of_removeJobFromScheduled hq).found
    simp only
    cases hm : s.machines.removeJob item.machine (Shared.seconds ans.now) a.drv with
    | mk machines job =>
      cases job with
      | none => exact .jobMissing a item rfl hitem (congrArg Prod.snd hm)
      | some job =>
        refine failDecide_verdict cfg job state timings caller ans hitem
          ⟨rfl, rfl, List.Subset.refl _⟩ ?_
        simp [Shared.endAttempt, Graph.setFinished]

/-- Every step of a call is one of the relation. -/
theorem callVerdict_of_resume {cfg : Config} {s : Shared} {held : InfoRef → Bool}
    {t : CallTask} {ans : Answer} {res : Shared × Option CallTask}
    (h : t.resume cfg s held ans = some res) :
    CallVerdict cfg s t res.1 res.2 := by
  unfold CallTask.resume at h
  have hquiet : t.starting = none → s.log.SameVerdicts res.1.log →
      CallVerdict cfg s t res.1 res.2 := fun hstart hsame =>
    .pending hsame (fun a ha => by rw [hstart] at ha; cases ha)
  cases t with
  | succeed a report pc =>
    cases pc with
    | start => cases h; exact succeedStart_verdict cfg s a report ans
    | removeJob item job =>
      refine hquiet rfl ?_
      cases h
      simp only [succeedResume]
      split <;> exact ⟨rfl, rfl, List.Subset.refl _⟩
    | finishBuildStep item job =>
      refine hquiet rfl ?_
      cases h
      simp only [succeedResume]
      split_ifs <;> exact ⟨rfl, rfl, List.Subset.refl _⟩
    | markSucceeded item direct =>
      refine hquiet rfl ?_
      cases h
      simp only [succeedResume]
      split_ifs <;> exact ⟨rfl, rfl, List.Subset.refl _⟩
    | notify item =>
      refine hquiet rfl ?_
      cases h
      simp only [succeedResume]
      split_ifs <;> exact ⟨rfl, rfl, List.Subset.refl _⟩
  | fail a pc caller =>
    cases pc with
    | start state timings => cases h; exact failStart_verdict cfg s a state timings caller ans
    | retry item job => cases h; exact hquiet rfl ⟨rfl, rfl, List.Subset.refl _⟩
    | removeJob item job =>
      refine hquiet rfl ?_
      cases h
      simp only [failResume, InnerFail.start_log]
      exact .refl _
    | inner item f =>
      refine hquiet rfl ?_
      cases h
      have hl := InnerFail.resume_log s f ans
      simp only [failResume]
      split <;> rename_i heq <;> rw [heq] at hl
      · exact hl ▸ .refl _
      · simp only at hl
        exact ⟨by simp [Shared.record, hl], by simp [Shared.record, hl],
          by simp [Shared.record, hl]⟩
  | killStart =>
    refine hquiet rfl ?_
    simp only at h
    split_ifs at h
    cases h
    exact .refl _
  | kill todo cancelled =>
    refine hquiet rfl ?_
    cases todo with
    | nil => cases h; exact .refl _
    | cons e todo =>
      cases h
      rw [killResume_shared]
      exact .refl _
  | killAbort a machine todo cancelled =>
    refine hquiet rfl ?_
    simp only at h
    split_ifs at h <;> cases h <;> exact .refl _
  | tunnelClose machine => cases h; exact hquiet rfl (.refl _)

/-- A call that is past its first step decides nothing. -/
theorem CallVerdict.same_of_starting {cfg : Config} {s s' : Shared} {t : CallTask}
    {t' : Option CallTask} (h : CallVerdict cfg s t s' t') (hstart : t.starting = none) :
    s.log.SameVerdicts s'.log := by
  cases h with
  | pending hsame hitem => exact hsame
  | succeeds a report item ht => rw [ht] at hstart; cases hstart
  | retries a state timings caller item ht => rw [ht] at hstart; cases hstart
  | givesUp a state timings caller item job ht => rw [ht] at hstart; cases hstart
  | overflows a state timings caller ht => rw [ht] at hstart; cases hstart
  | jobMissing a item ha => rw [hstart] at ha; cases ha

/-- A call finds no outputs. -/
theorem CallTask.resume_present {cfg : Config} {s : Shared} {held : InfoRef → Bool}
    {t : CallTask} {ans : Answer} {res : Shared × Option CallTask}
    (h : t.resume cfg s held ans = some res) :
    res.1.log.present = s.log.present := by
  unfold CallTask.resume at h
  cases t with
  | succeed a report pc =>
    cases h
    cases pc with
    | start =>
      simp only [succeedResume, succeedStart]
      split
      · rfl
      · split <;> rfl
    | removeJob item job =>
      simp only [succeedResume]
      split <;> rfl
    | finishBuildStep item job => simp only [succeedResume]; split_ifs <;> rfl
    | markSucceeded item direct => simp only [succeedResume]; split_ifs <;> rfl
    | notify item => simp only [succeedResume]; split_ifs <;> rfl
  | fail a pc caller =>
    cases h
    cases pc with
    | start state timings =>
      simp only [failResume, failStart]
      split
      · rfl
      · split
        · rfl
        · simp only [failDecide]
          split
          · rfl
          · split_ifs <;> rfl
    | retry item job => rfl
    | removeJob item job => simp only [failResume, InnerFail.start_log]
    | inner item f =>
      have hl := InnerFail.resume_log s f ans
      simp only [failResume]
      split <;> rename_i heq <;> rw [heq] at hl <;> simp only at hl
      · rw [hl]
      · simp [Shared.record, hl]
  | killStart =>
    simp only at h
    split_ifs at h
    cases h
    rfl
  | kill todo cancelled =>
    cases todo with
    | nil => cases h; rfl
    | cons e todo =>
      cases h
      simp only [killResume]
      split_ifs
      · rfl
      · rfl
      · split <;> rfl
  | killAbort a machine todo cancelled =>
    simp only at h
    split_ifs at h <;> cases h <;> rfl
  | tunnelClose machine => cases h; rfl

/-! ## The runner -/

/-- The creation only adds to the derivations that were found. -/
theorem CreateStep.present_subset {cfg : Config} {c c' : CreateState} {ans : Answer}
    {a : CreateAction} (h : CreateStep cfg c ans a c') : c.present ⊆ c'.present := by
  cases h with
  | @startToplevel k call hcall hpc =>
    obtain ⟨pc, hstart⟩ := c.started_startStep call.pass k [] call.build.drvPath
      (some call.build) none
    rw [CreateState.setBuildCall_present, hstart.present]
    exact List.Subset.refl _
  | @startInput k call step drvPath todo calls hcall hpc hlength =>
    obtain ⟨pc, hstart⟩ := c.started_startStep call.pass call.build
      (k :: call.callers) drvPath none (some step)
    rw [CreateState.setStepCall_present, hstart.present]
    exact List.Subset.refl _
  | @decide k call step drv missing finished hcall hpc =>
    have hframe := (c.insertFinishedDrv_frame call.pass call.drvPath).2.1
    unfold CreateState.decideStep
    split_ifs <;> simp only [CreateState.returnStep, CreateState.setStepCall_present, hframe]
    · exact List.subset_cons_self _ _
    · exact List.Subset.refl _
    · exact List.Subset.refl _
  | @takeInput k k' call child step drvPath todo calls r hcall hpc hchild hresult =>
    cases r with
    | valid dep =>
      simp only [CreateState.takeInput]
      split_ifs <;> exact List.Subset.refl _
    | _ => exact List.Subset.refl _
  | finish hcall hpc =>
    simp only [CreateState.finishStep, CreateState.returnStep,
      CreateState.setStepCall_present, (CreateState.insertNewStep_frame _ _ _).2.1]
    split_ifs
    · rw [(CreateState.insertNewRunnable_frame _ _ _).2.1]
      exact List.Subset.refl _
    · exact List.Subset.refl _
  | @attach k call step hcall hpc => exact List.Subset.refl _
  | _ => exact List.Subset.refl _

/-- Only a call that ends an attempt decides. -/
theorem RunnerStep.sameVerdicts {cfg : Config} {r r' : Runner} {a : Action}
    (h : RunnerStep cfg r a r') (hcall : ∀ t ans, a ≠ .call t ans) :
    r.shared.log.SameVerdicts r'.shared.log := by
  cases h with
  | dispatch hres => exact dispatch_verdicts hres
  | call ht hres => exact absurd rfl (hcall _ _)
  | completeBuild uuid machineId state report =>
    obtain ⟨results, hs, -⟩ := completeBuild_spec r.shared uuid machineId state report
    rw [Runner.spawn_shared, hs]
    exact ⟨rfl, rfl, List.Subset.refl _⟩
  | endStream hm =>
    obtain ⟨machines, task, hs, -⟩ := endStream_spec r.shared _
    rw [Runner.spawn_shared, hs]
    exact .refl _
  | queueChange curIds =>
    rw [Runner.spawn_shared]
    exact .refl _
  | insertMachine id record sortFn => exact .refl _
  | create hnext =>
    exact ⟨rfl, rfl, (CreateState.createStep_of_next hnext).present_subset⟩
  | dropStep hheld => exact .refl _
  | dropBuild hheld => exact .refl _

/-- The dispatch loop sends one message at a time. -/
theorem DispatchStep.sent_eq {s s' : Shared} {held : InfoRef → Bool}
    {d d' : DispatchPc} (hs : DispatchStep s held d s' d') :
    s'.log.sent = s.log.sent ∨ ∃ w i m job, d = .realise w i (.send m job) ∧
      d' = .realise w i (.sent m job) ∧
      s' = { s with log := { s.log with
        sent := (job.internalBuildId, i, m) :: s.log.sent } } := by
  cases hs with
  | other hm => exact Or.inl hm.sent
  | skip hjobs hm => exact Or.inl hm.sent
  | cancel hjobs hlive hflag hfin hdep hm => exact Or.inl hm.sent
  | pick m job ans hjobs hlive hflag hfin hdep hmachine huuid hpath hm hnext =>
    exact Or.inl hm.sent
  | advance hm => exact Or.inl hm.sent
  | abandon hm => exact Or.inl hm.sent
  | send w i m job hopen => exact Or.inr ⟨w, i, m, job, rfl, rfl, rfl⟩
  | _ => exact Or.inl rfl

/-- A call sends no message. -/
theorem CallStep.sent_eq {cfg : Config} {r : Runner} {task : CallTask} {s' : Shared}
    {t' : Option CallTask} (hok : RunnerOk cfg r)
    (hs : CallStep r.shared r.held task s' t') : s'.log.sent = r.shared.log.sent := by
  cases hs with
  | quiet hstart hsame => exact hsame.sent
  | missing => rfl
  | ends a rest item job hstart hp hends => exact hends.sent
  | jobMissing a rest item hstart hp hitem hnone =>
    exact absurd hnone (hok.attempts.find_job hitem)
  | removeJob i system hstart hi hremoved => exact hremoved.sent

/-- Only the dispatch loop sends messages. -/
theorem RunnerStep.sent_eq {cfg : Config} {r r' : Runner} {a : Action}
    (hok : RunnerOk cfg r) (h : RunnerStep cfg r a r') :
    r'.shared.log.sent = r.shared.log.sent ∨
      ∃ w i m job, r.dispatcher = .realise w i (.send m job) ∧
        r'.shared.log.sent = (job.internalBuildId, i, m) :: r.shared.log.sent := by
  cases h with
  | dispatch hres =>
    rcases (dispatchStep_of_resume hres).sent_eq with hsent | ⟨w, i, m, job, hd, -, rfl⟩
    · exact Or.inl hsent
    · exact Or.inr ⟨w, i, m, job, hd, rfl⟩
  | call ht hres => exact Or.inl ((callStep_of_resume hres).sent_eq hok)
  | completeBuild uuid machineId state report =>
    obtain ⟨results, hs, -⟩ := completeBuild_spec r.shared uuid machineId state report
    rw [Runner.spawn_shared, hs]
    exact Or.inl rfl
  | endStream hm =>
    obtain ⟨machines, task, hs, -⟩ := endStream_spec r.shared _
    rw [Runner.spawn_shared, hs]
    exact Or.inl rfl
  | queueChange curIds =>
    rw [Runner.spawn_shared]
    exact Or.inl rfl
  | insertMachine id record sortFn => exact Or.inl rfl
  | create hnext => exact Or.inl rfl
  | dropStep hheld => exact Or.inl rfl
  | dropBuild hheld => exact Or.inl rfl

end QueueRunner
