import QueueRunner.Suitable

/-!
# No machine has more jobs than it may have

`has_static_capacity` compares the counter `current_jobs` with `max_jobs`.
The job of the attempt enters the machine several awaits later, and in
between jobs leave the machine, other attempts fail, and machines join.
Only the dispatch loop inserts jobs, and it works on one attempt at a time,
so the room that the test has found is still there.
-/

namespace QueueRunner

/-! ## A machine that gets no job -/

/-- The machine may lose jobs, and it counts the jobs that it has. -/
structure Machine.Drains (m m' : Machine) : Prop where
  counted : m.stats.currentJobs = m.jobs.length → m'.stats.currentJobs = m'.jobs.length
  jobs : m'.jobs.length ≤ m.jobs.length
  maxJobs : m'.maxJobs = m.maxJobs

namespace Machine.Drains

variable {m m' m'' : Machine}

theorem refl (m : Machine) : Drains m m := ⟨id, le_refl _, rfl⟩

theorem trans (h : Drains m m') (h' : Drains m' m'') : Drains m m'' where
  counted := h'.counted ∘ h.counted
  jobs := h'.jobs.trans h.jobs
  maxJobs := h'.maxJobs.trans h.maxJobs

theorem hasCapacity (m : Machine) (now : Int) (freeFn : MachineFreeFn) (disk dyn : Bool) :
    m.Drains (m.hasCapacity now freeFn disk dyn).1 := by
  rw [hasCapacity_fst]
  split_ifs
  · exact ⟨id, le_refl _, rfl⟩
  · exact refl m

theorem removeJob (m : Machine) (now : Int) (drv : StorePath) :
    m.Drains (m.removeJob now drv).1 where
  counted _ := by
    show Stats.currentJobs (if now ≤ m.stats.jobsInLast30sStart + 30 then _ else _) = _
    split_ifs <;> rfl
  jobs := by
    show (m.jobs.filter (fun j => j.path != drv)).length ≤ m.jobs.length
    exact List.length_filter_le _ _
  maxJobs := rfl

end Machine.Drains

/-- No machine gets a job. -/
def Machines.Drains (ms ms' : Machines) : Prop :=
  ∀ m, (ms.machine m).Drains (ms'.machine m)

namespace Machines.Drains

variable {ms ms' ms'' : Machines}

theorem refl (ms : Machines) : ms.Drains ms := fun m => .refl (ms.machine m)

theorem trans (h : ms.Drains ms') (h' : ms'.Drains ms'') : ms.Drains ms'' :=
  fun m => (h m).trans (h' m)

theorem of_machine (h : ms'.machine = ms.machine) : ms.Drains ms' :=
  fun _ => h ▸ .refl _

theorem modifyMachine (ms : Machines) (m : MachineRef) {f : Machine → Machine}
    (hf : (ms.machine m).Drains (f (ms.machine m))) : ms.Drains (ms.modifyMachine m f) := by
  intro o
  unfold Machines.modifyMachine
  by_cases ho : o = m
  · subst ho
    simpa using hf
  · simpa [ho] using .refl (ms.machine o)

theorem findFree (ms : Machines) (now : Int) (freeFn : MachineFreeFn)
    (disk dyn : MachineRef → Bool) (required : List String) (l : List MachineRef) :
    ms.Drains (ms.findFree now freeFn disk dyn required l).1 := by
  induction l generalizing ms with
  | nil => exact refl ms
  | cons o l ih =>
    have hone : ms.Drains (ms.modifyMachine o (fun _ =>
        ((ms.machine o).hasCapacity now freeFn (disk o) (dyn o)).1)) :=
      modifyMachine ms o (.hasCapacity ..)
    unfold Machines.findFree
    simp only
    split_ifs
    · exact hone
    · exact hone.trans (ih _)

theorem removeJob (ms : Machines) (m : MachineRef) (now : Int) (drv : StorePath) :
    ms.Drains (ms.removeJob m now drv).1 :=
  modifyMachine (f := fun _ => ((ms.machine m).removeJob now drv).1) ms m (.removeJob ..)

theorem closeReceiver (ms : Machines) (m : MachineRef) : ms.Drains (ms.closeReceiver m) :=
  modifyMachine ms m ⟨id, le_refl _, rfl⟩

end Machines.Drains

/-! ## Who inserts jobs -/

/-- Only the loop that has sent a message inserts a job. -/
theorem DispatchStep.jobsOf_eq {s s' : Shared} {held : InfoRef → Bool} {d d' : DispatchPc}
    (hs : DispatchStep s held d s' d') (hd : ∀ w i m job, d ≠ .realise w i (.sent m job))
    (o : MachineRef) : s'.jobsOf o = s.jobsOf o := by
  cases hs with
  | other hsame hinfo hwalk hcollected htodo => exact hsame.jobsOf o
  | skip hjobs hsame => exact hsame.jobsOf o
  | cancel hjobs hlive hflag hfin hdep hsame => exact hsame.jobsOf o
  | pick m job ans hjobs hlive hflag hfin hdep hmachine huuid hpath hsame hnext =>
    exact hsame.jobsOf o
  | advance hsame hlate hlate' htarget => exact hsame.jobsOf o
  | abandon hsame hlate => exact hsame.jobsOf o
  | insertJob w i m job now => exact absurd rfl (hd w i m job)
  | _ => rfl

theorem DispatchPc.resume_drains {cfg : Config} {s s' : Shared} {held : InfoRef → Bool}
    {d d' : DispatchPc} {ans : Answer} (hres : d.resume cfg s held ans = some (s', d'))
    (hd : ∀ w i m job, d ≠ .realise w i (.sent m job)) : s.machines.Drains s'.machines := by
  have hjobs := (dispatchStep_of_resume hres).jobsOf_eq hd
  cases dispatchEffect_of_resume hres with
  | findFree required l nextUuid =>
    exact Machines.Drains.findFree s.machines (Shared.seconds ans.now) cfg.freeFn ans.disk
      ans.dyn required l
  | insertJob m job =>
    -- one more job, although no machine gets a job here
    have hlength := congrArg List.length (hjobs m)
    simp [Shared.jobsOf, Machines.modifyMachine, Machine.buildDrvSent_jobs] at hlength
  | _ => exact .refl _

theorem succeedStart_drains (s : Shared) (a : Attempt) (report : BuildReport) (ans : Answer) :
    s.machines.Drains (succeedStart s a report ans).1.machines := by
  unfold succeedStart
  cases hq : s.queues.removeJobFromScheduled a.drv with
  | none => exact .refl _
  | some res =>
    obtain ⟨item, queues⟩ := res
    have hremove := Machines.Drains.removeJob s.machines item.machine
      (Shared.seconds ans.now) a.drv
    simp only
    generalize s.machines.removeJob item.machine (Shared.seconds ans.now) a.drv = res at hremove ⊢
    obtain ⟨machines, job⟩ := res
    cases job <;> exact hremove

theorem failDecide_machines (cfg : Config) (s : Shared) (a : Attempt) (item : ScheduledItem)
    (job : Job) (state : BuildResultState) (timings : BuildTimings) (caller : Caller)
    (ans : Answer) :
    (failDecide cfg s a item job state timings caller ans).1.machines = s.machines := by
  unfold failDecide
  simp only
  split
  · rfl
  · split_ifs <;> rfl

theorem failStart_drains (cfg : Config) (s : Shared) (a : Attempt) (state : BuildResultState)
    (timings : BuildTimings) (caller : Caller) (ans : Answer) :
    s.machines.Drains (failStart cfg s a state timings caller ans).1.machines := by
  unfold failStart
  cases hq : s.queues.removeJobFromScheduled a.drv with
  | none => exact .refl _
  | some res =>
    obtain ⟨item, queues⟩ := res
    have hremove := Machines.Drains.removeJob s.machines item.machine
      (Shared.seconds ans.now) a.drv
    simp only
    generalize s.machines.removeJob item.machine (Shared.seconds ans.now) a.drv = res at hremove ⊢
    obtain ⟨machines, job⟩ := res
    cases job with
    | none => exact hremove
    | some job =>
      simp only [failDecide_machines]
      exact hremove

theorem CallTask.resume_drains {cfg : Config} {s : Shared} {held : InfoRef → Bool}
    {task : CallTask} {ans : Answer} {res : Shared × Option CallTask}
    (hres : task.resume cfg s held ans = some res) : s.machines.Drains res.1.machines := by
  cases task with
  | succeed a report pc =>
    cases hres
    cases pc with
    | start => exact succeedStart_drains s a report ans
    | removeJob item job =>
      simp only [succeedResume]
      split <;> exact .refl _
    | finishBuildStep item job =>
      simp only [succeedResume]
      split_ifs <;> exact .refl _
    | markSucceeded item direct =>
      simp only [succeedResume]
      split_ifs <;> exact .refl _
    | notify item =>
      simp only [succeedResume]
      split_ifs <;> exact .refl _
  | fail a pc caller =>
    cases hres
    cases pc with
    | start state timings => exact failStart_drains cfg s a state timings caller ans
    | retry item job => exact .refl _
    | removeJob item job =>
      refine .of_machine (congrArg Machines.machine ?_)
      show (InnerFail.start _ item.stepInfo.step job).1.machines = s.machines
      rw [InnerFail.start_shared]
    | inner item f =>
      refine .of_machine (congrArg Machines.machine ?_)
      have hresume : (f.resume s ans).1.machines = s.machines := by
        rw [InnerFail.resume_shared]
      simp only [failResume]
      split <;> rename_i heq <;> rw [heq] at hresume <;> exact hresume
  | killStart =>
    unfold CallTask.resume at hres
    split_ifs at hres
    cases hres
    exact .refl _
  | kill todo cancelled =>
    cases todo with
    | nil =>
      cases hres
      exact .refl _
    | cons e todo =>
      cases hres
      simp only [killResume]
      split_ifs
      · exact .refl _
      · exact .refl _
      · split <;> exact .refl _
  | killAbort a machine todo cancelled =>
    simp only [CallTask.resume] at hres
    split_ifs at hres <;> cases hres <;> exact .refl _
  | tunnelClose machine =>
    cases hres
    exact .closeReceiver s.machines machine

/-! ## The invariant -/

/-- The machine counts its jobs, and has no more than it may have. -/
structure Machine.WithinLimit (m : Machine) : Prop where
  counted : m.stats.currentJobs = m.jobs.length
  limit : m.jobs.length ≤ m.maxJobs

theorem Machine.WithinLimit.drains {m m' : Machine} (h : m.WithinLimit) (hm : m.Drains m') :
    m'.WithinLimit where
  counted := hm.counted h.counted
  limit := by
    rw [hm.maxJobs]
    exact hm.jobs.trans h.limit

/-- One more job than before. -/
theorem Machine.WithinLimit.buildDrvSent {m : Machine} (hroom : m.jobs.length < m.maxJobs)
    (now : Int) (job : Job) : (m.buildDrvSent now job).WithinLimit := by
  have hmax : (m.buildDrvSent now job).maxJobs = m.maxJobs := by
    unfold Machine.buildDrvSent
    split_ifs <;> rfl
  constructor
  · rw [buildDrvSent_currentJobs, buildDrvSent_jobs, List.length_append]
    rfl
  · rw [hmax, buildDrvSent_jobs, List.length_append]
    exact hroom

/-- A machine that is eligible has room, unless its load alone decides. -/
theorem Machines.room_of_eligible {ms : Machines} {now : Int} {freeFn : MachineFreeFn}
    {disk dyn : MachineRef → Bool} {required : List String} {m : MachineRef}
    (hfree : freeFn ≠ .dynamic)
    (h : ms.eligible now (some freeFn) disk dyn required m = true) :
    (ms.machine m).stats.currentJobs < (ms.machine m).maxJobs := by
  obtain ⟨hcapacity, -⟩ := Bool.and_eq_true_iff.mp h
  simp only [Machine.hasCapacity] at hcapacity
  split_ifs at hcapacity <;> cases freeFn <;>
    simp_all [Machine.hasStaticCapacity]

/-- No machine has more jobs than it may have, and the one of the attempt
can have another. -/
structure WithinLimits (r : Runner) : Prop where
  machines : ∀ m, (r.shared.machines.machine m).WithinLimit
  room : ∀ i m job, r.dispatcher.attempt = some (i, m, job) →
    r.dispatcher.inserted = false →
      (r.shared.machines.machine m).jobs.length < (r.shared.machines.machine m).maxJobs

namespace WithinLimits

variable {cfg : Config} {r r' : Runner}

theorem init : WithinLimits {} := by
  refine ⟨fun m => ⟨rfl, le_refl _⟩, ?_⟩
  simp [DispatchPc.attempt]

/-- No machine gets a job, and no attempt starts. -/
theorem of_drains (h : WithinLimits r)
    (hmachines : r.shared.machines.Drains r'.shared.machines)
    (hdispatcher : r'.dispatcher = r.dispatcher) : WithinLimits r' where
  machines m := (h.machines m).drains (hmachines m)
  room i m job ha hins := by
    rw [hdispatcher] at ha hins
    rw [(hmachines m).maxJobs]
    exact lt_of_le_of_lt (hmachines m).jobs (h.room i m job ha hins)

/-- A step of the dispatch loop. -/
theorem dispatch (h : WithinLimits r) (hfree : cfg.freeFn ≠ .dynamic) {ans : Answer}
    {s' : Shared} {d' : DispatchPc}
    (hres : r.dispatcher.resume cfg r.shared r.held ans = some (s', d')) :
    WithinLimits { r with shared := s', dispatcher := d' } := by
  by_cases hsent : ∃ w i m job, r.dispatcher = .realise w i (.sent m job)
  · obtain ⟨w, i, m, job, hd⟩ := hsent
    have hroom := h.room i m job (by rw [hd]; rfl) (by rw [hd]; rfl)
    rw [hd] at hres
    cases hres
    refine ⟨fun o => ?_, fun i' m' job' _ hins => by cases hins⟩
    show Machine.WithinLimit (Function.update r.shared.machines.machine m
      ((r.shared.machines.machine m).buildDrvSent (Shared.seconds ans.now) job) o)
    by_cases ho : o = m
    · subst ho
      rw [Function.update_self]
      exact .buildDrvSent hroom _ job
    · rw [Function.update_of_ne ho]
      exact h.machines o
  · have hdrains := DispatchPc.resume_drains hres fun w i m job hd => hsent ⟨w, i, m, job, hd⟩
    refine ⟨fun m => (h.machines m).drains (hdrains m), fun i m job ha hins => ?_⟩
    have hroom : (r.shared.machines.machine m).jobs.length <
        (r.shared.machines.machine m).maxJobs := by
      rcases DispatchPc.resume_picks hres ha with
        ⟨job', ha'⟩ | ⟨w, -, -, -, -, heligible⟩
      · refine h.room i m job' ha' ?_
        cases hins' : r.dispatcher.inserted with
        | false => rfl
        | true =>
          obtain ⟨w, hd⟩ := DispatchPc.eq_schedule_of_inserted hins' ha'
          rw [hd] at hres
          cases hres
          cases ha
      · rw [← (h.machines m).counted]
        exact Machines.room_of_eligible hfree heligible
    show (s'.machines.machine m).jobs.length < (s'.machines.machine m).maxJobs
    rw [(hdrains m).maxJobs]
    exact lt_of_le_of_lt (hdrains m).jobs hroom

/-- A machine registers without jobs. -/
theorem insertMachine (h : WithinLimits r) (hregistry : Registry r) (id : Uuid)
    (record : Machine) (sortFn : MachineSortFn) (hjobs : record.jobs = [])
    (hcounter : record.stats.currentJobs = 0)
    (hmachines : r'.shared.machines = (r.shared.machines.insertMachine id record sortFn).1)
    (hdispatcher : r'.dispatcher = r.dispatcher) : WithinLimits r' := by
  have hmachine : r'.shared.machines.machine =
      Function.update r.shared.machines.machine ⟨id, r.shared.machines.fresh⟩ record :=
    congrArg Machines.machine hmachines
  refine ⟨fun m => ?_, fun i m job ha hins => ?_⟩
  · rw [hmachine]
    by_cases hm : m = ⟨id, r.shared.machines.fresh⟩
    · rw [hm, Function.update_self]
      refine ⟨?_, ?_⟩
      · rw [hjobs, hcounter, List.length_nil]
      · rw [hjobs]
        exact Nat.zero_le _
    · rw [Function.update_of_ne hm]
      exact h.machines m
  · rw [hdispatcher] at ha hins
    have hm : m ≠ ⟨id, r.shared.machines.fresh⟩ := by
      intro heq
      have hgen := hregistry.attempt i m job ha
      rw [heq] at hgen
      exact lt_irrefl _ hgen
    rw [hmachine, Function.update_of_ne hm]
    exact h.room i m job ha hins

/-- Every step of the runner. -/
theorem step (h : WithinLimits r) (hok : RunnerOk cfg r) (hfree : cfg.freeFn ≠ .dynamic)
    {a : Action} (hs : RunnerStep cfg r a r') : WithinLimits r' := by
  cases hs with
  | dispatch hres => exact h.dispatch hfree hres
  | call ht hres => exact h.of_drains (CallTask.resume_drains hres) rfl
  | completeBuild uuid machineId state report =>
    obtain ⟨results, hshared, -⟩ := completeBuild_spec r.shared uuid machineId state report
    refine h.of_drains ?_ (r.spawn_dispatcher _)
    rw [Runner.spawn_shared, hshared]
    exact .refl _
  | @endStream m hm =>
    obtain ⟨machines, task, hshared, -, hmachine, -⟩ := endStream_spec r.shared m
    refine h.of_drains ?_ (Runner.spawn_dispatcher _ _)
    rw [Runner.spawn_shared, hshared]
    exact .of_machine hmachine
  | queueChange curIds =>
    refine h.of_drains ?_ (r.spawn_dispatcher _)
    rw [Runner.spawn_shared]
    exact .refl _
  | insertMachine id record sortFn =>
    exact h.insertMachine hok.registry id _ sortFn rfl rfl rfl rfl
  | _ => exact h.of_drains (.refl _) rfl

theorem reach (hfree : cfg.freeFn ≠ .dynamic) {ok : Runner → Action → Prop}
    (h : Lts.Reach (Runner.next cfg) ok {} r) : WithinLimits r := by
  refine h.invariant_of_reach init ?_
  intro r a r' hreach hr _ hnext
  exact hr.step (RunnerOk.reach hreach) hfree (runnerStep_of_next hnext)

end WithinLimits

/-- In every run in which the number of jobs limits the machines, no
machine ever has more jobs than it may have, and the counter that the test
reads is the number of its jobs. -/
theorem jobs_within_limit (cfg : Config) (hfree : cfg.freeFn ≠ .dynamic) (r : Runner)
    (h : Lts.Reach (Runner.next cfg) Lts.anyStep {} r) (m : MachineRef) :
    (r.shared.machines.machine m).stats.currentJobs =
        (r.shared.machines.machine m).jobs.length ∧
      (r.shared.machines.machine m).jobs.length ≤ (r.shared.machines.machine m).maxJobs :=
  ⟨((WithinLimits.reach hfree h).machines m).counted,
    ((WithinLimits.reach hfree h).machines m).limit⟩

/-- The machine has the one job that it may have. -/
theorem jobs_within_limit_sample : ∃ r : Runner,
    (r.shared.machines.machine Sample.machine).maxJobs = 1 ∧
      (r.shared.machines.machine Sample.machine).jobs ≠ [] ∧
      (r.shared.machines.machine Sample.machine).stats.currentJobs =
        (r.shared.machines.machine Sample.machine).jobs.length ∧
      (r.shared.machines.machine Sample.machine).jobs.length ≤
        (r.shared.machines.machine Sample.machine).maxJobs := by
  have hrun : (Lts.run (Runner.next Sample.config) {}
      (Sample.register :: Sample.created ++ Sample.sent ++ Sample.scheduled)).map
        (fun r => ((r.shared.machines.machine Sample.machine).maxJobs,
          (r.shared.machines.machine Sample.machine).jobs.isEmpty)) = some (1, false) := by
    decide +kernel
  obtain ⟨r, hr, hvalues⟩ := Option.map_eq_some_iff.mp hrun
  obtain ⟨hmax, hjobs⟩ := Prod.mk.inj hvalues
  refine ⟨r, hmax, fun hnil => ?_, jobs_within_limit Sample.config (by decide) r
    (Lts.reach_of_run hr) Sample.machine⟩
  rw [hnil] at hjobs
  cases hjobs

end QueueRunner
