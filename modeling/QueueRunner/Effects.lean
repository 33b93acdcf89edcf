import QueueRunner.Runner

/-!
# What a step does to the attempts

An attempt to build a derivation leaves its marks in four places: the
message to the builder, the job of the machine, the item in `scheduled`,
and the step info in the queues.  Most steps of the runner touch none of
them.  This module says once what the others do: `DispatchStep` for the
dispatch loop and `CallStep` for the calls that end attempts.  The
invariants about attempts are proved from these two relations and never
look into the functions again.

The other facts about the dispatch loop are proved from `DispatchEffect`,
the list of what it writes.
-/

namespace QueueRunner

/-- The jobs of a machine. -/
def Shared.jobsOf (s : Shared) (m : MachineRef) : List Job :=
  (s.machines.machine m).jobs

/-- The call has reached its attempt, whatever happened then. -/
def CallResult.applied : CallResult → Bool
  | .ok | .overhead | .database => true
  | .machineNotFound | .jobNotFound | .stepNotScheduled | .jobMissing => false

/-- A step that leaves the marks of all attempts alone, and in which no
call reports that it has not found its attempt. -/
structure SameMarks (s s' : Shared) : Prop where
  jobs : s'.queues.jobs = s.queues.jobs
  scheduled : s'.queues.scheduled = s.queues.scheduled
  fresh : s'.queues.fresh = s.queues.fresh
  queueJobs : ∀ system, s'.queues.queueJobs system = s.queues.queueJobs system
  flag : ∀ i, (s'.queues.info i).alreadyScheduled =
    (s.queues.info i).alreadyScheduled
  jobsOf : ∀ m, s'.jobsOf m = s.jobsOf m
  registry : s.machines.SameRegistry s'.machines
  sent : s'.log.sent = s.log.sent
  ended : s'.log.ended = s.log.ended
  reported : s'.log.reported = s.log.reported
  answers : ∀ e ∈ s'.log.results, e ∈ s.log.results ∨ e.2.applied = true
  nextUuid : s.nextUuid ≤ s'.nextUuid

namespace SameMarks

variable {s s' s'' : Shared}

theorem refl (s : Shared) : SameMarks s s :=
  ⟨rfl, rfl, rfl, fun _ => rfl, fun _ => rfl, fun _ => rfl, .refl _, rfl, rfl, rfl,
    fun _ => Or.inl, le_refl _⟩

theorem trans (h : SameMarks s s') (h' : SameMarks s' s'') : SameMarks s s'' where
  jobs := h'.jobs.trans h.jobs
  scheduled := h'.scheduled.trans h.scheduled
  fresh := h'.fresh.trans h.fresh
  queueJobs system := (h'.queueJobs system).trans (h.queueJobs system)
  flag i := (h'.flag i).trans (h.flag i)
  jobsOf m := (h'.jobsOf m).trans (h.jobsOf m)
  registry := h.registry.trans h'.registry
  sent := h'.sent.trans h.sent
  ended := h'.ended.trans h.ended
  reported := h'.reported.trans h.reported
  answers e he := (h'.answers e he).elim (h.answers e) Or.inr
  nextUuid := h.nextUuid.trans h'.nextUuid

theorem of_graph (s : Shared) (g : Graph) : SameMarks s { s with graph := g } :=
  ⟨rfl, rfl, rfl, fun _ => rfl, fun _ => rfl, fun _ => rfl, .refl _, rfl, rfl, rfl,
    fun _ => Or.inl, le_refl _⟩

theorem of_record (s : Shared) (uuid : Uuid) {r : CallResult}
    (hr : r.applied = true) : SameMarks s (s.record uuid r) := by
  refine ⟨rfl, rfl, rfl, fun _ => rfl, fun _ => rfl, fun _ => rfl, .refl _, rfl, rfl, rfl,
    fun e he => ?_, le_refl _⟩
  rcases List.mem_cons.mp he with rfl | he
  · exact Or.inr hr
  · exact Or.inl he

theorem of_machines {machines : Machines}
    (h : ∀ m, (machines.machine m).jobs = s.jobsOf m)
    (hregistry : s.machines.SameRegistry machines) :
    SameMarks s { s with machines := machines } :=
  ⟨rfl, rfl, rfl, fun _ => rfl, fun _ => rfl, h, hregistry, rfl, rfl, rfl, fun _ => Or.inl,
    le_refl _⟩

theorem of_nextUuid (s : Shared) :
    SameMarks s { s with nextUuid := s.nextUuid + 1 } :=
  ⟨rfl, rfl, rfl, fun _ => rfl, fun _ => rfl, fun _ => rfl, .refl _, rfl, rfl, rfl,
    fun _ => Or.inl, Nat.le_succ _⟩

end SameMarks

/-! ## Functions that leave the marks alone -/

/-- `inner_fail_job` only changes the step graph. -/
theorem InnerFail.loopHead_shared (s : Shared) (step : StepRef) (job : Job)
    (stepFinished : Bool) :
    (loopHead s step job stepFinished).1 =
      { s with graph := (s.graph.getAllIndirectBuilds step).1 } := by
  unfold loopHead
  split
  split_ifs <;> simp_all

theorem InnerFail.start_shared (s : Shared) (step : StepRef) (job : Job) :
    (start s step job).1 = { s with graph := (start s step job).1.graph } := by
  unfold start
  split_ifs
  · rfl
  · rw [loopHead_shared]

theorem InnerFail.resume_shared (s : Shared) (f : InnerFail) (ans : Answer) :
    (f.resume s ans).1 = { s with graph := (f.resume s ans).1.graph } := by
  unfold resume
  cases f.pc with
  | finishBuildStep => by_cases hok : ans.ok <;> simp [hok, loopHead_shared]
  | mark indirect => by_cases hok : ans.ok <;> simp [hok, loopHead_shared]
  | notify => rfl

theorem InnerFail.start_sameMarks (s : Shared) (step : StepRef) (job : Job) :
    SameMarks s (start s step job).1 := by
  rw [start_shared]
  exact .of_graph s _

theorem InnerFail.resume_sameMarks (s : Shared) (f : InnerFail) (ans : Answer) :
    SameMarks s (f.resume s ans).1 := by
  rw [resume_shared]
  exact .of_graph s _

theorem Machines.findFree_jobs (ms : Machines) (now : Int)
    (freeFn : MachineFreeFn) (disk dyn : MachineRef → Bool)
    (required : List String) (l : List MachineRef) (m : MachineRef) :
    ((ms.findFree now freeFn disk dyn required l).1.machine m).jobs =
      (ms.machine m).jobs := by
  induction l generalizing ms with
  | nil => rfl
  | cons o l ih =>
    have hone : ∀ m, ((ms.modifyMachine o (fun _ =>
        ((ms.machine o).hasCapacity now freeFn (disk o) (dyn o)).1)).machine m).jobs =
        (ms.machine m).jobs := by
      intro m
      by_cases h : m = o
      · subst h
        simp [modifyMachine, Machine.hasCapacity_jobs]
      · simp [modifyMachine, h]
    unfold findFree
    simp only
    split_ifs
    · exact hone m
    · rw [ih, hone m]

/-- The machine that is found is one of those looked at. -/
theorem Machines.findFree_mem {ms : Machines} {now : Int}
    {freeFn : MachineFreeFn} {disk dyn : MachineRef → Bool}
    {required : List String} {l : List MachineRef} {m : MachineRef}
    (h : (ms.findFree now freeFn disk dyn required l).2 = some m) : m ∈ l := by
  induction l generalizing ms with
  | nil => simp [findFree] at h
  | cons o l ih =>
    unfold findFree at h
    simp only at h
    split_ifs at h
    · simp_all
    · exact List.mem_cons_of_mem _ (ih h)

/-! ## The dispatch loop -/

/-- What a step of the dispatch loop does to the shared state.  Where it is in
its code is left out. -/
inductive DispatchEffect (cfg : Config) (s : Shared) (held : InfoRef → Bool) (ans : Answer) :
    Shared → Prop where
  | same : DispatchEffect cfg s held ans s
  | cloneRunnable :
      DispatchEffect cfg s held ans { s with graph := s.graph.cloneRunnable.1 }
  | insertNewJobs (system : System) (jobs : List (StepRef × StepInfo)) (now : Timestamp) :
      DispatchEffect cfg s held ans { s with
        queues := s.queues.insertNewJobs held (fun r => (s.graph.step r).finished) ans.cmp
          system jobs now }
  | removeAllWeakPointer :
      DispatchEffect cfg s held ans { s with queues := s.queues.removeAllWeakPointer held }
  | findFree (required : List String) (l : List MachineRef) (nextUuid : Uuid) :
      DispatchEffect cfg s held ans { s with
        machines := (s.machines.findFree (Shared.seconds ans.now) cfg.freeFn ans.disk ans.dyn
          required l).1
        nextUuid := nextUuid }
  /-- `inner_fail_job` is called. -/
  | innerFail (nextUuid : Uuid) (step : StepRef) (job : Job) :
      DispatchEffect cfg s held ans { s with
        graph := (InnerFail.start { s with nextUuid := nextUuid } step job).1.graph
        nextUuid := nextUuid }
  | innerResume (f : InnerFail) :
      DispatchEffect cfg s held ans { s with graph := (f.resume s ans).1.graph }
  | send (e : Uuid × InfoRef × MachineRef) :
      DispatchEffect cfg s held ans { s with log := { s.log with sent := e :: s.log.sent } }
  | insertJob (m : MachineRef) (job : Job) :
      DispatchEffect cfg s held ans { s with
        machines := s.machines.modifyMachine m (fun r =>
          r.buildDrvSent (Shared.seconds ans.now) job) }
  | schedule (i : InfoRef) (system : System) (m : MachineRef) :
      DispatchEffect cfg s held ans { s with queues := s.queues.addJobToScheduled i system m }
  | remove (i : InfoRef) (system : System) :
      DispatchEffect cfg s held ans { s with queues := s.queues.removeJob held i system }
  | supported (r : StepRef) :
      DispatchEffect cfg s held ans { s with graph := s.graph.setLastSupportedNow r ans.now }
  | removeByPath (drv : StorePath) :
      DispatchEffect cfg s held ans { s with queues := s.queues.removeJobByPath drv }

section

variable (cfg : Config) (s : Shared) (held : InfoRef → Bool) (ans : Answer)

theorem InnerFail.start_effect (step : StepRef) (job : Job) :
    DispatchEffect cfg s held ans (InnerFail.start s step job).1 := by
  rw [InnerFail.start_shared]
  exact .innerFail s.nextUuid step job

theorem InnerFail.resume_effect (f : InnerFail) :
    DispatchEffect cfg s held ans (f.resume s ans).1 := by
  rw [InnerFail.resume_shared]
  exact .innerResume f

theorem walkStep_effect (w : Walk) (i : InfoRef) :
    DispatchEffect cfg s held ans (walkStep cfg s held w i ans).1 := by
  unfold walkStep realiseStart
  split_ifs
  · exact .same
  · exact .same
  · exact .same
  · exact .same
  · simp only
    split
    · exact .findFree _ _ s.nextUuid
    · split
      · exact .findFree _ _ s.nextUuid
      · exact .findFree _ _ (s.nextUuid + 1)

theorem realiseResume_effect (w : Walk) (i : InfoRef) (pc : RealisePc) :
    DispatchEffect cfg s held ans (realiseResume s held w i pc ans).1 := by
  cases pc with
  | checkCached m job =>
    simp only [realiseResume]
    split_ifs
    · exact InnerFail.start_effect ..
    · exact .same
  | cachedFailure f =>
    have h := InnerFail.resume_effect cfg s held ans f
    simp only [realiseResume]
    split <;> rename_i heq <;> rw [heq] at h <;> exact h
  | prepare m job =>
    simp only [realiseResume]
    split_ifs <;> exact .same
  | send m job =>
    simp only [realiseResume]
    split_ifs
    · exact .send _
    · exact .same
  | sent m job => exact .insertJob m job
  | schedule m job => exact .schedule i w.system m
  | remove => exact .remove i w.system

theorem abortStep_effect (now : Timestamp) (todo aborted : List StepRef) (r : StepRef) :
    DispatchEffect cfg s held ans (abortStep cfg s now todo aborted r ans).1 := by
  unfold abortStep
  split_ifs
  · exact .supported r
  · exact .same
  · simp only
    split
    · exact .same
    · rw [InnerFail.start_shared]
      exact .innerFail (s.nextUuid + 1) r _

end

/-- One step of the dispatch loop has one effect. -/
theorem dispatchEffect_of_resume {cfg : Config} {s s' : Shared} {held : InfoRef → Bool}
    {d d' : DispatchPc} {ans : Answer} (h : d.resume cfg s held ans = some (s', d')) :
    DispatchEffect cfg s held ans s' := by
  unfold DispatchPc.resume at h
  cases d with
  | idle =>
    simp only at h
    split_ifs at h
    cases h
    exact .cloneRunnable
  | collect now todo queues => cases todo <;> cases h <;> exact .same
  | insert now queues =>
    simp only at h
    split_ifs at h
    · cases h
      exact .same
    · split at h <;> cases h
      exact .insertNewJobs _ _ now
  | scrub =>
    cases h
    exact .removeAllWeakPointer
  | process =>
    simp only at h
    split_ifs at h
    split at h <;> cases h <;> exact .same
  | walk w =>
    simp only at h
    split at h
    · split_ifs at h
      cases h
      exact .cloneRunnable
    · cases h
      exact .same
    · rename_i i jobs hjobs
      have hwalk := walkStep_effect cfg s held ans { w with jobs := jobs } i
      rwa [Option.some.inj h] at hwalk
  | realise w i pc =>
    have hrealise := realiseResume_effect cfg s held ans w i pc
    rwa [Option.some.inj h] at hrealise
  | abort now todo aborted =>
    cases todo with
    | nil =>
      cases h
      exact .same
    | cons r todo =>
      have habort := abortStep_effect cfg s held ans now todo aborted r
      rwa [Option.some.inj h] at habort
  | abortFail now todo aborted f =>
    have hresume := InnerFail.resume_effect cfg s held ans f
    simp only at h
    split at h <;> rename_i heq <;> rw [heq] at hresume <;> cases h <;> exact hresume
  | abortRemove aborted =>
    simp only at h
    split_ifs at h
    · cases h
      exact .same
    · cases h
      exact .removeByPath ans.step.drvPath
  | abortScrub =>
    cases h
    exact .removeAllWeakPointer

/-- Where `process` is, when it runs. -/
def DispatchPc.walk? : DispatchPc → Option Walk
  | .walk w | .realise w _ _ => some w
  | _ => none

/-- The jobs that wait for their insertion. -/
def DispatchPc.collected : DispatchPc → NewQueues
  | .collect _ _ queues | .insert _ queues => queues
  | _ => ∅

/-- The steps that the collection has not looked at. -/
def DispatchPc.todo : DispatchPc → List StepRef
  | .collect _ todo _ => todo
  | _ => []

/-- The attempt has been sent and its item is not in `scheduled` yet. -/
def RealisePc.late : RealisePc → Bool
  | .sent _ _ | .schedule _ _ => true
  | _ => false

/-- What a step of the dispatch loop does. -/
inductive DispatchStep (s : Shared) (held : InfoRef → Bool) :
    DispatchPc → Shared → DispatchPc → Prop where
  /-- A step outside of `process` without an effect on the attempts. -/
  | other {d d' : DispatchPc} {s' : Shared} (hsame : SameMarks s s')
      (hinfo : d.info = none) (hwalk : d'.walk? = none)
      (hcollected : d'.collected = ∅ ∨ d'.collected = d.collected)
      (htodo : ∀ x ∈ d'.todo, (s.graph.step x).runnable = true ∧
        (s.graph.step x).alive = true ∧ ∃ p, s.graph.steps.lookup p = some x) :
      DispatchStep s held d s' d'
  | collect (now : Timestamp) (r : StepRef) (todo : List StepRef)
      (queues : NewQueues) (ans : Answer) :
      DispatchStep s held (.collect now (r :: todo) queues) s
        (.collect now todo (collectStep s.graph ans queues r))
  | insert (now : Timestamp) (queues : NewQueues) (system : System)
      (jobs : List (StepRef × StepInfo)) (cmp : InfoRef → InfoRef → Ordering)
      (hjobs : queues.lookup system = some jobs) :
      DispatchStep s held (.insert now queues)
        { s with
          queues := s.queues.insertNewJobs held
            (fun r => (s.graph.step r).finished) cmp system jobs now }
        (.insert now (queues.erase system))
  | scrub {d d' : DispatchPc} (hinfo : d.info = none) (hwalk : d'.walk? = none)
      (hcollected : d'.collected = ∅) (htodo : d'.todo = []) :
      DispatchStep s held d
        { s with queues := s.queues.removeAllWeakPointer held } d'
  | snapshot {d : DispatchPc} (w : Walk) (hinfo : d.info = none)
      (hjobs : w.jobs = s.queues.queueJobs w.system ∨ w.jobs = []) :
      DispatchStep s held d s (.walk w)
  | skip {s' : Shared} {w : Walk} {i : InfoRef} {jobs : List InfoRef}
      (hjobs : w.jobs = i :: jobs) (hsame : SameMarks s s') :
      DispatchStep s held (.walk w) s' (.walk { w with jobs := jobs })
  /-- A job is chosen, and no build depends on it any more. -/
  | cancel {s' : Shared} {w : Walk} {i : InfoRef} {jobs : List InfoRef}
      (hjobs : w.jobs = i :: jobs) (hlive : s.queues.live held i = true)
      (hflag : (s.queues.info i).alreadyScheduled = false)
      (hfin : (s.graph.step i.step).finished = false)
      (hdep : (s.graph.getDependents i.step).builds = [])
      (hsame : SameMarks s s') :
      DispatchStep s held (.walk w) s'
        (.realise { w with jobs := jobs } i .remove)
  /-- A job is chosen together with a machine. -/
  | pick {s' : Shared} {w : Walk} {i : InfoRef} {jobs : List InfoRef}
      (m : MachineRef) (job : Job) (ans : Answer)
      (hjobs : w.jobs = i :: jobs) (hlive : s.queues.live held i = true)
      (hflag : (s.queues.info i).alreadyScheduled = false)
      (hfin : (s.graph.step i.step).finished = false)
      (hdep : (s.graph.getDependents i.step).builds ≠ [])
      (hmachine : m ∈ s.machines.candidates w.system ans.machines)
      (huuid : job.internalBuildId = s.nextUuid) (hpath : job.path = i.drvPath)
      (hsame : SameMarks s s') (hnext : s'.nextUuid = s.nextUuid + 1) :
      DispatchStep s held (.walk w) s'
        (.realise { w with jobs := jobs } i (.checkCached m job))
  /-- The realisation goes on, with the same attempt if there is one. -/
  | advance {s' : Shared} {w : Walk} {i : InfoRef} {pc pc' : RealisePc}
      (hsame : SameMarks s s') (hlate : pc.late = false)
      (hlate' : pc'.late = false)
      (htarget : ∀ m job', pc'.target = some (m, job') →
        ∃ job, pc.target = some (m, job) ∧
          job'.internalBuildId = job.internalBuildId ∧ job'.path = job.path) :
      DispatchStep s held (.realise w i pc) s' (.realise w i pc')
  | abandon {s' : Shared} {w : Walk} {i : InfoRef} {pc : RealisePc}
      (hsame : SameMarks s s') (hlate : pc.late = false) :
      DispatchStep s held (.realise w i pc) s' (.walk w)
  | send (w : Walk) (i : InfoRef) (m : MachineRef) (job : Job)
      (hopen : (s.machines.machine m).receiverOpen = true) :
      DispatchStep s held (.realise w i (.send m job))
        { s with
          log := { s.log with
            sent := (job.internalBuildId, i, m) :: s.log.sent } }
        (.realise w i (.sent m job))
  | insertJob (w : Walk) (i : InfoRef) (m : MachineRef) (job : Job) (now : Int) :
      DispatchStep s held (.realise w i (.sent m job))
        { s with
          machines := s.machines.modifyMachine m (fun r =>
            r.buildDrvSent now job) }
        (.realise w i (.schedule m job))
  | schedule (w : Walk) (i : InfoRef) (m : MachineRef) (job : Job) :
      DispatchStep s held (.realise w i (.schedule m job))
        { s with queues := s.queues.addJobToScheduled i w.system m } (.walk w)
  | remove (w : Walk) (i : InfoRef) :
      DispatchStep s held (.realise w i .remove)
        { s with queues := s.queues.removeJob held i w.system } (.walk w)
  | removeByPath {d d' : DispatchPc} (drv : StorePath) (hinfo : d.info = none)
      (hwalk : d'.walk? = none) (hcollected : d'.collected = ∅)
      (htodo : d'.todo = []) (hd : ∃ aborted, d = .abortRemove aborted) :
      DispatchStep s held d
        { s with queues := s.queues.removeJobByPath drv } d'

/-- A job can be accounted to any of its builds. -/
theorem pickBuild_eq_none {builds : List BuildRef} {drv : StorePath}
    {choice : BuildRef} (h : pickBuild builds drv choice = none) :
    builds = [] := by
  unfold pickBuild at h
  split at h
  · cases h
  · split_ifs at h
    exact List.head?_eq_none_iff.mp h

/-- A turn of `process` for one pointer. -/
theorem walkStep_dispatchStep (cfg : Config) (s : Shared)
    (held : InfoRef → Bool) (w : Walk) (i : InfoRef) (jobs : List InfoRef)
    (hjobs : w.jobs = i :: jobs) (ans : Answer) :
    DispatchStep s held (.walk w)
      (walkStep cfg s held { w with jobs := jobs } i ans).1
      (walkStep cfg s held { w with jobs := jobs } i ans).2 := by
  unfold walkStep
  by_cases hlive : s.queues.live held i = false
  · rw [if_pos hlive]
    exact .skip hjobs (.refl s)
  by_cases hflag : (s.queues.info i).alreadyScheduled = true
  · rw [if_neg hlive, if_pos hflag]
    exact .skip hjobs (.refl s)
  by_cases hfin : (s.graph.step i.step).finished = true
  · rw [if_neg hlive, if_neg hflag, if_pos hfin]
    exact .skip hjobs (.refl s)
  by_cases hafter : w.now < (s.graph.step i.step).after
  · rw [if_neg hlive, if_neg hflag, if_neg hfin, if_pos hafter]
    exact .skip hjobs (.refl s)
  rw [if_neg hlive, if_neg hflag, if_neg hfin, if_neg hafter]
  rw [Bool.not_eq_false] at hlive
  rw [Bool.not_eq_true] at hflag hfin
  unfold realiseStart
  simp only
  generalize hfree : s.machines.findFree (Shared.seconds ans.now) cfg.freeFn
    ans.disk ans.dyn (s.graph.getRequiredFeatures i.step)
    (s.machines.candidates w.system ans.machines) = res
  have hsame : SameMarks s { s with machines := res.1 } := by
    refine SameMarks.of_machines (fun m => ?_) ?_
    · rw [← hfree, Machines.findFree_jobs]
      rfl
    · rw [← hfree]
      exact .findFree ..
  obtain ⟨machines, found⟩ := res
  cases found with
  | none => exact .skip hjobs hsame
  | some m =>
    have hm : m ∈ s.machines.candidates w.system ans.machines :=
      Machines.findFree_mem (by rw [hfree])
    cases hpick : pickBuild (s.graph.getDependents i.step).builds i.drvPath
        ans.build with
    | none =>
      refine .cancel hjobs hlive hflag hfin ?_ hsame
      exact pickBuild_eq_none hpick
    | some b =>
      refine .pick m _ ans hjobs hlive hflag hfin ?_ hm rfl rfl ?_ rfl
      · intro hnil
        simp [pickBuild, hnil] at hpick
      · exact hsame.trans (.of_nextUuid _)

/-- A step of the realisation of one job. -/
theorem realiseResume_dispatchStep (s : Shared) (held : InfoRef → Bool)
    (w : Walk) (i : InfoRef) (pc : RealisePc) (ans : Answer) :
    DispatchStep s held (.realise w i pc) (realiseResume s held w i pc ans).1
      (realiseResume s held w i pc ans).2 := by
  cases pc with
  | checkCached m job =>
    simp only [realiseResume]
    split_ifs
    · exact .advance (InnerFail.start_sameMarks ..) rfl rfl (by simp [RealisePc.target])
    · exact .advance (.refl s) rfl rfl (by simp [RealisePc.target])
  | cachedFailure f =>
    have hsame := InnerFail.resume_sameMarks s f ans
    simp only [realiseResume]
    split <;> rename_i heq <;> rw [heq] at hsame
    · exact .advance hsame rfl rfl (by simp [RealisePc.target])
    · exact .advance hsame rfl rfl (by simp [RealisePc.target])
    · exact .abandon hsame rfl
  | prepare m job =>
    simp only [realiseResume]
    split_ifs
    · exact .advance (.refl s) rfl rfl (by simp [RealisePc.target])
    · exact .abandon (.refl s) rfl
  | send m job =>
    simp only [realiseResume]
    split_ifs with hopen
    · exact .send w i m job hopen
    · exact .abandon (.refl s) rfl
  | sent m job => exact .insertJob w i m job _
  | schedule m job => exact .schedule w i m job
  | remove => exact .remove w i

/-- A turn of the first loop of `abort_unsupported`. -/
theorem abortStep_dispatchStep (cfg : Config) (s : Shared)
    (held : InfoRef → Bool) (now : Timestamp) (todo aborted : List StepRef)
    (r : StepRef) (ans : Answer) :
    DispatchStep s held (.abort now (r :: todo) aborted)
      (abortStep cfg s now todo aborted r ans).1
      (abortStep cfg s now todo aborted r ans).2 := by
  unfold abortStep
  split_ifs
  · exact .other (.of_graph s _) rfl rfl (Or.inl rfl) (by simp [DispatchPc.todo])
  · exact .other (.refl s) rfl rfl (Or.inl rfl) (by simp [DispatchPc.todo])
  · simp only
    split
    · exact .other (.refl s) rfl rfl (Or.inl rfl) (by simp [DispatchPc.todo])
    · exact .other ((SameMarks.of_nextUuid s).trans
        (InnerFail.start_sameMarks ..)) rfl rfl (Or.inl rfl)
        (by simp [DispatchPc.todo])

/-- Every step of the dispatch loop is one of the relation. -/
theorem dispatchStep_of_resume {cfg : Config} {s s' : Shared}
    {held : InfoRef → Bool} {d d' : DispatchPc} {ans : Answer}
    (h : d.resume cfg s held ans = some (s', d')) :
    DispatchStep s held d s' d' := by
  unfold DispatchPc.resume at h
  cases d with
  | idle =>
    simp only at h
    split_ifs at h with hperm
    cases h
    refine .other (.of_graph s _) rfl rfl (Or.inl rfl) fun x hx => ?_
    -- the entries that `clone_runnable` keeps
    have hx := (List.mem_filter.mp (hperm.mem_iff.mp hx))
    obtain ⟨p, hp⟩ := Map.mem_values_iff.mp hx.1
    rw [Map.lookup_retain] at hp
    obtain ⟨hp, halive⟩ := Option.filter_eq_some_iff.mp hp
    exact ⟨hx.2, halive, p, hp⟩
  | collect now todo queues =>
    cases todo with
    | nil =>
      cases h
      exact .other (.refl s) rfl rfl (Or.inr rfl) (by simp [DispatchPc.todo])
    | cons r todo =>
      cases h
      exact .collect now r todo queues ans
  | insert now queues =>
    simp only at h
    split_ifs at h
    · cases h
      exact .other (.refl s) rfl rfl (Or.inl rfl) (by simp [DispatchPc.todo])
    · split at h
      · cases h
      · rename_i jobs hjobs
        cases h
        exact .insert now queues _ jobs _ hjobs
  | scrub =>
    cases h
    exact .scrub rfl rfl rfl rfl
  | process =>
    simp only at h
    split_ifs at h
    split at h
    · cases h
      exact .snapshot _ rfl (Or.inr rfl)
    · cases h
      exact .snapshot _ rfl (Or.inl rfl)
  | walk w =>
    simp only at h
    split at h
    · split_ifs at h
      cases h
      exact .other (.of_graph s _) rfl rfl (Or.inl rfl) (by simp [DispatchPc.todo])
    · cases h
      exact .snapshot _ rfl (Or.inl rfl)
    · rename_i i jobs hjobs
      simp only [Option.some.injEq] at h
      have hstep := walkStep_dispatchStep cfg s held w i jobs hjobs ans
      rwa [h] at hstep
  | realise w i pc =>
    simp only [Option.some.injEq] at h
    have hstep := realiseResume_dispatchStep s held w i pc ans
    rwa [h] at hstep
  | abort now todo aborted =>
    cases todo with
    | nil =>
      cases h
      exact .other (.refl s) rfl rfl (Or.inl rfl) (by simp [DispatchPc.todo])
    | cons r todo =>
      simp only [Option.some.injEq] at h
      have hstep := abortStep_dispatchStep cfg s held now todo aborted r ans
      rwa [h] at hstep
  | abortFail now todo aborted f =>
    have hsame := InnerFail.resume_sameMarks s f ans
    simp only at h
    split at h <;> rename_i heq <;> rw [heq] at hsame <;> cases h
    · exact .other hsame rfl rfl (Or.inl rfl) (by simp [DispatchPc.todo])
    · exact .other hsame rfl rfl (Or.inl rfl) (by simp [DispatchPc.todo])
  | abortRemove aborted =>
    simp only at h
    split_ifs at h
    · cases h
      exact .other (.refl s) rfl rfl (Or.inl rfl) (by simp [DispatchPc.todo])
    · cases h
      exact .removeByPath _ rfl rfl rfl rfl ⟨aborted, rfl⟩
  | abortScrub =>
    cases h
    exact .scrub rfl rfl rfl rfl

/-! ## The calls that end attempts -/

/-- The item of a derivation leaves `scheduled` and its job the machine. -/
structure EndsAttempt (s s' : Shared) (drv : StorePath) (item : ScheduledItem)
    (job : Job) : Prop where
  unscheduled : InnerQueues.Unscheduled s.queues drv item s'.queues
  found : (s.jobsOf item.machine).find? (fun j => j.path == drv) = some job
  jobsOf : ∀ m, s'.jobsOf m =
    if m = item.machine then (s.jobsOf m).filter (fun j => j.path != drv)
    else s.jobsOf m
  registry : s.machines.SameRegistry s'.machines
  sent : s'.log.sent = s.log.sent
  ended : s'.log.ended = job.internalBuildId :: s.log.ended
  reported : s'.log.reported = s.log.reported
  answers : ∀ e ∈ s'.log.results, e ∈ s.log.results ∨ e.2.applied = true
  nextUuid : s'.nextUuid = s.nextUuid

/-- A machine has a job for an attempt. -/
def Shared.HasJob (s : Shared) (a : Attempt) : Prop :=
  ∃ m j, m.id = a.machineId ∧ j ∈ s.jobsOf m ∧ j.internalBuildId = a.uuid ∧
    j.path = a.drv

/-- The task runs `kill_active_steps`, which drops an attempt when the abort
message cannot be sent. -/
def CallTask.isKill : CallTask → Bool
  | .killStart | .kill _ _ | .killAbort _ _ _ _ => true
  | _ => false

/-- The item whose job the task takes out of the queue when it is resumed. -/
def CallTask.removes : CallTask → Option ScheduledItem
  | .succeed _ _ (.removeJob item _) | .fail _ (.removeJob item _) _ => some item
  | _ => none

/-- What a step of a call does.  The last argument is the task after the
step, if it has not returned. -/
inductive CallStep (s : Shared) (held : InfoRef → Bool) :
    CallTask → Shared → Option CallTask → Prop where
  /-- No attempt ends.  The task may pick up items of `scheduled` and
  attempts that it will end later. -/
  | quiet {t : CallTask} {s' : Shared} {t' : Option CallTask}
      (hstart : t.starting = none) (hsame : SameMarks s s')
      (hinfos : ∀ u ∈ t', ∀ i ∈ u.infos, i ∈ t.infos ∨
        ∃ drv item, s.queues.scheduled.lookup drv = some item ∧ item.stepInfo = i)
      (hpending : ∀ u ∈ t', ∀ a ∈ u.pending, a ∈ t.pending ∨ s.HasJob a)
      (hkeeps : (∀ a ∈ t.pending, ∃ u ∈ t', a ∈ u.pending) ∨ t.isKill = true) :
      CallStep s held t s' t'
  /-- The derivation is not in `scheduled`. -/
  | missing {t : CallTask} {t' : Option CallTask} (a : Attempt)
      (rest : List Attempt) (hstart : t.starting = some a)
      (ht : t.pending = a :: rest)
      (hlookup : s.queues.scheduled.lookup a.drv = none)
      (hinfos : ∀ u ∈ t', u.infos = []) (hpending : ∀ u ∈ t', u.pending = rest)
      (hlast : t' = none → rest = []) :
      CallStep s held t (s.record a.uuid .stepNotScheduled) t'
  | ends {t : CallTask} {s' : Shared} {t' : Option CallTask} (a : Attempt)
      (rest : List Attempt) (item : ScheduledItem) (job : Job)
      (hstart : t.starting = some a) (ht : t.pending = a :: rest)
      (hends : EndsAttempt s s' a.drv item job)
      (hinfos : ∀ u ∈ t', ∀ i ∈ u.infos, i = item.stepInfo)
      (hpending : ∀ u ∈ t', u.pending = rest) (hlast : t' = none → rest = []) :
      CallStep s held t s' t'
  /-- The item is found, and its machine has no job for it. -/
  | jobMissing {t : CallTask} {s' : Shared} {t' : Option CallTask} (a : Attempt)
      (rest : List Attempt) (item : ScheduledItem)
      (hstart : t.starting = some a) (ht : t.pending = a :: rest)
      (hitem : s.queues.scheduled.lookup a.drv = some item)
      (hjob : (s.jobsOf item.machine).find? (fun j => j.path == a.drv) = none) :
      CallStep s held t s' t'
  | removeJob {t : CallTask} {s' : Shared} {t' : Option CallTask}
      (i : InfoRef) (system : System) (hstart : t.starting = none)
      (ht : i ∈ t.infos)
      (hremoved : SameMarks
        { s with queues := s.queues.removeJob held i system } s')
      (hinfos : ∀ u ∈ t', ∀ i ∈ u.infos, i ∈ t.infos)
      (hpending : ∀ u ∈ t', u.pending = t.pending)
      (hlast : t' = none → t.pending = [])
      (hremoves : ∃ item, t.removes = some item ∧ item.stepInfo = i) :
      CallStep s held t s' t'

/-- A step after which the task holds no more than before and still has to
end the same attempts. -/
theorem CallStep.narrow {s s' : Shared} {held : InfoRef → Bool}
    {t u : CallTask} (hstart : t.starting = none) (hsame : SameMarks s s')
    (hinfos : u.infos ⊆ t.infos) (hpending : u.pending = t.pending) :
    CallStep s held t s' (some u) := by
  refine .quiet hstart hsame ?_ ?_ (Or.inl fun a ha => ⟨u, rfl, hpending ▸ ha⟩)
  · rintro _ ⟨⟩ i hi
    exact Or.inl (hinfos hi)
  · rintro _ ⟨⟩ a ha
    exact Or.inl (hpending ▸ ha)

/-- The task returns, with no attempt left to end. -/
theorem CallStep.returns {s s' : Shared} {held : InfoRef → Bool} {t : CallTask}
    (hstart : t.starting = none) (hsame : SameMarks s s') (hpending : t.pending = []) :
    CallStep s held t s' none := by
  refine .quiet hstart hsame (by simp) (by simp) (Or.inl fun a ha => ?_)
  rw [hpending] at ha
  cases ha

/-- The items and jobs after a removal from both. -/
theorem endsAttempt_of_removeJob {s : Shared} {drv : StorePath}
    {item : ScheduledItem} {queues : InnerQueues} {machines : Machines}
    {job : Job} {now : Int} {g : Graph} {log : Log}
    (hq : s.queues.removeJobFromScheduled drv = some (item, queues))
    (hm : s.machines.removeJob item.machine now drv = (machines, some job))
    (hsent : log.sent = s.log.sent) (hended : log.ended = s.log.ended)
    (hreported : log.reported = s.log.reported)
    (hresults : log.results = s.log.results) :
    EndsAttempt s
      (({ s with
          queues := queues, graph := g, machines := machines
          log := log } : Shared).endAttempt job)
      drv item job := by
  have hregistry : s.machines.SameRegistry machines := by
    have h := Machines.SameRegistry.removeJob s.machines item.machine now drv
    rwa [hm] at h
  simp only [Machines.removeJob, Machine.removeJob, Prod.mk.injEq] at hm
  obtain ⟨rfl, hjob⟩ := hm
  refine
    { unscheduled := InnerQueues.unscheduled_of_removeJobFromScheduled hq
      found := hjob, jobsOf := fun m => ?_
      registry := hregistry
      sent := hsent
      ended := by simp [Shared.endAttempt, hended]
      reported := hreported
      answers := fun e he => Or.inl (hresults ▸ he)
      nextUuid := rfl }
  by_cases h : m = item.machine
  · subst h
    simp [Shared.jobsOf, Shared.endAttempt, Machines.modifyMachine]
  · simp [Shared.jobsOf, Shared.endAttempt, Machines.modifyMachine, h]

/-- What `fail_step` does after it has ended the attempt keeps the marks. -/
theorem EndsAttempt.trans {s s' s'' : Shared} {drv : StorePath}
    {item : ScheduledItem} {job : Job} (h : EndsAttempt s s' drv item job)
    (h' : SameMarks s' s'') (hinfo : s''.queues.info = s'.queues.info)
    (hnext : s''.nextUuid = s'.nextUuid) : EndsAttempt s s'' drv item job where
  unscheduled :=
    { found := h.unscheduled.found
      jobs := h'.jobs.trans h.unscheduled.jobs
      scheduled := h'.scheduled.trans h.unscheduled.scheduled
      fresh := h'.fresh.trans h.unscheduled.fresh
      info := hinfo.trans h.unscheduled.info
      queueJobs := fun system =>
        (h'.queueJobs system).trans (h.unscheduled.queueJobs system) }
  found := h.found
  jobsOf m := (h'.jobsOf m).trans (h.jobsOf m)
  registry := h.registry.trans h'.registry
  sent := h'.sent.trans h.sent
  ended := h'.ended.trans h.ended
  reported := h'.reported.trans h.reported
  answers e he := (h'.answers e he).elim (h.answers e) Or.inr
  nextUuid := hnext.trans h.nextUuid

namespace Caller

/-- The attempts that a caller of `fail_step` still has to end. -/
abbrev rest (c : Caller) : List Attempt := CallTask.pending.callerRest c

theorem pending_of_next {c : Caller} {u : CallTask} (h : u ∈ c.next) :
    u.pending = c.rest ∧ u.infos = [] := by
  rcases c with _ | ⟨m, _ | ⟨a, rest⟩⟩ | ⟨_ | ⟨a, rest⟩⟩ <;>
    simp only [next, Option.mem_def, Option.some.injEq, reduceCtorEq] at h <;>
    subst h <;> exact ⟨rfl, rfl⟩

theorem rest_of_next_eq_none {c : Caller} (h : c.next = none) : c.rest = [] := by
  rcases c with _ | ⟨m, _ | ⟨a, rest⟩⟩ | ⟨_ | ⟨a, rest⟩⟩ <;>
    simp_all [next, CallTask.pending.callerRest]

end Caller

theorem succeedStart_callStep (s : Shared) (held : InfoRef → Bool) (a : Attempt)
    (report : BuildReport) (ans : Answer) :
    CallStep s held (.succeed a report .start) (succeedStart s a report ans).1
      (succeedStart s a report ans).2 := by
  unfold succeedStart
  cases hq : s.queues.removeJobFromScheduled a.drv with
  | none =>
    exact .missing a [] rfl rfl (InnerQueues.removeJobFromScheduled_eq_none.mp hq)
      (by simp) (by simp) (fun _ => rfl)
  | some res =>
    obtain ⟨item, queues⟩ := res
    simp only
    cases hm : s.machines.removeJob item.machine (Shared.seconds ans.now) a.drv with
    | mk machines job =>
      cases job with
      | none =>
        exact .jobMissing a [] item rfl rfl
          (InnerQueues.unscheduled_of_removeJobFromScheduled hq).found
          (congrArg Prod.snd hm)
      | some job =>
        exact .ends a [] item job rfl rfl (endsAttempt_of_removeJob hq hm rfl rfl rfl rfl)
          (by simp [CallTask.infos]) (by simp [CallTask.pending]) (by simp)

/-- The rest of `fail_step` up to its next await leaves the marks alone. -/
theorem failDecide_sameMarks (cfg : Config) {s : Shared} (a : Attempt)
    {item : ScheduledItem} (job : Job) (state : BuildResultState)
    (timings : BuildTimings) (caller : Caller) (ans : Answer)
    (hflag : (s.queues.info item.stepInfo).alreadyScheduled = false) :
    let s' := (failDecide cfg s a item job state timings caller ans).1
    SameMarks s s' ∧ s'.queues.info = s.queues.info ∧ s'.nextUuid = s.nextUuid := by
  unfold failDecide
  simp only
  split
  · exact ⟨.of_record s _ rfl, rfl, rfl⟩
  · rename_i result _
    generalize (if result.canRetry = true then
      s.graph.incrTries item.stepInfo.step else s.graph) = g
    split_ifs
    · rw [InnerQueues.setAlreadyScheduled_eq_self hflag]
      exact ⟨.of_graph s _, rfl, rfl⟩
    · exact ⟨⟨rfl, rfl, rfl, fun _ => rfl, fun _ => rfl, fun _ => rfl, .refl _, rfl, rfl, rfl,
        fun _ => Or.inl, le_refl _⟩, rfl, rfl⟩

/-- The task after an attempt has failed. -/
theorem failDecide_task (cfg : Config) (s : Shared) (a : Attempt)
    (item : ScheduledItem) (job : Job) (state : BuildResultState)
    (timings : BuildTimings) (caller : Caller) (ans : Answer) :
    let t' := (failDecide cfg s a item job state timings caller ans).2
    (∀ u ∈ t', ∀ i ∈ u.infos, i = item.stepInfo) ∧
      (∀ u ∈ t', u.pending = caller.rest) ∧ (t' = none → caller.rest = []) := by
  unfold failDecide
  simp only
  split
  · refine ⟨fun u hu i hi => ?_, fun _ hu => (Caller.pending_of_next hu).1,
      Caller.rest_of_next_eq_none⟩
    rw [(Caller.pending_of_next hu).2] at hi
    cases hi
  · split_ifs <;> simp [CallTask.infos, CallTask.pending]

theorem failStart_callStep (cfg : Config) (s : Shared) (held : InfoRef → Bool)
    (a : Attempt) (state : BuildResultState) (timings : BuildTimings)
    (caller : Caller) (ans : Answer) :
    CallStep s held (.fail a (.start state timings) caller)
      (failStart cfg s a state timings caller ans).1
      (failStart cfg s a state timings caller ans).2 := by
  unfold failStart
  cases hq : s.queues.removeJobFromScheduled a.drv with
  | none =>
    exact .missing a caller.rest rfl rfl
      (InnerQueues.removeJobFromScheduled_eq_none.mp hq)
      (fun _ hu => (Caller.pending_of_next hu).2)
      (fun _ hu => (Caller.pending_of_next hu).1) Caller.rest_of_next_eq_none
  | some res =>
    obtain ⟨item, queues⟩ := res
    simp only
    cases hm : s.machines.removeJob item.machine (Shared.seconds ans.now) a.drv with
    | mk machines job =>
      cases job with
      | none =>
        exact .jobMissing a caller.rest item rfl rfl
          (InnerQueues.unscheduled_of_removeJobFromScheduled hq).found
          (congrArg Prod.snd hm)
      | some job =>
        have hends := endsAttempt_of_removeJob
          (g := s.graph.setFinished item.stepInfo.step false) hq hm rfl rfl rfl rfl
        have hflag := hends.unscheduled.flag_eq_false
        obtain ⟨hsame, hinfo, hnext⟩ := failDecide_sameMarks cfg a job state
          timings caller ans hflag
        obtain ⟨hinfos, hpending, hlast⟩ := failDecide_task cfg
          (({ s with
              queues := queues
              graph := s.graph.setFinished item.stepInfo.step false
              machines := machines } : Shared).endAttempt job)
          a item job state timings caller ans
        exact .ends a caller.rest item job rfl rfl (hends.trans hsame hinfo hnext)
          hinfos hpending hlast

theorem succeedResume_callStep (s : Shared) (held : InfoRef → Bool)
    (a : Attempt) (report : BuildReport) (pc : SucceedPc) (ans : Answer) :
    CallStep s held (.succeed a report pc)
      (succeedResume s held a report pc ans).1
      (succeedResume s held a report pc ans).2 := by
  cases pc with
  | start => exact succeedStart_callStep s held a report ans
  | removeJob item job =>
    simp only [succeedResume]
    split
    · exact .removeJob item.stepInfo item.buildQueue rfl (by simp [CallTask.infos])
        (.of_record _ _ rfl) (by simp) (by simp) (fun _ => rfl) ⟨item, rfl, rfl⟩
    · exact .removeJob item.stepInfo item.buildQueue rfl (by simp [CallTask.infos])
        (.refl _) (by simp [CallTask.infos]) (by simp [CallTask.pending])
        (fun _ => rfl) ⟨item, rfl, rfl⟩
  | finishBuildStep item job =>
    simp only [succeedResume]
    split_ifs
    · exact .narrow rfl (.of_graph s _) (List.Subset.refl _) rfl
    · exact .narrow rfl (.refl s) (List.Subset.refl _) rfl
    · exact .returns rfl (.of_record s _ rfl) rfl
  | markSucceeded item direct =>
    simp only [succeedResume]
    split_ifs
    · exact .narrow rfl (.of_graph s _) (List.Subset.refl _) rfl
    · exact .returns rfl (.of_record s _ rfl) rfl
  | notify item =>
    simp only [succeedResume]
    split_ifs
    · exact .returns rfl ((SameMarks.of_graph s _).trans (.of_record _ _ rfl)) rfl
    · exact .returns rfl (.of_record s _ rfl) rfl

/-- A task leaves the rest to its caller. -/
theorem callStep_next {s s' : Shared} {held : InfoRef → Bool} {t : CallTask}
    {caller : Caller} (hstart : t.starting = none) (hsame : SameMarks s s')
    (ht : t.pending = caller.rest) :
    CallStep s held t s' caller.next := by
  refine .quiet hstart hsame ?_ ?_ (Or.inl fun a ha => ?_)
  · intro u hu i hi
    rw [(Caller.pending_of_next hu).2] at hi
    cases hi
  · intro u hu b hb
    rw [(Caller.pending_of_next hu).1, ← ht] at hb
    exact Or.inl hb
  · cases hn : caller.next with
    | none =>
      rw [ht, Caller.rest_of_next_eq_none hn] at ha
      cases ha
    | some u => exact ⟨u, rfl, by rwa [(Caller.pending_of_next hn).1, ← ht]⟩

theorem failResume_callStep (cfg : Config) (s : Shared)
    (held : InfoRef → Bool) (a : Attempt) (pc : FailPc) (caller : Caller)
    (ans : Answer) :
    CallStep s held (.fail a pc caller)
      (failResume cfg s held a pc caller ans).1
      (failResume cfg s held a pc caller ans).2 := by
  cases pc with
  | start state timings => exact failStart_callStep cfg s held a state timings caller ans
  | retry item job =>
    simp only [failResume]
    exact callStep_next rfl (.of_record s _ (by split_ifs <;> rfl)) rfl
  | removeJob item job =>
    exact .removeJob item.stepInfo item.buildQueue rfl (by simp [CallTask.infos])
      (InnerFail.start_sameMarks ..) (by simp [failResume, CallTask.infos])
      (by simp [failResume, CallTask.pending]) (by simp [failResume]) ⟨item, rfl, rfl⟩
  | inner item f =>
    have hsame := InnerFail.resume_sameMarks s f ans
    simp only [failResume]
    split <;> rename_i heq <;> rw [heq] at hsame
    · exact .narrow rfl hsame (List.Subset.refl _) rfl
    · exact callStep_next rfl (hsame.trans (.of_record _ _ (by split_ifs <;> rfl))) rfl

/-- One turn of `kill_active_steps` marks an item as cancelled, and no
more. -/
theorem killResume_callStep (s : Shared) (held : InfoRef → Bool)
    (drv : StorePath) (item : ScheduledItem)
    (todo : List (StorePath × ScheduledItem)) (cancelled : List Attempt) :
    CallStep s held (.kill ((drv, item) :: todo) cancelled)
      (killResume s drv item todo cancelled).1
      (killResume s drv item todo cancelled).2 := by
  have htodo : todo.map (fun e => e.2.stepInfo) ⊆
      (CallTask.kill ((drv, item) :: todo) cancelled).infos :=
    List.subset_cons_self _ _
  unfold killResume
  split_ifs
  · exact .narrow rfl (.refl s) htodo rfl
  · exact .narrow rfl (.refl s) htodo rfl
  · have hsame : SameMarks s
        { s with queues := s.queues.setCancelled item.stepInfo true } := by
      refine ⟨rfl, rfl, rfl, fun _ => rfl, fun i => ?_, fun _ => rfl, .refl _, rfl, rfl,
        rfl, fun _ => Or.inl, le_refl _⟩
      by_cases h : i = item.stepInfo
      · subst h
        simp [InnerQueues.setCancelled, InnerQueues.modifyInfo]
      · simp [InnerQueues.setCancelled, InnerQueues.modifyInfo, h]
    simp only
    split
    · rename_i uuid huuid
      simp only [Machine.getInternalBuildIdForDrv, Option.map_eq_some_iff] at huuid
      obtain ⟨j, hj, rfl⟩ := huuid
      refine .quiet rfl hsame ?_ ?_ (Or.inr rfl)
      · rintro _ ⟨⟩ i hi
        exact Or.inl (htodo hi)
      · rintro _ ⟨⟩ a ha
        rcases List.mem_cons.mp ha with rfl | ha
        · refine Or.inr ⟨item.machine, j, rfl, List.mem_of_find?_eq_some hj, rfl, ?_⟩
          simpa using List.find?_some hj
        · exact Or.inl ha
    · exact .narrow rfl hsame htodo rfl

/-- `kill_active_steps` touches no more than the mark of its item. -/
theorem killResume_shared (s : Shared) (drv : StorePath) (item : ScheduledItem)
    (todo : List (StorePath × ScheduledItem)) (cancelled : List Attempt) :
    (killResume s drv item todo cancelled).1 =
      { s with queues := (killResume s drv item todo cancelled).1.queues } := by
  unfold killResume
  split_ifs
  · rfl
  · rfl
  · simp only
    split <;> rfl

/-- Every step of a call is one of the relation. -/
theorem callStep_of_resume {cfg : Config} {s : Shared} {held : InfoRef → Bool}
    {t : CallTask} {ans : Answer} {res : Shared × Option CallTask}
    (h : t.resume cfg s held ans = some res) :
    CallStep s held t res.1 res.2 := by
  unfold CallTask.resume at h
  cases t with
  | succeed a report pc =>
    cases h
    exact succeedResume_callStep s held a report pc ans
  | fail a pc caller =>
    cases h
    exact failResume_callStep cfg s held a pc caller ans
  | killStart =>
    simp only at h
    split_ifs at h with hperm
    cases h
    refine .quiet rfl (.refl s) ?_ (by simp [CallTask.pending]) (Or.inr rfl)
    intro u hu i hi
    cases hu
    obtain ⟨e, he, rfl⟩ := List.mem_map.mp hi
    refine Or.inr ⟨e.1, e.2, AList.mem_lookup_iff.mpr ?_, rfl⟩
    exact hperm.mem_iff.mp (List.mem_map.mpr ⟨e, he, rfl⟩)
  | kill todo cancelled =>
    cases todo with
    | nil =>
      cases h
      exact callStep_next rfl (.refl s) rfl
    | cons e todo =>
      cases h
      exact killResume_callStep s held e.1 e.2 todo cancelled
  | killAbort a machine todo cancelled =>
    simp only at h
    split_ifs at h <;> cases h
    · refine .quiet rfl (.refl s) ?_ ?_ (Or.inr rfl)
      · rintro _ ⟨⟩ i hi
        exact Or.inl hi
      · rintro _ ⟨⟩ b hb
        left
        simpa [CallTask.pending, or_comm] using hb
    · refine .quiet rfl (.refl s) ?_ ?_ (Or.inr rfl)
      · rintro _ ⟨⟩ i hi
        exact Or.inl hi
      · rintro _ ⟨⟩ b hb
        exact Or.inl (List.mem_cons_of_mem _ hb)
  | tunnelClose machine =>
    cases h
    refine .returns rfl (.of_machines (fun m => ?_) (.modifyMachine _ _ ⟨rfl, rfl⟩)) rfl
    by_cases hm : m = machine
    · subst hm
      simp [Machines.closeReceiver, Machines.modifyMachine, Shared.jobsOf]
    · simp [Machines.closeReceiver, Machines.modifyMachine, Shared.jobsOf, hm]

/-! ## The task of a call -/

section

variable {cfg : Config} {s : Shared} {held : InfoRef → Bool} {a : Attempt} {ans : Answer}
  {u : CallTask}

/-- `succeed_step` goes on with its attempt. -/
theorem succeedResume_task {report : BuildReport} {pc : SucceedPc}
    (hu : (succeedResume s held a report pc ans).2 = some u) :
    ∃ pc', u = .succeed a report pc' ∧ u.starting = none := by
  cases pc with
  | start =>
    simp only [succeedResume, succeedStart] at hu
    split at hu
    · cases hu
    · split at hu <;> cases hu
      exact ⟨_, rfl, rfl⟩
  | removeJob item job =>
    simp only [succeedResume] at hu
    split at hu <;> cases hu
    exact ⟨_, rfl, rfl⟩
  | finishBuildStep item job =>
    simp only [succeedResume] at hu
    split_ifs at hu <;> cases hu <;> exact ⟨_, rfl, rfl⟩
  | markSucceeded item direct =>
    simp only [succeedResume] at hu
    split_ifs at hu
    cases hu
    exact ⟨_, rfl, rfl⟩
  | notify item =>
    simp only [succeedResume] at hu
    split_ifs at hu

/-- `fail_step` goes on with its attempt or returns to its caller. -/
theorem failResume_task {pc : FailPc} {caller : Caller}
    (hu : (failResume cfg s held a pc caller ans).2 = some u) :
    (∃ pc', u = .fail a pc' caller ∧ u.starting = none) ∨ caller.next = some u := by
  cases pc with
  | start state timings =>
    simp only [failResume, failStart] at hu
    split at hu
    · exact .inr hu
    · split at hu
      · exact .inr hu
      · simp only [failDecide] at hu
        split at hu
        · exact .inr hu
        · split_ifs at hu <;> cases hu <;> exact .inl ⟨_, rfl, rfl⟩
  | retry item job => exact .inr hu
  | removeJob item job =>
    cases hu
    exact .inl ⟨_, rfl, rfl⟩
  | inner item f =>
    simp only [failResume] at hu
    split at hu
    · cases hu
      exact .inl ⟨_, rfl, rfl⟩
    · exact .inr hu

end

end QueueRunner
