import QueueRunner.BusyRows
import QueueRunner.Capacity
import QueueRunner.Messages

/-!
# Status reports and the rows of `buildsteps`

A builder reports what it is doing with the RPC `build_step_update`, which
spawns a task of its own: `update_build_step` looks the report's build up
among the jobs of the machine, waits for a connection, and writes the status
into the column `busy` of the row.  By then the attempt may have ended, its
row may be finished, and the step may have been sent again.  Such a late
report leaves the row finished, and it never reaches the row of another
attempt.

`StatusRunner` is the runner together with the two columns and the reports
that wait for the database.
-/

namespace QueueRunner

/-- `StepStatus`. -/
inductive StepStatus where
  | preparing
  | connecting
  | sendingInputs
  | building
  | waitingForLocalSlot
  | receivingOutputs
  | postProcessing
deriving DecidableEq, Repr

/-- The number that the column `busy` gets. -/
def StepStatus.asI32 : StepStatus → Nat
  | .preparing => 1
  | .connecting => 10
  | .sendingInputs => 20
  | .building => 30
  | .waitingForLocalSlot => 35
  | .receivingOutputs => 40
  | .postProcessing => 50

theorem StepStatus.asI32_ne_zero (s : StepStatus) : s.asI32 ≠ 0 := by
  cases s <;> decide

/-- The columns `busy` and `status` of a row; a `status` that is null is
nothing. -/
structure StepRecord where
  busy : Nat
  status : Option BuildStatus
deriving DecidableEq, Repr

namespace StepRecord

/-- The step of the row is running. -/
def Busy (rec : StepRecord) : Prop := rec.busy ≠ 0 ∧ rec.status = none

/-- The row has its final status. -/
def Finished (rec : StepRecord) : Prop := rec.busy = 0 ∧ rec.status ≠ none

end StepRecord

/-- The rows of `buildsteps` that `realise_drv_on_valid_machine` creates. -/
abbrev BuildSteps := Map StepRow StepRecord

namespace BuildSteps

/-- `insert_build_step` with the status `Busy`. -/
def insertBuildStep (t : BuildSteps) (row : StepRow) : BuildSteps :=
  t.insert row { busy := 1, status := none }

/-- `update_build_step` of `crates/db/src/connection.rs`. -/
def updateBuildStep (t : BuildSteps) (row : StepRow) (status : StepStatus) : BuildSteps :=
  match t.lookup row with
  | some rec =>
    if rec.busy ≠ 0 ∧ rec.status = none then t.insert row { rec with busy := status.asI32 }
    else t
  | none => t

/-- `update_build_step_in_finish`. -/
def updateBuildStepInFinish (t : BuildSteps) (row : StepRow) (status : BuildStatus) :
    BuildSteps :=
  match t.lookup row with
  | some _ => t.insert row { busy := 0, status := some status }
  | none => t

end BuildSteps

/-- `get_build_id_and_step_nr_by_uuid`. -/
def Machine.getBuildIdAndStepNrByUuid (m : Machine) (uuid : Uuid) : Option StepRow :=
  (m.jobs.find? (fun j => j.internalBuildId == uuid)).map Job.row

/-- A call of `State::update_build_step` that waits for the database, with
the attempt that it is about. -/
structure StatusReport where
  uuid : Uuid
  row : StepRow
  status : StepStatus
deriving DecidableEq

/-- The runner with its rows, the attempt that each row was created for, and
the reports that wait. -/
structure StatusRunner where
  rows : RowRunner := {}
  buildsteps : BuildSteps := ∅
  creator : Map StepRow Uuid := ∅
  reports : List StatusReport := []

inductive StatusAction where
  /-- A step of the runner.  When the awaits of
  `realise_drv_on_valid_machine` fail, `committed` says whether the row had
  been committed and `connecting` whether its status had been set. -/
  | run (a : Action) (committed connecting : Bool)
  /-- The RPC `build_step_update`. -/
  | stepUpdate (uuid machineId : Uuid) (status : StepStatus)
  /-- The database answers a report. -/
  | write (report : StatusReport) (ok : Bool)

namespace RowRunner

/-- The job whose row an action creates, with the number of the row. -/
def created (w : RowRunner) (a : Action) (committed : Bool) : Option Job :=
  match a with
  | .dispatch ans =>
    match w.runner.dispatcher with
    | .realise _ _ (.prepare _ job) =>
      if ans.ok || committed then some { job with stepNr := ans.stepNr } else none
    | _ => none
  | _ => none

/-- The job whose row an action finishes. -/
def finished (w : RowRunner) (a : Action) : Option Job :=
  match a with
  | .call t ans => if ans.ok then (w.runner.calls.lookup t).bind CallTask.finishing else none
  | _ => none

end RowRunner

namespace StatusRunner

/-- Whether the status of a new row is set.  `realise_drv_on_valid_machine`
only goes on when it is. -/
def connects (a : Action) (connecting : Bool) : Bool :=
  match a with
  | .dispatch ans => ans.ok || connecting
  | _ => connecting

/-- What a step of the runner does to the two columns. -/
def updateBuildsteps (w : StatusRunner) (a : Action) (committed connecting : Bool) :
    BuildSteps :=
  match w.rows.created a committed, w.rows.finished a with
  | some job, _ =>
    let t := w.buildsteps.insertBuildStep job.row
    if connects a connecting then t.updateBuildStep job.row .connecting else t
  | none, some job => w.buildsteps.updateBuildStepInFinish job.row job.result.stepStatus
  | none, none => w.buildsteps

/-- `State::update_build_step` up to its first await. -/
def stepUpdate (w : StatusRunner) (uuid machineId : Uuid) (status : StepStatus) :
    StatusRunner :=
  match w.rows.runner.shared.machines.byUuid.lookup machineId with
  | none => w
  | some m =>
    match (w.rows.runner.shared.machines.machine m).getBuildIdAndStepNrByUuid uuid with
    | none => w
    | some row => { w with reports := ⟨uuid, row, status⟩ :: w.reports }

/-- One step of the runner or of a report. -/
def next (cfg : Config) (w : StatusRunner) : StatusAction → Option StatusRunner
  | .run a committed connecting =>
    match w.rows.next cfg (a, committed) with
    | none => none
    | some rows =>
      some { w with
        rows := rows
        buildsteps := w.updateBuildsteps a committed connecting
        creator := match w.rows.created a committed with
          | some job => w.creator.insert job.row job.internalBuildId
          | none => w.creator }
  | .stepUpdate uuid machineId status => some (w.stepUpdate uuid machineId status)
  | .write report ok =>
    if report ∈ w.reports then
      some { w with
        reports := w.reports.erase report
        buildsteps :=
          if ok then w.buildsteps.updateBuildStep report.row report.status
          else w.buildsteps }
    else none

end StatusRunner

/-! ## The columns -/

namespace BuildSteps

variable {t : BuildSteps} {row row' : StepRow} {rec : StepRecord}

theorem lookup_insertBuildStep (t : BuildSteps) (row row' : StepRow) :
    (t.insertBuildStep row).lookup row' =
      if row' = row then some { busy := 1, status := none } else t.lookup row' :=
  Map.lookup_insert_eq t row' row _

/-- A status is only written to a row that is busy. -/
theorem lookup_updateBuildStep (t : BuildSteps) (row : StepRow) (status : StepStatus)
    (row' : StepRow) :
    (t.updateBuildStep row status).lookup row' = t.lookup row' ∨
      row' = row ∧ ∃ rec, t.lookup row = some rec ∧ rec.Busy ∧
        (t.updateBuildStep row status).lookup row' =
          some { rec with busy := status.asI32 } := by
  unfold updateBuildStep
  cases ht : t.lookup row with
  | none => exact Or.inl rfl
  | some rec =>
    simp only
    split_ifs with hbusy
    · rw [Map.lookup_insert_eq]
      split_ifs with hrow
      · exact Or.inr ⟨hrow, rec, rfl, hbusy, rfl⟩
      · exact Or.inl rfl
    · exact Or.inl rfl

/-- A status is written to a row that is there. -/
theorem exists_of_updateBuildStep {status : StepStatus}
    (h : (t.updateBuildStep row status).lookup row' = some rec) :
    ∃ old, t.lookup row' = some old := by
  rcases lookup_updateBuildStep t row status row' with heq | ⟨rfl, old, hold, -⟩
  · exact ⟨rec, heq ▸ h⟩
  · exact ⟨old, hold⟩

theorem lookup_updateBuildStepInFinish (t : BuildSteps) (row : StepRow)
    (status : BuildStatus) (row' : StepRow) :
    (t.updateBuildStepInFinish row status).lookup row' =
      if row' = row then (t.lookup row).map (fun _ => { busy := 0, status := some status })
      else t.lookup row' := by
  unfold updateBuildStepInFinish
  cases ht : t.lookup row with
  | none =>
    split_ifs with hrow
    · rw [hrow]
      exact ht
    · rfl
  | some rec => exact Map.lookup_insert_eq t row' row _

end BuildSteps

/-! ## The jobs that are carried -/

/-- The row of a job with the attempt it is for. -/
def Job.origin (j : Job) : StepRow × Uuid := (j.row, j.internalBuildId)

/-- The job has a row and has not finished it: the dispatch loop has it, a
machine has it, or a call has taken it. -/
def Runner.Carries (r : Runner) (job : Job) : Prop :=
  r.dispatcher.numbered = some job ∨ (∃ m, job ∈ r.shared.jobsOf m) ∨
    ∃ t task, r.calls.lookup t = some task ∧ task.taken = some job

/-- A call has taken the job. -/
def Runner.Takes (r : Runner) (t : TaskId) (job : Job) : Prop :=
  ∃ task, r.calls.lookup t = some task ∧ task.taken = some job

/-- A task without step infos has taken no job. -/
theorem CallTask.taken_eq_none {t : CallTask} (h : t.infos = []) : t.taken = none := by
  cases t with
  | succeed a report pc => cases pc <;> first | rfl | cases h
  | fail a pc caller =>
    cases pc with
    | start state timings => rfl
    | _ => cases h
  | _ => rfl

theorem Caller.taken_next {c : Caller} {u : CallTask} (h : c.next = some u) :
    u.taken = none := by
  apply CallTask.taken_eq_none
  cases c with
  | rpc => cases h
  | tunnel m rest =>
    cases rest with
    | nil =>
      cases h
      rfl
    | cons a rest =>
      cases h
      rfl
  | queueChange rest =>
    cases rest with
    | nil => cases h
    | cons a rest =>
      cases h
      rfl

theorem Machines.mem_of_removeJob {ms ms' : Machines} {m : MachineRef} {now : Int}
    {drv : StorePath} {job : Job} (h : ms.removeJob m now drv = (ms', some job)) :
    job ∈ (ms.machine m).jobs := by
  have hfind : (ms.machine m).jobs.find? (fun j => j.path == drv) = some job :=
    congrArg Prod.snd h
  exact List.mem_of_find?_eq_some hfind

/-- A call that ends an attempt takes the job of a machine. -/
theorem succeedStart_takes {s : Shared} {a : Attempt} {report : BuildReport} {ans : Answer}
    {u : CallTask} {j : Job} (hu : (succeedStart s a report ans).2 = some u)
    (hj : u.taken = some j) :
    (∃ m, j ∈ s.jobsOf m) ∧
      j.internalBuildId ∈ (succeedStart s a report ans).1.log.ended := by
  unfold succeedStart at hu ⊢
  cases hq : s.queues.removeJobFromScheduled a.drv with
  | none =>
    rw [hq] at hu
    cases hu
  | some res =>
    obtain ⟨item, queues⟩ := res
    rw [hq] at hu
    simp only at hu ⊢
    cases hr : s.machines.removeJob item.machine (Shared.seconds ans.now) a.drv with
    | mk machines found =>
      rw [hr] at hu
      cases found with
      | none => cases hu
      | some job =>
        cases hu
        obtain rfl := Option.some.inj hj
        exact ⟨⟨item.machine, Machines.mem_of_removeJob hr⟩, List.mem_cons_self⟩

theorem failDecide_takes {cfg : Config} {s : Shared} {a : Attempt} {item : ScheduledItem}
    {job : Job} {state : BuildResultState} {timings : BuildTimings} {caller : Caller}
    {ans : Answer} {u : CallTask} {j : Job}
    (hu : (failDecide cfg s a item job state timings caller ans).2 = some u)
    (hj : u.taken = some j) : j.origin = job.origin := by
  unfold failDecide at hu
  simp only at hu
  split at hu
  · rw [Caller.taken_next hu] at hj
    cases hj
  · split_ifs at hu
    all_goals
      cases hu
      cases hj
      rfl

theorem failDecide_ended (cfg : Config) (s : Shared) (a : Attempt) (item : ScheduledItem)
    (job : Job) (state : BuildResultState) (timings : BuildTimings) (caller : Caller)
    (ans : Answer) :
    (failDecide cfg s a item job state timings caller ans).1.log.ended = s.log.ended := by
  unfold failDecide
  simp only
  split
  · rfl
  · split_ifs <;> rfl

theorem failStart_takes {cfg : Config} {s : Shared} {a : Attempt} {state : BuildResultState}
    {timings : BuildTimings} {caller : Caller} {ans : Answer} {u : CallTask} {j : Job}
    (hu : (failStart cfg s a state timings caller ans).2 = some u)
    (hj : u.taken = some j) :
    ∃ job, ((∃ m, job ∈ s.jobsOf m) ∧ job.internalBuildId ∈
      (failStart cfg s a state timings caller ans).1.log.ended) ∧ j.origin = job.origin := by
  unfold failStart at hu ⊢
  cases hq : s.queues.removeJobFromScheduled a.drv with
  | none =>
    rw [hq] at hu
    rw [Caller.taken_next hu] at hj
    cases hj
  | some res =>
    obtain ⟨item, queues⟩ := res
    rw [hq] at hu
    simp only at hu ⊢
    cases hr : s.machines.removeJob item.machine (Shared.seconds ans.now) a.drv with
    | mk machines found =>
      rw [hr] at hu
      cases found with
      | none =>
        rw [Caller.taken_next hu] at hj
        cases hj
      | some job =>
        refine ⟨job, ⟨⟨item.machine, Machines.mem_of_removeJob hr⟩, ?_⟩, failDecide_takes hu hj⟩
        rw [failDecide_ended]
        exact List.mem_cons_self

/-- `inner_fail_job` waits for `finish_build_step` only at its start. -/
theorem InnerFail.resume_pc {s s' : Shared} {f f' : InnerFail} {ans : Answer}
    (h : f.resume s ans = (s', .running f')) : f'.pc ≠ .finishBuildStep := by
  have hhead : ∀ (s : Shared) (step : StepRef) (job : Job) (b : Bool),
      (loopHead s step job b).2.pc ≠ .finishBuildStep := by
    intro s step job b
    unfold loopHead
    simp only
    split_ifs <;> simp
  obtain ⟨step, job, pc⟩ := f
  cases pc with
  | finishBuildStep =>
    simp only [resume] at h
    split_ifs at h
    · cases h
      exact hhead _ _ _ _
    · cases h
  | mark indirect =>
    simp only [resume] at h
    split_ifs at h
    · cases h
      exact hhead _ _ _ _
    · cases h
  | notify => cases h

namespace CallTask

variable {cfg : Config} {s : Shared} {held : InfoRef → Bool} {task u : CallTask} {ans : Answer}
  {res : Shared × Option CallTask} {j : Job}

/-- A call that finishes a row has taken its job. -/
theorem taken_of_finishing (h : task.finishing = some j) : task.taken = some j := by
  cases task with
  | succeed a report pc =>
    cases pc with
    | finishBuildStep item job₀ => exact h
    | _ => cases h
  | fail a pc caller =>
    cases pc with
    | retry item job₀ => exact h
    | inner item f =>
      obtain ⟨step, job₀, pc⟩ := f
      cases pc with
      | finishBuildStep => exact h
      | _ => cases h
    | _ => cases h
  | _ => cases h

/-- A job that a call has taken comes from a machine, and its attempt ends,
or the call had taken it before. -/
theorem takes_of_resume (hres : task.resume cfg s held ans = some res) (hu : res.2 = some u)
    (hj : u.taken = some j) :
    ∃ job, (task.taken = some job ∨
        (∃ m, job ∈ s.jobsOf m) ∧ job.internalBuildId ∈ res.1.log.ended) ∧
      j.origin = job.origin := by
  cases task with
  | succeed a report pc =>
    cases hres
    cases pc with
    | start =>
      exact ⟨j, Or.inr (succeedStart_takes hu hj), rfl⟩
    | removeJob item job =>
      simp only [succeedResume] at hu
      split at hu
      · cases hu
      · cases hu
        cases hj
        exact ⟨job, Or.inl rfl, rfl⟩
    | _ =>
      simp only [succeedResume] at hu
      split_ifs at hu <;> cases hu <;> cases hj
  | fail a pc caller =>
    cases hres
    cases pc with
    | start state timings =>
      obtain ⟨job, htakes, heq⟩ := failStart_takes hu hj
      exact ⟨job, Or.inr htakes, heq⟩
    | retry item job =>
      rw [Caller.taken_next hu] at hj
      cases hj
    | removeJob item job =>
      simp only [failResume, InnerFail.start] at hu
      split_ifs at hu with hnr
      · cases hu
        cases hj
        exact ⟨_, Or.inl rfl, rfl⟩
      · cases hu
        simp only [InnerFail.loopHead] at hj
        split_ifs at hj <;> cases hj
    | inner item f =>
      simp only [failResume] at hu
      split at hu
      · rename_i s' f' heq
        cases hu
        obtain ⟨step, job, pc⟩ := f'
        have hpc := InnerFail.resume_pc heq
        cases pc with
        | finishBuildStep => exact absurd rfl hpc
        | _ => cases hj
      · rw [Caller.taken_next hu] at hj
        cases hj
  | killStart =>
    simp only [resume] at hres
    split_ifs at hres
    cases hres
    cases hu
    cases hj
  | kill todo cancelled =>
    cases todo with
    | nil =>
      cases hres
      rw [Caller.taken_next hu] at hj
      cases hj
    | cons e todo =>
      obtain ⟨drv, item⟩ := e
      cases hres
      unfold killResume at hu
      simp only at hu
      split_ifs at hu
      · cases hu
        cases hj
      · cases hu
        cases hj
      · split at hu <;> cases hu <;> cases hj
  | killAbort a machine todo cancelled =>
    simp only [resume] at hres
    split_ifs at hres <;> cases hres <;> cases hu <;> cases hj
  | tunnelClose machine =>
    cases hres
    cases hu

end CallTask

/-- Outside of a realisation no job gets a row. -/
theorem DispatchStep.numbered_eq_none {s s' : Shared} {held : InfoRef → Bool}
    {d d' : DispatchPc} (hs : DispatchStep s held d s' d') (hd : d.info = none) :
    d'.numbered = none := by
  have hnone : d'.walk? = none → d'.numbered = none := fun hw =>
    RowRunner.numbered_eq_none (DispatchPc.info_eq_none_of_walk? hw)
  cases hs with
  | other hm hinfo hwalk hcollected htodo => exact hnone hwalk
  | scrub hinfo hwalk hcollected htodo => exact hnone hwalk
  | removeByPath drv hinfo hwalk hcollected htodo hd => exact hnone hwalk
  | advance => cases hd
  | send => cases hd
  | _ => rfl

/-- The dispatch loop gives a job a row, and later gives it to the machine. -/
theorem DispatchPc.numbered_cases {cfg : Config} {s s' : Shared} {held : InfoRef → Bool}
    {d d' : DispatchPc} {ans : Answer} {job : Job}
    (hres : d.resume cfg s held ans = some (s', d')) (hjob : d'.numbered = some job) :
    d.numbered = some job ∨
      ∃ w i m job₀, d = .realise w i (.prepare m job₀) ∧ ans.ok = true ∧
        job = { job₀ with stepNr := ans.stepNr } := by
  cases d with
  | realise w i pc =>
    simp only [resume, Option.some.injEq] at hres
    cases pc with
    | checkCached m job₀ =>
      simp only [realiseResume] at hres
      split_ifs at hres <;> cases hres <;> cases hjob
    | cachedFailure f =>
      simp only [realiseResume] at hres
      split at hres <;> cases hres <;> cases hjob
    | prepare m job₀ =>
      simp only [realiseResume] at hres
      split_ifs at hres with hok
      · cases hres
        exact Or.inr ⟨w, i, m, job₀, rfl, hok, (Option.some.inj hjob).symm⟩
      · cases hres
        cases hjob
    | send m job₀ =>
      simp only [realiseResume] at hres
      split_ifs at hres
      · cases hres
        exact Or.inl hjob
      · cases hres
        cases hjob
    | _ =>
      cases hres
      cases hjob
  | _ =>
    rw [(dispatchStep_of_resume hres).numbered_eq_none rfl] at hjob
    cases hjob

namespace Runner

variable {cfg : Config} {r r' : Runner} {t : TaskId} {job : Job}

/-- A job that a call has taken was taken by it before, or it is the job of a
machine whose attempt ends now. -/
theorem takes_cases {a : Action} (hs : RunnerStep cfg r a r') (h : r'.Takes t job) :
    ∃ job₀, job.origin = job₀.origin ∧ (r.Takes t job₀ ∨
      (∃ m, job₀ ∈ r.shared.jobsOf m) ∧ job₀.internalBuildId ∈ r'.shared.log.ended ∧
        ∃ ans, a = .call t ans) := by
  obtain ⟨u, hu, hj⟩ := h
  have hold : r.calls.lookup t = some u → ∃ job₀, job.origin = job₀.origin ∧ (r.Takes t job₀ ∨
      (∃ m, job₀ ∈ r.shared.jobsOf m) ∧ job₀.internalBuildId ∈ r'.shared.log.ended ∧
        ∃ ans, a = .call t ans) :=
    fun ht => ⟨job, rfl, Or.inl ⟨u, ht, hj⟩⟩
  have hspawn : ∀ {r₀ : Runner} {res : Shared × Option CallTask}, r₀.calls = r.calls →
      (∀ v, res.2 = some v → v.infos = []) → (r₀.spawn res).calls.lookup t = some u →
        r.calls.lookup t = some u := by
    intro r₀ res hcalls hinfos ht
    rw [Runner.lookup_spawn] at ht
    split_ifs at ht
    · rw [CallTask.taken_eq_none (hinfos u ht)] at hj
      cases hj
    · rwa [hcalls] at ht
  cases hs with
  | call ht hres =>
    rename_i t₀ ans task res
    rw [Runner.lookup_setCall] at hu
    split_ifs at hu with heq
    · subst heq
      obtain ⟨job₀, htaken | ⟨hm, hended⟩, horigin⟩ := CallTask.takes_of_resume hres hu hj
      · exact ⟨job₀, horigin, Or.inl ⟨task, ht, htaken⟩⟩
      · exact ⟨job₀, horigin, Or.inr ⟨hm, hended, ans, rfl⟩⟩
    · exact hold hu
  | completeBuild uuid machineId state report =>
    obtain ⟨results, -, htask⟩ := completeBuild_spec r.shared uuid machineId state report
    refine hold (hspawn rfl (fun v hv => ?_) hu)
    rcases htask with ⟨a, task, -, -, htask, hinfos, -⟩ | ⟨e, -, -, htask⟩
    · obtain rfl := Option.some.inj (htask.symm.trans hv)
      exact hinfos
    · rw [htask] at hv
      cases hv
  | @endStream m hm =>
    obtain ⟨machines, task, -, htask, -, -, -, -, hinfos, -⟩ := endStream_spec r.shared m
    refine hold (hspawn (by rfl) (fun v hv => ?_) hu)
    obtain rfl := Option.some.inj (htask.symm.trans hv)
    exact hinfos
  | queueChange curIds =>
    refine hold (hspawn rfl (fun v hv => ?_) hu)
    cases hv
    rfl
  | _ => exact hold hu

/-- A job that is carried was carried before, or the dispatch loop gives it
its row now. -/
theorem carries_cases (hok : RunnerOk cfg r) {a : Action} (hs : RunnerStep cfg r a r')
    (h : r'.Carries job) :
    (∃ job₀, r.Carries job₀ ∧ job.origin = job₀.origin) ∨
      ∃ w i m job₀ ans, a = .dispatch ans ∧ r.dispatcher = .realise w i (.prepare m job₀) ∧
        ans.ok = true ∧ job = { job₀ with stepNr := ans.stepNr } := by
  have hcalls : (∃ t, r'.Takes t job) → ∃ job₀, r.Carries job₀ ∧ job.origin = job₀.origin := by
    rintro ⟨t, htakes⟩
    obtain ⟨job₀, horigin, hold | ⟨hm, -⟩⟩ := takes_cases hs htakes
    · exact ⟨job₀, Or.inr (Or.inr ⟨t, hold⟩), horigin⟩
    · exact ⟨job₀, Or.inr (Or.inl hm), horigin⟩
  -- a step that leaves the loop alone and puts no job into a machine
  have hkeeps : r'.dispatcher = r.dispatcher →
      (∀ m, ∀ j ∈ r'.shared.jobsOf m, j ∈ r.shared.jobsOf m) →
      ∃ job₀, r.Carries job₀ ∧ job.origin = job₀.origin := by
    intro hd hjobs
    rcases h with hd' | ⟨m, hm⟩ | htakes
    · exact ⟨job, Or.inl (hd ▸ hd'), rfl⟩
    · exact ⟨job, Or.inr (Or.inl ⟨m, hjobs m job hm⟩), rfl⟩
    · exact hcalls htakes
  cases hs with
  | @dispatch ans s' d' hres =>
    rcases h with hd' | ⟨m, hm⟩ | htakes
    · rcases DispatchPc.numbered_cases hres hd' with hd | ⟨w, i, m, job₀, hd, hans, hjob⟩
      · exact Or.inl ⟨job, Or.inl hd, rfl⟩
      · exact Or.inr ⟨w, i, m, job₀, ans, rfl, hd, hans, hjob⟩
    · by_cases hsent : ∃ w i m' job', r.dispatcher = .realise w i (.sent m' job')
      · obtain ⟨w, i, m', job', hd⟩ := hsent
        rw [hd] at hres
        cases hres
        have hm' : job ∈ ({ r.shared with
            machines := r.shared.machines.modifyMachine m' (fun r =>
              r.buildDrvSent (Shared.seconds ans.now) job') } : Shared).jobsOf m := hm
        rw [Attempts.jobsOf_buildDrvSent] at hm'
        split_ifs at hm'
        · rcases List.mem_append.mp hm' with hmem | hmem
          · exact Or.inl ⟨job, Or.inr (Or.inl ⟨m, hmem⟩), rfl⟩
          · rw [List.mem_singleton.mp hmem]
            exact Or.inl ⟨job', Or.inl (by rw [hd]; rfl), rfl⟩
        · exact Or.inl ⟨job, Or.inr (Or.inl ⟨m, hm'⟩), rfl⟩
      · have hjobs := (dispatchStep_of_resume hres).jobsOf_eq
          (fun w i m job hd => hsent ⟨w, i, m, job, hd⟩) m
        exact Or.inl ⟨job, Or.inr (Or.inl ⟨m, hjobs ▸ hm⟩), rfl⟩
    · exact Or.inl (hcalls htakes)
  | call ht hres =>
    exact Or.inl (hkeeps rfl fun m j hj => SentLog.call_jobs (callStep_of_resume hres) hok hj)
  | completeBuild uuid machineId state report =>
    obtain ⟨results, hshared, -⟩ := completeBuild_spec r.shared uuid machineId state report
    refine Or.inl (hkeeps (r.spawn_dispatcher _) fun m j hj => ?_)
    rw [Runner.spawn_shared, hshared] at hj
    exact hj
  | @endStream m hm =>
    obtain ⟨machines, task, hshared, -, hmachine, -⟩ := endStream_spec r.shared m
    refine Or.inl (hkeeps (Runner.spawn_dispatcher _ _) fun m' j hj => ?_)
    rw [Runner.spawn_shared, hshared, Shared.jobsOf, hmachine] at hj
    exact hj
  | queueChange curIds => exact Or.inl (hkeeps (r.spawn_dispatcher _) fun _ _ hj => hj)
  | insertMachine id record sortFn =>
    refine Or.inl (hkeeps rfl fun m j hj => ?_)
    rw [← hok.jobsOf_insertMachine id (.new record) sortFn rfl]
    exact hj
  | create hcreate => exact Or.inl (hkeeps rfl fun _ _ hj => hj)
  | dropStep hheld => exact Or.inl (hkeeps rfl fun _ _ hj => hj)
  | dropBuild hheld => exact Or.inl (hkeeps rfl fun _ _ hj => hj)

end Runner

/-! ## Every row belongs to one attempt -/

namespace RowRunner

variable {cfg : Config} {w w' : RowRunner}

theorem updateRows_eq (w : RowRunner) (a : Action) (committed : Bool) :
    w.updateRows a committed =
      match w.created a committed, w.finished a with
      | some job, _ => w.createRow job.row
      | none, some job => some (w.finishRow job.row)
      | none, none => some w := by
  cases a with
  | dispatch ans =>
    cases hd : w.runner.dispatcher with
    | realise walk i pc =>
      cases pc with
      | prepare m job =>
        simp only [updateRows, created, finished, hd]
        split_ifs <;> rfl
      | _ => simp [updateRows, created, finished, hd]
    | _ => simp [updateRows, created, finished, hd]
  | call t ans =>
    simp only [updateRows, created, finished]
    cases (w.runner.calls.lookup t).bind CallTask.finishing with
    | none => split_ifs <;> rfl
    | some job => split_ifs <;> rfl
  | _ => rfl

/-- A call finishes the row of a job that is carried. -/
theorem carries_of_finished {a : Action} {job : Job} (h : w.finished a = some job) :
    w.runner.Carries job := by
  cases a with
  | call t ans =>
    simp only [finished, Option.ite_none_right_eq_some, Option.bind_eq_some_iff] at h
    obtain ⟨-, task, ht, hfinishing⟩ := h
    exact Or.inr (Or.inr ⟨t, task, ht, CallTask.taken_of_finishing hfinishing⟩)
  | _ => cases h

end RowRunner

/-- Every row and every report belongs to one attempt, and the columns of a
row agree with each other. -/
structure StatusRunner.InOrder (w : StatusRunner) : Prop where
  carried : ∀ job, w.rows.runner.Carries job →
    w.creator.lookup job.row = some job.internalBuildId
  reported : ∀ report ∈ w.reports, w.creator.lookup report.row = some report.uuid
  used : ∀ row uuid, w.creator.lookup row = some uuid → row ∈ w.rows.used
  created : ∀ row rec, w.buildsteps.lookup row = some rec →
    ∃ uuid, w.creator.lookup row = some uuid
  busy : ∀ row ∈ w.rows.busy, ∃ rec, w.buildsteps.lookup row = some rec ∧ rec.Busy
  idle : ∀ row rec, w.buildsteps.lookup row = some rec → row ∉ w.rows.busy → rec.Finished

namespace BuildSteps

/-- A status leaves a busy row busy and a finished row as it is. -/
theorem updateBuildStep_keeps {t : BuildSteps} (row : StepRow) (status : StepStatus)
    (row' : StepRow) {busy : List StepRow}
    (hbusy : ∀ row ∈ busy, ∃ rec, t.lookup row = some rec ∧ rec.Busy)
    (hidle : ∀ row rec, t.lookup row = some rec → row ∉ busy → rec.Finished) :
    (row' ∈ busy → ∃ rec, (t.updateBuildStep row status).lookup row' = some rec ∧ rec.Busy) ∧
      ∀ rec, (t.updateBuildStep row status).lookup row' = some rec → row' ∉ busy →
        rec.Finished := by
  rcases lookup_updateBuildStep t row status row' with heq | ⟨rfl, old, hold, hrec, heq⟩
  · rw [heq]
    exact ⟨hbusy row', hidle row'⟩
  · rw [heq]
    refine ⟨fun _ => ⟨_, rfl, status.asI32_ne_zero, hrec.2⟩, fun rec _ hnot => ?_⟩
    exact absurd (hidle row' old hold hnot).1 hrec.1

end BuildSteps

namespace StatusRunner

variable {cfg : Config} {w w' : StatusRunner}

namespace InOrder

theorem init : InOrder {} where
  carried job h := by
    rcases h with hd | ⟨m, hm⟩ | ⟨t, task, ht, -⟩
    · cases hd
    · cases hm
    · cases ht
  reported report h := by cases h
  used row uuid h := by cases h
  created row rec h := by cases h
  busy row h := by cases h
  idle row rec h := by cases h

/-- A report is about the job of a machine. -/
theorem stepUpdate (h : w.InOrder) (uuid machineId : Uuid) (status : StepStatus) :
    (w.stepUpdate uuid machineId status).InOrder := by
  unfold StatusRunner.stepUpdate
  split
  · exact h
  · rename_i m hm
    split
    · exact h
    · rename_i row hrow
      refine { h with reported := ?_ }
      intro report hreport
      rcases List.mem_cons.mp hreport with rfl | hreport
      · unfold Machine.getBuildIdAndStepNrByUuid at hrow
        obtain ⟨job, hfind, rfl⟩ := Option.map_eq_some_iff.mp hrow
        have huuid : job.internalBuildId = uuid := by simpa using List.find?_some hfind
        have hjob := h.carried job (Or.inr (Or.inl ⟨m, List.mem_of_find?_eq_some hfind⟩))
        rwa [huuid] at hjob
      · exact h.reported report hreport

theorem write (h : w.InOrder) (report : StatusReport) (ok : Bool) :
    InOrder { w with
      reports := w.reports.erase report
      buildsteps := if ok then w.buildsteps.updateBuildStep report.row report.status
        else w.buildsteps } := by
  refine ⟨h.carried, ?_, h.used, ?_, ?_, ?_⟩
  · intro r hr
    exact h.reported r (List.mem_of_mem_erase hr)
  · intro row rec hrec
    cases ok with
    | false => exact h.created row rec hrec
    | true =>
      obtain ⟨old, hold⟩ := BuildSteps.exists_of_updateBuildStep hrec
      exact h.created row old hold
  all_goals
    have hkeeps := fun row => BuildSteps.updateBuildStep_keeps (t := w.buildsteps) report.row
      report.status row h.busy h.idle
    cases ok
  · exact h.busy
  · exact fun row => (hkeeps row).1
  · exact h.idle
  · exact fun row => (hkeeps row).2

/-- A job that is carried has its row, or gets it now. -/
theorem carried_or_created (h : w.InOrder) (hok : RunnerOk cfg w.rows.runner) {a : Action}
    {r' : Runner} (hs : RunnerStep cfg w.rows.runner a r') (committed : Bool) {job : Job}
    (hjob : r'.Carries job) :
    w.creator.lookup job.row = some job.internalBuildId ∨
      w.rows.created a committed = some job := by
  rcases Runner.carries_cases hok hs hjob with
    ⟨job₀, hold, horigin⟩ | ⟨walk, i, m, job₀, ans, rfl, hd, hans, rfl⟩
  · obtain ⟨hrow, huuid⟩ := Prod.mk.inj horigin
    rw [hrow, huuid]
    exact Or.inl (h.carried job₀ hold)
  · refine Or.inr ?_
    simp [RowRunner.created, hd, hans]

/-- The row of an attempt is created. -/
theorem create (h : w.InOrder) {job : Job} {rows : RowRunner} (a : Action) (connecting : Bool)
    (hfresh : job.row ∉ w.rows.used) (hbusy : rows.busy = job.row :: w.rows.busy)
    (hused : rows.used = job.row :: w.rows.used)
    (hcarried : ∀ job', rows.runner.Carries job' →
      w.creator.lookup job'.row = some job'.internalBuildId ∨ job = job') :
    InOrder { w with
      rows := rows
      buildsteps :=
        let t := w.buildsteps.insertBuildStep job.row
        if connects a connecting then t.updateBuildStep job.row .connecting else t
      creator := w.creator.insert job.row job.internalBuildId } := by
  have hne : ∀ row uuid, w.creator.lookup row = some uuid → row ≠ job.row := by
    rintro row uuid hrow rfl
    exact hfresh (h.used _ uuid hrow)
  have hkeep : ∀ row uuid, w.creator.lookup row = some uuid →
      (w.creator.insert job.row job.internalBuildId).lookup row = some uuid := by
    intro row uuid hrow
    rw [Map.lookup_insert_eq, if_neg (hne row uuid hrow)]
    exact hrow
  have hnewBusy : ∀ row ∈ rows.busy,
      ∃ rec, (w.buildsteps.insertBuildStep job.row).lookup row = some rec ∧ rec.Busy := by
    intro row hrow
    rw [BuildSteps.lookup_insertBuildStep]
    split_ifs with heq
    · exact ⟨_, rfl, Nat.one_ne_zero, rfl⟩
    · rw [hbusy] at hrow
      exact h.busy row ((List.mem_cons.mp hrow).resolve_left heq)
  have hnewIdle : ∀ row rec, (w.buildsteps.insertBuildStep job.row).lookup row = some rec →
      row ∉ rows.busy → rec.Finished := by
    intro row rec hrow hnot
    rw [hbusy, List.mem_cons, not_or] at hnot
    rw [BuildSteps.lookup_insertBuildStep, if_neg hnot.1] at hrow
    exact h.idle row rec hrow hnot.2
  have hnewCreated : ∀ row rec,
      (w.buildsteps.insertBuildStep job.row).lookup row = some rec →
        ∃ uuid, (w.creator.insert job.row job.internalBuildId).lookup row = some uuid := by
    intro row rec hrow
    rw [BuildSteps.lookup_insertBuildStep] at hrow
    split_ifs at hrow with heq
    · exact ⟨job.internalBuildId, by rw [Map.lookup_insert_eq, if_pos heq]⟩
    · obtain ⟨uuid, huuid⟩ := h.created row rec hrow
      exact ⟨uuid, hkeep row uuid huuid⟩
  refine ⟨?_, ?_, ?_, ?_, ?_, ?_⟩
  · intro job' hjob'
    rcases hcarried job' hjob' with hold | rfl
    · exact hkeep _ _ hold
    · rw [Map.lookup_insert_eq, if_pos rfl]
  · intro report hreport
    exact hkeep _ _ (h.reported report hreport)
  · intro row uuid hrow
    show row ∈ rows.used
    rw [hused]
    rw [Map.lookup_insert_eq] at hrow
    split_ifs at hrow with heq
    · exact heq ▸ List.mem_cons_self
    · exact List.mem_cons_of_mem _ (h.used row uuid hrow)
  · intro row rec hrec
    simp only at hrec
    split_ifs at hrec
    · obtain ⟨old, hold⟩ := BuildSteps.exists_of_updateBuildStep hrec
      exact hnewCreated row old hold
    · exact hnewCreated row rec hrec
  all_goals
    have hkeeps := fun row => BuildSteps.updateBuildStep_keeps job.row .connecting row
      hnewBusy hnewIdle
    simp only
    split_ifs
  · exact fun row => (hkeeps row).1
  · exact hnewBusy
  · exact fun row => (hkeeps row).2
  · exact hnewIdle

/-- The row of an attempt is finished. -/
theorem finish (h : w.InOrder) {rows : RowRunner} (row : StepRow) (status : BuildStatus)
    (hbusy : rows.busy = (w.rows.finishRow row).busy) (hused : rows.used = w.rows.used)
    (hcarried : ∀ job', rows.runner.Carries job' →
      w.creator.lookup job'.row = some job'.internalBuildId) :
    InOrder { w with
      rows := rows
      buildsteps := w.buildsteps.updateBuildStepInFinish row status } where
  carried := hcarried
  reported := h.reported
  used row' uuid hrow' := by
    show row' ∈ rows.used
    rw [hused]
    exact h.used row' uuid hrow'
  created row' rec hrec := by
    simp only at hrec
    rw [BuildSteps.lookup_updateBuildStepInFinish] at hrec
    split_ifs at hrec with heq
    · obtain ⟨old, hold, -⟩ := Option.map_eq_some_iff.mp hrec
      exact heq ▸ h.created row old hold
    · exact h.created row' rec hrec
  busy row' hrow' := by
    have hmem : row' ∈ w.rows.busy ∧ row' ≠ row := by
      simpa [hbusy, RowRunner.finishRow] using hrow'
    simp only
    rw [BuildSteps.lookup_updateBuildStepInFinish, if_neg hmem.2]
    exact h.busy row' hmem.1
  idle row' rec hrec hnot := by
    simp only at hrec
    rw [BuildSteps.lookup_updateBuildStepInFinish] at hrec
    split_ifs at hrec with heq
    · obtain ⟨old, -, rfl⟩ := Option.map_eq_some_iff.mp hrec
      exact ⟨rfl, by simp⟩
    · refine h.idle row' rec hrec fun hmem => hnot ?_
      show row' ∈ rows.busy
      rw [hbusy]
      exact List.mem_filter.mpr ⟨hmem, by simpa using heq⟩

/-- A step of the runner. -/
theorem run (h : w.InOrder) (hok : RunnerOk cfg w.rows.runner) {a : Action}
    {committed connecting : Bool}
    (hnext : w.next cfg (.run a committed connecting) = some w') : w'.InOrder := by
  simp only [next] at hnext
  split at hnext
  · cases hnext
  · rename_i rows hrows
    obtain rfl := Option.some.inj hnext
    obtain ⟨r, w₀, hr, hupdate, rfl⟩ := RowRunner.next_cases hrows
    have hcarried := fun job (hjob : r.Carries job) =>
      h.carried_or_created hok (runnerStep_of_next hr) committed hjob
    rw [RowRunner.updateRows_eq] at hupdate
    cases hcreated : w.rows.created a committed with
    | some job =>
      simp only [hcreated, RowRunner.createRow, Option.ite_none_right_eq_some] at hupdate
      obtain ⟨⟨-, hfresh⟩, hw₀⟩ := hupdate
      obtain rfl := Option.some.inj hw₀
      simp only [updateBuildsteps, hcreated]
      refine h.create a connecting hfresh rfl rfl fun job' hjob' => ?_
      exact (hcarried job' hjob').imp_right fun hnew => Option.some.inj (hcreated.symm.trans hnew)
    | none =>
      have hold : ∀ job', r.Carries job' →
          w.creator.lookup job'.row = some job'.internalBuildId := by
        intro job' hjob'
        refine (hcarried job' hjob').resolve_right ?_
        rw [hcreated]
        simp
      cases hfinished : w.rows.finished a with
      | some job =>
        simp only [hcreated, hfinished] at hupdate
        obtain rfl := Option.some.inj hupdate
        simp only [updateBuildsteps, hcreated, hfinished]
        exact h.finish job.row job.result.stepStatus rfl rfl hold
      | none =>
        simp only [hcreated, hfinished] at hupdate
        obtain rfl := Option.some.inj hupdate
        simp only [updateBuildsteps, hcreated, hfinished]
        exact { h with carried := hold }

theorem step (h : w.InOrder) (hok : RunnerOk cfg w.rows.runner) {a : StatusAction}
    (hnext : w.next cfg a = some w') : w'.InOrder := by
  cases a with
  | run a committed connecting => exact h.run hok hnext
  | stepUpdate uuid machineId status =>
    obtain rfl := Option.some.inj hnext
    exact h.stepUpdate uuid machineId status
  | write report ok =>
    simp only [next, Option.ite_none_right_eq_some] at hnext
    obtain rfl := Option.some.inj hnext.2
    exact h.write report ok

end InOrder

theorem rows_stepUpdate (w : StatusRunner) (uuid machineId : Uuid) (status : StepStatus) :
    (w.stepUpdate uuid machineId status).rows = w.rows := by
  unfold stepUpdate
  split
  · rfl
  · split <;> rfl

theorem runnerOk_of_next (hok : RunnerOk cfg w.rows.runner) {a : StatusAction}
    (hnext : w.next cfg a = some w') : RunnerOk cfg w'.rows.runner := by
  cases a with
  | run a committed connecting =>
    simp only [next] at hnext
    split at hnext
    · cases hnext
    · rename_i rows hrows
      obtain rfl := Option.some.inj hnext
      exact RowRunner.runnerOk_of_next hok hrows
  | stepUpdate uuid machineId status =>
    obtain rfl := Option.some.inj hnext
    rwa [rows_stepUpdate]
  | write report ok =>
    simp only [next, Option.ite_none_right_eq_some] at hnext
    obtain rfl := Option.some.inj hnext.2
    exact hok

theorem InOrder.reach {ok : StatusRunner → StatusAction → Prop}
    (h : Lts.Reach (next cfg) ok {} w) : w.InOrder := by
  have hinv : RunnerOk cfg w.rows.runner ∧ w.InOrder := by
    refine h.invariant (I := fun w => RunnerOk cfg w.rows.runner ∧ w.InOrder)
      ⟨RunnerOk.init, InOrder.init⟩ ?_
    intro w a w' hw _ hnext
    exact ⟨runnerOk_of_next hw.1 hnext, hw.2.step hw.1 hnext⟩
  exact hinv.2

theorem buildsteps_stepUpdate (w : StatusRunner) (uuid machineId : Uuid)
    (status : StepStatus) : (w.stepUpdate uuid machineId status).buildsteps = w.buildsteps := by
  unfold stepUpdate
  split
  · rfl
  · split <;> rfl

/-- The attempt that an action is about, when it writes to a row that is
there. -/
def about (w : StatusRunner) : StatusAction → Option Uuid
  | .run a _ _ => (w.rows.finished a).map Job.internalBuildId
  | .stepUpdate _ _ _ => none
  | .write report _ => some report.uuid

/-- A step of the runner changes a row that is there when it finishes it. -/
theorem InOrder.finished_of_changed (h : w.InOrder) {a : Action} {committed connecting : Bool}
    (hnext : w.next cfg (.run a committed connecting) = some w') {row : StepRow}
    {rec : StepRecord} (hrec : w.buildsteps.lookup row = some rec)
    (hchanged : w'.buildsteps.lookup row ≠ some rec) :
    ∃ job, w.rows.finished a = some job ∧ row = job.row := by
  simp only [next] at hnext
  split at hnext
  · cases hnext
  · rename_i rows hrows
    obtain rfl := Option.some.inj hnext
    obtain ⟨r, w₀, hr, hupdate, rfl⟩ := RowRunner.next_cases hrows
    rw [RowRunner.updateRows_eq] at hupdate
    cases hcreated : w.rows.created a committed with
    | some job =>
      -- the new row was not there
      simp only [hcreated, RowRunner.createRow, Option.ite_none_right_eq_some] at hupdate
      obtain ⟨⟨-, hfresh⟩, -⟩ := hupdate
      have hne : row ≠ job.row := by
        rintro rfl
        obtain ⟨uuid, huuid⟩ := h.created _ rec hrec
        exact hfresh (h.used _ uuid huuid)
      have hinsert : (w.buildsteps.insertBuildStep job.row).lookup row = some rec := by
        rw [BuildSteps.lookup_insertBuildStep, if_neg hne]
        exact hrec
      refine absurd ?_ hchanged
      simp only [updateBuildsteps, hcreated]
      split_ifs
      · rcases BuildSteps.lookup_updateBuildStep (w.buildsteps.insertBuildStep job.row) job.row
          .connecting row with heq | ⟨heq, -⟩
        · exact heq.trans hinsert
        · exact absurd heq hne
      · exact hinsert
    | none =>
      cases hfinished : w.rows.finished a with
      | some job =>
        refine ⟨job, rfl, ?_⟩
        by_contra hne
        apply hchanged
        simp only [updateBuildsteps, hcreated, hfinished]
        rw [BuildSteps.lookup_updateBuildStepInFinish, if_neg hne]
        exact hrec
      | none =>
        refine absurd ?_ hchanged
        simp only [updateBuildsteps, hcreated, hfinished]
        exact hrec

end StatusRunner

/-- In every run a row is busy without a status until it is finished, and has
a status and is not busy from then on.  A step that changes a row is about
the attempt that the row was created for.  When it is a report, however late,
the row is not finished and only gets the reported status. -/
theorem row_changes_for_its_attempt (cfg : Config) (w : StatusRunner)
    (h : Lts.Reach (StatusRunner.next cfg) Lts.anyStep {} w) :
    (∀ row rec, w.buildsteps.lookup row = some rec →
      if row ∈ w.rows.busy then rec.Busy else rec.Finished) ∧
    ∀ a w', w.next cfg a = some w' → ∀ row rec, w.buildsteps.lookup row = some rec →
      w'.buildsteps.lookup row ≠ some rec →
        (∃ uuid, w.creator.lookup row = some uuid ∧ w.about a = some uuid) ∧
        ∀ report ok, a = .write report ok → rec.Busy ∧
          w'.buildsteps.lookup row = some { rec with busy := report.status.asI32 } := by
  have hord := StatusRunner.InOrder.reach h
  refine ⟨fun row rec hrec => ?_, fun a w' hnext row rec hrec hchanged => ?_⟩
  · split_ifs with hbusy
    · obtain ⟨rec', hrec', hb⟩ := hord.busy row hbusy
      obtain rfl := Option.some.inj (hrec.symm.trans hrec')
      exact hb
    · exact hord.idle row rec hrec hbusy
  · cases a with
    | run a committed connecting =>
      obtain ⟨job, hfinished, hrow⟩ := hord.finished_of_changed hnext hrec hchanged
      refine ⟨⟨job.internalBuildId, ?_, ?_⟩, fun report ok ha => by cases ha⟩
      · rw [hrow]
        exact hord.carried job (RowRunner.carries_of_finished hfinished)
      · simp [StatusRunner.about, hfinished]
    | stepUpdate uuid machineId status =>
      obtain rfl := Option.some.inj hnext
      rw [StatusRunner.buildsteps_stepUpdate] at hchanged
      exact absurd hrec hchanged
    | write report ok =>
      simp only [StatusRunner.next, Option.ite_none_right_eq_some] at hnext
      obtain ⟨hmem, hw'⟩ := hnext
      obtain rfl := Option.some.inj hw'
      cases ok with
      | false => exact absurd hrec hchanged
      | true =>
        rcases BuildSteps.lookup_updateBuildStep w.buildsteps report.row report.status row with
          heq | ⟨rfl, old, hold, hb, heq⟩
        · exact absurd (heq.trans hrec) hchanged
        · obtain rfl := Option.some.inj (hrec.symm.trans hold)
          refine ⟨⟨report.uuid, hord.reported report hmem, rfl⟩, fun report' ok' ha => ?_⟩
          cases ha
          exact ⟨hb, heq⟩

/-- The builder reports a status, and its result is there before the report
is written. -/
def StatusRunner.lateReport : List StatusAction :=
  (RowRunner.dispatched.map fun a => .run a.1 a.2 false) ++
    [.stepUpdate 0 0 .building] ++
    ([.completeBuild 0 0 .success {}, .call 0 {}, .call 0 {}, .call 0 {}] : List Action).map
      fun a => .run a false false

theorem row_changes_for_its_attempt_late : ∃ w rec,
    Lts.Reach (StatusRunner.next Sample.config) Lts.anyStep {} w ∧
      w.reports = [⟨0, (1, 1), .building⟩] ∧
      w.buildsteps.lookup (1, 1) = some rec ∧ rec.Finished ∧
      ∀ w', w.next Sample.config (.write ⟨0, (1, 1), .building⟩ true) = some w' →
        w'.buildsteps.lookup (1, 1) = some rec := by
  have hend : (Lts.run (StatusRunner.next Sample.config) {} StatusRunner.lateReport).map
      (fun w => (w.reports, w.rows.busy, w.buildsteps.lookup (1, 1))) =
      some ([⟨0, (1, 1), .building⟩], [], some ⟨0, some .success⟩) := by
    decide +kernel
  obtain ⟨w, hw, he⟩ := Option.map_eq_some_iff.mp hend
  simp only [Prod.mk.injEq] at he
  obtain ⟨hreports, hbusy, hrec⟩ := he
  have hrun := Lts.reach_of_run hw
  have hmain := row_changes_for_its_attempt Sample.config w hrun
  have hfinished := hmain.1 (1, 1) _ hrec
  rw [if_neg (by simp [hbusy])] at hfinished
  refine ⟨w, _, hrun, hreports, hrec, hfinished, fun w' hnext => ?_⟩
  by_contra hchanged
  obtain ⟨-, hreport⟩ := hmain.2 _ w' hnext (1, 1) _ hrec hchanged
  exact (hreport _ _ rfl).1.1 hfinished.1

end QueueRunner
