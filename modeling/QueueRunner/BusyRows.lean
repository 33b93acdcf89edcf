import QueueRunner.Invariant

/-!
# The busy rows of `buildsteps`

`realise_drv_on_valid_machine` creates a row with status `Busy` and commits
it.  After the commit it awaits the notification, the status `Connecting`
and the message channel of the machine, and only then the machine gets the
job.  When one of these awaits fails, the call returns an error and the row
stays busy with no job: nothing will finish it.

`RowRunner` is the runner together with the rows that are busy.  A row
leaves the list when a `finish_build_step` for it has committed.
-/

namespace QueueRunner

/-- The key of a row of `buildsteps`. -/
abbrev StepRow := BuildID × Nat

/-- The row of a job. -/
def Job.row (j : Job) : StepRow := (j.buildId, j.stepNr)

/-- The job whose row a call finishes, while it waits for
`finish_build_step`. -/
def CallTask.finishing : CallTask → Option Job
  | .succeed _ _ (.finishBuildStep _ job) => some job
  | .fail _ (.retry _ job) _ => some job
  | .fail _ (.inner _ ⟨_, job, .finishBuildStep⟩) _ => some job
  | _ => none

/-- The job that a call has taken from its machine and whose row it has not
finished yet. -/
def CallTask.taken : CallTask → Option Job
  | .succeed _ _ (.removeJob _ job) => some job
  | .fail _ (.removeJob _ job) _ => some job
  | t => t.finishing

/-- The job whose row has been created and that is not in its machine yet. -/
def DispatchPc.numbered : DispatchPc → Option Job
  | .realise _ _ (.send _ job) | .realise _ _ (.sent _ job) => some job
  | _ => none

/-- The runner with the busy rows and the keys that were used. -/
structure RowRunner where
  runner : Runner := {}
  busy : List StepRow := []
  used : List StepRow := []

namespace RowRunner

/-- A row is created.  The database allocates step numbers from one on and
never the same one again. -/
def createRow (w : RowRunner) (row : StepRow) : Option RowRunner :=
  if row.2 ≠ 0 ∧ row ∉ w.used then
    some { w with busy := row :: w.busy, used := row :: w.used }
  else none

/-- A row is finished. -/
def finishRow (w : RowRunner) (row : StepRow) : RowRunner :=
  { w with busy := w.busy.filter (fun o => o ≠ row) }

/-- What an action does to the rows.  When the awaits of
`realise_drv_on_valid_machine` fail, `committed` says whether the row had
been committed before. -/
def updateRows (w : RowRunner) (a : Action) (committed : Bool) : Option RowRunner :=
  match a with
  | .dispatch ans =>
    match w.runner.dispatcher with
    | .realise _ _ (.prepare _ job) =>
      if ans.ok || committed then w.createRow (job.buildId, ans.stepNr) else some w
    | _ => some w
  | .call t ans =>
    match (w.runner.calls.lookup t).bind CallTask.finishing with
    | some job => if ans.ok then some (w.finishRow job.row) else some w
    | none => some w
  | _ => some w

/-- One step of the runner, with its effect on the rows. -/
def next (cfg : Config) (w : RowRunner) (a : Action × Bool) : Option RowRunner :=
  match w.runner.next cfg a.1, w.updateRows a.1 a.2 with
  | some r, some w' => some { w' with runner := r }
  | _, _ => none

/-- No call stands between the removal of a job from its machine and the
end of its `finish_build_step`. -/
def NoneTaken (w : RowRunner) : Prop :=
  ∀ t task, w.runner.calls.lookup t = some task → task.taken = none

/-- While no dispatch is in progress, every busy row is the row of a job of
some machine. -/
def RowsLive (w : RowRunner) : Prop :=
  w.runner.dispatcher.info = none → ∀ row ∈ w.busy,
    ∃ m, ∃ j ∈ w.runner.shared.jobsOf m, j.row = row

/-- Every await of `succeed_step` and `fail_step` is answered with a success.
That of `finish_build_step` includes its `query_drv` and the conversion of
its times. -/
def CallsSucceed (_ : RowRunner) (a : Action × Bool) : Prop :=
  match a.1 with
  | .call _ ans => ans.ok = true
  | _ => True

/-- `realise_drv_on_valid_machine` returns an error after the commit of its
row. -/
def failsAfterCommit (w : RowRunner) (ans : Answer) (committed : Bool) : Bool :=
  match w.runner.dispatcher with
  | .realise _ _ (.prepare _ _) => !ans.ok && committed
  | .realise _ _ (.send m _) => !(w.runner.shared.machines.machine m).receiverOpen
  | _ => false

/-- The call has taken its job, or takes it now, and cannot store the
overhead that the builder has sent. -/
def overheadFails (w : RowRunner) : CallTask → Bool
  | .succeed _ report (.removeJob _ _) => 2 ^ 31 ≤ report.getOverhead
  | .fail a (.start _ timings) _ =>
    (w.runner.shared.queues.scheduled.lookup a.drv).isSome &&
      decide (2 ^ 31 ≤ timings.getOverhead)
  | _ => false

/-- No await of `realise_drv_on_valid_machine` fails after the commit of the
row, and no call of `succeed_step` or `fail_step` fails before its
`finish_build_step` has committed.  In particular that call does not fail in
`query_drv`, and its times fit into an `i32`. -/
def RowsFinish (w : RowRunner) (a : Action × Bool) : Prop :=
  match a.1 with
  | .dispatch ans => w.failsAfterCommit ans a.2 = false
  | .call t ans => ans.ok = true ∧
    ∀ task ∈ w.runner.calls.lookup t, w.overheadFails task = false
  | _ => True

instance (w : RowRunner) (a : Action × Bool) : Decidable (w.RowsFinish a) :=
  match a with
  | (.dispatch ans, committed) =>
    inferInstanceAs (Decidable (w.failsAfterCommit ans committed = false))
  | (.call t ans, _) => inferInstanceAs (Decidable (ans.ok = true ∧
      ∀ task ∈ w.runner.calls.lookup t, w.overheadFails task = false))
  | (.completeBuild .., _) | (.endStream _, _) | (.queueChange _, _) | (.insertMachine .., _)
  | (.create .., _) | (.dropStep _, _) | (.dropBuild _, _) => inferInstanceAs (Decidable True)

instance (w : RowRunner) (a : Action × Bool) : Decidable (w.CallsSucceed a) :=
  match a with
  | (.call _ ans, _) => inferInstanceAs (Decidable (ans.ok = true))
  | (.dispatch _, _) | (.completeBuild .., _) | (.endStream _, _) | (.queueChange _, _)
  | (.insertMachine .., _) | (.create .., _) | (.dropStep _, _) | (.dropBuild _, _) =>
    inferInstanceAs (Decidable True)

end RowRunner

/-! ## Who finishes a row -/

/-- Somebody is going to finish the row: the job is in a machine, a call has
taken it, or the dispatch loop is about to give it to a machine. -/
def Runner.OwnsRow (r : Runner) (row : StepRow) : Prop :=
  (∃ m, ∃ j ∈ r.shared.jobsOf m, j.row = row) ∨
    (∃ t task job, r.calls.lookup t = some task ∧ task.taken = some job ∧ job.row = row) ∨
    ∃ job, r.dispatcher.numbered = some job ∧ job.row = row

/-- Every busy row has a number and somebody who finishes it. -/
def RowRunner.Owned (w : RowRunner) : Prop :=
  ∀ row ∈ w.busy, row.2 ≠ 0 ∧ w.runner.OwnsRow row

namespace Runner

variable {cfg : Config} {r r' : Runner} {row : StepRow}

/-- A step that takes no job away, ends no task and does not move the
dispatch loop. -/
theorem OwnsRow.mono (h : r.OwnsRow row)
    (hjobs : ∀ m, ∀ j ∈ r.shared.jobsOf m, j ∈ r'.shared.jobsOf m)
    (hcalls : ∀ t task, r.calls.lookup t = some task → r'.calls.lookup t = some task)
    (hd : r'.dispatcher = r.dispatcher) : r'.OwnsRow row := by
  rcases h with ⟨m, j, hj, hrow⟩ | ⟨t, task, job, ht, hjob, hrow⟩ | ⟨job, hjob, hrow⟩
  · exact .inl ⟨m, j, hjobs m j hj, hrow⟩
  · exact .inr (.inl ⟨t, task, job, hcalls t task ht, hjob, hrow⟩)
  · exact .inr (.inr ⟨job, hd ▸ hjob, hrow⟩)

/-- The dispatch loop takes no job away; only its own row changes hands. -/
theorem OwnsRow.dispatch (h : r.OwnsRow row) {s' : Shared} {d' : DispatchPc}
    (hjobs : ∀ m, ∀ j ∈ r.shared.jobsOf m, j ∈ s'.jobsOf m)
    (hown : ∀ job, r.dispatcher.numbered = some job →
      ({ r with shared := s', dispatcher := d' } : Runner).OwnsRow job.row) :
    ({ r with shared := s', dispatcher := d' } : Runner).OwnsRow row := by
  rcases h with ⟨m, j, hj, hrow⟩ | hcall | ⟨job, hjob, rfl⟩
  · exact .inl ⟨m, j, hjobs m j hj, hrow⟩
  · exact .inr (.inl hcall)
  · exact hown job hjob

end Runner

/-! ## The calls -/

theorem succeedStart_taken {s : Shared} {a : Attempt} {item : ScheduledItem} {job : Job}
    (report : BuildReport) (ans : Answer)
    (hitem : s.queues.scheduled.lookup a.drv = some item)
    (hjob : (s.jobsOf item.machine).find? (fun j => j.path == a.drv) = some job) :
    (succeedStart s a report ans).2 = some (.succeed a report (.removeJob item job)) := by
  simp only [Shared.jobsOf] at hjob
  simp [succeedStart, InnerQueues.removeJobFromScheduled, hitem, Machines.removeJob,
    Machine.removeJob, hjob]

theorem failDecide_taken (cfg : Config) (s : Shared) (a : Attempt) (item : ScheduledItem)
    (job : Job) (state : BuildResultState) {timings : BuildTimings} (caller : Caller)
    (ans : Answer) (hfits : timings.getOverhead < 2 ^ 31) :
    ∃ task job', (failDecide cfg s a item job state timings caller ans).2 = some task ∧
      task.taken = some job' ∧ job'.row = job.row := by
  unfold failDecide
  simp only [RemoteBuild.setOverhead, if_pos hfits]
  split_ifs <;> exact ⟨_, _, rfl, rfl, rfl⟩

theorem failStart_taken (cfg : Config) {s : Shared} {a : Attempt} {item : ScheduledItem}
    {job : Job} (state : BuildResultState) {timings : BuildTimings} (caller : Caller)
    (ans : Answer) (hitem : s.queues.scheduled.lookup a.drv = some item)
    (hjob : (s.jobsOf item.machine).find? (fun j => j.path == a.drv) = some job)
    (hfits : timings.getOverhead < 2 ^ 31) :
    ∃ task job', (failStart cfg s a state timings caller ans).2 = some task ∧
      task.taken = some job' ∧ job'.row = job.row := by
  simp only [Shared.jobsOf] at hjob
  simp only [failStart, InnerQueues.removeJobFromScheduled, hitem, Machines.removeJob,
    Machine.removeJob, hjob]
  exact failDecide_taken cfg _ a item job state caller ans hfits

namespace CallTask

variable {cfg : Config} {s : Shared} {held : InfoRef → Bool} {task : CallTask} {ans : Answer}
  {res : Shared × Option CallTask}

/-- A call that ends an attempt takes the job. -/
theorem taken_of_starting {w : RowRunner}
    (hres : task.resume cfg w.runner.shared held ans = some res)
    (hfits : w.overheadFails task = false) {a : Attempt} (hstart : task.starting = some a)
    {item : ScheduledItem} {job : Job}
    (hitem : w.runner.shared.queues.scheduled.lookup a.drv = some item)
    (hjob : (w.runner.shared.jobsOf item.machine).find? (fun j => j.path == a.drv) = some job) :
    ∃ task' job', res.2 = some task' ∧ task'.taken = some job' ∧ job'.row = job.row := by
  cases task with
  | succeed b report pc =>
    cases pc with
    | start =>
      obtain rfl : b = a := Option.some.inj hstart
      obtain rfl := Option.some.inj hres
      exact ⟨_, job, succeedStart_taken report ans hitem hjob, rfl, rfl⟩
    | _ => cases hstart
  | fail b pc caller =>
    cases pc with
    | start state timings =>
      obtain rfl : b = a := Option.some.inj hstart
      obtain rfl := Option.some.inj hres
      have hlt : timings.getOverhead < 2 ^ 31 := by
        simpa [RowRunner.overheadFails, hitem] using hfits
      exact failStart_taken cfg state caller ans hitem hjob hlt
    | _ => cases hstart
  | _ => cases hstart

/-- A call that has taken a job keeps it until the row is finished. -/
theorem taken_of_resume {w : RowRunner} (hres : task.resume cfg w.runner.shared held ans = some res)
    (hfits : w.overheadFails task = false) {job : Job} (htaken : task.taken = some job)
    (hnr : job.stepNr ≠ 0) :
    task.finishing = some job ∨
      ∃ task' job', res.2 = some task' ∧ task'.taken = some job' ∧ job'.row = job.row := by
  cases task with
  | succeed a report pc =>
    cases pc with
    | removeJob item job₀ =>
      obtain rfl : job₀ = job := Option.some.inj htaken
      have hlt : report.getOverhead < 2 ^ 31 := by
        simpa [RowRunner.overheadFails] using hfits
      obtain rfl := Option.some.inj hres
      refine .inr ?_
      simp only [succeedResume, RemoteBuild.setOverhead, if_pos hlt]
      exact ⟨_, _, rfl, rfl, rfl⟩
    | finishBuildStep item job₀ => exact .inl htaken
    | _ => cases htaken
  | fail a pc caller =>
    cases pc with
    | retry item job₀ => exact .inl htaken
    | removeJob item job₀ =>
      obtain rfl : job₀ = job := Option.some.inj htaken
      obtain rfl := Option.some.inj hres
      refine .inr ?_
      simp only [failResume, InnerFail.start, if_pos hnr]
      exact ⟨_, _, rfl, rfl, rfl⟩
    | inner item f =>
      obtain ⟨step, job₀, pc⟩ := f
      cases pc with
      | finishBuildStep => exact .inl htaken
      | _ => cases htaken
    | start state timings => cases htaken
  | _ => cases htaken

end CallTask

namespace RowRunner

variable {cfg : Config} {w w' : RowRunner}

/-- A job stays in its machine or is taken by the call. -/
theorem jobs_of_call (hok : RunnerOk cfg w.runner) {task : CallTask} {ans : Answer}
    {res : Shared × Option CallTask}
    (hres : task.resume cfg w.runner.shared w.runner.held ans = some res)
    (hfits : w.overheadFails task = false) {m : MachineRef} {j : Job}
    (hj : j ∈ w.runner.shared.jobsOf m) :
    j ∈ res.1.jobsOf m ∨
      ∃ task' job', res.2 = some task' ∧ task'.taken = some job' ∧ job'.row = j.row := by
  obtain ⟨s', t'⟩ := res
  have hstep := callStep_of_resume hres
  cases hstep with
  | quiet hstart hsame => exact .inl (by rwa [hsame.jobsOf])
  | missing a rest hstart => exact .inl hj
  | ends a rest item job hstart ht hends =>
    by_cases hm : m = item.machine
    · subst hm
      by_cases hpath : j.path = a.drv
      · refine .inr ?_
        -- the paths of the jobs of a machine differ
        have hsame : j = job := by
          have hjob : job.path = a.drv := by simpa using List.find?_some hends.found
          exact List.inj_on_of_nodup_map (hok.attempts.nodup item.machine) hj
            (List.mem_of_find?_eq_some hends.found) (hpath.trans hjob.symm)
        rw [hsame]
        exact CallTask.taken_of_starting hres hfits hstart hends.unscheduled.found hends.found
      · refine .inl ?_
        rw [hends.jobsOf, if_pos rfl]
        exact List.mem_filter.mpr ⟨hj, by simpa using hpath⟩
    · refine .inl ?_
      rw [hends.jobsOf, if_neg hm]
      exact hj
  | jobMissing a rest item hstart ht hitem hjob =>
    exact absurd hjob (hok.attempts.find_job hitem)
  | removeJob i system hstart ht hremoved => exact .inl (by rw [hremoved.jobsOf]; exact hj)

theorem Owned.call (hok : RunnerOk cfg w.runner) (h : w.Owned) {t : TaskId} {ans : Answer}
    {task : CallTask} {res : Shared × Option CallTask}
    (ht : w.runner.calls.lookup t = some task)
    (hres : task.resume cfg w.runner.shared w.runner.held ans = some res)
    (hfits : w.overheadFails task = false) {busy : List StepRow}
    (hbusy : ∀ row ∈ busy, row ∈ w.busy ∧ ∀ job, task.finishing = some job → row ≠ job.row)
    (used : List StepRow) : Owned ⟨w.runner.setCall t res, busy, used⟩ := by
  have htask : (w.runner.setCall t res).calls.lookup t = res.2 := by
    rw [Runner.lookup_setCall, if_pos rfl]
  intro row hrow
  obtain ⟨hmem, hnot⟩ := hbusy row hrow
  obtain ⟨hnr, howns⟩ := h row hmem
  refine ⟨hnr, ?_⟩
  rcases howns with ⟨m, j, hj, rfl⟩ | ⟨t', task₀, job, ht', htaken, rfl⟩ | hdispatch
  · rcases jobs_of_call hok hres hfits hj with hj | ⟨task', job', hres2, htaken, hrow'⟩
    · exact .inl ⟨m, j, hj, rfl⟩
    · exact .inr (.inl ⟨t, task', job', htask.trans hres2, htaken, hrow'⟩)
  · by_cases heq : t' = t
    · subst heq
      obtain rfl : task = task₀ := Option.some.inj (ht.symm.trans ht')
      rcases CallTask.taken_of_resume hres hfits htaken hnr with
        hfinish | ⟨task', job', hres2, htaken', hrow'⟩
      · exact absurd rfl (hnot job hfinish)
      · exact .inr (.inl ⟨t', task', job', htask.trans hres2, htaken', hrow'⟩)
    · refine .inr (.inl ⟨t', task₀, job, ?_, htaken, rfl⟩)
      rw [Runner.lookup_setCall, if_neg heq]
      exact ht'
  · exact .inr (.inr hdispatch)

/-- The realisation creates the row of its job, hands it on, and gives it to
the machine. -/
theorem Owned.dispatch (hok : RunnerOk cfg w.runner) (h : w.Owned) {ans : Answer}
    {committed : Bool} {s' : Shared} {d' : DispatchPc}
    (hfinish : w.RowsFinish (.dispatch ans, committed))
    (hres : w.runner.dispatcher.resume cfg w.runner.shared w.runner.held ans = some (s', d'))
    (hrows : w.updateRows (.dispatch ans) committed = some w') :
    Owned { w' with runner := { w.runner with shared := s', dispatcher := d' } } := by
  have hjobs := (DispatchStep.keepsAttempts hok.pointers (dispatchStep_of_resume hres)).jobsOf
  -- a step that does not concern the row of a job
  have hkeeps : w' = w →
      (∀ job, w.runner.dispatcher.numbered = some job →
        ({ w.runner with shared := s', dispatcher := d' } : Runner).OwnsRow job.row) →
      Owned { w' with runner := { w.runner with shared := s', dispatcher := d' } } := by
    rintro rfl hown row hrow
    exact ⟨(h row hrow).1, (h row hrow).2.dispatch hjobs hown⟩
  cases hd : w.runner.dispatcher with
  | realise walk i pc =>
    simp only [RowsFinish, failsAfterCommit, updateRows, hd] at hfinish hrows
    rw [hd] at hres
    simp only [DispatchPc.resume, Option.some.injEq] at hres
    cases pc with
    | prepare m job =>
      simp only [realiseResume] at hres
      cases hans : ans.ok with
      | true =>
        simp only [hans, Bool.true_or, if_true, createRow, Option.ite_none_right_eq_some]
          at hrows hres
        obtain ⟨⟨hnr, -⟩, hw⟩ := hrows
        obtain rfl := Option.some.inj hw
        obtain ⟨rfl, rfl⟩ := Prod.mk.inj hres
        intro row hrow
        rcases List.mem_cons.mp hrow with rfl | hrow
        · exact ⟨hnr, .inr (.inr ⟨_, rfl, rfl⟩)⟩
        · refine ⟨(h row hrow).1, (h row hrow).2.dispatch hjobs ?_⟩
          intro job' hjob'
          simp [hd, DispatchPc.numbered] at hjob'
      | false =>
        have hc : committed = false := by simpa [hans] using hfinish
        simp only [hans, hc] at hrows
        refine hkeeps (Option.some.inj hrows).symm ?_
        intro job' hjob'
        simp [hd, DispatchPc.numbered] at hjob'
    | send m job =>
      simp only [realiseResume] at hres
      rw [if_pos (by simpa using hfinish)] at hres
      obtain ⟨rfl, rfl⟩ := Prod.mk.inj hres
      refine hkeeps (Option.some.inj hrows).symm ?_
      intro job' hjob'
      simp only [hd, DispatchPc.numbered, Option.some.injEq] at hjob'
      exact .inr (.inr ⟨job, rfl, by rw [hjob']⟩)
    | sent m job =>
      simp only [realiseResume] at hres
      obtain ⟨rfl, rfl⟩ := Prod.mk.inj hres
      refine hkeeps (Option.some.inj hrows).symm ?_
      intro job' hjob'
      simp only [hd, DispatchPc.numbered, Option.some.injEq] at hjob'
      subst hjob'
      refine .inl ⟨m, job, ?_, rfl⟩
      rw [Attempts.jobsOf_buildDrvSent, if_pos rfl]
      simp
    | _ =>
      refine hkeeps (Option.some.inj hrows).symm ?_
      intro job' hjob'
      simp [hd, DispatchPc.numbered] at hjob'
  | _ =>
    simp only [updateRows, hd] at hrows
    refine hkeeps (Option.some.inj hrows).symm ?_
    intro job' hjob'
    simp [hd, DispatchPc.numbered] at hjob'

theorem Owned.spawn (hok : RunnerOk cfg w.runner) (h : w.Owned) {r₀ : Runner}
    {res : Shared × Option CallTask} (hcalls : r₀.calls = w.runner.calls)
    (htask : r₀.nextTask = w.runner.nextTask) (hd : r₀.dispatcher = w.runner.dispatcher)
    (hjobs : ∀ m, res.1.jobsOf m = w.runner.shared.jobsOf m) :
    Owned { w with runner := r₀.spawn res } := by
  intro row hrow
  refine ⟨(h row hrow).1, (h row hrow).2.mono ?_ ?_ ?_⟩
  · intro m j hj
    rwa [Runner.spawn_shared, hjobs]
  · intro t task ht
    have hlt := hok.tasks t task ht
    rw [Runner.lookup_spawn, if_neg, hcalls]
    · exact ht
    · rintro ⟨rfl, -⟩
      exact absurd hlt (by rw [htask]; exact Nat.lt_irrefl _)
  · rw [Runner.spawn_dispatcher, hd]

theorem next_cases {a : Action × Bool} (hnext : w.next cfg a = some w') :
    ∃ r w₀, w.runner.next cfg a.1 = some r ∧ w.updateRows a.1 a.2 = some w₀ ∧
      w' = { w₀ with runner := r } := by
  unfold next at hnext
  split at hnext
  · rename_i r w₀ hr hw
    exact ⟨r, w₀, hr, hw, (Option.some.inj hnext).symm⟩
  · cases hnext

/-- Every step that meets the condition leaves each busy row with somebody
who finishes it. -/
theorem Owned.step (hok : RunnerOk cfg w.runner) (h : w.Owned) {a : Action × Bool}
    (hfinish : w.RowsFinish a) (hnext : w.next cfg a = some w') : w'.Owned := by
  obtain ⟨r, w₀, hr, hrows, rfl⟩ := next_cases hnext
  obtain ⟨a, committed⟩ := a
  have hstep := runnerStep_of_next hr
  cases hstep with
  | dispatch hres => exact h.dispatch hok hfinish hres hrows
  | call ht hres =>
    rename_i t ans task res
    obtain ⟨hans, hfits⟩ := hfinish
    simp only [updateRows, ht, Option.bind_some, hans, if_true] at hrows
    refine h.call hok ht hres (hfits task ht) ?_ w₀.used
    intro row hrow
    split at hrows
    · rename_i job hjob
      obtain rfl := Option.some.inj hrows
      obtain ⟨hmem, hne⟩ := List.mem_filter.mp hrow
      refine ⟨hmem, ?_⟩
      intro job' hjob'
      obtain rfl := Option.some.inj (hjob.symm.trans hjob')
      simpa using hne
    · rename_i hnone
      obtain rfl := Option.some.inj hrows
      refine ⟨hrow, ?_⟩
      intro job' hjob'
      rw [hnone] at hjob'
      cases hjob'
  | completeBuild uuid machineId state report =>
    obtain rfl := Option.some.inj hrows
    obtain ⟨results, hs, -⟩ := completeBuild_spec w.runner.shared uuid machineId state report
    exact h.spawn hok rfl rfl rfl (fun m => by rw [hs]; rfl)
  | endStream hm =>
    rename_i m
    obtain rfl := Option.some.inj hrows
    obtain ⟨machines, task, hs, -, hmachine, -⟩ := endStream_spec w.runner.shared m
    refine h.spawn hok rfl rfl rfl (fun m' => ?_)
    rw [hs, Shared.jobsOf, hmachine]
    rfl
  | queueChange curIds =>
    obtain rfl := Option.some.inj hrows
    exact h.spawn hok rfl rfl rfl (fun _ => rfl)
  | insertMachine id record sortFn =>
    obtain rfl := Option.some.inj hrows
    intro row hrow
    refine ⟨(h row hrow).1, (h row hrow).2.mono ?_ (fun _ _ ht => ht) rfl⟩
    intro m j hj
    rw [← hok.jobsOf_insertMachine id (.new record) sortFn rfl] at hj
    exact hj
  | create hcreate =>
    obtain rfl := Option.some.inj hrows
    intro row hrow
    exact ⟨(h row hrow).1, (h row hrow).2.mono (fun _ _ hj => hj) (fun _ _ ht => ht) rfl⟩
  | dropStep hheld =>
    obtain rfl := Option.some.inj hrows
    intro row hrow
    exact ⟨(h row hrow).1, (h row hrow).2.mono (fun _ _ hj => hj) (fun _ _ ht => ht) rfl⟩
  | dropBuild hheld =>
    obtain rfl := Option.some.inj hrows
    intro row hrow
    exact ⟨(h row hrow).1, (h row hrow).2.mono (fun _ _ hj => hj) (fun _ _ ht => ht) rfl⟩

theorem runnerOk_of_next (hok : RunnerOk cfg w.runner) {a : Action × Bool}
    (hnext : w.next cfg a = some w') : RunnerOk cfg w'.runner := by
  obtain ⟨r, w₀, hr, -, rfl⟩ := next_cases hnext
  exact hok.step (runnerStep_of_next hr)

theorem runnerOk_of_reach {ok : RowRunner → Action × Bool → Prop}
    (hrun : Lts.Reach (next cfg) ok {} w) : RunnerOk cfg w.runner :=
  hrun.invariant (I := fun w => RunnerOk cfg w.runner) RunnerOk.init
    (fun _ _ _ hok _ hnext => runnerOk_of_next hok hnext)

theorem Owned.reach (hrun : Lts.Reach (next cfg) RowsFinish {} w) : w.Owned := by
  have hinv : RunnerOk cfg w.runner ∧ w.Owned := by
    refine hrun.invariant (I := fun w => RunnerOk cfg w.runner ∧ w.Owned)
      ⟨RunnerOk.init, by intro row hrow; cases hrow⟩ ?_
    intro w a w' ⟨hok, howned⟩ hfinish hnext
    exact ⟨runnerOk_of_next hok hnext, howned.step hok hfinish hnext⟩
  exact hinv.2

theorem numbered_eq_none {d : DispatchPc} (h : d.info = none) : d.numbered = none := by
  cases d with
  | realise w i pc => cases h
  | _ => rfl

end RowRunner

/-- In a run in which no await after the commit of a row fails, and no call
of `succeed_step` or `fail_step` fails before it has finished its row, every
busy row is the row of a job of some machine, whenever no dispatch is in
progress and no call stands between the removal of a job and its
`finish_build_step`. -/
theorem rowsLive_runs {cfg : Config} {w : RowRunner}
    (hrun : Lts.Reach (RowRunner.next cfg) RowRunner.RowsFinish {} w) (htaken : w.NoneTaken) :
    w.RowsLive := by
  intro hidle row hrow
  obtain ⟨-, hjob | ⟨t, task, job, ht, htask, -⟩ | ⟨job, hjob, -⟩⟩ :=
    RowRunner.Owned.reach hrun row hrow
  · exact hjob
  · rw [htaken t task ht] at htask
    cases htask
  · rw [RowRunner.numbered_eq_none hidle] at hjob
    cases hjob

namespace RowRunner

theorem noneTaken_of_keys {w : RowRunner} (h : w.runner.calls.keys = []) : w.NoneTaken := by
  intro t task ht
  have hmem : t ∈ w.runner.calls.keys := AList.mem_keys.mpr (AList.lookup_isSome.mp (by simp [ht]))
  rw [h] at hmem
  cases hmem

/-- A whole pass: the row of the step, and the job that has it. -/
def dispatched : List (Action × Bool) :=
  (Sample.register :: Sample.created ++ Sample.sent ++ Sample.scheduled ++ Sample.passEnd).map
    (fun a => (a, false))

/-- The same pass, in which the notification fails after the commit of the
row. -/
def notNotified : List (Action × Bool) :=
  (Sample.register :: Sample.created ++ Sample.sent.take 9).map (fun a => (a, false)) ++
    [(.dispatch { ok := false }, true)] ++ Sample.passEnd.map (fun a => (a, false))

end RowRunner

theorem rowsLive_runs_pass : ∃ w,
    Lts.Reach (RowRunner.next Sample.config) RowRunner.RowsFinish {} w ∧
      w.busy = [(1, 1)] ∧ w.RowsLive := by
  have hend : (Lts.runWith (RowRunner.next Sample.config) RowRunner.RowsFinish {}
      RowRunner.dispatched).map (fun w => (w.busy, w.runner.calls.keys)) =
      some ([(1, 1)], []) := by decide +kernel
  obtain ⟨w, hw, he⟩ := Option.map_eq_some_iff.mp hend
  simp only [Prod.mk.injEq] at he
  have hrun := Lts.reach_of_runWith hw
  exact ⟨w, hrun, he.1, rowsLive_runs hrun (RowRunner.noneTaken_of_keys he.2)⟩

/-- The notification fails after the commit of the row: at the end of the
pass the row is busy, and no machine has a job. -/
theorem rowsLive_fails : ∃ w,
    Lts.Reach (RowRunner.next Sample.config) RowRunner.CallsSucceed {} w ∧
      w.runner.dispatcher.info = none ∧ w.NoneTaken ∧ ¬ w.RowsLive := by
  have hend : (Lts.runWith (RowRunner.next Sample.config) RowRunner.CallsSucceed {}
      RowRunner.notNotified).map (fun w => (w.busy, w.runner.calls.keys,
        w.runner.shared.queues.scheduled.keys, w.runner.dispatcher.info)) =
      some ([(1, 1)], [], [], none) := by
    decide +kernel
  obtain ⟨w, hw, he⟩ := Option.map_eq_some_iff.mp hend
  simp only [Prod.mk.injEq] at he
  obtain ⟨hbusy, hcalls, hscheduled, hinfo⟩ := he
  have hrun := Lts.reach_of_runWith hw
  refine ⟨w, hrun, hinfo, RowRunner.noneTaken_of_keys hcalls, fun hlive => ?_⟩
  obtain ⟨m, j, hj, -⟩ := hlive hinfo (1, 1) (by simp [hbusy])
  rcases (RowRunner.runnerOk_of_reach hrun).attempts.job m j hj with
    ⟨item, hitem, -⟩ | ⟨-, i, hattempt⟩
  · have hmem : j.path ∈ w.runner.shared.queues.scheduled.keys :=
      AList.mem_keys.mpr (AList.lookup_isSome.mp (by
        rw [Runner.item] at hitem
        simp [hitem]))
    rw [hscheduled] at hmem
    cases hmem
  · rw [(DispatchPc.attempt_eq_none_of_info hinfo).1] at hattempt
    cases hattempt

end QueueRunner
