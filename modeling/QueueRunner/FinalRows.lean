import QueueRunner.StatusReports

/-!
# The final status of a row

`update_build_step_in_finish` writes the final status of a row whatever the
row holds.  So the status only stays because nobody finishes a row twice: a
job is in one place at a time, in the hands of the dispatch loop, in one
machine, or with one call, and the call that finishes the row lets the job
go.
-/

namespace QueueRunner

/-! ## Who has taken a job -/

namespace CallTask

variable {cfg : Config} {s : Shared} {held : InfoRef → Bool} {task u : CallTask} {ans : Answer}
  {res : Shared × Option CallTask} {job j : Job}

/-- A call lets the job go when its row is finished. -/
theorem not_takes_of_finishing (hres : task.resume cfg s held ans = some res)
    (hfinishing : task.finishing = some job) (hu : res.2 = some u) : u.taken = none := by
  cases task with
  | succeed a report pc =>
    cases pc with
    | finishBuildStep item job₀ =>
      cases hres
      simp only [succeedResume] at hu
      by_cases hok : ans.ok = true
      · rw [if_pos hok] at hu
        cases hu
        rfl
      · rw [if_neg hok] at hu
        cases hu
    | _ => cases hfinishing
  | fail a pc caller =>
    cases pc with
    | retry item job₀ =>
      cases hres
      exact Caller.taken_next hu
    | inner item f =>
      cases hres
      simp only [failResume] at hu
      split at hu
      · rename_i s' f' heq
        cases hu
        obtain ⟨step, job₀, pc⟩ := f'
        have hpc := InnerFail.resume_pc heq
        cases pc with
        | finishBuildStep => exact absurd rfl hpc
        | _ => rfl
      · exact Caller.taken_next hu
    | _ => cases hfinishing
  | _ => cases hfinishing

end CallTask

/-- An attempt that has ended has ended for good. -/
theorem CallStep.ended_subset {cfg : Config} {r : Runner} (hok : RunnerOk cfg r)
    {task : CallTask} {s' : Shared} {t' : Option CallTask}
    (hs : CallStep r.shared r.held task s' t') : r.shared.log.ended ⊆ s'.log.ended := by
  cases hs with
  | quiet hstart hsame => exact hsame.ended ▸ List.Subset.refl _
  | missing => exact List.Subset.refl _
  | ends a rest item job hstart ht hends =>
    rw [hends.ended]
    exact List.subset_cons_self _ _
  | jobMissing a rest item hstart ht hitem hnone =>
    exact absurd hnone (hok.attempts.find_job hitem)
  | removeJob i system hstart hi hremoved => exact hremoved.ended ▸ List.Subset.refl _

namespace Runner

variable {cfg : Config} {r r' : Runner}

theorem ended_subset (hok : RunnerOk cfg r) {a : Action} (hs : RunnerStep cfg r a r') :
    r.shared.log.ended ⊆ r'.shared.log.ended := by
  cases hs with
  | @dispatch ans s' d' hres =>
    have hkeeps := DispatchStep.keepsAttempts hok.pointers (dispatchStep_of_resume hres)
    exact hkeeps.ended ▸ List.Subset.refl _
  | call ht hres => exact CallStep.ended_subset hok (callStep_of_resume hres)
  | completeBuild uuid machineId state report =>
    obtain ⟨results, hshared, -⟩ := completeBuild_spec r.shared uuid machineId state report
    rw [Runner.spawn_shared, hshared]
    exact List.Subset.refl _
  | @endStream m hm =>
    obtain ⟨machines, task, hshared, -⟩ := endStream_spec r.shared m
    rw [Runner.spawn_shared, hshared]
    exact List.Subset.refl _
  | queueChange curIds =>
    rw [Runner.spawn_shared]
    exact List.Subset.refl _
  | _ => exact List.Subset.refl _

end Runner

/-- The job that has got its row is the one of the attempt. -/
theorem DispatchPc.attempt_of_numbered {d : DispatchPc} {job : Job}
    (h : d.numbered = some job) : ∃ i m, d.attempt = some (i, m, job) := by
  cases d with
  | realise w i pc =>
    cases pc with
    | send m job₀ =>
      cases h
      exact ⟨i, m, rfl⟩
    | sent m job₀ =>
      cases h
      exact ⟨i, m, rfl⟩
    | _ => cases h
  | _ => cases h

/-! ## A row is finished once -/

/-- A job is in one place, and as long as it is anywhere its row is busy. -/
structure StatusRunner.SoleOwners (w : StatusRunner) : Prop where
  ended : ∀ t job, w.rows.runner.Takes t job →
    job.internalBuildId ∈ w.rows.runner.shared.log.ended
  once : ∀ t t' job job', w.rows.runner.Takes t job → w.rows.runner.Takes t' job' →
    job.internalBuildId = job'.internalBuildId → t = t'
  busy : ∀ job, w.rows.runner.Carries job → job.row ∈ w.rows.busy

namespace StatusRunner

variable {cfg : Config} {w w' : StatusRunner}

namespace SoleOwners

theorem init : SoleOwners {} where
  ended t job h := by
    obtain ⟨task, ht, -⟩ := h
    cases ht
  once t t' job job' h := by
    obtain ⟨task, ht, -⟩ := h
    cases ht
  busy job h := by
    rcases h with hd | ⟨m, hm⟩ | ⟨t, task, ht, -⟩
    · cases hd
    · cases hm
    · cases ht

/-- A step that does not touch the runner. -/
theorem of_rows (h : w.SoleOwners) (hrows : w'.rows = w.rows) : w'.SoleOwners := by
  obtain ⟨rows, buildsteps, creator, reports⟩ := w'
  obtain rfl : rows = w.rows := hrows
  exact ⟨h.ended, h.once, h.busy⟩

/-- A job that a call takes up is in no other call. -/
theorem once_of_step (h : w.SoleOwners) (hok : RunnerOk cfg w.rows.runner) {a : Action}
    {r' : Runner} (hs : RunnerStep cfg w.rows.runner a r') {t t' : TaskId} {job job' : Job}
    (ht : r'.Takes t job) (ht' : r'.Takes t' job')
    (huuid : job.internalBuildId = job'.internalBuildId) : t = t' := by
  obtain ⟨job₀, horigin, hcase⟩ := Runner.takes_cases hs ht
  obtain ⟨job₀', horigin', hcase'⟩ := Runner.takes_cases hs ht'
  have heq : job₀.internalBuildId = job₀'.internalBuildId :=
    ((congrArg Prod.snd horigin).symm.trans huuid).trans (congrArg Prod.snd horigin')
  rcases hcase with hold | ⟨⟨m, hm⟩, -, ans, ha⟩
  · rcases hcase' with hold' | ⟨⟨m, hm⟩, -, ans, ha⟩
    · exact h.once t t' job₀ job₀' hold hold' heq
    · exact absurd heq.symm ((hok.attempts.ended _ (h.ended t job₀ hold)).2 m job₀' hm)
  · rcases hcase' with hold' | ⟨⟨m', hm'⟩, -, ans', ha'⟩
    · exact absurd heq ((hok.attempts.ended _ (h.ended t' job₀' hold')).2 m job₀ hm)
    · rw [ha] at ha'
      exact (Action.call.inj ha').1

theorem ended_of_step (h : w.SoleOwners) (hok : RunnerOk cfg w.rows.runner) {a : Action}
    {r' : Runner} (hs : RunnerStep cfg w.rows.runner a r') {t : TaskId} {job : Job}
    (ht : r'.Takes t job) : job.internalBuildId ∈ r'.shared.log.ended := by
  obtain ⟨job₀, horigin, hcase⟩ := Runner.takes_cases hs ht
  rw [show job.internalBuildId = job₀.internalBuildId from congrArg Prod.snd horigin]
  rcases hcase with hold | ⟨-, hended, -⟩
  · exact Runner.ended_subset hok hs (h.ended t job₀ hold)
  · exact hended

/-- After the step that finishes a row nobody has a job with the row. -/
theorem row_ne_of_finished (h : w.SoleOwners) (hord : w.InOrder)
    (hok : RunnerOk cfg w.rows.runner) {a : Action} {r' : Runner}
    (hs : RunnerStep cfg w.rows.runner a r') {job job' : Job}
    (hfinished : w.rows.finished a = some job) (hjob' : r'.Carries job') :
    job'.row ≠ job.row := by
  intro hrow
  have huuid : ∀ job₀, w.rows.runner.Carries job₀ → job₀.row = job.row →
      job₀.internalBuildId = job.internalBuildId := by
    intro job₀ h₀ hrow₀
    have hcreator := hord.carried job₀ h₀
    rw [hrow₀, hord.carried job (RowRunner.carries_of_finished hfinished)] at hcreator
    exact (Option.some.inj hcreator).symm
  cases hs with
  | call ht hres =>
    rename_i t ans task res
    simp only [RowRunner.finished, ht, Option.bind_some, Option.ite_none_right_eq_some]
      at hfinished
    obtain ⟨-, hfinishing⟩ := hfinished
    have htakes : w.rows.runner.Takes t job :=
      ⟨task, ht, CallTask.taken_of_finishing hfinishing⟩
    have hended := h.ended t job htakes
    rcases hjob' with hd | ⟨m, hm⟩ | ⟨t', u, hu, hj⟩
    · -- the attempt of the dispatch loop has not ended
      obtain ⟨i, m, hattempt⟩ := DispatchPc.attempt_of_numbered hd
      have hnot := (hok.attempts.path i m job' hattempt).2.2
      rw [huuid job' (Or.inl hd) hrow] at hnot
      exact hnot hended
    · have hmem := SentLog.call_jobs (callStep_of_resume hres) hok hm
      exact (hok.attempts.ended _ hended).2 m job' hmem
        (huuid job' (Or.inr (Or.inl ⟨m, hmem⟩)) hrow)
    · rw [Runner.lookup_setCall] at hu
      split_ifs at hu with heq
      · rw [CallTask.not_takes_of_finishing hres hfinishing hu] at hj
        cases hj
      · have hother : w.rows.runner.Takes t' job' := ⟨u, hu, hj⟩
        exact heq (h.once t' t job' job hother htakes
          (huuid job' (Or.inr (Or.inr ⟨t', u, hu, hj⟩)) hrow))
  | _ => cases hfinished

/-- The rows of the jobs that are carried stay busy. -/
theorem busy_of_step (h : w.SoleOwners) (hord : w.InOrder) (hok : RunnerOk cfg w.rows.runner)
    {a : Action} {committed : Bool} {r' : Runner} {rows : RowRunner}
    (hs : RunnerStep cfg w.rows.runner a r')
    (hupdate : w.rows.updateRows a committed = some rows) {job : Job}
    (hjob : r'.Carries job) : job.row ∈ rows.busy := by
  have hcases : job.row ∈ w.rows.busy ∨ w.rows.created a committed = some job := by
    rcases Runner.carries_cases hok hs hjob with
      ⟨job₀, hold, horigin⟩ | ⟨walk, i, m, job₀, ans, rfl, hd, hans, rfl⟩
    · rw [show job.row = job₀.row from congrArg Prod.fst horigin]
      exact Or.inl (h.busy job₀ hold)
    · refine Or.inr ?_
      simp [RowRunner.created, hd, hans]
  rw [RowRunner.updateRows_eq] at hupdate
  cases hcreated : w.rows.created a committed with
  | some new =>
    simp only [hcreated, RowRunner.createRow, Option.ite_none_right_eq_some] at hupdate
    obtain rfl := Option.some.inj hupdate.2
    rcases hcases with hbusy | hnew
    · exact List.mem_cons_of_mem _ hbusy
    · obtain rfl := Option.some.inj (hcreated.symm.trans hnew)
      exact List.mem_cons_self
  | none =>
    have hbusy : job.row ∈ w.rows.busy := by
      refine hcases.resolve_right ?_
      rw [hcreated]
      simp
    cases hfinished : w.rows.finished a with
    | some done =>
      simp only [hcreated, hfinished] at hupdate
      obtain rfl := Option.some.inj hupdate
      have hne := h.row_ne_of_finished hord hok hs hfinished hjob
      exact List.mem_filter.mpr ⟨hbusy, by simpa using hne⟩
    | none =>
      simp only [hcreated, hfinished] at hupdate
      obtain rfl := Option.some.inj hupdate
      exact hbusy

theorem step (h : w.SoleOwners) (hord : w.InOrder) (hok : RunnerOk cfg w.rows.runner)
    {a : StatusAction} (hnext : w.next cfg a = some w') : w'.SoleOwners := by
  cases a with
  | run a committed connecting =>
    simp only [next] at hnext
    split at hnext
    · cases hnext
    · rename_i rows hrows
      obtain rfl := Option.some.inj hnext
      obtain ⟨r, w₀, hr, hupdate, rfl⟩ := RowRunner.next_cases hrows
      have hs := runnerStep_of_next hr
      exact ⟨fun t job ht => h.ended_of_step hok hs ht,
        fun t t' job job' ht ht' huuid => h.once_of_step hok hs ht ht' huuid,
        fun job hjob => h.busy_of_step hord hok hs hupdate hjob⟩
  | stepUpdate uuid machineId status =>
    obtain rfl := Option.some.inj hnext
    exact h.of_rows (rows_stepUpdate w uuid machineId status)
  | write report ok =>
    simp only [next, Option.ite_none_right_eq_some] at hnext
    obtain rfl := Option.some.inj hnext.2
    exact h.of_rows rfl

theorem reach {ok : StatusRunner → StatusAction → Prop}
    (h : Lts.Reach (StatusRunner.next cfg) ok {} w) : w.SoleOwners := by
  have hinv : RunnerOk cfg w.rows.runner ∧ w.SoleOwners := by
    refine h.invariant_of_reach (I := fun w => RunnerOk cfg w.rows.runner ∧ w.SoleOwners)
      ⟨RunnerOk.init, init⟩ ?_
    intro w a w' hreach hw _ hnext
    exact ⟨runnerOk_of_next hw.1 hnext,
      hw.2.step (InOrder.reach hreach) hw.1 hnext⟩
  exact hinv.2

end SoleOwners

/-- A step leaves a finished row as it is. -/
theorem lookup_of_finished (h : w.SoleOwners) (hord : w.InOrder) {a : StatusAction}
    (hnext : w.next cfg a = some w') {row : StepRow} {rec : StepRecord}
    (hrec : w.buildsteps.lookup row = some rec) (hfinal : rec.Finished) :
    w'.buildsteps.lookup row = some rec := by
  by_contra hchanged
  cases a with
  | run a committed connecting =>
    obtain ⟨job, hfinished, rfl⟩ := hord.finished_of_changed hnext hrec hchanged
    -- the row of a job that a call finishes is busy
    obtain ⟨old, hold, hbusy⟩ :=
      hord.busy job.row (h.busy job (RowRunner.carries_of_finished hfinished))
    obtain rfl := Option.some.inj (hrec.symm.trans hold)
    exact hbusy.1 hfinal.1
  | stepUpdate uuid machineId status =>
    obtain rfl := Option.some.inj hnext
    rw [buildsteps_stepUpdate] at hchanged
    exact hchanged hrec
  | write report ok =>
    simp only [next, Option.ite_none_right_eq_some] at hnext
    obtain rfl := Option.some.inj hnext.2
    cases ok with
    | false => exact hchanged hrec
    | true =>
      rcases BuildSteps.lookup_updateBuildStep w.buildsteps report.row report.status row with
        heq | ⟨rfl, old, hold, hbusy, -⟩
      · exact hchanged (heq.trans hrec)
      · obtain rfl := Option.some.inj (hrec.symm.trans hold)
        exact hbusy.1 hfinal.1

end StatusRunner

/-- In every run a row that has its final status keeps it: whatever calls end,
whatever attempts follow, and whatever reports are written later, no step
changes the row again. -/
theorem final_status_stays (cfg : Config) (w w' : StatusRunner)
    (h : Lts.Reach (StatusRunner.next cfg) Lts.anyStep {} w)
    (h' : Lts.Reach (StatusRunner.next cfg) Lts.anyStep w w') (row : StepRow)
    (rec : StepRecord) (hrec : w.buildsteps.lookup row = some rec) (hfinal : rec.Finished) :
    w'.buildsteps.lookup row = some rec := by
  induction h' with
  | refl => exact hrec
  | step a hreach _ hnext ih =>
    have hrun := h.trans hreach
    exact StatusRunner.lookup_of_finished (StatusRunner.SoleOwners.reach hrun)
      (StatusRunner.InOrder.reach hrun) hnext ih hfinal

theorem final_status_stays_late : ∃ w w',
    Lts.Reach (StatusRunner.next Sample.config) Lts.anyStep {} w ∧
      Lts.Reach (StatusRunner.next Sample.config) Lts.anyStep w w' ∧
      w.reports = [⟨0, (1, 1), .building⟩] ∧ w'.reports = [] ∧
      w'.buildsteps.lookup (1, 1) = some ⟨0, some .success⟩ := by
  have hend : (Lts.run (StatusRunner.next Sample.config) {} StatusRunner.lateReport).bind
      (fun w => (Lts.run (StatusRunner.next Sample.config) w
        [.write ⟨0, (1, 1), .building⟩ true]).map (fun w' =>
          (w.reports, w.buildsteps.lookup (1, 1), w'.reports))) =
      some ([⟨0, (1, 1), .building⟩], some ⟨0, some .success⟩, []) := by
    decide +kernel
  obtain ⟨w, hw, he⟩ := Option.bind_eq_some_iff.mp hend
  obtain ⟨w', hw', he'⟩ := Option.map_eq_some_iff.mp he
  simp only [Prod.mk.injEq] at he'
  obtain ⟨hreports, hrec, hreports'⟩ := he'
  have hrun := Lts.reach_of_run hw
  have hrun' := Lts.reach_of_run hw'
  exact ⟨w, w', hrun, hrun', hreports, hreports',
    final_status_stays Sample.config w w' hrun hrun' (1, 1) _ hrec ⟨rfl, by simp⟩⟩

end QueueRunner
