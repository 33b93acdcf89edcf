import QueueRunner.Retries

/-!
# A step that has succeeded is done

`fail_step` takes the mark `finished` back from the step of its item, and
the dispatch loop sends every runnable step that is not finished.  Neither
happens to a step that has succeeded: its item left `scheduled` with the
success, and the loop skips it as long as it is finished.
-/

namespace QueueRunner

/-- No step of the runner forgets what was decided about a step. -/
theorem RunnerStep.verdicts_subset {cfg : Config} {r r' : Runner} {a : Action}
    (h : RunnerStep cfg r a r') (hok : RunnerOk cfg r) :
    r.shared.log.succeeded ⊆ r'.shared.log.succeeded ∧
      r.shared.log.failed ⊆ r'.shared.log.failed := by
  have hsame : ∀ {l l' : Log}, l.SameVerdicts l' →
      l.succeeded ⊆ l'.succeeded ∧ l.failed ⊆ l'.failed := fun hl =>
    ⟨hl.succeeded ▸ List.Subset.refl _, hl.failed ▸ List.Subset.refl _⟩
  have hlog := h.sameVerdicts
  cases h with
  | @call t ans task res ht hres =>
    show r.shared.log.succeeded ⊆ res.1.log.succeeded ∧ r.shared.log.failed ⊆ res.1.log.failed
    cases callVerdict_of_resume hres with
    | pending hquiet hnone => exact hsame hquiet
    | succeeds b report item htask hitem hfailed hsucceeded hfin htries =>
      rw [hsucceeded, hfailed]
      exact ⟨List.subset_cons_self _ _, List.Subset.refl _⟩
    | retries b state timings caller item htask hitem hquiet htries hlt => exact hsame hquiet
    | givesUp b state timings caller item job htask hitem hfailed hsucceeded ht' =>
      rw [hsucceeded, hfailed]
      exact ⟨List.Subset.refl _, List.subset_cons_self _ _⟩
    | overflows b state timings caller htask hover hquiet => exact hsame hquiet
    | jobMissing b item hstart hitem hjob => exact absurd hjob (hok.attempts.find_job hitem)
  | _ => exact hsame (hlog (by simp))

/-- A step that has succeeded keeps its mark, and nobody works on it. -/
structure Final (r : Runner) : Prop where
  marked : ∀ s ∈ r.shared.log.succeeded, s.gen < r.shared.graph.fresh ∧
    (r.shared.graph.step s).finished = true
  item : ∀ drv item, r.item drv = some item →
    item.stepInfo.step ∉ r.shared.log.succeeded
  attempt : ∀ i m job, r.dispatcher.attempt = some (i, m, job) →
    i.step ∉ r.shared.log.succeeded

namespace Final

variable {cfg : Config} {r r' : Runner}

theorem init : Final {} := by
  constructor <;> simp [Runner.item, DispatchPc.attempt]

/-- A step of the runner in which nothing is decided. -/
theorem of_same (h : Final r)
    (hfresh : r.shared.graph.fresh ≤ r'.shared.graph.fresh)
    (hfinished : ∀ s : StepRef, s.gen < r.shared.graph.fresh →
      (r.shared.graph.step s).finished = true → (r'.shared.graph.step s).finished = true)
    (hsucceeded : r'.shared.log.succeeded = r.shared.log.succeeded)
    (hitem : ∀ drv item, r'.item drv = some item →
      item.stepInfo.step ∉ r.shared.log.succeeded)
    (hattempt : ∀ i m job, r'.dispatcher.attempt = some (i, m, job) →
      i.step ∉ r.shared.log.succeeded) : Final r' := by
  refine ⟨fun s hs => ?_, fun drv item hi => hsucceeded ▸ hitem drv item hi,
    fun i m job ha => hsucceeded ▸ hattempt i m job ha⟩
  rw [hsucceeded] at hs
  obtain ⟨hgen, hfin⟩ := h.marked s hs
  exact ⟨by omega, hfinished s hgen hfin⟩

/-- A step of the dispatch loop: what it takes up is not finished. -/
theorem dispatch (h : Final r) {ans : Answer} {s' : Shared} {d' : DispatchPc}
    (hres : r.dispatcher.resume cfg r.shared r.held ans = some (s', d')) :
    Final { r with shared := s', dispatcher := d' } := by
  have hs := dispatchStep_of_resume hres
  have hfades := dispatch_fades hres
  refine h.of_same (Nat.le_of_eq hfades.fresh.symm)
    (fun s _ hf => (hfades.sameBase s).finished.trans hf) (dispatch_verdicts hres).succeeded
    (fun drv item hi => ?_) (fun i m job ha => ?_)
  · rcases hs.item_cases hi with hi | ⟨w, i, m, job, hd, -, rfl⟩
    · exact h.item drv item hi
    · exact h.attempt i m job (by rw [hd]; rfl)
  · rcases hs.attempt_takesUp ha with ⟨job', ha'⟩ | htakes
    · exact h.attempt i m job' ha'
    · intro hsucceeded
      have hfin := (h.marked _ hsucceeded).2
      unfold Runner.takesUp at htakes
      split at htakes
      · split at htakes
        · split_ifs at htakes with hc
          cases htakes
          rw [hc.2.2.1] at hfin
          cases hfin
        · cases htakes
      · cases htakes

/-- The only step that a call newly marks as succeeded is the one whose
attempt it ends. -/
theorem succeeded_cases {s s' : Shared} {task : CallTask} {t' : Option CallTask}
    (h : CallVerdict cfg s task s' t') {a : Attempt} {item : ScheduledItem}
    (hstart : task.starting = some a)
    (hitem : s.queues.scheduled.lookup a.drv = some item)
    (hfound : (s.jobsOf item.machine).find? (fun j => j.path == a.drv) ≠ none) {x : StepRef}
    (hx : x ∈ s'.log.succeeded) :
    x ∈ s.log.succeeded ∨ x = item.stepInfo.step ∧ (s'.graph.step x).finished = true := by
  cases h with
  | pending hsame hnone =>
    rw [hnone a hstart] at hitem
    cases hitem
  | jobMissing b item' hstart' hitem' hjob =>
    obtain rfl : a = b := Option.some.inj (hstart.symm.trans hstart')
    obtain rfl : item = item' := Option.some.inj (hitem.symm.trans hitem')
    exact absurd hjob hfound
  | overflows b state timings caller htask hover hsame =>
    rw [hsame.succeeded] at hx
    exact Or.inl hx
  | succeeds b report item' htask hitem' hfailed hsucceeded hfin htries =>
    obtain rfl : a = b := Option.some.inj (hstart.symm.trans (by rw [htask]; rfl))
    obtain rfl : item = item' := Option.some.inj (hitem.symm.trans hitem')
    rw [hsucceeded] at hx
    rcases List.mem_cons.mp hx with rfl | hx
    · exact Or.inr ⟨rfl, hfin⟩
    · exact Or.inl hx
  | retries b state timings caller item' htask hitem' hsame htries hlt =>
    rw [hsame.succeeded] at hx
    exact Or.inl hx
  | givesUp b state timings caller item' job' htask hitem' hfailed hsucceeded ht' =>
    rw [hsucceeded] at hx
    exact Or.inl hx

/-- A step of a call.  The step whose attempt it ends has not succeeded
before. -/
theorem call (h : Final r) (hok : RunnerOk cfg r)
    (hjobs : JobSteps (JobSteps.Found r) r) {t : TaskId} {task : CallTask} {ans : Answer}
    {res : Shared × Option CallTask}
    (hres : task.resume cfg r.shared r.held ans = some res) : Final (r.setCall t res) := by
  have hgraph := callGraph_of_resume hres
  have hverdict := callVerdict_of_resume hres
  have hfresh : r.shared.graph.fresh ≤ res.1.graph.fresh := hgraph.extends.1.fresh
  -- a call that is past its first step decides nothing
  have hquiet : task.starting = none →
      res.1.queues.scheduled = r.shared.queues.scheduled → Final (r.setCall t res) := by
    intro hstart hscheduled
    refine h.of_same hfresh (fun s _ hf => ?_) (hverdict.same_of_starting hstart).succeeded
      (fun drv item hi => ?_) h.attempt
    · exact (hgraph.sameCounters hstart s).2.trans hf
    · rw [Runner.item, Runner.setCall, hscheduled] at hi
      exact h.item drv item hi
  have hcall := callStep_of_resume hres
  obtain ⟨s', t'⟩ := res
  cases hcall with
  | quiet hstart hsame hinfos hpending hkeeps => exact hquiet hstart hsame.scheduled
  | removeJob i system hstart hi hremoved hinfos hpending hlast =>
    exact hquiet hstart (hremoved.scheduled.trans (InnerQueues.removeJob_scheduled ..))
  | missing a rest hstart hp hlookup hinfos hpending hlast =>
    exact h.of_same (le_refl _) (fun _ _ => id) rfl h.item h.attempt
  | jobMissing a rest item hstart hp hitem hnone =>
    exact absurd hnone (hok.attempts.find_job hitem)
  | ends a rest item job hstart hp hends hinfos hpending hlast =>
    have hitem : r.item a.drv = some item := hends.unscheduled.found
    have hfirst := h.item a.drv item hitem
    obtain ⟨hgone, hgone'⟩ := Tries.gone_of_ends (t := t) hok hends
    have hcases : ∀ {x}, x ∈ s'.log.succeeded → x ∈ r.shared.log.succeeded ∨
        x = item.stepInfo.step ∧ (s'.graph.step x).finished = true :=
      succeeded_cases hverdict hstart hitem (hok.attempts.find_job hitem)
    -- a step that is neither the one of the attempt nor succeeded before
    have hother : ∀ {x}, x ≠ item.stepInfo.step → x ∉ r.shared.log.succeeded →
        x ∉ s'.log.succeeded := by
      intro x hne hx hx'
      rcases hcases hx' with hold | ⟨heq, -⟩
      · exact hx hold
      · exact hne heq
    refine ⟨fun s hs => ?_, fun drv item' hi => ?_, fun i m job' ha => ?_⟩
    · rcases hcases hs with hold | ⟨heq, hfin⟩
      · obtain ⟨hgen, hfin⟩ := h.marked s hold
        have hne : s ≠ item.stepInfo.step := by
          intro heq
          exact hfirst (heq ▸ hold)
        refine ⟨lt_of_lt_of_le hgen hfresh, ?_⟩
        exact (hgraph.sameCounters_of_ne hstart hitem hne).2.trans hfin
      · have hgen := (hjobs.item a.drv item hitem).1
        rw [← heq] at hgen
        exact ⟨lt_of_lt_of_le hgen hfresh, hfin⟩
    · obtain ⟨hold, hne⟩ := hgone drv item' hi
      exact hother hne (h.item drv item' hold)
    · exact hother (hgone' i m job' ha) (h.attempt i m job' ha)

/-- Every other step of the runner only starts a task or works on the
graph. -/
theorem of_grows (h : Final r) (hgrows : r.shared.graph.Grows r'.shared.graph)
    (hlog : r.shared.log.SameVerdicts r'.shared.log)
    (hscheduled : r'.shared.queues.scheduled = r.shared.queues.scheduled)
    (hd : r'.dispatcher = r.dispatcher) : Final r' := by
  refine h.of_same hgrows.fresh (fun s hs => (hgrows.step_of_lt hs).finished) hlog.succeeded
    (fun drv item hi => ?_) (hd ▸ h.attempt)
  rw [Runner.item, hscheduled] at hi
  exact h.item drv item hi

/-- Every step of the runner. -/
theorem step (h : Final r) (hok : RunnerOk cfg r) (hjobs : JobSteps (JobSteps.Found r) r)
    {a : Action} (hs : RunnerStep cfg r a r') : Final r' := by
  have hgrows := hs.runnerGraph.grows
  have hlog := hs.sameVerdicts
  cases hs with
  | dispatch hres => exact h.dispatch hres
  | call ht hres => exact h.call hok hjobs hres
  | completeBuild uuid machineId state report =>
    obtain ⟨results, heq, -⟩ := completeBuild_spec r.shared uuid machineId state report
    refine h.of_grows (hgrows (by simp)) (hlog (by simp)) ?_ (r.spawn_dispatcher _)
    rw [Runner.spawn_shared, heq]
  | @endStream m hm =>
    obtain ⟨machines, task, heq, -⟩ := endStream_spec r.shared m
    refine h.of_grows (hgrows (by simp)) (hlog (by simp)) ?_ (Runner.spawn_dispatcher _ _)
    rw [Runner.spawn_shared, heq]
  | queueChange curIds =>
    refine h.of_grows (hgrows (by simp)) (hlog (by simp)) ?_ (r.spawn_dispatcher _)
    rw [Runner.spawn_shared]
    rfl
  | insertMachine id record sortFn =>
    exact h.of_grows (hgrows (by simp)) (hlog (by simp))
      (r.shared.queues.ensureQueuesForSystems_frame record.systems).2.1 rfl
  | create hnext => exact h.of_grows (hgrows (by simp)) (hlog (by simp)) rfl rfl
  | dropStep hheld => exact h.of_grows (hgrows (by simp)) (hlog (by simp)) rfl rfl
  | dropBuild hheld => exact h.of_grows (hgrows (by simp)) (hlog (by simp)) rfl rfl

theorem reach {ok : Runner → Action → Prop} (h : Lts.Reach (Runner.next cfg) ok {} r) :
    Final r := by
  refine h.invariant_of_reach init ?_
  intro r a r' hreach hr _ hnext
  exact hr.step (RunnerOk.reach hreach) (JobSteps.reach hreach) (runnerStep_of_next hnext)

end Final

end QueueRunner
