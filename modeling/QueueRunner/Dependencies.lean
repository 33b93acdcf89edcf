import QueueRunner.Supply

/-!
# A step is sent when its inputs are done

The inputs of a step are covered by what its creation found and by its
dependencies, in every state that the runner reaches with sound answers.
Since only a runnable step gets into a queue, every input of a step is done
before the message for the step is sent.
-/

namespace QueueRunner

/-- The outputs of the derivation were found, or `succeed_step` has run for
it. -/
def Runner.Done (r : Runner) (d : StorePath) : Prop :=
  d ∈ r.shared.log.present ∨ ∃ s ∈ r.shared.log.succeeded, s.drvPath = d

/-- Every input of a step is done when the step is runnable and when its
message is sent. -/
structure InputsDone (cfg : Config) (r : Runner) : Prop where
  runnable : ∀ s, (r.shared.graph.step s).runnable = true →
    ∀ d ∈ (cfg.drvOf s.drvPath).inputDrvs, r.Done d
  sends : ∀ a r' u i m, r.next cfg a = some r' →
    r'.shared.log.sent = (u, i, m) :: r.shared.log.sent →
    ∀ d ∈ (cfg.drvOf i.drvPath).inputDrvs, r.Done d

/-- The answers to `create_step` are sound. -/
def SoundAnswers (r : Runner) : Action → Prop
  | .create (.resumeStep k) ans => ∀ call ∈ r.creation.steps.lookup k,
    call.Sound r.createState ans
  | _ => True

instance (r : Runner) (a : Action) : Decidable (SoundAnswers r a) :=
  match a with
  | .create (.resumeStep k) ans => inferInstanceAs (Decidable
      (∀ call ∈ r.creation.steps.lookup k, call.Sound r.createState ans))
  | .create (.startPass _) _ | .create (.resumePass _) _ | .create (.startNested _) _
  | .create (.resumeBuild _) _ | .create (.startInput _) _ | .dispatch _ | .call _ _
  | .completeBuild _ _ _ _ | .endStream _ | .queueChange _ | .insertMachine _ _ _
  | .dropStep _ | .dropBuild _ => inferInstanceAs (Decidable True)

namespace Supplied

variable {cfg : Config} {r r' : Runner}

/-- What is done stays done. -/
theorem done_mono (hok : RunnerOk cfg r) {a : Action} (hs : RunnerStep cfg r a r')
    {d : StorePath} (h : r.Done d) : r'.Done d := by
  have hsame : r.shared.log.SameVerdicts r'.shared.log → r'.Done d := by
    intro hv
    refine h.imp (fun hd => hv.present hd) ?_
    rintro ⟨s, hs, rfl⟩
    exact ⟨s, hv.succeeded ▸ hs, rfl⟩
  cases a with
  | call t ans =>
    cases hs with
    | @call _ _ task res ht hres =>
      have hpresent := CallTask.resume_present hres
      refine h.imp (fun hd => ?_) ?_
      · rw [Runner.setCall, hpresent]
        exact hd
      · rintro ⟨s, hmem, rfl⟩
        refine ⟨s, ?_, rfl⟩
        change s ∈ res.1.log.succeeded
        cases callVerdict_of_resume hres with
        | pending hv hitem => exact hv.succeeded ▸ hmem
        | succeeds b report item htask hitem hfailed hsucceeded =>
          rw [hsucceeded]
          exact List.mem_cons_of_mem _ hmem
        | retries b state timings caller item htask hitem hv => exact hv.succeeded ▸ hmem
        | givesUp b state timings caller item job htask hitem hfailed hsucceeded =>
          rw [hsucceeded]
          exact hmem
        | overflows b state timings caller htask hover hv => exact hv.succeeded ▸ hmem
        | jobMissing b item hstart hitem hjob =>
          exact absurd hjob (hok.attempts.find_job hitem)
  | _ => exact hsame (hs.sameVerdicts (by simp))

/-- A step that releases only what is done, and leaves the calls that create
steps alone. -/
theorem of_shared {Done : StorePath → Prop} (h : Supplied cfg Done r.createState)
    (hg : r.shared.graph.Frees Done r'.shared.graph) (hc : r'.creation = r.creation) :
    Supplied cfg Done r'.createState :=
  h.of_frees hg hc

/-- A step of a call: its own step is done, or it releases the steps that
wait for one that is. -/
theorem call (h : Supplied cfg r.Done r.createState) (hok : RunnerOk cfg r) {t : TaskId}
    {task : CallTask} {ans : Answer} {res : Shared × Option CallTask}
    (ht : r.calls.lookup t = some task)
    (hres : task.resume cfg r.shared r.held ans = some res) :
    Supplied cfg (r.setCall t res).Done (r.setCall t res).createState := by
  have hs : RunnerStep cfg r _ _ := .call ht hres
  have h' : Supplied cfg (r.setCall t res).Done r.createState :=
    h.mono fun d hd => done_mono hok hs hd
  have hshared : (r.setCall t res).shared.graph = res.1.graph := rfl
  cases callGraph_of_resume hres with
  | fades hf => exact h'.of_shared (.of_fades hf) rfl
  | releases a report item now htask hg =>
    refine h'.of_shared ?_ rfl
    rw [hshared, hg]
    exact .makeRdepsRunnable (h'.graph.finished _) now
  | fails a state timings caller item tries after htask hitem hg =>
    refine h'.of_shared ?_ rfl
    rw [hshared, hg]
    exact .modifyStep _ _ ⟨by simp, id, Or.inl, fun _ => Or.inl, id⟩
  | succeeds a report item htask hitem hg =>
    have hdone : (r.setCall t res).Done item.stepInfo.step.drvPath := by
      refine Or.inr ⟨item.stepInfo.step, ?_, rfl⟩
      cases callVerdict_of_resume hres with
      | pending hv hnone =>
        rw [hnone a (by rw [htask]; rfl)] at hitem
        cases hitem
      | succeeds b report' item' htask' hitem' hfailed hsucceeded =>
        rw [htask] at htask'
        cases htask'
        rw [hitem, Option.some.injEq] at hitem'
        rw [Runner.setCall, hsucceeded, hitem']
        exact List.mem_cons_self
      | retries b state timings' caller item' htask' => rw [htask] at htask'; cases htask'
      | givesUp b state timings' caller item' job htask' => rw [htask] at htask'; cases htask'
      | overflows b state timings' caller htask' => rw [htask] at htask'; cases htask'
      | jobMissing b item' hstart hitem' hjob =>
        exact absurd hjob (hok.attempts.find_job hitem')
    have hcreate : (r.setCall t res).createState.graph =
        r.shared.graph.setFinished item.stepInfo.step true := hg
    refine h'.of_graph ?_ ?_ (fun s _ d hc => ?_) rfl
    · rw [hcreate]
      exact h'.graph.setFinished hdone
    · rw [hcreate]
      exact le_refl _
    · simp only [Graph.Covered, Runner.createState, Runner.setCall, hg, Graph.setFinished,
        Graph.modifyStep_step]
      split_ifs <;> exact hc

/-- Every step that is answered soundly keeps the inputs covered. -/
theorem runnerStep (h : Supplied cfg r.Done r.createState) (hok : RunnerOk cfg r)
    {a : Action} (hsound : SoundAnswers r a) (hs : RunnerStep cfg r a r') :
    Supplied cfg r'.Done r'.createState := by
  have h' : Supplied cfg r'.Done r.createState := h.mono fun d hd => done_mono hok hs hd
  cases hs with
  | dispatch hres => exact h'.of_frees (.of_fades (dispatch_fades hres)) rfl
  | call ht hres => exact h.call hok ht hres
  | completeBuild uuid machineId state report =>
    obtain ⟨results, heq, -⟩ := completeBuild_spec r.shared uuid machineId state report
    refine h'.of_shared ?_ (Runner.spawn_creation _ _)
    rw [Runner.spawn_shared, heq]
    exact .refl _
  | @endStream m hm =>
    obtain ⟨machines, task, heq, -⟩ := endStream_spec r.shared m
    refine h'.of_shared ?_ (Runner.spawn_creation _ _)
    rw [Runner.spawn_shared, heq]
    exact .refl _
  | queueChange curIds =>
    refine h'.of_shared ?_ (Runner.spawn_creation _ _)
    rw [Runner.spawn_shared]
    exact .of_fades (.retainBuilds _ _)
  | insertMachine id record sortFn => exact h'.of_frees (.refl _) rfl
  | @create a ans c hnext =>
    refine h'.step hok.create (CreateState.createStep_of_next hnext) (fun d hd => Or.inl hd) ?_
    rintro k call rfl hcall
    exact hsound call hcall
  | dropStep hheld =>
    exact h'.of_frees (.modifyStep (f := fun r => { r with alive := false }) _ _
      (.of_eq rfl rfl rfl rfl rfl)) rfl
  | dropBuild hheld => exact h'.of_frees (.of_step rfl (le_refl _)) rfl

theorem reach (h : Lts.Reach (Runner.next cfg) SoundAnswers {} r) :
    Supplied cfg r.Done r.createState := by
  refine h.invariant_of_reach (I := fun r => Supplied cfg r.Done r.createState) init ?_
  intro s a s' hreach hs hsound hnext
  exact hs.runnerStep (RunnerOk.reach hreach) hsound (runnerStep_of_next hnext)

end Supplied

/-! ## Whole runs -/

/-- In every run with sound answers the inputs of a step are done when the
step is runnable and when it is sent. -/
theorem inputsDone_runs (cfg : Config) (r : Runner)
    (hrun : Lts.Reach (Runner.next cfg) SoundAnswers {} r) : InputsDone cfg r := by
  have hrunnable := (Supplied.reach hrun).graph.runnable
  refine ⟨hrunnable, fun a r' u i m hnext hsent => ?_⟩
  rcases (runnerStep_of_next hnext).sent_eq (RunnerOk.reach hrun) with
    hsame | ⟨w, i', m', job, hd, hcons⟩
  · rw [hsent] at hsame
    exact absurd hsame (List.cons_ne_self _ _)
  · rw [hsent, List.cons.injEq, Prod.mk.injEq, Prod.mk.injEq] at hcons
    obtain ⟨⟨rfl, rfl, rfl⟩, -⟩ := hcons
    exact hrunnable i.step ((JobSteps.reach hrun).info i (by rw [hd]; rfl)).2

/-- The output of the input is found, and the message for the step is about
to be sent. -/
theorem inputsDone_runs_found : ∃ r, Lts.Reach (Runner.next Chain.config) SoundAnswers {} r ∧
    (∃ r', r.next Chain.config (.dispatch {}) = some r' ∧ r'.shared.log.sent ≠ []) ∧
    InputsDone Chain.config r := by
  have hend : (Lts.runWith (Runner.next Chain.config) SoundAnswers {}
      (Sample.register :: Chain.toInput ++ Chain.inputFound ++ Chain.created ++
        Chain.toMessage)).map (fun r => (r.next Chain.config (.dispatch {})).map
          (fun r' => decide (r'.shared.log.sent ≠ []))) = some (some true) := by
    decide +kernel
  obtain ⟨r, hr, he⟩ := Option.map_eq_some_iff.mp hend
  obtain ⟨r', hr', hsent⟩ := Option.map_eq_some_iff.mp he
  have hrun := Lts.reach_of_runWith hr
  exact ⟨r, hrun, ⟨r', hr', of_decide_eq_true hsent⟩, inputsDone_runs Chain.config r hrun⟩

/-- `query_drv` fails for the input. -/
def inputUnread : List Action :=
  Sample.register :: Chain.toInput ++ [Action.create (.resumeStep 3) { ok := false }] ++
    Chain.created ++ Chain.toMessage

/-- The step is sent although nothing is known about its input. -/
theorem inputsDone_fails : ¬∀ cfg r,
    Lts.Reach (Runner.next cfg) Lts.anyStep {} r → InputsDone cfg r := by
  intro h
  have hend : (Lts.run (Runner.next Chain.config) {} inputUnread).map (fun r =>
      (r.shared.log.present, r.shared.log.succeeded,
        (r.next Chain.config (.dispatch {})).map (fun r' => decide (r'.shared.log.sent =
          (0, ⟨Chain.topStep, 0⟩, Sample.machine) :: r.shared.log.sent)))) =
      some ([], [], some true) := by decide +kernel
  obtain ⟨r, hr, he⟩ := Option.map_eq_some_iff.mp hend
  simp only [Prod.mk.injEq] at he
  obtain ⟨hpresent, hsucceeded, hnext⟩ := he
  obtain ⟨r', hr', hsent⟩ := Option.map_eq_some_iff.mp hnext
  have hdone := (h _ r (Lts.reach_of_run hr)).sends _ r' _ _ _ hr' (of_decide_eq_true hsent)
    Chain.input (by decide)
  simp [Runner.Done, hpresent, hsucceeded] at hdone

end QueueRunner
