import QueueRunner.Edges

/-!
# Steps that have failed before

`create_step` looks for the outputs of a derivation among the cached
failures.  A hit sets `previous_failure` and ends the call, and the step
stays in the graph without having been completed.  Nothing takes the mark
back, so such a step must never be released: it was not built in this run
of the queue runner, and it is not to be built.
-/

namespace QueueRunner

/-- A step that no call works on stays unmarked. -/
theorem MakeStep.unmarked {c c' : CreateState} (h : MakeStep c c') (hmade : Making c)
    {s : StepRef} (hgen : s.gen < c.graph.fresh)
    (hmarks : (c.graph.step s).created = false ∧ (c.graph.step s).finished = false)
    (hnone : ∀ k, c.creation.making k ≠ some s) :
    ((c'.graph.step s).created = false ∧ (c'.graph.step s).finished = false) ∧
      ∀ k, c'.creation.making k ≠ some s := by
  -- a change of a step that a call works on
  have hother : ∀ {k : CallId} {t : StepRef} {f : Step → Step},
      c.creation.making k = some t → c'.graph = c.graph.modifyStep t f →
        c'.graph.step s = c.graph.step s := by
    intro k t f hk hg
    have hne : s ≠ t := by
      intro heq
      exact hnone k (heq ▸ hk)
    rw [hg, Graph.modifyStep_step, if_neg hne]
  have hsettles : c.graph.Settles c'.graph →
      (c'.graph.step s).created = false ∧ (c'.graph.step s).finished = false := by
    intro hg
    exact ⟨(hg.step s).created.trans hmarks.1, (hg.step s).finished.trans hmarks.2⟩
  cases h with
  | settles hg hmaking hcollects =>
    exact ⟨hsettles hg, fun k hk => hnone k (hmaking k s hk)⟩
  | release l now hl hg hmaking hcollects =>
    have hg' : c.graph.Settles c'.graph := by
      rw [hg]
      exact .makeAllRunnable (fun t ht => (hmade.collects t (hl t ht)).2.1) now
    exact ⟨hsettles hg', fun k hk => hnone k (hmaking k s hk)⟩
  | create hg hparent hmaking hcollects =>
    constructor
    · rcases hg.stays_or_isNew s with hstays | ⟨heq, -, -⟩
      · exact ⟨hstays.created.trans hmarks.1, (hstays.finished hmarks.1).trans hmarks.2⟩
      · omega
    · intro k hk
      rcases hmaking k s hk with hold | ⟨-, rfl, hnew⟩
      · exact hnone k hold
      · have := (hg.isNew hnew).1
        omega
  | finish hk hg hmaking hcollects =>
    rw [hother hk hg]
    exact ⟨hmarks, fun k hk => hnone k (hmaking k s hk).1⟩
  | addDep hk hchild hdep hg hmaking hcollects =>
    unfold Graph.addDep at hg
    rw [hother hk hg]
    exact ⟨hmarks, fun k hk => hnone k (hmaking k s hk)⟩
  | complete hk hg hmaking hcollects =>
    rw [hother hk hg]
    exact ⟨hmarks, fun k hk => hnone k (hmaking k s hk).1⟩

/-- No call works on a step that has failed before, and it is neither
complete nor finished. -/
structure KnownFailures (c : CreateState) : Prop where
  gen : ∀ s, (c.graph.step s).previousFailure = true → s.gen < c.graph.fresh
  unmarked : ∀ s, (c.graph.step s).previousFailure = true →
    (c.graph.step s).created = false ∧ (c.graph.step s).finished = false
  unmade : ∀ s, (c.graph.step s).previousFailure = true → ∀ k, c.creation.making k ≠ some s

namespace KnownFailures

variable {cfg : Config} {r r' : Runner}

theorem init : KnownFailures ⟨{}, [], {}⟩ := by
  constructor <;> simp

/-- A step that had failed before stays as it is. -/
theorem keeps (h : KnownFailures r.createState) (hmade : Making r.createState)
    (hjobs : JobSteps (JobSteps.Found r) r) {a : Action} (hs : StepsStep r a r') {s : StepRef}
    (hfailure : (r.shared.graph.step s).previousFailure = true) :
    ((r'.shared.graph.step s).created = false ∧ (r'.shared.graph.step s).finished = false) ∧
      ∀ k, r'.creation.making k ≠ some s := by
  have hmarks := h.unmarked s hfailure
  have hnone := h.unmade s hfailure
  -- the step of an item is complete
  have hne : ∀ {drv item}, r.item drv = some item → s ≠ item.stepInfo.step := by
    intro drv item hitem heq
    have hcreated := hmade.runnable _ (hjobs.item drv item hitem).2
    have huncreated := hmarks.1
    rw [heq] at huncreated
    exact absurd (hcreated.symm.trans huncreated) (by simp)
  cases hs with
  | make hmake => exact hmake.unmarked hmade (h.gen s hfailure) hmarks hnone
  | succeed ha ht hitem hg hcreation =>
    rw [hg, hcreation, Graph.setFinished, Graph.modifyStep_step, if_neg (hne hitem)]
    exact ⟨hmarks, hnone⟩
  | fail tries after hitem hg hcreation =>
    rw [hg, hcreation, Graph.modifyStep_step, if_neg (hne hitem)]
    exact ⟨hmarks, hnone⟩
  | drop hheld hg hcreation =>
    rw [hg, hcreation, Graph.dropStep, Graph.modifyStep_step]
    refine ⟨?_, hnone⟩
    split_ifs with heq
    · exact heq ▸ hmarks
    · exact hmarks

/-- Every step of the runner. -/
theorem step (h : KnownFailures r.createState) (hmade : Making r.createState)
    (hjobs : JobSteps (JobSteps.Found r) r) {a : Action} (hs : RunnerStep cfg r a r') :
    KnownFailures r'.createState := by
  have hfresh : r.shared.graph.fresh ≤ r'.shared.graph.fresh := hs.extends.1.fresh
  have hall : ∀ s, (r'.shared.graph.step s).previousFailure = true →
      s.gen < r'.shared.graph.fresh ∧
        ((r'.shared.graph.step s).created = false ∧
          (r'.shared.graph.step s).finished = false) ∧
        ∀ k, r'.creation.making k ≠ some s := by
    intro s hfailure
    rcases hs.waitsStep.previousFailure_cases hfailure with hold | ⟨k, call, hk, hc⟩
    · exact ⟨lt_of_lt_of_le (h.gen s hold) hfresh, h.keeps hmade hjobs hs.stepsStep hold⟩
    · refine ⟨lt_of_lt_of_le (hmade.gen k s hk) hfresh, ?_, fun k' hk' => ?_⟩
      · have hmarks := hmade.unmarked k s hk
        show (r'.createState.graph.step s).created = false ∧
          (r'.createState.graph.step s).finished = false
        rw [hc, CreateState.returnStep, CreateState.setStepCall_graph,
          Graph.setPreviousFailure, Graph.modifyStep_self]
        exact hmarks
      · change r'.createState.creation.making k' = some s at hk'
        rw [hc] at hk'
        obtain ⟨hold, hne⟩ := CreateState.making_returnStep hk'
        exact hne (hmade.unique k' k s hold hk)
  exact ⟨fun s hs => (hall s hs).1, fun s hs => (hall s hs).2.1, fun s hs => (hall s hs).2.2⟩

theorem reach {ok : Runner → Action → Prop} (h : Lts.Reach (Runner.next cfg) ok {} r) :
    KnownFailures r.createState := by
  refine h.invariant_of_reach (I := fun r => KnownFailures r.createState) init ?_
  intro r a r' hreach hr _ hnext
  exact hr.step (Making.reach hreach) (JobSteps.reach hreach) (runnerStep_of_next hnext)

end KnownFailures

/-- In every run a step that has failed before is never released: it is not
runnable, no queue and no item has it, the dispatch loop does not work on it,
and it has been sent to no machine.  This stays so in every later run. -/
theorem known_failure_is_never_built (cfg : Config) (r r' : Runner)
    (h : Lts.Reach (Runner.next cfg) Lts.anyStep {} r)
    (h' : Lts.Reach (Runner.next cfg) Lts.anyStep r r') (s : StepRef)
    (hs : (r.shared.graph.step s).previousFailure = true) :
    (r'.shared.graph.step s).runnable = false ∧
      (r'.shared.graph.step s).finished = false ∧
      (∀ system, ∀ i ∈ r'.queueJobs system, i.step ≠ s) ∧
      (∀ drv item, r'.item drv = some item → item.stepInfo.step ≠ s) ∧
      (∀ i, r'.dispatcher.info = some i → i.step ≠ s) ∧
      ∀ e ∈ r'.shared.log.sent, e.2.1.step ≠ s := by
  have hstays : (r'.shared.graph.step s).previousFailure = true := by
    refine h'.invariant_of_reach
      (I := fun q => (q.shared.graph.step s).previousFailure = true) hs ?_
    intro q a q' hq hfailure _ hnext
    have hgen := (KnownFailures.reach (h.trans hq)).gen s hfailure
    exact ((runnerStep_of_next hnext).runnerGraph.wakes s hgen).previousFailure hfailure
  have hreach := h.trans h'
  obtain ⟨hcreated, hfinished⟩ := (KnownFailures.reach hreach).unmarked s hstays
  have hjobs := JobSteps.reach hreach
  have hrunnable : (r'.shared.graph.step s).runnable = false := by
    cases hrun : (r'.shared.graph.step s).runnable with
    | false => rfl
    | true => exact ((Making.reach hreach).runnable s hrun).symm.trans hcreated
  -- whatever is on its way to a machine is runnable
  have hne : ∀ {t}, JobSteps.Found r' t → t ≠ s := by
    intro t hfound heq
    exact absurd (hfound.2.symm.trans (heq ▸ hrunnable)) (by simp)
  exact ⟨hrunnable, hfinished, fun system i hi => hne (hjobs.queue system i hi),
    fun drv item hi => hne (hjobs.item drv item hi), fun i hi => hne (hjobs.info i hi),
    fun e he => hne (hjobs.sent e he)⟩

namespace Chain

/-- The input has failed before. -/
def inputFailed : List Action :=
  toInput ++ [Action.create (.resumeStep 3) {},
    .create (.resumeStep 3) { store := fun _ => false },
    .create (.resumeStep 3) { cached := true }]

end Chain

/-- Then the call for `top` takes the failure. -/
theorem known_failure_is_never_built_chain : ∃ r r' : Runner,
    (r.shared.graph.step Chain.inputStep).previousFailure = true ∧
      (r'.shared.graph.step Chain.inputStep).runnable = false ∧
      (r'.shared.graph.step Chain.inputStep).finished = false ∧
      (∀ system, ∀ i ∈ r'.queueJobs system, i.step ≠ Chain.inputStep) ∧
      (∀ drv item, r'.item drv = some item → item.stepInfo.step ≠ Chain.inputStep) ∧
      (∀ i, r'.dispatcher.info = some i → i.step ≠ Chain.inputStep) ∧
      ∀ e ∈ r'.shared.log.sent, e.2.1.step ≠ Chain.inputStep := by
  have hrun : ((Lts.run (Runner.next Chain.config) {} Chain.inputFailed).bind (fun r =>
      (Lts.run (Runner.next Chain.config) r [.create (.resumeStep 2) {}]).map (fun _ =>
        (r.shared.graph.step Chain.inputStep).previousFailure))) = some true := by
    decide +kernel
  obtain ⟨r, hr, hrest⟩ := Option.bind_eq_some_iff.mp hrun
  obtain ⟨r', hr', hfailure⟩ := Option.map_eq_some_iff.mp hrest
  exact ⟨r, r', hfailure, known_failure_is_never_built Chain.config r r'
    (Lts.reach_of_run hr) (Lts.reach_of_run hr') Chain.inputStep hfailure⟩

end QueueRunner
