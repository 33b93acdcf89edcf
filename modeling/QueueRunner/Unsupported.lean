import QueueRunner.Dependents
import QueueRunner.Growth

/-!
# The waiting time of unsupported steps

`abort_unsupported` fails a runnable step that no machine has supported
for `max_unsupported_time`.  A pass of the dispatch loop looks at the
machines that are registered at that moment, and notes in `last_supported`
when it has found one.

Here the runner has a clock, and every step of the runner happens at some
time.  The history of a run says which state the runner was in at every
moment: the last one that it had reached by then.  Several steps may
happen at one time; a state that lasts no time is the state at no moment.

A machine may support a step for a long while between two passes and be
gone when the next one looks: nothing notes that it was there, so the step
is failed as soon as the time since the last look is long enough.
`waitedOut_runs` says that this is the only way in which a step is failed
too early: it holds in every run in which no pass comes when the last look
is long enough ago, but the last machine left later.
-/

namespace QueueRunner

/-- `support_step` for a step of the runner. -/
def Runner.supports (r : Runner) (s : StepRef) : Bool :=
  r.shared.machines.supportStep (r.shared.graph.getSystem s)
    (r.shared.graph.getRequiredFeatures s)

/-- The clock that an action reads. -/
def Action.now? : Action → Option Timestamp
  | .dispatch ans | .call _ ans | .create _ ans => some ans.now
  | .completeBuild .. | .endStream _ | .queueChange _ | .insertMachine .. | .dropStep _
  | .dropBuild _ => none

/-- The runner with a clock.  `history` has the states of the run with the
times at which they were reached, latest first. -/
structure Timed where
  runner : Runner := {}
  clock : Timestamp := 0
  history : List (Timestamp × Runner) := [(0, {})]

/-- The clock and the steps that the first loop of `abort_unsupported` has
not looked at. -/
def DispatchPc.aborting : DispatchPc → Option (Timestamp × List StepRef)
  | .abort now todo _ | .abortFail now todo _ _ => some (now, todo)
  | _ => none

namespace Timed

/-- A step of the runner at the time `a.2`, not before the last one. -/
def next (cfg : Config) (w : Timed) (a : Action × Timestamp) : Option Timed :=
  if w.clock ≤ a.2 ∧ ∀ t ∈ a.1.now?, t = a.2 then
    (w.runner.next cfg a.1).map (fun r => ⟨r, a.2, (a.2, r) :: w.history⟩)
  else none

/-- The state of the runner at a moment. -/
def stateAt (w : Timed) (τ : Timestamp) : Option Runner :=
  (w.history.find? (fun e => e.1 ≤ τ)).map Prod.snd

/-- In this step `abort_unsupported` calls `inner_fail_job` for the step
with the status `Unsupported`. -/
def Fails (cfg : Config) (w : Timed) (a : Action × Timestamp) (s : StepRef) : Prop :=
  ∃ now todo aborted w' f, w.runner.dispatcher = .abort now (s :: todo) aborted ∧
    w.next cfg a = some w' ∧ w'.runner.dispatcher = .abortFail now todo (aborted ++ [s]) f ∧
    f.step = s ∧ f.job.result.stepStatus = .unsupported

/-- The registry after a machine has joined or left. -/
def registryAfter (r : Runner) : Action → Machines
  | .endStream m =>
    match r.shared.machines.removeMachine m.id with
    | some (_, machines) => machines
    | none => r.shared.machines
  | .insertMachine id record sortFn => (r.shared.machines.insertMachine id (.new record) sortFn).1
  | .dispatch _ | .call .. | .completeBuild .. | .queueChange _ | .create .. | .dropStep _
  | .dropBuild _ => r.shared.machines

/-- The steps that `abort_unsupported` looks at, or can still look at. -/
def watched (r : Runner) : List StepRef :=
  r.shared.graph.steps.values ++
    match r.dispatcher.aborting with
    | some (_, todo) => todo
    | none => []

/-- The time of the last step of the run that took its support from `s`. -/
def lostAt (s : StepRef) : List (Timestamp × Runner) → Option Timestamp
  | (t', r') :: (t, r) :: rest =>
    if r.supports s = true ∧ r'.supports s = false then some t' else lostAt s ((t, r) :: rest)
  | _ => none

/-- At the moment `now` the step was last seen supported as long ago as it is
to wait. -/
def Late (cfg : Config) (r : Runner) (now : Timestamp) (s : StepRef) : Prop :=
  cfg.maxUnsupportedTime ≤ now - (r.shared.graph.step s).lastSupported

instance (cfg : Config) (r : Runner) (now : Timestamp) (s : StepRef) :
    Decidable (Late cfg r now s) :=
  inferInstanceAs (Decidable (_ ≤ _))

/-- The list of `abort_unsupported` when it begins in this step. -/
def begun (cfg : Config) (w : Timed) (a : Action × Timestamp) : List StepRef :=
  match w.runner.dispatcher.aborting,
    (w.next cfg a).bind (fun w' => w'.runner.dispatcher.aborting) with
  | none, some (_, todo) => todo
  | _, _ => []

/-- When `abort_unsupported` begins, a step that is late has lost its support
as long ago.  A machine that leaves, or registers again, while it goes on
takes its support from no late step of the list. -/
def LostLongAgo (cfg : Config) (w : Timed) (a : Action × Timestamp) : Prop :=
  (∀ s ∈ w.begun cfg a, Late cfg w.runner a.2 s →
    ∀ t ∈ lostAt s w.history, t + cfg.maxUnsupportedTime ≤ a.2) ∧
  ∀ e ∈ w.runner.dispatcher.aborting, ∀ s ∈ e.2, w.runner.supports s = true →
    (registryAfter w.runner a.1).supportStep (w.runner.shared.graph.getSystem s)
      (w.runner.shared.graph.getRequiredFeatures s) = false →
    ¬ Late cfg w.runner e.1 s

instance (cfg : Config) (w : Timed) (a : Action × Timestamp) :
    Decidable (w.LostLongAgo cfg a) :=
  inferInstanceAs (Decidable (_ ∧ _))

end Timed

/-! ## What a step does to the times of a step -/

/-- In one step at the time `t` a step stays runnable, and what happens to
the time of its support happens now. -/
structure Step.Ages (t : Timestamp) (r r' : Step) : Prop where
  kept : r.runnable = true → r'.runnable = true ∧
    (r'.lastSupported = r.lastSupported ∨ r'.lastSupported = t)
  started : r.runnable = false → r'.runnable = true → r'.lastSupported = t
  drv : r.drv ≠ none → r'.drv ≠ none

namespace Step.Ages

variable {t : Timestamp} {r r' r'' : Step}

theorem of_eq (hrunnable : r'.runnable = r.runnable)
    (hlast : r'.lastSupported = r.lastSupported) (hdrv : r.drv ≠ none → r'.drv ≠ none) :
    Ages t r r' where
  kept h := ⟨hrunnable.trans h, Or.inl hlast⟩
  started h h' := by
    rw [hrunnable, h] at h'
    cases h'
  drv := hdrv

theorem refl (r : Step) : Ages t r r := of_eq rfl rfl id

/-- A step becomes runnable. -/
theorem of_start (hr : r.runnable = false) :
    Ages t r { r with runnable := true, runnableSince := t, lastSupported := t } where
  kept h := by
    rw [hr] at h
    cases h
  started _ _ := rfl
  drv := id

theorem trans (h : Ages t r r') (h' : Ages t r' r'') : Ages t r r'' where
  kept hr := by
    obtain ⟨hr', hl⟩ := h.kept hr
    obtain ⟨hr'', hl'⟩ := h'.kept hr'
    refine ⟨hr'', ?_⟩
    rcases hl' with hl' | hl'
    · rw [hl']
      exact hl
    · exact Or.inr hl'
  started hr hr'' := by
    cases hr' : r'.runnable with
    | false => exact h'.started hr' hr''
    | true =>
      rcases (h'.kept hr').2 with hl | hl
      · exact hl.trans (h.started hr hr')
      · exact hl
  drv := h'.drv ∘ h.drv

end Step.Ages

/-- The same for all steps, and no runnable step is registered anew. -/
structure Graph.Ages (t : Timestamp) (g g' : Graph) : Prop where
  step : ∀ s, Step.Ages t (g.step s) (g'.step s) ∨ (g'.step s).runnable = false
  steps : ∀ p s, g'.steps.lookup p = some s →
    g.steps.lookup p = some s ∨ (g'.step s).runnable = false

namespace Graph.Ages

variable {t : Timestamp} {g g' g'' : Graph}

theorem of_keeps (h : Keeps (Step.Ages t) g g')
    (hsteps : ∀ p s, g'.steps.lookup p = some s → g.steps.lookup p = some s) : g.Ages t g' :=
  ⟨fun s => Or.inl (h s), fun p s hs => Or.inl (hsteps p s hs)⟩

theorem of_step (h : g'.step = g.step)
    (hsteps : ∀ p s, g'.steps.lookup p = some s → g.steps.lookup p = some s) : g.Ages t g' :=
  of_keeps (fun s => by rw [h]; exact .refl _) hsteps

theorem refl (g : Graph) : g.Ages t g := of_step rfl fun _ _ => id

theorem modifyStep (s : StepRef) {f : Step → Step} (hf : Step.Ages t (g.step s) (f (g.step s))) :
    g.Ages t (g.modifyStep s f) :=
  of_keeps (Keeps.modifyStep Step.Ages.refl hf) fun _ _ => id

theorem setFinished (g : Graph) (s : StepRef) (v : Bool) : g.Ages t (g.setFinished s v) :=
  modifyStep (f := fun r => { r with finished := v }) s (.of_eq rfl rfl id)

theorem addDep (g : Graph) (s dep : StepRef) : g.Ages t (g.addDep s dep) := by
  unfold Graph.addDep
  exact modifyStep s (.of_eq rfl rfl id)

theorem setLastSupportedNow (g : Graph) (t : Timestamp) (s : StepRef) :
    g.Ages t (g.setLastSupportedNow s t) :=
  modifyStep (f := fun r => { r with lastSupported := t }) s
    ⟨fun hr => ⟨hr, Or.inr rfl⟩, fun _ _ => rfl, id⟩

theorem makeRdepsRunnable (g : Graph) (t : Timestamp) (s : StepRef) :
    g.Ages t (g.makeRdepsRunnable t s) := by
  refine of_keeps ?_ fun _ _ hp => (SameMaps.makeRdepsRunnable g t s).steps ▸ hp
  exact Keeps.makeRdepsRunnable Step.Ages.refl (fun _ _ _ => Step.Ages.trans)
    (fun _ => Step.Ages.of_start) (fun _ _ _ => .of_eq rfl rfl id)
    (fun _ _ _ => .of_eq rfl rfl id) g s

theorem sweepSteps (g : Graph) (t : Timestamp) (order : List StepRef) :
    g.Ages t (g.sweepSteps t order) := by
  refine of_keeps ?_ fun _ _ hp => (SameMaps.sweepSteps g t order).steps ▸ hp
  exact Keeps.sweepSteps Step.Ages.refl (fun _ _ _ => Step.Ages.trans)
    (fun _ => Step.Ages.of_start) (fun _ _ _ => .of_eq rfl rfl id)
    (fun _ _ _ => .of_eq rfl rfl id) order g

theorem makeAllRunnable (g : Graph) (t : Timestamp) (l : List StepRef) :
    g.Ages t (l.foldl (fun g s => g.makeRunnable t s) g) := by
  have hmaps : g.SameMaps (l.foldl (fun g s => g.makeRunnable t s) g) :=
    .foldl (fun g s => .makeRunnable g t s) l g
  refine of_keeps ?_ fun _ _ hp => hmaps.steps ▸ hp
  exact Keeps.makeAllRunnable Step.Ages.refl (fun _ _ _ => Step.Ages.trans)
    (fun _ => Step.Ages.of_start) l g

end Graph.Ages

/-! ### `inner_fail_job` -/

theorem Graph.finishBuilds_step (g : Graph) (bs : List BuildRef) :
    (g.finishBuilds bs).step = g.step := by
  induction bs generalizing g with
  | nil => rfl
  | cons b bs ih => exact ih _

namespace InnerFail

theorem loopHead_stepHeap (s : Shared) (step : StepRef) (job : Job) (v : Bool) :
    (loopHead s step job v).1.graph.step = s.graph.step := by
  have h := (Graph.getAllIndirectBuilds_spec s.graph step).2.2.2
  unfold loopHead
  simp only
  split_ifs <;> exact h

theorem start_stepHeap (s : Shared) (step : StepRef) (job : Job) :
    (start s step job).1.graph.step = s.graph.step := by
  unfold start
  split_ifs
  · rfl
  · exact loopHead_stepHeap s step job false

theorem resume_stepHeap (s : Shared) (f : InnerFail) (ans : Answer) :
    (f.resume s ans).1.graph.step = s.graph.step := by
  unfold resume
  cases f.pc with
  | finishBuildStep =>
    by_cases hok : ans.ok <;> simp only [hok, if_true]
    · exact loopHead_stepHeap s f.step f.job false
    · rfl
  | mark indirect =>
    by_cases hok : ans.ok <;> simp only [hok, if_true]
    · exact (loopHead_stepHeap _ f.step f.job true).trans (s.graph.finishBuilds_step indirect)
    · rfl
  | notify => rfl

theorem start_ages {t : Timestamp} (s : Shared) (step : StepRef) (job : Job) :
    s.graph.Ages t (start s step job).1.graph :=
  .of_step (start_stepHeap s step job) (start_fades s step job).steps

theorem resume_ages {t : Timestamp} (s : Shared) (f : InnerFail) (ans : Answer) :
    s.graph.Ages t (f.resume s ans).1.graph :=
  .of_step (resume_stepHeap s f ans) (resume_fades s f ans).steps

end InnerFail

/-! ### The dispatch loop -/

theorem dispatch_ages {cfg : Config} {s s' : Shared} {held : InfoRef → Bool}
    {d d' : DispatchPc} {ans : Answer}
    (h : d.resume cfg s held ans = some (s', d')) : s.graph.Ages ans.now s'.graph := by
  cases dispatchEffect_of_resume h with
  | cloneRunnable => exact .of_step rfl (Graph.Fades.cloneRunnable s.graph).steps
  | innerFail nextUuid step job =>
    exact InnerFail.start_ages { s with nextUuid := nextUuid } step job
  | innerResume f => exact InnerFail.resume_ages s f ans
  | supported r => exact .setLastSupportedNow ..
  | _ => exact .refl _

/-! ### The calls that end attempts -/

theorem succeedResume_ages (s : Shared) (held : InfoRef → Bool) (a : Attempt)
    (report : BuildReport) (pc : SucceedPc) (ans : Answer) :
    s.graph.Ages ans.now (succeedResume s held a report pc ans).1.graph := by
  cases pc with
  | start =>
    simp only [succeedResume, succeedStart]
    cases hq : s.queues.removeJobFromScheduled a.drv with
    | none => exact .refl _
    | some res =>
      simp only
      split <;> exact .setFinished ..
  | removeJob item job =>
    simp only [succeedResume]
    split <;> exact .refl _
  | finishBuildStep item job =>
    simp only [succeedResume]
    split_ifs
    · exact .of_step rfl (Graph.Fades.removeStep ..).steps
    · exact .refl _
    · exact .refl _
  | markSucceeded item direct =>
    simp only [succeedResume]
    split_ifs
    · exact .of_step (s.graph.finishBuilds_step direct) (Graph.Fades.finishBuilds ..).steps
    · exact .refl _
  | notify item =>
    simp only [succeedResume]
    split_ifs
    · exact .makeRdepsRunnable ..
    · exact .refl _

theorem failResume_ages {t : Timestamp} (cfg : Config) (s : Shared) (held : InfoRef → Bool)
    (a : Attempt) (pc : FailPc) (caller : Caller) (ans : Answer) :
    s.graph.Ages t (failResume cfg s held a pc caller ans).1.graph := by
  cases pc with
  | start state timings =>
    simp only [failResume, failStart]
    cases hq : s.queues.removeJobFromScheduled a.drv with
    | none => exact .refl _
    | some res =>
      obtain ⟨item, queues⟩ := res
      simp only
      split
      · exact .setFinished ..
      · rename_i machines job hm
        obtain ⟨tries, after, hg⟩ := failDecide_graph cfg
          (({ s with
              queues := queues
              graph := s.graph.setFinished item.stepInfo.step false
              machines := machines } : Shared).endAttempt job)
          a item job state timings caller ans
        have heq : (s.graph.setFinished item.stepInfo.step false).modifyStep
            item.stepInfo.step (fun r => { r with tries := tries, after := after }) =
            s.graph.modifyStep item.stepInfo.step
              (fun r => { r with finished := false, tries := tries, after := after }) := by
          simp [Graph.setFinished, Graph.modifyStep]
        rw [hg]
        exact heq ▸ .modifyStep _ (.of_eq rfl rfl id)
  | retry item job => exact .refl _
  | removeJob item job =>
    exact InnerFail.start_ages { s with
      queues := s.queues.removeJob held item.stepInfo item.buildQueue } item.stepInfo.step job
  | inner item f =>
    have h := InnerFail.resume_ages (t := t) s f ans
    simp only [failResume]
    split <;> rename_i heq <;> rw [heq] at h <;> exact h

theorem call_ages {cfg : Config} {s : Shared} {held : InfoRef → Bool} {t : CallTask}
    {ans : Answer} {res : Shared × Option CallTask}
    (h : t.resume cfg s held ans = some res) : s.graph.Ages ans.now res.1.graph := by
  unfold CallTask.resume at h
  cases t with
  | succeed a report pc =>
    cases h
    exact succeedResume_ages s held a report pc ans
  | fail a pc caller =>
    cases h
    exact failResume_ages cfg s held a pc caller ans
  | killStart =>
    simp only at h
    split_ifs at h
    cases h
    exact .refl _
  | kill todo cancelled =>
    cases todo with
    | nil => cases h; exact .refl _
    | cons e todo =>
      cases h
      rw [killResume_shared]
      exact .refl _
  | killAbort a machine todo cancelled =>
    simp only at h
    split_ifs at h <;> cases h <;> exact .refl _
  | tunnelClose machine => cases h; exact .refl _

/-! ### The creation of steps -/

/-- `Steps::create`. -/
theorem Graph.Ages.of_created {t : Timestamp} {g g' : Graph} {drvPath : StorePath}
    {build : Option BuildRef} {step : Option StepRef} {s : StepRef} {isNew : Bool}
    (h : Created g drvPath build step g' s isNew) : g.Ages t g' := by
  refine ⟨fun x => ?_, fun p x hx => ?_⟩
  · rw [h.step]
    split_ifs with hxs hnew
    · exact Or.inr rfl
    · subst hxs
      exact Or.inl (.of_eq rfl rfl id)
    · exact Or.inl (.refl _)
  · rw [h.steps, Map.lookup_insert_eq] at hx
    split_ifs at hx with hp
    · cases hx
      cases hnew : isNew with
      | true =>
        rw [h.step, if_pos rfl, hnew]
        exact Or.inr rfl
      | false => exact Or.inl (hp ▸ (findStep_eq_some.mp (h.found hnew)).1)
    · exact Or.inl hx

/-- `create_build` starts without touching the graph. -/
theorem CreateState.startBuild_graph (c : CreateState) (k : CallId) (id : BuildID) :
    (c.startBuild k id).1.graph = c.graph := by
  unfold CreateState.startBuild
  split
  · rfl
  · split <;> rfl

/-- A step of a pass.  The release of steps reads the clock. -/
theorem CreateState.resumePass_ages {c c' : CreateState} {k : CallId} {ans : Answer}
    (h : c.resumePass k ans = some c') : c.graph.Ages ans.now c'.graph := by
  unfold CreateState.resumePass at h
  split at h
  · cases h
  · rename_i pass hpass
    split at h
    · rename_i id todo hwaiting htodo
      have hgraph := CreateState.startBuild_graph
        (c.setPass k { pass with todo := todo, newRunnable := [] }) k id
      simp only at h
      split at h <;> rename_i heq <;> rw [heq] at hgraph
      · split at h <;> cases h
        exact .of_step (by rw [CreateState.setPass_graph, hgraph]; rfl) fun _ _ hp => by
          rwa [CreateState.setPass_graph, hgraph] at hp
      · cases h
        exact .of_step (by rw [hgraph]; rfl) fun _ _ hp => by rwa [hgraph] at hp
    · split at h
      · cases h
        exact .makeAllRunnable ..
      · cases h
    · split_ifs at h
      cases h
      exact .sweepSteps ..

/-- A step of the creation. -/
theorem CreateGraph.ages {t : Timestamp} {c : CreateState} {a : CreateAction} {g : Graph}
    (h : CreateGraph c a g) (ha : ∀ k, a ≠ .resumePass k) : c.graph.Ages t g := by
  cases h with
  | same => exact .refl _
  | startPass rows =>
    obtain ⟨-, hstep, hsteps⟩ := c.startPass_grows rows
    exact .of_step hstep fun _ _ hp => hsteps ▸ hp
  | makeRunnable now steps => exact absurd rfl (ha _)
  | sweep now order => exact absurd rfl (ha _)
  | finishInDb hcall => exact .of_step rfl fun _ _ => id
  | attach hcall hpc =>
    simp only [CreateState.finishBuild]
    split_ifs <;> exact .of_step rfl fun _ _ => id
  | created h => exact .of_created h
  | setDrv step drv =>
    exact .modifyStep _ (f := fun r => { r with drv := some _ }) (.of_eq rfl rfl (by simp))
  | setPreviousFailure step =>
    exact .modifyStep _ (f := fun r => { r with previousFailure := true }) (.of_eq rfl rfl id)
  | setFinished step => exact .setFinished ..
  | addDep step dep => exact .addDep ..
  | setCreated step =>
    exact .modifyStep _ (f := fun r => { r with created := true }) (.of_eq rfl rfl id)

/-! ### The runner -/

/-- Every step of the runner at the time `t`. -/
theorem RunnerStep.ages {cfg : Config} {r r' : Runner} {a : Action} {t : Timestamp}
    (h : RunnerStep cfg r a r') (ht : ∀ t' ∈ a.now?, t' = t) :
    r.shared.graph.Ages t r'.shared.graph := by
  cases h with
  | dispatch hres => exact ht _ rfl ▸ dispatch_ages hres
  | call hlookup hres => exact ht _ rfl ▸ call_ages hres
  | completeBuild uuid machineId state report =>
    obtain ⟨results, hs, -⟩ := completeBuild_spec r.shared uuid machineId state report
    rw [Runner.spawn_shared, hs]
    exact .refl _
  | endStream hm =>
    obtain ⟨machines, task, hs, -⟩ := endStream_spec r.shared _
    rw [Runner.spawn_shared, hs]
    exact .refl _
  | queueChange curIds =>
    rw [Runner.spawn_shared]
    exact .of_step rfl (Graph.Fades.retainBuilds _ _).steps
  | insertMachine id record sortFn => exact .refl _
  | @create a ans c hnext =>
    have ht := ht ans.now rfl
    subst ht
    by_cases ha : ∃ k, a = .resumePass k
    · obtain ⟨k, rfl⟩ := ha
      exact CreateState.resumePass_ages hnext
    · exact (CreateState.createStep_of_next hnext).createGraph.ages fun k hk => ha ⟨k, hk⟩
  | dropStep hheld =>
    exact .modifyStep _ (f := fun r => { r with alive := false }) (.of_eq rfl rfl id)
  | dropBuild hheld => exact .of_step rfl fun _ _ => id

/-- A call registers no machine. -/
theorem CallStep.sameRegistry {cfg : Config} {r : Runner} (hok : RunnerOk cfg r)
    {task : CallTask} {s' : Shared} {t' : Option CallTask}
    (hs : CallStep r.shared r.held task s' t') :
    r.shared.machines.SameRegistry s'.machines := by
  cases hs with
  | quiet hstart hsame => exact hsame.registry
  | missing => exact .refl _
  | ends a rest item job hstart ht hends => exact hends.registry
  | jobMissing a rest item hstart ht hitem hnone =>
    exact absurd hnone (hok.attempts.find_job hitem)
  | removeJob i system hstart hi hremoved => exact hremoved.registry

/-- The machines after a step, as far as `support_step` is concerned. -/
theorem Timed.supportStep_registryAfter {cfg : Config} {r r' : Runner} {a : Action}
    (hok : RunnerOk cfg r) (h : RunnerStep cfg r a r') (system : Option System)
    (required : List String) : r'.shared.machines.supportStep system required =
      (registryAfter r a).supportStep system required := by
  cases h with
  | dispatch hres => exact (dispatchStep_of_resume hres).sameRegistry.supportStep ..
  | call hlookup hres =>
    exact ((callStep_of_resume hres).sameRegistry hok).supportStep ..
  | completeBuild uuid machineId state report =>
    obtain ⟨results, hs, -⟩ := completeBuild_spec r.shared uuid machineId state report
    rw [Runner.spawn_shared, hs]
    rfl
  | @endStream m hm =>
    rw [Runner.spawn_shared, registryAfter, endStream]
    cases r.shared.machines.removeMachine m.id <;> rfl
  | queueChange curIds => rfl
  | insertMachine id record sortFn => rfl
  | create hnext => rfl
  | dropStep hheld => rfl
  | dropBuild hheld => rfl

/-- A step that had support keeps its derivation, so it has the support that
the registry gives it. -/
theorem Timed.supports_eq {cfg : Config} {r r' : Runner} {a : Action} {s : StepRef}
    (hok : RunnerOk cfg r) (hok' : RunnerOk cfg r') (h : RunnerStep cfg r a r')
    (hdrv : (r.shared.graph.step s).drv ≠ none → (r'.shared.graph.step s).drv ≠ none)
    (hs : r.supports s = true) : r'.supports s =
      (registryAfter r a).supportStep (r.shared.graph.getSystem s)
        (r.shared.graph.getRequiredFeatures s) := by
  cases hd : (r.shared.graph.step s).drv with
  | none => simp [Runner.supports, Graph.getSystem, hd, Machines.supportStep] at hs
  | some d =>
    obtain ⟨d', hd'⟩ := Option.ne_none_iff_exists'.mp (hdrv (by simp [hd]))
    have hsame : d' = d :=
      (hok'.create.graph.drv s d' hd').trans (hok.create.graph.drv s d hd).symm
    rw [Runner.supports, Timed.supportStep_registryAfter hok h]
    simp only [Graph.getSystem, Graph.getRequiredFeatures, hd, hd', hsame]

theorem realiseResume_aborting (s : Shared) (held : InfoRef → Bool) (w : Walk)
    (i : InfoRef) (pc : RealisePc) (ans : Answer) :
    (realiseResume s held w i pc ans).2.aborting = none := by
  cases pc with
  | checkCached m job => simp only [realiseResume]; split_ifs <;> rfl
  | cachedFailure f => simp only [realiseResume]; split <;> rfl
  | prepare m job => simp only [realiseResume]; split_ifs <;> rfl
  | send m job => simp only [realiseResume]; split_ifs <;> rfl
  | sent m job => rfl
  | schedule m job => rfl
  | remove => rfl

theorem abortStep_aborting (cfg : Config) (s : Shared) (now : Timestamp)
    (todo aborted : List StepRef) (r : StepRef) (ans : Answer) :
    (abortStep cfg s now todo aborted r ans).2.aborting = some (now, todo) := by
  unfold abortStep
  split_ifs
  · rfl
  · rfl
  · simp only
    split <;> rfl

/-- The list of `abort_unsupported` is made of registered runnable steps,
and then only gets shorter. -/
theorem aborting_of_resume {cfg : Config} {s s' : Shared} {held : InfoRef → Bool}
    {d d' : DispatchPc} {ans : Answer} {now : Timestamp} {todo : List StepRef}
    (h : d.resume cfg s held ans = some (s', d')) (hd : d'.aborting = some (now, todo)) :
    (∃ todo', d.aborting = some (now, todo') ∧ ∀ x ∈ todo, x ∈ todo') ∨
      d.aborting = none ∧ now = ans.now ∧ ∀ x ∈ todo, (s.graph.step x).runnable = true ∧
        ∃ p, s.graph.steps.lookup p = some x := by
  unfold DispatchPc.resume at h
  cases d with
  | idle =>
    simp only at h
    split_ifs at h
    cases h
    cases hd
  | collect now' todo' queues => cases todo' <;> cases h <;> cases hd
  | insert now' queues =>
    simp only at h
    split_ifs at h
    · cases h
      cases hd
    · split at h <;> cases h
      cases hd
  | scrub => cases h; cases hd
  | process =>
    simp only at h
    split_ifs at h
    split at h <;> cases h <;> cases hd
  | walk w =>
    simp only at h
    split at h
    · split_ifs at h with hperm
      cases h
      cases hd
      refine Or.inr ⟨rfl, rfl, fun x hx => ?_⟩
      obtain ⟨hmem, hrun⟩ := List.mem_filter.mp (hperm.mem_iff.mp hx)
      obtain ⟨p, hp⟩ := Map.mem_values_iff.mp hmem
      exact ⟨hrun, p, (Graph.Fades.cloneRunnable s.graph).steps p x hp⟩
    · cases h
      cases hd
    · rename_i i jobs hjobs
      simp only [Option.some.injEq, walkStep, realiseStart] at h
      split_ifs at h <;> try (cases h; cases hd)
      split at h
      · cases h
        cases hd
      · split at h <;> cases h <;> cases hd
  | realise w i pc =>
    simp only [Option.some.injEq] at h
    have hnone := realiseResume_aborting s held w i pc ans
    rw [h, hd] at hnone
    cases hnone
  | abort now' todo' aborted =>
    cases todo' with
    | nil => cases h; cases hd
    | cons r todo' =>
      simp only [Option.some.injEq] at h
      have hsome := abortStep_aborting cfg s now' todo' aborted r ans
      rw [h, hd] at hsome
      cases hsome
      exact Or.inl ⟨r :: todo, rfl, fun _ => List.mem_cons_of_mem r⟩
  | abortFail now' todo' aborted f =>
    simp only at h
    split at h <;> cases h <;> cases hd <;> exact Or.inl ⟨_, rfl, fun _ => id⟩
  | abortRemove aborted =>
    simp only at h
    split_ifs at h <;> cases h <;> cases hd
  | abortScrub => cases h; cases hd

/-! ## The invariant -/

namespace Timed

variable {cfg : Config} {w w' : Timed}

theorem stateAt_cons (r r' : Runner) (t t' τ : Timestamp) (history : List (Timestamp × Runner)) :
    stateAt ⟨r, t, (t', r') :: history⟩ τ =
      if t' ≤ τ then some r' else stateAt ⟨r, t, history⟩ τ := by
  simp only [stateAt, List.find?_cons]
  by_cases h : t' ≤ τ <;> simp [h]

/-- The step was runnable at every moment from `since` on. -/
def RunnableSince (w : Timed) (s : StepRef) (since : Timestamp) : Prop :=
  ∀ τ, since ≤ τ → ∃ r, w.stateAt τ = some r ∧ (r.shared.graph.step s).runnable = true

/-- What is known about the steps at which `abort_unsupported` can look. -/
structure TimedInv (cfg : Config) (w : Timed) : Prop where
  ok : RunnerOk cfg w.runner
  latest : ∃ history, w.history = (w.clock, w.runner) :: history
  times : ∀ e ∈ w.history, e.1 ≤ w.clock
  aborting : ∀ now todo, w.runner.dispatcher.aborting = some (now, todo) →
    now ≤ w.clock ∧ ∀ x ∈ todo, (w.runner.shared.graph.step x).runnable = true ∧
      x.gen < w.runner.shared.graph.fresh
  lost : ∀ now todo, w.runner.dispatcher.aborting = some (now, todo) → ∀ x ∈ todo,
    w.runner.supports x = false → Late cfg w.runner now x →
      ∀ t ∈ lostAt x w.history, t + cfg.maxUnsupportedTime ≤ now
  known : ∀ s ∈ watched w.runner, (w.runner.shared.graph.step s).runnable = true →
    w.RunnableSince s (w.runner.shared.graph.step s).lastSupported

theorem next_eq_some {a : Action × Timestamp} (h : w.next cfg a = some w') :
    w.clock ≤ a.2 ∧ (∀ t ∈ a.1.now?, t = a.2) ∧ w.runner.next cfg a.1 = some w'.runner ∧
      w' = ⟨w'.runner, a.2, (a.2, w'.runner) :: w.history⟩ := by
  unfold next at h
  split_ifs at h with hc
  obtain ⟨r, hr, rfl⟩ := Option.map_eq_some_iff.mp h
  exact ⟨hc.1, hc.2, hr, rfl⟩

theorem mem_watched {r : Runner} {s : StepRef} : s ∈ watched r ↔
    (∃ p, r.shared.graph.steps.lookup p = some s) ∨
      ∃ now todo, r.dispatcher.aborting = some (now, todo) ∧ s ∈ todo := by
  simp only [watched, List.mem_append, Map.mem_values_iff]
  cases h : r.dispatcher.aborting with
  | none => simp
  | some e =>
    obtain ⟨now, todo⟩ := e
    simp

/-- The list of `abort_unsupported` after any step. -/
theorem aborting_of_step {r r' : Runner} {a : Action} {t now : Timestamp}
    {todo : List StepRef} (h : RunnerStep cfg r a r') (ht : ∀ t' ∈ a.now?, t' = t)
    (hd : r'.dispatcher.aborting = some (now, todo)) :
    (∃ todo', r.dispatcher.aborting = some (now, todo') ∧ ∀ x ∈ todo, x ∈ todo') ∨
      r.dispatcher.aborting = none ∧ now = t ∧ ∀ x ∈ todo,
        (r.shared.graph.step x).runnable = true ∧
          ∃ p, r.shared.graph.steps.lookup p = some x := by
  by_cases ha : ∃ ans, a = .dispatch ans
  · obtain ⟨ans, rfl⟩ := ha
    cases h with
    | dispatch hres => exact ht _ rfl ▸ aborting_of_resume hres hd
  · rw [h.dispatcher_eq fun ans heq => ha ⟨ans, heq⟩] at hd
    exact Or.inl ⟨todo, hd, fun _ => id⟩

/-- A runnable step is not watched anew. -/
theorem watched_of_step {r r' : Runner} {a : Action} {t : Timestamp} {s : StepRef}
    (h : RunnerStep cfg r a r') (ht : ∀ t' ∈ a.now?, t' = t) (hs : s ∈ watched r')
    (hrun : (r'.shared.graph.step s).runnable = true) : s ∈ watched r := by
  rcases mem_watched.mp hs with ⟨p, hp⟩ | ⟨now, todo, hd, hmem⟩
  · rcases (h.ages ht).steps p s hp with hp | hnot
    · exact mem_watched.mpr (Or.inl ⟨p, hp⟩)
    · rw [hnot] at hrun
      cases hrun
  · rcases aborting_of_step h ht hd with ⟨todo', hd', hsub⟩ | ⟨-, -, hreg⟩
    · exact mem_watched.mpr (Or.inr ⟨now, todo', hd', hsub s hmem⟩)
    · exact mem_watched.mpr (Or.inl (hreg s hmem).2)

theorem RunnableSince.of_now {r : Runner} {t : Timestamp}
    {history : List (Timestamp × Runner)} {s : StepRef}
    (hrun : (r.shared.graph.step s).runnable = true) :
    RunnableSince ⟨r, t, (t, r) :: history⟩ s t :=
  fun τ hτ => ⟨r, by rw [stateAt_cons, if_pos hτ], hrun⟩

theorem RunnableSince.cons {r : Runner} {t since : Timestamp} {s : StepRef}
    (h : w.RunnableSince s since) (hrun : (r.shared.graph.step s).runnable = true) :
    RunnableSince ⟨r, t, (t, r) :: w.history⟩ s since := by
  intro τ hτ
  by_cases ht : t ≤ τ
  · exact ⟨r, by rw [stateAt_cons, if_pos ht], hrun⟩
  · rw [stateAt_cons, if_neg ht]
    exact h τ hτ

/-! ### The loss of support -/

theorem mem_times_of_lostAt {s : StepRef} {history : List (Timestamp × Runner)} {t : Timestamp}
    (h : t ∈ lostAt s history) : ∃ e ∈ history, e.1 = t := by
  fun_induction lostAt s history with
  | case1 t₁ r₁ t₀ r₀ rest hlost =>
    cases h
    exact ⟨_, List.mem_cons_self, rfl⟩
  | case2 t₁ r₁ t₀ r₀ rest hlost ih =>
    obtain ⟨e, he, ht⟩ := ih h
    exact ⟨e, List.mem_cons_of_mem _ he, ht⟩
  | case3 => cases h

namespace TimedInv

theorem init : TimedInv cfg {} where
  ok := RunnerOk.init
  latest := ⟨[], rfl⟩
  times := by simp
  aborting := by
    rintro now todo ⟨⟩
  lost := by
    rintro now todo ⟨⟩
  known := by
    intro s hs
    simp [watched, DispatchPc.aborting] at hs
    cases hs

/-- The list of `abort_unsupported` after a step. -/
theorem aborting_step (h : TimedInv cfg w) {a : Action × Timestamp}
    (hnext : w.next cfg a = some w') {now : Timestamp} {todo : List StepRef}
    (hd : w'.runner.dispatcher.aborting = some (now, todo)) : now ≤ a.2 ∧
      ∀ x ∈ todo, (w.runner.shared.graph.step x).runnable = true ∧
        (w'.runner.shared.graph.step x).runnable = true ∧
          x.gen < w'.runner.shared.graph.fresh := by
  obtain ⟨hclock, htime, hr, -⟩ := next_eq_some hnext
  have hstep := runnerStep_of_next hr
  obtain ⟨hext, hmarks⟩ := hstep.extends
  have hkeep : ∀ x : StepRef, (w.runner.shared.graph.step x).runnable = true →
      x.gen < w.runner.shared.graph.fresh → (w.runner.shared.graph.step x).runnable = true ∧
        (w'.runner.shared.graph.step x).runnable = true ∧
          x.gen < w'.runner.shared.graph.fresh :=
    fun x hx hgen => ⟨hx, (hmarks x hgen).1 hx, lt_of_lt_of_le hgen hext.fresh⟩
  rcases aborting_of_step hstep htime hd with ⟨todo', hd', hsub⟩ | ⟨-, hnow, hreg⟩
  · obtain ⟨hle, htodo⟩ := h.aborting now todo' hd'
    refine ⟨hle.trans hclock, fun x hx => ?_⟩
    exact hkeep x (htodo x (hsub x hx)).1 (htodo x (hsub x hx)).2
  · refine ⟨le_of_eq hnow, fun x hx => ?_⟩
    obtain ⟨hrun, p, hp⟩ := hreg x hx
    exact hkeep x hrun (h.ok.create.graph.steps p x hp).2

/-- A step without support that a pass has before it, and that is late, has
lost its support as long before the pass. -/
theorem lost_step (h : TimedInv cfg w) {a : Action × Timestamp} (hseen : w.LostLongAgo cfg a)
    (hnext : w.next cfg a = some w') {now : Timestamp} {todo : List StepRef}
    (hd : w'.runner.dispatcher.aborting = some (now, todo)) {x : StepRef} (hx : x ∈ todo)
    (hnot : w'.runner.supports x = false) (hlate : Late cfg w'.runner now x) :
    ∀ t ∈ lostAt x w'.history, t + cfg.maxUnsupportedTime ≤ now := by
  obtain ⟨hclock, htime, hr, hw'⟩ := next_eq_some hnext
  have hstep := runnerStep_of_next hr
  obtain ⟨hrun, hrun', -⟩ := (h.aborting_step hnext hd).2 x hx
  have hage : Step.Ages a.2 (w.runner.shared.graph.step x) (w'.runner.shared.graph.step x) := by
    refine ((hstep.ages htime).step x).resolve_right fun hnone => ?_
    rw [hnone] at hrun'
    cases hrun'
  -- it was late before, or it has waited since this step of the run
  have hlate' : Late cfg w.runner now x ∨ a.2 + cfg.maxUnsupportedTime ≤ now := by
    have hsum : ∀ last t now max : Int, max ≤ now - t → t + max ≤ now := by omega
    unfold Late at hlate ⊢
    rcases (hage.kept hrun).2 with hlast | hlast
    · exact Or.inl (hlast ▸ hlate)
    · rw [hlast] at hlate
      exact Or.inr (hsum 0 _ _ _ hlate)
  have hbefore : ∀ t ∈ lostAt x w'.history, t ≤ a.2 := by
    intro t ht
    obtain ⟨e, he, rfl⟩ := mem_times_of_lostAt ht
    rw [hw'] at he
    rcases List.mem_cons.mp he with rfl | he
    · exact le_refl _
    · exact (h.times e he).trans hclock
  have hmono : a.2 + cfg.maxUnsupportedTime ≤ now →
      ∀ t ∈ lostAt x w'.history, t + cfg.maxUnsupportedTime ≤ now := fun hle t ht =>
    (Int.add_le_add_right (hbefore t ht) _).trans hle
  rcases hlate' with hlate' | hle
  · cases hsup : w.runner.supports x with
    | true =>
      -- the support is lost in this step, so a machine leaves
      rw [supports_eq h.ok (h.ok.step hstep) hstep hage.drv hsup] at hnot
      rcases aborting_of_step hstep htime hd with ⟨todo', hd', hsub⟩ | ⟨hnone, -, -⟩
      · exact absurd hlate' (hseen.2 _ hd' x (hsub x hx) hsup hnot)
      · have hdispatch : ∃ ans, a.1 = .dispatch ans := by
          by_contra hother
          rw [hstep.dispatcher_eq fun ans ha => hother ⟨ans, ha⟩, hnone] at hd
          cases hd
        obtain ⟨ans, ha⟩ := hdispatch
        rw [ha] at hnot
        exact absurd (hsup.symm.trans hnot) (by simp)
    | false =>
      obtain ⟨history, hhistory⟩ := h.latest
      have hsame : lostAt x w'.history = lostAt x w.history := by
        rw [hw', hhistory]
        exact if_neg (by simp [hsup])
      rw [hsame]
      rcases aborting_of_step hstep htime hd with ⟨todo', hd', hsub⟩ | ⟨hnone, hnow, -⟩
      · exact h.lost now todo' hd' x (hsub x hx) hsup hlate'
      · have hbegun : x ∈ w.begun cfg a := by
          simp only [begun, hnone, hnext, Option.bind_some, hd]
          exact hx
        rw [hnow] at hlate' ⊢
        exact hseen.1 x hbegun hlate'
  · exact hmono hle

theorem step (h : TimedInv cfg w) {a : Action × Timestamp} (hseen : w.LostLongAgo cfg a)
    (hnext : w.next cfg a = some w') : TimedInv cfg w' := by
  obtain ⟨hclock, htime, hr, hw'⟩ := next_eq_some hnext
  have hstep := runnerStep_of_next hr
  have hok' := h.ok.step hstep
  have hages := hstep.ages htime
  have haborting := fun now todo => @aborting_step _ _ _ h a hnext now todo
  have hlost := fun now todo hd x hx =>
    h.lost_step hseen hnext (show _ = some (now, todo) from hd) (show x ∈ _ from hx)
  rw [hw'] at hlost ⊢
  refine ⟨hok', ⟨w.history, rfl⟩, fun e he => ?_, fun now todo hd => ?_, hlost,
    fun s hs hrun => ?_⟩
  · rcases List.mem_cons.mp he with rfl | he
    · exact le_refl _
    · exact (h.times e he).trans hclock
  · obtain ⟨hle, htodo⟩ := haborting now todo hd
    exact ⟨hle, fun x hx => (htodo x hx).2⟩
  · have hold := watched_of_step hstep htime hs hrun
    have hage : Step.Ages a.2 (w.runner.shared.graph.step s) (w'.runner.shared.graph.step s) := by
      refine (hages.step s).resolve_right fun hnot => ?_
      rw [hnot] at hrun
      cases hrun
    cases hrun₀ : (w.runner.shared.graph.step s).runnable with
    | false =>
      rw [hage.started hrun₀ hrun]
      exact .of_now hrun
    | true =>
      rcases (hage.kept hrun₀).2 with hlast | hlast
      · rw [hlast]
        exact (h.known s hold hrun₀).cons hrun
      · rw [hlast]
        exact .of_now hrun

end TimedInv

end Timed

/-- A step that fails a step as unsupported: no machine supports it now, and
none was seen to support it for the waiting time. -/
theorem Timed.Fails.checked {cfg : Config} {w : Timed} {a : Action × Timestamp} {s : StepRef}
    (h : w.Fails cfg a s) : ∃ now todo,
      w.runner.dispatcher.aborting = some (now, s :: todo) ∧ w.clock ≤ a.2 ∧
      w.runner.supports s = false ∧
      cfg.maxUnsupportedTime ≤ now - (w.runner.shared.graph.step s).lastSupported := by
  obtain ⟨now, todo, aborted, w', f, hd, hnext, hd', -, -⟩ := h
  obtain ⟨hclock, -, hr, -⟩ := Timed.next_eq_some hnext
  refine ⟨now, todo, by rw [hd]; rfl, hclock, ?_⟩
  have hstep := runnerStep_of_next hr
  have hdispatch : ∃ ans, a.1 = .dispatch ans := by
    by_contra hother
    rw [hstep.dispatcher_eq fun ans ha => hother ⟨ans, ha⟩, hd] at hd'
    cases hd'
  obtain ⟨ans, ha⟩ := hdispatch
  generalize w'.runner = r' at hstep hd'
  rw [ha] at hstep
  cases hstep with
  | dispatch hres =>
    rw [hd] at hres
    simp only [DispatchPc.resume, abortStep, Option.some.injEq] at hres
    split_ifs at hres with hsup hlate
    · cases hres
      cases hd'
    · cases hres
      cases hd'
    · exact ⟨Bool.eq_false_iff.mpr hsup, not_lt.mp hlate⟩

namespace Timed

/-- A step is given up after ten milliseconds without support. -/
def config : Config := { Sample.config with maxUnsupportedTime := 10 }

/-- The creation of a build, whose step becomes runnable at the time 0. -/
def created : List (Action × Timestamp) := Sample.created.map (fun a => (a, 0))

/-- A pass at the time `t` that finds no machine, up to its last loop. -/
def pass (t : Timestamp) : List (Action × Timestamp) :=
  ([{ steps := [Sample.step] }, {}, {}, { system := "x86_64-linux" }, {}, {},
    { systems := ["x86_64-linux"] }, {}, { steps := [Sample.step] }] : List Answer).map
      (fun ans => (.dispatch { ans with now := t }, t))

/-- The turn of the loop that gives the step up. -/
def giveUp (t : Timestamp) : Action × Timestamp :=
  (.dispatch { now := t, build := ⟨1, Sample.drv, 0⟩ }, t)

/-- A machine is there from the time 1 to the time 9, and no pass sees it. -/
def visit : List (Action × Timestamp) :=
  [(Sample.register, 1), (.endStream Sample.machine, 9)]

/-- Whether the step is given up. -/
def givesUp (w : Timed) (t : Timestamp) : Bool :=
  match w.runner.dispatcher, (w.next config (giveUp t)).map (fun w' => w'.runner.dispatcher) with
  | DispatchPc.abort now (s :: todo) aborted, some (DispatchPc.abortFail now' todo' aborted' f) =>
    s = Sample.step ∧ now' = now ∧ todo' = todo ∧ aborted' = aborted ++ [s] ∧ f.step = s ∧
      f.job.result.stepStatus = .unsupported
  | _, _ => false

end Timed

end QueueRunner
