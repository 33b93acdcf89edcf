import QueueRunner.BuildCalls

/-!
# No build is lost

`succeed_step` marks its step as finished at once, and reads the builds of
the step with `get_direct_builds` two awaits later.  In between, and
afterwards, `create_build` can attach a build to the same step.

A build waits for a step when it is registered with the step as its top
level, or when its call of `create_build` will do that.  In a run in which
every build that joins a finished step does so before `get_direct_builds`
is read, each step that a build waits for is either unfinished or about to
have the build marked.
-/

namespace QueueRunner

/-- The call has still to read the direct builds of the step. -/
def CallTask.readsBuildsOf : CallTask → StepRef → Prop
  | .succeed _ _ (.removeJob item _), s => item.stepInfo.step = s
  | .succeed _ _ (.finishBuildStep item _), s => item.stepInfo.step = s
  | _, _ => False

/-- The call will mark the build as finished with its step. -/
def CallTask.Marks (t : CallTask) (b : BuildRef) (s : StepRef) : Prop :=
  t.readsBuildsOf s ∨
    ∃ a report item direct, t = .succeed a report (.markSucceeded item direct) ∧
      item.stepInfo.step = s ∧ b ∈ direct

/-- The call of `succeed_step` is past its first step, and works on the
step. -/
def CallTask.completes : CallTask → StepRef → Prop
  | .succeed _ _ .start, _ => False
  | .succeed _ _ (.removeJob item _), s => item.stepInfo.step = s
  | .succeed _ _ (.finishBuildStep item _), s => item.stepInfo.step = s
  | .succeed _ _ (.markSucceeded item _), s => item.stepInfo.step = s
  | .succeed _ _ (.notify item), s => item.stepInfo.step = s
  | _, _ => False

/-- No registered build is left behind by its step: once no call of
`succeed_step` works on a finished step, all builds with this step as their
top level are finished. -/
def NoBuildLost (r : Runner) : Prop :=
  ∀ b ∈ r.shared.graph.builds.values, (r.shared.graph.build b).finishedInDb = false →
    ∀ s, (r.shared.graph.build b).toplevel = some s →
      (∀ t task, r.calls.lookup t = some task → ¬task.completes s) →
      (r.shared.graph.step s).finished = false

/-- The step that a call of `create_build` is going to find. -/
def CreateState.joins (c : CreateState) (k : CallId) : Option StepRef :=
  match c.creation.builds.lookup k with
  | some ⟨pass, build, _, .validPath⟩ =>
    match c.creation.passes.lookup pass with
    | some p => if build.drvPath ∈ p.finishedDrvs then none
      else c.graph.findStep build.drvPath
    | none => c.graph.findStep build.drvPath
  | _ => none

/-- The step that a call of `create_step` is going to take as finished. -/
def CreateState.decides (c : CreateState) (k : CallId) (ans : Answer) : Option StepRef :=
  match c.creation.steps.lookup k with
  | some ⟨_, _, _, _, _, _, .checkCached step _ missing⟩ =>
    if ans.cached = false ∧ missing = [] then some step else none
  | some ⟨_, _, _, _, _, _, .substitute step _ missing⟩ =>
    if missing.all ans.substituted then some step else none
  | _ => none

/-- The database calls of `succeed_step` and `fail_step` do not fail, nor does
what else `finish_build_step` waits for, and the times of the job, which the
runner takes itself, fit into an `i32`. -/
def DatabaseOk (_ : Runner) : Action → Prop
  | .call _ ans => ans.ok = true
  | _ => True

/-- What the builder reports can be written: the overhead fits into an `i32`,
and the sizes into an `i64` when there are builds to mark. -/
def CallTask.reportFits : CallTask → Prop
  | .succeed _ report (.removeJob _ _) => report.getOverhead < 2 ^ 31
  | .succeed _ report (.markSucceeded _ direct) => direct = [] ∨ report.fits = true
  | _ => True

/-- A build joins a finished step only while `succeed_step` has not read the
direct builds of the step; `create_step` takes a step as finished only when
no other build has joined it; and what is reported of a success fits. -/
def JoinsInTime (r : Runner) : Action → Prop
  | .create (.resumeBuild k) ans => ans.ok = true →
    ∀ s ∈ r.createState.joins k, (r.shared.graph.step s).finished = true →
      ∃ task ∈ r.calls.values, task.readsBuildsOf s
  | .create (.resumeStep k) ans => ∀ s ∈ r.createState.decides k ans,
    ∀ b ∈ r.shared.graph.getDirectBuilds s,
      ∃ call ∈ r.creation.steps.lookup k, call.referringBuild = some b
  | .call t _ => ∀ task ∈ r.calls.lookup t, task.reportFits
  | _ => True

instance (t : CallTask) (s : StepRef) : Decidable (t.readsBuildsOf s) :=
  match t with
  | .succeed _ _ pc =>
    match pc with
    | .removeJob item _ | .finishBuildStep item _ =>
      inferInstanceAs (Decidable (item.stepInfo.step = s))
    | .start | .markSucceeded _ _ | .notify _ => inferInstanceAs (Decidable False)
  | .fail _ _ _ | .killStart | .kill _ _ | .killAbort _ _ _ _ | .tunnelClose _ =>
    inferInstanceAs (Decidable False)

instance (t : CallTask) : Decidable t.reportFits :=
  match t with
  | .succeed _ report pc =>
    match pc with
    | .removeJob _ _ => inferInstanceAs (Decidable (report.getOverhead < 2 ^ 31))
    | .markSucceeded _ direct =>
      inferInstanceAs (Decidable (direct = [] ∨ report.fits = true))
    | .start | .finishBuildStep _ _ | .notify _ => inferInstanceAs (Decidable True)
  | .fail _ _ _ | .killStart | .kill _ _ | .killAbort _ _ _ _ | .tunnelClose _ =>
    inferInstanceAs (Decidable True)

instance (r : Runner) (a : Action) : Decidable (DatabaseOk r a) :=
  match a with
  | .call _ ans => inferInstanceAs (Decidable (ans.ok = true))
  | .dispatch _ | .completeBuild _ _ _ _ | .endStream _ | .queueChange _
  | .insertMachine _ _ _ | .create _ _ | .dropStep _ | .dropBuild _ =>
    inferInstanceAs (Decidable True)

instance (r : Runner) (a : Action) : Decidable (JoinsInTime r a) :=
  match a with
  | .create (.resumeBuild k) ans => inferInstanceAs (Decidable (ans.ok = true →
      ∀ s ∈ r.createState.joins k, (r.shared.graph.step s).finished = true →
        ∃ task ∈ r.calls.values, task.readsBuildsOf s))
  | .create (.resumeStep k) ans =>
    inferInstanceAs (Decidable (∀ s ∈ r.createState.decides k ans,
      ∀ b ∈ r.shared.graph.getDirectBuilds s,
        ∃ call ∈ r.creation.steps.lookup k, call.referringBuild = some b))
  | .call t _ => inferInstanceAs (Decidable (∀ task ∈ r.calls.lookup t, task.reportFits))
  | .create (.startPass _) _ | .create (.resumePass _) _ | .create (.startNested _) _
  | .create (.startInput _) _ | .dispatch _ | .completeBuild _ _ _ _ | .endStream _
  | .queueChange _ | .insertMachine _ _ _ | .dropStep _ | .dropBuild _ =>
    inferInstanceAs (Decidable True)

/-! ## The builds that wait for a step -/

namespace CreateState

/-- The build waits for the step. -/
inductive Waits (c : CreateState) (b : BuildRef) (s : StepRef) : Prop where
  | registered (hb : b ∈ c.graph.builds.values)
      (htop : (c.graph.build b).toplevel = some s)
  | nested {k : CallId} {call : BuildCall} {todo : List BuildID} {calls : List CallId}
      (hcall : c.creation.builds.lookup k = some call) (hbuild : call.build = b)
      (hpc : call.pc = .nested (some s) todo calls)
  | step {k : CallId} {call : StepCall} (hcall : c.creation.steps.lookup k = some call)
      (hbuild : call.referringBuild = some b) (hstep : call.pc.step? = some s)

namespace Waits

variable {cfg : Config} {c c' : CreateState} {b : BuildRef} {s : StepRef}

/-- A build that waits is not freed. -/
theorem alive (h : c.Waits b s) (hlife : BuildLife c) :
    b.gen < c.graph.fresh ∧ (c.graph.build b).alive = true := by
  cases h with
  | registered hb htop =>
    obtain ⟨id, hid⟩ := Map.mem_values_iff.mp hb
    exact hlife.registered id b hid
  | nested hcall hbuild hpc =>
    obtain ⟨hlt, halive, -⟩ := hlife.call _ _ hcall
    exact hbuild ▸ ⟨hlt, halive⟩
  | step hcall hbuild hstep =>
    obtain ⟨k', bc, hbc, hbb, -⟩ := hlife.referring _ _ b hcall hbuild
    obtain ⟨hlt, halive, -⟩ := hlife.call k' bc hbc
    exact hbb ▸ ⟨hlt, halive⟩

/-- It is one of the builds of the step. -/
theorem mem_builds (h : c.Waits b s) (hok : CreateOk cfg c) : b ∈ (c.graph.step s).builds := by
  cases h with
  | registered hb htop => exact hok.graph.toplevel b s htop
  | nested hcall hbuild hpc => exact hbuild ▸ ((hok.builds _ _ hcall).nested s _ _ hpc).1
  | step hcall hbuild hstep => exact (hok.steps _ _ hcall).2.attached s b hstep hbuild

/-- `get_direct_builds` finds it. -/
theorem mem_direct (h : c.Waits b s) (hok : CreateOk cfg c) (hlife : BuildLife c)
    (hb : (c.graph.build b).finishedInDb = false) : b ∈ c.graph.getDirectBuilds s := by
  rw [Graph.getDirectBuilds, List.mem_filter]
  exact ⟨h.mem_builds hok, by simp [(h.alive hlife).2, hb]⟩

/-- The builds that wait are found again before the step. -/
theorem of_frame (h : c'.Waits b s) (hlife : BuildLife c)
    (hgraph : c.graph.KeepsLife c'.graph)
    (hbuilds : ∀ k call s todo calls, c'.creation.builds.lookup k = some call →
      call.pc = .nested (some s) todo calls → c.Waits call.build s)
    (hsteps : ∀ k call b s, c'.creation.steps.lookup k = some call →
      call.referringBuild = some b → call.pc.step? = some s → c.Waits b s) :
    c.Waits b s := by
  cases h with
  | registered hb htop =>
    obtain ⟨id, hid⟩ := Map.mem_values_iff.mp hb
    have hid' := hgraph.builds id b hid
    obtain ⟨hlt, -⟩ := hlife.registered id b hid'
    exact .registered (Map.mem_values_iff.mpr ⟨id, hid'⟩) ((hgraph.build b hlt).1 ▸ htop)
  | nested hcall hbuild hpc => exact hbuild ▸ hbuilds _ _ s _ _ hcall hpc
  | step hcall hbuild hstep => exact hsteps _ _ b s hcall hbuild hstep

/-- A change of the graph. -/
theorem of_graph {g : Graph} {present : List StorePath}
    (h : Waits ⟨g, present, c.creation⟩ b s) (hlife : BuildLife c)
    (hgraph : c.graph.KeepsLife g) : c.Waits b s :=
  h.of_frame hlife hgraph (fun _ _ _ _ _ hcall hpc => .nested hcall rfl hpc)
    (fun _ _ _ _ hcall hbuild hstep => .step hcall hbuild hstep)

/-- A call of `create_step` moves on with its step, or lets go of it. -/
theorem of_setStepCall {k : CallId} {call call' : StepCall}
    (h : (c.setStepCall k call').Waits b s) (hcall : c.creation.steps.lookup k = some call)
    (hbuild : call'.referringBuild = call.referringBuild)
    (hstep : ∀ s, call'.pc.step? = some s → call.pc.step? = some s) : c.Waits b s := by
  cases h with
  | registered hb htop => exact .registered hb htop
  | nested hk hb hpc => exact .nested hk hb hpc
  | step hk hb hs =>
    rw [setStepCall_steps, Map.lookup_insert_eq] at hk
    split_ifs at hk
    · cases hk
      exact .step hcall (hbuild ▸ hb) (hstep s hs)
    · exact .step hk hb hs

/-- A call of `create_build` moves on. -/
theorem of_setBuildCall {k : CallId} {call : BuildCall}
    (h : (c.setBuildCall k call).Waits b s)
    (hcall : ∀ s todo calls, call.pc = .nested (some s) todo calls →
      c.Waits call.build s) : c.Waits b s := by
  cases h with
  | registered hb htop => exact .registered hb htop
  | nested hk hb hpc =>
    rw [setBuildCall_builds, Map.lookup_insert_eq] at hk
    split_ifs at hk
    · cases hk
      exact hb ▸ hcall s _ _ hpc
    · exact .nested hk hb hpc
  | step hk hb hs => exact .step hk hb hs

/-- A pass moves on. -/
theorem of_setPass {k : CallId} {p : Pass} (h : (c.setPass k p).Waits b s) :
    c.Waits b s := by
  cases h with
  | registered hb htop => exact .registered hb htop
  | nested hk hb hpc => exact .nested hk hb hpc
  | step hk hb hs => exact .step hk hb hs

/-- Calls go away. -/
theorem of_subset (h : c'.Waits b s) (hgraph : c'.graph = c.graph)
    (hbuilds : ∀ k call, c'.creation.builds.lookup k = some call →
      ∃ call₀, c.creation.builds.lookup k = some call₀ ∧ call.build = call₀.build ∧
        call.pc = call₀.pc)
    (hsteps : ∀ k call, c'.creation.steps.lookup k = some call →
      c.creation.steps.lookup k = some call) : c.Waits b s := by
  cases h with
  | registered hb htop => exact .registered (hgraph ▸ hb) (hgraph ▸ htop)
  | nested hk hb hpc =>
    obtain ⟨call₀, hk₀, hbuild, hpc₀⟩ := hbuilds _ _ hk
    exact .nested hk₀ (hbuild ▸ hb) (hpc₀ ▸ hpc)
  | step hk hb hs => exact .step (hsteps _ _ hk) hb hs

end Waits

end CreateState

/-! ## What the creation does to them -/

theorem CreateState.Started.finished_of_finished {c c' : CreateState} {pass build : CallId}
    {callers : List CallId} {drvPath : StorePath} {rb : Option BuildRef}
    {rs : Option StepRef} {pc : StepPc}
    (h : Started c pass build callers drvPath rb rs c' pc) {s : StepRef}
    (hs : (c'.graph.step s).finished = true) : (c.graph.step s).finished = true := by
  rcases h.result with ⟨-, hg, -⟩ | ⟨t, isNew, hcreated, -⟩
  · exact hg ▸ hs
  · rw [hcreated.step] at hs
    split_ifs at hs with hst hnew
    · cases rb <;> cases rs <;> cases hs
    · rw [hst]
      cases rb <;> cases rs <;> exact hs
    · exact hs

theorem CreateState.decides_of_pc {c : CreateState} {ans : Answer} {k : CallId}
    {call : StepCall} {step : StepRef} {drv : Derivation} {missing : List DerivationOutput}
    {finished : Bool} (hcall : c.creation.steps.lookup k = some call)
    (hfinished : finished = true)
    (hpc : (call.pc = .checkCached step drv missing ∧ ans.cached = false ∧
        finished = decide (missing = [])) ∨
      call.pc = .substitute step drv missing ∧ finished = missing.all ans.substituted) :
    c.decides k ans = some step := by
  obtain ⟨pass, build, callers, drvPath, rb, rs, pc⟩ := call
  rcases hpc with ⟨hpc, hcached, hmissing⟩ | ⟨hpc, hall⟩ <;> simp only at hpc <;> subst hpc
  · have hnil : missing = [] := by simpa [hfinished] using hmissing
    simp [decides, hcall, hcached, hnil]
  · rw [hfinished] at hall
    simp only [decides, hcall, ← hall, if_true]

/-- A call of `create_step` takes its step as finished and returns. -/
structure CreateState.Decided (c : CreateState) (k : CallId) (ans : Answer) (s : StepRef)
    (c' : CreateState) : Prop where
  decides : c.decides k ans = some s
  builds : c'.creation.builds = c.creation.builds
  build : c'.graph.build = c.graph.build
  returned : ∀ call, c'.creation.steps.lookup k = some call → call.pc.step? = none

theorem CreateState.decided_decideStep {c : CreateState} {ans : Answer} {k : CallId}
    {step : StepRef} (hdecides : c.decides k ans = some step) (call : StepCall)
    (drv : Derivation) : c.Decided k ans step (c.decideStep k call step drv true) := by
  obtain ⟨-, -, -, hbuilds, -⟩ := c.insertFinishedDrv_frame call.pass call.drvPath
  refine ⟨hdecides, ?_, ?_, fun call' hk => ?_⟩
  · simp only [decideStep, if_true, returnStep, setStepCall_builds, hbuilds]
  · rw [decideStep_graph, if_pos rfl]
    rfl
  · simp only [decideStep, if_true, returnStep, setStepCall_steps, Map.lookup_insert_eq,
      Option.some.injEq] at hk
    rw [← hk]
    rfl

/-- Only the decision of `create_step` finishes a step. -/
theorem CreateStep.finished_of_finished {cfg : Config} {c c' : CreateState} {ans : Answer}
    {a : CreateAction} (h : CreateStep cfg c ans a c') {s : StepRef}
    (hs : (c'.graph.step s).finished = true) : (c.graph.step s).finished = true ∨
      ∃ k, a = .resumeStep k ∧ c.Decided k ans s c' := by
  cases h with
  | startPass rows =>
    rw [(c.startPass_grows rows).2.1] at hs
    exact Or.inl hs
  | @makeRunnable k k' pass call now todo hpass hwaiting hcall hpc =>
    have hbase : c.graph.SameBase
        (pass.newRunnable.foldl (fun g s => g.makeRunnable now s) c.graph) :=
      Graph.Keeps.foldl Step.SameBase.refl (fun _ _ _ => Step.SameBase.trans)
        (fun g s => Graph.sameBase_makeRunnable g s now) _ _
    exact Or.inl ((hbase s).finished ▸ hs)
  | @sweep k pass now order hpass hwaiting htodo horder =>
    exact Or.inl ((Graph.sameBase_sweepSteps c.graph now order s).finished ▸ hs)
  | @startToplevel k call hcall hpc =>
    obtain ⟨pc, hstart⟩ := c.started_startStep call.pass k [] call.build.drvPath
      (some call.build) none
    exact Or.inl (hstart.finished_of_finished hs)
  | @startInput k call step drvPath todo calls hcall hpc hlength =>
    obtain ⟨pc, hstart⟩ := c.started_startStep call.pass call.build
      (k :: call.callers) drvPath none (some step)
    exact Or.inl (hstart.finished_of_finished hs)
  | @attach k call step hcall hpc =>
    simp only [CreateState.finishBuild, CreateState.setBuildCall_graph] at hs
    split_ifs at hs <;> exact Or.inl hs
  | @setDrv k call step drv hcall hpc =>
    refine Or.inl ?_
    simp only [CreateState.setStepCall_graph, Graph.setDrv, Graph.modifyStep_step] at hs
    split_ifs at hs with he
    · exact he ▸ hs
    · exact hs
  | @cachedFailure k call step drv missing hcall hpc hcached =>
    refine Or.inl ?_
    simp only [CreateState.returnStep, CreateState.setStepCall_graph,
      Graph.setPreviousFailure, Graph.modifyStep_step] at hs
    split_ifs at hs with he
    · exact he ▸ hs
    · exact hs
  | @decide k call step drv missing finished hcall hpc =>
    rw [CreateState.decideStep_graph] at hs
    split_ifs at hs with hfin
    · simp only [Graph.setFinished, Graph.modifyStep_step] at hs
      split_ifs at hs with he
      · subst he
        refine Or.inr ⟨k, rfl, ?_⟩
        rw [hfin]
        exact CreateState.decided_decideStep (CreateState.decides_of_pc hcall hfin hpc) call drv
      · exact Or.inl hs
    · exact Or.inl hs
  | @takeInput k k' call child step drvPath todo calls r hcall hpc hchild hresult =>
    refine Or.inl ?_
    rcases (c.takeStepCall k').takeInput_graph k call step todo calls r with hg | ⟨dep, hg⟩
    · rw [hg] at hs
      exact hs
    · rw [hg, Graph.addDep, Graph.modifyStep_step] at hs
      split_ifs at hs with he
      · exact he ▸ hs
      · exact hs
  | @finish k call step hcall hpc =>
    refine Or.inl ?_
    rw [CreateState.finishStep_graph, Graph.setCreated, Graph.modifyStep_step] at hs
    split_ifs at hs with he
    · exact he ▸ hs
    · exact hs
  | _ => exact Or.inl hs

/-- No step of the creation takes back that a build is finished. -/
theorem CreateGraph.unfinished_of_unfinished {c : CreateState} {a : CreateAction} {g : Graph}
    (h : CreateGraph c a g) {b : BuildRef} (hlt : b.gen < c.graph.fresh)
    (hb : (g.build b).finishedInDb = false) : (c.graph.build b).finishedInDb = false := by
  cases h with
  | startPass rows =>
    have hload : BuildLife.Loaded c.graph (rows.foldl CreateState.loadBuild
        (c.graph, ⟨∅, ∅, [], [], [], none⟩)) :=
      .foldl rows ⟨le_refl _, fun _ _ => rfl, rfl, by simp⟩
    exact hload.build b hlt ▸ hb
  | makeRunnable now steps =>
    have hmaps : c.graph.SameMaps (steps.foldl (fun g s => g.makeRunnable now s) c.graph) :=
      .foldl (fun g s => .makeRunnable g now s) _ _
    exact hmaps.build ▸ hb
  | sweep now order => exact (Graph.SameMaps.sweepSteps c.graph now order).build ▸ hb
  | @finishInDb k call hcall =>
    simp only [Graph.setFinishedInDb, Graph.modifyBuild] at hb
    by_cases he : b = call.build
    · subst he
      simp at hb
    · simpa [he] using hb
  | @attach k call step hcall hpc =>
    simp only [CreateState.finishBuild, CreateState.setBuildCall_graph,
      Graph.setToplevelStep, Graph.insertNewBuild, Graph.modifyBuild] at hb
    by_cases he : b = call.build
    · subst he
      split_ifs at hb <;> simpa using hb
    · split_ifs at hb <;> simpa [he] using hb
  | created h => exact h.build ▸ hb
  | _ => exact hb

namespace CreateState.Waits

variable {cfg : Config} {c c' : CreateState} {b : BuildRef} {s : StepRef}

theorem of_takeBuildCall {k : CallId} (h : (c.takeBuildCall k).Waits b s) : c.Waits b s := by
  refine h.of_subset rfl (fun k' call hk' => ?_) (fun _ _ => id)
  rw [takeBuildCall_builds, Map.lookup_erase_eq] at hk'
  split_ifs at hk'
  exact ⟨call, hk', rfl, rfl⟩

theorem of_takeStepCall {k : CallId} (h : (c.takeStepCall k).Waits b s) : c.Waits b s := by
  refine h.of_subset rfl (fun _ call hk => ⟨call, hk, rfl, rfl⟩) (fun k' call hk' => ?_)
  rw [takeStepCall_steps, Map.lookup_erase_eq] at hk'
  split_ifs at hk'
  exact hk'

theorem of_insertFinishedDrv {k : CallId} {drvPath : StorePath}
    (h : (c.insertFinishedDrv k drvPath).Waits b s) : c.Waits b s := by
  obtain ⟨hg, -, hsteps, hbuilds, -⟩ := c.insertFinishedDrv_frame k drvPath
  exact h.of_subset hg (fun _ call hk => ⟨call, hbuilds ▸ hk, rfl, rfl⟩)
    (fun _ _ hk => hsteps ▸ hk)

theorem of_insertNewRunnable {k : CallId} {t : StepRef}
    (h : (c.insertNewRunnable k t).Waits b s) : c.Waits b s := by
  obtain ⟨hg, -, hsteps, hbuilds, -⟩ := c.insertNewRunnable_frame k t
  exact h.of_subset hg (fun _ call hk => ⟨call, hbuilds ▸ hk, rfl, rfl⟩)
    (fun _ _ hk => hsteps ▸ hk)

theorem of_insertNewStep {k : CallId} {t : StepRef}
    (h : (c.insertNewStep k t).Waits b s) : c.Waits b s := by
  obtain ⟨hg, -, hsteps, -, -⟩ := c.insertNewStep_frame k t
  refine h.of_subset hg (fun k' call hk => ?_) (fun _ _ hk => hsteps ▸ hk)
  obtain ⟨call₀, hk₀, -, hbuild, hpc⟩ := c.insertNewStep_builds k t hk
  exact ⟨call₀, hk₀, hbuild, hpc⟩

/-- A step that is decided is let go. -/
theorem of_decideStep {k : CallId} {call : StepCall} {step : StepRef} {drv : Derivation}
    {finished : Bool} (h : (c.decideStep k call step drv finished).Waits b s)
    (hlife : BuildLife c) (hcall : c.creation.steps.lookup k = some call)
    (hstep : call.pc.step? = some step) : c.Waits b s := by
  unfold decideStep at h
  cases finished with
  | false => exact h.of_setStepCall hcall rfl (fun t ht => hstep.trans ht)
  | true =>
    rw [if_pos rfl] at h
    have hcall' : (c.insertFinishedDrv call.pass call.drvPath).creation.steps.lookup k =
        some call := by
      rw [(c.insertFinishedDrv_frame call.pass call.drvPath).2.2.1, hcall]
    have hwait := h.of_setStepCall hcall' rfl (by simp [StepPc.step?])
    exact of_insertFinishedDrv (hwait.of_graph
      (hlife.insertFinishedDrv call.pass call.drvPath) (.of_eq rfl rfl (le_refl _)))

theorem of_takeInput {k : CallId} {call : StepCall} {step : StepRef} {todo : List StorePath}
    {calls : List (StorePath × CallId)} {r : CreateStepResult}
    (h : (c.takeInput k call step todo calls r).Waits b s) (hlife : BuildLife c)
    (hcall : c.creation.steps.lookup k = some call) (hstep : call.pc.step? = some step) :
    c.Waits b s := by
  unfold takeInput at h
  cases r with
  | none => exact h.of_setStepCall hcall rfl (fun t ht => hstep.trans ht)
  | valid dep =>
    simp only at h
    split_ifs at h
    · have hwait := h.of_setStepCall hcall rfl (fun t ht => hstep.trans ht)
      exact hwait.of_graph hlife (.of_eq rfl rfl (le_refl _))
    · exact h.of_setStepCall hcall rfl (fun t ht => hstep.trans ht)
  | previousFailure failed =>
    refine h.of_frame hlife (.refl _) (fun _ _ _ _ _ hk hpc => .nested hk rfl hpc)
      (fun k' call' b' s' hk' hb' hs' => ?_)
    simp only [returnStep, setStepCall_steps, Map.lookup_insert_eq, dropCallees,
      Map.lookup_retain] at hk'
    split_ifs at hk'
    · cases hk'
      cases hs'
    · exact .step (Option.filter_eq_some_iff.mp hk').1 hb' hs'

theorem of_finishStep {k : CallId} {call : StepCall} {step : StepRef}
    (h : (c.finishStep k call step).Waits b s) (hlife : BuildLife c)
    (hcall : c.creation.steps.lookup k = some call) (hstep : call.pc.step? = some step) :
    c.Waits b s := by
  unfold finishStep at h
  simp only at h
  have hcreated : Waits ⟨c.graph.setCreated step, c.present, c.creation⟩ b s := by
    split_ifs at h
    · refine of_insertNewRunnable (of_insertNewStep (h.of_setStepCall (?_ : _ = some call) rfl
        (fun t ht => hstep.trans ht)))
      rw [(insertNewStep_frame ..).2.2.1, (insertNewRunnable_frame ..).2.2.1, hcall]
    · refine of_insertNewStep (h.of_setStepCall (?_ : _ = some call) rfl
        (fun t ht => hstep.trans ht))
      rw [(insertNewStep_frame ..).2.2.1, hcall]
  exact hcreated.of_graph hlife (.of_eq rfl rfl (le_refl _))

/-- The build that is attached has waited for its step. -/
theorem of_attach {k : CallId} {call : BuildCall} {step : StepRef}
    (h : (c.finishBuild k call (some step)).Waits b s)
    (hcall : c.creation.builds.lookup k = some call)
    (hpc : call.pc = .nested (some step) [] []) : c.Waits b s := by
  unfold finishBuild at h
  have hwait := h.of_setBuildCall (by simp)
  cases hwait with
  | nested hk hb hpc' => exact .nested hk hb hpc'
  | step hk hb hs => exact .step hk hb hs
  | registered hb htop =>
    by_cases he : b = call.build
    · subst he
      have hs : step = s := by
        simpa [Graph.setToplevelStep, Graph.modifyBuild] using htop
      exact .nested hcall rfl (hs ▸ hpc)
    · refine .registered ?_ ?_
      · simp only [Graph.setToplevelStep, Graph.modifyBuild] at hb
        split_ifs at hb
        · exact hb
        · obtain ⟨id, hid⟩ := Map.mem_values_iff.mp hb
          rw [Graph.insertNewBuild, Map.lookup_insert_eq] at hid
          split_ifs at hid
          · cases hid
            exact absurd rfl he
          · exact Map.mem_values_iff.mpr ⟨id, hid⟩
      · simp only [Graph.setToplevelStep, Graph.modifyBuild, Function.update_of_ne he] at htop
        split_ifs at htop <;> exact htop

end CreateState.Waits

/-- A step that `create_build` has just got is new, or the one that it was
going to find. -/
theorem CreateState.Started.joins {c c' : CreateState} {k : CallId} {call : BuildCall}
    {rb : Option BuildRef} {rs : Option StepRef} {pc : StepPc} {callers : List CallId}
    (h : Started c call.pass k callers call.build.drvPath rb rs c' pc)
    (hcall : c.creation.builds.lookup k = some call) (hpc : call.pc = .validPath)
    {s : StepRef} (hs : pc.step? = some s) :
    (c'.graph.step s).finished = false ∨ c.joins k = some s := by
  rcases h.result with ⟨hpc', -, -⟩ | ⟨t, isNew, hcreated, hpc'⟩
  · rw [hpc'] at hs
    cases hs
  · cases hnew : isNew with
    | true =>
      rw [hpc', hnew] at hs
      cases hs
      refine Or.inl ?_
      rw [hcreated.step, if_pos rfl, hnew]
      rfl
    | false =>
      have hundecided := h.undecided (by rw [hpc', hnew]; simp)
      rw [hpc', hnew] at hs
      cases hs
      refine Or.inr ?_
      obtain ⟨pass, build, newSteps, bpc⟩ := call
      simp only at hpc hundecided
      subst hpc
      simp only [CreateState.joins, hcall]
      cases hpass : c.creation.passes.lookup pass with
      | none => exact hcreated.found hnew
      | some p =>
        simp only [if_neg (hundecided p hpass)]
        exact hcreated.found hnew

/-- A build comes to wait for a step when `create_build` finds or creates
the step, and in no other way. -/
theorem CreateStep.waits {cfg : Config} {c c' : CreateState} {ans : Answer}
    {a : CreateAction} (h : CreateStep cfg c ans a c') (hok : CreateOk cfg c)
    (hlife : BuildLife c) {b : BuildRef} {s : StepRef} (hw : c'.Waits b s) :
    c.Waits b s ∨ ∃ k, a = .resumeBuild k ∧ ans.ok = true ∧
      ((c'.graph.step s).finished = false ∨ c.joins k = some s) := by
  cases h with
  | startPass rows =>
    have hload : BuildLife.Loaded c.graph (rows.foldl CreateState.loadBuild
        (c.graph, ⟨∅, ∅, [], [], [], none⟩)) :=
      .foldl rows ⟨le_refl _, fun _ _ => rfl, rfl, by simp⟩
    refine Or.inl (hw.of_frame hlife ⟨hload.fresh, fun b hb => ?_, fun id b hb => ?_⟩
      (fun _ _ _ _ _ hk hpc => .nested hk rfl hpc) (fun _ _ _ _ hk hb hs => .step hk hb hs))
    · simp only [CreateState.startPass, CreateState.setPass_graph, hload.build b hb, and_self]
    · simp only [CreateState.startPass, CreateState.setPass_graph, hload.builds] at hb
      exact hb
  | skipBuild hpass htodo hwaiting hid => exact Or.inl hw.of_setPass
  | @nextBuild k pass id todo b' hpass htodo hwaiting hid =>
    refine Or.inl (hw.of_frame hlife (.refl _) (fun k' call t todo' calls hk hpc => ?_)
      (fun _ _ _ _ hk hb hs => .step hk hb hs))
    simp only [Map.lookup_insert_eq] at hk
    split_ifs at hk
    · cases hk
      cases hpc
    · exact .nested hk rfl hpc
  | @makeRunnable k k' pass call now todo hpass hwaiting hcall hpc =>
    have hmaps : c.graph.SameMaps
        (pass.newRunnable.foldl (fun g s => g.makeRunnable now s) c.graph) :=
      .foldl (fun g s => .makeRunnable g now s) _ _
    have hwait := CreateState.Waits.of_graph (c := c.takeBuildCall k') hw.of_setPass
      (hlife.takeBuildCall hcall hpc) (.of_sameMaps hmaps)
    exact Or.inl hwait.of_takeBuildCall
  | @sweep k pass now order hpass hwaiting htodo horder =>
    exact Or.inl (hw.of_frame hlife (.of_sameMaps (.sweepSteps _ now order))
      (fun _ _ _ _ _ hk hpc => .nested hk rfl hpc) (fun _ _ _ _ hk hb hs => .step hk hb hs))
  | @startNested k call step id todo calls pass b' hcall hpc hlength hpass hid =>
    refine Or.inl (hw.of_frame hlife (.refl _) (fun k' call' t todo' calls' hk hpc' => ?_)
      (fun _ _ _ _ hk hb hs => .step hk hb hs))
    simp only [Map.lookup_insert_eq] at hk
    split_ifs at hk
    · cases hk
      cases hpc'
      exact .nested hcall rfl hpc
    · cases hk
      cases hpc'
    · exact .nested hk rfl hpc'
  | moveBuild ha hcall hmove =>
    refine Or.inl (hw.of_setBuildCall (fun t todo' calls' hpc' => ?_))
    rcases hmove with ⟨step, id, todo, calls, hpc, he⟩ | ⟨-, he⟩ | ⟨-, he⟩ | ⟨-, he⟩ <;>
      rw [he] at hpc' <;> cases hpc'
    exact .nested hcall rfl hpc
  | @finishInDb k call hcall hpc =>
    have hwait := hw.of_setBuildCall (by simp)
    exact Or.inl (hwait.of_graph hlife (.setFinishedInDb _ _))
  | @startToplevel k call hcall hpc hans =>
    obtain ⟨pc, hstart⟩ := c.started_startStep call.pass k [] call.build.drvPath
      (some call.build) none
    have hwait := hw.of_setBuildCall (by simp)
    have hlife' : c.graph.KeepsLife _ := .of_started hstart
    cases hwait with
    | registered hb htop =>
      obtain ⟨id, hid⟩ := Map.mem_values_iff.mp hb
      have hid' := hlife'.builds id b hid
      have hlt := (hlife.registered id b hid').1
      exact Or.inl (.registered (Map.mem_values_iff.mpr ⟨id, hid'⟩)
        ((hlife'.build b hlt).1 ▸ htop))
    | nested hk hb hpc' => exact Or.inl (.nested (hstart.builds ▸ hk) hb hpc')
    | step hk hb hs =>
      rw [hstart.steps, Map.lookup_insert_eq] at hk
      split_ifs at hk
      · cases hk
        exact Or.inr ⟨k, rfl, hans, hstart.joins hcall hpc hs⟩
      · exact Or.inl (.step hk hb hs)
  | @takeToplevel k k' call child pc r hcall hpc hchild hresult hmove =>
    refine Or.inl (hw.of_frame hlife (.refl _) (fun k₁ call₁ t todo calls hk hpc₁ => ?_)
      (fun k₁ call₁ b₁ s₁ hk hb hs => ?_))
    · simp only [CreateState.setBuildCall_builds, CreateState.takeStepCall_builds,
        Map.lookup_insert_eq] at hk
      split_ifs at hk
      · cases hk
        rcases hmove with ⟨x, -, he | he⟩ | ⟨ids, -, he⟩ | ⟨x, ids, hr, he⟩ <;>
          rw [he] at hpc₁ <;> cases hpc₁
        have hbuild := (((hok.builds k call hcall).toplevel k' hpc).2 child hchild).1
        exact .step hchild hbuild (by rw [hresult, hr]; rfl)
      · exact .nested hk rfl hpc₁
    · simp only [CreateState.setBuildCall_steps, CreateState.takeStepCall_steps,
        Map.lookup_erase_eq] at hk
      split_ifs at hk
      exact .step hk hb hs
  | @takeNested k k' call child step todo calls hcall hpc hchild hresult =>
    refine Or.inl (hw.of_frame hlife (.refl _) (fun k₁ call₁ t todo' calls' hk hpc₁ => ?_)
      (fun _ _ _ _ hk hb hs => .step hk hb hs))
    simp only [CreateState.setBuildCall_builds, CreateState.takeBuildCall_builds,
      Map.lookup_insert_eq, Map.lookup_erase_eq] at hk
    split_ifs at hk
    · cases hk
      cases hpc₁
      exact .nested hcall rfl hpc
    · exact .nested hk rfl hpc₁
  | attach hcall hpc => exact Or.inl (hw.of_attach hcall hpc)
  | @startInput k call step drvPath todo calls hcall hpc hlength =>
    obtain ⟨pc, hstart⟩ := c.started_startStep call.pass call.build
      (k :: call.callers) drvPath none (some step)
    have hlife' : c.graph.KeepsLife _ := .of_started hstart
    refine Or.inl (hw.of_frame hlife hlife'
      (fun _ _ _ _ _ hk hpc' => .nested (hstart.builds ▸ hk) rfl hpc')
      (fun k₁ call₁ b₁ s₁ hk hb hs => ?_))
    simp only [CreateState.setStepCall_steps, hstart.steps, Map.lookup_insert_eq] at hk
    split_ifs at hk
    · cases hk
      exact .step hcall hb (hpc ▸ hs)
    · cases hk
      cases hb
    · exact .step hk hb hs
  | readDrv hcall hpc hans =>
    exact Or.inl (hw.of_setStepCall hcall rfl (fun t ht => hpc ▸ ht))
  | unreadable hcall hpc hans =>
    exact Or.inl (hw.of_setStepCall hcall rfl (by simp [StepPc.step?]))
  | @setDrv k call step drv hcall hpc =>
    have hwait := hw.of_setStepCall hcall rfl (fun t ht => hpc ▸ ht)
    exact Or.inl (hwait.of_graph hlife (.of_eq rfl rfl (le_refl _)))
  | @cachedFailure k call step drv missing hcall hpc hcached =>
    have hwait := hw.of_setStepCall hcall rfl (by simp [StepPc.step?])
    exact Or.inl (hwait.of_graph hlife (.of_eq rfl rfl (le_refl _)))
  | substitute hcall hpc =>
    exact Or.inl (hw.of_setStepCall hcall rfl (fun t ht => hpc ▸ ht))
  | @decide k call step drv missing finished hcall hpc =>
    refine Or.inl (hw.of_decideStep hlife hcall ?_)
    rcases hpc with ⟨hpc, -⟩ | ⟨hpc, -⟩ <;> rw [hpc] <;> rfl
  | @takeInput k k' call child step drvPath todo calls r hcall hpc hchild hresult =>
    have hthere := CreateState.lookup_takeStepCall hcall hpc hchild hresult
    have hwaits := hw.of_takeInput (hlife.takeStepCall k') hthere (by rw [hpc]; rfl)
    exact Or.inl hwaits.of_takeStepCall
  | finish hcall hpc => exact Or.inl (hw.of_finishStep hlife hcall (by rw [hpc]; rfl))

/-! ## The calls -/

/-- The builds of the list are finished. -/
theorem Graph.finishedInDb_finishBuilds {b : BuildRef} {bs : List BuildRef} (hb : b ∈ bs) :
    ∀ g : Graph, ((g.finishBuilds bs).build b).finishedInDb = true := by
  induction bs with
  | nil => cases hb
  | cons b' bs ih =>
    intro g
    rcases List.mem_cons.mp hb with rfl | hb
    · refine (Graph.Fades.finishBuilds _ bs).finished b ?_
      simp [removeById, setFinishedInDb, modifyBuild]
    · exact ih hb _

/-- Nothing fails when there is no build to mark, or all numbers fit. -/
theorem Graph.marksAll_of_fits {g : Graph} {report : BuildReport} {ans : Answer}
    {direct : List BuildRef} (h : direct = [] ∨ report.fits = true) :
    g.marksAll report ans direct = true := by
  rcases h with rfl | h
  · rfl
  · simp [marksAll, h]

/-- The call has marked the build, or it goes on and will. -/
theorem CallTask.Marks.resume {cfg : Config} {s : Shared} {held : InfoRef → Bool}
    {t : CallTask} {ans : Answer} {res : Shared × Option CallTask}
    (hres : t.resume cfg s held ans = some res) {b : BuildRef} {st : StepRef}
    (h : t.Marks b st) (hans : ans.ok = true)
    (hfits : t.reportFits)
    (hdirect : (s.graph.build b).finishedInDb = false → b ∈ s.graph.getDirectBuilds st)
    (hb : (res.1.graph.build b).finishedInDb = false) :
    ∃ t', res.2 = some t' ∧ t'.Marks b st := by
  rcases h with h | ⟨a, report, item, direct, rfl, hstep, hmem⟩
  · unfold CallTask.readsBuildsOf at h
    split at h
    · rename_i a report item job
      have hlt : report.getOverhead < 2 ^ 31 := hfits
      simp only [CallTask.resume, succeedResume, RemoteBuild.setOverhead, hlt, if_true,
        Option.some.injEq] at hres
      subst hres
      exact ⟨_, rfl, Or.inl h⟩
    · rename_i a report item job
      simp only [CallTask.resume, succeedResume, hans, if_true, Option.some.injEq] at hres
      subst hres
      refine ⟨_, rfl, Or.inr ⟨a, report, item, _, rfl, h, ?_⟩⟩
      rw [h]
      refine hdirect ?_
      simp only at hb
      split_ifs at hb <;> exact hb
    · cases h
  · simp only [CallTask.resume, succeedResume, hans, Graph.marksAll_of_fits hfits,
      Bool.and_self, if_true, Option.some.injEq] at hres
    subst hres
    rw [Graph.finishedInDb_finishBuilds hmem] at hb
    cases hb

/-- A call that finishes a step reads the builds of the step next. -/
theorem CallTask.reads_of_finished {cfg : Config} {s : Shared} {held : InfoRef → Bool}
    {t : CallTask} {ans : Answer} {res : Shared × Option CallTask}
    (hres : t.resume cfg s held ans = some res) {st : StepRef}
    (hjob : ∀ drv item, s.queues.scheduled.lookup drv = some item →
      (s.jobsOf item.machine).find? (fun j => j.path == drv) ≠ none)
    (hbefore : (s.graph.step st).finished = false)
    (hafter : (res.1.graph.step st).finished = true) :
    ∃ t', res.2 = some t' ∧ t'.readsBuildsOf st := by
  cases callGraph_of_resume hres with
  | fades hg =>
    rw [(hg.sameBase st).finished, hbefore] at hafter
    cases hafter
  | fails a state report caller item tries after ht hitem hg =>
    rw [hg, Graph.modifyStep_step] at hafter
    split_ifs at hafter with he
    rw [hbefore] at hafter
    cases hafter
  | releases a report item now ht hg =>
    rw [hg, (Graph.sameBase_makeRdepsRunnable s.graph item.stepInfo.step now st).finished,
      hbefore] at hafter
    cases hafter
  | succeeds a report item ht hitem hg =>
    have hst : item.stepInfo.step = st := by
      by_contra hne
      rw [hg, Graph.setFinished, Graph.modifyStep_step, if_neg (Ne.symm hne), hbefore] at hafter
      cases hafter
    subst ht
    simp only [CallTask.resume, succeedResume, Option.some.injEq] at hres
    unfold succeedStart at hres
    cases hq : s.queues.removeJobFromScheduled a.drv with
    | none => simp [InnerQueues.removeJobFromScheduled_eq_none.mp hq] at hitem
    | some found =>
      obtain ⟨item', queues⟩ := found
      have hitem' := (InnerQueues.unscheduled_of_removeJobFromScheduled hq).found
      have hsame : item' = item := Option.some.inj (hitem'.symm.trans hitem)
      subst hsame
      rw [hq] at hres
      simp only at hres
      cases hm : s.machines.removeJob item'.machine (Shared.seconds ans.now) a.drv with
      | mk machines job =>
        cases job with
        | none => exact absurd (congrArg Prod.snd hm) (hjob a.drv item' hitem)
        | some job =>
          rw [hm] at hres
          subst hres
          exact ⟨_, rfl, hst⟩

/-! ## The invariant -/

/-- Every build that waits for a finished step is about to be marked. -/
def Runner.Kept (r : Runner) : Prop :=
  ∀ b s, r.createState.Waits b s → (r.shared.graph.build b).finishedInDb = false →
    (r.shared.graph.step s).finished = false ∨
      ∃ t task, r.calls.lookup t = some task ∧ task.Marks b s

namespace Runner.Kept

variable {cfg : Config} {r r' : Runner}

theorem init : Runner.Kept {} := by
  intro b s h
  cases h <;> simp_all [Runner.createState, Map.values]

theorem noBuildLost (h : r.Kept) : NoBuildLost r := by
  intro b hb hfin s htop hcalls
  rcases h b s (.registered hb htop) hfin with hs | ⟨t, task, ht, hmarks⟩
  · exact hs
  · refine absurd ?_ (hcalls t task ht)
    rcases hmarks with hreads | ⟨a, report, item, direct, rfl, hstep, -⟩
    · unfold CallTask.readsBuildsOf at hreads
      split at hreads
      · exact hreads
      · exact hreads
      · cases hreads
    · exact hstep

/-- A step that changes neither the steps nor the calls, and may finish
builds. -/
theorem of_fades (h : r.Kept) (hg : r.shared.graph.Fades r'.shared.graph)
    (hlife : BuildLife r.createState) (hcreation : r'.creation = r.creation)
    (hcalls : ∀ t task, r.calls.lookup t = some task → r'.calls.lookup t = some task) :
    r'.Kept := by
  intro b s hw hb
  rw [Runner.createState, hcreation] at hw
  have hwait : r.createState.Waits b s := CreateState.Waits.of_graph hw hlife (.of_fades hg)
  have hunfinished : (r.shared.graph.build b).finishedInDb = false := by
    cases hfin : (r.shared.graph.build b).finishedInDb with
    | false => rfl
    | true =>
      rw [hg.finished b hfin] at hb
      cases hb
  rw [(hg.sameBase s).finished]
  rcases h b s hwait hunfinished with hs | ⟨t, task, ht, hmarks⟩
  · exact Or.inl hs
  · exact Or.inr ⟨t, task, hcalls t task ht, hmarks⟩

/-- A step of the creation. -/
theorem create (h : r.Kept) (hok : RunnerOk cfg r) (hlife : BuildLife r.createState)
    {a : CreateAction} {ans : Answer} {c : CreateState}
    (hs : CreateStep cfg r.createState ans a c) (hjoins : JoinsInTime r (.create a ans)) :
    (r.setCreateState c).Kept := by
  intro b s hw hb
  have hwait' : c.Waits b s := hw
  have hb' : (c.graph.build b).finishedInDb = false := hb
  change (c.graph.step s).finished = false ∨ _
  cases hfin : (c.graph.step s).finished with
  | false => exact Or.inl rfl
  | true =>
    refine Or.inr ?_
    rcases hs.waits hok.create hlife hwait' with hwait | ⟨k, rfl, hans, hnew | hfound⟩
    · have hbefore := hs.createGraph.unfinished_of_unfinished (hwait.alive hlife).1 hb'
      rcases hs.finished_of_finished hfin with hfin' | ⟨k, rfl, hdecided⟩
      · rcases h b s hwait hbefore with hs' | hmarks
        · exact absurd (hfin'.symm.trans hs') (by simp)
        · exact hmarks
      · -- the only build of the step is the one that the call is for
        obtain ⟨call, hcall, hrb⟩ := hjoins s hdecided.decides b
          (hwait.mem_direct hok.create hlife hbefore)
        obtain ⟨k', bc, hbc, hbuild, hpc⟩ := hlife.referring k call b hcall hrb
        exfalso
        have hlife' := hlife.step hok.create hs
        have hbc' : c.creation.builds.lookup k' = some bc := hdecided.builds ▸ hbc
        cases hwait' with
        | registered hreg htop =>
          have hnone := (hlife'.call k' bc hbc').2.2 (by simp [hpc])
          rw [hbuild, htop] at hnone
          cases hnone
        | @nested k₂ call₂ todo calls hk₂ hb₂ hpc₂ =>
          have he := hlife'.unique k' bc k₂ call₂ hbc' hk₂ (hbuild.trans hb₂.symm)
          rw [← he, hbc', Option.some.injEq] at hk₂
          rw [← hk₂, hpc] at hpc₂
          cases hpc₂
        | @step k₂ call₂ hk₂ hb₂ hs₂ =>
          obtain ⟨k₃, bc₃, hbc₃, hbuild₃, hpc₃⟩ := hlife'.referring k₂ call₂ b hk₂ hb₂
          have he := hlife'.unique k' bc k₃ bc₃ hbc' hbc₃ (hbuild.trans hbuild₃.symm)
          rw [← he, hbc', Option.some.injEq] at hbc₃
          rw [← hbc₃, hpc] at hpc₃
          cases hpc₃
          rw [hdecided.returned call₂ hk₂] at hs₂
          cases hs₂
    · rw [hnew] at hfin
      cases hfin
    · rcases hs.finished_of_finished hfin with hfin' | ⟨k', ha, -⟩
      · obtain ⟨task, htask, hreads⟩ := hjoins hans s hfound hfin'
        obtain ⟨t, ht⟩ := Map.mem_values_iff.mp htask
        exact ⟨t, task, ht, Or.inl hreads⟩
      · cases ha

/-- A step of a call. -/
theorem call (h : r.Kept) (hok : RunnerOk cfg r) (hlife : BuildLife r.createState)
    {t : TaskId} {ans : Answer} {task : CallTask} {res : Shared × Option CallTask}
    (ht : r.calls.lookup t = some task) (hres : task.resume cfg r.shared r.held ans = some res)
    (hans : ans.ok = true) (hjoins : JoinsInTime r (.call t ans)) :
    (r.setCall t res).Kept := by
  intro b s hw hb
  have hgraph : r.shared.graph.KeepsLife res.1.graph ∧
      ((r.shared.graph.build b).finishedInDb = true →
        (res.1.graph.build b).finishedInDb = true) := by
    cases callGraph_of_resume hres with
    | fades hg => exact ⟨.of_fades hg, hg.finished b⟩
    | succeeds a report item ht' hitem hg => exact hg ▸ ⟨.of_eq rfl rfl (le_refl _), id⟩
    | fails a state report caller item tries after ht' hitem hg =>
      exact hg ▸ ⟨.of_eq rfl rfl (le_refl _), id⟩
    | releases a report item now ht' hg =>
      have hmaps := Graph.SameMaps.makeRdepsRunnable r.shared.graph now item.stepInfo.step
      rw [hg]
      exact ⟨.of_sameMaps hmaps, fun hb => by rw [hmaps.build]; exact hb⟩
  have hwait : r.createState.Waits b s := CreateState.Waits.of_graph hw hlife hgraph.1
  have hunfinished : (r.shared.graph.build b).finishedInDb = false := by
    cases hfin : (r.shared.graph.build b).finishedInDb with
    | false => rfl
    | true => exact absurd ((hgraph.2 hfin).symm.trans hb) (by simp)
  have hself : ∀ t', res.2 = some t' → (r.setCall t res).calls.lookup t = some t' := by
    intro t' ht'
    simp only [Runner.setCall, ht', AList.lookup_insert]
  cases hfin : (res.1.graph.step s).finished with
  | false => exact Or.inl hfin
  | true =>
    refine Or.inr ?_
    rcases h b s hwait hunfinished with hs | ⟨t₁, task₁, ht₁, hmarks⟩
    · obtain ⟨t', ht', hreads⟩ := CallTask.reads_of_finished hres
        (fun drv item hitem => hok.attempts.find_job hitem) hs hfin
      exact ⟨t, t', hself t' ht', Or.inl hreads⟩
    · by_cases he : t₁ = t
      · rw [he, ht, Option.some.injEq] at ht₁
        subst ht₁
        obtain ⟨t', ht', hmarks'⟩ := hmarks.resume hres hans
          (hjoins task ht)
          (fun hb₀ => hwait.mem_direct hok.create hlife hb₀) hb
        exact ⟨t, t', hself t' ht', hmarks'⟩
      · refine ⟨t₁, task₁, ?_, hmarks⟩
        simp only [Runner.setCall]
        cases res.2 with
        | none => rw [Map.lookup_erase_eq, if_neg he, ht₁]
        | some t' => rw [Map.lookup_insert_eq, if_neg he, ht₁]

theorem lookup_spawn_of_lookup (hok : RunnerOk cfg r) (res : Shared × Option CallTask)
    (t : TaskId) (task : CallTask) (ht : r.calls.lookup t = some task) :
    (r.spawn res).calls.lookup t = some task := by
  have hne : t ≠ r.nextTask := Nat.ne_of_lt (hok.tasks t task ht)
  rw [Runner.lookup_spawn, if_neg (fun hc => hne hc.1), ht]

/-- Every step that meets the condition keeps the invariant. -/
theorem step (h : r.Kept) (hok : RunnerOk cfg r) (hlife : BuildLife r.createState)
    {a : Action} (hdb : DatabaseOk r a) (hjoins : JoinsInTime r a)
    (hs : RunnerStep cfg r a r') : r'.Kept := by
  cases hs with
  | dispatch hres => exact h.of_fades (dispatch_fades hres) hlife rfl (fun _ _ => id)
  | call ht hres => exact h.call hok hlife ht hres hdb hjoins
  | completeBuild uuid machineId state report =>
    obtain ⟨results, hshared, -⟩ := completeBuild_spec r.shared uuid machineId state report
    refine h.of_fades ?_ hlife (r.spawn_creation _) (lookup_spawn_of_lookup hok _)
    rw [Runner.spawn_shared, hshared]
    exact .refl _
  | @endStream m hm =>
    obtain ⟨machines, task, hshared, -⟩ := endStream_spec r.shared m
    refine h.of_fades ?_ hlife (Runner.spawn_creation _ _) (fun t task ht => ?_)
    · rw [Runner.spawn_shared, hshared]
      exact .refl _
    · have hne : t ≠ r.nextTask := Nat.ne_of_lt (hok.tasks t task ht)
      rw [Runner.lookup_spawn, if_neg (fun hc => hne hc.1)]
      exact ht
  | queueChange curIds =>
    refine h.of_fades ?_ hlife (r.spawn_creation _) (lookup_spawn_of_lookup hok _)
    rw [Runner.spawn_shared]
    exact .retainBuilds _ _
  | insertMachine id record sortFn =>
    exact h.of_fades (.refl _) hlife rfl (fun _ _ ht => ht)
  | create hnext => exact h.create hok hlife (CreateState.createStep_of_next hnext) hjoins
  | @dropStep s hheld =>
    intro b t hw hb
    have hlife' : r.shared.graph.KeepsLife (r.shared.graph.dropStep s) :=
      .of_eq rfl rfl (le_refl _)
    have hfin : ((r.shared.graph.dropStep s).step t).finished =
        (r.shared.graph.step t).finished := by
      rw [Graph.dropStep, Graph.modifyStep_step]
      split_ifs with he
      · rw [he]
      · rfl
    exact hfin ▸ h b t (CreateState.Waits.of_graph hw hlife hlife') hb
  | @dropBuild b' hheld =>
    intro b t hw hb
    have hbuild : ∀ b₁, ((r.shared.graph.dropBuild b').build b₁).toplevel =
        (r.shared.graph.build b₁).toplevel ∧
        ((r.shared.graph.dropBuild b').build b₁).finishedInDb =
          (r.shared.graph.build b₁).finishedInDb := by
      intro b₁
      by_cases he : b₁ = b'
      · subst he
        simp [Graph.dropBuild, Graph.modifyBuild]
      · simp [Graph.dropBuild, Graph.modifyBuild, he]
    refine h b t ?_ ((hbuild b).2 ▸ hb)
    cases hw with
    | registered hreg htop => exact .registered hreg ((hbuild b).1 ▸ htop)
    | nested hk hb' hpc => exact .nested hk hb' hpc
    | step hk hb' hs' => exact .step hk hb' hs'

theorem reach (h : Lts.Reach (Runner.next cfg)
    (fun r a => DatabaseOk r a ∧ JoinsInTime r a) {} r) : r.Kept := by
  refine h.invariant_of_reach init ?_
  rintro r a r' hreach hkept ⟨hdb, hjoins⟩ hnext
  exact hkept.step (RunnerOk.reach hreach) (BuildLife.reach hreach) hdb hjoins
    (runnerStep_of_next hnext)

end Runner.Kept

/-! ## Whole runs -/

/-- In every run in which all builds join their step in time, no build is
lost. -/
theorem noBuildLost_runs (cfg : Config) (r : Runner)
    (hrun : Lts.Reach (Runner.next cfg) (fun r a => DatabaseOk r a ∧ JoinsInTime r a) {} r) :
    NoBuildLost r :=
  (Runner.Kept.reach hrun).noBuildLost

namespace Sample

/-- The step of `drv` succeeds: `succeed_step` up to its second await. -/
def succeeding : List Action :=
  [.completeBuild 0 0 .success {}, .call 0 {}, .call 0 {}]

end Sample

/-- A build that joins before `get_direct_builds` is read is marked. -/
theorem noBuildLost_runs_joined : ∃ r, Lts.Reach (Runner.next Sample.config)
    (fun r a => DatabaseOk r a ∧ JoinsInTime r a) {} r ∧
      (r.shared.graph.build ⟨2, Sample.drv, 2⟩).finishedInDb = true ∧
      r.calls.keys = [] ∧ NoBuildLost r := by
  have hend : (Lts.runWith (Runner.next Sample.config)
      (fun r a => DatabaseOk r a ∧ JoinsInTime r a) {}
      (Sample.register :: Sample.created ++ Sample.sent ++ Sample.scheduled ++
        Sample.succeeding ++ Sample.joined ++ [.call 0 {}, .call 0 {}, .call 0 {}])).map
      (fun r => ((r.shared.graph.build ⟨2, Sample.drv, 2⟩).finishedInDb, r.calls.keys)) =
      some (true, []) := by decide +kernel
  obtain ⟨r, hr, he⟩ := Option.map_eq_some_iff.mp hend
  simp only [Prod.mk.injEq] at he
  have hrun := Lts.reach_of_runWith hr
  exact ⟨r, hrun, he.1, he.2, noBuildLost_runs Sample.config r hrun⟩

/-- A build joins after `get_direct_builds` was read.  It stays registered
and unfinished, and its step is never built again. -/
theorem noBuildLost_fails : ¬∀ cfg r,
    Lts.Reach (Runner.next cfg) DatabaseOk {} r → NoBuildLost r := by
  intro h
  have hend : (Lts.runWith (Runner.next Sample.config) DatabaseOk {}
      (Sample.register :: Sample.created ++ Sample.sent ++ Sample.scheduled ++
        Sample.succeeding ++ [.call 0 {}] ++ Sample.joined ++
        [.call 0 {}, .call 0 {}])).map
      (fun r => (r.shared.graph.builds.lookup 2,
        (r.shared.graph.build ⟨2, Sample.drv, 2⟩).finishedInDb,
        (r.shared.graph.build ⟨2, Sample.drv, 2⟩).toplevel, r.calls.keys,
        (r.shared.graph.step Sample.step).finished)) =
      some (some ⟨2, Sample.drv, 2⟩, false, some Sample.step, [], true) := by
    decide +kernel
  obtain ⟨r, hr, he⟩ := Option.map_eq_some_iff.mp hend
  simp only [Prod.mk.injEq] at he
  obtain ⟨hreg, hunfinished, htop, hcalls, hfinished⟩ := he
  have hlost := h _ r (Lts.reach_of_runWith hr) ⟨2, Sample.drv, 2⟩
    (Map.mem_values_iff.mpr ⟨2, hreg⟩) hunfinished Sample.step htop
  rw [hfinished] at hlost
  refine absurd (hlost fun t task ht => ?_) (by simp)
  have hmem : t ∈ r.calls.keys := AList.lookup_isSome.mp (by rw [ht]; rfl)
  rw [hcalls] at hmem
  cases hmem

end QueueRunner
