import QueueRunner.Creation
import QueueRunner.GraphFacts

/-!
# What a step of the creation does

`CreateStep` lists the steps of `process_new_builds`, `create_build` and
`create_step` with the calls they find.  It is the inversion of
`CreateState.next`: the invariants about the creation are proved by cases
on it.
-/

namespace QueueRunner

open CreateState

/-- The result of a call that has returned. -/
def StepPc.result : StepPc → Option CreateStepResult
  | .returned r => some r
  | _ => none

namespace CreateState

section Setters

variable (c : CreateState) (k : CallId)

@[simp] theorem setStepCall_graph (call : StepCall) :
    (c.setStepCall k call).graph = c.graph := rfl

@[simp] theorem setStepCall_present (call : StepCall) :
    (c.setStepCall k call).present = c.present := rfl

@[simp] theorem setStepCall_passes (call : StepCall) :
    (c.setStepCall k call).creation.passes = c.creation.passes := rfl

@[simp] theorem setStepCall_builds (call : StepCall) :
    (c.setStepCall k call).creation.builds = c.creation.builds := rfl

@[simp] theorem setStepCall_fresh (call : StepCall) :
    (c.setStepCall k call).creation.fresh = c.creation.fresh := rfl

@[simp] theorem setStepCall_steps (call : StepCall) :
    (c.setStepCall k call).creation.steps = c.creation.steps.insert k call := rfl

@[simp] theorem setBuildCall_graph (call : BuildCall) :
    (c.setBuildCall k call).graph = c.graph := rfl

@[simp] theorem setBuildCall_present (call : BuildCall) :
    (c.setBuildCall k call).present = c.present := rfl

@[simp] theorem setBuildCall_passes (call : BuildCall) :
    (c.setBuildCall k call).creation.passes = c.creation.passes := rfl

@[simp] theorem setBuildCall_builds (call : BuildCall) :
    (c.setBuildCall k call).creation.builds = c.creation.builds.insert k call := rfl

@[simp] theorem setBuildCall_fresh (call : BuildCall) :
    (c.setBuildCall k call).creation.fresh = c.creation.fresh := rfl

@[simp] theorem setBuildCall_steps (call : BuildCall) :
    (c.setBuildCall k call).creation.steps = c.creation.steps := rfl

@[simp] theorem setPass_graph (pass : Pass) : (c.setPass k pass).graph = c.graph := rfl

@[simp] theorem setPass_present (pass : Pass) :
    (c.setPass k pass).present = c.present := rfl

@[simp] theorem setPass_passes (pass : Pass) :
    (c.setPass k pass).creation.passes = c.creation.passes.insert k pass := rfl

@[simp] theorem setPass_builds (pass : Pass) :
    (c.setPass k pass).creation.builds = c.creation.builds := rfl

@[simp] theorem setPass_fresh (pass : Pass) :
    (c.setPass k pass).creation.fresh = c.creation.fresh := rfl

@[simp] theorem setPass_steps (pass : Pass) :
    (c.setPass k pass).creation.steps = c.creation.steps := rfl

@[simp] theorem takeStepCall_graph : (c.takeStepCall k).graph = c.graph := rfl

@[simp] theorem takeStepCall_present : (c.takeStepCall k).present = c.present := rfl

@[simp] theorem takeStepCall_passes :
    (c.takeStepCall k).creation.passes = c.creation.passes := rfl

@[simp] theorem takeStepCall_builds :
    (c.takeStepCall k).creation.builds = c.creation.builds := rfl

@[simp] theorem takeStepCall_fresh :
    (c.takeStepCall k).creation.fresh = c.creation.fresh := rfl

@[simp] theorem takeStepCall_steps :
    (c.takeStepCall k).creation.steps = c.creation.steps.erase k := rfl

@[simp] theorem takeBuildCall_graph : (c.takeBuildCall k).graph = c.graph := rfl

@[simp] theorem takeBuildCall_present :
    (c.takeBuildCall k).present = c.present := rfl

@[simp] theorem takeBuildCall_passes :
    (c.takeBuildCall k).creation.passes = c.creation.passes := rfl

@[simp] theorem takeBuildCall_builds :
    (c.takeBuildCall k).creation.builds = c.creation.builds.erase k := rfl

@[simp] theorem takeBuildCall_fresh :
    (c.takeBuildCall k).creation.fresh = c.creation.fresh := rfl

@[simp] theorem takeBuildCall_steps :
    (c.takeBuildCall k).creation.steps = c.creation.steps := rfl

end Setters

/-- What the insertions into the shared sets leave alone. -/
theorem insertFinishedDrv_frame (c : CreateState) (k : CallId)
    (drvPath : StorePath) :
    (c.insertFinishedDrv k drvPath).graph = c.graph ∧
      (c.insertFinishedDrv k drvPath).present = c.present ∧
      (c.insertFinishedDrv k drvPath).creation.steps = c.creation.steps ∧
      (c.insertFinishedDrv k drvPath).creation.builds = c.creation.builds ∧
      (c.insertFinishedDrv k drvPath).creation.fresh = c.creation.fresh := by
  unfold insertFinishedDrv
  split <;> exact ⟨rfl, rfl, rfl, rfl, rfl⟩

theorem insertNewRunnable_frame (c : CreateState) (k : CallId) (s : StepRef) :
    (c.insertNewRunnable k s).graph = c.graph ∧
      (c.insertNewRunnable k s).present = c.present ∧
      (c.insertNewRunnable k s).creation.steps = c.creation.steps ∧
      (c.insertNewRunnable k s).creation.builds = c.creation.builds ∧
      (c.insertNewRunnable k s).creation.fresh = c.creation.fresh := by
  unfold insertNewRunnable
  split <;> exact ⟨rfl, rfl, rfl, rfl, rfl⟩

theorem insertNewStep_frame (c : CreateState) (k : CallId) (s : StepRef) :
    (c.insertNewStep k s).graph = c.graph ∧
      (c.insertNewStep k s).present = c.present ∧
      (c.insertNewStep k s).creation.steps = c.creation.steps ∧
      (c.insertNewStep k s).creation.passes = c.creation.passes ∧
      (c.insertNewStep k s).creation.fresh = c.creation.fresh := by
  unfold insertNewStep
  split <;> exact ⟨rfl, rfl, rfl, rfl, rfl⟩

/-- A call of `create_build` keeps its build and its place. -/
theorem insertNewStep_builds (c : CreateState) (k : CallId) (s : StepRef)
    {k' : CallId} {call : BuildCall}
    (h : (c.insertNewStep k s).creation.builds.lookup k' = some call) :
    ∃ call₀, c.creation.builds.lookup k' = some call₀ ∧
      call.pass = call₀.pass ∧ call.build = call₀.build ∧ call.pc = call₀.pc := by
  unfold insertNewStep at h
  split at h
  · rename_i b hb
    simp only [setBuildCall_builds, Map.lookup_insert_eq] at h
    split_ifs at h with he
    · cases h
      exact ⟨b, he ▸ hb, rfl, rfl, rfl⟩
    · exact ⟨call, h, rfl, rfl, rfl⟩
  · exact ⟨call, h, rfl, rfl, rfl⟩

/-- What `create_step` does up to its first await: the call enters the pool
at the place `pc`. -/
structure Started (c : CreateState) (pass build : CallId)
    (callers : List CallId) (drvPath : StorePath) (rb : Option BuildRef)
    (rs : Option StepRef) (c' : CreateState) (pc : StepPc) : Prop where
  passes : c'.creation.passes = c.creation.passes
  builds : c'.creation.builds = c.creation.builds
  present : c'.present = c.present
  fresh : c'.creation.fresh = c.creation.fresh + 1
  steps : c'.creation.steps = c.creation.steps.insert c.creation.fresh
    ⟨pass, build, callers, drvPath, rb, rs, pc⟩
  result : (pc = .returned .none ∧ c'.graph = c.graph ∧
      ∃ p, c.creation.passes.lookup pass = some p ∧ drvPath ∈ p.finishedDrvs) ∨
    ∃ s isNew, Graph.Created c.graph drvPath rb rs c'.graph s isNew ∧
      pc = if isNew then .queryDrv s else .returned (.valid s)
  undecided : pc ≠ .returned .none → ∀ p, c.creation.passes.lookup pass = some p →
    drvPath ∉ p.finishedDrvs

theorem started_startStep (c : CreateState) (pass build : CallId)
    (callers : List CallId) (drvPath : StorePath) (rb : Option BuildRef)
    (rs : Option StepRef) : ∃ pc, Started c pass build callers drvPath rb rs
      (c.startStep pass build callers drvPath rb rs).1 pc := by
  have hcreated := Graph.created_createStep c.graph drvPath rb rs
  unfold startStep
  simp only
  split_ifs with hfin hnew
  · refine ⟨_, ⟨rfl, rfl, rfl, rfl, rfl, Or.inl ⟨rfl, rfl, ?_⟩, fun hne => absurd rfl hne⟩⟩
    cases hpass : c.creation.passes.lookup pass with
    | none => simp [hpass] at hfin
    | some p => exact ⟨p, rfl, by simpa [hpass] using hfin⟩
  · refine ⟨_, ⟨rfl, rfl, rfl, rfl, rfl, Or.inr ⟨_, _, hcreated, ?_⟩, fun _ p hp => ?_⟩⟩
    · rw [hnew, if_pos rfl]
    · simpa [hp] using hfin
  · refine ⟨_, ⟨rfl, rfl, rfl, rfl, rfl, Or.inr ⟨_, _, hcreated, ?_⟩, fun _ p hp => ?_⟩⟩
    · rw [if_neg hnew]
    · simpa [hp] using hfin

end CreateState

/-- One step of a call that creates builds or steps. -/
inductive CreateStep (cfg : Config) (c : CreateState) (ans : Answer) :
    CreateAction → CreateState → Prop where
  | startPass (rows : List (BuildID × StorePath)) :
      CreateStep cfg c ans (.startPass rows) (c.startPass rows)
  /-- A pass turns to a build that another call has taken. -/
  | skipBuild {k : CallId} {pass : Pass} {id : BuildID} {todo : List BuildID}
      (hpass : c.creation.passes.lookup k = some pass)
      (htodo : pass.todo = id :: todo) (hwaiting : pass.waiting = none)
      (hid : pass.byId.lookup id = none) :
      CreateStep cfg c ans (.resumePass k)
        (c.setPass k { pass with todo := todo, newRunnable := [] })
  | nextBuild {k : CallId} {pass : Pass} {id : BuildID} {todo : List BuildID}
      {b : BuildRef} (hpass : c.creation.passes.lookup k = some pass)
      (htodo : pass.todo = id :: todo) (hwaiting : pass.waiting = none)
      (hid : pass.byId.lookup id = some b) :
      CreateStep cfg c ans (.resumePass k)
        { c with
          creation := { c.creation with
            passes := c.creation.passes.insert k
              { pass with
                todo := todo, newRunnable := [], byId := pass.byId.erase id
                waiting := some c.creation.fresh }
            builds := c.creation.builds.insert c.creation.fresh
              { pass := k, build := b }
            fresh := c.creation.fresh + 1 } }
  | makeRunnable {k k' : CallId} {pass : Pass} {call : BuildCall}
      (now : Timestamp) (todo : List BuildID)
      (hpass : c.creation.passes.lookup k = some pass)
      (hwaiting : pass.waiting = some k')
      (hcall : c.creation.builds.lookup k' = some call)
      (hpc : call.pc = .returned) (htodo : todo = if ans.stop then [] else pass.todo) :
      CreateStep cfg c ans (.resumePass k)
        ({ c.takeBuildCall k' with
          graph := pass.newRunnable.foldl (fun g s => g.makeRunnable now s)
            c.graph }.setPass k { pass with waiting := none, todo := todo })
  | sweep {k : CallId} {pass : Pass} (now : Timestamp) (order : List StepRef)
      (hpass : c.creation.passes.lookup k = some pass)
      (hwaiting : pass.waiting = none) (htodo : pass.todo = [])
      (horder : order.Perm c.graph.steps.values) :
      CreateStep cfg c ans (.resumePass k)
        { c with
          graph := c.graph.sweepSteps now order
          creation := { c.creation with
            passes := c.creation.passes.erase k } }
  /-- A build of a new step gets its call. -/
  | startNested {k : CallId} {call : BuildCall} {step : Option StepRef}
      {id : BuildID} {todo : List BuildID} {calls : List CallId} {pass : Pass}
      {b : BuildRef} (hcall : c.creation.builds.lookup k = some call)
      (hpc : call.pc = .nested step (id :: todo) calls)
      (hlength : calls.length < 10)
      (hpass : c.creation.passes.lookup call.pass = some pass)
      (hid : pass.byId.lookup id = some b) :
      CreateStep cfg c ans (.startNested k)
        { c with
          creation := { c.creation with
            passes := c.creation.passes.insert call.pass
              { pass with byId := pass.byId.erase id }
            builds := (c.creation.builds.insert c.creation.fresh
              { pass := call.pass, build := b }).insert k
              { call with pc := .nested step todo (calls ++ [c.creation.fresh]) }
            fresh := c.creation.fresh + 1 } }
  /-- A call of `create_build` goes on without touching the graph. -/
  | moveBuild {a : CreateAction} {k : CallId} {call : BuildCall} {pc : BuildPc}
      (ha : a = .startNested k ∨ a = .resumeBuild k)
      (hcall : c.creation.builds.lookup k = some call)
      (hmove : (∃ step id todo calls, call.pc = .nested step (id :: todo) calls ∧
          pc = .nested step todo calls) ∨
        (call.pc = .validPath ∧ pc = .abort) ∨
        (call.pc = .nested none [] [] ∧ pc = .cached) ∨
        ((call.pc = .previousFailure ∨ call.pc = .cached) ∧ pc = .returned)) :
      CreateStep cfg c ans a (c.setBuildCall k { call with pc := pc })
  /-- A build is finished in the database, and its call returns. -/
  | finishInDb {k : CallId} {call : BuildCall}
      (hcall : c.creation.builds.lookup k = some call)
      (hpc : call.pc = .validPath ∨ call.pc = .abort ∨
        call.pc = .previousFailure ∨ call.pc = .cached) :
      CreateStep cfg c ans (.resumeBuild k)
        ({ c with graph := c.graph.setFinishedInDb call.build }.setBuildCall k
          { call with pc := .returned })
  | startToplevel {k : CallId} {call : BuildCall}
      (hcall : c.creation.builds.lookup k = some call)
      (hpc : call.pc = .validPath) (hok : ans.ok = true) :
      CreateStep cfg c ans (.resumeBuild k)
        ((c.startStep call.pass k [] call.build.drvPath (some call.build)
          none).1.setBuildCall k { call with pc := .step c.creation.fresh })
  | takeToplevel {k k' : CallId} {call : BuildCall} {child : StepCall}
      {pc : BuildPc} (r : CreateStepResult)
      (hcall : c.creation.builds.lookup k = some call)
      (hpc : call.pc = .step k')
      (hchild : c.creation.steps.lookup k' = some child)
      (hresult : child.pc = .returned r)
      (hmove : (∃ s, r = .previousFailure s ∧
          (pc = .returned ∨ pc = .previousFailure)) ∨
        (∃ ids, r = .none ∧ pc = .nested none ids []) ∨
        ∃ s ids, r = .valid s ∧ pc = .nested (some s) ids []) :
      CreateStep cfg c ans (.resumeBuild k)
        ((c.takeStepCall k').setBuildCall k { call with pc := pc })
  | takeNested {k k' : CallId} {call child : BuildCall} {step : Option StepRef}
      {todo : List BuildID} {calls : List CallId}
      (hcall : c.creation.builds.lookup k = some call)
      (hpc : call.pc = .nested step todo (k' :: calls))
      (hchild : c.creation.builds.lookup k' = some child)
      (hresult : child.pc = .returned) :
      CreateStep cfg c ans (.resumeBuild k) ((c.takeBuildCall k').setBuildCall k
        { call with pc := .nested step todo calls })
  | attach {k : CallId} {call : BuildCall} {step : StepRef}
      (hcall : c.creation.builds.lookup k = some call)
      (hpc : call.pc = .nested (some step) [] []) :
      CreateStep cfg c ans (.resumeBuild k) (c.finishBuild k call (some step))
  | startInput {k : CallId} {call : StepCall} {step : StepRef}
      {drvPath : StorePath} {todo : List StorePath}
      {calls : List (StorePath × CallId)}
      (hcall : c.creation.steps.lookup k = some call)
      (hpc : call.pc = .inputs step (drvPath :: todo) calls)
      (hlength : calls.length < 25) :
      CreateStep cfg c ans (.startInput k)
        ((c.startStep call.pass call.build (k :: call.callers) drvPath none
          (some step)).1.setStepCall k { call with
            pc := .inputs step todo (calls ++ [(drvPath, c.creation.fresh)]) })
  | readDrv {k : CallId} {call : StepCall} {step : StepRef}
      (hcall : c.creation.steps.lookup k = some call)
      (hpc : call.pc = .queryDrv step) (hok : ans.ok = true) :
      CreateStep cfg c ans (.resumeStep k) (c.setStepCall k { call with
        pc := .queryOutputs step (cfg.drvOf call.drvPath) })
  /-- `query_drv` fails. -/
  | unreadable {k : CallId} {call : StepCall} {step : StepRef}
      (hcall : c.creation.steps.lookup k = some call)
      (hpc : call.pc = .queryDrv step) (hok : ans.ok = false) :
      CreateStep cfg c ans (.resumeStep k) (c.returnStep k call .none)
  | setDrv {k : CallId} {call : StepCall} {step : StepRef} {drv : Derivation}
      (hcall : c.creation.steps.lookup k = some call)
      (hpc : call.pc = .queryOutputs step drv) :
      CreateStep cfg c ans (.resumeStep k)
        ({ c with graph := c.graph.setDrv step drv }.setStepCall k
          { call with
            pc := .checkCached step drv (missingOutputs ans drv.outputs) })
  | cachedFailure {k : CallId} {call : StepCall} {step : StepRef}
      {drv : Derivation} {missing : List DerivationOutput}
      (hcall : c.creation.steps.lookup k = some call)
      (hpc : call.pc = .checkCached step drv missing)
      (hcached : ans.cached = true) :
      CreateStep cfg c ans (.resumeStep k)
        ({ c with graph := c.graph.setPreviousFailure step true }.returnStep k
          call (.previousFailure step))
  | substitute {k : CallId} {call : StepCall} {step : StepRef}
      {drv : Derivation} {missing : List DerivationOutput}
      (hcall : c.creation.steps.lookup k = some call)
      (hpc : call.pc = .checkCached step drv missing) :
      CreateStep cfg c ans (.resumeStep k) (c.setStepCall k { call with
        pc := .substitute step drv missing })
  | decide {k : CallId} {call : StepCall} {step : StepRef}
      {drv : Derivation} {missing : List DerivationOutput} (finished : Bool)
      (hcall : c.creation.steps.lookup k = some call)
      (hpc : (call.pc = .checkCached step drv missing ∧ ans.cached = false ∧
          finished = decide (missing = [])) ∨
        call.pc = .substitute step drv missing ∧
          finished = missing.all ans.substituted) :
      CreateStep cfg c ans (.resumeStep k) (c.decideStep k call step drv finished)
  | takeInput {k k' : CallId} {call child : StepCall} {step : StepRef}
      {drvPath : StorePath} {todo : List StorePath}
      {calls : List (StorePath × CallId)} (r : CreateStepResult)
      (hcall : c.creation.steps.lookup k = some call)
      (hpc : call.pc = .inputs step todo ((drvPath, k') :: calls))
      (hchild : c.creation.steps.lookup k' = some child)
      (hresult : child.pc = .returned r) :
      CreateStep cfg c ans (.resumeStep k)
        ((c.takeStepCall k').takeInput k call step todo calls r)
  | finish {k : CallId} {call : StepCall} {step : StepRef}
      (hcall : c.creation.steps.lookup k = some call)
      (hpc : call.pc = .inputs step [] []) :
      CreateStep cfg c ans (.resumeStep k) (c.finishStep k call step)

namespace CreateState

theorem startStep_snd (c : CreateState) (pass build : CallId)
    (callers : List CallId) (drvPath : StorePath) (rb : Option BuildRef)
    (rs : Option StepRef) :
    (c.startStep pass build callers drvPath rb rs).2 = c.creation.fresh := by
  unfold startStep
  simp only
  split_ifs <;> rfl

theorem createStep_of_resumeStep {cfg : Config} {c c' : CreateState}
    {k : CallId} {ans : Answer} (h : c.resumeStep cfg k ans = some c') :
    CreateStep cfg c ans (.resumeStep k) c' := by
  unfold resumeStep at h
  cases hcall : c.creation.steps.lookup k with
  | none => simp [hcall] at h
  | some call =>
    simp only [hcall] at h
    split at h
    · rename_i step hpc
      split_ifs at h with hok <;> cases h
      · exact .readDrv hcall hpc hok
      · exact .unreadable hcall hpc (by simpa using hok)
    · rename_i step drv hpc
      cases h
      exact .setDrv hcall hpc
    · rename_i step drv missing hpc
      split_ifs at h with hcached <;> cases h
      · exact .cachedFailure hcall hpc hcached
      · exact .substitute hcall hpc
      · exact .decide _ hcall (Or.inl ⟨hpc, by simpa using hcached, rfl⟩)
    · rename_i step drv missing hpc
      cases h
      exact .decide _ hcall (Or.inr ⟨hpc, rfl⟩)
    · rename_i step hpc
      cases h
      exact .finish hcall hpc
    · cases h
    · rename_i step todo drvPath k' calls hpc
      split at h
      · rename_i r hchild
        cases h
        exact .takeInput r hcall hpc hchild rfl
      · cases h
    · cases h

theorem createStep_of_startInput {cfg : Config} {c c' : CreateState}
    {k : CallId} {ans : Answer} (h : c.startInput k = some c') :
    CreateStep cfg c ans (.startInput k) c' := by
  unfold startInput at h
  cases hcall : c.creation.steps.lookup k with
  | none => simp [hcall] at h
  | some call =>
    simp only [hcall] at h
    split at h
    · rename_i step drvPath todo calls hpc
      split_ifs at h with hlength
      cases h
      rw [startStep_snd]
      exact .startInput hcall hpc hlength
    · cases h

theorem createStep_of_resumeBuild {cfg : Config} {c c' : CreateState}
    {k : CallId} {ans : Answer} (h : c.resumeBuild k ans = some c') :
    CreateStep cfg c ans (.resumeBuild k) c' := by
  unfold resumeBuild at h
  cases hcall : c.creation.builds.lookup k with
  | none => simp [hcall] at h
  | some call =>
    simp only [hcall] at h
    split at h
    · rename_i hpc
      split_ifs at h with hok <;> cases h
      · rw [startStep_snd]
        exact .startToplevel hcall hpc hok
      · exact .finishInDb hcall (Or.inl hpc)
      · exact .moveBuild (Or.inr rfl) hcall (Or.inr (Or.inl ⟨hpc, rfl⟩))
    · rename_i hpc
      cases h
      exact .finishInDb hcall (Or.inr (Or.inl hpc))
    · rename_i k' hpc
      split at h
      · rename_i r hchild
        split at h
        · split_ifs at h <;> cases h
          · exact .takeToplevel _ hcall hpc hchild rfl (Or.inl ⟨_, rfl, Or.inl rfl⟩)
          · exact .takeToplevel _ hcall hpc hchild rfl (Or.inl ⟨_, rfl, Or.inr rfl⟩)
        · split_ifs at h
          cases h
          exact .takeToplevel _ hcall hpc hchild rfl (Or.inr (Or.inl ⟨_, rfl, rfl⟩))
        · split_ifs at h
          cases h
          exact .takeToplevel _ hcall hpc hchild rfl
            (Or.inr (Or.inr ⟨_, _, rfl, rfl⟩))
      · cases h
    · rename_i hpc
      split_ifs at h <;> cases h
      · exact .finishInDb hcall (Or.inr (Or.inr (Or.inl hpc)))
      · exact .moveBuild (Or.inr rfl) hcall
          (Or.inr (Or.inr (Or.inr ⟨Or.inl hpc, rfl⟩)))
    · rename_i step hpc
      cases h
      cases step with
      | none =>
        exact .moveBuild (Or.inr rfl) hcall (Or.inr (Or.inr (Or.inl ⟨hpc, rfl⟩)))
      | some step => exact .attach hcall hpc
    · cases h
    · rename_i step todo k' calls hpc
      split at h
      · rename_i hchild
        cases h
        exact .takeNested hcall hpc hchild rfl
      · cases h
    · rename_i hpc
      split_ifs at h <;> cases h
      · exact .finishInDb hcall (Or.inr (Or.inr (Or.inr hpc)))
      · exact .moveBuild (Or.inr rfl) hcall
          (Or.inr (Or.inr (Or.inr ⟨Or.inr hpc, rfl⟩)))
    · cases h

theorem createStep_of_startNested {cfg : Config} {c c' : CreateState}
    {k : CallId} {ans : Answer} (h : c.startNested k = some c') :
    CreateStep cfg c ans (.startNested k) c' := by
  unfold startNested at h
  cases hcall : c.creation.builds.lookup k with
  | none => simp [hcall] at h
  | some call =>
    simp only [hcall] at h
    split at h
    · rename_i step id todo calls hpc
      have hskip : CreateStep cfg c ans (.startNested k) (c.setBuildCall k
          { call with pc := .nested step todo calls }) :=
        .moveBuild (Or.inl rfl) hcall (Or.inl ⟨step, id, todo, calls, hpc, rfl⟩)
      split_ifs at h with hlength
      simp only [startBuild] at h
      cases hpass : c.creation.passes.lookup call.pass with
      | none =>
        simp only [hpass, Option.some.injEq] at h
        exact h ▸ hskip
      | some pass =>
        simp only [hpass] at h
        cases hid : pass.byId.lookup id with
        | none =>
          simp only [hid, Option.some.injEq] at h
          exact h ▸ hskip
        | some b =>
          simp only [hid, Option.some.injEq] at h
          subst h
          exact .startNested hcall hpc hlength hpass hid
    · cases h

theorem createStep_of_resumePass {cfg : Config} {c c' : CreateState}
    {k : CallId} {ans : Answer} (h : c.resumePass k ans = some c') :
    CreateStep cfg c ans (.resumePass k) c' := by
  unfold resumePass at h
  cases hpass : c.creation.passes.lookup k with
  | none => simp [hpass] at h
  | some pass =>
    simp only [hpass] at h
    split at h
    · rename_i id todo hwaiting htodo
      simp only [startBuild, setPass, AList.lookup_insert] at h
      cases hid : pass.byId.lookup id with
      | none =>
        simp only [hid, Option.some.injEq] at h
        exact h ▸ .skipBuild hpass htodo hwaiting hid
      | some b =>
        simp only [hid, setBuildCall, AList.lookup_insert, Option.some.injEq,
          AList.insert_insert] at h
        exact h ▸ .nextBuild hpass htodo hwaiting hid
    · rename_i k' todo hwaiting
      split at h
      · rename_i hcall
        cases h
        exact .makeRunnable ans.now _ hpass hwaiting hcall rfl rfl
      · cases h
    · rename_i hwaiting htodo
      split_ifs at h with horder
      cases h
      exact .sweep ans.now ans.steps hpass hwaiting htodo horder

/-- Every step of the creation is one of the relation. -/
theorem createStep_of_next {cfg : Config} {c c' : CreateState} {ans : Answer}
    {a : CreateAction} (h : c.next cfg ans a = some c') :
    CreateStep cfg c ans a c' := by
  cases a with
  | startPass rows =>
    cases h
    exact .startPass rows
  | resumePass k => exact createStep_of_resumePass h
  | startNested k => exact createStep_of_startNested h
  | resumeBuild k => exact createStep_of_resumeBuild h
  | startInput k => exact createStep_of_startInput h
  | resumeStep k => exact createStep_of_resumeStep h

/-! ### The call and its input -/

section

variable {c : CreateState} {k k' : CallId} {call child : StepCall} {step : StepRef}
  {todo : List StorePath} {calls : List (StorePath × CallId)} {r : CreateStepResult}

/-- A call that has inputs has not returned. -/
theorem ne_of_inputs (hcall : c.creation.steps.lookup k = some call)
    (hpc : call.pc = .inputs step todo calls)
    (hchild : c.creation.steps.lookup k' = some child) (hresult : child.pc = .returned r) :
    k ≠ k' := by
  rintro rfl
  rw [hcall, Option.some.injEq] at hchild
  rw [← hchild, hpc] at hresult
  cases hresult

/-- So it is still there when its input is taken. -/
theorem lookup_takeStepCall (hcall : c.creation.steps.lookup k = some call)
    (hpc : call.pc = .inputs step todo calls)
    (hchild : c.creation.steps.lookup k' = some child) (hresult : child.pc = .returned r) :
    (c.takeStepCall k').creation.steps.lookup k = some call := by
  rw [takeStepCall_steps, Map.lookup_erase_eq, if_neg (ne_of_inputs hcall hpc hchild hresult)]
  exact hcall

end

/-! ### The graph -/

/-- A build that is there keeps its fields when another one is loaded. -/
theorem loadBuild_build {acc : Graph × Pass} (row : BuildID × StorePath) {b : BuildRef}
    (hb : b.gen < acc.1.fresh) : (loadBuild acc row).1.build b = acc.1.build b := by
  have hne : b ≠ ⟨row.1, row.2, acc.1.fresh⟩ := by
    rintro rfl
    exact Nat.lt_irrefl _ hb
  simp [loadBuild, Graph.newBuild, hne]

theorem decideStep_graph (c : CreateState) (k : CallId) (call : StepCall)
    (step : StepRef) (drv : Derivation) (finished : Bool) :
    (c.decideStep k call step drv finished).graph =
      if finished then c.graph.setFinished step true else c.graph := by
  cases finished with
  | false => rfl
  | true =>
    simp only [decideStep, returnStep, setStepCall_graph, if_true,
      (c.insertFinishedDrv_frame call.pass call.drvPath).1]

theorem takeInput_graph (c : CreateState) (k : CallId) (call : StepCall)
    (step : StepRef) (todo : List StorePath) (calls : List (StorePath × CallId))
    (r : CreateStepResult) : (c.takeInput k call step todo calls r).graph = c.graph ∨
      ∃ dep, (c.takeInput k call step todo calls r).graph = c.graph.addDep step dep := by
  unfold takeInput
  cases r with
  | none => exact Or.inl rfl
  | previousFailure failed => exact Or.inl rfl
  | valid dep =>
    simp only [setStepCall_graph]
    split_ifs
    · exact Or.inr ⟨dep, rfl⟩
    · exact Or.inl rfl

theorem finishStep_graph (c : CreateState) (k : CallId) (call : StepCall)
    (step : StepRef) : (c.finishStep k call step).graph = c.graph.setCreated step := by
  simp only [finishStep, returnStep, setStepCall_graph, (insertNewStep_frame _ _ _).1]
  split_ifs
  · exact (insertNewRunnable_frame _ _ _).1
  · rfl

end CreateState

/-- What a step of the creation makes of the graph. -/
inductive CreateGraph (c : CreateState) : CreateAction → Graph → Prop where
  | same {a : CreateAction} : CreateGraph c a c.graph
  | startPass (rows : List (BuildID × StorePath)) :
      CreateGraph c (.startPass rows) (c.startPass rows).graph
  | makeRunnable {k : CallId} (now : Timestamp) (steps : List StepRef) :
      CreateGraph c (.resumePass k)
        (steps.foldl (fun g s => g.makeRunnable now s) c.graph)
  | sweep {k : CallId} (now : Timestamp) (order : List StepRef) :
      CreateGraph c (.resumePass k) (c.graph.sweepSteps now order)
  | finishInDb {k : CallId} {call : BuildCall}
      (hcall : c.creation.builds.lookup k = some call) :
      CreateGraph c (.resumeBuild k) (c.graph.setFinishedInDb call.build)
  | attach {k : CallId} {call : BuildCall} {step : StepRef}
      (hcall : c.creation.builds.lookup k = some call)
      (hpc : call.pc = .nested (some step) [] []) :
      CreateGraph c (.resumeBuild k) (c.finishBuild k call (some step)).graph
  /-- A call of `create_step` starts. -/
  | created {a : CreateAction} {drvPath : StorePath} {rb : Option BuildRef}
      {rs : Option StepRef} {g : Graph} {s : StepRef} {isNew : Bool}
      (h : Graph.Created c.graph drvPath rb rs g s isNew) : CreateGraph c a g
  | setDrv {k : CallId} (step : StepRef) (drv : Derivation) :
      CreateGraph c (.resumeStep k) (c.graph.setDrv step drv)
  | setPreviousFailure {k : CallId} (step : StepRef) :
      CreateGraph c (.resumeStep k) (c.graph.setPreviousFailure step true)
  | setFinished {k : CallId} (step : StepRef) :
      CreateGraph c (.resumeStep k) (c.graph.setFinished step true)
  | addDep {k : CallId} (step dep : StepRef) :
      CreateGraph c (.resumeStep k) (c.graph.addDep step dep)
  | setCreated {k : CallId} (step : StepRef) :
      CreateGraph c (.resumeStep k) (c.graph.setCreated step)

theorem CreateState.Started.createGraph {c c' : CreateState} {pass build : CallId}
    {callers : List CallId} {drvPath : StorePath} {rb : Option BuildRef}
    {rs : Option StepRef} {pc : StepPc} {a : CreateAction}
    (h : Started c pass build callers drvPath rb rs c' pc) :
    CreateGraph c a c'.graph := by
  rcases h.result with ⟨-, hg, -⟩ | ⟨s, isNew, hcreated, -⟩
  · rw [hg]
    exact .same
  · exact .created hcreated

/-- Every step of the creation, by what it makes of the graph. -/
theorem CreateStep.createGraph {cfg : Config} {c c' : CreateState} {ans : Answer}
    {a : CreateAction} (h : CreateStep cfg c ans a c') : CreateGraph c a c'.graph := by
  cases h with
  | startPass rows => exact .startPass rows
  | makeRunnable now todo hpass hwaiting hcall hpc => exact .makeRunnable now _
  | sweep now order hpass hwaiting htodo horder => exact .sweep now order
  | finishInDb hcall hpc => exact .finishInDb hcall
  | @startToplevel k call hcall hpc =>
    obtain ⟨pc, hstart⟩ := c.started_startStep call.pass k [] call.build.drvPath
      (some call.build) none
    exact hstart.createGraph
  | attach hcall hpc => exact .attach hcall hpc
  | @startInput k call step drvPath todo calls hcall hpc hlength =>
    obtain ⟨pc, hstart⟩ := c.started_startStep call.pass call.build
      (k :: call.callers) drvPath none (some step)
    exact hstart.createGraph
  | setDrv hcall hpc => exact .setDrv _ _
  | cachedFailure hcall hpc hcached => exact .setPreviousFailure _
  | decide finished hcall hpc =>
    rw [CreateState.decideStep_graph]
    split_ifs
    · exact .setFinished _
    · exact .same
  | @takeInput k k' call child step drvPath todo calls r hcall hpc hchild hresult =>
    rcases (c.takeStepCall k').takeInput_graph k call step todo calls r with
      hg | ⟨dep, hg⟩
    · rw [hg]
      exact .same
    · rw [hg]
      exact .addDep step dep
  | finish hcall hpc =>
    rw [CreateState.finishStep_graph]
    exact .setCreated _
  | _ => exact .same

end QueueRunner
