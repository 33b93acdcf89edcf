import QueueRunner.Invariant
import QueueRunner.Lib.Measure

/-!
# The pool of calls

A pass, the calls of `create_build` and the calls of `create_step` wait
for each other: a pass for the build it is at, a build for its top-level
step and then for the builds of its new steps, a step for the steps of its
inputs.  `PoolStep` says what a step of one call does to the calls, without
the graph.

`Awaiting` says that every call that is waited for is there, was started
after the one that waits, and is waited for once.  So a pass is never
stuck: in `progresses` some call that it waits for can go on, whatever the
stores and the database answer.
-/

namespace QueueRunner

/-! ## The steps of the calls -/

/-- `create_build` goes on without another call. -/
inductive BuildPc.Moves : BuildPc → BuildPc → Prop where
  /-- The build of a new step was taken. -/
  | skip (step : Option StepRef) (id : BuildID) (todo : List BuildID) (calls : List CallId) :
      Moves (.nested step (id :: todo) calls) (.nested step todo calls)
  | abort : Moves .validPath .abort
  | cached : Moves (.nested none [] []) .cached
  | attach (step : StepRef) : Moves (.nested (some step) [] []) .returned
  | finish {pc : BuildPc} (h : pc = .validPath ∨ pc = .abort ∨ pc = .previousFailure ∨
      pc = .cached) : Moves pc .returned

/-- `create_step` for a derivation path goes on without another call. -/
inductive StepPc.Moves (cfg : Config) (drvPath : StorePath) : StepPc → StepPc → Prop where
  | readDrv (s : StepRef) : Moves cfg drvPath (.queryDrv s) (.queryOutputs s (cfg.drvOf drvPath))
  | unreadable (s : StepRef) : Moves cfg drvPath (.queryDrv s) (.returned .none)
  | setDrv (s : StepRef) (drv : Derivation) (missing : List DerivationOutput) :
      Moves cfg drvPath (.queryOutputs s drv) (.checkCached s drv missing)
  | substitute (s : StepRef) (drv : Derivation) (missing : List DerivationOutput) :
      Moves cfg drvPath (.checkCached s drv missing) (.substitute s drv missing)
  | found {pc : StepPc} {s : StepRef} {drv : Derivation} {missing : List DerivationOutput}
      (r : CreateStepResult)
      (h : pc = .checkCached s drv missing ∨ pc = .substitute s drv missing) :
      Moves cfg drvPath pc (.returned r)
  | inputs {pc : StepPc} {s : StepRef} {drv : Derivation} {missing : List DerivationOutput}
      (h : pc = .checkCached s drv missing ∨ pc = .substitute s drv missing) :
      Moves cfg drvPath pc (.inputs s drv.inputDrvs [])
  | finish (s : StepRef) (r : CreateStepResult) : Moves cfg drvPath (.inputs s [] []) (.returned r)

/-- The pass is at the same place. -/
def Pass.SamePlace (p p' : Pass) : Prop :=
  p'.byId = p.byId ∧ p'.todo = p.todo ∧ p'.waiting = p.waiting

/-- The call of `create_build` is at the same place. -/
def BuildCall.SamePlace (call call' : BuildCall) : Prop :=
  call'.pass = call.pass ∧ call'.build = call.build ∧ call'.pc = call.pc

/-- What a step of one call does to the calls. -/
inductive PoolStep (cfg : Config) (ans : Answer) (c : Creation) :
    CreateAction → Creation → Prop where
  | startPass (rows : List (BuildID × StorePath)) (pass : Pass)
      (htodo : pass.todo = rows.map Prod.fst) (hwaiting : pass.waiting = none)
      (hbuild : ∀ id b, pass.byId.lookup id = some b → b.id = id)
      (hbyId : ∀ id ∈ rows.map Prod.fst, ∃ b, pass.byId.lookup id = some b) :
      PoolStep cfg ans c (.startPass rows)
        { c with passes := c.passes.insert c.fresh pass, fresh := c.fresh + 1 }
  | skipBuild {k : CallId} {pass : Pass} {id : BuildID} {todo : List BuildID}
      (hpass : c.passes.lookup k = some pass) (htodo : pass.todo = id :: todo)
      (hwaiting : pass.waiting = none) (hid : pass.byId.lookup id = none) :
      PoolStep cfg ans c (.resumePass k)
        { c with passes := c.passes.insert k { pass with todo := todo, newRunnable := [] } }
  | nextBuild {k : CallId} {pass : Pass} {id : BuildID} {todo : List BuildID} {b : BuildRef}
      (hpass : c.passes.lookup k = some pass) (htodo : pass.todo = id :: todo)
      (hwaiting : pass.waiting = none) (hid : pass.byId.lookup id = some b) :
      PoolStep cfg ans c (.resumePass k)
        { c with
          passes := c.passes.insert k { pass with
            todo := todo, newRunnable := [], byId := pass.byId.erase id
            waiting := some c.fresh }
          builds := c.builds.insert c.fresh { pass := k, build := b }
          fresh := c.fresh + 1 }
  | endBuild {k k' : CallId} {pass : Pass} {call : BuildCall} (todo : List BuildID)
      (hpass : c.passes.lookup k = some pass) (hwaiting : pass.waiting = some k')
      (hcall : c.builds.lookup k' = some call) (hpc : call.pc = .returned)
      (htodo : todo = if ans.stop then [] else pass.todo) :
      PoolStep cfg ans c (.resumePass k)
        { c with
          passes := c.passes.insert k { pass with waiting := none, todo := todo }
          builds := c.builds.erase k' }
  | endPass {k : CallId} {pass : Pass} (hpass : c.passes.lookup k = some pass)
      (hwaiting : pass.waiting = none) (htodo : pass.todo = []) :
      PoolStep cfg ans c (.resumePass k) { c with passes := c.passes.erase k }
  | startNested {k : CallId} {call : BuildCall} {step : Option StepRef} {id : BuildID}
      {todo : List BuildID} {calls : List CallId} {pass : Pass} {b : BuildRef}
      (hcall : c.builds.lookup k = some call) (hpc : call.pc = .nested step (id :: todo) calls)
      (hpass : c.passes.lookup call.pass = some pass) (hid : pass.byId.lookup id = some b) :
      PoolStep cfg ans c (.startNested k)
        { c with
          passes := c.passes.insert call.pass { pass with byId := pass.byId.erase id }
          builds := (c.builds.insert c.fresh { pass := call.pass, build := b }).insert k
            { call with pc := .nested step todo (calls ++ [c.fresh]) }
          fresh := c.fresh + 1 }
  | moveBuild {a : CreateAction} {k : CallId} {call : BuildCall} {pc : BuildPc}
      (ha : a = .startNested k ∨ a = .resumeBuild k)
      (hcall : c.builds.lookup k = some call) (hmove : call.pc.Moves pc) :
      PoolStep cfg ans c a { c with builds := c.builds.insert k { call with pc := pc } }
  | startToplevel {k : CallId} {call : BuildCall} {pc : StepPc}
      (hcall : c.builds.lookup k = some call) (hpc : call.pc = .validPath)
      (hstart : (∃ s, pc = .queryDrv s) ∨ ∃ r, pc = .returned r) :
      PoolStep cfg ans c (.resumeBuild k)
        { c with
          builds := c.builds.insert k { call with pc := .step c.fresh }
          steps := c.steps.insert c.fresh
            ⟨call.pass, k, [], call.build.drvPath, some call.build, none, pc⟩
          fresh := c.fresh + 1 }
  | takeToplevel {k k' : CallId} {call : BuildCall} {child : StepCall} {pc : BuildPc}
      (hcall : c.builds.lookup k = some call) (hpc : call.pc = .step k')
      (hchild : c.steps.lookup k' = some child)
      (hmove : pc = .returned ∨ pc = .previousFailure ∨ ∃ step ids, pc = .nested step ids []) :
      PoolStep cfg ans c (.resumeBuild k)
        { c with
          builds := c.builds.insert k { call with pc := pc }
          steps := c.steps.erase k' }
  | takeNested {k k' : CallId} {call child : BuildCall} {step : Option StepRef}
      {todo : List BuildID} {calls : List CallId} (hcall : c.builds.lookup k = some call)
      (hpc : call.pc = .nested step todo (k' :: calls))
      (hchild : c.builds.lookup k' = some child) (hresult : child.pc = .returned) :
      PoolStep cfg ans c (.resumeBuild k)
        { c with
          builds := (c.builds.erase k').insert k { call with pc := .nested step todo calls } }
  | startInput {k : CallId} {call : StepCall} {step : StepRef} {drvPath : StorePath}
      {todo : List StorePath} {calls : List (StorePath × CallId)} {pc : StepPc}
      (hcall : c.steps.lookup k = some call)
      (hpc : call.pc = .inputs step (drvPath :: todo) calls)
      (hstart : (∃ s, pc = .queryDrv s) ∨ ∃ r, pc = .returned r) :
      PoolStep cfg ans c (.startInput k)
        { c with
          steps := (c.steps.insert c.fresh ⟨call.pass, call.build, k :: call.callers, drvPath,
            none, some step, pc⟩).insert k
            { call with pc := .inputs step todo (calls ++ [(drvPath, c.fresh)]) }
          fresh := c.fresh + 1 }
  | moveStep {k : CallId} {call : StepCall} {pc : StepPc} {passes : Map CallId Pass}
      {builds : Map CallId BuildCall} (hcall : c.steps.lookup k = some call)
      (hmove : call.pc.Moves cfg call.drvPath pc)
      (hpasses : Map.Touches Pass.SamePlace c.passes passes)
      (hbuilds : Map.Touches BuildCall.SamePlace c.builds builds) :
      PoolStep cfg ans c (.resumeStep k)
        { c with
          passes := passes
          builds := builds
          steps := c.steps.insert k { call with pc := pc } }
  | takeInput {k k' : CallId} {call child : StepCall} {step : StepRef} {drvPath : StorePath}
      {todo : List StorePath} {calls : List (StorePath × CallId)}
      (hcall : c.steps.lookup k = some call)
      (hpc : call.pc = .inputs step todo ((drvPath, k') :: calls))
      (hchild : c.steps.lookup k' = some child) (hne : k ≠ k') :
      PoolStep cfg ans c (.resumeStep k)
        { c with steps := (c.steps.erase k').insert k { call with pc := .inputs step todo calls } }
  /-- An input has failed before, and the calls for the others are
  dropped. -/
  | dropInputs {k k' : CallId} {call child : StepCall} {step : StepRef} {drvPath : StorePath}
      {todo : List StorePath} {calls : List (StorePath × CallId)} (r : CreateStepResult)
      (hcall : c.steps.lookup k = some call)
      (hpc : call.pc = .inputs step todo ((drvPath, k') :: calls))
      (hchild : c.steps.lookup k' = some child) (hne : k ≠ k') :
      PoolStep cfg ans c (.resumeStep k)
        { c with
          steps := (Map.retain (fun _ call => !call.callers.contains k)
            (c.steps.erase k')).insert k { call with pc := .returned r } }

/-- The pass that `get_queued_builds` makes of its rows. -/
theorem CreateState.loadBuilds_pass (rows : List (BuildID × StorePath)) (acc : Graph × Pass)
    (hbuild : ∀ id b, acc.2.byId.lookup id = some b → b.id = id) :
    (rows.foldl loadBuild acc).2.todo = acc.2.todo ++ rows.map Prod.fst ∧
      (rows.foldl loadBuild acc).2.waiting = acc.2.waiting ∧
      (∀ id b, (rows.foldl loadBuild acc).2.byId.lookup id = some b → b.id = id) ∧
      ∀ id, (∃ b, acc.2.byId.lookup id = some b) ∨ id ∈ rows.map Prod.fst →
        ∃ b, (rows.foldl loadBuild acc).2.byId.lookup id = some b := by
  induction rows generalizing acc with
  | nil => exact ⟨by simp, rfl, hbuild, fun id h => h.resolve_right (by simp)⟩
  | cons row rows ih =>
    have hlookup : ∀ id, (loadBuild acc row).2.byId.lookup id =
        if id = row.1 then some ⟨row.1, row.2, acc.1.fresh⟩ else acc.2.byId.lookup id :=
      fun id => Map.lookup_insert_eq _ _ _ _
    obtain ⟨htodo, hwaiting, hbuilds, hbyId⟩ := ih (loadBuild acc row) (fun id b hb => by
      rw [hlookup] at hb
      split_ifs at hb with he
      · cases hb
        exact he.symm
      · exact hbuild id b hb)
    refine ⟨?_, hwaiting, hbuilds, fun id hid => hbyId id ?_⟩
    · rw [List.foldl_cons, htodo]
      simp [loadBuild]
    · rw [hlookup]
      rcases hid with ⟨b, hb⟩ | hid
      · refine Or.inl ?_
        split_ifs
        · exact ⟨_, rfl⟩
        · exact ⟨b, hb⟩
      · rw [List.map_cons, List.mem_cons] at hid
        rcases hid with rfl | hid
        · exact Or.inl ⟨_, if_pos rfl⟩
        · exact Or.inr hid

/-- The place where a call of `create_step` starts. -/
theorem CreateState.Started.place {c c' : CreateState} {pass build : CallId}
    {callers : List CallId} {drvPath : StorePath} {rb : Option BuildRef} {rs : Option StepRef}
    {pc : StepPc} (h : Started c pass build callers drvPath rb rs c' pc) :
    (∃ s, pc = .queryDrv s) ∨ ∃ r, pc = .returned r := by
  rcases h.result with ⟨hpc, -, -⟩ | ⟨s, isNew, -, hpc⟩
  · exact Or.inr ⟨_, hpc⟩
  · cases isNew with
    | true => exact Or.inl ⟨s, hpc⟩
    | false => exact Or.inr ⟨_, hpc⟩

theorem CreateState.touches_insertFinishedDrv (c : CreateState) (k : CallId)
    (drvPath : StorePath) :
    Map.Touches Pass.SamePlace c.creation.passes
      (c.insertFinishedDrv k drvPath).creation.passes := by
  unfold insertFinishedDrv
  split
  · rename_i p hp
    exact .insert hp ⟨rfl, rfl, rfl⟩
  · exact .refl

theorem CreateState.touches_insertNewRunnable (c : CreateState) (k : CallId) (s : StepRef) :
    Map.Touches Pass.SamePlace c.creation.passes
      (c.insertNewRunnable k s).creation.passes := by
  unfold insertNewRunnable
  split
  · rename_i p hp
    exact .insert hp ⟨rfl, rfl, rfl⟩
  · exact .refl

theorem CreateState.touches_insertNewStep (c : CreateState) (k : CallId) (s : StepRef) :
    Map.Touches BuildCall.SamePlace c.creation.builds
      (c.insertNewStep k s).creation.builds := by
  unfold insertNewStep
  split
  · rename_i b hb
    exact .insert hb ⟨rfl, rfl, rfl⟩
  · exact .refl

/-- Every step of the creation. -/
theorem CreateStep.poolStep {cfg : Config} {c c' : CreateState} {ans : Answer}
    {a : CreateAction} (h : CreateStep cfg c ans a c') :
    PoolStep cfg ans c.creation a c'.creation := by
  -- a call of `create_step` that only moves itself
  have hmoves : ∀ {k : CallId} {call : StepCall} {pc : StepPc} {c' : CreateState},
      c.creation.steps.lookup k = some call → call.pc.Moves cfg call.drvPath pc →
      c'.creation = { c.creation with
        steps := c.creation.steps.insert k { call with pc := pc } } →
      PoolStep cfg ans c.creation (.resumeStep k) c'.creation := by
    intro k call pc c' hcall hmove hc'
    rw [hc']
    exact .moveStep hcall hmove .refl .refl
  cases h with
  | startPass rows =>
    obtain ⟨htodo, hwaiting, hbuild, hbyId⟩ :=
      CreateState.loadBuilds_pass rows (c.graph, ⟨∅, ∅, [], [], [], none⟩) (by simp)
    exact .startPass rows _ htodo hwaiting hbuild fun id hid => hbyId id (Or.inr hid)
  | skipBuild hpass htodo hwaiting hid => exact .skipBuild hpass htodo hwaiting hid
  | nextBuild hpass htodo hwaiting hid => exact .nextBuild hpass htodo hwaiting hid
  | makeRunnable now todo hpass hwaiting hcall hpc htodo =>
    exact .endBuild todo hpass hwaiting hcall hpc htodo
  | sweep now order hpass hwaiting htodo horder => exact .endPass hpass hwaiting htodo
  | startNested hcall hpc hlength hpass hid => exact .startNested hcall hpc hpass hid
  | moveBuild ha hcall hmove =>
    refine .moveBuild ha hcall ?_
    rcases hmove with ⟨step, id, todo, calls, hpc, rfl⟩ | ⟨hpc, rfl⟩ | ⟨hpc, rfl⟩ | ⟨hpc, rfl⟩
    · rw [hpc]
      exact .skip step id todo calls
    · rw [hpc]
      exact .abort
    · rw [hpc]
      exact .cached
    · exact .finish (Or.inr (Or.inr hpc))
  | finishInDb hcall hpc => exact .moveBuild (Or.inr rfl) hcall (.finish hpc)
  | @startToplevel k call hcall hpc =>
    obtain ⟨pc, hstart⟩ := c.started_startStep call.pass k [] call.build.drvPath
      (some call.build) none
    have hpool : PoolStep cfg ans c.creation _ _ := .startToplevel hcall hpc hstart.place
    rw [← hstart.steps, ← hstart.fresh, ← hstart.builds] at hpool
    convert hpool using 1
    simp [CreateState.setBuildCall, hstart.passes]
  | takeToplevel r hcall hpc hchild hresult hmove =>
    refine .takeToplevel hcall hpc hchild ?_
    rcases hmove with ⟨s, -, hpc | hpc⟩ | ⟨ids, -, hpc⟩ | ⟨s, ids, -, hpc⟩
    · exact Or.inl hpc
    · exact Or.inr (Or.inl hpc)
    · exact Or.inr (Or.inr ⟨_, _, hpc⟩)
    · exact Or.inr (Or.inr ⟨_, _, hpc⟩)
  | takeNested hcall hpc hchild hresult => exact .takeNested hcall hpc hchild hresult
  | @attach k call step hcall hpc =>
    refine .moveBuild (Or.inr rfl) hcall ?_
    rw [hpc]
    exact .attach step
  | @startInput k call step drvPath todo calls hcall hpc hlength =>
    obtain ⟨pc, hstart⟩ := c.started_startStep call.pass call.build
      (k :: call.callers) drvPath none (some step)
    have hpool : PoolStep cfg ans c.creation _ _ := .startInput hcall hpc hstart.place
    rw [← hstart.steps, ← hstart.fresh] at hpool
    convert hpool using 1
    simp [CreateState.setStepCall, hstart.passes, hstart.builds]
  | readDrv hcall hpc hok =>
    refine hmoves hcall ?_ rfl
    rw [hpc]
    exact .readDrv _
  | unreadable hcall hpc hok =>
    refine hmoves hcall ?_ rfl
    rw [hpc]
    exact .unreadable _
  | setDrv hcall hpc =>
    refine hmoves hcall ?_ rfl
    rw [hpc]
    exact .setDrv _ _ _
  | cachedFailure hcall hpc hcached => exact hmoves hcall (.found _ (Or.inl hpc)) rfl
  | substitute hcall hpc =>
    refine hmoves hcall ?_ rfl
    rw [hpc]
    exact .substitute _ _ _
  | @decide k call step drv missing finished hcall hpc =>
    have hplace : call.pc = .checkCached step drv missing ∨
        call.pc = .substitute step drv missing :=
      hpc.imp And.left And.left
    cases finished with
    | false => exact hmoves hcall (.inputs hplace) rfl
    | true =>
      have hpool : PoolStep cfg ans c.creation _ _ := .moveStep hcall (.found .none hplace)
        (c.touches_insertFinishedDrv call.pass call.drvPath) .refl
      obtain ⟨-, -, hsteps, hbuilds, hfresh⟩ := c.insertFinishedDrv_frame call.pass call.drvPath
      convert hpool using 1
      simp [CreateState.decideStep, CreateState.returnStep, CreateState.setStepCall, hsteps,
        hbuilds, hfresh]
  | @takeInput k k' call child step drvPath todo calls r hcall hpc hchild hresult =>
    have hne := CreateState.ne_of_inputs hcall hpc hchild hresult
    unfold CreateState.takeInput
    cases r with
    | none => exact .takeInput hcall hpc hchild hne
    | valid dep =>
      simp only
      split_ifs <;> exact .takeInput hcall hpc hchild hne
    | previousFailure failed => exact .dropInputs _ hcall hpc hchild hne
  | @finish k call step hcall hpc =>
    have hmove : call.pc.Moves cfg call.drvPath (.returned (.valid step)) := by
      rw [hpc]
      exact .finish _ _
    unfold CreateState.finishStep
    simp only
    split_ifs
    · have hnew := CreateState.touches_insertNewRunnable
        { c with graph := c.graph.setCreated step } call.pass step
      obtain ⟨-, -, hsteps, hbuilds, hfresh⟩ := CreateState.insertNewRunnable_frame
        { c with graph := c.graph.setCreated step } call.pass step
      have hpool : PoolStep cfg ans c.creation _ _ := .moveStep hcall hmove hnew
        (hbuilds ▸ CreateState.touches_insertNewStep _ call.build step)
      obtain ⟨-, -, hsteps', hpasses', hfresh'⟩ := CreateState.insertNewStep_frame
        (CreateState.insertNewRunnable { c with graph := c.graph.setCreated step } call.pass step)
        call.build step
      convert hpool using 1
      simp [CreateState.returnStep, CreateState.setStepCall, hsteps, hfresh, hsteps', hpasses',
        hfresh']
    · have hpool : PoolStep cfg ans c.creation _ _ := .moveStep hcall hmove .refl
        (CreateState.touches_insertNewStep { c with graph := c.graph.setCreated step } call.build
          step)
      obtain ⟨-, -, hsteps', hpasses', hfresh'⟩ := CreateState.insertNewStep_frame
        { c with graph := c.graph.setCreated step } call.build step
      convert hpool using 1
      simp [CreateState.returnStep, CreateState.setStepCall, hsteps', hpasses', hfresh']

/-! ## The calls that are waited for -/

/-- The calls of `create_build` that a call waits for. -/
def BuildPc.calls : BuildPc → List CallId
  | .nested _ _ calls => calls
  | _ => []

/-- The calls of `create_step` that a call waits for. -/
def StepPc.calls : StepPc → List CallId
  | .inputs _ _ calls => calls.map Prod.snd
  | _ => []

theorem StepPc.Moves.calls_eq {cfg : Config} {drvPath : StorePath} {pc pc' : StepPc}
    (h : pc.Moves cfg drvPath pc') : pc'.calls = [] := by
  cases h <;> rfl

/-- The calls of `create_build` that a pass or another one waits for. -/
structure BuildsAwaited (passes : Map CallId Pass) (builds : Map CallId BuildCall)
    (fresh : CallId) : Prop where
  passBound : ∀ k p, passes.lookup k = some p → k < fresh
  bound : ∀ k call, builds.lookup k = some call → k < fresh
  waiting : ∀ k p z, passes.lookup k = some p → p.waiting = some z →
    ∃ call, builds.lookup z = some call ∧ call.pass = k
  nested : ∀ k call z, builds.lookup k = some call → z ∈ call.pc.calls →
    k < z ∧ ∃ child, builds.lookup z = some child ∧ child.pass = call.pass
  nodup : ∀ k call, builds.lookup k = some call → call.pc.calls.Nodup
  notBoth : ∀ k p k' call z, passes.lookup k = some p → p.waiting = some z →
    builds.lookup k' = some call → z ∉ call.pc.calls
  once : ∀ k call k' call' z, builds.lookup k = some call → builds.lookup k' = some call' →
    z ∈ call.pc.calls → z ∈ call'.pc.calls → k = k'

namespace BuildsAwaited

variable {passes passes' : Map CallId Pass} {builds builds' : Map CallId BuildCall}
  {fresh fresh' : CallId}

theorem init : BuildsAwaited ∅ ∅ 0 := by
  constructor <;> simp

/-- The calls wait for no more than they did, and what they wait for is
still there. -/
theorem of_frame (h : BuildsAwaited passes builds fresh)
    (hpasses : ∀ k p', passes'.lookup k = some p' → ∃ p, passes.lookup k = some p ∧
      (p'.waiting = p.waiting ∨ p'.waiting = none))
    (hbuilds : ∀ k call', builds'.lookup k = some call' → ∃ call, builds.lookup k = some call ∧
      call'.pass = call.pass ∧ call'.pc.calls.Sublist call.pc.calls)
    (hgone : ∀ z call, builds.lookup z = some call → builds'.lookup z = none →
      (∀ k p', passes'.lookup k = some p' → p'.waiting ≠ some z) ∧
      ∀ k call', builds'.lookup k = some call' → z ∉ call'.pc.calls)
    (hfresh : fresh ≤ fresh') : BuildsAwaited passes' builds' fresh' := by
  have hwaiting : ∀ k p' z, passes'.lookup k = some p' → p'.waiting = some z →
      ∃ p, passes.lookup k = some p ∧ p.waiting = some z := by
    intro k p' z hp' hz
    obtain ⟨p, hp, hw | hw⟩ := hpasses k p' hp'
    · exact ⟨p, hp, hw ▸ hz⟩
    · rw [hw] at hz
      cases hz
  have hcalls : ∀ k call' z, builds'.lookup k = some call' → z ∈ call'.pc.calls →
      ∃ call, builds.lookup k = some call ∧ call'.pass = call.pass ∧ z ∈ call.pc.calls := by
    intro k call' z hcall' hz
    obtain ⟨call, hcall, hpass, hsub⟩ := hbuilds k call' hcall'
    exact ⟨call, hcall, hpass, hsub.subset hz⟩
  -- a call that is there, and is not gone
  have hthere : ∀ z child, builds.lookup z = some child → builds'.lookup z ≠ none →
      ∃ child', builds'.lookup z = some child' ∧ child'.pass = child.pass := by
    intro z child hchild hne
    obtain ⟨child', hchild'⟩ := Option.ne_none_iff_exists'.mp hne
    obtain ⟨child₀, hchild₀, hpass, -⟩ := hbuilds z child' hchild'
    rw [hchild, Option.some.injEq] at hchild₀
    exact ⟨child', hchild', hchild₀ ▸ hpass⟩
  refine
    { passBound := fun k p' hp' => ?_, bound := fun k call' hcall' => ?_
      waiting := fun k p' z hp' hz => ?_, nested := fun k call' z hcall' hz => ?_
      nodup := fun k call' hcall' => ?_
      notBoth := fun k p' k' call' z hp' hz hcall' hmem => ?_
      once := fun k call₁ k' call₂ z h₁ h₂ hz₁ hz₂ => ?_ }
  · obtain ⟨p, hp, -⟩ := hpasses k p' hp'
    exact lt_of_lt_of_le (h.passBound k p hp) hfresh
  · obtain ⟨call, hcall, -⟩ := hbuilds k call' hcall'
    exact lt_of_lt_of_le (h.bound k call hcall) hfresh
  · obtain ⟨p, hp, hw⟩ := hwaiting k p' z hp' hz
    obtain ⟨child, hchild, hpass⟩ := h.waiting k p z hp hw
    obtain ⟨child', hchild', hpass'⟩ := hthere z child hchild fun hnone =>
      (hgone z child hchild hnone).1 k p' hp' hz
    exact ⟨child', hchild', hpass'.trans hpass⟩
  · obtain ⟨call, hcall, hpass, hmem⟩ := hcalls k call' z hcall' hz
    obtain ⟨hlt, child, hchild, hchildPass⟩ := h.nested k call z hcall hmem
    obtain ⟨child', hchild', hpass'⟩ := hthere z child hchild fun hnone =>
      (hgone z child hchild hnone).2 k call' hcall' hz
    exact ⟨hlt, child', hchild', hpass'.trans (hchildPass.trans hpass.symm)⟩
  · obtain ⟨call, hcall, -, hsub⟩ := hbuilds k call' hcall'
    exact (h.nodup k call hcall).sublist hsub
  · obtain ⟨p, hp, hw⟩ := hwaiting k p' z hp' hz
    obtain ⟨call, hcall, -, hmem⟩ := hcalls k' call' z hcall' hmem
    exact h.notBoth k p k' call z hp hw hcall hmem
  · obtain ⟨c₁, hc₁, -, hm₁⟩ := hcalls k call₁ z h₁ hz₁
    obtain ⟨c₂, hc₂, -, hm₂⟩ := hcalls k' call₂ z h₂ hz₂
    exact h.once k c₁ k' c₂ z hc₁ hc₂ hm₁ hm₂

/-- No call is gone. -/
theorem of_frame_all (h : BuildsAwaited passes builds fresh)
    (hpasses : ∀ k p', passes'.lookup k = some p' → ∃ p, passes.lookup k = some p ∧
      (p'.waiting = p.waiting ∨ p'.waiting = none))
    (hbuilds : ∀ k call', builds'.lookup k = some call' → ∃ call, builds.lookup k = some call ∧
      call'.pass = call.pass ∧ call'.pc.calls.Sublist call.pc.calls)
    (hkeeps : ∀ z call, builds.lookup z = some call → builds'.lookup z ≠ none)
    (hfresh : fresh ≤ fresh') : BuildsAwaited passes' builds' fresh' :=
  h.of_frame hpasses hbuilds (fun z call hcall hnone => absurd hnone (hkeeps z call hcall)) hfresh

theorem mono (h : BuildsAwaited passes builds fresh) (hfresh : fresh ≤ fresh') :
    BuildsAwaited passes builds fresh' :=
  h.of_frame_all (fun _ p hp => ⟨p, hp, Or.inl rfl⟩)
    (fun _ call hcall => ⟨call, hcall, rfl, .refl _⟩) (fun _ _ hcall => by simp [hcall]) hfresh

/-- A pass is written back, and waits for no more. -/
theorem setPass (h : BuildsAwaited passes builds fresh) {k : CallId} {p p' : Pass}
    (hp : passes.lookup k = some p) (hw : p'.waiting = p.waiting ∨ p'.waiting = none) :
    BuildsAwaited (passes.insert k p') builds fresh := by
  refine h.of_frame_all (fun k' q hq => ?_) (fun _ call hcall => ⟨call, hcall, rfl, .refl _⟩)
    (fun _ _ hcall => by simp [hcall]) (le_refl _)
  rw [Map.lookup_insert_eq] at hq
  split_ifs at hq with he
  · cases hq
    exact ⟨p, he ▸ hp, hw⟩
  · exact ⟨q, hq, Or.inl rfl⟩

/-- A call is written back, and waits for no more. -/
theorem setBuild (h : BuildsAwaited passes builds fresh) {k : CallId} {call call' : BuildCall}
    (hcall : builds.lookup k = some call) (hpass : call'.pass = call.pass)
    (hsub : call'.pc.calls.Sublist call.pc.calls) :
    BuildsAwaited passes (builds.insert k call') fresh := by
  refine h.of_frame_all (fun _ p hp => ⟨p, hp, Or.inl rfl⟩) (fun k' q hq => ?_)
    (fun z child hchild => ?_) (le_refl _)
  · rw [Map.lookup_insert_eq] at hq
    split_ifs at hq with he
    · cases hq
      exact ⟨call, he ▸ hcall, hpass, hsub⟩
    · exact ⟨q, hq, rfl, .refl _⟩
  · rw [Map.lookup_insert_eq]
    split_ifs
    · simp
    · simp [hchild]

/-- A call goes away that nothing waits for. -/
theorem dropBuild (h : BuildsAwaited passes builds fresh) {z : CallId}
    (hpasses : ∀ k p, passes.lookup k = some p → p.waiting ≠ some z)
    (hbuilds : ∀ k call, builds.lookup k = some call → z ∉ call.pc.calls) :
    BuildsAwaited passes (builds.erase z) fresh := by
  have hold : ∀ k call, (builds.erase z).lookup k = some call → builds.lookup k = some call := by
    intro k call hk
    rw [Map.lookup_erase_eq] at hk
    split_ifs at hk
    exact hk
  refine h.of_frame (fun _ p hp => ⟨p, hp, Or.inl rfl⟩)
    (fun k call hk => ⟨call, hold k call hk, rfl, .refl _⟩) (fun z' child hchild hnone => ?_)
    (le_refl _)
  rw [Map.lookup_erase_eq] at hnone
  split_ifs at hnone with he
  · rw [he]
    exact ⟨hpasses, fun k call hk => hbuilds k call (hold k call hk)⟩
  · rw [hchild] at hnone
    cases hnone

/-- A new call, which nothing waits for yet. -/
theorem addBuild (h : BuildsAwaited passes builds fresh) (pass : CallId) (b : BuildRef) :
    BuildsAwaited passes (builds.insert fresh { pass := pass, build := b }) (fresh + 1) := by
  have hlookup : ∀ k call, (builds.insert fresh { pass := pass, build := b }).lookup k =
      some call → k < fresh + 1 ∧ ∀ z ∈ call.pc.calls, builds.lookup k = some call := by
    intro k call hk
    rw [Map.lookup_insert_eq] at hk
    split_ifs at hk with he
    · cases hk
      exact ⟨he ▸ Nat.lt_succ_self _, by simp [BuildPc.calls]⟩
    · exact ⟨Nat.lt_succ_of_lt (h.bound k call hk), fun _ _ => hk⟩
  have hold : ∀ z child, builds.lookup z = some child →
      (builds.insert fresh { pass := pass, build := b }).lookup z = some child := by
    intro z child hz
    rw [Map.lookup_insert_eq, if_neg (Nat.ne_of_lt (h.bound z child hz)), hz]
  refine
    { passBound := fun k p hp => Nat.lt_succ_of_lt (h.passBound k p hp)
      bound := fun k call hk => (hlookup k call hk).1
      waiting := fun k p z hp hz => ?_, nested := fun k call z hk hz => ?_
      nodup := fun k call hk => ?_
      notBoth := fun k p k' call z hp hz hk hmem => ?_
      once := fun k call₁ k' call₂ z h₁ h₂ hz₁ hz₂ => ?_ }
  · obtain ⟨child, hchild, hpass⟩ := h.waiting k p z hp hz
    exact ⟨child, hold z child hchild, hpass⟩
  · obtain ⟨hlt, child, hchild, hpass⟩ := h.nested k call z ((hlookup k call hk).2 z hz) hz
    exact ⟨hlt, child, hold z child hchild, hpass⟩
  · rw [Map.lookup_insert_eq] at hk
    split_ifs at hk
    · cases hk
      exact List.nodup_nil
    · exact h.nodup k call hk
  · exact h.notBoth k p k' call z hp hz ((hlookup k' call hk).2 z hmem) hmem
  · exact h.once k call₁ k' call₂ z ((hlookup k call₁ h₁).2 z hz₁) ((hlookup k' call₂ h₂).2 z hz₂)
      hz₁ hz₂

/-- A pass starts to wait for a call. -/
theorem passAwaits (h : BuildsAwaited passes builds fresh) {k z : CallId} {p p' : Pass}
    {child : BuildCall} (hp : passes.lookup k = some p) (hwaiting : p'.waiting = some z)
    (hchild : builds.lookup z = some child) (hpass : child.pass = k)
    (hfree : ∀ k call, builds.lookup k = some call → z ∉ call.pc.calls) :
    BuildsAwaited (passes.insert k p') builds fresh := by
  have hcases : ∀ k' q z', (passes.insert k p').lookup k' = some q → q.waiting = some z' →
      (k' = k ∧ z' = z) ∨ passes.lookup k' = some q := by
    intro k' q z' hq hz'
    rw [Map.lookup_insert_eq] at hq
    split_ifs at hq with he
    · cases hq
      rw [hwaiting] at hz'
      cases hz'
      exact Or.inl ⟨he, rfl⟩
    · exact Or.inr hq
  refine { h with passBound := fun k' q hq => ?_, waiting := fun k' q z' hq hz' => ?_
                  notBoth := fun k' q k'' call z' hq hz' hcall => ?_ }
  · rw [Map.lookup_insert_eq] at hq
    split_ifs at hq with he
    · exact he ▸ h.passBound k p hp
    · exact h.passBound k' q hq
  · rcases hcases k' q z' hq hz' with ⟨rfl, rfl⟩ | hq
    · exact ⟨child, hchild, hpass⟩
    · exact h.waiting k' q z' hq hz'
  · rcases hcases k' q z' hq hz' with ⟨-, rfl⟩ | hq
    · exact hfree k'' call hcall
    · exact h.notBoth k' q k'' call z' hq hz' hcall

/-- A call starts to wait for another one. -/
theorem buildAwaits (h : BuildsAwaited passes builds fresh) {k z : CallId}
    {call call' child : BuildCall} (hcall : builds.lookup k = some call)
    (hpass : call'.pass = call.pass) (hcalls : call'.pc.calls = call.pc.calls ++ [z])
    (hchild : builds.lookup z = some child) (hchildPass : child.pass = call.pass) (hlt : k < z)
    (hpasses : ∀ k p, passes.lookup k = some p → p.waiting ≠ some z)
    (hfree : ∀ k call, builds.lookup k = some call → z ∉ call.pc.calls) :
    BuildsAwaited passes (builds.insert k call') fresh := by
  have hthere : ∀ z' child', builds.lookup z' = some child' →
      ∃ child'', (builds.insert k call').lookup z' = some child'' ∧
        child''.pass = child'.pass := by
    intro z' child' hz'
    rw [Map.lookup_insert_eq]
    split_ifs with he
    · rw [he, hcall] at hz'
      cases hz'
      exact ⟨call', rfl, hpass⟩
    · exact ⟨child', hz', rfl⟩
  have hcases : ∀ k' q z', (builds.insert k call').lookup k' = some q → z' ∈ q.pc.calls →
      (k' = k ∧ z' = z ∧ q.pass = call.pass) ∨
        ∃ q₀, builds.lookup k' = some q₀ ∧ q.pass = q₀.pass ∧ z' ∈ q₀.pc.calls := by
    intro k' q z' hq hz'
    rw [Map.lookup_insert_eq] at hq
    split_ifs at hq with he
    · cases hq
      rw [hcalls, List.mem_append, List.mem_singleton] at hz'
      rcases hz' with hz' | hz'
      · exact Or.inr ⟨call, he ▸ hcall, hpass, hz'⟩
      · exact Or.inl ⟨he, hz', hpass⟩
    · exact Or.inr ⟨q, hq, rfl, hz'⟩
  refine
    { passBound := h.passBound, bound := fun k' q hq => ?_
      waiting := fun k' p z' hp hz' => ?_, nested := fun k' q z' hq hz' => ?_
      nodup := fun k' q hq => ?_
      notBoth := fun k' p k'' q z' hp hz' hq hmem => ?_
      once := fun k₁ q₁ k₂ q₂ z' h₁ h₂ hz₁ hz₂ => ?_ }
  · rw [Map.lookup_insert_eq] at hq
    split_ifs at hq with he
    · exact he ▸ h.bound k call hcall
    · exact h.bound k' q hq
  · obtain ⟨child', hchild', hpass'⟩ := h.waiting k' p z' hp hz'
    obtain ⟨child'', hchild'', hpass''⟩ := hthere z' child' hchild'
    exact ⟨child'', hchild'', hpass''.trans hpass'⟩
  · rcases hcases k' q z' hq hz' with ⟨rfl, rfl, hqpass⟩ | ⟨q₀, hq₀, hqpass, hmem⟩
    · obtain ⟨child', hchild', hpass'⟩ := hthere z' child hchild
      exact ⟨hlt, child', hchild', hpass'.trans (hchildPass.trans hqpass.symm)⟩
    · obtain ⟨hlt', child', hchild', hpass'⟩ := h.nested k' q₀ z' hq₀ hmem
      obtain ⟨child'', hchild'', hpass''⟩ := hthere z' child' hchild'
      exact ⟨hlt', child'', hchild'', hpass''.trans (hpass'.trans hqpass.symm)⟩
  · rw [Map.lookup_insert_eq] at hq
    split_ifs at hq
    · cases hq
      rw [hcalls]
      exact List.nodup_append.mpr ⟨h.nodup k call hcall, by simp,
        fun a ha b hb hab => hfree k call hcall (List.mem_singleton.mp hb ▸ hab ▸ ha)⟩
    · exact h.nodup k' q hq
  · rcases hcases k'' q z' hq hmem with ⟨-, rfl, -⟩ | ⟨q₀, hq₀, -, hmem₀⟩
    · exact hpasses k' p hp hz'
    · exact h.notBoth k' p k'' q₀ z' hp hz' hq₀ hmem₀
  · rcases hcases k₁ q₁ z' h₁ hz₁ with ⟨rfl, rfl, -⟩ | ⟨q, hq, -, hmem⟩ <;>
      rcases hcases k₂ q₂ z' h₂ hz₂ with ⟨rfl, he, -⟩ | ⟨q', hq', -, hmem'⟩
    · rfl
    · exact absurd hmem' (hfree k₂ q' hq')
    · exact absurd (he ▸ hmem) (hfree k₁ q hq)
    · exact h.once k₁ q k₂ q' z' hq hq' hmem hmem'

end BuildsAwaited

/-- The calls of `create_step` that a call of `create_build` or another one
waits for.  A call knows its callers, so no two calls wait for the same
one. -/
structure StepsAwaited (builds : Map CallId BuildCall) (steps : Map CallId StepCall)
    (fresh : CallId) : Prop where
  bound : ∀ k call, steps.lookup k = some call → k < fresh
  toplevel : ∀ k call z, builds.lookup k = some call → call.pc = .step z →
    ∃ child, steps.lookup z = some child ∧ child.pass = call.pass ∧ child.build = k ∧
      child.callers = []
  inputs : ∀ k call z, steps.lookup k = some call → z ∈ call.pc.calls →
    k < z ∧ ∃ child, steps.lookup z = some child ∧ child.pass = call.pass ∧
      child.callers = k :: call.callers
  nodup : ∀ k call, steps.lookup k = some call → call.pc.calls.Nodup
  callers : ∀ k call, steps.lookup k = some call → ∀ j ∈ call.callers, j < k

namespace StepsAwaited

variable {builds builds' : Map CallId BuildCall} {steps steps' : Map CallId StepCall}
  {fresh fresh' : CallId}

theorem init : StepsAwaited ∅ ∅ 0 := by
  constructor <;> simp

/-- The calls wait for no more than they did, and what they wait for is
still there. -/
theorem of_frame (h : StepsAwaited builds steps fresh)
    (hbuilds : ∀ k call' z, builds'.lookup k = some call' → call'.pc = .step z →
      ∃ call, builds.lookup k = some call ∧ call.pc = .step z ∧ call'.pass = call.pass)
    (hsteps : ∀ k call', steps'.lookup k = some call' → ∃ call, steps.lookup k = some call ∧
      call'.pass = call.pass ∧ call'.build = call.build ∧ call'.callers = call.callers ∧
      call'.pc.calls.Sublist call.pc.calls)
    (hgone : ∀ z child, steps.lookup z = some child → steps'.lookup z = none →
      (∀ k call', builds'.lookup k = some call' → call'.pc ≠ .step z) ∧
      ∀ k call', steps'.lookup k = some call' → z ∉ call'.pc.calls)
    (hfresh : fresh ≤ fresh') : StepsAwaited builds' steps' fresh' := by
  have hthere : ∀ z child, steps.lookup z = some child → steps'.lookup z ≠ none →
      ∃ child', steps'.lookup z = some child' ∧ child'.pass = child.pass ∧
        child'.build = child.build ∧ child'.callers = child.callers := by
    intro z child hchild hne
    obtain ⟨child', hchild'⟩ := Option.ne_none_iff_exists'.mp hne
    obtain ⟨child₀, hchild₀, hpass, hbuild, hcallers, -⟩ := hsteps z child' hchild'
    rw [hchild, Option.some.injEq] at hchild₀
    subst hchild₀
    exact ⟨child', hchild', hpass, hbuild, hcallers⟩
  refine
    { bound := fun k call' hcall' => ?_, toplevel := fun k call' z hcall' hz => ?_
      inputs := fun k call' z hcall' hz => ?_, nodup := fun k call' hcall' => ?_
      callers := fun k call' hcall' => ?_ }
  · obtain ⟨call, hcall, -⟩ := hsteps k call' hcall'
    exact lt_of_lt_of_le (h.bound k call hcall) hfresh
  · obtain ⟨call, hcall, hpc, hpass⟩ := hbuilds k call' z hcall' hz
    obtain ⟨child, hchild, hchildPass, hbuild, hcallers⟩ := h.toplevel k call z hcall hpc
    obtain ⟨child', hchild', hpass', hbuild', hcallers'⟩ := hthere z child hchild fun hnone =>
      (hgone z child hchild hnone).1 k call' hcall' hz
    exact ⟨child', hchild', hpass'.trans (hchildPass.trans hpass.symm), hbuild'.trans hbuild,
      hcallers'.trans hcallers⟩
  · obtain ⟨call, hcall, hpass, -, hcallers, hsub⟩ := hsteps k call' hcall'
    obtain ⟨hlt, child, hchild, hchildPass, hchildCallers⟩ := h.inputs k call z hcall
      (hsub.subset hz)
    obtain ⟨child', hchild', hpass', -, hcallers'⟩ := hthere z child hchild fun hnone =>
      (hgone z child hchild hnone).2 k call' hcall' hz
    refine ⟨hlt, child', hchild', hpass'.trans (hchildPass.trans hpass.symm), ?_⟩
    rw [hcallers', hchildCallers, hcallers]
  · obtain ⟨call, hcall, -, -, -, hsub⟩ := hsteps k call' hcall'
    exact (h.nodup k call hcall).sublist hsub
  · obtain ⟨call, hcall, -, -, hcallers, -⟩ := hsteps k call' hcall'
    rw [hcallers]
    exact h.callers k call hcall

/-- Only the calls of `create_build` change. -/
theorem of_builds (h : StepsAwaited builds steps fresh)
    (hbuilds : ∀ k call' z, builds'.lookup k = some call' → call'.pc = .step z →
      ∃ call, builds.lookup k = some call ∧ call.pc = .step z ∧ call'.pass = call.pass)
    (hfresh : fresh ≤ fresh') : StepsAwaited builds' steps fresh' :=
  h.of_frame hbuilds (fun _ call hcall => ⟨call, hcall, rfl, rfl, rfl, .refl _⟩)
    (fun z child hchild hnone => by rw [hchild] at hnone; cases hnone) hfresh

theorem mono (h : StepsAwaited builds steps fresh) (hfresh : fresh ≤ fresh') :
    StepsAwaited builds steps fresh' :=
  h.of_builds (fun _ call _ hcall hz => ⟨call, hcall, hz, rfl⟩) hfresh

/-- A call of `create_build` goes on to where it waits for no step. -/
theorem setBuild (h : StepsAwaited builds steps fresh) (k : CallId) {call : BuildCall}
    (hpc : ∀ z, call.pc ≠ .step z) : StepsAwaited (builds.insert k call) steps fresh := by
  refine h.of_builds (fun k' call' z hcall' hz => ?_) (le_refl _)
  rw [Map.lookup_insert_eq] at hcall'
  split_ifs at hcall'
  · cases hcall'
    exact absurd hz (hpc z)
  · exact ⟨call', hcall', hz, rfl⟩

theorem dropBuild (h : StepsAwaited builds steps fresh) (k : CallId) :
    StepsAwaited (builds.erase k) steps fresh := by
  refine h.of_builds (fun k' call' z hcall' hz => ?_) (le_refl _)
  rw [Map.lookup_erase_eq] at hcall'
  split_ifs at hcall'
  exact ⟨call', hcall', hz, rfl⟩

/-- A call is written back, and waits for no more. -/
theorem setStep (h : StepsAwaited builds steps fresh) {k : CallId} {call call' : StepCall}
    (hcall : steps.lookup k = some call) (hpass : call'.pass = call.pass)
    (hbuild : call'.build = call.build) (hcallers : call'.callers = call.callers)
    (hsub : call'.pc.calls.Sublist call.pc.calls) :
    StepsAwaited builds (steps.insert k call') fresh := by
  refine h.of_frame (fun _ call' z hcall' hz => ⟨call', hcall', hz, rfl⟩)
    (fun k' q hq => ?_) (fun z child hchild hnone => ?_) (le_refl _)
  · rw [Map.lookup_insert_eq] at hq
    split_ifs at hq with he
    · cases hq
      exact ⟨call, he ▸ hcall, hpass, hbuild, hcallers, hsub⟩
    · exact ⟨q, hq, rfl, rfl, rfl, .refl _⟩
  · rw [Map.lookup_insert_eq] at hnone
    split_ifs at hnone
    rw [hchild] at hnone
    cases hnone

/-- Calls go away that nothing waits for any more. -/
theorem dropSteps (h : StepsAwaited builds steps fresh)
    (hsteps : ∀ k call, steps'.lookup k = some call → steps.lookup k = some call)
    (hbuilds : ∀ z child k call, steps.lookup z = some child → steps'.lookup z = none →
      builds.lookup k = some call → call.pc ≠ .step z)
    (hinputs : ∀ z child k call, steps.lookup z = some child → steps'.lookup z = none →
      steps'.lookup k = some call → z ∉ call.pc.calls) : StepsAwaited builds steps' fresh :=
  h.of_frame (fun _ call' _ hcall' hz => ⟨call', hcall', hz, rfl⟩)
    (fun k call hcall => ⟨call, hsteps k call hcall, rfl, rfl, rfl, .refl _⟩)
    (fun z child hchild hnone => ⟨fun k call => hbuilds z child k call hchild hnone,
      fun k call => hinputs z child k call hchild hnone⟩) (le_refl _)

/-- A new call, which nothing waits for yet. -/
theorem addStep (h : StepsAwaited builds steps fresh) {child : StepCall}
    (hcalls : child.pc.calls = []) (hcallers : ∀ j ∈ child.callers, j < fresh) :
    StepsAwaited builds (steps.insert fresh child) (fresh + 1) := by
  have hold : ∀ z child', steps.lookup z = some child' →
      (steps.insert fresh child).lookup z = some child' := by
    intro z child' hz
    rw [Map.lookup_insert_eq, if_neg (Nat.ne_of_lt (h.bound z child' hz)), hz]
  refine
    { bound := fun k call hk => ?_, toplevel := fun k call z hk hz => ?_
      inputs := fun k call z hk hz => ?_, nodup := fun k call hk => ?_
      callers := fun k call hk => ?_ }
  · rw [Map.lookup_insert_eq] at hk
    split_ifs at hk with he
    · exact he ▸ Nat.lt_succ_self _
    · exact Nat.lt_succ_of_lt (h.bound k call hk)
  · obtain ⟨child', hchild', hfacts⟩ := h.toplevel k call z hk hz
    exact ⟨child', hold z child' hchild', hfacts⟩
  · rw [Map.lookup_insert_eq] at hk
    split_ifs at hk
    · cases hk
      rw [hcalls] at hz
      cases hz
    · obtain ⟨hlt, child', hchild', hfacts⟩ := h.inputs k call z hk hz
      exact ⟨hlt, child', hold z child' hchild', hfacts⟩
  · rw [Map.lookup_insert_eq] at hk
    split_ifs at hk
    · cases hk
      rw [hcalls]
      exact List.nodup_nil
    · exact h.nodup k call hk
  · rw [Map.lookup_insert_eq] at hk
    split_ifs at hk with he
    · cases hk
      exact he ▸ hcallers
    · exact h.callers k call hk

/-- A call of `create_build` starts to wait for its step. -/
theorem buildAwaits (h : StepsAwaited builds steps fresh) {k z : CallId} {call : BuildCall}
    {child : StepCall} (hpc : call.pc = .step z) (hchild : steps.lookup z = some child)
    (hpass : child.pass = call.pass) (hbuild : child.build = k) (hcallers : child.callers = []) :
    StepsAwaited (builds.insert k call) steps fresh := by
  refine { h with toplevel := fun k' call' z' hk' hz' => ?_ }
  rw [Map.lookup_insert_eq] at hk'
  split_ifs at hk' with he
  · cases hk'
    rw [hpc] at hz'
    cases hz'
    exact ⟨child, hchild, hpass, he ▸ hbuild, hcallers⟩
  · exact h.toplevel k' call' z' hk' hz'

/-- A call starts to wait for the step of an input. -/
theorem stepAwaits (h : StepsAwaited builds steps fresh) {k z : CallId}
    {call call' child : StepCall} (hcall : steps.lookup k = some call)
    (hpass : call'.pass = call.pass) (hbuild : call'.build = call.build)
    (hcallers : call'.callers = call.callers) (hcalls : call'.pc.calls = call.pc.calls ++ [z])
    (hchild : steps.lookup z = some child) (hchildPass : child.pass = call.pass)
    (hchildCallers : child.callers = k :: call.callers) (hlt : k < z)
    (hfree : z ∉ call.pc.calls) : StepsAwaited builds (steps.insert k call') fresh := by
  have hthere : ∀ z' child', steps.lookup z' = some child' →
      ∃ child'', (steps.insert k call').lookup z' = some child'' ∧
        child''.pass = child'.pass ∧ child''.build = child'.build ∧
        child''.callers = child'.callers := by
    intro z' child' hz'
    rw [Map.lookup_insert_eq]
    split_ifs with he
    · rw [he, hcall] at hz'
      cases hz'
      exact ⟨call', rfl, hpass, hbuild, hcallers⟩
    · exact ⟨child', hz', rfl, rfl, rfl⟩
  refine
    { bound := fun k' q hq => ?_, toplevel := fun k' q z' hq hz' => ?_
      inputs := fun k' q z' hq hz' => ?_, nodup := fun k' q hq => ?_
      callers := fun k' q hq => ?_ }
  · rw [Map.lookup_insert_eq] at hq
    split_ifs at hq with he
    · exact he ▸ h.bound k call hcall
    · exact h.bound k' q hq
  · obtain ⟨child', hchild', hpass', hbuild', hcallers'⟩ := h.toplevel k' q z' hq hz'
    obtain ⟨child'', hchild'', hp, hb, hc⟩ := hthere z' child' hchild'
    exact ⟨child'', hchild'', hp.trans hpass', hb.trans hbuild', hc.trans hcallers'⟩
  · -- the call whose record waits for `z'`, before it was written back
    have hbefore : (k' = k ∧ z' = z) ∨ ∃ q₀, steps.lookup k' = some q₀ ∧ z' ∈ q₀.pc.calls := by
      rw [Map.lookup_insert_eq] at hq
      split_ifs at hq with he
      · cases hq
        rw [hcalls, List.mem_append, List.mem_singleton] at hz'
        exact hz'.elim (fun hmem => Or.inr ⟨call, he ▸ hcall, hmem⟩) fun hz => Or.inl ⟨he, hz⟩
      · exact Or.inr ⟨q, hq, hz'⟩
    have hsame : ∀ q₀, steps.lookup k' = some q₀ → q.pass = q₀.pass ∧ q.callers = q₀.callers := by
      intro q₀ hq₀
      obtain ⟨q', hq', hp, -, hc⟩ := hthere k' q₀ hq₀
      rw [hq, Option.some.injEq] at hq'
      exact hq' ▸ ⟨hp, hc⟩
    rcases hbefore with ⟨rfl, rfl⟩ | ⟨q₀, hq₀, hmem⟩
    · obtain ⟨hp, hc⟩ := hsame call hcall
      obtain ⟨child', hchild', hpass', -, hcallers'⟩ := hthere z' child hchild
      refine ⟨hlt, child', hchild', hpass'.trans (hchildPass.trans hp.symm), ?_⟩
      rw [hcallers', hchildCallers, hc]
    · obtain ⟨hp, hc⟩ := hsame q₀ hq₀
      obtain ⟨hlt', child', hchild', hpass', hcallers'⟩ := h.inputs k' q₀ z' hq₀ hmem
      obtain ⟨child'', hchild'', hpass'', -, hcallers''⟩ := hthere z' child' hchild'
      refine ⟨hlt', child'', hchild'', hpass''.trans (hpass'.trans hp.symm), ?_⟩
      rw [hcallers'', hcallers', hc]
  · rw [Map.lookup_insert_eq] at hq
    split_ifs at hq
    · cases hq
      rw [hcalls]
      exact List.nodup_append.mpr ⟨h.nodup k call hcall, by simp,
        fun a ha b hb hab => hfree (List.mem_singleton.mp hb ▸ hab ▸ ha)⟩
    · exact h.nodup k' q hq
  · rw [Map.lookup_insert_eq] at hq
    split_ifs at hq with he
    · cases hq
      rw [hcallers, he]
      exact h.callers k call hcall
    · exact h.callers k' q hq

end StepsAwaited

/-- What the passes and the calls wait for. -/
structure Awaiting (c : Creation) : Prop where
  builds : BuildsAwaited c.passes c.builds c.fresh
  steps : StepsAwaited c.builds c.steps c.fresh

namespace Awaiting

variable {cfg : Config} {ans : Answer} {c c' : Creation}

theorem init : Awaiting {} := ⟨.init, .init⟩

theorem startPass (h : Awaiting c) {pass : Pass} (hwaiting : pass.waiting = none) :
    Awaiting { c with passes := c.passes.insert c.fresh pass, fresh := c.fresh + 1 } := by
  have hold : ∀ k p z, (c.passes.insert c.fresh pass).lookup k = some p → p.waiting = some z →
      c.passes.lookup k = some p := by
    intro k p z hp hz
    rw [Map.lookup_insert_eq] at hp
    split_ifs at hp
    · cases hp
      rw [hwaiting] at hz
      cases hz
    · exact hp
  refine ⟨{ h.builds with
      passBound := fun k p hp => ?_
      bound := fun k call hcall => Nat.lt_succ_of_lt (h.builds.bound k call hcall)
      waiting := fun k p z hp hz => h.builds.waiting k p z (hold k p z hp hz) hz
      notBoth := fun k p k' call z hp hz => h.builds.notBoth k p k' call z (hold k p z hp hz) hz },
    h.steps.mono (Nat.le_succ _)⟩
  rw [Map.lookup_insert_eq] at hp
  split_ifs at hp with he
  · exact he ▸ Nat.lt_succ_self _
  · exact Nat.lt_succ_of_lt (h.builds.passBound k p hp)

/-- No call waits for one that does not exist yet. -/
theorem fresh_notMem (h : Awaiting c) {k : CallId} {call : BuildCall}
    (hcall : c.builds.lookup k = some call) : c.fresh ∉ call.pc.calls := by
  intro hmem
  obtain ⟨-, child, hchild, -⟩ := h.builds.nested k call c.fresh hcall hmem
  exact Nat.lt_irrefl _ (h.builds.bound c.fresh child hchild)

/-- The same for a new call, which waits for nothing. -/
theorem fresh_notMem_insert (h : Awaiting c) {k pass : CallId} {b : BuildRef} {call : BuildCall}
    (hcall : (c.builds.insert c.fresh { pass := pass, build := b }).lookup k = some call) :
    c.fresh ∉ call.pc.calls := by
  rw [Map.lookup_insert_eq] at hcall
  split_ifs at hcall
  · cases hcall
    exact List.not_mem_nil
  · exact h.fresh_notMem hcall

theorem nextBuild (h : Awaiting c) {k : CallId} {pass pass' : Pass} (b : BuildRef)
    (hpass : c.passes.lookup k = some pass) (hwaiting : pass'.waiting = some c.fresh) :
    Awaiting { c with
      passes := c.passes.insert k pass'
      builds := c.builds.insert c.fresh { pass := k, build := b }
      fresh := c.fresh + 1 } where
  builds := (h.builds.addBuild k b).passAwaits hpass hwaiting (AList.lookup_insert _) rfl
    fun _ _ => h.fresh_notMem_insert
  steps := (h.steps.setBuild c.fresh (by simp)).mono (Nat.le_succ _)

theorem startNested (h : Awaiting c) {k : CallId} {call : BuildCall} {step : Option StepRef}
    {id : BuildID} {todo : List BuildID} {calls : List CallId} {pass pass' : Pass} (b : BuildRef)
    (hcall : c.builds.lookup k = some call) (hpc : call.pc = .nested step (id :: todo) calls)
    (hpass : c.passes.lookup call.pass = some pass) (hwaiting : pass'.waiting = pass.waiting) :
    Awaiting { c with
      passes := c.passes.insert call.pass pass'
      builds := (c.builds.insert c.fresh { pass := call.pass, build := b }).insert k
        { call with pc := .nested step todo (calls ++ [c.fresh]) }
      fresh := c.fresh + 1 } where
  builds := by
    have hlt := h.builds.bound k call hcall
    have hk : (c.builds.insert c.fresh { pass := call.pass, build := b }).lookup k = some call := by
      rw [Map.lookup_insert_eq, if_neg (Nat.ne_of_lt hlt), hcall]
    refine ((h.builds.addBuild call.pass b).setPass hpass (Or.inl hwaiting)).buildAwaits hk rfl ?_
      (AList.lookup_insert _) rfl hlt (fun k' p hp hz => ?_) (fun _ _ => h.fresh_notMem_insert)
    · rw [hpc]
      rfl
    · have hold : ∃ p₀, c.passes.lookup k' = some p₀ ∧ p₀.waiting = some c.fresh := by
        rw [Map.lookup_insert_eq] at hp
        split_ifs at hp with he
        · cases hp
          exact ⟨pass, he ▸ hpass, hwaiting ▸ hz⟩
        · exact ⟨p, hp, hz⟩
      obtain ⟨p₀, hp₀, hz₀⟩ := hold
      obtain ⟨child, hchild, -⟩ := h.builds.waiting k' p₀ c.fresh hp₀ hz₀
      exact Nat.lt_irrefl _ (h.builds.bound c.fresh child hchild)
  steps := ((h.steps.setBuild c.fresh (by simp)).setBuild k (by simp)).mono (Nat.le_succ _)

theorem endBuild (h : Awaiting c) {k k' : CallId} {pass pass' : Pass}
    (hpass : c.passes.lookup k = some pass) (hwaiting : pass.waiting = some k')
    (hnone : pass'.waiting = none) :
    Awaiting { c with passes := c.passes.insert k pass', builds := c.builds.erase k' } where
  builds := by
    refine (h.builds.setPass hpass (Or.inr hnone)).dropBuild (fun j p hp hz => ?_)
      fun j call hcall => h.builds.notBoth k pass j call k' hpass hwaiting hcall
    -- another pass that waits for `k'` would be the pass of `k'`
    rw [Map.lookup_insert_eq] at hp
    split_ifs at hp with he
    · cases hp
      rw [hnone] at hz
      cases hz
    · obtain ⟨child, hchild, hj⟩ := h.builds.waiting j p k' hp hz
      obtain ⟨child', hchild', hk⟩ := h.builds.waiting k pass k' hpass hwaiting
      rw [hchild, Option.some.injEq] at hchild'
      exact he (hj.symm.trans (hchild' ▸ hk))
  steps := h.steps.dropBuild k'

theorem endPass (h : Awaiting c) (k : CallId) :
    Awaiting { c with passes := c.passes.erase k } := by
  refine ⟨h.builds.of_frame_all (fun k' p hp => ?_)
    (fun _ call hcall => ⟨call, hcall, rfl, .refl _⟩) (fun _ _ hcall => by simp [hcall])
    (le_refl _), h.steps⟩
  rw [Map.lookup_erase_eq] at hp
  split_ifs at hp
  exact ⟨p, hp, Or.inl rfl⟩

theorem moveBuild (h : Awaiting c) {k : CallId} {call : BuildCall} {pc : BuildPc}
    (hcall : c.builds.lookup k = some call) (hmove : call.pc.Moves pc) :
    Awaiting { c with builds := c.builds.insert k { call with pc := pc } } := by
  obtain ⟨pass, build, newSteps, pc₀⟩ := call
  refine ⟨h.builds.setBuild hcall rfl ?_, h.steps.setBuild k ?_⟩
  · cases hmove <;> first | exact .refl _ | exact List.nil_sublist _
  · cases hmove <;> simp

theorem startToplevel (h : Awaiting c) {k : CallId} {call : BuildCall} {child : StepCall}
    (hcall : c.builds.lookup k = some call) (hpass : child.pass = call.pass)
    (hbuild : child.build = k) (hcallers : child.callers = []) (hcalls : child.pc.calls = []) :
    Awaiting { c with
      builds := c.builds.insert k { call with pc := .step c.fresh }
      steps := c.steps.insert c.fresh child
      fresh := c.fresh + 1 } where
  builds := by
    have hset : BuildsAwaited c.passes (c.builds.insert k { call with pc := .step c.fresh })
        c.fresh := h.builds.setBuild hcall rfl (List.nil_sublist _)
    exact hset.mono (Nat.le_succ _)
  steps := (h.steps.addStep hcalls (by simp [hcallers])).buildAwaits rfl (AList.lookup_insert _)
    hpass hbuild hcallers

theorem takeToplevel (h : Awaiting c) {k k' : CallId} {call : BuildCall} {pc : BuildPc}
    (hcall : c.builds.lookup k = some call) (hpc : call.pc = .step k')
    (hmove : pc = .returned ∨ pc = .previousFailure ∨ ∃ step ids, pc = .nested step ids []) :
    Awaiting { c with
      builds := c.builds.insert k { call with pc := pc }, steps := c.steps.erase k' } := by
  have hcalls : pc.calls = [] := by
    rcases hmove with rfl | rfl | ⟨step, ids, rfl⟩ <;> rfl
  have hstep : ∀ z, pc ≠ .step z := by
    rcases hmove with rfl | rfl | ⟨step, ids, rfl⟩ <;> simp
  obtain ⟨child, hchild, -, hbuild, hcallers⟩ := h.steps.toplevel k call k' hcall hpc
  have hgone : ∀ z child', c.steps.lookup z = some child' → (c.steps.erase k').lookup z = none →
      z = k' := by
    intro z child' hz hnone
    rw [Map.lookup_erase_eq] at hnone
    split_ifs at hnone with he
    · exact he
    · rw [hz] at hnone
      cases hnone
  have hold : ∀ j call, (c.steps.erase k').lookup j = some call →
      c.steps.lookup j = some call := by
    intro j call hj
    rw [Map.lookup_erase_eq] at hj
    split_ifs at hj
    exact hj
  refine ⟨h.builds.setBuild hcall rfl ?_, (h.steps.setBuild k hstep).dropSteps hold
    (fun z child' j call' hz hnone hj hpc' => ?_) fun z child' j call' hz hnone hj hmem => ?_⟩
  · rw [hcalls]
    exact List.nil_sublist _
  · obtain rfl := hgone z child' hz hnone
    rw [Map.lookup_insert_eq] at hj
    split_ifs at hj with he
    · cases hj
      exact hstep z hpc'
    · obtain ⟨child₁, hchild₁, -, hbuild₁, -⟩ := h.steps.toplevel j call' z hj hpc'
      rw [hchild, Option.some.injEq] at hchild₁
      exact he (hbuild₁.symm.trans (hchild₁ ▸ hbuild))
  · obtain rfl := hgone z child' hz hnone
    obtain ⟨-, child₁, hchild₁, -, hcallers₁⟩ := h.steps.inputs j call' z (hold j call' hj) hmem
    rw [hchild, Option.some.injEq] at hchild₁
    rw [← hchild₁, hcallers] at hcallers₁
    cases hcallers₁

theorem takeNested (h : Awaiting c) {k k' : CallId} {call : BuildCall} {step : Option StepRef}
    {todo : List BuildID} {calls : List CallId} (hcall : c.builds.lookup k = some call)
    (hpc : call.pc = .nested step todo (k' :: calls)) :
    Awaiting { c with
      builds := (c.builds.erase k').insert k { call with pc := .nested step todo calls } } := by
  have hcalls : call.pc.calls = k' :: calls := by
    rw [hpc]
    rfl
  have hmem : k' ∈ call.pc.calls := hcalls ▸ List.mem_cons_self
  have hnodup := h.builds.nodup k call hcall
  rw [hcalls, List.nodup_cons] at hnodup
  have hbefore : ∀ j q, ((c.builds.erase k').insert k
      { call with pc := .nested step todo calls }).lookup j = some q →
      (j = k ∧ q = { call with pc := .nested step todo calls }) ∨
        j ≠ k ∧ c.builds.lookup j = some q := by
    intro j q hj
    rw [Map.lookup_insert_eq] at hj
    split_ifs at hj with he
    · cases hj
      exact Or.inl ⟨he, rfl⟩
    · rw [Map.lookup_erase_eq] at hj
      split_ifs at hj
      exact Or.inr ⟨he, hj⟩
  refine ⟨h.builds.of_frame (fun _ p hp => ⟨p, hp, Or.inl rfl⟩) (fun j q hj => ?_)
    (fun z child hz hnone => ?_) (le_refl _),
    (h.steps.dropBuild k').setBuild k (by simp)⟩
  · rcases hbefore j q hj with ⟨rfl, rfl⟩ | ⟨-, hj⟩
    · refine ⟨call, hcall, rfl, ?_⟩
      rw [hcalls]
      exact List.sublist_cons_self _ _
    · exact ⟨q, hj, rfl, .refl _⟩
  · have hz' : z = k' := by
      rw [Map.lookup_insert_eq] at hnone
      split_ifs at hnone
      rw [Map.lookup_erase_eq] at hnone
      split_ifs at hnone with he
      · exact he
      · rw [hz] at hnone
        cases hnone
    subst hz'
    refine ⟨fun j p hp hw => h.builds.notBoth j p k call z hp hw hcall hmem, fun j q hj hzq => ?_⟩
    rcases hbefore j q hj with ⟨-, rfl⟩ | ⟨hne, hj⟩
    · exact hnodup.1 hzq
    · exact hne (h.builds.once j q k call z hj hcall hzq hmem)

theorem startInput (h : Awaiting c) {k : CallId} {call child : StepCall} {step : StepRef}
    {drvPath : StorePath} {todo : List StorePath} {calls : List (StorePath × CallId)}
    (hcall : c.steps.lookup k = some call) (hpc : call.pc = .inputs step (drvPath :: todo) calls)
    (hpass : child.pass = call.pass) (hcallers : child.callers = k :: call.callers)
    (hcalls : child.pc.calls = []) :
    Awaiting { c with
      steps := (c.steps.insert c.fresh child).insert k
        { call with pc := .inputs step todo (calls ++ [(drvPath, c.fresh)]) }
      fresh := c.fresh + 1 } where
  builds := h.builds.mono (Nat.le_succ _)
  steps := by
    have hlt := h.steps.bound k call hcall
    have hk : (c.steps.insert c.fresh child).lookup k = some call := by
      rw [Map.lookup_insert_eq, if_neg (Nat.ne_of_lt hlt), hcall]
    have hbefore : ∀ j ∈ child.callers, j < c.fresh := by
      rw [hcallers]
      exact List.forall_mem_cons.mpr
        ⟨hlt, fun j hj => lt_trans (h.steps.callers k call hcall j hj) hlt⟩
    refine (h.steps.addStep hcalls hbefore).stepAwaits hk rfl rfl rfl ?_ (AList.lookup_insert _)
      hpass hcallers hlt fun hmem => ?_
    · rw [hpc]
      simp [StepPc.calls]
    · obtain ⟨-, child', hchild', -⟩ := h.steps.inputs k call c.fresh hcall hmem
      exact Nat.lt_irrefl _ (h.steps.bound c.fresh child' hchild')

theorem moveStep (h : Awaiting c) {k : CallId} {call : StepCall} {pc : StepPc}
    {passes : Map CallId Pass} {builds : Map CallId BuildCall}
    (hcall : c.steps.lookup k = some call) (hmove : call.pc.Moves cfg call.drvPath pc)
    (hpasses : Map.Touches Pass.SamePlace c.passes passes)
    (hbuilds : Map.Touches BuildCall.SamePlace c.builds builds) :
    Awaiting { c with
      passes := passes, builds := builds, steps := c.steps.insert k { call with pc := pc } } := by
  have hbuild : ∀ j q, builds.lookup j = some q → ∃ q₀, c.builds.lookup j = some q₀ ∧
      q.pass = q₀.pass ∧ q.pc = q₀.pc := by
    intro j q hq
    obtain ⟨q₀, hq₀, rfl | hsame⟩ := hbuilds.lookup hq
    · exact ⟨q, hq₀, rfl, rfl⟩
    · exact ⟨q₀, hq₀, hsame.1, hsame.2.2⟩
  have hcalls := hmove.calls_eq
  refine ⟨h.builds.of_frame_all (fun j p hp => ?_) (fun j q hq => ?_) (fun z child hz => ?_)
    (le_refl _), (h.steps.of_builds (fun j q z hq hz => ?_) (le_refl _)).setStep hcall rfl rfl rfl
      ?_⟩
  · obtain ⟨p₀, hp₀, rfl | hsame⟩ := hpasses.lookup hp
    · exact ⟨p, hp₀, Or.inl rfl⟩
    · exact ⟨p₀, hp₀, Or.inl hsame.2.2⟩
  · obtain ⟨q₀, hq₀, hpass, hpc⟩ := hbuild j q hq
    exact ⟨q₀, hq₀, hpass, hpc ▸ .refl _⟩
  · obtain ⟨child', hchild', -⟩ := hbuilds.exists_lookup hz
    simp [hchild']
  · obtain ⟨q₀, hq₀, hpass, hpc⟩ := hbuild j q hq
    exact ⟨q₀, hq₀, hpc ▸ hz, hpass⟩
  · rw [hcalls]
    exact List.nil_sublist _

/-- A call takes the result of its first input, and may drop others that
were started for it. -/
theorem takeInput (h : Awaiting c) {k k' : CallId} {call : StepCall} {step : StepRef}
    {drvPath : StorePath} {todo : List StorePath} {calls : List (StorePath × CallId)}
    {pc : StepPc} {steps : Map CallId StepCall} (hcall : c.steps.lookup k = some call)
    (hpc : call.pc = .inputs step todo ((drvPath, k') :: calls))
    (hself : steps.lookup k = some { call with pc := pc })
    (hold : ∀ j q, j ≠ k → steps.lookup j = some q → c.steps.lookup j = some q)
    (hgone : ∀ z child, c.steps.lookup z = some child → steps.lookup z = none → z = k' ∨
      k ∈ child.callers ∧ pc.calls = [] ∧
        ∀ j q, j ≠ k → steps.lookup j = some q → k ∉ q.callers)
    (hcalls : pc.calls.Sublist (calls.map Prod.snd)) : Awaiting { c with steps := steps } := by
  have hbefore : call.pc.calls = k' :: calls.map Prod.snd := by
    rw [hpc]
    rfl
  have hnodup := h.steps.nodup k call hcall
  rw [hbefore, List.nodup_cons] at hnodup
  obtain ⟨-, first, hfirst, -, hfirstCallers⟩ := h.steps.inputs k call k' hcall
    (hbefore ▸ List.mem_cons_self)
  -- what is gone is `k'`, or was started for `k`
  have hcaller : ∀ z child, c.steps.lookup z = some child → steps.lookup z = none →
      k ∈ child.callers := by
    intro z child hz hnone
    rcases hgone z child hz hnone with rfl | ⟨hk, -⟩
    · rw [hfirst, Option.some.injEq] at hz
      rw [← hz, hfirstCallers]
      exact List.mem_cons_self
    · exact hk
  refine ⟨h.builds, h.steps.of_frame (fun _ q z hq hz => ⟨q, hq, hz, rfl⟩) (fun j q hj => ?_)
    (fun z child hz hnone => ⟨fun j q hq hpc' => ?_, fun j q hj hmem => ?_⟩) (le_refl _)⟩
  · by_cases he : j = k
    · rw [he, hself, Option.some.injEq] at hj
      subst hj
      refine ⟨call, he ▸ hcall, rfl, rfl, rfl, ?_⟩
      rw [hbefore]
      exact hcalls.trans (List.sublist_cons_self _ _)
    · exact ⟨q, hold j q he hj, rfl, rfl, rfl, .refl _⟩
  · obtain ⟨child', hchild', -, -, hcallers⟩ := h.steps.toplevel j q z hq hpc'
    rw [hz, Option.some.injEq] at hchild'
    have hk := hcaller z child hz hnone
    rw [hchild', hcallers] at hk
    cases hk
  · by_cases he : j = k
    · rw [he, hself, Option.some.injEq] at hj
      rw [← hj] at hmem
      rcases hgone z child hz hnone with rfl | ⟨-, hnil, -⟩
      · exact hnodup.1 (hcalls.subset hmem)
      · rw [hnil] at hmem
        cases hmem
    · obtain ⟨-, child', hchild', -, hcallers⟩ := h.steps.inputs j q z (hold j q he hj) hmem
      rw [hz, Option.some.injEq] at hchild'
      rw [← hchild'] at hcallers
      rcases hgone z child hz hnone with rfl | ⟨hk, -, hkept⟩
      · rw [hfirst, Option.some.injEq] at hz
        rw [← hz, hfirstCallers, List.cons.injEq] at hcallers
        exact he hcallers.1.symm
      · rw [hcallers] at hk
        rcases List.mem_cons.mp hk with hk | hk
        · exact he hk.symm
        · exact hkept j q he hj hk

/-- Every step of the calls. -/
theorem step {a : CreateAction} (h : Awaiting c) (hs : PoolStep cfg ans c a c') :
    Awaiting c' := by
  have hstart : ∀ {pc : StepPc}, ((∃ s, pc = .queryDrv s) ∨ ∃ r, pc = .returned r) →
      pc.calls = [] := by
    rintro pc (⟨s, rfl⟩ | ⟨r, rfl⟩) <;> rfl
  cases hs with
  | startPass rows pass htodo hwaiting hbuild hbyId => exact h.startPass hwaiting
  | skipBuild hpass htodo hwaiting hid => exact ⟨h.builds.setPass hpass (Or.inl rfl), h.steps⟩
  | @nextBuild k pass id todo b hpass htodo hwaiting hid => exact h.nextBuild b hpass rfl
  | endBuild todo hpass hwaiting hcall hpc htodo => exact h.endBuild hpass hwaiting rfl
  | endPass hpass hwaiting htodo => exact h.endPass _
  | @startNested k call step id todo calls pass b hcall hpc hpass hid =>
    exact h.startNested b hcall hpc hpass rfl
  | moveBuild ha hcall hmove => exact h.moveBuild hcall hmove
  | startToplevel hcall hpc hpc' => exact h.startToplevel hcall rfl rfl rfl (hstart hpc')
  | takeToplevel hcall hpc hchild hmove => exact h.takeToplevel hcall hpc hmove
  | takeNested hcall hpc hchild hresult => exact h.takeNested hcall hpc
  | startInput hcall hpc hpc' => exact h.startInput hcall hpc rfl rfl (hstart hpc')
  | moveStep hcall hmove hpasses hbuilds => exact h.moveStep hcall hmove hpasses hbuilds
  | @takeInput k k' call child step drvPath todo calls hcall hpc hchild hne =>
    refine h.takeInput hcall hpc (AList.lookup_insert _) (fun j q hj hq => ?_)
      (fun z child hz hnone => Or.inl ?_) (.refl _)
    · rw [Map.lookup_insert_eq, if_neg hj, Map.lookup_erase_eq] at hq
      split_ifs at hq
      exact hq
    · rw [Map.lookup_insert_eq] at hnone
      split_ifs at hnone
      rw [Map.lookup_erase_eq] at hnone
      split_ifs at hnone with he
      · exact he
      · rw [hz] at hnone
        cases hnone
  | @dropInputs k k' call child step drvPath todo calls r hcall hpc hchild hne =>
    -- the calls that stay have no `k` among their callers
    have hkept : ∀ j q, j ≠ k → ((Map.retain (fun _ call => !call.callers.contains k)
        (c.steps.erase k')).insert k { call with pc := .returned r }).lookup j = some q →
        c.steps.lookup j = some q ∧ k ∉ q.callers := by
      intro j q hj hq
      rw [Map.lookup_insert_eq, if_neg hj, Map.lookup_retain, Option.filter_eq_some_iff,
        Map.lookup_erase_eq] at hq
      obtain ⟨hq, hcallers⟩ := hq
      split_ifs at hq
      exact ⟨hq, by simpa using hcallers⟩
    refine h.takeInput hcall hpc (AList.lookup_insert _) (fun j q hj hq => (hkept j q hj hq).1)
      (fun z child hz hnone => ?_) (List.nil_sublist _)
    by_cases hz' : z = k'
    · exact Or.inl hz'
    · refine Or.inr ⟨?_, rfl, fun j q hj hq => (hkept j q hj hq).2⟩
      rw [Map.lookup_insert_eq] at hnone
      split_ifs at hnone
      rw [Map.lookup_retain, Map.lookup_erase_eq, if_neg hz', hz] at hnone
      simpa [Option.filter] using hnone

end Awaiting

/-! ## Progress -/

/-- A step of the runner outside of the creation leaves the calls alone. -/
theorem RunnerStep.creation_eq {cfg : Config} {r r' : Runner} {a : Action}
    (h : RunnerStep cfg r a r') (ha : ∀ ca ans, a ≠ .create ca ans) :
    r'.creation = r.creation := by
  cases h with
  | dispatch hres => rfl
  | call ht hres => rfl
  | completeBuild uuid machineId state report => exact r.spawn_creation _
  | endStream hm => exact Runner.spawn_creation _ _
  | queueChange curIds => exact r.spawn_creation _
  | insertMachine id record sortFn => rfl
  | create hnext => exact absurd rfl (ha _ _)
  | dropStep hheld => rfl
  | dropBuild hheld => rfl

/-- What a step of the runner does to the calls. -/
theorem RunnerStep.pool_cases {cfg : Config} {r r' : Runner} {a : Action}
    (h : RunnerStep cfg r a r') :
    ((∀ ca ans, a ≠ .create ca ans) ∧ r'.creation = r.creation) ∨
      ∃ ca ans, a = .create ca ans ∧ PoolStep cfg ans r.creation ca r'.creation := by
  by_cases ha : ∃ ca ans, a = .create ca ans
  · obtain ⟨ca, ans, rfl⟩ := ha
    cases h with
    | create hnext => exact Or.inr ⟨ca, ans, rfl, (CreateState.createStep_of_next hnext).poolStep⟩
  · have hne : ∀ ca ans, a ≠ .create ca ans := fun ca ans he => ha ⟨ca, ans, he⟩
    exact Or.inl ⟨hne, h.creation_eq hne⟩

theorem Awaiting.reach {cfg : Config} {ok : Runner → Action → Prop} {r : Runner}
    (h : Lts.Reach (Runner.next cfg) ok {} r) : Awaiting r.creation := by
  refine h.invariant (I := fun r => Awaiting r.creation) .init ?_
  intro r a r' hr _ hnext
  rcases (runnerStep_of_next hnext).pool_cases with ⟨-, heq⟩ | ⟨ca, ans, -, hpool⟩
  · exact heq ▸ hr
  · exact hr.step hpool

/-- The pass that a step of the creation works for. -/
def Creation.worksFor (c : Creation) : CreateAction → Option CallId
  | .startPass _ => none
  | .resumePass k => some k
  | .startNested k | .resumeBuild k => (c.builds.lookup k).map BuildCall.pass
  | .startInput k | .resumeStep k => (c.steps.lookup k).map StepCall.pass

namespace CreateState

/-- A step can be taken whatever the answers are.  Only the orders in which
the sets are walked are chosen. -/
def Enabled (cfg : Config) (c : CreateState) (a : CreateAction) : Prop :=
  ∀ ans : Answer, ∃ ids steps,
    (c.next cfg { ans with ids := ids, steps := steps } a).isSome = true

variable {cfg : Config} {c : CreateState}

/-- A call of `create_step` has not returned, and does not wait for an
input. -/
theorem enabled_resumeStep {k : CallId} {call : StepCall}
    (hcall : c.creation.steps.lookup k = some call) (hpc : ∀ r, call.pc ≠ .returned r)
    (hinputs : ∀ step todo calls, call.pc = .inputs step todo calls → todo = [] ∧ calls = []) :
    c.Enabled cfg (.resumeStep k) := by
  intro ans
  refine ⟨[], [], ?_⟩
  simp only [next, resumeStep, hcall]
  cases h : call.pc with
  | queryDrv step => cases ans.ok <;> rfl
  | queryOutputs step drv => rfl
  | checkCached step drv missing =>
    simp only
    split_ifs <;> rfl
  | substitute step drv missing => rfl
  | inputs step todo calls =>
    obtain ⟨rfl, rfl⟩ := hinputs step todo calls h
    rfl
  | returned r => exact absurd h (hpc r)

/-- The first input that a call waits for has returned. -/
theorem enabled_takeInput {k k' : CallId} {call child : StepCall} {step : StepRef}
    {todo : List StorePath} {drvPath : StorePath} {calls : List (StorePath × CallId)}
    {r : CreateStepResult} (hcall : c.creation.steps.lookup k = some call)
    (hpc : call.pc = .inputs step todo ((drvPath, k') :: calls))
    (hchild : c.creation.steps.lookup k' = some child) (hresult : child.pc = .returned r) :
    c.Enabled cfg (.resumeStep k) := by
  intro ans
  obtain ⟨pass, build, callers, path, rb, rs, pc⟩ := child
  obtain rfl := hresult
  refine ⟨[], [], ?_⟩
  simp [next, resumeStep, hcall, hpc, hchild]

theorem enabled_startInput {k : CallId} {call : StepCall} {step : StepRef}
    {drvPath : StorePath} {todo : List StorePath}
    (hcall : c.creation.steps.lookup k = some call)
    (hpc : call.pc = .inputs step (drvPath :: todo) []) : c.Enabled cfg (.startInput k) := by
  intro ans
  refine ⟨[], [], ?_⟩
  simp [next, startInput, hcall, hpc]

/-- A call of `create_step` that has not returned, or one that it waits
for, can go on. -/
theorem step_progresses (h : StepsAwaited c.creation.builds c.creation.steps c.creation.fresh)
    {k : CallId} {call : StepCall} (hcall : c.creation.steps.lookup k = some call)
    (hpc : ∀ r, call.pc ≠ .returned r) :
    ∃ a, c.creation.worksFor a = some call.pass ∧ c.Enabled cfg a := by
  -- a call waits for later ones only, so the induction is on the distance to the next number
  induction hn : c.creation.fresh - k using Nat.strong_induction_on generalizing k call with
  | _ n ih =>
    have hworks : ∀ a, a = .resumeStep k ∨ a = .startInput k →
        c.creation.worksFor a = some call.pass := by
      rintro a (rfl | rfl) <;> simp [Creation.worksFor, hcall]
    by_cases hplain : ∀ step todo calls, call.pc = .inputs step todo calls → todo = [] ∧ calls = []
    · exact ⟨_, hworks _ (Or.inl rfl), enabled_resumeStep hcall hpc hplain⟩
    · push Not at hplain
      obtain ⟨step, todo, calls, hinputs, hne⟩ := hplain
      cases calls with
      | nil =>
        cases todo with
        | nil => exact absurd rfl (hne rfl)
        | cons drvPath todo =>
          exact ⟨_, hworks _ (Or.inr rfl), enabled_startInput hcall hinputs⟩
      | cons e calls =>
        obtain ⟨drvPath, k'⟩ := e
        obtain ⟨hlt, child, hchild, hpass, -⟩ := h.inputs k call k' hcall (by
          rw [hinputs]
          exact List.mem_cons_self)
        by_cases hreturned : ∃ r, child.pc = .returned r
        · obtain ⟨r, hr⟩ := hreturned
          exact ⟨_, hworks _ (Or.inl rfl), enabled_takeInput hcall hinputs hchild hr⟩
        · rw [← hpass]
          exact ih (c.creation.fresh - k') (hn ▸ Nat.sub_lt_sub_left (h.bound k call hcall) hlt)
            hchild (fun r hr => hreturned ⟨r, hr⟩) rfl

/-- A call of `create_build` has not returned, and waits for no other
call. -/
theorem enabled_resumeBuild {k : CallId} {call : BuildCall}
    (hcall : c.creation.builds.lookup k = some call) (hpc : call.pc ≠ .returned)
    (hstep : ∀ z, call.pc ≠ .step z)
    (hnested : ∀ step todo calls, call.pc = .nested step todo calls → todo = [] ∧ calls = []) :
    c.Enabled cfg (.resumeBuild k) := by
  intro ans
  refine ⟨[], [], ?_⟩
  simp only [next, resumeBuild, hcall]
  cases h : call.pc with
  | validPath =>
    simp only
    split_ifs <;> rfl
  | abort => rfl
  | step z => exact absurd h (hstep z)
  | previousFailure => cases ans.ok <;> rfl
  | nested step todo calls =>
    obtain ⟨rfl, rfl⟩ := hnested step todo calls h
    rfl
  | cached => cases ans.ok <;> rfl
  | returned => exact absurd h hpc

/-- The step that a call waits for has returned. -/
theorem enabled_takeToplevel {k k' : CallId} {call : BuildCall} {child : StepCall}
    {r : CreateStepResult} (hcall : c.creation.builds.lookup k = some call)
    (hpc : call.pc = .step k') (hchild : c.creation.steps.lookup k' = some child)
    (hresult : child.pc = .returned r) : c.Enabled cfg (.resumeBuild k) := by
  intro ans
  obtain ⟨pass, build, callers, path, rb, rs, pc⟩ := child
  obtain rfl := hresult
  refine ⟨(c.takeStepCall k').nestedBuilds call, [], ?_⟩
  simp only [next, resumeBuild, hcall, hpc, hchild]
  cases r with
  | none => simp
  | valid step => simp
  | previousFailure step =>
    simp only
    split_ifs <;> rfl

theorem enabled_takeNested {k k' : CallId} {call child : BuildCall} {step : Option StepRef}
    {todo : List BuildID} {calls : List CallId}
    (hcall : c.creation.builds.lookup k = some call)
    (hpc : call.pc = .nested step todo (k' :: calls))
    (hchild : c.creation.builds.lookup k' = some child) (hresult : child.pc = .returned) :
    c.Enabled cfg (.resumeBuild k) := by
  intro ans
  obtain ⟨pass, build, newSteps, pc⟩ := child
  obtain rfl := hresult
  refine ⟨[], [], ?_⟩
  simp [next, resumeBuild, hcall, hpc, hchild]

theorem enabled_startNested {k : CallId} {call : BuildCall} {step : Option StepRef}
    {id : BuildID} {todo : List BuildID} (hcall : c.creation.builds.lookup k = some call)
    (hpc : call.pc = .nested step (id :: todo) []) : c.Enabled cfg (.startNested k) := by
  intro ans
  refine ⟨[], [], ?_⟩
  simp only [next, startNested, hcall, hpc, List.length_nil, Nat.zero_lt_succ, if_true]
  split <;> rfl

/-- A call of `create_build` that has not returned, or one that it waits
for, can go on. -/
theorem build_progresses (h : Awaiting c.creation) {k : CallId} {call : BuildCall}
    (hcall : c.creation.builds.lookup k = some call) (hpc : call.pc ≠ .returned) :
    ∃ a, c.creation.worksFor a = some call.pass ∧ c.Enabled cfg a := by
  induction hn : c.creation.fresh - k using Nat.strong_induction_on generalizing k call with
  | _ n ih =>
    have hworks : ∀ a, a = .resumeBuild k ∨ a = .startNested k →
        c.creation.worksFor a = some call.pass := by
      rintro a (rfl | rfl) <;> simp [Creation.worksFor, hcall]
    cases hplace : call.pc with
    | step k' =>
      obtain ⟨child, hchild, hpass, -⟩ := h.steps.toplevel k call k' hcall hplace
      by_cases hreturned : ∃ r, child.pc = .returned r
      · obtain ⟨r, hr⟩ := hreturned
        exact ⟨_, hworks _ (Or.inl rfl), enabled_takeToplevel hcall hplace hchild hr⟩
      · rw [← hpass]
        exact step_progresses h.steps hchild fun r hr => hreturned ⟨r, hr⟩
    | nested step todo calls =>
      cases calls with
      | nil =>
        cases todo with
        | nil =>
          refine ⟨_, hworks _ (Or.inl rfl), enabled_resumeBuild hcall hpc ?_ ?_⟩
          · simp [hplace]
          · intro step' todo' calls' heq
            rw [hplace] at heq
            cases heq
            exact ⟨rfl, rfl⟩
        | cons id todo => exact ⟨_, hworks _ (Or.inr rfl), enabled_startNested hcall hplace⟩
      | cons k' calls =>
        obtain ⟨hlt, child, hchild, hpass⟩ := h.builds.nested k call k' hcall (by
          rw [hplace]
          exact List.mem_cons_self)
        by_cases hreturned : child.pc = .returned
        · exact ⟨_, hworks _ (Or.inl rfl), enabled_takeNested hcall hplace hchild hreturned⟩
        · rw [← hpass]
          exact ih (c.creation.fresh - k')
            (hn ▸ Nat.sub_lt_sub_left (h.builds.bound k call hcall) hlt) hchild hreturned rfl
    | _ =>
      refine ⟨_, hworks _ (Or.inl rfl), enabled_resumeBuild hcall hpc ?_ ?_⟩ <;> simp [hplace]

/-- A pass that has not ended can go on, or a call that it waits for
can. -/
theorem pass_progresses (h : Awaiting c.creation) {k : CallId} {pass : Pass}
    (hpass : c.creation.passes.lookup k = some pass) :
    ∃ a, c.creation.worksFor a = some k ∧ c.Enabled cfg a := by
  cases hwaiting : pass.waiting with
  | none =>
    refine ⟨.resumePass k, rfl, fun ans => ⟨[], c.graph.steps.values, ?_⟩⟩
    simp only [next, resumePass, hpass, hwaiting]
    cases htodo : pass.todo with
    | nil => simp
    | cons id todo =>
      simp only [startBuild, setPass_passes, AList.lookup_insert]
      split
      · rename_i heq
        split at heq <;> cases heq
        simp [setPass, setBuildCall]
      · rfl
  | some k' =>
    obtain ⟨call, hcall, hcallPass⟩ := h.builds.waiting k pass k' hpass hwaiting
    by_cases hreturned : call.pc = .returned
    · refine ⟨.resumePass k, rfl, fun ans => ⟨[], [], ?_⟩⟩
      obtain ⟨kp, build, newSteps, pc⟩ := call
      obtain rfl := hreturned
      simp [next, resumePass, hpass, hwaiting, hcall]
    · rw [← hcallPass]
      exact build_progresses h hcall hreturned

end CreateState

end QueueRunner
