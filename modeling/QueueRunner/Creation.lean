import QueueRunner.State

/-!
# The creation of builds and steps

`process_new_builds`, `create_build` and `create_step` of
`queue-runner/src/state/mod.rs`.  A pass over the new builds creates one
build after the other.  A build creates its top-level step, the step
creates the steps of its inputs, up to 25 at a time, and the new builds of
the new steps are created in turn, up to 10 at a time.

Every call that has not been consumed by its caller is a record with an
id.  A future does nothing before it is polled for the first time, so a
call starts with the code up to its first await.  A call that has returned
keeps its result until the caller takes it; `buffered` streams give the
results in the order of the calls.  The streams are polled in any order.

The calls only touch the step graph.  `present` is the part of the history
that they extend.

A step of the model is the code between two awaits.  What other threads do
to the atomic fields of a step in between is not seen: in `takeInput` the
tests of the input and `add_dep` are one step.
-/

namespace QueueRunner

/-- Names a call of `create_build` or `create_step`, or a pass. -/
abbrev CallId := Nat

/-- `CreateStepResult`. -/
inductive CreateStepResult where
  | none
  | valid (step : StepRef)
  | previousFailure (step : StepRef)
deriving DecidableEq

/-- Where `create_step` waits. -/
inductive StepPc where
  /-- For `query_drv`. -/
  | queryDrv (step : StepRef)
  /-- For the stores, which are asked for the outputs. -/
  | queryOutputs (step : StepRef) (drv : Derivation)
  /-- For `check_cached_failure`. -/
  | checkCached (step : StepRef) (drv : Derivation)
      (missing : List DerivationOutput)
  /-- For the substitution of the missing outputs. -/
  | substitute (step : StepRef) (drv : Derivation)
      (missing : List DerivationOutput)
  /-- For the steps of the inputs: those without a call, and the calls. -/
  | inputs (step : StepRef) (todo : List StorePath)
      (calls : List (StorePath × CallId))
  | returned (r : CreateStepResult)

/-- A call of `create_step`. -/
structure StepCall where
  pass : CallId
  /-- The call of `create_build` whose `new_steps` it extends. -/
  build : CallId
  /-- The calls of `create_step` that wait for this one. -/
  callers : List CallId
  drvPath : StorePath
  referringBuild : Option BuildRef
  referringStep : Option StepRef
  pc : StepPc

/-- Where `create_build` waits. -/
inductive BuildPc where
  /-- For `is_valid_path`. -/
  | validPath
  /-- For `abort_build`. -/
  | abort
  /-- For `create_step`. -/
  | step (call : CallId)
  /-- For `handle_previous_failure`. -/
  | previousFailure
  /-- For the builds of the new steps. -/
  | nested (step : Option StepRef) (todo : List BuildID) (calls : List CallId)
  /-- For `handle_cached_build`. -/
  | cached
  | returned

/-- A call of `create_build`. -/
structure BuildCall where
  pass : CallId
  build : BuildRef
  newSteps : List StepRef := []
  pc : BuildPc := .validPath

/-- A call of `process_new_builds`.  `waiting` is the call of
`create_build` under way. -/
structure Pass where
  byId : Map BuildID BuildRef
  byPath : Map StorePath (List BuildID)
  todo : List BuildID
  finishedDrvs : List StorePath := []
  newRunnable : List StepRef := []
  waiting : Option CallId := none

/-- The calls under way. -/
structure Creation where
  passes : Map CallId Pass := ∅
  builds : Map CallId BuildCall := ∅
  steps : Map CallId StepCall := ∅
  fresh : CallId := 0

/-- What the calls read and change. -/
structure CreateState where
  graph : Graph
  present : List StorePath
  creation : Creation

/-- `query_missing_outputs` and its remote sibling: an output without a
known path is not missing. -/
def queryMissingOutputs (valid : StorePath → Bool)
    (outputs : List DerivationOutput) : List DerivationOutput :=
  outputs.filter (fun o =>
    match o.path with
    | none => false
    | some path => !valid path)

/-- `missing_outputs` of `create_step`.  Outputs that are all in the local
store are uploaded and not missing. -/
def missingOutputs (ans : Answer) (outputs : List DerivationOutput) :
    List DerivationOutput :=
  match ans.remote with
  | none => queryMissingOutputs ans.store outputs
  | some remote =>
    if queryMissingOutputs ans.store outputs = [] then []
    else queryMissingOutputs remote outputs

/-- Whether the paths of all outputs are known. -/
def outputsKnown (drv : Derivation) : Bool :=
  drv.outputs.all (fun o => o.path.isSome)

namespace CreateState

/-- Write back a call of `create_step`. -/
def setStepCall (c : CreateState) (k : CallId) (call : StepCall) :
    CreateState :=
  { c with creation := { c.creation with
      steps := c.creation.steps.insert k call } }

/-- Write back a call of `create_build`. -/
def setBuildCall (c : CreateState) (k : CallId) (call : BuildCall) :
    CreateState :=
  { c with creation := { c.creation with
      builds := c.creation.builds.insert k call } }

/-- Write back a pass. -/
def setPass (c : CreateState) (k : CallId) (pass : Pass) : CreateState :=
  { c with creation := { c.creation with
      passes := c.creation.passes.insert k pass } }

/-- A call takes the result of another one, which goes away. -/
def takeStepCall (c : CreateState) (k : CallId) : CreateState :=
  { c with creation := { c.creation with
      steps := c.creation.steps.erase k } }

/-- The same for a call of `create_build`. -/
def takeBuildCall (c : CreateState) (k : CallId) : CreateState :=
  { c with creation := { c.creation with
      builds := c.creation.builds.erase k } }

/-- A call of `create_step` returns. -/
def returnStep (c : CreateState) (k : CallId) (call : StepCall)
    (r : CreateStepResult) : CreateState :=
  c.setStepCall k { call with pc := .returned r }

/-- The futures that a call still waits for are dropped with it. -/
def dropCallees (c : CreateState) (k : CallId) : CreateState :=
  { c with creation := { c.creation with
      steps := c.creation.steps.retain (fun _ call => !call.callers.contains k) } }

/-! ## `create_step` -/

/-- `create_step` up to its first await. -/
def startStep (c : CreateState) (pass build : CallId) (callers : List CallId)
    (drvPath : StorePath) (referringBuild : Option BuildRef)
    (referringStep : Option StepRef) : CreateState × CallId :=
  let k := c.creation.fresh
  let call (pc : StepPc) : StepCall :=
    ⟨pass, build, callers, drvPath, referringBuild, referringStep, pc⟩
  let c := { c with creation := { c.creation with fresh := k + 1 } }
  let finishedDrvs := match c.creation.passes.lookup pass with
    | some p => p.finishedDrvs
    | none => []
  if drvPath ∈ finishedDrvs then
    (c.setStepCall k (call (.returned .none)), k)
  else
    let (g, step, isNew) := c.graph.createStep drvPath referringBuild referringStep
    let c := { c with graph := g }
    if isNew then (c.setStepCall k (call (.queryDrv step)), k)
    else (c.setStepCall k (call (.returned (.valid step))), k)

/-- `finished_drvs.write().insert(drv_path)`. -/
def insertFinishedDrv (c : CreateState) (k : CallId) (drvPath : StorePath) :
    CreateState :=
  match c.creation.passes.lookup k with
  | some p => c.setPass k { p with finishedDrvs := drvPath :: p.finishedDrvs }
  | none => c

/-- `new_runnable.write().insert(step)`. -/
def insertNewRunnable (c : CreateState) (k : CallId) (step : StepRef) :
    CreateState :=
  match c.creation.passes.lookup k with
  | some p => c.setPass k { p with newRunnable := insertStep p.newRunnable step }
  | none => c

/-- `new_steps.write().insert(step)`. -/
def insertNewStep (c : CreateState) (k : CallId) (step : StepRef) :
    CreateState :=
  match c.creation.builds.lookup k with
  | some b => c.setBuildCall k { b with newSteps := insertStep b.newSteps step }
  | none => c

/-- The end of the search for the outputs: the step is finished, or its
inputs come next. -/
def decideStep (c : CreateState) (k : CallId) (call : StepCall)
    (step : StepRef) (drv : Derivation) (finished : Bool) : CreateState :=
  if finished then
    let c := c.insertFinishedDrv call.pass call.drvPath
    let c := { c with
      graph := c.graph.setFinished step true
      present := if outputsKnown drv then call.drvPath :: c.present
        else c.present }
    c.returnStep k call .none
  else c.setStepCall k { call with pc := .inputs step drv.inputDrvs [] }

/-- What `create_step` does with the result of an input. -/
def takeInput (c : CreateState) (k : CallId) (call : StepCall)
    (step : StepRef) (todo : List StorePath)
    (calls : List (StorePath × CallId)) (r : CreateStepResult) : CreateState :=
  let call' := { call with pc := .inputs step todo calls }
  match r with
  | .none => c.setStepCall k call'
  | .valid dep =>
    let c := if (c.graph.step dep).finished = false ∧
        (c.graph.step dep).previousFailure = false then
        { c with graph := c.graph.addDep step dep }
      else c
    c.setStepCall k call'
  | .previousFailure failed =>
    (c.dropCallees k).returnStep k call (.previousFailure failed)

/-- The end of `create_step`: the step is complete. -/
def finishStep (c : CreateState) (k : CallId) (call : StepCall)
    (step : StepRef) : CreateState :=
  let c := { c with graph := c.graph.setCreated step }
  let c := if (c.graph.step step).depsLen = 0 then
      c.insertNewRunnable call.pass step
    else c
  (c.insertNewStep call.build step).returnStep k call (.valid step)

/-- The next input of a step gets its call. -/
def startInput (c : CreateState) (k : CallId) : Option CreateState :=
  match c.creation.steps.lookup k with
  | none => none
  | some call =>
    match call.pc with
    | .inputs step (drvPath :: todo) calls =>
      if calls.length < 25 then
        let (c, k') := c.startStep call.pass call.build (k :: call.callers)
          drvPath none (some step)
        some (c.setStepCall k { call with
          pc := .inputs step todo (calls ++ [(drvPath, k')]) })
      else none
    | _ => none

/-- `create_step` from one await to the next. -/
def resumeStep (cfg : Config) (c : CreateState) (k : CallId) (ans : Answer) :
    Option CreateState :=
  match c.creation.steps.lookup k with
  | none => none
  | some call =>
    match call.pc with
    | .queryDrv step =>
      if ans.ok then
        some (c.setStepCall k { call with
          pc := .queryOutputs step (cfg.drvOf call.drvPath) })
      else some (c.returnStep k call .none)
    | .queryOutputs step drv =>
      let c := { c with graph := c.graph.setDrv step drv }
      some (c.setStepCall k { call with
        pc := .checkCached step drv (missingOutputs ans drv.outputs) })
    | .checkCached step drv missing =>
      if ans.cached then
        let c := { c with graph := c.graph.setPreviousFailure step true }
        some (c.returnStep k call (.previousFailure step))
      else if missing ≠ [] ∧ cfg.useSubstitutes = true then
        some (c.setStepCall k { call with pc := .substitute step drv missing })
      else some (c.decideStep k call step drv (missing = []))
    | .substitute step drv missing =>
      some (c.decideStep k call step drv (missing.all ans.substituted))
    | .inputs step [] [] => some (c.finishStep k call step)
    | .inputs _ (_ :: _) [] => none
    | .inputs step todo ((_, k') :: calls) =>
      match c.creation.steps.lookup k' with
      | some ⟨_, _, _, _, _, _, .returned r⟩ =>
        some ((c.takeStepCall k').takeInput k call step todo calls r)
      | _ => none
    | .returned _ => none

/-! ## `create_build` -/

/-- `create_build` up to its first await.  A build that another call has
taken is left alone. -/
def startBuild (c : CreateState) (pass : CallId) (id : BuildID) :
    CreateState × Option CallId :=
  match c.creation.passes.lookup pass with
  | none => (c, none)
  | some p =>
    match p.byId.lookup id with
    | none => (c, none)
    | some build =>
      let k := c.creation.fresh
      let c := { c with creation := { c.creation with fresh := k + 1 } }
      let c := c.setPass pass { p with byId := p.byId.erase id }
      (c.setBuildCall k { pass := pass, build := build }, some k)

/-- The builds of the new steps. -/
def nestedBuilds (c : CreateState) (call : BuildCall) : List BuildID :=
  match c.creation.passes.lookup call.pass with
  | none => []
  | some p => (call.newSteps.filterMap (fun s => p.byPath.lookup s.drvPath)).flatten

/-- The end of `create_build`. -/
def finishBuild (c : CreateState) (k : CallId) (call : BuildCall)
    (step : Option StepRef) : CreateState :=
  match step with
  | some step =>
    let g := if (c.graph.build call.build).finishedInDb then c.graph
      else c.graph.insertNewBuild call.build
    let c := { c with graph := g.setToplevelStep call.build step }
    c.setBuildCall k { call with pc := .returned }
  | none => c.setBuildCall k { call with pc := .cached }

/-- The next build of a new step gets its call. -/
def startNested (c : CreateState) (k : CallId) : Option CreateState :=
  match c.creation.builds.lookup k with
  | none => none
  | some call =>
    match call.pc with
    | .nested step (id :: todo) calls =>
      if calls.length < 10 then
        match c.startBuild call.pass id with
        | (c, some k') => some (c.setBuildCall k { call with
            pc := .nested step todo (calls ++ [k']) })
        | (c, none) => some (c.setBuildCall k { call with
            pc := .nested step todo calls })
      else none
    | _ => none

/-- `create_build` from one await to the next. -/
def resumeBuild (c : CreateState) (k : CallId) (ans : Answer) :
    Option CreateState :=
  match c.creation.builds.lookup k with
  | none => none
  | some call =>
    let finished := { c with graph := c.graph.setFinishedInDb call.build }
    match call.pc with
    | .validPath =>
      if ans.ok then
        let (c, k') := c.startStep call.pass k [] call.build.drvPath
          (some call.build) none
        some (c.setBuildCall k { call with pc := .step k' })
      else if (c.graph.build call.build).finishedInDb then
        some (finished.setBuildCall k { call with pc := .returned })
      else some (c.setBuildCall k { call with pc := .abort })
    | .abort => some (finished.setBuildCall k { call with pc := .returned })
    | .step k' =>
      match c.creation.steps.lookup k' with
      | some ⟨_, _, _, _, _, _, .returned r⟩ =>
        let c := c.takeStepCall k'
        match r with
        | .previousFailure _ =>
          if (c.graph.build call.build).finishedInDb then
            some (c.setBuildCall k { call with pc := .returned })
          else some (c.setBuildCall k { call with pc := .previousFailure })
        | .none =>
          if ans.ids.Perm (c.nestedBuilds call) then
            some (c.setBuildCall k { call with pc := .nested none ans.ids [] })
          else none
        | .valid step =>
          if ans.ids.Perm (c.nestedBuilds call) then
            some (c.setBuildCall k { call with
              pc := .nested (some step) ans.ids [] })
          else none
      | _ => none
    | .previousFailure =>
      let c := if ans.ok then finished else c
      some (c.setBuildCall k { call with pc := .returned })
    | .nested step [] [] => some (c.finishBuild k call step)
    | .nested _ (_ :: _) [] => none
    | .nested step todo (k' :: calls) =>
      match c.creation.builds.lookup k' with
      | some ⟨_, _, _, .returned⟩ =>
        some ((c.takeBuildCall k').setBuildCall k { call with
          pc := .nested step todo calls })
      | _ => none
    | .cached =>
      let c := if ans.ok then finished else c
      some (c.setBuildCall k { call with pc := .returned })
    | .returned => none

/-! ## `process_new_builds` -/

/-- The loop of `get_queued_builds` over the rows of the database. -/
def loadBuild (acc : Graph × Pass) (row : BuildID × StorePath) : Graph × Pass :=
  let (g, b) := acc.1.newBuild row.1 row.2
  (g, { acc.2 with
    byId := acc.2.byId.insert row.1 b
    byPath := acc.2.byPath.insert row.2
      ((acc.2.byPath.lookup row.2).getD [] ++ [row.1])
    todo := acc.2.todo ++ [row.1] })

/-- `get_queued_builds` calls `process_new_builds`. -/
def startPass (c : CreateState) (rows : List (BuildID × StorePath)) :
    CreateState :=
  let (g, pass) := rows.foldl loadBuild (c.graph, ⟨∅, ∅, [], [], [], none⟩)
  let k := c.creation.fresh
  let c := { c with
    graph := g
    creation := { c.creation with fresh := k + 1 } }
  c.setPass k pass

/-- `process_new_builds` from one await to the next. -/
def resumePass (c : CreateState) (k : CallId) (ans : Answer) :
    Option CreateState :=
  match c.creation.passes.lookup k with
  | none => none
  | some pass =>
    match pass.waiting, pass.todo with
    | none, id :: todo =>
      let pass := { pass with todo := todo, newRunnable := [] }
      match (c.setPass k pass).startBuild k id with
      | (c, some k') =>
        match c.creation.passes.lookup k with
        | some pass => some (c.setPass k { pass with waiting := some k' })
        | none => none
      | (c, none) => some c
    | some k', todo =>
      match c.creation.builds.lookup k' with
      | some ⟨_, _, _, .returned⟩ =>
        let g := pass.newRunnable.foldl (fun g s => g.makeRunnable ans.now s) c.graph
        let c := { c.takeBuildCall k' with graph := g }
        some (c.setPass k { pass with
          waiting := none
          todo := if ans.stop then [] else todo })
      | _ => none
    | none, [] =>
      if ans.steps.Perm c.graph.steps.values then
        some { c with
          graph := c.graph.sweepSteps ans.now ans.steps
          creation := { c.creation with
            passes := c.creation.passes.erase k } }
      else none

end CreateState

/-- The steps of the calls that create builds and steps. -/
inductive CreateAction where
  | startPass (rows : List (BuildID × StorePath))
  | resumePass (k : CallId)
  | startNested (k : CallId)
  | resumeBuild (k : CallId)
  | startInput (k : CallId)
  | resumeStep (k : CallId)
deriving DecidableEq

/-- One step of one call. -/
def CreateState.next (cfg : Config) (c : CreateState) (ans : Answer) :
    CreateAction → Option CreateState
  | .startPass rows => some (c.startPass rows)
  | .resumePass k => c.resumePass k ans
  | .startNested k => c.startNested k
  | .resumeBuild k => c.resumeBuild k ans
  | .startInput k => c.startInput k
  | .resumeStep k => c.resumeStep cfg k ans

end QueueRunner
