import QueueRunner.Lib.Run
import QueueRunner.Calls
import QueueRunner.Creation
import QueueRunner.Dispatch

/-!
# The queue runner as a transition system

The state of the runner is the shared state together with every task: the
dispatch loop, the calls that end attempts, the calls that create builds
and steps, and the tunnel tasks that serve a machine.  An action resumes
one task, or starts one: a builder reports a result, a stream ends, the
database announces a change.

A step or a build is freed when no strong pointer to it is left.  In the
model that is an action of its own, so an object may live longer than in
the program, and never shorter.  The lock that `kill_active_steps` keeps
while it waits is not modelled either; it only excludes some orders.
-/

namespace QueueRunner

/-- Names a task that ends attempts. -/
abbrev TaskId := Nat

/-- The queue runner. -/
structure Runner where
  shared : Shared := {}
  dispatcher : DispatchPc := .idle
  calls : Map TaskId CallTask := ∅
  creation : Creation := {}
  /-- The machines whose tunnel task serves them. -/
  tunnels : List MachineRef := []
  nextTask : TaskId := 0

/-- The steps of the runner. -/
inductive Action where
  | dispatch (ans : Answer)
  | call (t : TaskId) (ans : Answer)
  /-- The RPC `complete_build`. -/
  | completeBuild (uuid machineId : Uuid) (state : BuildResultState)
      (report : BuildReport)
  /-- The tunnel task of a machine leaves its loop. -/
  | endStream (m : MachineRef)
  /-- `process_queue_change`, with the builds that are still queued. -/
  | queueChange (curIds : List BuildID)
  /-- `State::insert_machine`. -/
  | insertMachine (id : Uuid) (record : Machine) (sortFn : MachineSortFn)
  | create (a : CreateAction) (ans : Answer)
  | dropStep (s : StepRef)
  | dropBuild (b : BuildRef)

/-! ## Strong pointers -/

/-- The steps that a call of `create_step` holds. -/
def StepCall.refs (c : StepCall) : List StepRef :=
  c.referringStep.toList ++
    match c.pc with
    | .queryDrv step | .queryOutputs step _ | .checkCached step _ _
    | .substitute step _ _ | .inputs step _ _ => [step]
    | .returned (.valid step) | .returned (.previousFailure step) => [step]
    | .returned .none => []

/-- The steps that a call of `create_build` holds. -/
def BuildCall.refs (c : BuildCall) : List StepRef :=
  c.newSteps ++
    match c.pc with
    | .nested (some step) _ _ => [step]
    | _ => []

namespace Creation

/-- The steps that the calls hold. -/
def steps' (c : Creation) : List StepRef :=
  c.steps.values.flatMap StepCall.refs ++
    c.builds.values.flatMap BuildCall.refs ++
    c.passes.values.flatMap Pass.newRunnable

/-- The builds that the calls hold. -/
def builds' (c : Creation) : List BuildRef :=
  c.steps.values.flatMap (fun call => call.referringBuild.toList) ++
    c.builds.values.map BuildCall.build ++
    c.passes.values.flatMap (fun p => p.byId.values)

end Creation

/-- The builds that `inner_fail_job` holds. -/
def InnerFail.builds (f : InnerFail) : List BuildRef :=
  match f.pc with
  | .mark indirect => indirect
  | _ => []

/-- The builds that the dispatch loop holds. -/
def DispatchPc.builds : DispatchPc → List BuildRef
  | .realise _ _ (.cachedFailure f) => f.builds
  | .abortFail _ _ _ f => f.builds
  | _ => []

namespace Runner

/-- Whether a task holds a step info. -/
def held (r : Runner) (i : InfoRef) : Bool :=
  r.dispatcher.info = some i ∨ ∃ t ∈ r.calls.values, i ∈ t.infos

/-- Whether a weak pointer to a step info can be upgraded. -/
def live (r : Runner) (i : InfoRef) : Bool := r.shared.queues.live r.held i

/-- The step infos with a strong pointer. -/
def infos (r : Runner) : List InfoRef :=
  r.dispatcher.info.toList ++ r.calls.values.flatMap CallTask.infos ++
    r.shared.queues.jobs.values ++
    r.shared.queues.scheduled.values.map ScheduledItem.stepInfo

/-- Whether a strong pointer to a step is left. -/
def stepHeld (r : Runner) (s : StepRef) : Bool :=
  s ∈ r.infos.map InfoRef.step ∨ s ∈ r.dispatcher.steps ∨
    s ∈ r.creation.steps' ∨
    (∃ t ∈ r.shared.graph.allocated, (r.shared.graph.step t).alive = true ∧
      s ∈ (r.shared.graph.step t).deps) ∨
    ∃ b ∈ r.shared.graph.allocatedBuilds, (r.shared.graph.build b).alive = true ∧
      (r.shared.graph.build b).toplevel = some s

/-- Whether a strong pointer to a build is left. -/
def buildHeld (r : Runner) (b : BuildRef) : Bool :=
  b ∈ r.shared.graph.builds.values ∨ b ∈ r.dispatcher.builds ∨
    b ∈ r.creation.builds' ∨ ∃ t ∈ r.calls.values, b ∈ t.builds

/-! ## Steps -/

/-- A call has started: it runs as a task unless it has returned. -/
def spawn (r : Runner) (res : Shared × Option CallTask) : Runner :=
  match res.2 with
  | none => { r with shared := res.1 }
  | some t => { r with
      shared := res.1
      calls := r.calls.insert r.nextTask t
      nextTask := r.nextTask + 1 }

/-- A task has been resumed. -/
def setCall (r : Runner) (t : TaskId) (res : Shared × Option CallTask) :
    Runner :=
  { r with
    shared := res.1
    calls := match res.2 with
      | none => r.calls.erase t
      | some task => r.calls.insert t task }

/-- The part of the state that the creation of builds works on. -/
def createState (r : Runner) : CreateState :=
  ⟨r.shared.graph, r.shared.log.present, r.creation⟩

/-- Write that part back. -/
def setCreateState (r : Runner) (c : CreateState) : Runner :=
  { r with
    shared := { r.shared with
      graph := c.graph
      log := { r.shared.log with present := c.present } }
    creation := c.creation }

/-- One step of the runner; nothing when the action is not enabled. -/
def next (cfg : Config) (r : Runner) : Action → Option Runner
  | .dispatch ans =>
    match r.dispatcher.resume cfg r.shared r.held ans with
    | some (s, d) => some { r with shared := s, dispatcher := d }
    | none => none
  | .call t ans =>
    match r.calls.lookup t with
    | none => none
    | some task =>
      match task.resume cfg r.shared r.held ans with
      | some res => some (r.setCall t res)
      | none => none
  | .completeBuild uuid machineId state report =>
    some (r.spawn (completeBuild r.shared uuid machineId state report))
  | .endStream m =>
    if m ∈ r.tunnels then
      let r := { r with tunnels := r.tunnels.erase m }
      some (r.spawn (endStream r.shared m))
    else none
  | .queueChange curIds => some (r.spawn (queueChange r.shared curIds))
  | .insertMachine id record sortFn =>
    let queues := r.shared.queues.ensureQueuesForSystems record.systems
    let (machines, m) := r.shared.machines.insertMachine id (.new record) sortFn
    some { r with
      shared := { r.shared with queues := queues, machines := machines }
      tunnels := m :: r.tunnels }
  | .create a ans =>
    match r.createState.next cfg ans a with
    | some c => some (r.setCreateState c)
    | none => none
  | .dropStep s =>
    if r.stepHeld s then none
    else some { r with shared := { r.shared with
      graph := r.shared.graph.dropStep s } }
  | .dropBuild b =>
    if r.buildHeld b then none
    else some { r with shared := { r.shared with
      graph := r.shared.graph.dropBuild b } }

end Runner

/-! ## A run

One machine registers, one build is created, and the dispatch loop sends
the message for it. -/

namespace Sample

/-- Every derivation has one output, and no inputs. -/
def config : Config where
  maxRetries := 2
  maxUnsupportedTime := 0
  useSubstitutes := false
  freeFn := .static
  drvOf := fun _ => ⟨"x86_64-linux", [], [⟨"out", some ⟨"out"⟩⟩], []⟩

def drv : StorePath := ⟨"a.drv"⟩

/-- The step of `drv`, the second object of the run after the build. -/
def step : StepRef := ⟨drv, 1⟩

def info : InfoRef := ⟨step, 0⟩

def machine : MachineRef := ⟨0, 0⟩

def register : Action :=
  .insertMachine 0 { systems := ["x86_64-linux"], maxJobs := 1 } .speedFactorOnly

/-- The creation of a build of `drv`, whose output is in no store. -/
def created : List Action :=
  [.create (.startPass [(1, drv)]) {},
    .create (.resumePass 0) {},
    .create (.resumeBuild 1) {},
    .create (.resumeStep 2) {},
    .create (.resumeStep 2) { store := fun _ => false },
    .create (.resumeStep 2) {},
    .create (.resumeStep 2) {},
    .create (.resumeBuild 1) { ids := [1] },
    .create (.startNested 1) {},
    .create (.resumeBuild 1) {},
    .create (.resumePass 0) {},
    .create (.resumePass 0) { steps := [step] }]

/-- A pass of the dispatch loop up to the message. -/
def sent : List Action :=
  [.dispatch { steps := [step] },
    .dispatch {},
    .dispatch {},
    .dispatch { system := "x86_64-linux" },
    .dispatch {},
    .dispatch {},
    .dispatch { systems := ["x86_64-linux"] },
    .dispatch {},
    .dispatch {},
    .dispatch {},
    .dispatch {}]

/-- The rest of the dispatch: the job, and the item in `scheduled`. -/
def scheduled : List Action := [.dispatch {}, .dispatch {}]

/-- The rest of the pass. -/
def passEnd : List Action :=
  [.dispatch { steps := [step] },
    .dispatch {},
    .dispatch {},
    .dispatch {},
    .dispatch {}]

/-- The rest of the pass, and the next pass up to the message for a step
that is tried again. -/
def sentAgain : List Action :=
  passEnd ++
  [Action.dispatch { steps := [step] },
    .dispatch {},
    .dispatch {},
    .dispatch {},
    .dispatch {},
    .dispatch { systems := ["x86_64-linux"] },
    .dispatch {},
    .dispatch {},
    .dispatch {},
    .dispatch {}]

/-- A second build of `drv` is created while the step is in `Steps`. -/
def joined : List Action :=
  [.create (.startPass [(2, drv)]) {},
    .create (.resumePass 3) {},
    .create (.resumeBuild 4) {},
    .create (.resumeBuild 4) {},
    .create (.resumeBuild 4) {},
    .create (.resumePass 3) {},
    .create (.resumePass 3) { steps := [step] }]

example : (Lts.run (Runner.next config) {} (register :: created ++ sent)).map
    (fun r => r.shared.log.sent) = some [(0, info, machine)] := by
  decide +kernel

end Sample

/-! ## A run with an input

The derivation `b.drv` has the input `a.drv`. -/

namespace Chain

def input : StorePath := ⟨"a.drv"⟩

def top : StorePath := ⟨"b.drv"⟩

def config : Config :=
  { Sample.config with
    drvOf := fun p => if p = top
      then ⟨"x86_64-linux", [input], [⟨"out", some ⟨"b"⟩⟩], []⟩
      else ⟨"x86_64-linux", [], [⟨"out", some ⟨"a"⟩⟩], []⟩ }

def topStep : StepRef := ⟨top, 1⟩

def inputStep : StepRef := ⟨input, 2⟩

/-- The creation of a build of `top`, up to the call for its input. -/
def toInput : List Action :=
  [.create (.startPass [(1, top)]) {},
    .create (.resumePass 0) {},
    .create (.resumeBuild 1) {},
    .create (.resumeStep 2) {},
    .create (.resumeStep 2) { store := fun _ => false },
    .create (.resumeStep 2) {},
    .create (.startInput 2) {}]

/-- The output of the input is in the store. -/
def inputFound : List Action :=
  [.create (.resumeStep 3) {}, .create (.resumeStep 3) {}, .create (.resumeStep 3) {}]

/-- The rest of the pass. -/
def created : List Action :=
  [.create (.resumeStep 2) {},
    .create (.resumeStep 2) {},
    .create (.resumeBuild 1) { ids := [1] },
    .create (.startNested 1) {},
    .create (.resumeBuild 1) {},
    .create (.resumePass 0) {},
    .create (.resumePass 0) { steps := [inputStep, topStep] }]

/-- A pass of the dispatch loop up to the message for `top`. -/
def toMessage : List Action :=
  [.dispatch { steps := [topStep] },
    .dispatch {},
    .dispatch {},
    .dispatch { system := "x86_64-linux" },
    .dispatch {},
    .dispatch {},
    .dispatch { systems := ["x86_64-linux"] },
    .dispatch {},
    .dispatch {},
    .dispatch {}]

end Chain

end QueueRunner
