import QueueRunner.Lib.Map
import QueueRunner.Basic

/-!
# Steps and builds

This module is `queue-runner/src/state/step.rs` and the part of
`build.rs` that steps refer to.  A step points to the steps it depends on
(`deps`, strong pointers), and weakly to the steps that depend on it
(`rdeps`) and to the builds that have it as their top level (`builds`).
`Steps` maps a derivation path weakly to its step, and `Builds` maps a
build id strongly to its build.

Weak pointers to steps and builds are upgraded through the flag `alive`
of the heap record.  It is cleared by `Graph.dropStep` and
`Graph.dropBuild`, which the runner takes when no strong pointer is left.

Both sets of the source, `HashSet<Arc<Step>>` and `HashSet<Arc<Build>>`,
compare their elements by derivation path.  They are lists here, and an
insertion looks for the path first.
-/

namespace QueueRunner

/-- `Step`, its `StepAtomicState` and its `StepState`.  The priorities and
the jobsets, which only order the queues, are left out. -/
structure Step where
  drv : Option Derivation := none
  runnable : Bool := false
  finished : Bool := false
  previousFailure : Bool := false
  created : Bool := false
  tries : Nat := 0
  after : Timestamp := 0
  runnableSince : Timestamp := 0
  lastSupported : Timestamp := 0
  deps : List StepRef := []
  rdeps : List StepRef := []
  builds : List BuildRef := []
  depsLen : Nat := 0
  rdepsLen : Nat := 0
  alive : Bool := true

/-- `Build`, the fields that change. -/
structure Build where
  toplevel : Option StepRef := none
  finishedInDb : Bool := false
  alive : Bool := true

/-- The steps and builds of the runner: the heaps, `State.steps`,
`State.builds`, and what was allocated so far. -/
structure Graph where
  step : StepRef → Step := fun _ => {}
  build : BuildRef → Build := fun _ => {}
  steps : Map StorePath StepRef := ∅
  builds : Map BuildID BuildRef := ∅
  allocated : List StepRef := []
  allocatedBuilds : List BuildRef := []
  fresh : Nat := 0

/-- The two sets that `get_dependents` fills. -/
structure Dependents where
  builds : List BuildRef := []
  steps : List StepRef := []

/-- `HashSet::insert` on a set of steps. -/
def insertStep (l : List StepRef) (s : StepRef) : List StepRef :=
  if l.any (fun t => t.drvPath == s.drvPath) then l else l ++ [s]

namespace Graph

/-- Change one step. -/
def modifyStep (g : Graph) (s : StepRef) (f : Step → Step) : Graph :=
  { g with step := Function.update g.step s (f (g.step s)) }

/-- Change one build. -/
def modifyBuild (g : Graph) (b : BuildRef) (f : Build → Build) : Graph :=
  { g with build := Function.update g.build b (f (g.build b)) }

/-! ## One step -/

/-- `Step::set_finished`. -/
def setFinished (g : Graph) (s : StepRef) (v : Bool) : Graph :=
  g.modifyStep s (fun r => { r with finished := v })

/-- `Step::set_previous_failure`. -/
def setPreviousFailure (g : Graph) (s : StepRef) (v : Bool) : Graph :=
  g.modifyStep s (fun r => { r with previousFailure := v })

/-- `Step::set_drv`. -/
def setDrv (g : Graph) (s : StepRef) (drv : Derivation) : Graph :=
  g.modifyStep s (fun r => { r with drv := some drv })

/-- `StepAtomicState::set_created(true)`. -/
def setCreated (g : Graph) (s : StepRef) : Graph :=
  g.modifyStep s (fun r => { r with created := true })

/-- `Step::set_after`. -/
def setAfter (g : Graph) (s : StepRef) (v : Timestamp) : Graph :=
  g.modifyStep s (fun r => { r with after := v })

/-- `Step::set_last_supported_now`. -/
def setLastSupportedNow (g : Graph) (s : StepRef) (now : Timestamp) : Graph :=
  g.modifyStep s (fun r => { r with lastSupported := now })

/-- `tries.fetch_add(1)` on an `AtomicU32`. -/
def incrTries (g : Graph) (s : StepRef) : Graph :=
  g.modifyStep s (fun r => { r with tries := (r.tries + 1) % 2 ^ 32 })

/-- `Step::get_system`. -/
def getSystem (g : Graph) (s : StepRef) : Option System :=
  (g.step s).drv.map Derivation.system

/-- `Step::get_required_features`. -/
def getRequiredFeatures (g : Graph) (s : StepRef) : List String :=
  match (g.step s).drv with
  | some drv => drv.requiredFeatures
  | none => []

/-- `Step::add_dep`. -/
def addDep (g : Graph) (s dep : StepRef) : Graph :=
  let deps := insertStep (g.step s).deps dep
  g.modifyStep s (fun r => { r with deps := deps, depsLen := deps.length })

/-- `Step::add_referring_data`. -/
def addReferringData (g : Graph) (s : StepRef) (build : Option BuildRef)
    (step : Option StepRef) : Graph :=
  let g := match build with
    | some b => g.modifyStep s (fun r => { r with builds := r.builds ++ [b] })
    | none => g
  match step with
  | some t => g.modifyStep s (fun r =>
      { r with rdeps := r.rdeps ++ [t], rdepsLen := (r.rdeps ++ [t]).length })
  | none => g

/-- `Step::make_runnable`: only ever mark as runnable once. -/
def makeRunnable (g : Graph) (now : Timestamp) (s : StepRef) : Graph :=
  if (g.step s).runnable then g
  else g.modifyStep s (fun r =>
    { r with runnable := true, runnableSince := now, lastSupported := now })

/-- The closure of `make_rdeps_runnable` for one `rdep`: the finished step
leaves its dependencies, and it becomes runnable with the last one. -/
def releaseRdep (self : StepRef) (now : Timestamp) (g : Graph)
    (rdep : StepRef) : Graph :=
  if (g.step rdep).alive then
    let deps := (g.step rdep).deps.filter (fun d => d.drvPath != self.drvPath)
    let g := g.modifyStep rdep (fun r =>
      { r with deps := deps, depsLen := deps.length })
    if deps = [] ∧ (g.step rdep).created = true then g.makeRunnable now rdep
    else g
  else g

/-- `Step::make_rdeps_runnable`. -/
def makeRdepsRunnable (g : Graph) (now : Timestamp) (s : StepRef) : Graph :=
  if (g.step s).finished then
    let g := (g.step s).rdeps.foldl (releaseRdep s now) g
    let rdeps := (g.step s).rdeps.filter (fun r => (g.step r).alive)
    g.modifyStep s (fun r => { r with rdeps := rdeps, rdepsLen := rdeps.length })
  else g

/-- `Step::get_direct_builds`. -/
def getDirectBuilds (g : Graph) (s : StepRef) : List BuildRef :=
  (g.step s).builds.filter (fun b =>
    (g.build b).alive && !(g.build b).finishedInDb)

/-- The insertion of one build into the set of `get_dependents`. -/
def insertDependent (g : Graph) (acc : List BuildRef) (b : BuildRef) :
    List BuildRef :=
  if (g.build b).alive = true ∧ (g.build b).finishedInDb = false ∧
      acc.any (fun c => c.drvPath == b.drvPath) = false then acc ++ [b]
  else acc

/-- `Step::get_dependents`.  Each nested call adds a step to the set, so
the depth is bounded by the number of steps. -/
def getDependentsFrom (g : Graph) : Nat → Dependents → StepRef → Dependents
  | 0, d, _ => d
  | fuel + 1, d, s =>
    if d.steps.any (fun t => t.drvPath == s.drvPath) then d
    else
      let d : Dependents :=
        { builds := (g.step s).builds.foldl g.insertDependent d.builds
          steps := d.steps ++ [s] }
      (g.step s).rdeps.foldl (fun d r =>
        if (g.step r).alive then g.getDependentsFrom fuel d r else d) d

/-- `Step::get_dependents` from two empty sets. -/
def getDependents (g : Graph) (s : StepRef) : Dependents :=
  g.getDependentsFrom (g.allocated.length + 1) {} s

/-! ## `Steps` -/

/-- `Step::new`. -/
def newStep (g : Graph) (drvPath : StorePath) : Graph × StepRef :=
  let s : StepRef := ⟨drvPath, g.fresh⟩
  ({ g with
      step := Function.update g.step s {}
      allocated := s :: g.allocated
      fresh := g.fresh + 1 }, s)

/-- The step that `Steps::create` finds in the map, if it can still be
upgraded. -/
def findStep (g : Graph) (drvPath : StorePath) : Option StepRef :=
  match g.steps.lookup drvPath with
  | some s => if (g.step s).alive then some s else none
  | none => none

/-- `Steps::create`.  The last component is `is_new`. -/
def createStep (g : Graph) (drvPath : StorePath) (build : Option BuildRef)
    (step : Option StepRef) : Graph × StepRef × Bool :=
  match g.findStep drvPath with
  | some s =>
    let g := g.addReferringData s build step
    ({ g with steps := g.steps.insert drvPath s }, s, false)
  | none =>
    let (g, s) := g.newStep drvPath
    let g := g.addReferringData s build step
    ({ g with steps := g.steps.insert drvPath s }, s, true)

/-- `Steps::remove`. -/
def removeStep (g : Graph) (drvPath : StorePath) : Graph :=
  { g with steps := g.steps.erase drvPath }

/-- `Steps::clone_runnable`. -/
def cloneRunnable (g : Graph) : Graph × List StepRef :=
  let steps := g.steps.retain (fun _ s => (g.step s).alive)
  ({ g with steps := steps },
    steps.values.filter (fun s => (g.step s).runnable))

/-- One step of the sweep of `Steps::make_rdeps_runnable`. -/
def sweepStep (now : Timestamp) (g : Graph) (s : StepRef) : Graph :=
  if (g.step s).alive = true ∧ (g.step s).finished = true ∧
      (g.step s).previousFailure = false then g.makeRdepsRunnable now s
  else g

/-- `Steps::make_rdeps_runnable`.  The caller gives the order in which the
map is walked. -/
def sweepSteps (g : Graph) (now : Timestamp) (order : List StepRef) : Graph :=
  order.foldl (sweepStep now) g

/-! ## `Builds` and the builds of a failed step -/

/-- `Build::new`. -/
def newBuild (g : Graph) (id : BuildID) (drvPath : StorePath) :
    Graph × BuildRef :=
  let b : BuildRef := ⟨id, drvPath, g.fresh⟩
  ({ g with
      build := Function.update g.build b {}
      allocatedBuilds := b :: g.allocatedBuilds
      fresh := g.fresh + 1 }, b)

/-- `Build::set_finished_in_db(true)`. -/
def setFinishedInDb (g : Graph) (b : BuildRef) : Graph :=
  g.modifyBuild b (fun r => { r with finishedInDb := true })

/-- `Build::set_toplevel_step`. -/
def setToplevelStep (g : Graph) (b : BuildRef) (s : StepRef) : Graph :=
  g.modifyBuild b (fun r => { r with toplevel := some s })

/-- `Builds::insert_new_build`. -/
def insertNewBuild (g : Graph) (b : BuildRef) : Graph :=
  { g with builds := g.builds.insert b.id b }

/-- `Builds::remove_by_id`. -/
def removeById (g : Graph) (id : BuildID) : Graph :=
  { g with builds := g.builds.erase id }

/-- The `retain` of `Builds::update_priorities`. -/
def retainBuilds (g : Graph) (curIds : List BuildID) : Graph :=
  { g with builds := g.builds.retain (fun id _ => curIds.contains id) }

/-- The loop that ends both `succeed_step` and a round of
`inner_fail_job`: the builds are finished and leave the map. -/
def finishBuilds (g : Graph) (bs : List BuildRef) : Graph :=
  bs.foldl (fun g b => (g.setFinishedInDb b).removeById b.id) g

/-- `State::get_all_indirect_builds`.  When no build is left, all referring
steps leave the map. -/
def getAllIndirectBuilds (g : Graph) (s : StepRef) : Graph × List BuildRef :=
  let d := g.getDependents s
  if d.builds = [] then
    (d.steps.foldl (fun g t => g.removeStep t.drvPath) g, [])
  else (g, d.builds)

/-! ## Deallocation -/

/-- The last strong pointer to a step goes away. -/
def dropStep (g : Graph) (s : StepRef) : Graph :=
  g.modifyStep s (fun r => { r with alive := false })

/-- The last strong pointer to a build goes away. -/
def dropBuild (g : Graph) (b : BuildRef) : Graph :=
  g.modifyBuild b (fun r => { r with alive := false })

end Graph

end QueueRunner
