import QueueRunner.Graph
import QueueRunner.Machines
import QueueRunner.Queue

/-!
# The shared state and its tasks

`Shared` is the part of `State` (`queue-runner/src/state/mod.rs`) that
the tasks of the queue runner change.  A task is an `async` function that
has been called and has not returned.  Between two awaits its code runs
without interruption, so a task is modelled by the place it waits at with
the local variables that are still needed, and by a function that resumes
it: the code from that await to the next one.

An await ends with an answer of the environment: a lock is granted, the
database commits or fails, a store answers a query.  `Answer` collects
these answers, and each resume function reads the ones it waits for.
Awaits that follow each other with no access to the shared state between
them are one await here.

`Log` is a history.  No function reads it.
-/

namespace QueueRunner

/-- The configuration that the modelled functions read, with times in
milliseconds, and the contents of the derivation files. -/
structure Config where
  maxRetries : UInt32
  maxUnsupportedTime : Int
  useSubstitutes : Bool
  freeFn : MachineFreeFn
  drvOf : StorePath → Derivation

/-- An attempt to build a derivation: the id that the `BuildMessage`
carries, and the machine that it was sent to. -/
structure Attempt where
  uuid : Uuid
  machineId : Uuid
  drv : StorePath
deriving DecidableEq, Repr

/-- What a builder reports by `complete_build`: the timings, and what
`succeed_step` writes of its `BuildOutput` as a number, the two sizes and the
positions of the products. -/
structure BuildReport extends BuildTimings where
  size : Nat := 0
  closureSize : Nat := 0
  products : Nat := 0
deriving DecidableEq, Repr

/-- The conversions of `mark_succeeded_build` succeed: the sizes to `i64`, the
numbers of the products to `i32`. -/
def BuildReport.fits (report : BuildReport) : Bool :=
  report.size < 2 ^ 63 && report.closureSize < 2 ^ 63 && report.products < 2 ^ 31

/-- How a call of `succeed_step` or `fail_step` ended. -/
inductive CallResult where
  | ok
  | machineNotFound
  | jobNotFound
  | stepNotScheduled
  | jobMissing
  | overhead
  | database
deriving DecidableEq, Repr

/-- The history of a run, latest entry first. -/
structure Log where
  /-- The `BuildMessage`s that were sent. -/
  sent : List (Uuid × InfoRef × MachineRef) := []
  /-- The attempts that a builder has reported by `complete_build`. -/
  reported : List Uuid := []
  /-- The attempts whose item and job a call has removed. -/
  ended : List Uuid := []
  /-- The steps for which `fail_step` took the branch without a retry. -/
  failed : List StepRef := []
  /-- The derivations whose outputs `create_step` found. -/
  present : List StorePath := []
  /-- The steps that `succeed_step` marked. -/
  succeeded : List StepRef := []
  /-- How the calls ended. -/
  results : List (Uuid × CallResult) := []

/-- The state that the tasks share. -/
structure Shared where
  graph : Graph := {}
  queues : InnerQueues := {}
  machines : Machines := {}
  log : Log := {}
  nextUuid : Uuid := 0

/-- What the environment answers at an await. -/
structure Answer where
  /-- The database or store operation succeeds.  For `finish_build_step` and
for the transactions of `handle_cached_build` and `handle_previous_failure`
that includes `query_drv` and the conversions of the times. -/
  ok : Bool := true
  /-- The clock. -/
  now : Timestamp := 0
  /-- `check_cached_failure`. -/
  cached : Bool := false
  /-- The time after which a failed step may be tried again; the source
  computes the delay in floating point. -/
  after : Timestamp := 0
  /-- The step number that the database allocates. -/
  stepNr : Nat := 1
  /-- `check_if_build_is_not_finished`. -/
  notFinished : BuildRef → Bool := fun _ => true
  /-- `try_resolve_drv`. -/
  resolved : Option StorePath := none
  /-- The iteration orders of the hash maps. -/
  steps : List StepRef := []
  systems : List System := []
  machines : List MachineRef := []
  scheduled : List (StorePath × ScheduledItem) := []
  /-- The next entry of a map or set that is walked. -/
  system : System := ""
  step : StepRef := ⟨⟨""⟩, 0⟩
  build : BuildRef := ⟨0, ⟨""⟩, 0⟩
  /-- The load of the machines. -/
  disk : MachineRef → Bool := fun _ => true
  dyn : MachineRef → Bool := fun _ => true
  /-- The first remote store, if there is one, and the local store: which
  paths they have. -/
  remote : Option (StorePath → Bool) := none
  store : StorePath → Bool := fun _ => true
  /-- The outputs that `substitute_output` gets. -/
  substituted : DerivationOutput → Bool := fun _ => false
  /-- The builds of the new steps, in the order of the set. -/
  ids : List BuildID := []
  /-- `stop_queue_run_after` has passed. -/
  stop : Bool := false
  /-- The comparator that sorts a queue. -/
  cmp : InfoRef → InfoRef → Ordering := fun _ _ => .eq

namespace Shared

/-- The clock of the machine counters, `as_second`. -/
def seconds (now : Timestamp) : Int := now / 1000

/-- Record how a call ended. -/
def record (s : Shared) (uuid : Uuid) (r : CallResult) : Shared :=
  { s with log := { s.log with results := (uuid, r) :: s.log.results } }

/-- Record that an attempt has lost its item and its job. -/
def endAttempt (s : Shared) (job : Job) : Shared :=
  { s with log := { s.log with ended := job.internalBuildId :: s.log.ended } }

end Shared

/-! ## Failing a job -/

/-- Where `inner_fail_job` waits. -/
inductive InnerFailPc where
  /-- For `finish_build_step`. -/
  | finishBuildStep
  /-- For the transaction that fails the builds of this round. -/
  | mark (indirect : List BuildRef)
  /-- For the notification. -/
  | notify
deriving DecidableEq

/-- A call of `inner_fail_job`. -/
structure InnerFail where
  step : StepRef
  job : Job
  pc : InnerFailPc
deriving DecidableEq

/-- A function that still runs, or the value it has returned: whether it
returned `Ok`. -/
inductive Progress (α : Type) where
  | running (a : α)
  | returned (ok : Bool)

namespace InnerFail

/-- The head of the loop of `inner_fail_job`. -/
def loopHead (s : Shared) (step : StepRef) (job : Job) (stepFinished : Bool) :
    Shared × InnerFail :=
  let (g, indirect) := s.graph.getAllIndirectBuilds step
  let s := { s with graph := g }
  if indirect = [] ∧ stepFinished = true then (s, ⟨step, job, .notify⟩)
  else (s, ⟨step, job, .mark indirect⟩)

/-- `inner_fail_job` up to its first await. -/
def start (s : Shared) (step : StepRef) (job : Job) : Shared × InnerFail :=
  if job.stepNr ≠ 0 then (s, ⟨step, job, .finishBuildStep⟩)
  else loopHead s step job false

/-- `inner_fail_job` from one await to the next. -/
def resume (s : Shared) (f : InnerFail) (ans : Answer) :
    Shared × Progress InnerFail :=
  match f.pc with
  | .finishBuildStep =>
    if ans.ok then
      let (s, f) := loopHead s f.step f.job false
      (s, .running f)
    else (s, .returned false)
  | .mark indirect =>
    if ans.ok then
      let s := { s with graph := s.graph.finishBuilds indirect }
      let (s, f) := loopHead s f.step f.job true
      (s, .running f)
    else (s, .returned false)
  | .notify => (s, .returned ans.ok)

end InnerFail

end QueueRunner
