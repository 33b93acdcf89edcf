import QueueRunner.State

/-!
# Completion, failure, and what triggers them

The calls of `succeed_step` and `fail_step` and the four places they come
from: the two branches of the `complete_build` RPC, the removal of a
machine when its tunnel ends, and the cancellation of steps after a
change of the queue (`State::process_queue_change`).

Each call works for one attempt.  `succeed_step` and `fail_step` get the
derivation path of the attempt and find everything else by that path.
-/

namespace QueueRunner

/-- Where `succeed_step` waits. -/
inductive SucceedPc where
  /-- For the lock of `remove_job_from_scheduled`. -/
  | start
  /-- For the lock of `remove_job`. -/
  | removeJob (item : ScheduledItem) (job : Job)
  /-- For `finish_build_step`. -/
  | finishBuildStep (item : ScheduledItem) (job : Job)
  /-- For the transaction that marks the direct builds. -/
  | markSucceeded (item : ScheduledItem) (direct : List BuildRef)
  /-- For the notification. -/
  | notify (item : ScheduledItem)
deriving DecidableEq

/-- Where `fail_step` waits. -/
inductive FailPc where
  /-- For the lock of `remove_job_from_scheduled`. -/
  | start (state : BuildResultState) (timings : BuildTimings)
  /-- For `finish_build_step` of a step that will be tried again. -/
  | retry (item : ScheduledItem) (job : Job)
  /-- For the lock of `remove_job`. -/
  | removeJob (item : ScheduledItem) (job : Job)
  /-- For `inner_fail_job`. -/
  | inner (item : ScheduledItem) (f : InnerFail)
deriving DecidableEq

/-- What runs after `fail_step` has returned. -/
inductive Caller where
  /-- The `complete_build` RPC: nothing. -/
  | rpc
  /-- `remove_machine`, called by the tunnel task of the machine: the jobs
  of the snapshot that have not been failed yet. -/
  | tunnel (machine : MachineRef) (rest : List Attempt)
  /-- `process_queue_change`: the cancelled steps not failed yet. -/
  | queueChange (rest : List Attempt)
deriving DecidableEq

/-- A task that completes, fails or cancels attempts. -/
inductive CallTask where
  | succeed (a : Attempt) (report : BuildReport) (pc : SucceedPc)
  | fail (a : Attempt) (pc : FailPc) (caller : Caller)
  /-- `kill_active_steps` waits for its lock. -/
  | killStart
  /-- `kill_active_steps` in its loop over the scheduled items. -/
  | kill (todo : List (StorePath × ScheduledItem)) (cancelled : List Attempt)
  /-- `kill_active_steps` waits for the abort message of one item. -/
  | killAbort (a : Attempt) (machine : MachineRef)
      (todo : List (StorePath × ScheduledItem)) (cancelled : List Attempt)
  /-- The tunnel task has left its loop and drops the receiver. -/
  | tunnelClose (machine : MachineRef)
deriving DecidableEq

/-- The task that fails the next attempt of a list, if there is one. -/
def Caller.next : Caller → Option CallTask
  | .rpc => none
  | .tunnel m [] => some (.tunnelClose m)
  | .tunnel m (a :: rest) =>
    some (.fail a (.start .preparingFailure {}) (.tunnel m rest))
  | .queueChange [] => none
  | .queueChange (a :: rest) =>
    some (.fail a (.start .cancelled {}) (.queueChange rest))

namespace CallTask

/-- The step infos that the task holds. -/
def infos : CallTask → List InfoRef
  | .succeed _ _ pc =>
    match pc with
    | .start => []
    | .removeJob item _ | .finishBuildStep item _ | .markSucceeded item _
    | .notify item => [item.stepInfo]
  | .fail _ pc _ =>
    match pc with
    | .start _ _ => []
    | .retry item _ | .removeJob item _ | .inner item _ => [item.stepInfo]
  | .killStart => []
  | .kill todo _ => todo.map (fun e => e.2.stepInfo)
  | .killAbort _ _ todo _ => todo.map (fun e => e.2.stepInfo)
  | .tunnelClose _ => []

/-- The builds that the task holds. -/
def builds : CallTask → List BuildRef
  | .succeed _ _ (.markSucceeded _ direct) => direct
  | .fail _ (.inner _ ⟨_, _, .mark indirect⟩) _ => indirect
  | _ => []

/-- The attempt that the task is about to end. -/
def starting : CallTask → Option Attempt
  | .succeed a _ .start | .fail a (.start _ _) _ => some a
  | _ => none

/-- The attempts that the task has chosen to end and has not ended yet. -/
def pending : CallTask → List Attempt
  | .succeed a _ .start => [a]
  | .succeed _ _ _ => []
  | .fail a (.start _ _) caller => a :: callerRest caller
  | .fail _ _ caller => callerRest caller
  | .killStart => []
  | .kill _ cancelled => cancelled
  | .killAbort a _ _ cancelled => a :: cancelled
  | .tunnelClose _ => []
where
  callerRest : Caller → List Attempt
    | .rpc => []
    | .tunnel _ rest => rest
    | .queueChange rest => rest

end CallTask

/-! ## `succeed_step` -/

/-- `succeed_step` from the lock of `remove_job_from_scheduled` to the lock
of `remove_job`. -/
def succeedStart (s : Shared) (a : Attempt) (report : BuildReport)
    (ans : Answer) : Shared × Option CallTask :=
  match s.queues.removeJobFromScheduled a.drv with
  | none => (s.record a.uuid .stepNotScheduled, none)
  | some (item, queues) =>
    let s := { s with
      queues := queues
      graph := s.graph.setFinished item.stepInfo.step true
      log := { s.log with
        succeeded := item.stepInfo.step :: s.log.succeeded } }
    match s.machines.removeJob item.machine (Shared.seconds ans.now) a.drv with
    | (machines, none) =>
      (({ s with machines := machines }).record a.uuid .jobMissing, none)
    | (machines, some job) =>
      (({ s with machines := machines }).endAttempt job,
        some (.succeed a report (.removeJob item job)))

/-- The loop of `mark_succeeded_build` over the direct builds meets no
conversion that fails.  A build that is finished is passed over. -/
def Graph.marksAll (g : Graph) (report : BuildReport) (ans : Answer)
    (direct : List BuildRef) : Bool :=
  direct.all (fun b => (g.build b).finishedInDb || !ans.notFinished b || report.fits)

/-- `succeed_step` from one await to the next. -/
def succeedResume (s : Shared) (held : InfoRef → Bool) (a : Attempt)
    (report : BuildReport) (pc : SucceedPc) (ans : Answer) :
    Shared × Option CallTask :=
  match pc with
  | .start => succeedStart s a report ans
  | .removeJob item job =>
    let s := { s with
      queues := s.queues.removeJob held item.stepInfo item.buildQueue }
    match { job.result with stepStatus := .success }.setOverhead
        report.getOverhead with
    | none => (s.record a.uuid .overhead, none)
    | some result =>
      (s, some (.succeed a report
        (.finishBuildStep item { job with result := result })))
  | .finishBuildStep item _ =>
    if ans.ok then
      let step := item.stepInfo.step
      let direct := s.graph.getDirectBuilds step
      let s := if direct = [] then
          { s with graph := s.graph.removeStep step.drvPath }
        else s
      (s, some (.succeed a report (.markSucceeded item direct)))
    else (s.record a.uuid .database, none)
  | .markSucceeded item direct =>
    if ans.ok && s.graph.marksAll report ans direct then
      ({ s with graph := s.graph.finishBuilds direct },
        some (.succeed a report (.notify item)))
    else (s.record a.uuid .database, none)
  | .notify item =>
    if ans.ok then
      let s := { s with
        graph := s.graph.makeRdepsRunnable ans.now item.stepInfo.step }
      (s.record a.uuid .ok, none)
    else (s.record a.uuid .database, none)

/-! ## `fail_step` -/

/-- `fail_step` from the removal of the job to its next await: the step is
tried again, or it fails for good. -/
def failDecide (cfg : Config) (s : Shared) (a : Attempt) (item : ScheduledItem)
    (job : Job) (state : BuildResultState) (timings : BuildTimings)
    (caller : Caller) (ans : Answer) : Shared × Option CallTask :=
  let step := item.stepInfo.step
  let result := { job.result with stepStatus := .failed }
  match (result.updateWithResultState state).setOverhead timings.getOverhead with
  | none => (s.record a.uuid .overhead, caller.next)
  | some result =>
    let job := { job with result := result }
    let graph := if result.canRetry then s.graph.incrTries step else s.graph
    if result.canRetry = true ∧ (graph.step step).tries < cfg.maxRetries.toNat then
      ({ s with
          graph := graph.setAfter step ans.after
          queues := s.queues.setAlreadyScheduled item.stepInfo false },
        some (.fail a (.retry item job) caller))
    else
      ({ s with
          graph := graph
          log := { s.log with failed := step :: s.log.failed } },
        some (.fail a (.removeJob item job) caller))

/-- `fail_step` from the lock of `remove_job_from_scheduled` to its next
await. -/
def failStart (cfg : Config) (s : Shared) (a : Attempt)
    (state : BuildResultState) (timings : BuildTimings) (caller : Caller)
    (ans : Answer) : Shared × Option CallTask :=
  match s.queues.removeJobFromScheduled a.drv with
  | none => (s.record a.uuid .stepNotScheduled, caller.next)
  | some (item, queues) =>
    let s := { s with
      queues := queues
      graph := s.graph.setFinished item.stepInfo.step false }
    match s.machines.removeJob item.machine (Shared.seconds ans.now) a.drv with
    | (machines, none) =>
      (({ s with machines := machines }).record a.uuid .jobMissing, caller.next)
    | (machines, some job) =>
      failDecide cfg (({ s with machines := machines }).endAttempt job) a item
        job state timings caller ans

/-- `fail_step` from one await to the next. -/
def failResume (cfg : Config) (s : Shared) (held : InfoRef → Bool)
    (a : Attempt) (pc : FailPc) (caller : Caller) (ans : Answer) :
    Shared × Option CallTask :=
  match pc with
  | .start state timings => failStart cfg s a state timings caller ans
  | .retry _ _ =>
    (s.record a.uuid (if ans.ok then .ok else .database), caller.next)
  | .removeJob item job =>
    let s := { s with
      queues := s.queues.removeJob held item.stepInfo item.buildQueue }
    let (s, f) := InnerFail.start s item.stepInfo.step job
    (s, some (.fail a (.inner item f) caller))
  | .inner item f =>
    match f.resume s ans with
    | (s, .running f) => (s, some (.fail a (.inner item f) caller))
    | (s, .returned ok) =>
      (s.record a.uuid (if ok then .ok else .database), caller.next)

/-! ## Cancellation -/

/-- One turn of the loop of `kill_active_steps`, up to the abort message. -/
def killResume (s : Shared) (drv : StorePath) (item : ScheduledItem)
    (todo : List (StorePath × ScheduledItem)) (cancelled : List Attempt) :
    Shared × Option CallTask :=
  if (s.queues.info item.stepInfo).cancelled then
    (s, some (.kill todo cancelled))
  else if (s.graph.getDependents item.stepInfo.step).builds ≠ [] then
    (s, some (.kill todo cancelled))
  else
    let s := { s with queues := s.queues.setCancelled item.stepInfo true }
    match (s.machines.machine item.machine).getInternalBuildIdForDrv drv with
    | some uuid =>
      (s, some (.killAbort ⟨uuid, item.machine.id, drv⟩ item.machine todo cancelled))
    | none => (s, some (.kill todo cancelled))

/-- A call task from one await to the next.  The second component is gone
when the task has returned. -/
def CallTask.resume (cfg : Config) (s : Shared) (held : InfoRef → Bool)
    (t : CallTask) (ans : Answer) : Option (Shared × Option CallTask) :=
  match t with
  | .succeed a report pc => some (succeedResume s held a report pc ans)
  | .fail a pc caller => some (failResume cfg s held a pc caller ans)
  | .killStart =>
    -- the snapshot of `scheduled`, in the order of the hash map
    if (ans.scheduled.map (fun e => Sigma.mk e.1 e.2)).Perm
        s.queues.scheduled.entries then
      some (s, some (.kill ans.scheduled []))
    else none
  | .kill [] cancelled => some (s, (Caller.queueChange cancelled).next)
  | .kill ((drv, item) :: todo) cancelled =>
    some (killResume s drv item todo cancelled)
  | .killAbort a machine todo cancelled =>
    if (s.machines.machine machine).receiverOpen then
      some (s, some (.kill todo (cancelled ++ [a])))
    else some (s, some (.kill todo cancelled))
  | .tunnelClose machine =>
    some ({ s with machines := s.machines.closeReceiver machine }, none)

/-! ## The calls -/

/-- `succeed_step_by_uuid` and `fail_step_by_uuid` up to the call of
`succeed_step` or `fail_step`. -/
def lookupAttempt (s : Shared) (uuid machineId : Uuid) :
    Except CallResult Attempt :=
  match s.machines.byUuid.lookup machineId with
  | none => .error .machineNotFound
  | some m =>
    match (s.machines.machine m).getJobDrvForBuildId uuid with
    | none => .error .jobNotFound
    | some drv => .ok ⟨uuid, machineId, drv⟩

/-- The `complete_build` RPC with the result `state`. -/
def completeBuild (s : Shared) (uuid machineId : Uuid)
    (state : BuildResultState) (report : BuildReport) :
    Shared × Option CallTask :=
  let s := { s with log := { s.log with reported := uuid :: s.log.reported } }
  match lookupAttempt s uuid machineId with
  | .error r => (s.record uuid r, none)
  | .ok a =>
    if state = .success then (s, some (.succeed a report .start))
    else (s, some (.fail a (.start state report.toBuildTimings) .rpc))

/-- The tunnel task of `machine` sees the end of its stream:
`remove_machine` up to its first await. -/
def endStream (s : Shared) (machine : MachineRef) : Shared × Option CallTask :=
  match s.machines.removeMachine machine.id with
  | none => (s, some (.tunnelClose machine))
  | some (m, machines) =>
    let jobs := (machines.machine m).jobs.map (fun j =>
      (⟨j.internalBuildId, machine.id, j.path⟩ : Attempt))
    ({ s with machines := machines }, (Caller.tunnel machine jobs).next)

/-- `process_queue_change` up to the lock of `kill_active_steps`. -/
def queueChange (s : Shared) (curIds : List BuildID) :
    Shared × Option CallTask :=
  ({ s with graph := s.graph.retainBuilds curIds }, some .killStart)

end QueueRunner
