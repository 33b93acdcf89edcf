import QueueRunner.State

/-!
# The dispatch loop

One task runs `do_dispatch_once` again and again.  A pass collects the
runnable steps that were never tried, inserts them into the queues, and
then `Queues::process` walks over the queues and realises one job after
the other.  A pass ends with `abort_unsupported`.

The runtime has several threads, so a turn of a loop is a step of its own
even when the turn does not await.  The same holds for the three updates
of a dispatch: the message to the builder, the job of the machine, and
the item in `scheduled`.
-/

namespace QueueRunner

/-- The jobs that a pass has collected, by system. -/
abbrev NewQueues := Map System (List (StepRef × StepInfo))

/-- Where `process` is: its clock, the queue it walks over, the pointers
it has not looked at, and the queues after this one. -/
structure Walk where
  now : Timestamp
  system : System
  jobs : List InfoRef
  rest : List System

/-- Where `realise_drv_on_valid_machine` waits, or `process` after it. -/
inductive RealisePc where
  /-- For `check_cached_failure`. -/
  | checkCached (m : MachineRef) (job : Job)
  /-- For `inner_fail_job`. -/
  | cachedFailure (f : InnerFail)
  /-- For the database, which creates the build step. -/
  | prepare (m : MachineRef) (job : Job)
  /-- For the message channel of the machine. -/
  | send (m : MachineRef) (job : Job)
  /-- The message is in the channel, the job not yet in the machine. -/
  | sent (m : MachineRef) (job : Job)
  /-- For the lock of `add_job_to_scheduled`. -/
  | schedule (m : MachineRef) (job : Job)
  /-- For the lock of `remove_job`. -/
  | remove

/-- Where the dispatch loop is. -/
inductive DispatchPc where
  /-- It waits for the next trigger. -/
  | idle
  /-- In the loop over the runnable steps. -/
  | collect (now : Timestamp) (todo : List StepRef) (queues : NewQueues)
  /-- In the loop over the collected jobs. -/
  | insert (now : Timestamp) (queues : NewQueues)
  /-- For the lock of `remove_all_weak_pointer`. -/
  | scrub
  /-- For the lock under which `process` clones the queues. -/
  | process
  /-- In the loops of `process`. -/
  | walk (w : Walk)
  | realise (w : Walk) (i : InfoRef) (pc : RealisePc)
  /-- In the first loop of `abort_unsupported`. -/
  | abort (now : Timestamp) (todo aborted : List StepRef)
  | abortFail (now : Timestamp) (todo aborted : List StepRef) (f : InnerFail)
  /-- In the second loop of `abort_unsupported`. -/
  | abortRemove (aborted : List StepRef)
  | abortScrub

namespace RealisePc

/-- The machine and the job of a dispatch, from the choice of the machine
to the item in `scheduled`. -/
def target : RealisePc → Option (MachineRef × Job)
  | .checkCached m job | .prepare m job | .send m job | .sent m job
  | .schedule m job => some (m, job)
  | .cachedFailure _ | .remove => none

end RealisePc

namespace DispatchPc

/-- The step info that the loop holds. -/
def info : DispatchPc → Option InfoRef
  | .realise _ i _ => some i
  | _ => none

/-- The steps that the loop holds. -/
def steps : DispatchPc → List StepRef
  | .collect _ todo queues => todo ++ (queues.values.flatten).map Prod.fst
  | .insert _ queues => (queues.values.flatten).map Prod.fst
  | .abort _ todo aborted => todo ++ aborted
  | .abortFail _ todo aborted f => f.step :: (todo ++ aborted)
  | .abortRemove aborted => aborted
  | _ => []

end DispatchPc

/-- The build that a job is accounted to: the one whose top level is the
step, or any other. -/
def pickBuild (builds : List BuildRef) (drv : StorePath) (choice : BuildRef) :
    Option BuildRef :=
  match builds.find? (fun b => b.drvPath == drv) with
  | some b => some b
  | none => if choice ∈ builds then some choice else builds.head?

/-- One turn of the loop of `do_dispatch_once` over the runnable steps.
`or_insert_with` and `push` are one insertion. -/
def collectStep (g : Graph) (ans : Answer) (queues : NewQueues) (r : StepRef) :
    NewQueues :=
  match g.getSystem r with
  | none => queues
  | some system =>
    if 0 < (g.step r).tries then queues
    else
      let info : StepInfo :=
        { resolvedDrvPath := ans.resolved
          runnableSince := (g.step r).runnableSince }
      queues.insert system ((queues.lookup system).getD [] ++ [(r, info)])

/-- `realise_drv_on_valid_machine` up to its first await.  The two results
without a machine return to `process` at once. -/
def realiseStart (cfg : Config) (s : Shared) (w : Walk) (i : InfoRef)
    (ans : Answer) : Shared × DispatchPc :=
  let (machines, found) := s.machines.findFree (Shared.seconds ans.now)
    cfg.freeFn ans.disk ans.dyn (s.graph.getRequiredFeatures i.step)
    (s.machines.candidates w.system ans.machines)
  let s := { s with machines := machines }
  match found with
  | none => (s, .walk w)
  | some m =>
    match pickBuild (s.graph.getDependents i.step).builds i.drvPath ans.build with
    | none => (s, .realise w i .remove)
    | some b =>
      let job : Job :=
        { internalBuildId := s.nextUuid
          path := i.drvPath
          resolvedDrv := (s.queues.info i).resolvedDrvPath
          buildId := b.id }
      ({ s with nextUuid := s.nextUuid + 1 },
        .realise w i (.checkCached m job))

/-- One turn of the loop of `process` over the pointers of a queue. -/
def walkStep (cfg : Config) (s : Shared) (held : InfoRef → Bool) (w : Walk)
    (i : InfoRef) (ans : Answer) : Shared × DispatchPc :=
  if s.queues.live held i = false then (s, .walk w)
  else if (s.queues.info i).alreadyScheduled then (s, .walk w)
  else if (s.graph.step i.step).finished then (s, .walk w)
  else if w.now < (s.graph.step i.step).after then (s, .walk w)
  else realiseStart cfg s w i ans

/-- `realise_drv_on_valid_machine` from one await to the next, and what
`process` does with its result. -/
def realiseResume (s : Shared) (held : InfoRef → Bool) (w : Walk)
    (i : InfoRef) (pc : RealisePc) (ans : Answer) : Shared × DispatchPc :=
  match pc with
  | .checkCached m job =>
    if ans.cached then
      let job := { job with
        result := { job.result with stepStatus := .cachedFailure } }
      let (s, f) := InnerFail.start s i.step job
      (s, .realise w i (.cachedFailure f))
    else (s, .realise w i (.prepare m job))
  | .cachedFailure f =>
    match f.resume s ans with
    | (s, .running f) => (s, .realise w i (.cachedFailure f))
    | (s, .returned true) => (s, .realise w i .remove)
    | (s, .returned false) => (s, .walk w)
  | .prepare m job =>
    if ans.ok then (s, .realise w i (.send m { job with stepNr := ans.stepNr }))
    else (s, .walk w)
  | .send m job =>
    if (s.machines.machine m).receiverOpen then
      ({ s with log := { s.log with
          sent := (job.internalBuildId, i, m) :: s.log.sent } },
        .realise w i (.sent m job))
    else (s, .walk w)
  | .sent m job =>
    ({ s with machines := s.machines.modifyMachine m (fun r =>
        r.buildDrvSent (Shared.seconds ans.now) job) },
      .realise w i (.schedule m job))
  | .schedule m _ =>
    ({ s with queues := s.queues.addJobToScheduled i w.system m }, .walk w)
  | .remove =>
    ({ s with queues := s.queues.removeJob held i w.system }, .walk w)

/-- One turn of the first loop of `abort_unsupported`. -/
def abortStep (cfg : Config) (s : Shared) (now : Timestamp)
    (todo aborted : List StepRef) (r : StepRef) (ans : Answer) :
    Shared × DispatchPc :=
  if s.machines.supportStep (s.graph.getSystem r)
      (s.graph.getRequiredFeatures r) then
    ({ s with graph := s.graph.setLastSupportedNow r ans.now },
      .abort now todo aborted)
  else if now - (s.graph.step r).lastSupported < cfg.maxUnsupportedTime then
    (s, .abort now todo aborted)
  else
    let aborted := aborted ++ [r]
    match pickBuild (s.graph.getDependents r).builds r.drvPath ans.build with
    | none => (s, .abort now todo aborted)
    | some b =>
      let job : Job :=
        { internalBuildId := s.nextUuid
          path := r.drvPath
          resolvedDrv := none
          buildId := b.id
          result := { stepStatus := .unsupported } }
      let (s, f) := InnerFail.start
        { s with nextUuid := s.nextUuid + 1 } r job
      (s, .abortFail now todo aborted f)

/-- The dispatch loop from one step to the next.  It is not enabled when
the answer does not list the entries of the map that is walked. -/
def DispatchPc.resume (cfg : Config) (s : Shared) (held : InfoRef → Bool)
    (d : DispatchPc) (ans : Answer) : Option (Shared × DispatchPc) :=
  match d with
  | .idle =>
    let (g, runnable) := s.graph.cloneRunnable
    if ans.steps.Perm runnable then
      some ({ s with graph := g }, .collect ans.now ans.steps ∅)
    else none
  | .collect now [] queues => some (s, .insert now queues)
  | .collect now (r :: todo) queues =>
    some (s, .collect now todo (collectStep s.graph ans queues r))
  | .insert now queues =>
    if queues.keys = [] then some (s, .scrub)
    else
      match queues.lookup ans.system with
      | none => none
      | some jobs =>
        some ({ s with
            queues := s.queues.insertNewJobs held
              (fun r => (s.graph.step r).finished) ans.cmp ans.system jobs now },
          .insert now (queues.erase ans.system))
  | .scrub =>
    some ({ s with queues := s.queues.removeAllWeakPointer held }, .process)
  | .process =>
    if ans.systems.Perm s.queues.inner.keys then
      match ans.systems with
      | [] => some (s, .walk ⟨ans.now, "", [], []⟩)
      | system :: rest =>
        some (s, .walk ⟨ans.now, system, s.queues.queueJobs system, rest⟩)
    else none
  | .walk w =>
    match w.jobs, w.rest with
    | [], [] =>
      -- `process` returns and `abort_unsupported` clones the runnable steps
      let (g, runnable) := s.graph.cloneRunnable
      if ans.steps.Perm runnable then
        some ({ s with graph := g }, .abort ans.now ans.steps [])
      else none
    | [], system :: rest =>
      some (s, .walk ⟨w.now, system, s.queues.queueJobs system, rest⟩)
    | i :: jobs, _ => some (walkStep cfg s held { w with jobs := jobs } i ans)
  | .realise w i pc => some (realiseResume s held w i pc ans)
  | .abort _ [] aborted => some (s, .abortRemove aborted)
  | .abort now (r :: todo) aborted =>
    some (abortStep cfg s now todo aborted r ans)
  | .abortFail now todo aborted f =>
    match f.resume s ans with
    | (s, .running f) => some (s, .abortFail now todo aborted f)
    | (s, .returned _) => some (s, .abort now todo aborted)
  | .abortRemove aborted =>
    if aborted = [] then some (s, .abortScrub)
    else if ans.step ∈ aborted then
      some ({ s with queues := s.queues.removeJobByPath ans.step.drvPath },
        .abortRemove (aborted.erase ans.step))
    else none
  | .abortScrub =>
    some ({ s with queues := s.queues.removeAllWeakPointer held }, .idle)

end QueueRunner
