import QueueRunner.Builder
import QueueRunner.Lib.Fifo
import QueueRunner.Lib.Handout
import QueueRunner.Lib.Refine
import QueueRunner.Messages

/-!
# The queue runner and its builders

One queue runner, the builders that have registered, and a tunnel from the
runner to each of them.  The runner is `Runner`, a builder is `Builder`.  A
builder process has one id and opens one tunnel, so the builders and the
tunnels are named by the machines of the runner.

A tunnel is the channel of the machine, the stream, and the loop
`start_bidirectional_stream` at its end, which handles one request after the
other.  Messages are lost only when the tunnel breaks, and then all that
follow are lost too; this is a tunnel whose messages wait for ever.  The
messages that concern no build (`Join`, `Ping`, `ConfigUpdate`) are left out.

A builder reports by the RPC `complete_build` and repeats it until it gets
an answer.  So a report that was posted may arrive at any time, any number of
times, or never.
-/

namespace QueueRunner

/-- How the two sides write and read the identifiers: `Uuid::to_string`,
`Uuid::parse_str`, and the store directory of the builder. -/
structure Wire where
  uuidText : Uuid → String
  parseUuid : String → Option Uuid
  parse_uuidText : ∀ u, parseUuid (uuidText u) = some u
  env : NixEnv

/-- `JobFailure`, without its texts. -/
inductive JobFailure where
  | build
  | preparing
  | import
  | upload
  | postProcessing
deriving DecidableEq

/-- `BuildResultState::from` of a `JobFailure`. -/
def JobFailure.resultState : JobFailure → BuildResultState
  | .build => .buildFailure
  | .preparing => .preparingFailure
  | .import => .importFailure
  | .upload => .uploadFailure
  | .postProcessing => .postProcessingFailure

/-- The `BuildResultInfo` of a report, as far as the runner routes by it,
and the machine whose builder posted it. -/
structure Completion where
  machine : MachineRef
  uuid : Uuid
  state : BuildResultState
  output : BuildReport
deriving DecidableEq

/-- What a task reports in its next step: a success at the end of
`process_build`, a failure after `remove_build`. -/
def BuildTask.posts (task : BuildTask) (ok : Bool) (failure : JobFailure) :
    Option BuildResultState :=
  match task.pc with
  | .processing => if ok then some .success else none
  | .removed => some failure.resultState
  | _ => none

/-- The runner, the builders and the tunnels, with the history of the
builds that were started and of the reports that were posted. -/
structure Cluster where
  runner : Runner := {}
  builder : MachineRef → Builder := fun _ => {}
  tunnel : MachineRef → Fifo RunnerRequest := fun _ => {}
  started : List (Uuid × MachineRef) := []
  posted : List Completion := []

/-- The steps of the cluster. -/
inductive ClusterAction where
  /-- A step of the runner; the options are those of the build of the
  message, if the step sends one. -/
  | runner (a : Action) (opts : BuildOptions) (presigned : Option PresignedUrlOpts)
  /-- The builder of a machine gets the next request. -/
  | receive (m : MachineRef)
  /-- A step of a builder that does not wait for the tunnel. -/
  | builder (m : MachineRef) (a : BuilderAction) (failure : JobFailure)
      (output : BuildReport)
  /-- A report arrives. -/
  | complete (p : Completion)

/-- The action is the RPC of a builder. -/
def Action.isReport : Action → Bool
  | .completeBuild _ _ _ _ => true
  | _ => false

/-- The action is a request that the builder gets over the tunnel. -/
def BuilderAction.isRequest : BuilderAction → Bool
  | .build _ | .abort _ => true
  | _ => false

/-- `handle_request`, with the id of the task that it has spawned.  A
request waits while `schedule_build` is between the task and its entry. -/
def Wire.handleRequest (wire : Wire) (b : Builder) :
    RunnerRequest → Option (Builder × Option Uuid)
  | .configUpdate _ => some (b, none)
  | .build m =>
    (b.next (.build ⟨wire.parseUuid m.buildId,
      StorePath.new wire.env.storeDirSlash m.drv⟩)).map
      (fun b' => (b', b'.inserting.map Prod.fst))
  | .abort buildId => (b.next (.abort ⟨wire.parseUuid buildId⟩)).map (fun b' => (b', none))

namespace Cluster

/-- A message goes into the channel of its machine. -/
def transmit (wire : Wire) (c : Cluster) (out : Option (MachineRef × MachineMessage)) :
    MachineRef → Fifo RunnerRequest :=
  match out with
  | none => c.tunnel
  | some (m, msg) =>
    Function.update c.tunnel m ((c.tunnel m).push (msg.intoRequest wire.uuidText))

/-- The report that a step of a builder posts. -/
def report (c : Cluster) (m : MachineRef) (a : BuilderAction) (failure : JobFailure)
    (output : BuildReport) : Option Completion :=
  match a with
  | .task t ok =>
    match (c.builder m).tasks.lookup t with
    | none => none
    | some task =>
      (task.posts ok failure).map (fun state => ⟨m, task.buildId, state, output⟩)
  | _ => none

/-- One step of the cluster; nothing when the action is not enabled. -/
def next (cfg : Config) (wire : Wire) (c : Cluster) : ClusterAction → Option Cluster
  | .runner a opts presigned =>
    if a.isReport then none
    else
      match c.runner.next cfg a with
      | none => none
      | some r => some { c with
          runner := r
          tunnel := c.transmit wire (c.runner.outgoing opts presigned a) }
  | .receive m =>
    match (c.tunnel m).pop with
    | none => none
    | some (request, rest) =>
      match wire.handleRequest (c.builder m) request with
      | none => none
      | some (b, spawned) => some { c with
          builder := Function.update c.builder m b
          tunnel := Function.update c.tunnel m rest
          started := (spawned.map (fun id => (id, m))).toList ++ c.started }
  | .builder m a failure output =>
    if a.isRequest then none
    else
      match (c.builder m).next a with
      | none => none
      | some b => some { c with
          builder := Function.update c.builder m b
          posted := (c.report m a failure output).toList ++ c.posted }
  | .complete p =>
    if p ∈ c.posted then
      match c.runner.next cfg (.completeBuild p.uuid p.machine.id p.state p.output) with
      | none => none
      | some r => some { c with runner := r }
    else none

/-! ## The protocol -/

/-- The cluster as a protocol that hands out derivations. -/
def handout (c : Cluster) : Handout.State Uuid MachineRef StorePath where
  issued := c.runner.shared.log.sent.map (fun e => (e.1, e.2.2, e.2.1.drvPath))
  started := c.started
  reported := (c.posted.filter (fun p => p.state = .success)).map (fun p => (p.uuid, p.machine))
  accepted := c.runner.shared.log.succeeded.map StepRef.drvPath

end Cluster

/-! ## What a builder does -/

namespace Builder

variable {b b' : Builder}

/-- A step that spawns no task. -/
structure Continues (b b' : Builder) : Prop where
  delivered : b'.delivered = b.delivered
  fresh : b'.fresh = b.fresh
  tasks : ∀ t task', b'.tasks.lookup t = some task' →
    ∃ task, b.tasks.lookup t = some task ∧ task'.buildId = task.buildId

namespace Continues

theorem refl (b : Builder) : Continues b b := ⟨rfl, rfl, fun _ task' ht => ⟨task', ht, rfl⟩⟩

theorem trans {b'' : Builder} (h : Continues b b') (h' : Continues b' b'') :
    Continues b b'' := by
  refine ⟨h'.delivered.trans h.delivered, h'.fresh.trans h.fresh, fun t task'' ht => ?_⟩
  obtain ⟨task', ht', hid'⟩ := h'.tasks t task'' ht
  obtain ⟨task, ht, hid⟩ := h.tasks t task' ht'
  exact ⟨task, ht, hid'.trans hid⟩

/-- A task goes on under its id. -/
theorem setTask {t : Nat} {task task' : BuildTask} (ht : b.tasks.lookup t = some task)
    (htasks : b'.tasks = b.tasks.insert t task') (hid : task'.buildId = task.buildId)
    (hdelivered : b'.delivered = b.delivered) (hfresh : b'.fresh = b.fresh) :
    Continues b b' := by
  refine ⟨hdelivered, hfresh, fun t₁ task₁ ht₁ => ?_⟩
  rw [htasks, Map.lookup_insert_eq] at ht₁
  split_ifs at ht₁ with he
  · cases ht₁
    exact ⟨task, he ▸ ht, hid⟩
  · exact ⟨task₁, ht₁, rfl⟩

theorem endTask (t : Nat) (hdelivered : b'.delivered = b.delivered)
    (hfresh : b'.fresh = b.fresh) (htasks : b'.tasks = b.tasks.erase t) :
    Continues b b' := by
  refine ⟨hdelivered, hfresh, fun t₁ task₁ ht₁ => ?_⟩
  rw [htasks, Map.lookup_erase_eq] at ht₁
  split_ifs at ht₁
  exact ⟨task₁, ht₁, rfl⟩

theorem abortTask (b : Builder) (info : BuildInfo) : Continues b (b.abortTask info) := by
  unfold Builder.abortTask
  split
  · exact .refl b
  · rename_i task ht
    exact .setTask ht rfl rfl rfl rfl

theorem runTask {t : Nat} {task : BuildTask} (ht : b.tasks.lookup t = some task) (ok : Bool) :
    Continues b (b.runTask t task ok) := by
  unfold Builder.runTask
  cases task.pc with
  | processing => cases ok <;> exact .setTask ht rfl rfl rfl rfl
  | submitting => cases ok <;> exact .setTask ht rfl rfl rfl rfl
  | succeeded => exact .endTask t rfl rfl rfl
  | failed =>
    simp only
    split_ifs
    · exact .endTask t rfl rfl rfl
    · exact .setTask ht rfl rfl rfl rfl
  | removing => exact .setTask ht rfl rfl rfl rfl
  | removed => exact .setTask ht rfl rfl rfl rfl
  | reporting => exact .endTask t rfl rfl rfl

theorem abortAll (l : List BuildInfo) (b : Builder) :
    Continues b (l.foldl Builder.abortTask b) ∧
      (l.foldl Builder.abortTask b).aborts = b.aborts := by
  induction l generalizing b with
  | nil => exact ⟨.refl b, rfl⟩
  | cons info l ih =>
    have haborts : (b.abortTask info).aborts = b.aborts := by
      unfold Builder.abortTask
      split <;> rfl
    obtain ⟨hcontinues, hrest⟩ := ih (b.abortTask info)
    exact ⟨(abortTask b info).trans hcontinues, hrest.trans haborts⟩

end Continues

/-- A step that does not come from the tunnel. -/
theorem continues_of_next {a : BuilderAction} (hlocal : a.isRequest = false)
    (h : b.next a = some b') : Continues b b' ∧ b'.aborts = b.aborts := by
  cases a with
  | build m => cases hlocal
  | abort m => cases hlocal
  | insert =>
    simp only [Builder.next] at h
    split at h <;> cases h
    exact ⟨⟨rfl, rfl, fun _ task' ht => ⟨task', ht, rfl⟩⟩, rfl⟩
  | task t ok =>
    simp only [Builder.next] at h
    split at h
    · rename_i task ht
      cases h
      refine ⟨.runTask ht ok, ?_⟩
      unfold Builder.runTask
      split
      · cases ok <;> rfl
      · cases ok <;> rfl
      · rfl
      · split_ifs <;> rfl
      · rfl
      · rfl
      · rfl
    · cases h
  | cancel t =>
    simp only [Builder.next] at h
    split at h
    · split_ifs at h
      cases h
      exact ⟨.endTask t rfl rfl rfl, rfl⟩
    · cases h
  | panic t =>
    simp only [Builder.next] at h
    split at h
    · split_ifs at h
      cases h
      exact ⟨.endTask t rfl rfl rfl, rfl⟩
    · cases h
  | enableHalt =>
    cases h
    exact ⟨⟨rfl, rfl, fun _ task' ht => ⟨task', ht, rfl⟩⟩, rfl⟩
  | abortAllActiveBuilds =>
    cases h
    obtain ⟨hcontinues, haborts⟩ := Continues.abortAll b.activeBuilds.values b
    exact ⟨⟨hcontinues.delivered, hcontinues.fresh, hcontinues.tasks⟩, haborts⟩

/-- A build is aborted. -/
theorem continues_of_abort {m : AbortMessage} (h : b.next (.abort m) = some b') :
    Continues b b' ∧ b'.aborts = m.buildId.toList ++ b.aborts := by
  simp only [Builder.next] at h
  split at h <;> cases h
  unfold Builder.abortBuild
  cases hid : m.buildId with
  | none => exact ⟨⟨rfl, rfl, fun _ task' ht => ⟨task', ht, rfl⟩⟩, rfl⟩
  | some id =>
    simp only [Builder.removeBuild]
    cases b.activeBuilds.lookup id with
    | none => exact ⟨⟨rfl, rfl, fun _ task' ht => ⟨task', ht, rfl⟩⟩, trivial⟩
    | some info =>
      have habort := Continues.abortAll [info] { b with activeBuilds := b.activeBuilds.erase id }
      exact ⟨⟨habort.1.delivered, habort.1.fresh, habort.1.tasks⟩, trivial⟩

/-- A build is requested: the request is dropped, or a task is spawned for
it. -/
theorem build_cases {m : BuildMessage} (h : b.next (.build m) = some b') :
    b'.delivered = m.buildId.toList ++ b.delivered ∧ b'.aborts = b.aborts ∧
      ((b'.inserting = none ∧ b'.tasks = b.tasks ∧ b'.fresh = b.fresh) ∨
        ∃ id info, m.buildId = some id ∧ b'.inserting = some (id, info) ∧
          b'.tasks = b.tasks.insert b.fresh { buildId := id } ∧ b'.fresh = b.fresh + 1) := by
  simp only [Builder.next] at h
  split at h
  · cases h
  · rename_i hnone
    cases h
    unfold Builder.scheduleBuild
    split_ifs
    · exact ⟨rfl, rfl, Or.inl ⟨hnone, rfl, rfl⟩⟩
    · exact ⟨rfl, rfl, Or.inl ⟨hnone, rfl, rfl⟩⟩
    · cases m.buildId with
      | none => exact ⟨rfl, rfl, Or.inl ⟨hnone, rfl, rfl⟩⟩
      | some id => exact ⟨rfl, rfl, Or.inr ⟨id, _, rfl, rfl, rfl, rfl⟩⟩

end Builder

end QueueRunner
