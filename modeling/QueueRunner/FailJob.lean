import QueueRunner.Allocation
import QueueRunner.Dependents

/-!
# Failing the builds of a step

`inner_fail_job` of `queue-runner/src/state/mod.rs`, with what it writes to the
database.  The loop collects the unfinished builds that depend on the step,
fails them in one transaction, and comes back until there are none.  A set of
builds compares by derivation path, so a round takes one build of each path.

`InnerFail` has the transaction of a round as one step.  Here each turn of its
two loops is a step, because each reads `finished_in_db` of its build.  A queue
pass runs in between: it loads builds, attaches them to steps, and finishes
some of them itself.

A pass makes a new `Build` for every row that the database still has as
unfinished.  If a build of that id is alive and attached, the loop meets both
objects.
-/

namespace QueueRunner

/-- A row of `create_build_step`. -/
structure FailedRow where
  buildId : BuildID
  drvPath : StorePath
  platform : Option System
  machine : String
  status : BuildStatus
  errorMsg : Option String
  propagatedFrom : Option BuildID
  outputs : List DerivationOutput

/-- The arguments of `update_build_after_failure`. -/
structure FailedUpdate where
  buildId : BuildID
  status : BuildStatus
  startTime : Int
  stopTime : Int
  isCachedBuild : Bool

/-- The arguments of `inner_fail_job`, with the fields of the job's result that
`Job` leaves out. -/
structure FailInput where
  step : StepRef
  job : Job
  /-- The host name of the machine. -/
  machine : Option String := none
  errorMsg : Option String := none
  canCache : Bool := false
  startTime : Option Timestamp := none
  stopTime : Option Timestamp := none
  /-- The clock when the call starts. -/
  now : Timestamp := 0

namespace FailInput

variable (inp : FailInput)

/-- `i32::try_from` of the seconds of a time. -/
def timeAsI32 (time : Option Timestamp) : Option Int :=
  let v := (time.map Shared.seconds).getD 0
  if -2 ^ 31 ≤ v ∧ v < 2 ^ 31 then some v else none

/-- `get_start_time_as_i32`. -/
def getStartTimeAsI32 : Option Int := timeAsI32 inp.startTime

/-- `get_stop_time_as_i32`.  A job without a stop time stops when the call
starts. -/
def getStopTimeAsI32 : Option Int := timeAsI32 (some (inp.stopTime.getD inp.now))

/-- The `continue` of the loop that creates the rows. -/
def skipsRow (g : Graph) (b : BuildRef) : Bool :=
  (inp.job.result.stepStatus == .cachedFailure && b.drvPath == inp.step.drvPath) ||
    ((inp.job.result.stepStatus != .cachedFailure &&
      inp.job.result.stepStatus != .unsupported) && inp.job.buildId == b.id) ||
    (g.build b).finishedInDb

/-- The outputs of the step, `step.get_outputs().unwrap_or_default()`. -/
def outputs (g : Graph) : List DerivationOutput :=
  match (g.step inp.step).drv with
  | some drv => drv.outputs
  | none => []

/-- The row for a build. -/
def row (g : Graph) (b : BuildRef) : FailedRow where
  buildId := b.id
  drvPath := inp.step.drvPath
  platform := g.getSystem inp.step
  machine := inp.machine.getD ""
  status := inp.job.result.stepStatus
  errorMsg := inp.errorMsg
  propagatedFrom := if inp.job.buildId = b.id then none else some inp.job.buildId
  outputs := inp.outputs g

/-- The update for a build. -/
def update (b : BuildRef) (startTime stopTime : Int) : FailedUpdate where
  buildId := b.id
  status := if b.drvPath ≠ inp.step.drvPath ∧ inp.job.result.stepStatus = .failed
    then .depFailed else inp.job.result.stepStatus
  startTime := startTime
  stopTime := stopTime
  isCachedBuild := inp.job.result.stepStatus == .cachedFailure

/-- The paths that `insert_failed_paths` gets. -/
def failedPaths (g : Graph) : List StorePath :=
  if inp.job.result.stepStatus ≠ .cachedFailure ∧ inp.canCache = true then
    (inp.outputs g).filterMap DerivationOutput.path
  else []

end FailInput

/-- Where `inner_fail_job` is.  `indirect` is the set of the round, `todo` what
a loop over it has not looked at. -/
inductive FailJobPc where
  /-- For `finish_build_step`, when the job has a step number. -/
  | start
  | rows (indirect todo : List BuildRef)
  | updates (indirect todo : List BuildRef)
  /-- For the failed paths and the commit. -/
  | commit (indirect : List BuildRef)
  /-- For the notification. -/
  | notify
  | returned (ok : Bool)
deriving DecidableEq

/-- The builds that the call holds. -/
def FailJobPc.builds : FailJobPc → List BuildRef
  | .rows indirect _ | .updates indirect _ | .commit indirect => indirect
  | _ => []

/-- A call of `inner_fail_job` beside a queue pass. -/
structure FailRun where
  create : CreateState
  pc : FailJobPc := .start
  rows : List FailedRow := []
  updates : List FailedUpdate := []
  failedPaths : List StorePath := []
  dependentIds : List BuildID := []
  /-- The arguments of `notify_build_finished`. -/
  notified : Option (BuildID × List BuildID) := none
  /-- The builds that are finished in the database. -/
  db : List BuildID
  /-- The builds that this call has set finished. -/
  handled : List BuildRef := []
  /-- The builds that were finished before the call, or by the pass. -/
  elsewhere : List BuildRef
  /-- The graph at the end of the loop. -/
  exit : Option Graph := none
  /-- How often the call was resumed. -/
  resumed : Nat := 0

/-- The steps of the call and of what runs beside it. -/
inductive FailAction where
  /-- `order` is how the set of the next round is walked. -/
  | resume (order : List BuildRef)
  | create (a : CreateAction) (ans : Answer)
  | dropStep (s : StepRef)
  | dropBuild (b : BuildRef)

namespace FailRun

variable (cfg : Config) (inp : FailInput)

def graph (r : FailRun) : Graph := r.create.graph

def setGraph (r : FailRun) (g : Graph) : FailRun :=
  { r with create := { r.create with graph := g } }

/-- The head of the loop. -/
def loopHead (r : FailRun) (order : List BuildRef) (stepFinished : Bool) : Option FailRun :=
  let (g, indirect) := r.graph.getAllIndirectBuilds inp.step
  if order.Perm indirect then
    if indirect = [] ∧ stepFinished = true then
      some { r.setGraph g with pc := .notify, exit := some r.graph }
    else some { r.setGraph g with pc := .rows order order }
  else none

/-- The end of a round. -/
def finishRound (r : FailRun) (indirect : List BuildRef) : FailRun :=
  { r.setGraph (r.graph.finishBuilds indirect) with
    failedPaths := r.failedPaths ++ inp.failedPaths r.graph
    dependentIds := r.dependentIds ++ indirect.map BuildRef.id
    db := r.db ++ indirect.map BuildRef.id
    handled := r.handled ++ indirect }

/-- The call from one step to the next, when no database operation fails. -/
def resume (r : FailRun) (order : List BuildRef) : Option FailRun :=
  match r.pc with
  | .start => r.loopHead inp order false
  | .rows indirect [] => some { r with pc := .updates indirect indirect }
  | .rows indirect (b :: todo) =>
    if inp.skipsRow r.graph b then some { r with pc := .rows indirect todo }
    else some { r with pc := .rows indirect todo, rows := r.rows ++ [inp.row r.graph b] }
  | .updates indirect [] => some { r with pc := .commit indirect }
  | .updates indirect (b :: todo) =>
    if (r.graph.build b).finishedInDb then some { r with pc := .updates indirect todo }
    else
      match inp.getStartTimeAsI32, inp.getStopTimeAsI32 with
      | some startTime, some stopTime => some { r with
          pc := .updates indirect todo
          updates := r.updates ++ [inp.update b startTime stopTime] }
      | _, _ => some { r with pc := .returned false }
  | .commit indirect => (r.finishRound inp indirect).loopHead inp order true
  | .notify => some { r with
      pc := .returned true
      notified := some (inp.job.buildId, r.dependentIds) }
  | .returned _ => none

/-- The builds that a step has finished. -/
def newlyFinished (g g' : Graph) : List BuildRef :=
  g.allocatedBuilds.filter (fun b => !(g.build b).finishedInDb && (g'.build b).finishedInDb)

/-- The pass has changed the graph and its calls. -/
def setCreate (r : FailRun) (c : CreateState) : FailRun :=
  { r with
    create := c
    db := r.db ++ (newlyFinished r.graph c.graph).map BuildRef.id
    elsewhere := r.elsewhere ++ newlyFinished r.graph c.graph }

/-- Whether a strong pointer to a step is left, as far as it is known here. -/
def stepHeld (r : FailRun) (s : StepRef) : Bool :=
  s = inp.step ∨ s ∈ r.create.creation.steps' ∨
    (∃ t ∈ r.graph.allocated, (r.graph.step t).alive = true ∧ s ∈ (r.graph.step t).deps) ∨
    ∃ b ∈ r.graph.allocatedBuilds, (r.graph.build b).alive = true ∧
      (r.graph.build b).toplevel = some s

/-- Whether a strong pointer to a build is left. -/
def buildHeld (r : FailRun) (b : BuildRef) : Bool :=
  b ∈ r.graph.builds.values ∨ b ∈ r.create.creation.builds' ∨ b ∈ r.pc.builds

/-- One step; nothing when the action is not enabled. -/
def next (r : FailRun) : FailAction → Option FailRun
  | .resume order =>
    match r.resume inp order with
    | some r' => some { r' with resumed := r.resumed + 1 }
    | none => none
  | .create a ans =>
    match r.create.next cfg ans a with
    | some c => some (r.setCreate c)
    | none => none
  | .dropStep s =>
    if r.stepHeld inp s then none else some (r.setGraph (r.graph.dropStep s))
  | .dropBuild b =>
    if r.buildHeld b then none else some (r.setGraph (r.graph.dropBuild b))

end FailRun

/-- The call starts. -/
def FailInput.start (c : CreateState) (db : List BuildID) : FailRun where
  create := c
  db := db
  elsewhere := c.graph.allocatedBuilds.filter (fun b => (c.graph.build b).finishedInDb)

/-- The end of a round does to the graph what the transaction of `InnerFail`
does. -/
theorem FailRun.graph_commit {inp : FailInput} {r r' : FailRun} {indirect order : List BuildRef}
    (hpc : r.pc = .commit indirect) (hres : r.resume inp order = some r') (s : Shared)
    (hs : s.graph = r.graph) :
    ((⟨inp.step, inp.job, .mark indirect⟩ : InnerFail).resume s {}).1.graph = r'.graph := by
  have hloop : ∀ (s : Shared) (v : Bool), (InnerFail.loopHead s inp.step inp.job v).1.graph =
      (s.graph.getAllIndirectBuilds inp.step).1 := by
    intro s v
    unfold InnerFail.loopHead
    simp only
    split_ifs <;> rfl
  have hhead : ∀ (r r' : FailRun) (v : Bool), r.loopHead inp order v = some r' →
      r'.graph = (r.graph.getAllIndirectBuilds inp.step).1 := by
    intro r r' v h
    simp only [loopHead] at h
    split_ifs at h <;> obtain rfl := Option.some.inj h <;> rfl
  simp only [resume, hpc] at hres
  rw [hhead _ _ _ hres]
  simp only [InnerFail.resume, if_true, hloop, hs]
  rfl

/-! ## Each build once -/

/-- The state of the runner when the call starts. -/
structure FailStart (cfg : Config) (inp : FailInput) (c : CreateState) : Prop where
  create : CreateOk cfg c
  life : BuildLife c
  allocated : Allocated c
  step : inp.step ∈ c.graph.allocated

/-- Every state that the runner reaches is one. -/
theorem FailStart.of_reach {cfg : Config} {inp : FailInput} {r : Runner}
    {ok : Runner → Action → Prop} (h : Lts.Reach (Runner.next cfg) ok {} r)
    (hstep : inp.step ∈ r.shared.graph.allocated) : FailStart cfg inp r.createState :=
  ⟨(RunnerOk.reach h).create, .reach h, .reach h, hstep⟩

/-- The database answers a pass with builds that are not finished, and with
each of them once. -/
def UnfinishedRows (r : FailRun) : FailAction → Prop
  | .create (.startPass rows) _ => (rows.map Prod.fst).Nodup ∧ ∀ row ∈ rows, row.1 ∉ r.db
  | _ => True

/-- The build is not finished in the database, and no other build with its id
is pending. -/
def Graph.OnlyOne (g : Graph) (db : List BuildID) (b : BuildRef) : Prop :=
  b.id ∉ db ∧ ∀ c ∈ g.allocatedBuilds, g.Pending c → c.id = b.id → c = b

/-- No two builds with one id are pending, and none of them is finished in the
database. -/
def Graph.OnePending (g : Graph) (db : List BuildID) : Prop :=
  ∀ b ∈ g.allocatedBuilds, g.Pending b → g.OnlyOne db b

/-- Each build that depends on the step is the only one with its id. -/
def Graph.DependentsApart (g : Graph) (s : StepRef) (db : List BuildID) : Prop :=
  ∀ b, g.DependsOn s b → g.OnlyOne db b

/-- Both times of the job fit into an `i32`. -/
def FailInput.TimesFit (inp : FailInput) : Prop :=
  inp.getStartTimeAsI32.isSome = true ∧ inp.getStopTimeAsI32.isSome = true

/-- The rows that a pass loads. -/
def CreateAction.rows : CreateAction → List (BuildID × StorePath)
  | .startPass rows => rows
  | _ => []

/-- No pass loads a build again that the round has or that depends on the
step. -/
def LoadsNoneAgain (inp : FailInput) (r : FailRun) (a : CreateAction) : Prop :=
  ∀ row ∈ a.rows, ∀ b,
    r.graph.Pending b ∧ b ∈ r.pc.builds ∨ r.graph.DependsOn inp.step b → b.id ≠ row.1

/-- A build that begins to depend on the step is the only one with its id. -/
def BeginsAlone (cfg : Config) (inp : FailInput) (r : FailRun) (a : CreateAction)
    (ans : Answer) : Prop :=
  ∀ c ∈ r.create.next cfg ans a, ∀ b, c.graph.DependsOn inp.step b →
    r.graph.DependsOn inp.step b ∨ c.graph.OnlyOne (r.setCreate c).db b

/-- The builds of one id are kept apart, as far as they depend on the failed
step, and when a round ends, the steps that refer to it have different
paths. -/
def KeepsApart (cfg : Config) (inp : FailInput) (r : FailRun) : FailAction → Prop
  | .create a ans => LoadsNoneAgain inp r a ∧ BeginsAlone cfg inp r a ans
  | .resume _ =>
    match r.pc with
    | .commit _ => r.graph.CollapseFree inp.step
    | _ => True
  | _ => True

/-- Each build that depends on the step is failed once. -/
structure FailsOnce (cfg : Config) (inp : FailInput) (r : FailRun) : Prop where
  rows : (r.rows.map FailedRow.buildId).Nodup
  updates : (r.updates.map FailedUpdate.buildId).Nodup
  dependentIds : r.dependentIds.Nodup
  handled : ∀ b ∈ r.handled, (r.graph.build b).finishedInDb = true ∧
    r.graph.builds.lookup b.id = none ∧
    (b ∈ r.elsewhere ∨ (r.updates.map FailedUpdate.buildId).count b.id = 1)
  /-- When the loop has ended, no build that depends on the step is left. -/
  exit : ∀ g, r.exit = some g → ∀ t b, g.Refers inp.step t → b ∈ (g.step t).builds →
    (g.build b).alive = true → b ∈ r.elsewhere ∨ b ∈ r.handled
  /-- The call can always go on until it returns, -/
  goesOn : r.pc = .returned true ∨
    ∃ order r', FailRun.next cfg inp r (.resume order) = some r'
  /-- and the builds bound the number of its steps. -/
  ends : r.resumed ≤ 5 * r.graph.allocatedBuilds.length + 5

/-! ## The invariant -/

/-- The builds of the round that have not had their turn in the first loop. -/
def FailJobPc.rowsTodo : FailJobPc → List BuildRef
  | .rows _ todo => todo
  | _ => []

/-- The builds of the round that have not had their turn in the second loop. -/
def FailJobPc.updatesTodo : FailJobPc → List BuildRef
  | .rows indirect _ => indirect
  | .updates _ todo => todo
  | _ => []

/-- The steps that are left in the round, and after the loop. -/
def FailJobPc.stepsLeft : FailJobPc → Nat
  | .start => 5
  | .rows indirect todo => 4 + indirect.length + todo.length
  | .updates _ todo => 3 + todo.length
  | .commit _ => 2
  | .notify => 1
  | .returned _ => 0

/-- The builds that a later round may collect. -/
def FailRun.ahead (r : FailRun) : List BuildRef :=
  r.graph.allocatedBuilds.filter (fun b =>
    !(r.graph.build b).finishedInDb && decide (b ∉ r.pc.builds))

/-- What holds of the builds between two rounds and in them. -/
structure FailBase (cfg : Config) (inp : FailInput) (r : FailRun) : Prop where
  start : FailStart cfg inp r.create
  apart : r.graph.DependentsApart inp.step r.db
  /-- What the call has finished is not pending under another reference. -/
  gone : ∀ b ∈ r.handled, ∀ c ∈ r.graph.allocatedBuilds, r.graph.Pending c → c.id ≠ b.id
  finished : ∀ b ∈ r.graph.allocatedBuilds, (r.graph.build b).finishedInDb = true →
    b ∈ r.elsewhere ∨ b ∈ r.handled
  handled : ∀ b ∈ r.handled, (r.graph.build b).finishedInDb = true ∧
    r.graph.builds.lookup b.id = none ∧ b.id ∈ r.db ∧ b ∈ r.graph.allocatedBuilds ∧
    (b ∈ r.elsewhere ∨ b.id ∈ r.updates.map FailedUpdate.buildId)
  ids : r.dependentIds = r.handled.map BuildRef.id
  nodup : r.dependentIds.Nodup
  exit : ∀ g, r.exit = some g → ∀ t b, g.Refers inp.step t → b ∈ (g.step t).builds →
    (g.build b).alive = true → b ∈ r.elsewhere ∨ b ∈ r.handled

/-- What holds of the round. -/
structure FailRound (r : FailRun) : Prop where
  indirect : ∀ b ∈ r.pc.builds, b ∈ r.graph.allocatedBuilds ∧ (r.graph.build b).alive = true ∧
    b.id ∉ r.dependentIds ∧
    ((r.graph.build b).finishedInDb = true → b ∈ r.elsewhere ∧ b.id ∈ r.db)
  apart : ∀ b ∈ r.pc.builds, ∀ c ∈ r.graph.allocatedBuilds, r.graph.Pending c →
    c.id = b.id → c = b
  ids : (r.pc.builds.map BuildRef.id).Nodup
  rowsTodo : r.pc.rowsTodo.Sublist r.pc.builds
  updatesTodo : r.pc.updatesTodo.Sublist r.pc.builds
  rows : (r.rows.map FailedRow.buildId).Nodup
  updates : (r.updates.map FailedUpdate.buildId).Nodup
  rowIds : ∀ id ∈ r.rows.map FailedRow.buildId,
    id ∈ r.dependentIds ∨ id ∈ r.pc.builds.map BuildRef.id
  updateIds : ∀ id ∈ r.updates.map FailedUpdate.buildId,
    id ∈ r.dependentIds ∨ id ∈ r.pc.builds.map BuildRef.id
  rowsAhead : ∀ b ∈ r.pc.rowsTodo, b.id ∉ r.rows.map FailedRow.buildId
  updatesAhead : ∀ b ∈ r.pc.updatesTodo, b.id ∉ r.updates.map FailedUpdate.buildId
  updated : ∀ b ∈ r.pc.builds, b ∈ r.pc.updatesTodo ∨ b ∈ r.elsewhere ∨
    b.id ∈ r.updates.map FailedUpdate.buildId

/-- The invariant of the call. -/
structure FailInv (cfg : Config) (inp : FailInput) (r : FailRun) : Prop where
  base : FailBase cfg inp r
  round : FailRound r
  noError : r.pc ≠ .returned false
  potential : r.resumed + r.pc.stepsLeft + 5 * r.ahead.length ≤
    5 * r.graph.allocatedBuilds.length + 5

namespace FailInv

variable {cfg : Config} {inp : FailInput} {r r' : FailRun}

theorem init {c : CreateState} {db : List BuildID} (hstart : FailStart cfg inp c)
    (hapart : c.graph.DependentsApart inp.step db) : FailInv cfg inp (FailInput.start c db) where
  base :=
    { start := hstart
      apart := hapart
      gone := by simp [FailInput.start]
      finished := fun b hb hf => .inl (List.mem_filter.mpr ⟨hb, hf⟩)
      handled := by simp [FailInput.start]
      ids := rfl
      nodup := List.nodup_nil
      exit := by simp [FailInput.start] }
  round := by constructor <;> simp [FailInput.start, FailJobPc.builds, FailJobPc.rowsTodo,
    FailJobPc.updatesTodo]
  noError := by simp [FailInput.start]
  potential := by
    have hle : (FailInput.start c db).ahead.length ≤
        (FailInput.start c db).graph.allocatedBuilds.length := List.length_filter_le _ _
    simp only [FailInput.start, FailJobPc.stepsLeft] at hle ⊢
    omega

/-! ## The steps beside the call -/

/-- A step of something else: it may allocate, finish and free builds. -/
structure Beside (inp : FailInput) (r : FailRun) (c : CreateState) : Prop where
  new : ∃ bs, c.graph.allocatedBuilds = bs ++ r.graph.allocatedBuilds ∧
    ∀ b ∈ bs, b.id ∉ r.db ∧ (c.graph.build b).finishedInDb = false ∧
      ∀ d, r.graph.Pending d ∧ d ∈ r.pc.builds ∨ r.graph.DependsOn inp.step d → d.id ≠ b.id
  depends : ∀ b, c.graph.DependsOn inp.step b →
    r.graph.DependsOn inp.step b ∨ c.graph.OnlyOne (r.setCreate c).db b
  alive : ∀ b ∈ r.graph.allocatedBuilds, (c.graph.build b).alive = true →
    (r.graph.build b).alive = true
  held : ∀ b ∈ r.pc.builds, b ∈ r.graph.allocatedBuilds → (r.graph.build b).alive = true →
    (c.graph.build b).alive = true
  finished : ∀ b ∈ r.graph.allocatedBuilds, (r.graph.build b).finishedInDb = true →
    (c.graph.build b).finishedInDb = true
  finishes : ∀ b ∈ FailRun.newlyFinished r.graph c.graph, (r.graph.build b).alive = true
  builds : ∀ b ∈ r.handled, r.graph.builds.lookup b.id = none →
    c.graph.builds.lookup b.id = none

theorem mem_newlyFinished {g g' : Graph} {b : BuildRef} :
    b ∈ FailRun.newlyFinished g g' ↔ b ∈ g.allocatedBuilds ∧
      (g.build b).finishedInDb = false ∧ (g'.build b).finishedInDb = true := by
  simp [FailRun.newlyFinished]

/-- An older build that is pending was pending before. -/
theorem pending_of_beside {c : CreateState} (hc : Beside inp r c) {b : BuildRef}
    (hb : c.graph.Pending b) (hmem : b ∈ r.graph.allocatedBuilds) : r.graph.Pending b := by
  refine ⟨hc.alive b hmem hb.1, ?_⟩
  by_contra hf
  have := hc.finished b hmem (by simpa using hf)
  rw [hb.2] at this
  cases this

/-- A build that depends on the step stays the only one with its id. -/
theorem onlyOne_beside {c : CreateState} (hc : Beside inp r c) {b : BuildRef}
    (h : r.graph.OnlyOne r.db b) (hb : c.graph.Pending b) (hold : r.graph.DependsOn inp.step b) :
    c.graph.OnlyOne (r.setCreate c).db b := by
  obtain ⟨bs, hbs, hnew⟩ := hc.new
  refine ⟨fun hdb => ?_, fun d hd hpd hid => ?_⟩
  · refine (List.mem_append.mp hdb).elim h.1 fun hdb => ?_
    obtain ⟨d, hd, hid⟩ := List.mem_map.mp hdb
    obtain ⟨hmem, hunfinished, hfinished⟩ := mem_newlyFinished.mp hd
    obtain rfl := h.2 d hmem ⟨hc.finishes d hd, hunfinished⟩ hid
    rw [hb.2] at hfinished
    cases hfinished
  · rw [hbs] at hd
    rcases List.mem_append.mp hd with hd | hd
    · exact absurd hid.symm ((hnew d hd).2.2 b (.inr hold))
    · exact h.2 d hd (pending_of_beside hc hpd hd) hid

theorem base_beside (h : FailBase cfg inp r) {c : CreateState} (hstart : FailStart cfg inp c)
    (hc : Beside inp r c) : FailBase cfg inp (r.setCreate c) where
  start := hstart
  apart b hb := by
    rcases hc.depends b hb with hold | hone
    · exact onlyOne_beside hc (h.apart b hold) hb.1 hold
    · exact hone
  gone b hb d hd hpd := by
    obtain ⟨bs, hbs, hnew⟩ := hc.new
    have hd : d ∈ c.graph.allocatedBuilds := hd
    rw [hbs] at hd
    rcases List.mem_append.mp hd with hd | hd
    · intro hid
      exact (hnew d hd).1 (hid ▸ (h.handled b hb).2.2.1)
    · exact h.gone b hb d hd (pending_of_beside hc hpd hd)
  finished b hb hf := by
    obtain ⟨bs, hbs, hnew⟩ := hc.new
    have hmem : b ∈ r.graph.allocatedBuilds := by
      have hb : b ∈ c.graph.allocatedBuilds := hb
      rw [hbs] at hb
      refine (List.mem_append.mp hb).resolve_left (fun hb => ?_)
      have := (hnew b hb).2.1
      rw [show (c.graph.build b).finishedInDb = true from hf] at this
      cases this
    by_cases hold : (r.graph.build b).finishedInDb = true
    · exact (h.finished b hmem hold).imp_left (List.mem_append_left _)
    · refine .inl (List.mem_append_right _ (mem_newlyFinished.mpr ⟨hmem, ?_, hf⟩))
      simpa using hold
  handled b hb := by
    obtain ⟨bs, hbs, -⟩ := hc.new
    obtain ⟨hf, hlookup, hdb, hmem, hupdated⟩ := h.handled b hb
    refine ⟨hc.finished b hmem hf, hc.builds b hb hlookup, List.mem_append_left _ hdb, ?_,
      hupdated.imp_left (List.mem_append_left _)⟩
    exact hbs ▸ List.mem_append_right bs hmem
  ids := h.ids
  nodup := h.nodup
  exit g hg t b ht hb halive :=
    (h.exit g hg t b ht hb halive).imp_left (List.mem_append_left _)

theorem round_beside (h : FailRound r) {c : CreateState} (hc : Beside inp r c) :
    FailRound (r.setCreate c) where
  indirect b hb := by
    obtain ⟨bs, hbs, -⟩ := hc.new
    obtain ⟨hmem, halive, hid, hf⟩ := h.indirect b hb
    refine ⟨hbs ▸ List.mem_append_right bs hmem, hc.held b hb hmem halive, hid, fun hf' => ?_⟩
    by_cases hold : (r.graph.build b).finishedInDb = true
    · obtain ⟨helse, hdb⟩ := hf hold
      exact ⟨List.mem_append_left _ helse, List.mem_append_left _ hdb⟩
    · have hnew : b ∈ FailRun.newlyFinished r.graph c.graph :=
        mem_newlyFinished.mpr ⟨hmem, by simpa using hold, hf'⟩
      exact ⟨List.mem_append_right _ hnew,
        List.mem_append_right _ (List.mem_map_of_mem hnew)⟩
  apart b hb d hd hpd hid := by
    obtain ⟨bs, hbs, hnew⟩ := hc.new
    have hd : d ∈ c.graph.allocatedBuilds := hd
    rw [hbs] at hd
    rcases List.mem_append.mp hd with hd | hd
    · obtain ⟨-, halive, -, hfinished⟩ := h.indirect b hb
      by_cases hf : (r.graph.build b).finishedInDb = true
      · exact absurd (hid ▸ (hfinished hf).2) (hnew d hd).1
      · exact absurd hid.symm ((hnew d hd).2.2 b (.inl ⟨⟨halive, by simpa using hf⟩, hb⟩))
    · exact h.apart b hb d hd (pending_of_beside hc hpd hd) hid
  ids := h.ids
  rowsTodo := h.rowsTodo
  updatesTodo := h.updatesTodo
  rows := h.rows
  updates := h.updates
  rowIds := h.rowIds
  updateIds := h.updateIds
  rowsAhead := h.rowsAhead
  updatesAhead := h.updatesAhead
  updated b hb := (h.updated b hb).imp_right (Or.imp_left (List.mem_append_left _))

theorem beside (h : FailInv cfg inp r) {c : CreateState} (hstart : FailStart cfg inp c)
    (hc : Beside inp r c) : FailInv cfg inp (r.setCreate c) where
  base := base_beside h.base hstart hc
  round := round_beside h.round hc
  noError := h.noError
  potential := by
    obtain ⟨bs, hbs, -⟩ := hc.new
    have hahead : (r.setCreate c).ahead.length ≤ bs.length + r.ahead.length := by
      unfold FailRun.ahead
      rw [show (r.setCreate c).graph.allocatedBuilds = _ from hbs, List.filter_append,
        List.length_append]
      refine Nat.add_le_add (List.length_filter_le _ _) ?_
      rw [← List.countP_eq_length_filter, ← List.countP_eq_length_filter]
      refine List.countP_mono_left (fun b hb hleft => ?_)
      simp only [Bool.and_eq_true, Bool.not_eq_true', decide_eq_true_eq] at hleft ⊢
      refine ⟨?_, hleft.2⟩
      by_contra hf
      have hf' := hc.finished b hb (by simpa using hf)
      exact absurd (hf'.symm.trans hleft.1) (by simp)
    have := h.potential
    have hlen : (r.setCreate c).graph.allocatedBuilds.length =
        bs.length + r.graph.allocatedBuilds.length := by
      rw [← List.length_append, ← hbs]
      rfl
    rw [hlen]
    simp only [FailRun.setCreate] at hahead ⊢
    omega

/-- A step that leaves the builds as they are, but for those it enters into
the map. -/
theorem beside_of_sameLives {c : CreateState} (h : r.graph.SameLives c.graph)
    (hdepends : ∀ b, c.graph.DependsOn inp.step b →
      r.graph.DependsOn inp.step b ∨ c.graph.OnlyOne (r.setCreate c).db b)
    (hbuilds : ∀ b ∈ r.handled, r.graph.builds.lookup b.id = none →
      c.graph.builds.lookup b.id = none) :
    Beside inp r c where
  new := ⟨[], h.allocatedBuilds, by simp⟩
  depends := hdepends
  alive b _ halive := (h.alive b).symm.trans halive
  held b _ _ halive := (h.alive b).trans halive
  finished b _ hf := (h.finished b).trans hf
  finishes b hb := by
    obtain ⟨-, hunfinished, hf⟩ := mem_newlyFinished.mp hb
    rw [h.finished b, hunfinished] at hf
    cases hf
  builds := hbuilds

theorem beside_load (h : FailInv cfg inp r) {rows : List (BuildID × StorePath)} {ans : Answer}
    (hrows : UnfinishedRows r (.create (.startPass rows) ans))
    (hapart : KeepsApart cfg inp r (.create (.startPass rows) ans)) :
    Beside inp r (r.create.startPass rows) := by
  have hok := h.base.start.allocated
  obtain ⟨acc, rows', hperm, hload, hgraph, -⟩ := hok.loads_startPass rows
  obtain ⟨bs, hbs, hids, hnew⟩ := hload.new
  have hrow : ∀ b ∈ bs, ∃ row ∈ rows, row.1 = b.id := by
    intro b hb
    have : b.id ∈ rows'.map Prod.fst := hids.mem_iff.mp (List.mem_map_of_mem hb)
    obtain ⟨row, hrow, hid⟩ := List.mem_map.mp this
    exact ⟨row, hperm.mem_iff.mp hrow, hid⟩
  refine ⟨⟨bs, by rw [hgraph]; exact hbs, fun b hb => ?_⟩, hapart.2 _ rfl, fun b hb halive => ?_,
    fun b _ hb halive => ?_, fun b hb hf => ?_, fun b hb => ?_, fun _ _ hid => ?_⟩
  · obtain ⟨row, hmem, hid⟩ := hrow b hb
    refine ⟨hid ▸ hrows.2 row hmem, ?_, fun d hd => hid ▸ hapart.1 row hmem d hd⟩
    rw [hgraph, (hnew b hb).1]
  · rwa [hgraph, hload.old b hb] at halive
  · rw [hgraph, hload.old b hb]
    exact halive
  · rw [hgraph, hload.old b hb]
    exact hf
  · obtain ⟨hmem, hunfinished, hf⟩ := mem_newlyFinished.mp hb
    rw [hgraph, hload.old b hmem] at hf
    exact absurd (hunfinished.symm.trans hf) (by simp)
  · rw [hgraph, hload.builds]
    exact hid

theorem beside_finish {c : CreateState} {b : BuildRef} (hg : c.graph = r.graph.setFinishedInDb b)
    (halive : (r.graph.build b).alive = true)
    (hdepends : ∀ b, c.graph.DependsOn inp.step b →
      r.graph.DependsOn inp.step b ∨ c.graph.OnlyOne (r.setCreate c).db b) :
    Beside inp r c := by
  have hrecord : ∀ d, c.graph.build d =
      if d = b then { r.graph.build b with finishedInDb := true } else r.graph.build d := by
    intro d
    by_cases hd : d = b <;> simp [hg, Graph.setFinishedInDb, Graph.modifyBuild, hd]
  have hlives : ∀ d, (c.graph.build d).alive = (r.graph.build d).alive := by
    intro d
    rw [hrecord]
    split_ifs with hd
    · rw [hd]
    · rfl
  refine ⟨⟨[], by rw [hg]; rfl, by simp⟩, hdepends, fun d _ hd => ?_, fun d _ _ hd => ?_,
    fun d _ hd => ?_, fun d hd => ?_, fun _ _ hid => ?_⟩
  · exact (hlives d).symm.trans hd
  · exact (hlives d).trans hd
  · rw [hrecord]
    split_ifs
    · rfl
    · exact hd
  · obtain ⟨-, hunfinished, hf⟩ := mem_newlyFinished.mp hd
    rw [hrecord] at hf
    split_ifs at hf with he
    · exact he ▸ halive
    · exact absurd (hunfinished.symm.trans hf) (by simp)
  · rw [hg]
    exact hid

theorem create (h : FailInv cfg inp r) {a : CreateAction} {ans : Answer} {c : CreateState}
    (hrows : UnfinishedRows r (.create a ans)) (hapart : KeepsApart cfg inp r (.create a ans))
    (hnext : r.create.next cfg ans a = some c) : FailInv cfg inp (r.setCreate c) := by
  have hs := CreateState.createStep_of_next hnext
  have hbuilds := BuildsStep.of_createGraph hs.createGraph
  obtain ⟨hok, hlife, hallocated, hstep⟩ := h.base.start
  have hstart : FailStart cfg inp c := ⟨hok.step hs, hlife.step hok hs, hallocated.step hok hs,
    hbuilds.allocated_subset hallocated hstep⟩
  have hdepends := hapart.2 c hnext
  refine h.beside hstart ?_
  cases hbuilds with
  | same hlives hmap =>
    exact beside_of_sameLives hlives hdepends (fun _ _ hid => by rw [hmap]; exact hid)
  | load rows ha hg =>
    subst ha
    have hc : r.create.startPass rows = c := Option.some.inj hnext
    exact hc ▸ h.beside_load hrows hapart
  | finish k call hcall hg => exact beside_finish hg (hlife.call k call hcall).2.1 hdepends
  | insert k call hcall hunfinished hlives hmap =>
    refine beside_of_sameLives hlives hdepends (fun b hb hid => ?_)
    -- what the call has finished is not what `create_build` enters
    have hne := h.base.gone b hb call.build (hallocated.builds k call hcall)
      ⟨(hlife.call k call hcall).2.1, hunfinished⟩
    rw [hmap, Map.lookup_insert_eq, if_neg hne.symm]
    exact hid

/-- A step or a build is freed. -/
theorem drop (h : FailInv cfg inp r) {g : Graph} (hstart : FailStart cfg inp ⟨g, r.create.present,
      r.create.creation⟩) (hc : Beside inp r ⟨g, r.create.present, r.create.creation⟩)
    (hfinished : ∀ b, (g.build b).finishedInDb = (r.graph.build b).finishedInDb) :
    FailInv cfg inp (r.setGraph g) := by
  have hnone : FailRun.newlyFinished r.graph g = [] := by
    refine List.filter_eq_nil_iff.mpr (fun b _ => ?_)
    rw [hfinished b]
    simp
  have heq : r.setCreate ⟨g, r.create.present, r.create.creation⟩ = r.setGraph g := by
    simp only [FailRun.setCreate, FailRun.setGraph, hnone, List.map_nil, List.append_nil]
  exact heq ▸ h.beside hstart hc

theorem dropStep (h : FailInv cfg inp r) (s : StepRef) :
    FailInv cfg inp (r.setGraph (r.graph.dropStep s)) := by
  obtain ⟨hok, hlife, hallocated, hstep⟩ := h.base.start
  have hrefs : r.create.graph.NoNewRefs (r.create.graph.dropStep s) :=
    .modifyStep _ _ (fun _ => ⟨List.Subset.refl _, List.Subset.refl _⟩)
  have hkeeps : r.create.graph.KeepsLife (r.create.graph.dropStep s) := .of_eq rfl rfl (le_refl _)
  refine h.drop ⟨hok.of_carries (.dropStep _ s) rfl, hlife.of_graph hkeeps _,
    hallocated.of_noNewRefs hrefs rfl, hstep⟩ ?_ (fun _ => rfl)
  have hdepends : ∀ d, (r.graph.dropStep s).DependsOn inp.step d →
      r.graph.DependsOn inp.step d := by
    intro d hd
    have hsame : ∀ t, ((r.graph.dropStep s).step t).rdeps = (r.graph.step t).rdeps ∧
        ((r.graph.dropStep s).step t).builds = (r.graph.step t).builds ∧
        (((r.graph.dropStep s).step t).alive = true → (r.graph.step t).alive = true) := by
      intro t
      rw [Graph.dropStep, Graph.modifyStep_step]
      split_ifs <;> simp
    refine hd.mono (fun t u hu => ⟨(hsame t).1 ▸ hu.1, (hsame u).2.2 hu.2⟩) (fun t => ?_) id
    rw [(hsame t).2.1]
    exact List.Subset.refl _
  exact beside_of_sameLives ⟨fun _ => rfl, fun _ => rfl, rfl, List.Subset.refl _⟩
    (fun d hd => .inl (hdepends d hd)) (fun _ _ => id)

theorem dropBuild (h : FailInv cfg inp r) {b : BuildRef} (hb : r.buildHeld b = false) :
    FailInv cfg inp (r.setGraph (r.graph.dropBuild b)) := by
  obtain ⟨hok, hlife, hallocated, hstep⟩ := h.base.start
  have hrecord : ∀ d, (r.graph.dropBuild b).build d =
      if d = b then { r.graph.build b with alive := false } else r.graph.build d := by
    intro d
    by_cases hd : d = b <;> simp [Graph.dropBuild, Graph.modifyBuild, hd]
  have hfinished : ∀ d, ((r.graph.dropBuild b).build d).finishedInDb =
      (r.graph.build d).finishedInDb := by
    intro d
    rw [hrecord]
    split_ifs with hd
    · rw [hd]
    · rfl
  have hlives : ∀ d, ((r.graph.dropBuild b).build d).alive = true →
      (r.graph.build d).alive = true := by
    intro d hd
    rw [hrecord] at hd
    split_ifs at hd
    exact hd
  have hrefs : r.create.graph.NoNewRefs (r.create.graph.dropBuild b) := .of_eq rfl rfl rfl rfl rfl
  simp only [FailRun.buildHeld, decide_eq_false_iff_not, not_or] at hb
  -- the lemma about the runner, for one that has no other tasks
  have hlife' : BuildLife ⟨r.create.graph.dropBuild b, r.create.present, r.create.creation⟩ := by
    refine BuildLife.dropBuild (r := { shared := { graph := r.create.graph
                                                   log := { present := r.create.present } }
                                       creation := r.create.creation }) hlife ?_
    simp only [Runner.buildHeld, decide_eq_false_iff_not, not_or]
    refine ⟨hb.1, by simp [DispatchPc.builds], hb.2.1, ?_⟩
    rintro ⟨t, ht, -⟩
    obtain ⟨k, hk⟩ := Map.mem_values_iff.mp ht
    simp at hk
  refine h.drop ⟨hok.of_carries (.dropBuild _ b) rfl, hlife', hallocated.of_noNewRefs hrefs rfl,
    hstep⟩ ⟨⟨[], rfl, by simp⟩, fun d hd => .inl ?_, fun d _ hd => ?_, fun d hd _ halive => ?_,
      fun d _ hf => (hfinished d).trans hf, fun d hd => ?_, fun _ _ => id⟩ hfinished
  · refine hd.mono (fun _ _ => id) (fun _ => List.Subset.refl _) fun hpd => ?_
    exact ⟨hlives d hpd.1, (hfinished d).symm.trans hpd.2⟩
  · exact hlives d hd
  · have hne : d ≠ b := by
      rintro rfl
      exact hb.2.2 hd
    simp only [hrecord, if_neg hne]
    exact halive
  · obtain ⟨-, hunfinished, hf⟩ := mem_newlyFinished.mp hd
    simp only [hfinished] at hf
    exact absurd (hunfinished.symm.trans hf) (by simp)

/-! ## The steps of the call -/

/-- A step in a round: only the database and the place in the round change. -/
structure InRound (r r' : FailRun) : Prop where
  create : r'.create = r.create
  builds : r'.pc.builds = r.pc.builds
  db : r'.db = r.db
  handled : r'.handled = r.handled
  elsewhere : r'.elsewhere = r.elsewhere
  dependentIds : r'.dependentIds = r.dependentIds
  exit : r'.exit = r.exit
  updates : r.updates.map FailedUpdate.buildId ⊆ r'.updates.map FailedUpdate.buildId

theorem base_inRound (h : FailBase cfg inp r) (hin : InRound r r') : FailBase cfg inp r' := by
  have hgraph : r'.graph = r.graph := congrArg CreateState.graph hin.create
  refine ⟨hin.create ▸ h.start, ?_, ?_, ?_, fun b hb => ?_, ?_, ?_, ?_⟩
  · rw [hgraph, hin.db]
    exact h.apart
  · rw [hgraph, hin.handled]
    exact h.gone
  · rw [hgraph, hin.elsewhere, hin.handled]
    exact h.finished
  · rw [hin.handled] at hb
    obtain ⟨hf, hlookup, hdb, hmem, hupdated⟩ := h.handled b hb
    rw [hgraph, hin.db, hin.elsewhere]
    exact ⟨hf, hlookup, hdb, hmem, hupdated.imp_right (fun hid => hin.updates hid)⟩
  · rw [hin.dependentIds, hin.handled]
    exact h.ids
  · rw [hin.dependentIds]
    exact h.nodup
  · rw [hin.exit, hin.elsewhere, hin.handled]
    exact h.exit

/-- A step in a round keeps the invariant when it does the right thing to the
database and leaves fewer steps. -/
theorem inRound (h : FailInv cfg inp r) (hin : InRound r r') (hround : FailRound r')
    (hpc : r'.pc ≠ .returned false) (hlt : r'.pc.stepsLeft < r.pc.stepsLeft) :
    FailInv cfg inp { r' with resumed := r.resumed + 1 } where
  base := base_inRound (base_inRound h.base hin) ⟨rfl, rfl, rfl, rfl, rfl, rfl, rfl,
    List.Subset.refl _⟩
  round := ⟨hround.indirect, hround.apart, hround.ids, hround.rowsTodo, hround.updatesTodo,
    hround.rows, hround.updates, hround.rowIds, hround.updateIds, hround.rowsAhead,
    hround.updatesAhead, hround.updated⟩
  noError := hpc
  potential := by
    have hgraph : r'.graph = r.graph := congrArg CreateState.graph hin.create
    have hahead : ({ r' with resumed := r.resumed + 1 } : FailRun).ahead = r.ahead := by
      simp only [FailRun.ahead, FailRun.graph, hin.create, hin.builds]
    have hp := h.potential
    rw [hahead]
    change r.resumed + 1 + r'.pc.stepsLeft + 5 * r.ahead.length ≤
      5 * r'.graph.allocatedBuilds.length + 5
    rw [hgraph]
    omega

theorem round_indirect (h : FailRound r) (hin : InRound r r') :
    ∀ b ∈ r'.pc.builds, b ∈ r'.graph.allocatedBuilds ∧ (r'.graph.build b).alive = true ∧
      b.id ∉ r'.dependentIds ∧
      ((r'.graph.build b).finishedInDb = true → b ∈ r'.elsewhere ∧ b.id ∈ r'.db) := by
  have hgraph : r'.graph = r.graph := congrArg CreateState.graph hin.create
  rw [hin.builds, hgraph, hin.dependentIds, hin.elsewhere, hin.db]
  exact h.indirect

theorem round_apart (h : FailRound r) (hin : InRound r r') :
    ∀ b ∈ r'.pc.builds, ∀ c ∈ r'.graph.allocatedBuilds, r'.graph.Pending c →
      c.id = b.id → c = b := by
  have hgraph : r'.graph = r.graph := congrArg CreateState.graph hin.create
  rw [hin.builds, hgraph]
  exact h.apart

theorem rows (h : FailInv cfg inp r) {indirect todo : List BuildRef}
    (hpc : r.pc = .rows indirect todo) {order : List BuildRef}
    (hres : r.resume inp order = some r') :
    FailInv cfg inp { r' with resumed := r.resumed + 1 } := by
  have hround := h.round
  obtain ⟨-, -, hids, hrowsTodo, hupdatesTodo, hrows, hupdates, hrowIds, hupdateIds,
    hrowsAhead, hupdatesAhead, hupdated⟩ := h.round
  simp only [hpc, FailJobPc.builds, FailJobPc.rowsTodo, FailJobPc.updatesTodo]
    at hids hrowsTodo hupdatesTodo hrowIds hupdateIds hrowsAhead hupdatesAhead hupdated
  simp only [FailRun.resume, hpc] at hres
  cases todo with
  | nil =>
    obtain rfl := Option.some.inj hres
    have hin : InRound r { r with pc := .updates indirect indirect } :=
      ⟨rfl, by rw [hpc]; rfl, rfl, rfl, rfl, rfl, rfl, List.Subset.refl _⟩
    refine h.inRound hin ⟨round_indirect hround hin, round_apart hround hin, hids,
      List.nil_sublist _, hupdatesTodo, hrows, hupdates, hrowIds, hupdateIds,
      by simp [FailJobPc.rowsTodo], hupdatesAhead, hupdated⟩ (by simp) ?_
    simp [hpc, FailJobPc.stepsLeft]
  | cons b todo =>
    simp only at hres
    have htodo : todo.Sublist indirect := (List.sublist_cons_self b todo).trans hrowsTodo
    split_ifs at hres with hskip
    · obtain rfl := Option.some.inj hres
      have hin : InRound r { r with pc := .rows indirect todo } :=
        ⟨rfl, by rw [hpc]; rfl, rfl, rfl, rfl, rfl, rfl, List.Subset.refl _⟩
      refine h.inRound hin ⟨round_indirect hround hin, round_apart hround hin, hids, htodo,
        hupdatesTodo, hrows, hupdates, hrowIds, hupdateIds,
        fun c hc => hrowsAhead c (List.mem_cons_of_mem _ hc), hupdatesAhead, hupdated⟩ (by simp) ?_
      simp [hpc, FailJobPc.stepsLeft]
    · obtain rfl := Option.some.inj hres
      have hin : InRound r { r with
          pc := .rows indirect todo, rows := r.rows ++ [inp.row r.graph b] } :=
        ⟨rfl, by rw [hpc]; rfl, rfl, rfl, rfl, rfl, rfl, List.Subset.refl _⟩
      have hb : b ∈ indirect := hrowsTodo.subset List.mem_cons_self
      have hmap : (r.rows ++ [inp.row r.graph b]).map FailedRow.buildId =
          r.rows.map FailedRow.buildId ++ [b.id] := by simp [FailInput.row]
      have hrest : ∀ c ∈ todo, c.id ≠ b.id :=
        Map.ne_of_nodup_map_cons ((hrowsTodo.map BuildRef.id).nodup hids)
      refine h.inRound hin ⟨round_indirect hround hin, round_apart hround hin, hids, htodo,
        hupdatesTodo, ?_, hupdates, fun id hid => ?_, hupdateIds, fun c hc => ?_, hupdatesAhead,
        hupdated⟩ (by simp) ?_
      · rw [hmap, ← List.concat_eq_append]
        exact List.Nodup.concat (hrowsAhead b List.mem_cons_self) hrows
      · rw [hmap, List.mem_append, List.mem_singleton] at hid
        rcases hid with hid | rfl
        · exact hrowIds id hid
        · exact .inr (List.mem_map_of_mem hb)
      · rw [hmap, List.mem_append, List.mem_singleton, not_or]
        exact ⟨hrowsAhead c (List.mem_cons_of_mem _ hc), hrest c hc⟩
      · simp [hpc, FailJobPc.stepsLeft]

theorem updates (h : FailInv cfg inp r) (htimes : inp.TimesFit) {indirect todo : List BuildRef}
    (hpc : r.pc = .updates indirect todo) {order : List BuildRef}
    (hres : r.resume inp order = some r') :
    FailInv cfg inp { r' with resumed := r.resumed + 1 } := by
  have hround := h.round
  obtain ⟨hindirect, -, hids, -, hupdatesTodo, hrows, hupdates, hrowIds, hupdateIds, -,
    hupdatesAhead, hupdated⟩ := h.round
  simp only [hpc, FailJobPc.builds, FailJobPc.updatesTodo]
    at hindirect hids hupdatesTodo hrowIds hupdateIds hupdatesAhead hupdated
  simp only [FailRun.resume, hpc] at hres
  cases todo with
  | nil =>
    obtain rfl := Option.some.inj hres
    have hin : InRound r { r with pc := .commit indirect } :=
      ⟨rfl, by rw [hpc]; rfl, rfl, rfl, rfl, rfl, rfl, List.Subset.refl _⟩
    refine h.inRound hin ⟨round_indirect hround hin, round_apart hround hin, hids,
      List.nil_sublist _, List.nil_sublist _, hrows, hupdates, hrowIds, hupdateIds,
      by simp [FailJobPc.rowsTodo], by simp [FailJobPc.updatesTodo], hupdated⟩ (by simp) ?_
    simp [hpc, FailJobPc.stepsLeft]
  | cons b todo =>
    simp only at hres
    have htodo : todo.Sublist indirect := (List.sublist_cons_self b todo).trans hupdatesTodo
    have hb : b ∈ indirect := hupdatesTodo.subset List.mem_cons_self
    split_ifs at hres with hfinished
    · obtain rfl := Option.some.inj hres
      have hin : InRound r { r with pc := .updates indirect todo } :=
        ⟨rfl, by rw [hpc]; rfl, rfl, rfl, rfl, rfl, rfl, List.Subset.refl _⟩
      refine h.inRound hin ⟨round_indirect hround hin, round_apart hround hin, hids,
        List.nil_sublist _, htodo, hrows, hupdates, hrowIds, hupdateIds,
        by simp [FailJobPc.rowsTodo], fun c hc => hupdatesAhead c (List.mem_cons_of_mem _ hc),
        fun c hc => ?_⟩ (by simp) ?_
      · rcases hupdated c hc with hc | hc
        · rcases List.mem_cons.mp hc with rfl | hc
          · exact .inr (.inl ((hindirect c hb).2.2.2 hfinished).1)
          · exact .inl hc
        · exact .inr hc
      · simp [hpc, FailJobPc.stepsLeft]
    · obtain ⟨startTime, hstartTime⟩ := Option.isSome_iff_exists.mp htimes.1
      obtain ⟨stopTime, hstopTime⟩ := Option.isSome_iff_exists.mp htimes.2
      simp only [hstartTime, hstopTime] at hres
      obtain rfl := Option.some.inj hres
      have hmap : (r.updates ++ [inp.update b startTime stopTime]).map FailedUpdate.buildId =
          r.updates.map FailedUpdate.buildId ++ [b.id] := by simp [FailInput.update]
      have hin : InRound r { r with
          pc := .updates indirect todo
          updates := r.updates ++ [inp.update b startTime stopTime] } :=
        ⟨rfl, by rw [hpc]; rfl, rfl, rfl, rfl, rfl, rfl,
          by rw [hmap]; exact List.subset_append_left _ _⟩
      have hrest : ∀ c ∈ todo, c.id ≠ b.id :=
        Map.ne_of_nodup_map_cons ((hupdatesTodo.map BuildRef.id).nodup hids)
      refine h.inRound hin ⟨round_indirect hround hin, round_apart hround hin, hids,
        List.nil_sublist _, htodo, hrows, ?_, hrowIds, fun id hid => ?_,
        by simp [FailJobPc.rowsTodo], fun c hc => ?_, fun c hc => ?_⟩ (by simp) ?_
      · rw [hmap, ← List.concat_eq_append]
        exact List.Nodup.concat (hupdatesAhead b List.mem_cons_self) hupdates
      · rw [hmap, List.mem_append, List.mem_singleton] at hid
        rcases hid with hid | rfl
        · exact hupdateIds id hid
        · exact .inr (List.mem_map_of_mem hb)
      · rw [hmap, List.mem_append, List.mem_singleton, not_or]
        exact ⟨hupdatesAhead c (List.mem_cons_of_mem _ hc), hrest c hc⟩
      · rw [hmap]
        rcases hupdated c hc with hc | hc | hc
        · rcases List.mem_cons.mp hc with rfl | hc
          · exact .inr (.inr (by simp))
          · exact .inl hc
        · exact .inr (.inl hc)
        · exact .inr (.inr (List.mem_append_left _ hc))
      · simp [hpc, FailJobPc.stepsLeft]

/-- The builds of a round are among the unfinished ones, so there are fewer
ahead of it. -/
theorem length_ahead_le {l order : List BuildRef} {p : BuildRef → Bool} (hnodup : order.Nodup)
    (horder : ∀ b ∈ order, b ∈ l ∧ p b = true) :
    (l.filter (fun b => p b && decide (b ∉ order))).length + order.length ≤
      (l.filter p).length := by
  have hsub : order.length ≤ ((l.filter p).filter (fun b => decide (b ∈ order))).length := by
    refine (List.subperm_of_subset hnodup (fun b hb => ?_)).length_le
    obtain ⟨hmem, hp⟩ := horder b hb
    simp [hb, hmem, hp]
  have hsplit := List.length_eq_length_filter_add (l := l.filter p) (fun b => decide (b ∈ order))
  have hrest : ((l.filter p).filter (fun b => !decide (b ∈ order))) =
      l.filter (fun b => p b && decide (b ∉ order)) := by
    rw [List.filter_filter]
    refine List.filter_congr (fun b _ => ?_)
    rw [Bool.and_comm, decide_not]
  rw [hrest] at hsplit
  omega

/-- With fewer pending builds, a build stays the only one with its id. -/
theorem onlyOne_setGraph {g g' : Graph} {db : List BuildID} {b : BuildRef}
    (hallocated : g'.allocatedBuilds = g.allocatedBuilds)
    (hpending : ∀ c, g'.Pending c → g.Pending c) (h : g.OnlyOne db b) : g'.OnlyOne db b :=
  ⟨h.1, fun c hc hpc => h.2 c (hallocated ▸ hc) (hpending c hpc)⟩

/-- `get_all_indirect_builds` at the head of the loop. -/
theorem base_setGraph (h : FailBase cfg inp r) {g : Graph} (hfades : r.graph.Fades g)
    (hbuild : g.build = r.graph.build) (hbuilds : g.builds = r.graph.builds) :
    FailBase cfg inp (r.setGraph g) := by
  obtain ⟨hok, hlife, hallocated, hstep⟩ := h.start
  have hpending : ∀ b, g.Pending b ↔ r.graph.Pending b := fun b => by
    rw [Graph.Pending, Graph.Pending, hbuild]
  refine ⟨⟨hok.of_carries (.of_fades hfades) rfl, hlife.of_graph (.of_fades hfades) _,
    hallocated.of_noNewRefs (.of_fades hfades) rfl, ?_⟩, fun b hb => ?_, fun b hb c hc hpc => ?_,
    fun b hb hf => ?_, fun b hb => ?_, h.ids, h.nodup, h.exit⟩
  · exact hfades.allocated ▸ hstep
  · refine onlyOne_setGraph hfades.allocatedBuilds (fun c => (hpending c).mp) (h.apart b ?_)
    exact (Graph.SameEdges.of_fades hfades).dependsOn hb (hpending b).mp
  · exact h.gone b hb c (hfades.allocatedBuilds ▸ hc) ((hpending c).mp hpc)
  · exact h.finished b (hfades.allocatedBuilds ▸ hb) (by
      rw [← hbuild]
      exact hf)
  · obtain ⟨hf, hlookup, hdb, hmem, hupdated⟩ := h.handled b hb
    refine ⟨?_, ?_, hdb, ?_, hupdated⟩
    · exact (congrArg (fun f => (f b).finishedInDb) hbuild).trans hf
    · exact (congrArg (fun m => m.lookup b.id) hbuilds).trans hlookup
    · exact hfades.allocatedBuilds.symm ▸ hmem

/-- The builds that the head of the loop collects. -/
theorem collected (h : FailBase cfg inp r) {order : List BuildRef}
    (horder : order.Perm (r.graph.getDependents inp.step).builds) :
    order.Nodup ∧ (order.map BuildRef.id).Nodup ∧ ∀ b ∈ order, b ∈ r.graph.allocatedBuilds ∧
      r.graph.Pending b ∧ r.graph.OnlyOne r.db b := by
  have hcollected := r.graph.collected_getDependents inp.step
  have hrdeps : ∀ t u, r.graph.Rdep t u → u ∈ r.graph.allocated := fun t u hu =>
    h.start.allocated.graph.rdeps t u hu.1
  obtain ⟨hwalk, -⟩ := Graph.walked_getDependents hrdeps h.start.step
  have hfacts : ∀ b ∈ order, b ∈ r.graph.allocatedBuilds ∧ r.graph.Pending b ∧
      r.graph.OnlyOne r.db b := by
    intro b hb
    have hb := horder.mem_iff.mp hb
    obtain ⟨t, ht, hmem⟩ := hcollected.attached b hb
    have hpending := hcollected.pending b hb
    exact ⟨h.start.allocated.graph.attached t b hmem, hpending,
      h.apart b ⟨hpending, t, (hwalk.refers t ht).resolve_left (by simp), hmem⟩⟩
  have hnodup : order.Nodup := horder.nodup_iff.mpr hcollected.nodup
  refine ⟨hnodup, ?_, hfacts⟩
  refine hnodup.map_on (fun b hb c hc hid => ?_)
  obtain ⟨hmem, hpending, -⟩ := hfacts b hb
  exact (hfacts c hc).2.2.2 b hmem hpending hid

theorem not_mem_dependentIds (h : FailBase cfg inp r) {id : BuildID} (hid : id ∉ r.db) :
    id ∉ r.dependentIds := by
  rw [h.ids]
  intro hmem
  obtain ⟨b, hb, rfl⟩ := List.mem_map.mp hmem
  exact hid (h.handled b hb).2.2.1

theorem ahead_of_graph {s : FailRun} (hbuild : s.graph.build = r.graph.build)
    (hallocated : s.graph.allocatedBuilds = r.graph.allocatedBuilds) :
    s.ahead = r.graph.allocatedBuilds.filter
      (fun b => !(r.graph.build b).finishedInDb && decide (b ∉ s.pc.builds)) := by
  rw [FailRun.ahead, hbuild, hallocated]

/-- The head of the loop. -/
theorem loopHead (h : FailBase cfg inp r) {order : List BuildRef} {stepFinished : Bool} {n : Nat}
    (hrows : (r.rows.map FailedRow.buildId).Nodup)
    (hupdates : (r.updates.map FailedUpdate.buildId).Nodup)
    (hrowIds : ∀ id ∈ r.rows.map FailedRow.buildId, id ∈ r.dependentIds)
    (hupdateIds : ∀ id ∈ r.updates.map FailedUpdate.buildId, id ∈ r.dependentIds)
    (hfree : stepFinished = true → r.graph.CollapseFree inp.step)
    (hpotential : n + (if stepFinished then 2 else 5) +
      5 * (r.graph.allocatedBuilds.filter (fun b => !(r.graph.build b).finishedInDb)).length ≤
      5 * r.graph.allocatedBuilds.length + 5)
    (hres : r.loopHead inp order stepFinished = some r') :
    FailInv cfg inp { r' with resumed := n + 1 } := by
  obtain ⟨hindirect, hbuild, hbuilds, -⟩ := r.graph.getAllIndirectBuilds_spec inp.step
  have hfades := Graph.Fades.getAllIndirectBuilds r.graph inp.step
  have hbase := base_setGraph h hfades hbuild hbuilds
  simp only [FailRun.loopHead, hindirect] at hres
  generalize (r.graph.getAllIndirectBuilds inp.step).1 = g at hres hbuild hbase hfades
  split_ifs at hres with hperm hend
  · -- nothing is left, and the loop ends
    obtain rfl := Option.some.inj hres
    have hexit : ∀ t b, r.graph.Refers inp.step t → b ∈ (r.graph.step t).builds →
        (r.graph.build b).alive = true → b ∈ r.elsewhere ∨ b ∈ r.handled := by
      intro t b ht hb halive
      have hrdeps : ∀ t u, r.graph.Rdep t u → u ∈ r.graph.allocated := fun t u hu =>
        h.start.allocated.graph.rdeps t u hu.1
      have hnot := Graph.not_dependsOn_of_getDependents hrdeps h.start.step (hfree hend.2) hend.1 b
      refine h.finished b (h.start.allocated.graph.attached t b hb) ?_
      by_contra hf
      exact hnot ⟨⟨halive, by simpa using hf⟩, t, ht, hb⟩
    refine ⟨⟨hbase.start, hbase.apart, hbase.gone, hbase.finished, hbase.handled, hbase.ids,
        hbase.nodup, ?_⟩,
      ⟨by simp [FailJobPc.builds], by simp [FailJobPc.builds], by simp [FailJobPc.builds],
        List.nil_sublist _, List.nil_sublist _, hrows, hupdates,
        fun id hid => .inl (hrowIds id hid), fun id hid => .inl (hupdateIds id hid),
        by simp [FailJobPc.rowsTodo], by simp [FailJobPc.updatesTodo],
        by simp [FailJobPc.builds]⟩, by simp, ?_⟩
    · rintro g' ⟨⟩
      exact hexit
    · rw [hend.2, if_pos rfl] at hpotential
      have heq := ahead_of_graph (r := r) (s := { r.setGraph g with
        pc := .notify, exit := some r.graph, resumed := n + 1 }) hbuild hfades.allocatedBuilds
      have hahead := length_ahead_le (l := r.graph.allocatedBuilds)
        (p := fun b => !(r.graph.build b).finishedInDb) List.nodup_nil (by simp)
      rw [List.length_nil] at hahead
      rw [heq]
      change n + 1 + 1 + 5 * (r.graph.allocatedBuilds.filter (fun b =>
        !(r.graph.build b).finishedInDb && decide (b ∉ []))).length ≤
        5 * g.allocatedBuilds.length + 5
      rw [hfades.allocatedBuilds]
      omega
  · -- another round
    obtain rfl := Option.some.inj hres
    obtain ⟨hnodup, hids, hfacts⟩ := collected h hperm
    have hbuild' : ∀ b, g.build b = r.graph.build b := fun b => by rw [hbuild]
    refine ⟨⟨hbase.start, hbase.apart, hbase.gone, hbase.finished, hbase.handled, hbase.ids,
        hbase.nodup, hbase.exit⟩,
      ⟨fun b hb => ?_, fun b hb c hc hpc => ?_, hids, List.Sublist.refl _, List.Sublist.refl _,
        hrows, hupdates, fun id hid => .inl (hrowIds id hid),
        fun id hid => .inl (hupdateIds id hid), fun b hb hid => ?_, fun b hb hid => ?_,
        fun b hb => .inl hb⟩, by simp, ?_⟩
    · obtain ⟨hmem, hpending, hone⟩ := hfacts b hb
      refine ⟨hfades.allocatedBuilds.symm ▸ hmem, ?_, not_mem_dependentIds h hone.1, fun hf => ?_⟩
      · exact (congrArg Build.alive (hbuild' b)).trans hpending.1
      · have hf := (congrArg Build.finishedInDb (hbuild' b)).symm.trans hf
        rw [hpending.2] at hf
        cases hf
    · refine (hfacts b hb).2.2.2 c (hfades.allocatedBuilds ▸ hc) ?_
      rwa [Graph.Pending, ← hbuild' c]
    · exact not_mem_dependentIds h (hfacts b hb).2.2.1 (hrowIds _ hid)
    · exact not_mem_dependentIds h (hfacts b hb).2.2.1 (hupdateIds _ hid)
    · have hahead := length_ahead_le (l := r.graph.allocatedBuilds)
        (p := fun b => !(r.graph.build b).finishedInDb) hnodup
        (fun b hb => ⟨(hfacts b hb).1, by simp [(hfacts b hb).2.1.2]⟩)
      have heq := ahead_of_graph (r := r) (s := { r.setGraph g with
        pc := .rows order order, resumed := n + 1 }) hbuild hfades.allocatedBuilds
      have hlength : stepFinished = true → 0 < order.length := by
        intro hfinished
        refine List.length_pos_of_ne_nil (fun hnil => hend ⟨?_, hfinished⟩)
        rw [hnil] at hperm
        exact hperm.nil_eq.symm
      rw [heq]
      change n + 1 + (4 + order.length + order.length) + 5 * (r.graph.allocatedBuilds.filter
        (fun b => !(r.graph.build b).finishedInDb && decide (b ∉ order))).length ≤
        5 * g.allocatedBuilds.length + 5
      rw [hfades.allocatedBuilds]
      split_ifs at hpotential with hfinished
      · have := hlength hfinished
        omega
      · omega

/-- A round ends. -/
theorem base_finishRound (h : FailInv cfg inp r) {indirect : List BuildRef}
    (hpc : r.pc = .commit indirect) : FailBase cfg inp (r.finishRound inp indirect) := by
  obtain ⟨hindirect, hround, hids, -, -, -, -, -, -, -, -, hupdated⟩ := h.round
  simp only [hpc, FailJobPc.builds, FailJobPc.updatesTodo] at hindirect hround hids hupdated
  have hby := r.graph.finishedBy_finishBuilds indirect
  have hfades := Graph.Fades.finishBuilds r.graph indirect
  obtain ⟨hok, hlife, hallocated, hstep⟩ := h.base.start
  have hold : ∀ b, (r.graph.finishBuilds indirect).Pending b →
      r.graph.Pending b ∧ b ∉ indirect := by
    intro b hb
    have hnot : ¬((r.graph.build b).finishedInDb = true ∨ b ∈ indirect) := fun hor => by
      have := (hby.finished b).mpr hor
      rw [hb.2] at this
      cases this
    rw [not_or] at hnot
    exact ⟨⟨(hby.alive b).symm.trans hb.1, by simpa using hnot.1⟩, hnot.2⟩
  refine ⟨⟨hok.of_carries (.of_fades hfades) rfl, hlife.of_graph (.of_fades hfades) _,
    hallocated.of_noNewRefs (.of_fades hfades) rfl, hfades.allocated.symm ▸ hstep⟩,
    fun b hb => ?_, fun b hb c hc hpc => ?_, fun b hb hf => ?_, fun b hb => ?_, ?_, ?_,
    fun g hg t b ht hb halive => ?_⟩
  · obtain ⟨hpending, hnot⟩ := hold b hb.1
    obtain ⟨hdb, hunique⟩ := h.base.apart b
      ((r.graph.sameEdges_finishBuilds indirect).dependsOn hb fun hb => (hold b hb).1)
    refine ⟨fun hid => ?_, fun c hc hpc => hunique c (hby.allocatedBuilds ▸ hc) (hold c hpc).1⟩
    refine (List.mem_append.mp hid).elim hdb (fun hid => ?_)
    -- a build of the round with this id would be the build itself
    obtain ⟨c, hc, hid⟩ := List.mem_map.mp hid
    obtain ⟨hmemc, halive, -, hfinished⟩ := hindirect c hc
    by_cases hf : (r.graph.build c).finishedInDb = true
    · exact hdb (hid ▸ (hfinished hf).2)
    · obtain rfl := hunique c hmemc ⟨halive, by simpa using hf⟩ hid
      exact hnot hc
  · have hmemc : c ∈ r.graph.allocatedBuilds := hby.allocatedBuilds ▸ hc
    obtain ⟨hpending, hnot⟩ := hold c hpc
    rcases List.mem_append.mp hb with hb | hb
    · exact h.base.gone b hb c hmemc hpending
    · intro hid
      exact hnot (hround b hb c hmemc hpending hid ▸ hb)
  · have hmem : b ∈ r.graph.allocatedBuilds := hby.allocatedBuilds ▸ hb
    rcases (hby.finished b).mp hf with hf | hf
    · exact (h.base.finished b hmem hf).imp_right (List.mem_append_left _)
    · exact .inr (List.mem_append_right _ hf)
  · rcases List.mem_append.mp hb with hb | hb
    · obtain ⟨hf, hlookup, hdb, hmem, hup⟩ := h.base.handled b hb
      exact ⟨(hby.finished b).mpr (.inl hf), hby.builds b.id hlookup, List.mem_append_left _ hdb,
        hby.allocatedBuilds.symm ▸ hmem, hup⟩
    · refine ⟨(hby.finished b).mpr (.inr hb), hby.removed b hb,
        List.mem_append_right _ (List.mem_map_of_mem hb),
        hby.allocatedBuilds.symm ▸ (hindirect b hb).1, ?_⟩
      exact (hupdated b hb).resolve_left (by simp)
  · simp only [FailRun.finishRound, h.base.ids, List.map_append]
  · refine List.nodup_append.mpr ⟨h.base.nodup, hids, fun id hid id' hid' => ?_⟩
    obtain ⟨b, hb, rfl⟩ := List.mem_map.mp hid'
    rintro rfl
    exact (hindirect b hb).2.2.1 hid
  · exact (h.base.exit g hg t b ht hb halive).imp_right (List.mem_append_left _)

theorem start (h : FailInv cfg inp r) (hpc : r.pc = .start) {order : List BuildRef}
    (hres : r.resume inp order = some r') :
    FailInv cfg inp { r' with resumed := r.resumed + 1 } := by
  have hround := h.round
  have hnone : r.pc.builds = [] := by rw [hpc]; rfl
  have hdone : ∀ id, id ∈ r.dependentIds ∨ id ∈ r.pc.builds.map BuildRef.id →
      id ∈ r.dependentIds := by
    rintro id (hid | hid)
    · exact hid
    · rw [hnone] at hid
      cases hid
  simp only [FailRun.resume, hpc] at hres
  refine loopHead h.base hround.rows hround.updates (fun id hid => hdone id (hround.rowIds id hid))
    (fun id hid => hdone id (hround.updateIds id hid)) (fun hf => by cases hf) ?_ hres
  have hp := h.potential
  have hahead : r.ahead = r.graph.allocatedBuilds.filter
      (fun b => !(r.graph.build b).finishedInDb) := by
    unfold FailRun.ahead
    refine List.filter_congr (fun b _ => ?_)
    simp [hnone]
  rw [hahead, hpc] at hp
  simpa [FailJobPc.stepsLeft] using hp

theorem commit (h : FailInv cfg inp r) {indirect : List BuildRef} (hpc : r.pc = .commit indirect)
    (hfree : r.graph.CollapseFree inp.step) {order : List BuildRef}
    (hres : r.resume inp order = some r') :
    FailInv cfg inp { r' with resumed := r.resumed + 1 } := by
  have hround := h.round
  have hbuilds : r.pc.builds = indirect := by rw [hpc]; rfl
  have hdone : ∀ id, id ∈ r.dependentIds ∨ id ∈ r.pc.builds.map BuildRef.id →
      id ∈ (r.finishRound inp indirect).dependentIds := by
    intro id hid
    rw [hbuilds] at hid
    exact List.mem_append.mpr hid
  simp only [FailRun.resume, hpc] at hres
  refine loopHead (h.base_finishRound hpc) hround.rows hround.updates
    (fun id hid => hdone id (hround.rowIds id hid))
    (fun id hid => hdone id (hround.updateIds id hid)) (fun _ t u ht hu => ?_) ?_ hres
  · have hedges := r.graph.sameEdges_finishBuilds indirect
    exact hfree t u (hedges.refers.mp ht) (hedges.refers.mp hu)
  · have hp := h.potential
    have hby := r.graph.finishedBy_finishBuilds indirect
    have hahead : r.ahead = (r.graph.finishBuilds indirect).allocatedBuilds.filter
        (fun b => !((r.graph.finishBuilds indirect).build b).finishedInDb) := by
      unfold FailRun.ahead
      rw [hby.allocatedBuilds]
      refine List.filter_congr (fun b _ => ?_)
      rw [hbuilds, Bool.eq_iff_iff]
      simp only [Bool.and_eq_true, Bool.not_eq_true', decide_eq_true_eq, ← Bool.not_eq_true,
        hby.finished b, not_or]
    rw [hahead, hpc, ← hby.allocatedBuilds] at hp
    rw [if_pos rfl]
    exact hp

theorem notify (h : FailInv cfg inp r) (hpc : r.pc = .notify) {order : List BuildRef}
    (hres : r.resume inp order = some r') :
    FailInv cfg inp { r' with resumed := r.resumed + 1 } := by
  have hround := h.round
  have hbuilds : r.pc.builds = [] := by rw [hpc]; rfl
  simp only [FailRun.resume, hpc] at hres
  obtain rfl := Option.some.inj hres
  have hin : InRound r { r with
      pc := .returned true, notified := some (inp.job.buildId, r.dependentIds) } :=
    ⟨rfl, by rw [hbuilds]; rfl, rfl, rfl, rfl, rfl, rfl, List.Subset.refl _⟩
  have hrowIds := hround.rowIds
  have hupdateIds := hround.updateIds
  rw [hbuilds] at hrowIds hupdateIds
  refine h.inRound hin ⟨round_indirect hround hin, round_apart hround hin, List.nodup_nil,
    List.nil_sublist _, List.nil_sublist _, hround.rows, hround.updates, hrowIds, hupdateIds,
    by simp [FailJobPc.rowsTodo], by simp [FailJobPc.updatesTodo], by simp [FailJobPc.builds]⟩
    (by simp) ?_
  simp [hpc, FailJobPc.stepsLeft]

/-- Every step keeps the invariant. -/
theorem step (h : FailInv cfg inp r) (htimes : inp.TimesFit) {a : FailAction}
    (hrows : UnfinishedRows r a) (hapart : KeepsApart cfg inp r a)
    (hnext : FailRun.next cfg inp r a = some r') : FailInv cfg inp r' := by
  cases a with
  | resume order =>
    simp only [FailRun.next] at hnext
    split at hnext
    case h_2 => cases hnext
    rename_i r₁ hres
    obtain rfl := Option.some.inj hnext
    cases hpc : r.pc with
    | start => exact h.start hpc hres
    | rows indirect todo => exact h.rows hpc hres
    | updates indirect todo => exact h.updates htimes hpc hres
    | commit indirect =>
      refine h.commit hpc ?_ hres
      simpa only [KeepsApart, hpc] using hapart
    | notify => exact h.notify hpc hres
    | returned ok => simp [FailRun.resume, hpc] at hres
  | create a ans =>
    simp only [FailRun.next] at hnext
    split at hnext
    case h_2 => cases hnext
    rename_i c hc
    obtain rfl := Option.some.inj hnext
    exact h.create hrows hapart hc
  | dropStep s =>
    simp only [FailRun.next] at hnext
    split_ifs at hnext
    obtain rfl := Option.some.inj hnext
    exact h.dropStep s
  | dropBuild b =>
    simp only [FailRun.next] at hnext
    split_ifs at hnext with hheld
    obtain rfl := Option.some.inj hnext
    exact h.dropBuild (by simpa using hheld)

theorem goesOn (h : FailInv cfg inp r) : r.pc = .returned true ∨
    ∃ order r', FailRun.next cfg inp r (.resume order) = some r' := by
  have hhead : ∀ (r : FailRun) (v : Bool), ∃ order r', r.loopHead inp order v = some r' := by
    intro r v
    refine ⟨(r.graph.getAllIndirectBuilds inp.step).2, ?_⟩
    simp only [FailRun.loopHead, List.Perm.refl, if_true]
    split_ifs
    · exact ⟨_, rfl⟩
    · exact ⟨_, rfl⟩
  have hresume : r.pc = .returned true ∨ ∃ order r', r.resume inp order = some r' := by
    unfold FailRun.resume
    cases hpc : r.pc with
    | start => exact .inr (hhead r false)
    | rows indirect todo =>
      refine .inr ⟨[], ?_⟩
      cases todo with
      | nil => exact ⟨_, rfl⟩
      | cons b todo => simp only; split_ifs <;> exact ⟨_, rfl⟩
    | updates indirect todo =>
      refine .inr ⟨[], ?_⟩
      cases todo with
      | nil => exact ⟨_, rfl⟩
      | cons b todo =>
        simp only
        split_ifs
        · exact ⟨_, rfl⟩
        · split <;> exact ⟨_, rfl⟩
    | commit indirect => exact .inr (hhead _ true)
    | notify => exact .inr ⟨[], _, rfl⟩
    | returned ok =>
      cases ok with
      | true => exact .inl rfl
      | false => exact absurd hpc h.noError
  refine hresume.imp_right ?_
  rintro ⟨order, r', hres⟩
  exact ⟨order, { r' with resumed := r.resumed + 1 }, by simp only [FailRun.next, hres]⟩

theorem failsOnce (h : FailInv cfg inp r) : FailsOnce cfg inp r where
  rows := h.round.rows
  updates := h.round.updates
  dependentIds := h.base.nodup
  handled b hb := by
    obtain ⟨hf, hlookup, -, -, hupdated⟩ := h.base.handled b hb
    refine ⟨hf, hlookup, hupdated.imp_right (fun hid => ?_)⟩
    exact List.count_eq_one_of_mem h.round.updates hid
  exit := h.base.exit
  goesOn := h.goesOn
  ends := by
    have := h.potential
    omega

end FailInv

/-- In every run in which the dependent builds of one id and the steps of one
path are kept apart, each build is failed once. -/
theorem failsOnce_runs (cfg : Config) (inp : FailInput) (c : CreateState) (db : List BuildID)
    (hstart : FailStart cfg inp c) (hapart : c.graph.DependentsApart inp.step db)
    (htimes : inp.TimesFit) (r : FailRun)
    (h : Lts.Reach (FailRun.next cfg inp)
      (fun r a => UnfinishedRows r a ∧ KeepsApart cfg inp r a) (FailInput.start c db) r) :
    FailsOnce cfg inp r := by
  have hinv : FailInv cfg inp r := by
    refine h.invariant (I := FailInv cfg inp) (.init hstart hapart) ?_
    intro r a r' hr hok hnext
    exact hr.step htimes hok.1 hok.2 hnext
  exact hinv.failsOnce

/-! ## Two runs -/

instance (g : Graph) (b : BuildRef) : Decidable (g.Pending b) :=
  inferInstanceAs (Decidable (_ ∧ _))

instance (g : Graph) (db : List BuildID) (b : BuildRef) : Decidable (g.OnlyOne db b) :=
  inferInstanceAs (Decidable (b.id ∉ db ∧
    ∀ c ∈ g.allocatedBuilds, g.Pending c → c.id = b.id → c = b))

instance (g : Graph) (db : List BuildID) : Decidable (g.OnePending db) :=
  inferInstanceAs (Decidable (∀ b ∈ g.allocatedBuilds, g.Pending b → g.OnlyOne db b))

instance (inp : FailInput) : Decidable inp.TimesFit := inferInstanceAs (Decidable (_ ∧ _))

instance (r : FailRun) (a : FailAction) : Decidable (UnfinishedRows r a) :=
  match a with
  | .create (.startPass rows) _ => inferInstanceAs (Decidable
      ((rows.map Prod.fst).Nodup ∧ ∀ row ∈ rows, row.1 ∉ r.db))
  | .create (.resumePass _) _ | .create (.startNested _) _ | .create (.resumeBuild _) _
  | .create (.startInput _) _ | .create (.resumeStep _) _ => isTrue trivial
  | .resume _ | .dropStep _ | .dropBuild _ => isTrue trivial

/-- No two builds that depend on the step are pending under one id. -/
theorem Graph.OnePending.dependentsApart {cfg : Config} {inp : FailInput} {c : CreateState}
    {db : List BuildID} (h : c.graph.OnePending db) (hstart : FailStart cfg inp c) :
    c.graph.DependentsApart inp.step db := by
  rintro b ⟨hpending, t, -, hb⟩
  exact h b (hstart.allocated.graph.attached t b hb) hpending

/-- A step that no other one refers to. -/
theorem Graph.refers_iff {g : Graph} {s t : StepRef} (h : (g.step s).rdeps = []) :
    g.Refers s t ↔ t = s := by
  refine ⟨fun ht => ?_, fun ht => ht ▸ .refl⟩
  induction ht with
  | refl => rfl
  | tail _ hu ih =>
    subst ih
    rw [Graph.Rdep, h] at hu
    cases hu.1

theorem Graph.dependsOn_iff {g : Graph} {s : StepRef} {b : BuildRef}
    (h : (g.step s).rdeps = []) : g.DependsOn s b ↔ g.Pending b ∧ b ∈ (g.step s).builds := by
  simp only [Graph.DependsOn, Graph.refers_iff h, exists_eq_left]

/-- No step refers to the failed one, and its builds are not loaded again and
get no others beside them. -/
def KeepsApart.Alone (cfg : Config) (inp : FailInput) (r : FailRun) : FailAction → Prop
  | .create a ans => (r.graph.step inp.step).rdeps = [] ∧
    (∀ row ∈ a.rows, ∀ b ∈ r.pc.builds ++ (r.graph.step inp.step).builds, b.id ≠ row.1) ∧
    ∀ c ∈ r.create.next cfg ans a, (c.graph.step inp.step).rdeps = [] ∧
      ∀ b ∈ (c.graph.step inp.step).builds, c.graph.Pending b →
        r.graph.Pending b ∧ b ∈ (r.graph.step inp.step).builds
  | .resume _ => (r.graph.step inp.step).rdeps = []
  | _ => True

instance (cfg : Config) (inp : FailInput) (r : FailRun) (a : FailAction) :
    Decidable (KeepsApart.Alone cfg inp r a) :=
  match a with
  | .create a ans => inferInstanceAs (Decidable ((r.graph.step inp.step).rdeps = [] ∧
      (∀ row ∈ a.rows, ∀ b ∈ r.pc.builds ++ (r.graph.step inp.step).builds, b.id ≠ row.1) ∧
      ∀ c ∈ r.create.next cfg ans a, (c.graph.step inp.step).rdeps = [] ∧
        ∀ b ∈ (c.graph.step inp.step).builds, c.graph.Pending b →
          r.graph.Pending b ∧ b ∈ (r.graph.step inp.step).builds))
  | .resume _ => inferInstanceAs (Decidable ((r.graph.step inp.step).rdeps = []))
  | .dropStep _ | .dropBuild _ => isTrue trivial

theorem keepsApart_of_alone {cfg : Config} {inp : FailInput} {r : FailRun} {a : FailAction}
    (h : KeepsApart.Alone cfg inp r a) : KeepsApart cfg inp r a := by
  cases a with
  | resume order =>
    simp only [KeepsApart]
    split
    · intro t u ht hu _
      rw [(Graph.refers_iff h).mp ht, (Graph.refers_iff h).mp hu]
    · trivial
  | create a ans =>
    obtain ⟨hrdeps, hrows, hnext⟩ := h
    refine ⟨fun row hrow b hb => hrows row hrow b (List.mem_append.mpr ?_), fun c hc b hb => ?_⟩
    · exact hb.imp And.right fun hb => ((Graph.dependsOn_iff hrdeps).mp hb).2
    · obtain ⟨hrdeps', hold⟩ := hnext c hc
      obtain ⟨hpending, hmem⟩ := (Graph.dependsOn_iff hrdeps').mp hb
      exact .inl ((Graph.dependsOn_iff hrdeps).mpr (hold b hmem hpending))
  | dropStep s => trivial
  | dropBuild b => trivial

namespace Sample

/-- A failed build of `drv`, for the build with id 1. -/
def failInput : FailInput where
  step := step
  job := { internalBuildId := 0, path := drv, resolvedDrv := none, buildId := 1, stepNr := 1
           result := { stepStatus := .failed } }

/-- The first build of `drv`, and the second one. -/
def first : BuildRef := ⟨1, drv, 0⟩

def second : BuildRef := ⟨2, drv, 2⟩

/-- A pass loads a build of another derivation. -/
def loadsOther : FailAction := .create (.startPass [(3, ⟨"b.drv"⟩)]) {}

/-- Both builds have one path, so a round fails the first, and the next one the
second.  Beside them the build of the other derivation is loaded twice. -/
def twoRounds : List FailAction :=
  [.resume [first], .resume [], loadsOther, .resume [], .resume [], loadsOther, .resume [],
    .resume [second], .resume [], .resume [], .resume [], .resume [], .resume [], .resume []]

/-- A pass loads the first build again before its round is committed. -/
def loadedAgain : List FailAction :=
  [.resume [first], .resume [], .resume [], .resume [], .resume [],
    .create (.startPass [(1, drv)]) {},
    .create (.resumePass 3) {},
    .create (.resumeBuild 4) {},
    .resume [⟨1, drv, 2⟩], .resume [], .resume [], .resume []]

end Sample

open Sample in
theorem failsOnce_runs_twoRounds : ∃ c r, FailStart config failInput c ∧
    c.graph.DependentsApart failInput.step [] ∧ failInput.TimesFit ∧
    Lts.Reach (FailRun.next config failInput)
      (fun r a => UnfinishedRows r a ∧ KeepsApart config failInput r a)
      (FailInput.start c []) r ∧
    r.pc = .returned true ∧ r.dependentIds = [1, 2] ∧
    r.graph.allocatedBuilds.map BuildRef.id = [3, 3, 2, 1] ∧ FailsOnce config failInput r := by
  have hrun : ((Lts.run (Runner.next config) {} (register :: created ++ joined)).bind (fun s =>
      (Lts.runWith (FailRun.next config failInput)
        (fun r a => UnfinishedRows r a ∧ KeepsApart.Alone config failInput r a)
        (FailInput.start s.createState []) twoRounds).map (fun r => decide
          (step ∈ s.shared.graph.allocated ∧ s.shared.graph.OnePending [] ∧
            r.pc = .returned true ∧ r.dependentIds = [1, 2] ∧
            r.graph.allocatedBuilds.map BuildRef.id = [3, 3, 2, 1])))) = some true := by
    decide +kernel
  obtain ⟨s, hs, hrest⟩ := Option.bind_eq_some_iff.mp hrun
  obtain ⟨r, hr, hfacts⟩ := Option.map_eq_some_iff.mp hrest
  obtain ⟨hstep, hpending, hpc, hids, hloaded⟩ := of_decide_eq_true hfacts
  have hstart : FailStart config failInput s.createState :=
    .of_reach (Lts.reach_of_run hs) hstep
  have hapart : s.createState.graph.DependentsApart failInput.step [] :=
    hpending.dependentsApart hstart
  have htimes : failInput.TimesFit := by decide
  have hreach : Lts.Reach (FailRun.next config failInput)
      (fun r a => UnfinishedRows r a ∧ KeepsApart config failInput r a)
      (FailInput.start s.createState []) r :=
    (Lts.reach_of_runWith hr).mono (fun _ _ h => ⟨h.1, keepsApart_of_alone h.2⟩)
  exact ⟨s.createState, r, hstart, hapart, htimes, hreach, hpc, hids, hloaded,
    failsOnce_runs config failInput s.createState [] hstart hapart htimes r hreach⟩

open Sample in
/-- The second object of the build is failed in a round of its own. -/
theorem failsOnce_fails : ¬∀ cfg inp c db, FailStart cfg inp c → c.graph.OnePending db →
    inp.TimesFit → ∀ r, Lts.Reach (FailRun.next cfg inp) UnfinishedRows (FailInput.start c db) r →
      FailsOnce cfg inp r := by
  intro h
  have hrun : ((Lts.run (Runner.next config) {} (register :: created)).bind (fun s =>
      (Lts.runWith (FailRun.next config failInput) UnfinishedRows
        (FailInput.start s.createState []) loadedAgain).map (fun r => decide
          (step ∈ s.shared.graph.allocated ∧ s.shared.graph.OnePending [] ∧
            r.updates.map FailedUpdate.buildId = [1, 1])))) = some true := by
    decide +kernel
  obtain ⟨s, hs, hrest⟩ := Option.bind_eq_some_iff.mp hrun
  obtain ⟨r, hr, hfacts⟩ := Option.map_eq_some_iff.mp hrest
  obtain ⟨hstep, hpending, hupdates⟩ := of_decide_eq_true hfacts
  have honce := h config failInput s.createState [] (.of_reach (Lts.reach_of_run hs) hstep) hpending
    (by decide) r (Lts.reach_of_runWith hr)
  have hnodup := honce.updates
  rw [hupdates] at hnodup
  simp at hnodup

end QueueRunner
