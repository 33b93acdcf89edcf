import Mathlib.Data.List.Sort
import QueueRunner.Lib.Map
import QueueRunner.Basic

/-!
# Machines and their jobs

This module is `queue-runner/src/state/machine.rs` and the result record
of `build.rs` that a job carries.  A machine has the list of the jobs
that it was sent, a message channel to its builder, and counters.
`Machines` finds the machines by id and, in the order of preference, by
system.

The load of a machine is measured in floating point numbers.  Its two
tests, free disk space and dynamic capacity, are answers of the
environment.  The scores are read as integers.
-/

namespace QueueRunner

/-- `db::models::BuildStatus`. -/
inductive BuildStatus where
  | success
  | failed
  | depFailed
  | aborted
  | cancelled
  | failedWithOutput
  | timedOut
  | cachedFailure
  | unsupported
  | logLimitExceeded
  | narSizeLimitExceeded
  | notDeterministic
  | busy
deriving DecidableEq, Repr

/-- `BuildResultState`. -/
inductive BuildResultState where
  | success
  | buildFailure
  | preparingFailure
  | importFailure
  | uploadFailure
  | postProcessingFailure
  | aborted
  | cancelled
deriving DecidableEq, Repr

/-- `RemoteBuild`, without the times and texts that only go to the
database. -/
structure RemoteBuild where
  stepStatus : BuildStatus := .aborted
  canRetry : Bool := false
  overhead : Nat := 0
deriving DecidableEq, Repr

namespace RemoteBuild

/-- `update_with_result_state`. -/
def updateWithResultState (r : RemoteBuild) : BuildResultState → RemoteBuild
  | .buildFailure => { r with canRetry := false }
  | .success => r
  | .preparingFailure | .importFailure | .uploadFailure
  | .postProcessingFailure => { r with canRetry := true }
  | .aborted => { r with canRetry := true, stepStatus := .aborted }
  | .cancelled => { r with canRetry := true, stepStatus := .cancelled }

/-- `set_overhead`: an `i32::try_from` of a `u128`. -/
def setOverhead (r : RemoteBuild) (v : Nat) : Option RemoteBuild :=
  if v < 2 ^ 31 then some { r with overhead := v } else none

end RemoteBuild

/-- `BuildTimings`, the two parts of the overhead, in milliseconds. -/
structure BuildTimings where
  importElapsed : Nat := 0
  uploadElapsed : Nat := 0
deriving DecidableEq, Repr

/-- `BuildTimings::get_overhead`. -/
def BuildTimings.getOverhead (t : BuildTimings) : Nat :=
  t.importElapsed + t.uploadElapsed

/-- `Job`. -/
structure Job where
  internalBuildId : Uuid
  path : StorePath
  resolvedDrv : Option StorePath
  buildId : BuildID
  stepNr : Nat := 0
  result : RemoteBuild := {}
deriving DecidableEq, Repr

/-- `MachineSortFn`. -/
inductive MachineSortFn where
  | speedFactorOnly
  | cpuCoreCountWithSpeedFactor
  | bogomipsWithSpeedFactor
deriving DecidableEq, Repr

/-- `MachineFreeFn`. -/
inductive MachineFreeFn where
  | dynamic
  | dynamicWithMaxJobLimit
  | static
deriving DecidableEq, Repr

/-- `Stats`, the counters that decide about new jobs. -/
structure Stats where
  currentJobs : Nat := 0
  nrStepsDone : Nat := 0
  /-- Zero while the machine has jobs. -/
  idleSince : Int := 0
  jobsInLast30sStart : Int := 0
  jobsInLast30sCount : UInt64 := 0

/-- `Machine`.  `receiverOpen` is the other end of `msg_queue`: a message
can be sent as long as the tunnel task has not dropped the receiver. -/
structure Machine where
  systems : List System := []
  supportedFeatures : List String := []
  mandatoryFeatures : List String := []
  maxJobs : Nat := 0
  score : MachineSortFn → Int := fun _ => 0
  stats : Stats := {}
  jobs : List Job := []
  receiverOpen : Bool := true

/-- The heap of the machines and `Machines`. -/
structure Machines where
  machine : MachineRef → Machine := fun _ => {}
  byUuid : Map Uuid MachineRef := ∅
  bySystem : Map System (List MachineRef) := ∅
  fresh : Nat := 0

namespace Stats

/-- `Stats::new`, in the second `now`. -/
def new (now : Int) : Stats := { idleSince := now }

/-- `store_current_jobs`. -/
def storeCurrentJobs (s : Stats) (now : Int) (c : Nat) : Stats :=
  { s with
    idleSince := if c = 0 ∧ s.idleSince = 0 then now else 0
    currentJobs := c }

end Stats

namespace Machine

/-- `Machine::new`, in the second `record.stats.idleSince`. -/
def new (record : Machine) : Machine :=
  { record with jobs := [], stats := .new record.stats.idleSince, receiverOpen := true }

/-- `insert_job`. -/
def insertJob (m : Machine) (now : Int) (job : Job) : Machine :=
  { m with
    jobs := m.jobs ++ [job]
    stats := m.stats.storeCurrentJobs now (m.jobs ++ [job]).length }

/-- The part of `build_drv` after the message has been sent. -/
def buildDrvSent (m : Machine) (now : Int) (job : Job) : Machine :=
  let m := if m.stats.jobsInLast30sCount = 0 then
      { m with stats := { m.stats with jobsInLast30sStart := now } }
    else m
  let m := m.insertJob now job
  { m with stats :=
    { m.stats with jobsInLast30sCount := m.stats.jobsInLast30sCount + 1 } }

/-- `remove_job`: every job of the derivation goes, the first one is
returned. -/
def removeJob (m : Machine) (now : Int) (drv : StorePath) :
    Machine × Option Job :=
  let job := m.jobs.find? (fun j => j.path == drv)
  let jobs := m.jobs.filter (fun j => j.path != drv)
  let stats := { m.stats with nrStepsDone := m.stats.nrStepsDone + 1 }
  let stats := stats.storeCurrentJobs now jobs.length
  let stats := if now ≤ stats.jobsInLast30sStart + 30 then
      { stats with jobsInLast30sCount := stats.jobsInLast30sCount - 1 }
    else stats
  ({ m with jobs := jobs, stats := stats }, job)

/-- `get_job_drv_for_build_id`. -/
def getJobDrvForBuildId (m : Machine) (uuid : Uuid) : Option StorePath :=
  (m.jobs.find? (fun j => j.internalBuildId == uuid)).map Job.path

/-- `get_internal_build_id_for_drv`. -/
def getInternalBuildIdForDrv (m : Machine) (drv : StorePath) : Option Uuid :=
  (m.jobs.find? (fun j => j.path == drv)).map Job.internalBuildId

/-- `supports_all_features` together with the mandatory features of the
machine. -/
def acceptsFeatures (m : Machine) (required : List String) : Bool :=
  m.mandatoryFeatures.all (fun f => required.contains f) &&
    required.all (fun f => m.supportedFeatures.contains f)

/-- `has_static_capacity`. -/
def hasStaticCapacity (m : Machine) : Bool := m.stats.currentJobs < m.maxJobs

/-- `has_capacity`.  `disk` answers the two tests of free space, `dyn` is
`has_dynamic_capacity`. -/
def hasCapacity (m : Machine) (now : Int) (freeFn : MachineFreeFn)
    (disk dyn : Bool) : Machine × Bool :=
  let start := m.stats.jobsInLast30sStart
  if now ≤ start + 30 ∧ 4 ≤ m.stats.jobsInLast30sCount ∧
      4 ≤ m.stats.currentJobs then (m, false)
  else
    let m := if start + 30 < now then
        { m with stats :=
          { m.stats with jobsInLast30sStart := 0, jobsInLast30sCount := 0 } }
      else m
    let free := match freeFn with
      | .dynamic => dyn
      | .dynamicWithMaxJobLimit => dyn && m.hasStaticCapacity
      | .static => m.hasStaticCapacity
    (m, disk && free)

/-- A capacity test only resets counters. -/
theorem hasCapacity_jobs (m : Machine) (now : Int)
    (freeFn : MachineFreeFn) (disk dyn : Bool) :
    (m.hasCapacity now freeFn disk dyn).1.jobs = m.jobs := by
  unfold hasCapacity
  simp only
  split_ifs <;> rfl

end Machine

namespace Machines

/-- Change one machine. -/
def modifyMachine (ms : Machines) (m : MachineRef) (f : Machine → Machine) :
    Machines :=
  { ms with machine := Function.update ms.machine m (f (ms.machine m)) }

/-- The comparison of `MachinesInner::sort`: higher scores first, then
fewer current jobs. -/
def sortLe (ms : Machines) (sortFn : MachineSortFn) (a b : MachineRef) : Bool :=
  let sa := (ms.machine a).score sortFn
  let sb := (ms.machine b).score sortFn
  if sa = sb then
    (ms.machine a).stats.currentJobs ≤ (ms.machine b).stats.currentJobs
  else sb < sa

/-- `MachinesInner::sort`. -/
def sort (ms : Machines) (sortFn : MachineSortFn) : Machines :=
  { ms with bySystem := ms.bySystem.mapValues (fun l =>
      l.insertionSort (fun a b => ms.sortLe sortFn a b = true)) }

/-- The loop body of `insert_machine` for one system. -/
def pushSystem (m : MachineRef) (bySystem : Map System (List MachineRef))
    (system : System) : Map System (List MachineRef) :=
  bySystem.insert system ((bySystem.lookup system).getD [] ++ [m])

/-- `insert_machine`. -/
def insertMachine (ms : Machines) (id : Uuid) (record : Machine)
    (sortFn : MachineSortFn) : Machines × MachineRef :=
  let m : MachineRef := ⟨id, ms.fresh⟩
  let ms := { ms with
    machine := Function.update ms.machine m record
    byUuid := ms.byUuid.insert id m
    bySystem := record.systems.foldl (pushSystem m) ms.bySystem
    fresh := ms.fresh + 1 }
  (ms.sort sortFn, m)

/-- The loop body of `remove_machine` for one system. -/
def retainSystem (id : Uuid) (bySystem : Map System (List MachineRef))
    (system : System) : Map System (List MachineRef) :=
  match bySystem.lookup system with
  | some l => bySystem.insert system (l.filter (fun o => o.id != id))
  | none => bySystem

/-- `remove_machine`. -/
def removeMachine (ms : Machines) (id : Uuid) :
    Option (MachineRef × Machines) :=
  match ms.byUuid.lookup id with
  | none => none
  | some m => some (m, { ms with
      byUuid := ms.byUuid.erase id
      bySystem := (ms.machine m).systems.foldl (retainSystem id) ms.bySystem })

/-- The search of `get_machine_for_system` with a capacity test.  The test
resets the counters of the machines it looks at. -/
def findFree (ms : Machines) (now : Int) (freeFn : MachineFreeFn)
    (disk dyn : MachineRef → Bool) (required : List String) :
    List MachineRef → Machines × Option MachineRef
  | [] => (ms, none)
  | m :: l =>
    let (record, free) := (ms.machine m).hasCapacity now freeFn (disk m) (dyn m)
    let ms := ms.modifyMachine m (fun _ => record)
    if free && record.acceptsFeatures required then (ms, some m)
    else ms.findFree now freeFn disk dyn required l

/-- The machines that `get_machine_for_system` looks at, in order.  Any
machine may build for the system `builtin`; the order of `by_uuid` is
given by the caller. -/
def candidates (ms : Machines) (system : System) (order : List MachineRef) :
    List MachineRef :=
  if system = "builtin" then order.filter (fun m => ms.byUuid.values.contains m)
  else (ms.bySystem.lookup system).getD []

/-- `Machines::support_step`: the search without a capacity test. -/
def supportStep (ms : Machines) (system : Option System)
    (required : List String) : Bool :=
  match system with
  | none => false
  | some system =>
    (ms.candidates system ms.byUuid.values).any (fun m =>
      (ms.machine m).acceptsFeatures required)

/-- `Machine::remove_job` on a machine of the heap. -/
def removeJob (ms : Machines) (m : MachineRef) (now : Int) (drv : StorePath) :
    Machines × Option Job :=
  let (record, job) := (ms.machine m).removeJob now drv
  (ms.modifyMachine m (fun _ => record), job)

/-- The tunnel task of a machine ends and drops the receiver. -/
def closeReceiver (ms : Machines) (m : MachineRef) : Machines :=
  ms.modifyMachine m (fun r => { r with receiverOpen := false })

/-! ## Registering and removing -/

/-- The machine that a search finds is registered. -/
theorem mem_of_mem_candidates {ms : Machines} {system : System}
    {order : List MachineRef} {m : MachineRef}
    (h : m ∈ ms.candidates system order) :
    (∃ id, ms.byUuid.lookup id = some m) ∨
      ∃ l, ms.bySystem.lookup system = some l ∧ m ∈ l := by
  unfold candidates at h
  split_ifs at h
  · obtain ⟨-, h⟩ := List.mem_filter.mp h
    exact Or.inl (Map.mem_values_iff.mp (by simpa using h))
  · cases hl : ms.bySystem.lookup system with
    | none => simp [hl] at h
    | some l => exact Or.inr ⟨l, rfl, by simpa [hl] using h⟩

/-- The entry of a system after the loop of `insert_machine`. -/
theorem mem_foldl_pushSystem (m : MachineRef) (systems : List System)
    (bySystem : Map System (List MachineRef)) {system : System}
    {l : List MachineRef} {o : MachineRef}
    (h : (systems.foldl (pushSystem m) bySystem).lookup system = some l)
    (ho : o ∈ l) :
    (o = m ∧ system ∈ systems) ∨
      ∃ l', bySystem.lookup system = some l' ∧ o ∈ l' := by
  induction systems generalizing bySystem with
  | nil => exact Or.inr ⟨l, h, ho⟩
  | cons s systems ih =>
    rcases ih _ h with ⟨rfl, hmem⟩ | ⟨l', hl', ho'⟩
    · exact Or.inl ⟨rfl, List.mem_cons_of_mem _ hmem⟩
    · rw [pushSystem, Map.lookup_insert_eq] at hl'
      split_ifs at hl' with hs
      · cases hl'
        rcases List.mem_append.mp ho' with ho' | ho'
        · cases hb : bySystem.lookup s with
          | none => simp [hb] at ho'
          | some l₀ => exact Or.inr ⟨l₀, hs ▸ hb, by simpa [hb] using ho'⟩
        · exact Or.inl ⟨List.mem_singleton.mp ho', by simp [hs]⟩
      · exact Or.inr ⟨l', hl', ho'⟩

/-- The entry of a system after the loop of `remove_machine`. -/
theorem mem_foldl_retainSystem (id : Uuid) (systems : List System)
    (bySystem : Map System (List MachineRef)) {system : System}
    {l : List MachineRef} {o : MachineRef}
    (h : (systems.foldl (retainSystem id) bySystem).lookup system = some l)
    (ho : o ∈ l) :
    (∃ l', bySystem.lookup system = some l' ∧ o ∈ l') ∧
      (system ∈ systems → o.id ≠ id) := by
  induction systems generalizing bySystem with
  | nil => exact ⟨⟨l, h, ho⟩, by simp⟩
  | cons s systems ih =>
    obtain ⟨⟨l', hl', ho'⟩, hne⟩ := ih _ h
    unfold retainSystem at hl'
    split at hl'
    · rename_i l₀ hl₀
      rw [Map.lookup_insert_eq] at hl'
      split_ifs at hl' with hs
      · cases hl'
        obtain ⟨ho', hid⟩ := List.mem_filter.mp ho'
        exact ⟨⟨l₀, hs ▸ hl₀, ho'⟩, fun _ => by simpa using hid⟩
      · refine ⟨⟨l', hl', ho'⟩, fun hmem => ?_⟩
        rcases List.mem_cons.mp hmem with hmem | hmem
        · exact absurd hmem hs
        · exact hne hmem
    · rename_i hnone
      refine ⟨⟨l', hl', ho'⟩, fun hmem => ?_⟩
      rcases List.mem_cons.mp hmem with rfl | hmem
      · rw [hnone] at hl'
        cases hl'
      · exact hne hmem

/-- What `insert_machine` adds to the entry of a system. -/
theorem insertMachine_bySystem {ms : Machines} {id : Uuid} {record : Machine}
    {sortFn : MachineSortFn} {system : System} {l : List MachineRef}
    {o : MachineRef}
    (h : (ms.insertMachine id record sortFn).1.bySystem.lookup system = some l)
    (ho : o ∈ l) :
    (o = ⟨id, ms.fresh⟩ ∧ system ∈ record.systems) ∨
      ∃ l', ms.bySystem.lookup system = some l' ∧ o ∈ l' := by
  simp only [insertMachine, sort, Map.lookup_mapValues, Option.map_eq_some_iff] at h
  obtain ⟨l', hl', rfl⟩ := h
  exact mem_foldl_pushSystem _ _ _ hl' ((List.perm_insertionSort _ l').mem_iff.mp ho)

/-! ## The registry -/

/-- No machine is registered or removed, and none changes its systems or
its features. -/
structure SameRegistry (ms ms' : Machines) : Prop where
  byUuid : ms'.byUuid = ms.byUuid
  bySystem : ms'.bySystem = ms.bySystem
  fresh : ms'.fresh = ms.fresh
  systems : ∀ m, (ms'.machine m).systems = (ms.machine m).systems
  accepts : ∀ m, (ms'.machine m).acceptsFeatures = (ms.machine m).acceptsFeatures

namespace SameRegistry

variable {ms ms' ms'' : Machines}

theorem refl (ms : Machines) : SameRegistry ms ms :=
  ⟨rfl, rfl, rfl, fun _ => rfl, fun _ => rfl⟩

theorem trans (h : SameRegistry ms ms') (h' : SameRegistry ms' ms'') :
    SameRegistry ms ms'' where
  byUuid := h'.byUuid.trans h.byUuid
  bySystem := h'.bySystem.trans h.bySystem
  fresh := h'.fresh.trans h.fresh
  systems m := (h'.systems m).trans (h.systems m)
  accepts m := (h'.accepts m).trans (h.accepts m)

theorem modifyMachine (ms : Machines) (m : MachineRef) {f : Machine → Machine}
    (hf : (f (ms.machine m)).systems = (ms.machine m).systems ∧
      (f (ms.machine m)).acceptsFeatures = (ms.machine m).acceptsFeatures) :
    SameRegistry ms (ms.modifyMachine m f) := by
  refine ⟨rfl, rfl, rfl, fun o => ?_, fun o => ?_⟩
  · by_cases ho : o = m
    · subst ho
      simpa [Machines.modifyMachine] using hf.1
    · simp [Machines.modifyMachine, ho]
  · by_cases ho : o = m
    · subst ho
      simpa [Machines.modifyMachine] using hf.2
    · simp [Machines.modifyMachine, ho]

theorem findFree (ms : Machines) (now : Int) (freeFn : MachineFreeFn)
    (disk dyn : MachineRef → Bool) (required : List String)
    (l : List MachineRef) :
    SameRegistry ms (ms.findFree now freeFn disk dyn required l).1 := by
  induction l generalizing ms with
  | nil => exact refl ms
  | cons o l ih =>
    have hone : SameRegistry ms (ms.modifyMachine o (fun _ =>
        ((ms.machine o).hasCapacity now freeFn (disk o) (dyn o)).1)) := by
      apply modifyMachine
      unfold Machine.hasCapacity
      simp only
      split_ifs <;> exact ⟨rfl, rfl⟩
    unfold Machines.findFree
    simp only
    split_ifs
    · exact hone
    · exact hone.trans (ih _)

theorem removeJob (ms : Machines) (m : MachineRef) (now : Int) (drv : StorePath) :
    SameRegistry ms (ms.removeJob m now drv).1 :=
  modifyMachine (f := fun _ => ((ms.machine m).removeJob now drv).1) ms m ⟨rfl, rfl⟩

theorem buildDrvSent (ms : Machines) (m : MachineRef) (now : Int) (job : Job) :
    SameRegistry ms (ms.modifyMachine m (fun r => r.buildDrvSent now job)) := by
  apply modifyMachine
  unfold Machine.buildDrvSent Machine.insertJob
  split_ifs <;> exact ⟨rfl, rfl⟩

/-- The same steps are supported. -/
theorem supportStep (h : SameRegistry ms ms') (system : Option System)
    (required : List String) :
    ms'.supportStep system required = ms.supportStep system required := by
  simp only [Machines.supportStep, Machines.candidates, h.byUuid, h.bySystem, h.accepts]

end SameRegistry

end Machines

end QueueRunner
