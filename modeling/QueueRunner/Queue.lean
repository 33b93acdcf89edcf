import Mathlib.Data.List.Induction
import Mathlib.Data.List.Sort
import QueueRunner.Lib.Map
import QueueRunner.Basic

/-!
# The build queues

This module is `queue-runner/src/state/queue.rs`.  `InnerQueues` owns the
queued step infos in the map `jobs`.  A `BuildQueue` holds weak pointers
to them in the order of dispatch, and `scheduled` holds the step infos
that run on a machine.

A weak pointer can be upgraded as long as a strong pointer is left.  The
strong pointers are the values of `jobs`, the items of `scheduled`, and
the pointers that other tasks hold.  The last ones are the argument
`held` of every operation that upgrades.

A build queue is made once for its system and never replaced, so an
`Arc<BuildQueue>` is named by the system.
-/

namespace QueueRunner

/-- `StepInfo` without `step`, which the reference carries, and without
the cached share, which only the comparison of two step infos reads. -/
structure StepInfo where
  resolvedDrvPath : Option StorePath := none
  alreadyScheduled : Bool := false
  cancelled : Bool := false
  runnableSince : Timestamp := 0

/-- `BuildQueue`, without the counters of waiting and disabled jobs, which
only the statistics read. -/
structure BuildQueue where
  jobs : List InfoRef := []
  activeRunnable : UInt64 := 0
  totalRunnable : Nat := 0
  waitTimeMs : UInt64 := 0

/-- `ScheduledItem`. -/
structure ScheduledItem where
  stepInfo : InfoRef
  buildQueue : System
  machine : MachineRef
deriving DecidableEq

/-- `InnerQueues`, with the heap of its step infos. -/
structure InnerQueues where
  jobs : Map StorePath InfoRef := ∅
  inner : Map System BuildQueue := ∅
  scheduled : Map StorePath ScheduledItem := ∅
  info : InfoRef → StepInfo := fun _ => {}
  fresh : Nat := 0

/-! ## One queue -/

namespace BuildQueue

/-- `u64::try_from(now.duration_since(since).as_millis()).unwrap_or_default()`. -/
def waitMillis (now since : Timestamp) : UInt64 :=
  if 0 ≤ now - since ∧ now - since < 2 ^ 64 then
    UInt64.ofNat (now - since).toNat
  else 0

/-- One turn of the loop of `insert_new_jobs`: a job with a live pointer of
the same derivation already in the queue is skipped. -/
def pushJob (live : InfoRef → Bool) (info : InfoRef → StepInfo)
    (now : Timestamp) (acc : List InfoRef × UInt64) (j : InfoRef) :
    List InfoRef × UInt64 :=
  if live j then
    if acc.1.any (fun v => live v && v.drvPath == j.drvPath) then acc
    else (acc.1 ++ [j], acc.2 + waitMillis now (info j).runnableSince)
  else acc

/-- `scrube_jobs`: only keep pointers that can be upgraded. -/
def scrubeJobs (live : InfoRef → Bool) (q : BuildQueue) : BuildQueue :=
  { q with
    jobs := q.jobs.filter live
    totalRunnable := (q.jobs.filter live).length }

/-- The comparison of `sort_jobs`: dead pointers come first, live ones are
compared by the chosen comparator. -/
def sortLe (live : InfoRef → Bool) (cmp : InfoRef → InfoRef → Ordering)
    (a b : InfoRef) : Bool :=
  match live a, live b with
  | true, true => cmp a b != .gt
  | true, false => false
  | false, _ => true

/-- `sort_jobs`.  `sort_by` is a stable sort. -/
def sortJobs (live : InfoRef → Bool) (cmp : InfoRef → InfoRef → Ordering)
    (q : BuildQueue) : BuildQueue :=
  { q with jobs := q.jobs.insertionSort (fun a b => sortLe live cmp a b = true) }

/-- `BuildQueue::insert_new_jobs`. -/
def insertNewJobs (live : InfoRef → Bool) (info : InfoRef → StepInfo)
    (cmp : InfoRef → InfoRef → Ordering) (now : Timestamp)
    (jobs : List InfoRef) (q : BuildQueue) : BuildQueue :=
  let acc := jobs.foldl (pushJob live info now) (q.jobs, 0)
  let q := { q with jobs := acc.1, waitTimeMs := q.waitTimeMs + acc.2 }
  (q.scrubeJobs live).sortJobs live cmp

end BuildQueue

/-! ## All queues -/

namespace InnerQueues

/-- Whether a weak pointer can be upgraded. -/
def live (q : InnerQueues) (held : InfoRef → Bool) (i : InfoRef) : Bool :=
  held i || q.jobs.values.contains i ||
    q.scheduled.values.any (fun item => item.stepInfo == i)

/-- Change the queue of one system. -/
def modifyQueue (q : InnerQueues) (system : System)
    (f : BuildQueue → BuildQueue) : InnerQueues :=
  match q.inner.lookup system with
  | some bq => { q with inner := q.inner.insert system (f bq) }
  | none => q

/-- Change one step info. -/
def modifyInfo (q : InnerQueues) (i : InfoRef) (f : StepInfo → StepInfo) :
    InnerQueues :=
  { q with info := Function.update q.info i (f (q.info i)) }

/-- The queue of a system, empty when there is none. -/
def queueJobs (q : InnerQueues) (system : System) : List InfoRef :=
  match q.inner.lookup system with
  | some bq => bq.jobs
  | none => []

/-- `set_already_scheduled`. -/
def setAlreadyScheduled (q : InnerQueues) (i : InfoRef) (v : Bool) :
    InnerQueues :=
  q.modifyInfo i (fun r => { r with alreadyScheduled := v })

/-- `set_cancelled`. -/
def setCancelled (q : InnerQueues) (i : InfoRef) (v : Bool) : InnerQueues :=
  q.modifyInfo i (fun r => { r with cancelled := v })

/-- One turn of the first loop of `insert_new_jobs`: `Arc::new`, then the
job enters the map unless its derivation is queued or its step finished. -/
def submitJob (finished : StepRef → Bool) (acc : InnerQueues × List InfoRef)
    (job : StepRef × StepInfo) : InnerQueues × List InfoRef :=
  if job.1.drvPath ∉ acc.1.jobs ∧ finished job.1 = false then
    let i : InfoRef := ⟨job.1, acc.1.fresh⟩
    ({ acc.1 with
        jobs := acc.1.jobs.insert job.1.drvPath i
        info := Function.update acc.1.info i job.2
        fresh := acc.1.fresh + 1 },
      acc.2 ++ [i])
  else acc

/-- The first loop of `insert_new_jobs`. -/
def submitJobs (q : InnerQueues) (finished : StepRef → Bool)
    (jobs : List (StepRef × StepInfo)) : InnerQueues × List InfoRef :=
  jobs.foldl (submitJob finished) (q, [])

/-- `entry(system).or_insert_with(|| Arc::new(BuildQueue::new()))`. -/
def ensureQueue (q : InnerQueues) (system : System) : InnerQueues :=
  match q.inner.lookup system with
  | some _ => q
  | none => { q with inner := q.inner.insert system {} }

/-- `InnerQueues::insert_new_jobs`. -/
def insertNewJobs (q : InnerQueues) (held : InfoRef → Bool)
    (finished : StepRef → Bool) (cmp : InfoRef → InfoRef → Ordering)
    (system : System) (jobs : List (StepRef × StepInfo)) (now : Timestamp) :
    InnerQueues :=
  let acc := q.submitJobs finished jobs
  let q := acc.1.ensureQueue system
  q.modifyQueue system
    (BuildQueue.insertNewJobs (q.live held) q.info cmp now acc.2)

/-- `ensure_queues_for_systems`. -/
def ensureQueuesForSystems (q : InnerQueues) (systems : List System) :
    InnerQueues :=
  systems.foldl ensureQueue q

/-- `remove_all_weak_pointer`. -/
def removeAllWeakPointer (q : InnerQueues) (held : InfoRef → Bool) :
    InnerQueues :=
  { q with inner := q.inner.mapValues (BuildQueue.scrubeJobs (q.live held)) }

/-- `sort_queues`. -/
def sortQueues (q : InnerQueues) (held : InfoRef → Bool)
    (cmp : InfoRef → InfoRef → Ordering) : InnerQueues :=
  { q with inner := q.inner.mapValues (BuildQueue.sortJobs (q.live held) cmp) }

/-- `add_job_to_scheduled`. -/
def addJobToScheduled (q : InnerQueues) (i : InfoRef) (system : System)
    (machine : MachineRef) : InnerQueues :=
  let q := { q with scheduled := q.scheduled.insert i.drvPath ⟨i, system, machine⟩ }
  (q.setAlreadyScheduled i true).modifyQueue system
    (fun bq => { bq with activeRunnable := bq.activeRunnable + 1 })

/-- `remove_job_from_scheduled`. -/
def removeJobFromScheduled (q : InnerQueues) (drv : StorePath) :
    Option (ScheduledItem × InnerQueues) :=
  match q.scheduled.lookup drv with
  | none => none
  | some item =>
    let q := { q with scheduled := q.scheduled.erase drv }
    some (item, (q.setAlreadyScheduled item.stepInfo false).modifyQueue
      item.buildQueue
      (fun bq => { bq with activeRunnable := bq.activeRunnable - 1 }))

/-- `remove_job_by_path`. -/
def removeJobByPath (q : InnerQueues) (drv : StorePath) : InnerQueues :=
  { q with jobs := q.jobs.erase drv }

/-- `remove_job`. -/
def removeJob (q : InnerQueues) (held : InfoRef → Bool) (i : InfoRef)
    (system : System) : InnerQueues :=
  let q := q.removeJobByPath i.drvPath
  q.modifyQueue system (BuildQueue.scrubeJobs (q.live held))

/-! ## What the operations leave alone -/

section Frame

variable (q : InnerQueues) (held : InfoRef → Bool) (i : InfoRef)
  (system : System) (f : BuildQueue → BuildQueue) (g : StepInfo → StepInfo)

@[simp] theorem modifyQueue_jobs : (q.modifyQueue system f).jobs = q.jobs := by
  unfold modifyQueue; split <;> rfl

@[simp] theorem modifyQueue_scheduled :
    (q.modifyQueue system f).scheduled = q.scheduled := by
  unfold modifyQueue; split <;> rfl

@[simp] theorem modifyQueue_info : (q.modifyQueue system f).info = q.info := by
  unfold modifyQueue; split <;> rfl

@[simp] theorem modifyQueue_fresh : (q.modifyQueue system f).fresh = q.fresh := by
  unfold modifyQueue; split <;> rfl

@[simp] theorem modifyInfo_jobs : (q.modifyInfo i g).jobs = q.jobs := rfl

@[simp] theorem modifyInfo_scheduled :
    (q.modifyInfo i g).scheduled = q.scheduled := rfl

@[simp] theorem modifyInfo_inner : (q.modifyInfo i g).inner = q.inner := rfl

@[simp] theorem modifyInfo_fresh : (q.modifyInfo i g).fresh = q.fresh := rfl

@[simp] theorem ensureQueue_jobs : (q.ensureQueue system).jobs = q.jobs := by
  unfold ensureQueue; split <;> rfl

@[simp] theorem ensureQueue_scheduled :
    (q.ensureQueue system).scheduled = q.scheduled := by
  unfold ensureQueue; split <;> rfl

@[simp] theorem ensureQueue_info : (q.ensureQueue system).info = q.info := by
  unfold ensureQueue; split <;> rfl

@[simp] theorem ensureQueue_fresh : (q.ensureQueue system).fresh = q.fresh := by
  unfold ensureQueue; split <;> rfl

/-- The queue of every system after a change of one queue. -/
theorem queueJobs_modifyQueue (system' : System) :
    (q.modifyQueue system f).queueJobs system' =
      if system' = system then
        match q.inner.lookup system with
        | some bq => (f bq).jobs
        | none => []
      else q.queueJobs system' := by
  unfold modifyQueue queueJobs
  cases hl : q.inner.lookup system with
  | none =>
    split_ifs with h
    · rw [h, hl]
    · rfl
  | some bq =>
    simp only [Map.lookup_insert_eq]
    split_ifs with h <;> rfl

/-- A change that keeps the pointers of a queue keeps those of all queues. -/
theorem queueJobs_modifyQueue_of_jobs (hf : ∀ bq, (f bq).jobs = bq.jobs)
    (system' : System) :
    (q.modifyQueue system f).queueJobs system' = q.queueJobs system' := by
  rw [queueJobs_modifyQueue]
  split_ifs with h
  · subst h
    unfold queueJobs
    cases q.inner.lookup system' with
    | none => rfl
    | some bq => exact hf bq
  · rfl

/-- A new queue is empty. -/
@[simp] theorem queueJobs_ensureQueue (system' : System) :
    (q.ensureQueue system).queueJobs system' = q.queueJobs system' := by
  unfold ensureQueue queueJobs
  cases hl : q.inner.lookup system with
  | some _ => rfl
  | none =>
    simp only [Map.lookup_insert_eq]
    split_ifs with h
    · rw [h, hl]
    · rfl

theorem ensureQueuesForSystems_frame (systems : List System) :
    (q.ensureQueuesForSystems systems).jobs = q.jobs ∧
      (q.ensureQueuesForSystems systems).scheduled = q.scheduled ∧
      (q.ensureQueuesForSystems systems).info = q.info ∧
      (q.ensureQueuesForSystems systems).fresh = q.fresh ∧
      ∀ system', (q.ensureQueuesForSystems systems).queueJobs system' =
        q.queueJobs system' := by
  induction systems generalizing q with
  | nil => exact ⟨rfl, rfl, rfl, rfl, fun _ => rfl⟩
  | cons system systems ih =>
    have h := ih (q.ensureQueue system)
    simp only [ensureQueue_jobs, ensureQueue_scheduled, ensureQueue_info,
      ensureQueue_fresh, queueJobs_ensureQueue] at h
    exact h

/-- After `ensure_queue` the system has a queue. -/
theorem ensureQueue_lookup_ne_none :
    (q.ensureQueue system).inner.lookup system ≠ none := by
  unfold ensureQueue
  cases hl : q.inner.lookup system with
  | some _ => simp [hl]
  | none => simp

/-- A queue after every queue has been changed by `f`. -/
theorem queueJobs_mapValues (system' : System) :
    ({ q with inner := q.inner.mapValues f } : InnerQueues).queueJobs system' =
      match q.inner.lookup system' with
      | some bq => (f bq).jobs
      | none => [] := by
  unfold queueJobs
  simp only [Map.lookup_mapValues]
  cases q.inner.lookup system' <;> rfl

/-- The strong pointers, by where they are kept. -/
theorem live_iff : q.live held i = true ↔ held i = true ∨
    (∃ drv, q.jobs.lookup drv = some i) ∨
    ∃ drv item, q.scheduled.lookup drv = some item ∧ item.stepInfo = i := by
  simp only [live, Bool.or_eq_true, List.contains_iff_mem, List.any_eq_true,
    beq_iff_eq, Map.mem_values_iff, or_assoc]
  constructor
  · rintro (h | h | ⟨item, ⟨drv, hd⟩, he⟩)
    · exact Or.inl h
    · exact Or.inr (Or.inl h)
    · exact Or.inr (Or.inr ⟨drv, item, hd, he⟩)
  · rintro (h | h | ⟨drv, item, hd, he⟩)
    · exact Or.inl h
    · exact Or.inr (Or.inl h)
    · exact Or.inr (Or.inr ⟨item, ⟨drv, hd⟩, he⟩)

end Frame

/-! ## Sorting and scrubbing -/

section Pointers

variable (live : InfoRef → Bool) (cmp : InfoRef → InfoRef → Ordering)

theorem sortJobs_perm (bq : BuildQueue) :
    (bq.sortJobs live cmp).jobs.Perm bq.jobs :=
  List.perm_insertionSort _ _

@[simp] theorem scrubeJobs_jobs (bq : BuildQueue) :
    (bq.scrubeJobs live).jobs = bq.jobs.filter live := rfl

/-- The pointers after `remove_all_weak_pointer`. -/
theorem queueJobs_removeAllWeakPointer (q : InnerQueues)
    (held : InfoRef → Bool) (system : System) :
    (q.removeAllWeakPointer held).queueJobs system =
      (q.queueJobs system).filter (q.live held) := by
  unfold removeAllWeakPointer
  rw [queueJobs_mapValues]
  unfold queueJobs
  cases q.inner.lookup system <;> rfl

/-- The pointers after `sort_queues`. -/
theorem queueJobs_sortQueues_perm (q : InnerQueues) (held : InfoRef → Bool)
    (system : System) :
    ((q.sortQueues held cmp).queueJobs system).Perm (q.queueJobs system) := by
  unfold sortQueues
  rw [queueJobs_mapValues]
  unfold queueJobs
  cases q.inner.lookup system with
  | none => exact List.Perm.refl _
  | some bq => exact sortJobs_perm _ _ bq

/-- The pointers after `remove_job`: the queue of the caller is scrubbed. -/
theorem queueJobs_removeJob (q : InnerQueues) (held : InfoRef → Bool)
    (i : InfoRef) (system system' : System) :
    (q.removeJob held i system).queueJobs system' =
      if system' = system then
        (q.queueJobs system').filter ((q.removeJobByPath i.drvPath).live held)
      else q.queueJobs system' := by
  unfold removeJob
  rw [queueJobs_modifyQueue]
  split_ifs with h
  · subst h
    unfold queueJobs removeJobByPath
    cases q.inner.lookup system' <;> rfl
  · rfl

@[simp] theorem removeJob_jobs (q : InnerQueues) (held : InfoRef → Bool)
    (i : InfoRef) (system : System) :
    (q.removeJob held i system).jobs = q.jobs.erase i.drvPath := by
  simp [removeJob, removeJobByPath]

@[simp] theorem removeJob_scheduled (q : InnerQueues) (held : InfoRef → Bool)
    (i : InfoRef) (system : System) :
    (q.removeJob held i system).scheduled = q.scheduled := by
  simp [removeJob, removeJobByPath]

@[simp] theorem removeJob_info (q : InnerQueues) (held : InfoRef → Bool)
    (i : InfoRef) (system : System) :
    (q.removeJob held i system).info = q.info := by
  simp [removeJob, removeJobByPath]

@[simp] theorem removeJob_fresh (q : InnerQueues) (held : InfoRef → Bool)
    (i : InfoRef) (system : System) :
    (q.removeJob held i system).fresh = q.fresh := by
  simp [removeJob, removeJobByPath]

end Pointers

/-! ## Scheduling -/

section Scheduling

variable (q : InnerQueues) (i : InfoRef) (system : System)
  (machine : MachineRef)

@[simp] theorem addJobToScheduled_jobs :
    (q.addJobToScheduled i system machine).jobs = q.jobs := by
  simp [addJobToScheduled, setAlreadyScheduled]

@[simp] theorem addJobToScheduled_scheduled :
    (q.addJobToScheduled i system machine).scheduled =
      q.scheduled.insert i.drvPath ⟨i, system, machine⟩ := by
  simp [addJobToScheduled, setAlreadyScheduled]

@[simp] theorem addJobToScheduled_fresh :
    (q.addJobToScheduled i system machine).fresh = q.fresh := by
  simp [addJobToScheduled, setAlreadyScheduled]

@[simp] theorem addJobToScheduled_info :
    (q.addJobToScheduled i system machine).info =
      Function.update q.info i { q.info i with alreadyScheduled := true } := by
  simp [addJobToScheduled, setAlreadyScheduled, modifyInfo]

@[simp] theorem queueJobs_addJobToScheduled (system' : System) :
    (q.addJobToScheduled i system machine).queueJobs system' =
      q.queueJobs system' :=
  queueJobs_modifyQueue_of_jobs _ _
    (fun bq => { bq with activeRunnable := bq.activeRunnable + 1 })
    (fun _ => rfl) system'

/-- What `remove_job_from_scheduled` does when it finds the item. -/
structure Unscheduled (q : InnerQueues) (drv : StorePath)
    (item : ScheduledItem) (q' : InnerQueues) : Prop where
  found : q.scheduled.lookup drv = some item
  jobs : q'.jobs = q.jobs
  scheduled : q'.scheduled = q.scheduled.erase drv
  fresh : q'.fresh = q.fresh
  info : q'.info = Function.update q.info item.stepInfo
    { q.info item.stepInfo with alreadyScheduled := false }
  queueJobs : ∀ system, q'.queueJobs system = q.queueJobs system

theorem unscheduled_of_removeJobFromScheduled {q q' : InnerQueues}
    {drv : StorePath} {item : ScheduledItem}
    (h : q.removeJobFromScheduled drv = some (item, q')) :
    Unscheduled q drv item q' := by
  unfold removeJobFromScheduled at h
  cases hl : q.scheduled.lookup drv with
  | none => simp [hl] at h
  | some it =>
    simp only [hl, Option.some.injEq, Prod.mk.injEq] at h
    obtain ⟨rfl, rfl⟩ := h
    refine
      { found := hl
        jobs := by simp [setAlreadyScheduled]
        scheduled := by simp [setAlreadyScheduled]
        fresh := by simp [setAlreadyScheduled]
        info := by simp [setAlreadyScheduled, modifyInfo]
        queueJobs := fun system => ?_ }
    exact queueJobs_modifyQueue_of_jobs _ _
      (fun bq => { bq with activeRunnable := bq.activeRunnable - 1 })
      (fun _ => rfl) system

/-- The item that was removed may be scheduled again. -/
theorem Unscheduled.flag_eq_false {q q' : InnerQueues} {drv : StorePath}
    {item : ScheduledItem} (h : Unscheduled q drv item q') :
    (q'.info item.stepInfo).alreadyScheduled = false := by
  simp [h.info]

theorem setAlreadyScheduled_eq_self {q : InnerQueues} {i : InfoRef} {v : Bool}
    (h : (q.info i).alreadyScheduled = v) : q.setAlreadyScheduled i v = q := by
  subst h
  simp [setAlreadyScheduled, modifyInfo]

theorem removeJobFromScheduled_eq_none {q : InnerQueues} {drv : StorePath} :
    q.removeJobFromScheduled drv = none ↔ q.scheduled.lookup drv = none := by
  unfold removeJobFromScheduled
  cases q.scheduled.lookup drv <;> simp

end Scheduling

/-! ## The insertion of new jobs -/

/-- What the first loop of `insert_new_jobs` does: `new` are the step
infos it allocates, one for each derivation it accepts. -/
structure Submitted (finished : StepRef → Bool)
    (jobs : List (StepRef × StepInfo)) (q q' : InnerQueues)
    (new : List InfoRef) : Prop where
  inner : q'.inner = q.inner
  scheduled : q'.scheduled = q.scheduled
  fresh_le : q.fresh ≤ q'.fresh
  gen : ∀ i ∈ new, q.fresh ≤ i.gen ∧ i.gen < q'.fresh
  nodup : (new.map InfoRef.drvPath).Nodup
  notMem : ∀ i ∈ new, i.drvPath ∉ q.jobs
  origin : ∀ i ∈ new, finished i.step = false ∧
    ∃ info, (i.step, info) ∈ jobs ∧ q'.info i = info
  accepts : ∀ job ∈ jobs, job.1.drvPath ∉ q.jobs → finished job.1 = false →
    ∃ i ∈ new, i.drvPath = job.1.drvPath
  lookup : ∀ drv i, q'.jobs.lookup drv = some i ↔
    q.jobs.lookup drv = some i ∨ (i ∈ new ∧ i.drvPath = drv)
  info_old : ∀ i, i.gen < q.fresh → q'.info i = q.info i

namespace Submitted

variable {finished : StepRef → Bool} {jobs : List (StepRef × StepInfo)}
  {q q' : InnerQueues} {new : List InfoRef}

/-- A derivation in the old map is in the new one. -/
theorem mem_of_mem (h : Submitted finished jobs q q' new) {drv : StorePath}
    (hmem : drv ∈ q.jobs) : drv ∈ q'.jobs := by
  obtain ⟨i, hi⟩ := Option.isSome_iff_exists.mp (AList.lookup_isSome.mpr hmem)
  apply AList.lookup_isSome.mp
  rw [(h.lookup _ i).mpr (Or.inl hi)]
  rfl

/-- A submitted derivation is in the new map. -/
theorem mem_of_new (h : Submitted finished jobs q q' new) {i : InfoRef}
    (hi : i ∈ new) : i.drvPath ∈ q'.jobs := by
  apply AList.lookup_isSome.mp
  rw [(h.lookup _ i).mpr (Or.inr ⟨hi, rfl⟩)]
  rfl

/-- One more job that is accepted. -/
theorem accept (h : Submitted finished jobs q q' new)
    (job : StepRef × StepInfo) (hnot : job.1.drvPath ∉ q'.jobs)
    (hfin : finished job.1 = false) :
    Submitted finished (jobs ++ [job]) q
      { q' with
        jobs := q'.jobs.insert job.1.drvPath ⟨job.1, q'.fresh⟩
        info := Function.update q'.info ⟨job.1, q'.fresh⟩ job.2
        fresh := q'.fresh + 1 }
      (new ++ [⟨job.1, q'.fresh⟩]) := by
  have hne : ∀ i : InfoRef, i.gen < q'.fresh → i ≠ ⟨job.1, q'.fresh⟩ := by
    rintro i hi rfl
    exact absurd hi (lt_irrefl _)
  have hnotOld : job.1.drvPath ∉ q.jobs := fun hmem => hnot (h.mem_of_mem hmem)
  have hdistinct : ∀ i ∈ new, i.drvPath ≠ job.1.drvPath :=
    fun i hi heq => hnot (heq ▸ h.mem_of_new hi)
  refine
    { inner := h.inner
      scheduled := h.scheduled
      fresh_le := Nat.le_succ_of_le h.fresh_le
      gen := ?_, nodup := ?_, notMem := ?_, origin := ?_
      accepts := ?_, lookup := ?_, info_old := ?_ }
  · intro i hi
    rcases List.mem_append.mp hi with hi | hi
    · exact ⟨(h.gen i hi).1, Nat.lt_succ_of_lt (h.gen i hi).2⟩
    · rw [List.mem_singleton.mp hi]
      exact ⟨h.fresh_le, Nat.lt_succ_self _⟩
  · exact Map.nodup_map_concat h.nodup hdistinct
  · intro i hi
    rcases List.mem_append.mp hi with hi | hi
    · exact h.notMem i hi
    · rw [List.mem_singleton.mp hi]
      exact hnotOld
  · intro i hi
    rcases List.mem_append.mp hi with hi | hi
    · obtain ⟨hf, info, hmem, hinfo⟩ := h.origin i hi
      refine ⟨hf, info, List.mem_append_left _ hmem, ?_⟩
      rw [← hinfo]
      exact Function.update_of_ne (hne i (h.gen i hi).2) _ _
    · rw [List.mem_singleton.mp hi]
      exact ⟨hfin, job.2, by simp, by simp⟩
  · intro j hj hjq hjf
    rcases List.mem_append.mp hj with hj | hj
    · obtain ⟨i, hi, he⟩ := h.accepts j hj hjq hjf
      exact ⟨i, List.mem_append_left _ hi, he⟩
    · rw [List.mem_singleton.mp hj]
      exact ⟨⟨job.1, q'.fresh⟩, by simp, rfl⟩
  · intro drv i
    rw [Map.lookup_insert_eq]
    by_cases hd : drv = job.1.drvPath
    · subst hd
      simp only [if_true, Option.some.injEq]
      constructor
      · rintro rfl
        exact Or.inr ⟨by simp, rfl⟩
      · rintro (hi | ⟨hi, he⟩)
        · exact absurd (AList.lookup_isSome.mp (by rw [hi]; rfl)) hnotOld
        · rcases List.mem_append.mp hi with hi | hi
          · exact absurd he (hdistinct i hi)
          · exact (List.mem_singleton.mp hi).symm
    · rw [if_neg hd, h.lookup]
      constructor
      · rintro (hi | ⟨hi, he⟩)
        · exact Or.inl hi
        · exact Or.inr ⟨List.mem_append_left _ hi, he⟩
      · rintro (hi | ⟨hi, he⟩)
        · exact Or.inl hi
        · rcases List.mem_append.mp hi with hi | hi
          · exact Or.inr ⟨hi, he⟩
          · rw [List.mem_singleton.mp hi] at he
            exact absurd he.symm hd
  · intro i hi
    rw [← h.info_old i hi]
    exact Function.update_of_ne (hne i (lt_of_lt_of_le hi h.fresh_le)) _ _

/-- One more job that is turned down: its step is finished or its
derivation is in the map already. -/
theorem reject (h : Submitted finished jobs q q' new)
    (job : StepRef × StepInfo)
    (hcond : ¬(job.1.drvPath ∉ q'.jobs ∧ finished job.1 = false)) :
    Submitted finished (jobs ++ [job]) q q' new := by
  refine { h with origin := ?_, accepts := ?_ }
  · intro i hi
    obtain ⟨hf, info, hmem, hinfo⟩ := h.origin i hi
    exact ⟨hf, info, List.mem_append_left _ hmem, hinfo⟩
  · intro j hj hjq hjf
    rcases List.mem_append.mp hj with hj | hj
    · exact h.accepts j hj hjq hjf
    · rw [List.mem_singleton.mp hj] at hjq hjf ⊢
      have hmem : job.1.drvPath ∈ q'.jobs := by
        by_contra hne
        exact hcond ⟨hne, hjf⟩
      obtain ⟨i, hi⟩ := Option.isSome_iff_exists.mp (AList.lookup_isSome.mpr hmem)
      rcases (h.lookup _ i).mp hi with hi | ⟨hi, he⟩
      · exact absurd (AList.lookup_isSome.mp (by rw [hi]; rfl)) hjq
      · exact ⟨i, hi, he⟩

end Submitted

/-- The loop of `insert_new_jobs` meets its description.  The induction is
over the jobs already handled. -/
theorem submitted_submitJobs (q : InnerQueues) (finished : StepRef → Bool)
    (jobs : List (StepRef × StepInfo)) :
    Submitted finished jobs q (q.submitJobs finished jobs).1
      (q.submitJobs finished jobs).2 := by
  induction jobs using List.reverseRecOn with
  | nil => constructor <;> simp [submitJobs]
  | append_singleton jobs job ih =>
    have happ : q.submitJobs finished (jobs ++ [job]) =
        submitJob finished (q.submitJobs finished jobs) job := by
      simp [submitJobs, List.foldl_append]
    rw [happ, submitJob]
    split_ifs with hcond
    · exact ih.accept job hcond.1 hcond.2
    · exact ih.reject job hcond

/-- The loop of `BuildQueue::insert_new_jobs` appends some of the jobs. -/
theorem foldl_pushJob_sublist (live : InfoRef → Bool)
    (info : InfoRef → StepInfo) (now : Timestamp) (js : List InfoRef)
    (acc : List InfoRef × UInt64) :
    ∃ l, l.Sublist js ∧
      (js.foldl (BuildQueue.pushJob live info now) acc).1 = acc.1 ++ l := by
  induction js generalizing acc with
  | nil => exact ⟨[], List.Sublist.refl _, by simp⟩
  | cons j js ih =>
    obtain ⟨l, hl, he⟩ := ih (BuildQueue.pushJob live info now acc j)
    rw [List.foldl_cons, he]
    unfold BuildQueue.pushJob
    split_ifs
    · exact ⟨l, hl.cons j, rfl⟩
    · exact ⟨j :: l, hl.cons_cons j, by simp⟩
    · exact ⟨l, hl.cons j, rfl⟩

/-- A job with a live pointer of its derivation in the queue is dropped. -/
theorem not_mem_foldl_pushJob (live : InfoRef → Bool)
    (info : InfoRef → StepInfo) (now : Timestamp) (js : List InfoRef)
    (acc : List InfoRef × UInt64) {v j : InfoRef} (hv : v ∈ acc.1)
    (hlive : live v = true) (hd : v.drvPath = j.drvPath) (hj : j ∉ acc.1) :
    j ∉ (js.foldl (BuildQueue.pushJob live info now) acc).1 := by
  induction js generalizing acc with
  | nil => exact hj
  | cons k js ih =>
    rw [List.foldl_cons]
    unfold BuildQueue.pushJob
    split_ifs with hk hany
    · exact ih acc hv hj
    · refine ih _ (List.mem_append_left _ hv) ?_
      intro hmem
      rcases List.mem_append.mp hmem with h | h
      · exact hj h
      · rw [List.mem_singleton.mp h] at hd
        exact hany (List.any_eq_true.mpr ⟨v, hv, by simp [hlive, hd]⟩)
    · exact ih acc hv hj

/-- Live jobs of distinct derivations, none of them in the queue yet, are
all appended. -/
theorem foldl_pushJob_eq (live : InfoRef → Bool)
    (info : InfoRef → StepInfo) (now : Timestamp) (js : List InfoRef)
    (acc : List InfoRef × UInt64) (hlive : ∀ j ∈ js, live j = true)
    (hnodup : (js.map InfoRef.drvPath).Nodup)
    (hfree : ∀ j ∈ js, ∀ v ∈ acc.1, live v = true → v.drvPath ≠ j.drvPath) :
    (js.foldl (BuildQueue.pushJob live info now) acc).1 = acc.1 ++ js := by
  induction js generalizing acc with
  | nil => simp
  | cons j js ih =>
    have hany : acc.1.any (fun v => live v && v.drvPath == j.drvPath) = false := by
      rw [List.any_eq_false]
      intro v hv h
      simp only [Bool.and_eq_true, beq_iff_eq] at h
      exact hfree j (by simp) v hv h.1 h.2
    have hpush : BuildQueue.pushJob live info now acc j =
        (acc.1 ++ [j], acc.2 + BuildQueue.waitMillis now (info j).runnableSince) := by
      simp [BuildQueue.pushJob, hlive j (by simp), hany]
    rw [List.map_cons, List.nodup_cons] at hnodup
    rw [List.foldl_cons, hpush,
      ih _ (fun k hk => hlive k (by simp [hk])) hnodup.2, List.append_assoc,
      List.singleton_append]
    intro k hk v hv hvl
    rcases List.mem_append.mp hv with hv | hv
    · exact hfree k (by simp [hk]) v hv hvl
    · rw [List.mem_singleton.mp hv]
      intro heq
      exact hnodup.1 (heq ▸ List.mem_map.mpr ⟨k, hk, rfl⟩)

/-- Liveness only depends on the strong pointers. -/
theorem live_congr {q q' : InnerQueues} (hjobs : q'.jobs = q.jobs)
    (hsch : q'.scheduled = q.scheduled) (held : InfoRef → Bool) :
    q'.live held = q.live held := by
  funext i
  simp only [live, hjobs, hsch]

section Insert

variable (q : InnerQueues) (held : InfoRef → Bool) (finished : StepRef → Bool)
  (cmp : InfoRef → InfoRef → Ordering) (system : System)
  (jobs : List (StepRef × StepInfo)) (now : Timestamp)

@[simp] theorem insertNewJobs_jobs :
    (q.insertNewJobs held finished cmp system jobs now).jobs =
      (q.submitJobs finished jobs).1.jobs := by
  simp [insertNewJobs]

@[simp] theorem insertNewJobs_scheduled :
    (q.insertNewJobs held finished cmp system jobs now).scheduled =
      q.scheduled := by
  simp [insertNewJobs, (submitted_submitJobs q finished jobs).scheduled]

@[simp] theorem insertNewJobs_info :
    (q.insertNewJobs held finished cmp system jobs now).info =
      (q.submitJobs finished jobs).1.info := by
  simp [insertNewJobs]

@[simp] theorem insertNewJobs_fresh :
    (q.insertNewJobs held finished cmp system jobs now).fresh =
      (q.submitJobs finished jobs).1.fresh := by
  simp [insertNewJobs]

/-- The queues of the other systems are not touched. -/
theorem queueJobs_insertNewJobs_of_ne {system' : System}
    (hne : system' ≠ system) :
    (q.insertNewJobs held finished cmp system jobs now).queueJobs system' =
      q.queueJobs system' := by
  unfold insertNewJobs
  simp only [queueJobs_modifyQueue, if_neg hne, queueJobs_ensureQueue]
  simp only [queueJobs, (submitted_submitJobs q finished jobs).inner]

/-- The queue of the system: the jobs are pushed one by one, dead pointers
go, and the rest is sorted. -/
theorem queueJobs_insertNewJobs_perm :
    ((q.insertNewJobs held finished cmp system jobs now).queueJobs system).Perm
      ((((q.submitJobs finished jobs).2.foldl
          (BuildQueue.pushJob ((q.submitJobs finished jobs).1.live held)
            (q.submitJobs finished jobs).1.info now)
          (q.queueJobs system, 0)).1).filter
        ((q.submitJobs finished jobs).1.live held)) := by
  have hsub := submitted_submitJobs q finished jobs
  set q₁ := (q.submitJobs finished jobs).1 with hq₁
  have hlive : (q₁.ensureQueue system).live held = q₁.live held :=
    live_congr (by simp) (by simp) held
  have hqueue : (q₁.ensureQueue system).queueJobs system = q.queueJobs system := by
    rw [queueJobs_ensureQueue]
    simp only [queueJobs, hsub.inner]
  unfold insertNewJobs
  simp only [← hq₁, queueJobs_modifyQueue, if_true, hlive, ensureQueue_info]
  cases hl : (q₁.ensureQueue system).inner.lookup system with
  | none => exact absurd hl (ensureQueue_lookup_ne_none q₁ system)
  | some bq =>
    have hbq : bq.jobs = q.queueJobs system := by
      rw [← hqueue, queueJobs, hl]
    refine (sortJobs_perm _ _ _).trans ?_
    rw [scrubeJobs_jobs, hbq]

/-- A pointer after an insertion was there before or is one of the batch. -/
theorem mem_queueJobs_insertNewJobs {system' : System} {i : InfoRef}
    (hi : i ∈ (q.insertNewJobs held finished cmp system jobs now).queueJobs
      system') :
    i ∈ q.queueJobs system' ∨
      (system' = system ∧ i ∈ (q.submitJobs finished jobs).2) := by
  by_cases hs : system' = system
  · subst hs
    have hmem := List.mem_of_mem_filter
      ((queueJobs_insertNewJobs_perm ..).mem_iff.mp hi)
    obtain ⟨l, hl, he⟩ := foldl_pushJob_sublist
      ((q.submitJobs finished jobs).1.live held)
      (q.submitJobs finished jobs).1.info now (q.submitJobs finished jobs).2
      (q.queueJobs system', 0)
    rw [he, List.mem_append] at hmem
    exact hmem.imp id (fun h => ⟨rfl, hl.mem h⟩)
  · rw [queueJobs_insertNewJobs_of_ne _ _ _ _ _ _ _ hs] at hi
    exact Or.inl hi

/-- An insertion keeps the pointers that can be upgraded. -/
theorem queueJobs_insertNewJobs_of_live {system' : System} {i : InfoRef}
    (hi : i ∈ q.queueJobs system')
    (hlive : (q.submitJobs finished jobs).1.live held i = true) :
    i ∈ (q.insertNewJobs held finished cmp system jobs now).queueJobs system' := by
  by_cases hs : system' = system
  · subst hs
    obtain ⟨l, hl, he⟩ := foldl_pushJob_sublist
      ((q.submitJobs finished jobs).1.live held)
      (q.submitJobs finished jobs).1.info now (q.submitJobs finished jobs).2
      (q.queueJobs system', 0)
    refine (queueJobs_insertNewJobs_perm ..).mem_iff.mpr
      (List.mem_filter.mpr ⟨?_, hlive⟩)
    rw [he]
    exact List.mem_append_left _ hi
  · rwa [queueJobs_insertNewJobs_of_ne _ _ _ _ _ _ _ hs]

end Insert

/-- A pointer that is older than the batch is live after it exactly when
it was live before. -/
theorem Submitted.live_old {finished : StepRef → Bool}
    {jobs : List (StepRef × StepInfo)} {q q' : InnerQueues}
    {new : List InfoRef} (h : Submitted finished jobs q q' new)
    (held : InfoRef → Bool) {i : InfoRef} (hi : i.gen < q.fresh) :
    q'.live held i = q.live held i := by
  rw [Bool.eq_iff_iff, live_iff, live_iff, h.scheduled]
  have hnew : i ∉ new := fun hmem => absurd (h.gen i hmem).1 (not_le.mpr hi)
  simp only [h.lookup, hnew, false_and, or_false]

/-- A submitted job is live: the map holds it. -/
theorem Submitted.live_new {finished : StepRef → Bool}
    {jobs : List (StepRef × StepInfo)} {q q' : InnerQueues}
    {new : List InfoRef} (h : Submitted finished jobs q q' new)
    (held : InfoRef → Bool) {i : InfoRef} (hi : i ∈ new) :
    q'.live held i = true := by
  rw [live_iff]
  exact Or.inr (Or.inl ⟨i.drvPath, (h.lookup _ i).mpr (Or.inr ⟨hi, rfl⟩)⟩)

end InnerQueues

end QueueRunner
