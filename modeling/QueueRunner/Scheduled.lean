import QueueRunner.Lib.Measure
import QueueRunner.Lib.Run
import QueueRunner.Queue

/-!
# The bookkeeping of scheduled jobs

`add_job_to_scheduled` makes three updates: it inserts the item into the
map `scheduled`, it sets `already_scheduled`, and it increments
`active_runnable`.  `remove_job_from_scheduled` takes the three back in the
same order.  Both run under the read lock of `Queues`, so that the updates
of one may fall between those of the other; here each of the six is one
step.  The operations under the write lock are one step each and wait for
the additions and removals in progress.

Only the dispatch loop adds jobs.  `succeed_step` and `fail_step` remove
them, each call on its own.  A `fail_step` that retries its step stores the
flag a second time, with no lock held.

The map, the flags and the counters agree in every run in which a removal
does not overtake the addition of its item, an addition finds no older item
of its derivation, and a retry does not clear the flag of a job that has
been added again.
-/

namespace QueueRunner

namespace InnerQueues

/-! ## The single updates -/

/-- `get_already_scheduled`. -/
def getAlreadyScheduled (q : InnerQueues) (i : InfoRef) : Bool := (q.info i).alreadyScheduled

/-- `active_runnable` of the queue of a system. -/
def active (q : InnerQueues) (system : System) : UInt64 :=
  ((q.inner.lookup system).map BuildQueue.activeRunnable).getD 0

/-- `self.scheduled.write().insert(..)`. -/
def insertScheduled (q : InnerQueues) (i : InfoRef) (system : System) (machine : MachineRef) :
    InnerQueues :=
  { q with scheduled := q.scheduled.insert i.drvPath ⟨i, system, machine⟩ }

/-- `self.scheduled.write().remove(drv)`. -/
def eraseScheduled (q : InnerQueues) (drv : StorePath) : InnerQueues :=
  { q with scheduled := q.scheduled.erase drv }

/-- `incr_active`. -/
def incrActive (q : InnerQueues) (system : System) : InnerQueues :=
  q.modifyQueue system (fun bq => { bq with activeRunnable := bq.activeRunnable + 1 })

/-- `decr_active`. -/
def decrActive (q : InnerQueues) (system : System) : InnerQueues :=
  q.modifyQueue system (fun bq => { bq with activeRunnable := bq.activeRunnable - 1 })

@[simp] theorem incrActive_scheduled (q : InnerQueues) (system : System) :
    (q.incrActive system).scheduled = q.scheduled :=
  modifyQueue_scheduled ..

@[simp] theorem decrActive_scheduled (q : InnerQueues) (system : System) :
    (q.decrActive system).scheduled = q.scheduled :=
  modifyQueue_scheduled ..

@[simp] theorem getAlreadyScheduled_incrActive (q : InnerQueues) (system : System) (i : InfoRef) :
    (q.incrActive system).getAlreadyScheduled i = q.getAlreadyScheduled i := by
  simp only [getAlreadyScheduled, incrActive, modifyQueue_info]

@[simp] theorem getAlreadyScheduled_decrActive (q : InnerQueues) (system : System) (i : InfoRef) :
    (q.decrActive system).getAlreadyScheduled i = q.getAlreadyScheduled i := by
  simp only [getAlreadyScheduled, decrActive, modifyQueue_info]

/-- The flags after one of them is stored. -/
theorem getAlreadyScheduled_setAlreadyScheduled (q : InnerQueues) (i j : InfoRef) (v : Bool) :
    (q.setAlreadyScheduled i v).getAlreadyScheduled j =
      if j = i then v else q.getAlreadyScheduled j := by
  simp only [setAlreadyScheduled, modifyInfo, getAlreadyScheduled, Function.update_apply]
  split_ifs <;> rfl

theorem addJobToScheduled_eq (q : InnerQueues) (i : InfoRef) (system : System)
    (machine : MachineRef) :
    q.addJobToScheduled i system machine =
      ((q.insertScheduled i system machine).setAlreadyScheduled i true).incrActive system :=
  rfl

theorem removeJobFromScheduled_eq {q : InnerQueues} {drv : StorePath} {item : ScheduledItem}
    (h : q.scheduled.lookup drv = some item) :
    q.removeJobFromScheduled drv =
      some (item, ((q.eraseScheduled drv).setAlreadyScheduled item.stepInfo false).decrActive
        item.buildQueue) := by
  simp only [removeJobFromScheduled, h]
  rfl

end InnerQueues

/-! ## The dispatch loop and the removals -/

/-- Where `process` is in the walk over the queue of `system`, with the
pointers that it has not looked at. -/
inductive ProcessPc where
  | idle
  | walk (system : System) (jobs : List InfoRef)
  /-- In `processor`, for the job `i`. -/
  | realise (system : System) (jobs : List InfoRef) (i : InfoRef)
  /-- In `add_job_to_scheduled`, the item in the map. -/
  | inserted (system : System) (jobs : List InfoRef) (i : InfoRef)
  /-- In `add_job_to_scheduled`, the flag set. -/
  | flagged (system : System) (jobs : List InfoRef) (i : InfoRef)

namespace ProcessPc

/-- The job that `processor` looks for a machine for. -/
def chosen : ProcessPc → Option InfoRef
  | .realise _ _ i => some i
  | _ => none

/-- The job whose item is in the map and whose flag is still to be set. -/
def unflagged : ProcessPc → Option InfoRef
  | .inserted _ _ i => some i
  | _ => none

/-- The queue whose counter is still to be incremented. -/
def uncounted : ProcessPc → Option System
  | .inserted system _ _ | .flagged system _ _ => some system
  | _ => none

/-- The queue that the loop walks over. -/
def system : ProcessPc → Option System
  | .idle => none
  | .walk system _ | .realise system _ _ | .inserted system _ _ | .flagged system _ _ => some system

/-- The step infos that the loop has pointers to. -/
def infos : ProcessPc → List InfoRef
  | .idle => []
  | .walk _ jobs => jobs
  | .realise _ jobs i | .inserted _ jobs i | .flagged _ jobs i => i :: jobs

end ProcessPc

/-- A call of `remove_job_from_scheduled` that has taken its item. -/
structure Unscheduling where
  item : ScheduledItem
  /-- Whether `already_scheduled` is cleared. -/
  cleared : Bool

/-- The queues, the dispatch loop, the removals in progress, and whether a
counter has been decremented at zero. -/
structure Bookkeeping where
  queues : InnerQueues := {}
  loop : ProcessPc := .idle
  removals : Map Nat Unscheduling := ∅
  /-- The calls of `fail_step` that have removed their item and are still to
  store `false` in its step info. -/
  retries : Map Nat InfoRef := ∅
  underflowed : Bool := false

namespace Bookkeeping

inductive Action where
  | insertNewJobs (held : InfoRef → Bool) (finished : StepRef → Bool)
      (cmp : InfoRef → InfoRef → Ordering) (system : System)
      (jobs : List (StepRef × StepInfo)) (now : Timestamp)
  | ensureQueuesForSystems (systems : List System)
  | removeAllWeakPointer (held : InfoRef → Bool)
  | sortQueues (held : InfoRef → Bool) (cmp : InfoRef → InfoRef → Ordering)
  | removeJob (held : InfoRef → Bool) (i : InfoRef) (system : System)
  | removeJobByPath (drv : StorePath)
  | setCancelled (i : InfoRef) (v : Bool)
  /-- `process` clones the pointers of a queue. -/
  | cloneInner (system : System)
  /-- It looks at the next pointer: `ready` when it can be upgraded and its
  step is not finished and not delayed. -/
  | visit (ready : Bool)
  /-- `processor` returns without a machine. -/
  | pass
  | insertScheduled (machine : MachineRef)
  | setFlag
  | incrActive
  /-- A call `c` of `remove_job_from_scheduled` starts. -/
  | takeScheduled (c : Nat) (drv : StorePath)
  | clearFlag (c : Nat)
  /-- The call returns.  `retry`: it was that of a `fail_step` that tries its
  step again. -/
  | decrActive (c : Nat) (retry : Bool)
  /-- `item.step_info.set_already_scheduled(false)` of `fail_step`. -/
  | retryFlag (c : Nat)

/-- Nobody holds the read lock. -/
def Unlocked (w : Bookkeeping) : Prop := w.loop.uncounted = none ∧ w.removals.keys = []

instance (w : Bookkeeping) : Decidable w.Unlocked :=
  inferInstanceAs (Decidable (_ ∧ _))

/-- An operation under the write lock. -/
def locked (w : Bookkeeping) (q : InnerQueues) : Option Bookkeeping :=
  if w.Unlocked then some { w with queues := q } else none

def next (w : Bookkeeping) : Action → Option Bookkeeping
  | .insertNewJobs held finished cmp system jobs now =>
    -- `StepInfo::new` leaves the flag clear
    if jobs.all (fun job => !job.2.alreadyScheduled) then
      w.locked (w.queues.insertNewJobs held finished cmp system jobs now)
    else none
  | .ensureQueuesForSystems systems => w.locked (w.queues.ensureQueuesForSystems systems)
  | .removeAllWeakPointer held => w.locked (w.queues.removeAllWeakPointer held)
  | .sortQueues held cmp => some { w with queues := w.queues.sortQueues held cmp }
  | .removeJob held i system => w.locked (w.queues.removeJob held i system)
  | .removeJobByPath drv => w.locked (w.queues.removeJobByPath drv)
  | .setCancelled i v => some { w with queues := w.queues.setCancelled i v }
  | .cloneInner system =>
    match w.loop with
    | .idle | .walk _ [] =>
      if system ∈ w.queues.inner then
        some { w with loop := .walk system (w.queues.queueJobs system) }
      else none
    | _ => none
  | .visit ready =>
    match w.loop with
    | .walk system (i :: jobs) =>
      if ready && !w.queues.getAlreadyScheduled i then
        some { w with loop := .realise system jobs i }
      else some { w with loop := .walk system jobs }
    | _ => none
  | .pass =>
    match w.loop with
    | .realise system jobs _ => some { w with loop := .walk system jobs }
    | .walk _ [] => some { w with loop := .idle }
    | _ => none
  | .insertScheduled machine =>
    match w.loop with
    | .realise system jobs i =>
      some { w with
        queues := w.queues.insertScheduled i system machine
        loop := .inserted system jobs i }
    | _ => none
  | .setFlag =>
    match w.loop with
    | .inserted system jobs i =>
      some { w with
        queues := w.queues.setAlreadyScheduled i true
        loop := .flagged system jobs i }
    | _ => none
  | .incrActive =>
    match w.loop with
    | .flagged system jobs _ =>
      some { w with
        queues := w.queues.incrActive system
        loop := .walk system jobs }
    | _ => none
  | .takeScheduled c drv =>
    if c ∈ w.removals ∨ c ∈ w.retries then none
    else
      match w.queues.scheduled.lookup drv with
      | some item =>
        some { w with
          queues := w.queues.eraseScheduled drv
          removals := w.removals.insert c ⟨item, false⟩ }
      | none => some w
  | .clearFlag c =>
    match w.removals.lookup c with
    | some ⟨item, false⟩ =>
      some { w with
        queues := w.queues.setAlreadyScheduled item.stepInfo false
        removals := w.removals.insert c ⟨item, true⟩ }
    | _ => none
  | .decrActive c retry =>
    match w.removals.lookup c with
    | some ⟨item, true⟩ =>
      some { w with
        queues := w.queues.decrActive item.buildQueue
        removals := w.removals.erase c
        retries := if retry then w.retries.insert c item.stepInfo else w.retries
        underflowed := w.underflowed || w.queues.active item.buildQueue == 0 }
    | _ => none
  | .retryFlag c =>
    match w.retries.lookup c with
    | some i =>
      some { w with
        queues := w.queues.setAlreadyScheduled i false
        retries := w.retries.erase c }
    | none => none

/-- Nothing between the three updates: `add_job_to_scheduled` as a whole. -/
theorem run_addJobToScheduled {w : Bookkeeping} {system : System} {jobs : List InfoRef}
    {i : InfoRef} (hl : w.loop = .realise system jobs i) (machine : MachineRef) :
    Lts.run next w [.insertScheduled machine, .setFlag, .incrActive] =
      some { w with
        queues := w.queues.addJobToScheduled i system machine
        loop := .walk system jobs } := by
  rw [InnerQueues.addJobToScheduled_eq]
  simp only [Lts.run, next, hl]

/-- Nothing between the three updates: `remove_job_from_scheduled` as a
whole. -/
theorem run_removeJobFromScheduled {w : Bookkeeping} {c : Nat} {drv : StorePath}
    {item : ScheduledItem} {q : InnerQueues} (hc : ¬(c ∈ w.removals ∨ c ∈ w.retries))
    (h : w.queues.removeJobFromScheduled drv = some (item, q)) (retry : Bool) :
    (Lts.run next w [.takeScheduled c drv, .clearFlag c, .decrActive c retry]).map
      Bookkeeping.queues = some q := by
  have hdrv := (InnerQueues.unscheduled_of_removeJobFromScheduled h).found
  rw [InnerQueues.removeJobFromScheduled_eq hdrv, Option.some.injEq, Prod.mk.injEq] at h
  simp only [Lts.run, next, hdrv, if_neg hc, AList.lookup_insert, Option.map_some, h.2]

/-! ## What is counted -/

/-- The sum of a measure over the items in the map and of another over the
removals. -/
def tally (w : Bookkeeping) (f : ScheduledItem → Nat) (g : Unscheduling → Nat) : Nat :=
  w.queues.scheduled.weight f + w.removals.weight g

/-- The items of the queue of a system that are in the map or on their way
out of it. -/
def itemsOf (w : Bookkeeping) (system : System) : Nat :=
  w.tally (fun item => if item.buildQueue = system then 1 else 0)
    (fun r => if r.item.buildQueue = system then 1 else 0)

/-- The items of a step info whose flag is not yet cleared. -/
def holders (w : Bookkeeping) (i : InfoRef) : Nat :=
  w.tally (fun item => if item.stepInfo = i then 1 else 0)
    (fun r => if r.cleared = false ∧ r.item.stepInfo = i then 1 else 0)

/-- A removal does not overtake the addition of its item, an addition does
not meet an older item, and a retry finds the flag as its removal has left
it.  The counter does not overflow. -/
def InOrder (w : Bookkeeping) : Action → Prop
  | .insertScheduled _ => ∀ i ∈ w.loop.chosen, i.drvPath ∉ w.queues.scheduled
  | .incrActive => ∀ system ∈ w.loop.uncounted, (w.queues.active system).toNat + 1 < 2 ^ 64
  | .clearFlag c => ∀ r ∈ w.removals.lookup c, w.loop.unflagged ≠ some r.item.stepInfo
  | .decrActive c _ => ∀ r ∈ w.removals.lookup c,
      ¬(w.loop.uncounted = some r.item.buildQueue ∧ w.itemsOf r.item.buildQueue = 1)
  | .retryFlag c => ∀ i ∈ w.retries.lookup c, w.queues.getAlreadyScheduled i = false
  | _ => True

instance (w : Bookkeeping) : (a : Action) → Decidable (w.InOrder a)
  | .insertScheduled _ => inferInstanceAs (Decidable (∀ i ∈ w.loop.chosen, _))
  | .incrActive => inferInstanceAs (Decidable (∀ system ∈ w.loop.uncounted, _))
  | .clearFlag c => inferInstanceAs (Decidable (∀ r ∈ w.removals.lookup c, _))
  | .decrActive c _ => inferInstanceAs (Decidable (∀ r ∈ w.removals.lookup c, _))
  | .retryFlag c => inferInstanceAs (Decidable (∀ i ∈ w.retries.lookup c, _))
  | .insertNewJobs .. | .ensureQueuesForSystems .. | .removeAllWeakPointer ..
  | .sortQueues .. | .removeJob .. | .removeJobByPath .. | .setCancelled ..
  | .cloneInner .. | .visit .. | .pass | .setFlag | .takeScheduled .. => instDecidableTrue

end Bookkeeping

/-! ## The operations that leave the bookkeeping alone -/

namespace InnerQueues

section Active

variable (q : InnerQueues) {system : System} {f : BuildQueue → BuildQueue}

theorem mem_inner_modifyQueue {system' : System} (h : system' ∈ q.inner) :
    system' ∈ (q.modifyQueue system f).inner := by
  unfold modifyQueue
  split
  · exact AList.mem_insert _ |>.mpr (Or.inr h)
  · exact h

/-- The counters after a change of one queue. -/
theorem active_modifyQueue (g : UInt64 → UInt64)
    (hf : ∀ bq, (f bq).activeRunnable = g bq.activeRunnable) (hs : system ∈ q.inner)
    (system' : System) :
    (q.modifyQueue system f).active system' =
      if system' = system then g (q.active system') else q.active system' := by
  obtain ⟨bq, hbq⟩ := Option.isSome_iff_exists.mp (AList.lookup_isSome.mpr hs)
  simp only [modifyQueue, hbq, active, Map.lookup_insert_eq]
  split_ifs with h
  · rw [h, hbq]
    exact hf bq
  · rfl

/-- A change of a queue that keeps its counter keeps all counters. -/
theorem active_modifyQueue_of_eq (hf : ∀ bq, (f bq).activeRunnable = bq.activeRunnable)
    (system' : System) : (q.modifyQueue system f).active system' = q.active system' := by
  by_cases hs : system ∈ q.inner
  · rw [active_modifyQueue q id hf hs, id, ite_self]
  · have hnone : q.inner.lookup system = none := AList.lookup_eq_none.mpr hs
    simp only [modifyQueue, hnone]

/-- A new queue counts nothing. -/
theorem active_ensureQueue (system' : System) :
    (q.ensureQueue system).active system' = q.active system' := by
  unfold ensureQueue active
  cases hl : q.inner.lookup system with
  | some _ => rfl
  | none =>
    simp only [Map.lookup_insert_eq]
    split_ifs with h
    · rw [h, hl]
      rfl
    · rfl

theorem mem_inner_ensureQueue {system' : System} (h : system' ∈ q.inner) :
    system' ∈ (q.ensureQueue system).inner := by
  unfold ensureQueue
  split
  · exact h
  · exact AList.mem_insert _ |>.mpr (Or.inr h)

theorem active_mapValues (hf : ∀ bq, (f bq).activeRunnable = bq.activeRunnable)
    (system' : System) :
    ({ q with inner := q.inner.mapValues f } : InnerQueues).active system' =
      q.active system' := by
  simp only [active, Map.lookup_mapValues, Option.map_map]
  congr 2
  exact funext hf

theorem mem_inner_mapValues {system' : System} (h : system' ∈ q.inner) :
    system' ∈ q.inner.mapValues f := by
  rw [← AList.lookup_isSome] at h ⊢
  rwa [Map.lookup_mapValues, Option.isSome_map]

end Active

/-- A new step info has a clear flag, so the insertion of jobs sets none. -/
theorem getAlreadyScheduled_submitJobs {q : InnerQueues} {finished : StepRef → Bool}
    {jobs : List (StepRef × StepInfo)} (hjobs : ∀ job ∈ jobs, job.2.alreadyScheduled = false)
    {i : InfoRef} (hi : (q.submitJobs finished jobs).1.getAlreadyScheduled i = true) :
    q.getAlreadyScheduled i = true := by
  induction jobs using List.reverseRecOn with
  | nil => exact hi
  | append_singleton jobs job ih =>
    have hlast : job.2.alreadyScheduled = false := hjobs job (by simp)
    have hinit := ih (fun j hj => hjobs j (List.mem_append_left _ hj))
    simp only [submitJobs, List.foldl_append, List.foldl_cons, List.foldl_nil] at hi
    rw [submitJob] at hi
    split_ifs at hi with hcond
    · simp only [getAlreadyScheduled, Function.update_apply] at hi
      split_ifs at hi with he
      · rw [hlast] at hi
        cases hi
      · exact hinit hi
    · exact hinit hi

/-- Queues and step infos do not go away, and the maps keep their keys. -/
structure KeepsNames (q q' : InnerQueues) : Prop where
  fresh_le : q.fresh ≤ q'.fresh
  inner : ∀ system ∈ q.inner, system ∈ q'.inner
  queueJobs : ∀ system, ∀ i ∈ q'.queueJobs system, i ∈ q.queueJobs system ∨ i.gen < q'.fresh
  jobs : ∀ drv i, q'.jobs.lookup drv = some i → q.jobs.lookup drv = some i ∨ i.drvPath = drv

/-- What is left alone by the operations other than the additions and the
removals. -/
structure SameBooks (q q' : InnerQueues) : Prop extends KeepsNames q q' where
  scheduled : q'.scheduled = q.scheduled
  flag_old : ∀ i, i.gen < q.fresh → q'.getAlreadyScheduled i = q.getAlreadyScheduled i
  flag : ∀ i, q'.getAlreadyScheduled i = true → q.getAlreadyScheduled i = true
  active : ∀ system, q'.active system = q.active system

namespace SameBooks

theorem refl (q : InnerQueues) : SameBooks q q where
  scheduled := rfl
  fresh_le := le_refl _
  flag_old _ _ := rfl
  flag _ h := h
  active _ := rfl
  inner _ h := h
  queueJobs _ _ h := Or.inl h
  jobs _ _ h := Or.inl h

variable (q : InnerQueues) (held : InfoRef → Bool)

theorem insertNewJobs (finished : StepRef → Bool) (cmp : InfoRef → InfoRef → Ordering)
    (system : System) {jobs : List (StepRef × StepInfo)} (now : Timestamp)
    (hjobs : ∀ job ∈ jobs, job.2.alreadyScheduled = false) :
    SameBooks q (q.insertNewJobs held finished cmp system jobs now) := by
  have hsub := submitted_submitJobs q finished jobs
  refine
    { scheduled := insertNewJobs_scheduled ..
      fresh_le := by rw [insertNewJobs_fresh]; exact hsub.fresh_le
      inner := ?_, queueJobs := ?_, jobs := ?_, flag_old := ?_, flag := ?_, active := ?_ }
  · intro system' hs
    exact mem_inner_modifyQueue _ (mem_inner_ensureQueue _ (by rwa [hsub.inner]))
  · intro system' i hi
    rw [insertNewJobs_fresh]
    rcases mem_queueJobs_insertNewJobs _ _ _ _ _ _ _ hi with hi | ⟨-, hi⟩
    · exact Or.inl hi
    · exact Or.inr (hsub.gen i hi).2
  · intro drv i hi
    rw [insertNewJobs_jobs] at hi
    exact ((hsub.lookup drv i).mp hi).imp id And.right
  · intro i hi
    simp only [getAlreadyScheduled, insertNewJobs_info, hsub.info_old i hi]
  · intro i hi
    simp only [getAlreadyScheduled, insertNewJobs_info] at hi
    exact getAlreadyScheduled_submitJobs hjobs hi
  · intro system'
    calc (q.insertNewJobs held finished cmp system jobs now).active system'
        = ((q.submitJobs finished jobs).1.ensureQueue system).active system' :=
          active_modifyQueue_of_eq _ (f := BuildQueue.insertNewJobs _ _ _ _ _)
            (fun _ => rfl) system'
      _ = (q.submitJobs finished jobs).1.active system' := active_ensureQueue _ _
      _ = q.active system' := by simp only [InnerQueues.active, hsub.inner]

theorem ensureQueue (system : System) : SameBooks q (q.ensureQueue system) where
  scheduled := ensureQueue_scheduled ..
  fresh_le := le_of_eq (ensureQueue_fresh ..).symm
  flag_old i _ := by simp only [getAlreadyScheduled, ensureQueue_info]
  flag i h := by simpa only [getAlreadyScheduled, ensureQueue_info] using h
  active := active_ensureQueue q
  inner _ h := mem_inner_ensureQueue q h
  queueJobs _ i h := Or.inl (by rwa [queueJobs_ensureQueue] at h)
  jobs drv i h := Or.inl (by rwa [ensureQueue_jobs] at h)

theorem trans {q q' q'' : InnerQueues} (h : SameBooks q q') (h' : SameBooks q' q'') :
    SameBooks q q'' where
  scheduled := h'.scheduled.trans h.scheduled
  fresh_le := le_trans h.fresh_le h'.fresh_le
  flag_old i hi := (h'.flag_old i (lt_of_lt_of_le hi h.fresh_le)).trans (h.flag_old i hi)
  flag i hi := h.flag i (h'.flag i hi)
  active system := (h'.active system).trans (h.active system)
  inner system hs := h'.inner system (h.inner system hs)
  queueJobs system i hi := by
    rcases h'.queueJobs system i hi with hi | hi
    · exact (h.queueJobs system i hi).imp id (fun hlt => lt_of_lt_of_le hlt h'.fresh_le)
    · exact Or.inr hi
  jobs drv i hi := by
    rcases h'.jobs drv i hi with hi | hi
    · exact h.jobs drv i hi
    · exact Or.inr hi

theorem ensureQueuesForSystems (systems : List System) :
    SameBooks q (q.ensureQueuesForSystems systems) := by
  induction systems generalizing q with
  | nil => exact refl q
  | cons system systems ih => exact (ensureQueue q system).trans (ih _)

theorem removeAllWeakPointer : SameBooks q (q.removeAllWeakPointer held) :=
  { refl q with
    active := active_mapValues q (fun _ => rfl)
    inner := fun _ h => mem_inner_mapValues q h
    queueJobs := fun system i hi => by
      rw [queueJobs_removeAllWeakPointer] at hi
      exact Or.inl (List.mem_of_mem_filter hi) }

theorem sortQueues (cmp : InfoRef → InfoRef → Ordering) :
    SameBooks q (q.sortQueues held cmp) :=
  { refl q with
    active := active_mapValues q (fun _ => rfl)
    inner := fun _ h => mem_inner_mapValues q h
    queueJobs := fun system _ hi =>
      Or.inl ((queueJobs_sortQueues_perm cmp q held system).mem_iff.mp hi) }

theorem removeJobByPath (drv : StorePath) : SameBooks q (q.removeJobByPath drv) :=
  { refl q with
    jobs := fun drv' i hi => by
      simp only [InnerQueues.removeJobByPath, Map.lookup_erase_eq] at hi
      split_ifs at hi
      exact Or.inl hi }

theorem modifyQueue_scrubeJobs (system : System) (live : InfoRef → Bool) :
    SameBooks q (q.modifyQueue system (BuildQueue.scrubeJobs live)) where
  scheduled := modifyQueue_scheduled ..
  fresh_le := le_of_eq (modifyQueue_fresh ..).symm
  flag_old i _ := by simp only [getAlreadyScheduled, modifyQueue_info]
  flag i h := by simpa only [getAlreadyScheduled, modifyQueue_info] using h
  active := active_modifyQueue_of_eq q (fun _ => rfl)
  inner _ h := mem_inner_modifyQueue q h
  queueJobs system' i hi := by
    rw [queueJobs_modifyQueue] at hi
    split_ifs at hi with hs
    · subst hs
      unfold InnerQueues.queueJobs
      cases hl : q.inner.lookup system' with
      | none => simp [hl] at hi
      | some bq =>
        rw [hl] at hi
        exact Or.inl (List.mem_of_mem_filter hi)
    · exact Or.inl hi
  jobs drv i h := Or.inl (by rwa [modifyQueue_jobs] at h)

theorem removeJob (i : InfoRef) (system : System) :
    SameBooks q (q.removeJob held i system) :=
  (removeJobByPath q i.drvPath).trans (modifyQueue_scrubeJobs _ system _)

theorem setCancelled (i : InfoRef) (v : Bool) : SameBooks q (q.setCancelled i v) := by
  have hflag : ∀ j, (q.setCancelled i v).getAlreadyScheduled j = q.getAlreadyScheduled j := by
    intro j
    simp only [InnerQueues.setCancelled, modifyInfo, getAlreadyScheduled, Function.update_apply]
    split_ifs with h
    · rw [h]
    · rfl
  exact { refl q with
    flag_old := fun j _ => hflag j
    flag := fun j h => by rwa [hflag] at h }

end SameBooks

end InnerQueues

namespace Bookkeeping

/-! ## What a step can do -/

inductive BookStep (w : Bookkeeping) : Action → Bookkeeping → Prop where
  | frame {a : Action} {q : InnerQueues} (hq : w.queues.SameBooks q) :
      BookStep w a { w with queues := q }
  /-- The loop goes on without a job in hand. -/
  | scan {a : Action} {pc : ProcessPc} (hchosen : pc.chosen = none)
      (hold : w.loop.uncounted = none) (hnew : pc.uncounted = none)
      (hsystem : ∀ system ∈ pc.system, w.loop.system = some system ∨ system ∈ w.queues.inner)
      (hinfos : ∀ i ∈ pc.infos, i ∈ w.loop.infos ∨ ∃ system, i ∈ w.queues.queueJobs system) :
      BookStep w a { w with loop := pc }
  | choose {a : Action} {system : System} {jobs : List InfoRef} {i : InfoRef}
      (hl : w.loop = .walk system (i :: jobs))
      (hi : w.queues.getAlreadyScheduled i = false) :
      BookStep w a { w with loop := .realise system jobs i }
  | insertScheduled {machine : MachineRef} {system : System} {jobs : List InfoRef} {i : InfoRef}
      (hl : w.loop = .realise system jobs i) :
      BookStep w (.insertScheduled machine) { w with
        queues := w.queues.insertScheduled i system machine
        loop := .inserted system jobs i }
  | setFlag {system : System} {jobs : List InfoRef} {i : InfoRef}
      (hl : w.loop = .inserted system jobs i) :
      BookStep w .setFlag { w with
        queues := w.queues.setAlreadyScheduled i true
        loop := .flagged system jobs i }
  | incrActive {system : System} {jobs : List InfoRef} {i : InfoRef}
      (hl : w.loop = .flagged system jobs i) :
      BookStep w .incrActive { w with
        queues := w.queues.incrActive system
        loop := .walk system jobs }
  | takeScheduled {c : Nat} {drv : StorePath} {item : ScheduledItem}
      (hdrv : w.queues.scheduled.lookup drv = some item) (hc : w.removals.lookup c = none) :
      BookStep w (.takeScheduled c drv) { w with
        queues := w.queues.eraseScheduled drv
        removals := w.removals.insert c ⟨item, false⟩ }
  | clearFlag {c : Nat} {item : ScheduledItem} (hc : w.removals.lookup c = some ⟨item, false⟩) :
      BookStep w (.clearFlag c) { w with
        queues := w.queues.setAlreadyScheduled item.stepInfo false
        removals := w.removals.insert c ⟨item, true⟩ }
  | decrActive {c : Nat} {retry : Bool} {item : ScheduledItem}
      (hc : w.removals.lookup c = some ⟨item, true⟩) :
      BookStep w (.decrActive c retry) { w with
        queues := w.queues.decrActive item.buildQueue
        removals := w.removals.erase c
        retries := if retry then w.retries.insert c item.stepInfo else w.retries
        underflowed := w.underflowed || w.queues.active item.buildQueue == 0 }
  | retryFlag {c : Nat} {i : InfoRef} (hc : w.retries.lookup c = some i) :
      BookStep w (.retryFlag c) { w with
        queues := w.queues.setAlreadyScheduled i false
        retries := w.retries.erase c }

theorem BookStep.of_locked {w w' : Bookkeeping} {a : Action} {q : InnerQueues}
    (hq : w.queues.SameBooks q) (h : w.locked q = some w') : BookStep w a w' := by
  unfold locked at h
  split_ifs at h
  cases h
  exact .frame hq

theorem bookStep_of_next {w w' : Bookkeeping} {a : Action} (h : w.next a = some w') :
    BookStep w a w' := by
  cases a with
  | insertNewJobs held finished cmp system jobs now =>
    simp only [next] at h
    split_ifs at h with hjobs
    refine .of_locked (.insertNewJobs _ held finished cmp system now ?_) h
    intro job hjob
    simpa using List.all_eq_true.mp hjobs job hjob
  | ensureQueuesForSystems systems => exact .of_locked (.ensureQueuesForSystems _ systems) h
  | removeAllWeakPointer held => exact .of_locked (.removeAllWeakPointer _ held) h
  | sortQueues held cmp =>
    cases h
    exact .frame (.sortQueues _ held cmp)
  | removeJob held i system => exact .of_locked (.removeJob _ held i system) h
  | removeJobByPath drv => exact .of_locked (.removeJobByPath _ drv) h
  | setCancelled i v =>
    cases h
    exact .frame (.setCancelled _ i v)
  | cloneInner system =>
    have hclone : w.loop.uncounted = none ∧ system ∈ w.queues.inner ∧
        w' = { w with loop := .walk system (w.queues.queueJobs system) } := by
      simp only [next] at h
      split at h
      all_goals first
        | cases h
        | (split_ifs at h with hs
           cases h
           rename_i hl
           exact ⟨by rw [hl]; rfl, hs, rfl⟩)
    obtain ⟨hold, hs, rfl⟩ := hclone
    refine .scan rfl hold rfl ?_ (fun i hi => Or.inr ⟨system, hi⟩)
    intro system' hs'
    cases hs'
    exact Or.inr hs
  | visit ready =>
    simp only [next] at h
    split at h
    case h_2 => cases h
    rename_i system i jobs hl
    split_ifs at h with hready
    · cases h
      simp only [Bool.and_eq_true, Bool.not_eq_true'] at hready
      exact .choose hl hready.2
    · cases h
      refine .scan rfl (by rw [hl]; rfl) rfl ?_ ?_
      · intro system' hs'
        exact Or.inl (by rw [hl]; exact hs')
      · intro j hj
        exact Or.inl (by rw [hl]; exact List.mem_cons_of_mem _ hj)
  | pass =>
    simp only [next] at h
    split at h
    · rename_i system jobs i hl
      cases h
      refine .scan rfl (by rw [hl]; rfl) rfl ?_ ?_
      · intro system' hs'
        exact Or.inl (by rw [hl]; exact hs')
      · intro j hj
        exact Or.inl (by rw [hl]; exact List.mem_cons_of_mem _ hj)
    · rename_i system hl
      cases h
      exact .scan rfl (by rw [hl]; rfl) rfl nofun nofun
    · cases h
  | insertScheduled machine =>
    simp only [next] at h
    split at h
    case h_2 => cases h
    cases h
    exact .insertScheduled ‹_›
  | setFlag =>
    simp only [next] at h
    split at h
    case h_2 => cases h
    cases h
    exact .setFlag ‹_›
  | incrActive =>
    simp only [next] at h
    split at h
    case h_2 => cases h
    cases h
    exact .incrActive ‹_›
  | takeScheduled c drv =>
    simp only [next] at h
    split_ifs at h with hc
    rw [not_or] at hc
    split at h
    · cases h
      exact .takeScheduled ‹_› (AList.lookup_eq_none.mpr hc.1)
    · cases h
      exact .frame (.refl _)
  | clearFlag c =>
    simp only [next] at h
    split at h
    case h_2 => cases h
    cases h
    exact .clearFlag ‹_›
  | decrActive c retry =>
    simp only [next] at h
    split at h
    case h_2 => cases h
    cases h
    exact .decrActive ‹_›
  | retryFlag c =>
    simp only [next] at h
    split at h
    case h_2 => cases h
    cases h
    exact .retryFlag ‹_›

/-! ## The names are known -/

/-- The step info of an item was allocated and its queue is in the map. -/
def Known (q : InnerQueues) (item : ScheduledItem) : Prop :=
  item.stepInfo.gen < q.fresh ∧ item.buildQueue ∈ q.inner

structure Named (w : Bookkeeping) : Prop where
  keyed : ∀ drv item, w.queues.scheduled.lookup drv = some item → item.stepInfo.drvPath = drv
  jobs : ∀ drv i, w.queues.jobs.lookup drv = some i → i.drvPath = drv
  scheduled : w.queues.scheduled.All (Known w.queues)
  removals : w.removals.All (fun r => Known w.queues r.item)
  system : ∀ system ∈ w.loop.system, system ∈ w.queues.inner
  infos : ∀ i ∈ w.loop.infos, i.gen < w.queues.fresh
  queueJobs : ∀ system, ∀ i ∈ w.queues.queueJobs system, i.gen < w.queues.fresh

theorem Known.mono {q q' : InnerQueues} (hq : q.KeepsNames q') {item : ScheduledItem}
    (h : Known q item) : Known q' item :=
  ⟨lt_of_lt_of_le h.1 hq.fresh_le, hq.inner _ h.2⟩

theorem keepsNames_setAlreadyScheduled (q : InnerQueues) (i : InfoRef) (v : Bool) :
    q.KeepsNames (q.setAlreadyScheduled i v) :=
  ⟨le_refl _, fun _ h => h, fun _ _ h => Or.inl h, fun _ _ h => Or.inl h⟩

theorem keepsNames_modifyQueue (q : InnerQueues) (system : System) {f : BuildQueue → BuildQueue}
    (hf : ∀ bq, (f bq).jobs = bq.jobs) : q.KeepsNames (q.modifyQueue system f) where
  fresh_le := le_of_eq (InnerQueues.modifyQueue_fresh ..).symm
  inner _ h := InnerQueues.mem_inner_modifyQueue q h
  queueJobs system' i h := Or.inl (by
    rwa [InnerQueues.queueJobs_modifyQueue_of_jobs _ _ _ hf] at h)
  jobs drv i h := Or.inl (by rwa [InnerQueues.modifyQueue_jobs] at h)

theorem keepsNames_incrActive (q : InnerQueues) (system : System) :
    q.KeepsNames (q.incrActive system) :=
  keepsNames_modifyQueue q system (fun _ => rfl)

theorem keepsNames_decrActive (q : InnerQueues) (system : System) :
    q.KeepsNames (q.decrActive system) :=
  keepsNames_modifyQueue q system (fun _ => rfl)

namespace Named

theorem init : Named {} where
  keyed _ _ h := by cases h
  jobs _ _ h := by cases h
  scheduled _ _ h := by cases h
  removals _ _ h := by cases h
  system _ h := by cases h
  infos _ h := by cases h
  queueJobs _ _ h := by cases h

variable {w : Bookkeeping}

/-- The queues change and `scheduled` does not. -/
theorem of_keepsNames (h : Named w) {q : InnerQueues} (hq : w.queues.KeepsNames q)
    (hscheduled : q.scheduled = w.queues.scheduled) : Named { w with queues := q } where
  keyed drv item hd := h.keyed drv item (by rwa [← hscheduled])
  jobs drv i hi := (hq.jobs drv i hi).elim (h.jobs drv i) id
  scheduled := by
    rw [hscheduled]
    exact h.scheduled.mono (fun _ hitem => hitem.mono hq)
  removals := h.removals.mono (fun _ hr => hr.mono hq)
  system system hs := hq.inner system (h.system system hs)
  infos i hi := lt_of_lt_of_le (h.infos i hi) hq.fresh_le
  queueJobs system i hi := by
    rcases hq.queueJobs system i hi with hi | hi
    · exact lt_of_lt_of_le (h.queueJobs system i hi) hq.fresh_le
    · exact hi

/-- The loop walks on in the same queue. -/
theorem of_loop (h : Named w) {pc : ProcessPc} (hsystem : pc.system = w.loop.system)
    (hinfos : ∀ i ∈ pc.infos, i ∈ w.loop.infos) : Named { w with loop := pc } :=
  { h with
    system := fun system hs => h.system system (hsystem ▸ hs)
    infos := fun i hi => h.infos i (hinfos i hi) }

theorem step {a : Action} {w' : Bookkeeping} (h : Named w) (hstep : BookStep w a w') :
    Named w' := by
  cases hstep with
  | frame hq => exact h.of_keepsNames hq.toKeepsNames hq.scheduled
  | @scan _ pc _ _ _ hsystem hinfos =>
    refine { h with system := ?_, infos := ?_ }
    · intro system hs
      exact (hsystem system hs).elim (h.system system) id
    · intro i hi
      rcases hinfos i hi with hi | ⟨system, hi⟩
      · exact h.infos i hi
      · exact h.queueJobs system i hi
  | choose hl hi => exact h.of_loop (by rw [hl]; rfl) (fun j hj => by rw [hl]; exact hj)
  | @insertScheduled machine system jobs i hl =>
    have hknown : Known w.queues ⟨i, system, machine⟩ := by
      constructor
      · exact h.infos i (by rw [hl]; exact List.mem_cons_self)
      · exact h.system system (by rw [hl]; rfl)
    have hloop : Named { w with loop := .inserted system jobs i } :=
      h.of_loop (by rw [hl]; rfl) (fun j hj => by rw [hl]; exact hj)
    refine { hloop with keyed := ?_, scheduled := h.scheduled.insert _ hknown }
    intro drv item hd
    simp only [InnerQueues.insertScheduled, Map.lookup_insert_eq] at hd
    split_ifs at hd with he
    · cases hd
      exact he.symm
    · exact h.keyed drv item hd
  | @setFlag system jobs i hl =>
    have hloop : Named { w with loop := .flagged system jobs i } :=
      h.of_loop (by rw [hl]; rfl) (fun j hj => by rw [hl]; exact hj)
    exact hloop.of_keepsNames (keepsNames_setAlreadyScheduled _ i true) rfl
  | @incrActive system jobs i hl =>
    have hloop : Named { w with loop := .walk system jobs } :=
      h.of_loop (by rw [hl]; rfl) (fun j hj => by rw [hl]; exact List.mem_cons_of_mem _ hj)
    exact hloop.of_keepsNames (keepsNames_incrActive _ system) (by simp)
  | @takeScheduled c drv item hdrv hc =>
    refine { h with
      keyed := ?_
      scheduled := h.scheduled.erase drv
      removals := h.removals.insert c (h.scheduled drv item hdrv) }
    intro drv' item' hd
    simp only [InnerQueues.eraseScheduled, Map.lookup_erase_eq] at hd
    split_ifs at hd
    exact h.keyed drv' item' hd
  | @clearFlag c item hc =>
    have hq := h.of_keepsNames (keepsNames_setAlreadyScheduled w.queues item.stepInfo false) rfl
    have hitem : Known w.queues item := h.removals c ⟨item, false⟩ hc
    exact { hq with removals := hq.removals.insert c hitem }
  | @decrActive c retry item hc =>
    have hq := h.of_keepsNames (keepsNames_decrActive w.queues item.buildQueue) (by simp)
    exact { hq with removals := hq.removals.erase c }
  | @retryFlag c i hc =>
    have hq := h.of_keepsNames (keepsNames_setAlreadyScheduled w.queues i false) rfl
    exact { hq with }

end Named

/-! ## Counting the items -/

section Counts

variable {w : Bookkeeping} (f : ScheduledItem → Nat) (g : Unscheduling → Nat)

theorem tally_insertScheduled {i : InfoRef} (hi : i.drvPath ∉ w.queues.scheduled)
    (system : System) (machine : MachineRef) (pc : ProcessPc) :
    ({ w with
        queues := w.queues.insertScheduled i system machine
        loop := pc } : Bookkeeping).tally f g =
      w.tally f g + f ⟨i, system, machine⟩ := by
  have hinsert := Map.weight_insert f w.queues.scheduled i.drvPath ⟨i, system, machine⟩
  rw [AList.lookup_eq_none.mpr hi, Option.elim_none] at hinsert
  simp only [tally, InnerQueues.insertScheduled]
  omega

theorem tally_takeScheduled {c : Nat} {drv : StorePath} {item : ScheduledItem}
    (hdrv : w.queues.scheduled.lookup drv = some item) (hc : w.removals.lookup c = none) :
    ({ w with
        queues := w.queues.eraseScheduled drv
        removals := w.removals.insert c ⟨item, false⟩ } : Bookkeeping).tally f g + f item =
      w.tally f g + g ⟨item, false⟩ := by
  have herase := Map.weight_erase f w.queues.scheduled drv
  have hinsert := Map.weight_insert g w.removals c ⟨item, false⟩
  rw [hdrv, Option.elim_some] at herase
  rw [hc, Option.elim_none] at hinsert
  simp only [tally, InnerQueues.eraseScheduled]
  omega

theorem tally_clearFlag {c : Nat} {item : ScheduledItem}
    (hc : w.removals.lookup c = some ⟨item, false⟩) :
    ({ w with
        queues := w.queues.setAlreadyScheduled item.stepInfo false
        removals := w.removals.insert c ⟨item, true⟩ } : Bookkeeping).tally f g +
        g ⟨item, false⟩ =
      w.tally f g + g ⟨item, true⟩ := by
  have hreplace := Map.weight_replace g hc ⟨item, true⟩
  simp only [tally, InnerQueues.setAlreadyScheduled, InnerQueues.modifyInfo_scheduled]
  omega

theorem tally_decrActive {c : Nat} {item : ScheduledItem}
    (hc : w.removals.lookup c = some ⟨item, true⟩) (retries : Map Nat InfoRef) (b : Bool) :
    ({ w with
        queues := w.queues.decrActive item.buildQueue
        removals := w.removals.erase c
        retries := retries
        underflowed := b } : Bookkeeping).tally f g + g ⟨item, true⟩ =
      w.tally f g := by
  have herase := Map.weight_erase g w.removals c
  rw [hc, Option.elim_some] at herase
  simp only [tally, InnerQueues.decrActive_scheduled]
  omega

/-- A map or a removal with a weight has an item with a weight. -/
theorem exists_of_tally_ne_zero {f : ScheduledItem → Nat} {g : Unscheduling → Nat}
    (h : w.tally f g ≠ 0) :
    (∃ drv item, w.queues.scheduled.lookup drv = some item ∧ f item ≠ 0) ∨
      ∃ c r, w.removals.lookup c = some r ∧ g r ≠ 0 := by
  by_contra hnone
  push Not at hnone
  apply h
  have hscheduled := (Map.weight_eq_zero_iff f w.queues.scheduled).mpr hnone.1
  have hremovals := (Map.weight_eq_zero_iff g w.removals).mpr hnone.2
  rw [tally, hscheduled, hremovals]

/-- A step info that has an item was allocated. -/
theorem Named.gen_lt_of_holders (h : Named w) {i : InfoRef} (hi : w.holders i ≠ 0) :
    i.gen < w.queues.fresh := by
  rcases exists_of_tally_ne_zero hi with ⟨drv, item, hd, hne⟩ | ⟨c, r, hc, hne⟩
  · have he : item.stepInfo = i := by
      by_contra he
      exact hne (if_neg he)
    rw [← he]
    exact (h.scheduled drv item hd).1
  · have he : r.item.stepInfo = i := by
      by_contra he
      exact hne (if_neg (fun hr => he hr.2))
    rw [← he]
    exact (h.removals c r hc).1

end Counts

/-! ## The flags -/

theorem unflagged_of_uncounted {pc : ProcessPc} (h : pc.uncounted = none) :
    pc.unflagged = none := by
  cases pc <;> first | rfl | cases h

/-- The flag of a step info is set while it has an item, but for the item
that is being added. -/
structure Flagged (w : Bookkeeping) : Prop where
  le_one : ∀ i, w.holders i ≤ 1
  flag : ∀ i, w.queues.getAlreadyScheduled i = true ↔
    w.holders i = 1 ∧ w.loop.unflagged ≠ some i
  unflagged : ∀ i ∈ w.loop.unflagged, w.holders i = 1
  chosen : ∀ i ∈ w.loop.chosen, w.holders i = 0

namespace Flagged

theorem init : Flagged {} where
  le_one i := Nat.zero_le 1
  flag i := by
    constructor
    · intro h
      cases h
    · intro h
      cases h.1
  unflagged _ h := by cases h
  chosen _ h := by cases h

variable {w : Bookkeeping}

theorem frame (h : Flagged w) (hn : Named w) {q : InnerQueues} (hq : w.queues.SameBooks q) :
    Flagged { w with queues := q } := by
  have hholders : ∀ i, ({ w with queues := q } : Bookkeeping).holders i = w.holders i := by
    intro i
    simp only [holders, tally, hq.scheduled]
  refine { le_one := ?_, flag := ?_, unflagged := ?_, chosen := ?_ }
  · intro i
    rw [hholders]
    exact h.le_one i
  · intro i
    rw [hholders, ← h.flag]
    constructor
    · exact hq.flag i
    · intro hi
      have hgen : i.gen < w.queues.fresh := by
        apply hn.gen_lt_of_holders
        rw [((h.flag i).mp hi).1]
        exact Nat.one_ne_zero
      exact (hq.flag_old i hgen).trans hi
  · intro i hi
    rw [hholders]
    exact h.unflagged i hi
  · intro i hi
    rw [hholders]
    exact h.chosen i hi

/-- The items, the flags and the job that is being added stay. -/
theorem of_holders (h : Flagged w) {w' : Bookkeeping} (hholders : ∀ j, w'.holders j = w.holders j)
    (hflag : ∀ j, w'.queues.getAlreadyScheduled j = w.queues.getAlreadyScheduled j)
    (hunflagged : w'.loop.unflagged = w.loop.unflagged)
    (hchosen : ∀ i ∈ w'.loop.chosen, i ∈ w.loop.chosen) : Flagged w' := by
  refine { le_one := ?_, flag := ?_, unflagged := ?_, chosen := ?_ }
  · intro j
    rw [hholders]
    exact h.le_one j
  · intro j
    rw [hholders, hflag, hunflagged]
    exact h.flag j
  · intro j hj
    rw [hholders]
    exact h.unflagged j (hunflagged ▸ hj)
  · intro j hj
    rw [hholders]
    exact h.chosen j (hchosen j hj)

/-- A job whose flag is clear while no addition is in progress has no
item. -/
theorem choose (h : Flagged w) {system : System} {jobs : List InfoRef} {i : InfoRef}
    (hl : w.loop = .walk system (i :: jobs)) (hi : w.queues.getAlreadyScheduled i = false) :
    Flagged { w with loop := .realise system jobs i } := by
  have hold : w.loop.unflagged = none := by rw [hl]; rfl
  refine { le_one := h.le_one, flag := ?_, unflagged := nofun, chosen := ?_ }
  · intro j
    have hj := h.flag j
    rw [hold] at hj
    exact hj
  · intro j hj
    cases hj
    have hne : w.holders i ≠ 1 := by
      intro hone
      rw [(h.flag i).mpr ⟨hone, by rw [hold]; nofun⟩] at hi
      cases hi
    have hle := h.le_one i
    show w.holders i = 0
    omega

theorem insertScheduled (h : Flagged w) {system : System} {jobs : List InfoRef} {i : InfoRef}
    (hl : w.loop = .realise system jobs i) (hi : i.drvPath ∉ w.queues.scheduled)
    (machine : MachineRef) :
    Flagged { w with
      queues := w.queues.insertScheduled i system machine
      loop := .inserted system jobs i } := by
  have hzero : w.holders i = 0 := h.chosen i (by rw [hl]; rfl)
  have hold : w.loop.unflagged = none := by rw [hl]; rfl
  have hholders : ∀ j, ({ w with
      queues := w.queues.insertScheduled i system machine
      loop := .inserted system jobs i } : Bookkeeping).holders j =
        w.holders j + if i = j then 1 else 0 :=
    fun j => tally_insertScheduled _ _ hi system machine _
  refine { le_one := ?_, flag := ?_, unflagged := ?_, chosen := nofun }
  · intro j
    rw [hholders]
    have hj := h.le_one j
    split_ifs with he
    · rw [← he, hzero]
    · exact hj
  · intro j
    have hj := h.flag j
    rw [hold] at hj
    rw [hholders]
    show w.queues.getAlreadyScheduled j = true ↔ _ ∧ some i ≠ some j
    rw [hj]
    by_cases he : i = j
    · subst he
      simp [hzero]
    · simp [he]
  · intro j hj
    cases hj
    rw [hholders, hzero, if_pos rfl]

theorem setFlag (h : Flagged w) {system : System} {jobs : List InfoRef} {i : InfoRef}
    (hl : w.loop = .inserted system jobs i) :
    Flagged { w with
      queues := w.queues.setAlreadyScheduled i true
      loop := .flagged system jobs i } := by
  refine { le_one := h.le_one, flag := ?_, unflagged := nofun, chosen := nofun }
  intro j
  have hj := h.flag j
  rw [hl] at hj
  rw [InnerQueues.getAlreadyScheduled_setAlreadyScheduled]
  show _ ↔ w.holders j = 1 ∧ none ≠ some j
  split_ifs with he
  · subst he
    have hone : w.holders j = 1 := h.unflagged j (by rw [hl]; rfl)
    simp [hone]
  · rw [hj]
    have hne : (ProcessPc.inserted system jobs i).unflagged ≠ some j :=
      fun h => he (Option.some.inj h).symm
    simp [hne]

theorem incrActive (h : Flagged w) {system : System} {jobs : List InfoRef} {i : InfoRef}
    (hl : w.loop = .flagged system jobs i) :
    Flagged { w with
      queues := w.queues.incrActive system
      loop := .walk system jobs } := by
  refine h.of_holders ?_ (fun j => ?_) (by rw [hl]; rfl) nofun
  · intro j
    simp only [holders, tally, InnerQueues.incrActive_scheduled]
  · exact InnerQueues.getAlreadyScheduled_incrActive _ _ j

theorem takeScheduled (h : Flagged w) {c : Nat} {drv : StorePath} {item : ScheduledItem}
    (hdrv : w.queues.scheduled.lookup drv = some item) (hc : w.removals.lookup c = none) :
    Flagged { w with
      queues := w.queues.eraseScheduled drv
      removals := w.removals.insert c ⟨item, false⟩ } := by
  refine h.of_holders (fun j => ?_) (fun _ => rfl) rfl (fun _ hi => hi)
  have htally := tally_takeScheduled (fun item => if item.stepInfo = j then 1 else 0)
    (fun r => if r.cleared = false ∧ r.item.stepInfo = j then 1 else 0) hdrv hc
  simp only [true_and] at htally
  exact Nat.add_right_cancel htally

/-- The item of the removal is the only one of its step info, and its
addition has set the flag. -/
theorem clearFlag (h : Flagged w) {c : Nat} {item : ScheduledItem}
    (hc : w.removals.lookup c = some ⟨item, false⟩)
    (hset : w.loop.unflagged ≠ some item.stepInfo) :
    Flagged { w with
      queues := w.queues.setAlreadyScheduled item.stepInfo false
      removals := w.removals.insert c ⟨item, true⟩ } := by
  have hholders : ∀ j, ({ w with
      queues := w.queues.setAlreadyScheduled item.stepInfo false
      removals := w.removals.insert c ⟨item, true⟩ } : Bookkeeping).holders j +
        (if item.stepInfo = j then 1 else 0) = w.holders j := by
    intro j
    have htally := tally_clearFlag (fun item => if item.stepInfo = j then 1 else 0)
      (fun r => if r.cleared = false ∧ r.item.stepInfo = j then 1 else 0) hc
    simp only [true_and, Bool.true_eq_false, false_and, if_false, Nat.add_zero] at htally
    exact htally
  refine { le_one := ?_, flag := ?_, unflagged := ?_, chosen := ?_ }
  · intro j
    have hj := hholders j
    have hle := h.le_one j
    omega
  · intro j
    have hj := hholders j
    have hle := h.le_one j
    rw [InnerQueues.getAlreadyScheduled_setAlreadyScheduled]
    show _ ↔ _ ∧ w.loop.unflagged ≠ some j
    split_ifs with he
    · rw [if_pos he.symm] at hj
      constructor
      · intro hfalse
        cases hfalse
      · intro hone
        omega
    · rw [if_neg (Ne.symm he), Nat.add_zero] at hj
      rw [hj]
      exact h.flag j
  · intro j hj
    have hne : item.stepInfo ≠ j := fun he => hset (he ▸ hj)
    have hone := h.unflagged j hj
    rw [← hholders j, if_neg hne, Nat.add_zero] at hone
    exact hone
  · intro j hj
    have hzero := h.chosen j hj
    have hj := hholders j
    omega

theorem decrActive (h : Flagged w) {c : Nat} {item : ScheduledItem}
    (hc : w.removals.lookup c = some ⟨item, true⟩) (retries : Map Nat InfoRef) (b : Bool) :
    Flagged { w with
      queues := w.queues.decrActive item.buildQueue
      removals := w.removals.erase c
      retries := retries
      underflowed := b } := by
  refine h.of_holders (fun j => ?_) (fun j => ?_) rfl (fun _ hi => hi)
  · have htally := tally_decrActive (fun item => if item.stepInfo = j then 1 else 0)
      (fun r => if r.cleared = false ∧ r.item.stepInfo = j then 1 else 0) hc retries b
    simp only [Bool.true_eq_false, false_and, if_false, Nat.add_zero] at htally
    exact htally
  · exact InnerQueues.getAlreadyScheduled_decrActive _ _ j

/-- A store that changes nothing. -/
theorem retryFlag (h : Flagged w) {i : InfoRef} (hi : w.queues.getAlreadyScheduled i = false)
    (retries : Map Nat InfoRef) :
    Flagged { w with
      queues := w.queues.setAlreadyScheduled i false
      retries := retries } := by
  refine h.of_holders (fun _ => rfl) (fun j => ?_) rfl (fun _ hj => hj)
  show (w.queues.setAlreadyScheduled i false).getAlreadyScheduled j = _
  rw [InnerQueues.getAlreadyScheduled_setAlreadyScheduled]
  split_ifs with he
  · rw [he, hi]
  · rfl

theorem step {a : Action} {w' : Bookkeeping} (h : Flagged w) (hn : Named w) (hok : w.InOrder a)
    (hstep : BookStep w a w') : Flagged w' := by
  cases hstep with
  | frame hq => exact h.frame hn hq
  | @scan _ pc hchosen hold hnew _ _ =>
    refine h.of_holders (fun _ => rfl) (fun _ => rfl) ?_ ?_
    · rw [unflagged_of_uncounted hold, unflagged_of_uncounted hnew]
    · rw [hchosen]
      nofun
  | choose hl hi => exact h.choose hl hi
  | @insertScheduled machine _ _ i hl =>
    exact h.insertScheduled hl (hok i (by rw [hl]; rfl)) machine
  | setFlag hl => exact h.setFlag hl
  | incrActive hl => exact h.incrActive hl
  | takeScheduled hdrv hc => exact h.takeScheduled hdrv hc
  | clearFlag hc => exact h.clearFlag hc (hok _ hc)
  | decrActive hc => exact h.decrActive hc _ _
  | retryFlag hc => exact h.retryFlag (hok _ hc) _

end Flagged

/-! ## The counters -/

/-- A counter is the number of the items of its queue, but for the item
that is being added. -/
structure Counted (w : Bookkeeping) : Prop where
  active : ∀ system, (w.queues.active system).toNat +
    (if w.loop.uncounted = some system then 1 else 0) = w.itemsOf system
  sound : w.underflowed = false

namespace Counted

theorem init : Counted {} where
  active _ := rfl
  sound := rfl

variable {w : Bookkeeping}

/-- The counters, the items and the queue that is being added to stay. -/
theorem of_itemsOf (h : Counted w) {w' : Bookkeeping}
    (hactive : ∀ system, w'.queues.active system = w.queues.active system)
    (hitems : ∀ system, w'.itemsOf system = w.itemsOf system)
    (huncounted : w'.loop.uncounted = w.loop.uncounted)
    (hunderflowed : w'.underflowed = w.underflowed) : Counted w' where
  active system := by
    rw [hactive, hitems, huncounted]
    exact h.active system
  sound := hunderflowed.trans h.sound

theorem insertScheduled (h : Counted w) {system : System} {jobs : List InfoRef} {i : InfoRef}
    (hl : w.loop = .realise system jobs i) (hi : i.drvPath ∉ w.queues.scheduled)
    (machine : MachineRef) :
    Counted { w with
      queues := w.queues.insertScheduled i system machine
      loop := .inserted system jobs i } := by
  refine { active := ?_, sound := h.sound }
  intro system'
  have hactive := h.active system'
  have hold : w.loop.uncounted = none := by rw [hl]; rfl
  have hitems : ({ w with
      queues := w.queues.insertScheduled i system machine
      loop := .inserted system jobs i } : Bookkeeping).itemsOf system' =
        w.itemsOf system' + if system = system' then 1 else 0 :=
    tally_insertScheduled _ _ hi system machine _
  rw [hold, if_neg nofun, Nat.add_zero] at hactive
  rw [hitems, ← hactive]
  show (w.queues.active system').toNat + (if some system = some system' then 1 else 0) = _
  simp only [Option.some.injEq]

theorem incrActive (h : Counted w) (hn : Named w) {system : System} {jobs : List InfoRef}
    {i : InfoRef} (hl : w.loop = .flagged system jobs i)
    (hlt : (w.queues.active system).toNat + 1 < 2 ^ 64) :
    Counted { w with
      queues := w.queues.incrActive system
      loop := .walk system jobs } := by
  refine { active := ?_, sound := h.sound }
  intro system'
  have hactive := h.active system'
  have hmem : system ∈ w.queues.inner := hn.system system (by rw [hl]; rfl)
  have hincr : (w.queues.incrActive system).active system' =
      if system' = system then w.queues.active system' + 1 else w.queues.active system' :=
    InnerQueues.active_modifyQueue _ (· + 1) (fun _ => rfl) hmem system'
  have hitems : ({ w with
      queues := w.queues.incrActive system
      loop := .walk system jobs } : Bookkeeping).itemsOf system' = w.itemsOf system' := by
    simp only [itemsOf, tally, InnerQueues.incrActive_scheduled]
  rw [hl] at hactive
  rw [hitems, ← hactive]
  show ((w.queues.incrActive system).active system').toNat + 0 =
    _ + if some system = some system' then 1 else 0
  rw [hincr]
  by_cases he : system' = system
  · subst he
    rw [if_pos rfl, if_pos rfl, UInt64.toNat_add]
    exact Nat.mod_eq_of_lt hlt
  · rw [if_neg he, if_neg (fun h => he (Option.some.inj h).symm)]

/-- The counter is not zero: the removal still counts, and a second item
makes up for an addition that does not yet. -/
theorem active_ne_zero (h : Counted w) {c : Nat} {item : ScheduledItem}
    (hc : w.removals.lookup c = some ⟨item, true⟩)
    (hok : ¬(w.loop.uncounted = some item.buildQueue ∧ w.itemsOf item.buildQueue = 1)) :
    (w.queues.active item.buildQueue).toNat ≠ 0 := by
  have hactive := h.active item.buildQueue
  have hle : 1 ≤ w.itemsOf item.buildQueue := by
    have hweight := Map.le_weight
      (fun r : Unscheduling => if r.item.buildQueue = item.buildQueue then 1 else 0) hc
    simp only [if_true] at hweight
    exact le_trans hweight (Nat.le_add_left _ _)
  intro hzero
  rw [hzero] at hactive
  split_ifs at hactive with huncounted
  · exact hok ⟨huncounted, hactive.symm⟩
  · omega

theorem decrActive (h : Counted w) (hn : Named w) {c : Nat} {item : ScheduledItem}
    (hc : w.removals.lookup c = some ⟨item, true⟩)
    (hne : (w.queues.active item.buildQueue).toNat ≠ 0) (retries : Map Nat InfoRef) :
    Counted { w with
      queues := w.queues.decrActive item.buildQueue
      removals := w.removals.erase c
      retries := retries
      underflowed := w.underflowed || w.queues.active item.buildQueue == 0 } := by
  refine { active := ?_, sound := ?_ }
  · intro system
    have hactive := h.active system
    have hdecr : (w.queues.decrActive item.buildQueue).active system =
        if system = item.buildQueue then w.queues.active system - 1 else w.queues.active system :=
      InnerQueues.active_modifyQueue _ (· - 1) (fun _ => rfl) (hn.removals c _ hc).2 system
    have hitems : ({ w with
        queues := w.queues.decrActive item.buildQueue
        removals := w.removals.erase c
        retries := retries
        underflowed := w.underflowed || w.queues.active item.buildQueue == 0 } :
          Bookkeeping).itemsOf system + (if item.buildQueue = system then 1 else 0) =
        w.itemsOf system :=
      tally_decrActive _ _ hc _ _
    show ((w.queues.decrActive item.buildQueue).active system).toNat +
      (if w.loop.uncounted = some system then 1 else 0) = _
    rw [hdecr]
    by_cases he : system = item.buildQueue
    · subst he
      have hone : (1 : UInt64) ≤ w.queues.active item.buildQueue :=
        UInt64.le_iff_toNat_le.mpr (Nat.one_le_iff_ne_zero.mpr hne)
      rw [if_pos rfl] at hitems
      rw [if_pos rfl, UInt64.toNat_sub_of_le _ _ hone]
      show (w.queues.active item.buildQueue).toNat - 1 + _ = _
      omega
    · rw [if_neg (Ne.symm he)] at hitems
      rw [if_neg he]
      omega
  · show (w.underflowed || w.queues.active item.buildQueue == 0) = false
    rw [h.sound, Bool.false_or, beq_eq_false_iff_ne]
    intro hzero
    rw [hzero] at hne
    exact hne rfl

theorem step {a : Action} {w' : Bookkeeping} (h : Counted w) (hn : Named w) (hok : w.InOrder a)
    (hstep : BookStep w a w') : Counted w' := by
  cases hstep with
  | frame hq =>
    refine h.of_itemsOf hq.active (fun system => ?_) rfl rfl
    simp only [itemsOf, tally, hq.scheduled]
  | scan hchosen hold hnew _ _ =>
    exact h.of_itemsOf (fun _ => rfl) (fun _ => rfl) (hnew.trans hold.symm) rfl
  | choose hl hi => exact h.of_itemsOf (fun _ => rfl) (fun _ => rfl) (by rw [hl]; rfl) rfl
  | @insertScheduled machine _ _ i hl =>
    exact h.insertScheduled hl (hok i (by rw [hl]; rfl)) machine
  | setFlag hl => exact h.of_itemsOf (fun _ => rfl) (fun _ => rfl) (by rw [hl]; rfl) rfl
  | @incrActive system _ _ hl =>
    exact h.incrActive hn hl (hok system (by rw [hl]; rfl))
  | takeScheduled hdrv hc =>
    refine h.of_itemsOf (fun _ => rfl) (fun system => ?_) rfl rfl
    exact Nat.add_right_cancel (tally_takeScheduled _ _ hdrv hc)
  | clearFlag hc =>
    refine h.of_itemsOf (fun _ => rfl) (fun system => ?_) rfl rfl
    exact Nat.add_right_cancel (tally_clearFlag _ _ hc)
  | decrActive hc => exact h.decrActive hn hc (h.active_ne_zero hc (hok _ hc)) _
  | retryFlag hc => exact h.of_itemsOf (fun _ => rfl) (fun _ => rfl) rfl rfl

end Counted

/-! ## Runs -/

/-- The map, the flags and the counters agree. -/
structure Agrees (w : Bookkeeping) : Prop where
  /-- `active_runnable` of every queue is the number of its items. -/
  active : ∀ system queue, w.queues.inner.lookup system = some queue →
    queue.activeRunnable.toNat =
      w.queues.scheduled.values.countP (fun item => item.buildQueue == system)
  /-- A queued step info is flagged while the item of its derivation is its
  own. -/
  flag : ∀ drv i, w.queues.jobs.lookup drv = some i →
    (w.queues.getAlreadyScheduled i = true ↔
      (w.queues.scheduled.lookup drv).map ScheduledItem.stepInfo = some i)

/-- No counter was ever decremented at zero, and the books agree whenever
no addition and no removal is in progress. -/
def Sound (w : Bookkeeping) : Prop := w.underflowed = false ∧ (w.Unlocked → w.Agrees)

section Settled

variable {w : Bookkeeping}

theorem removals_eq_empty_of_unlocked (h : w.Unlocked) : w.removals = ∅ := by
  apply AList.ext
  have hkeys : w.removals.entries.map Sigma.fst = [] := h.2
  exact List.map_eq_nil_iff.mp hkeys

/-- Without an addition or a removal the items are those of the map. -/
theorem tally_of_unlocked (h : w.Unlocked) (f : ScheduledItem → Nat) (g : Unscheduling → Nat) :
    w.tally f g = w.queues.scheduled.weight f := by
  rw [tally, removals_eq_empty_of_unlocked h]
  rfl

/-- A step info has an item exactly when that of its derivation is its
own. -/
theorem Named.weight_ne_zero_iff (h : Named w) (i : InfoRef) :
    w.queues.scheduled.weight (fun item => if item.stepInfo = i then 1 else 0) ≠ 0 ↔
      (w.queues.scheduled.lookup i.drvPath).map ScheduledItem.stepInfo = some i := by
  rw [Ne, Map.weight_eq_zero_iff, Option.map_eq_some_iff]
  constructor
  · intro hne
    unfold Map.All at hne
    push Not at hne
    obtain ⟨drv, item, hd, hitem⟩ := hne
    have he : item.stepInfo = i := by
      by_contra he
      exact hitem (if_neg he)
    refine ⟨item, ?_, he⟩
    rw [← he, h.keyed drv item hd]
    exact hd
  · rintro ⟨item, hd, he⟩ hall
    have hzero := hall _ item hd
    simp only [he, if_true] at hzero
    exact Nat.one_ne_zero hzero

theorem agrees_of_unlocked (hn : Named w) (hf : Flagged w) (hc : Counted w) (hw : w.Unlocked) :
    Agrees w where
  active system queue hq := by
    have hactive := hc.active system
    have hqueue : w.queues.active system = queue.activeRunnable := by
      rw [InnerQueues.active, hq]
      rfl
    rw [hqueue, hw.1, if_neg nofun, Nat.add_zero, itemsOf, tally_of_unlocked hw] at hactive
    rw [hactive, ← Map.weight_ite_eq_countP]
    simp only [beq_iff_eq]
  flag drv i hi := by
    have hkey := hn.jobs drv i hi
    have hle := hf.le_one i
    rw [hf.flag i, unflagged_of_uncounted hw.1, ← hkey, ← hn.weight_ne_zero_iff i]
    simp only [holders, tally_of_unlocked hw] at hle ⊢
    constructor
    · intro hone hzero
      rw [hzero] at hone
      exact Nat.zero_ne_one hone.1
    · intro hne
      exact ⟨by omega, nofun⟩

end Settled

theorem books_of_reach {w : Bookkeeping} (h : Lts.Reach next InOrder {} w) :
    Named w ∧ Flagged w ∧ Counted w := by
  refine h.invariant (I := fun w => Named w ∧ Flagged w ∧ Counted w)
    ⟨Named.init, Flagged.init, Counted.init⟩ ?_
  intro w a w' hw hok hnext
  have hstep := bookStep_of_next hnext
  exact ⟨hw.1.step hstep, hw.2.1.step hw.1 hok hstep, hw.2.2.step hw.1 hok hstep⟩

/-- In every run in which no removal overtakes the addition of its item, no
addition meets an older item and no retry clears the flag of a job that has
been added again, the books agree whenever they are at rest. -/
theorem sound_of_inOrder {w : Bookkeeping} (h : Lts.Reach next InOrder {} w) : Sound w := by
  obtain ⟨hn, hf, hc⟩ := books_of_reach h
  exact ⟨hc.sound, agrees_of_unlocked hn hf hc⟩

/-- A queue with one job, and the dispatch loop about to add it. -/
def samplePrepare : List Action :=
  [.insertNewJobs (fun _ => false) (fun _ => false) (fun _ _ => .eq) "x86_64-linux"
     [(⟨⟨"a.drv"⟩, 0⟩, {})] 0,
   .cloneInner "x86_64-linux", .visit true]

/-- The step info of that job. -/
def sampleInfo : InfoRef := ⟨⟨⟨"a.drv"⟩, 0⟩, 0⟩

/-- A removal starts while the job is being added, and each of its updates
waits for that of the addition.  The step is retried, and the job is added
once more. -/
theorem sound_of_inOrder_again : ∃ w, Lts.Reach next InOrder {} w ∧ w.Unlocked ∧
    w.queues.active "x86_64-linux" = 1 ∧ w.queues.getAlreadyScheduled sampleInfo = true ∧
    Sound w := by
  have hrun : (Lts.runWith next InOrder {} (samplePrepare ++
      [.insertScheduled ⟨0, 0⟩, .takeScheduled 0 ⟨"a.drv"⟩, .setFlag, .clearFlag 0, .incrActive,
       .decrActive 0 true, .cloneInner "x86_64-linux", .visit true, .retryFlag 0,
       .insertScheduled ⟨0, 0⟩, .setFlag, .incrActive])).map
      (fun w => decide (w.Unlocked ∧ w.queues.active "x86_64-linux" = 1 ∧
        w.queues.getAlreadyScheduled sampleInfo = true)) = some true := by decide +kernel
  obtain ⟨w, hw, hend⟩ := Option.map_eq_some_iff.mp hrun
  obtain ⟨hunlocked, hactive, hflag⟩ := of_decide_eq_true hend
  have hreach := Lts.reach_of_runWith hw
  exact ⟨w, hreach, hunlocked, hactive, hflag, sound_of_inOrder hreach⟩

/-- The removal overtakes the addition: it decrements the counter at zero,
and at the end the flag stays set without an item.  In a second run the job
is added again before `fail_step` stores its `false`, and at the end the flag
is clear beside the item. -/
theorem sound_fails_overtaken :
    (∃ w, Lts.Reach next Lts.anyStep {} w ∧ w.Unlocked ∧
      w.queues.jobs.lookup ⟨"a.drv"⟩ = some sampleInfo ∧
      w.queues.getAlreadyScheduled sampleInfo = true ∧
      w.queues.scheduled.lookup ⟨"a.drv"⟩ = none ∧ w.underflowed = true ∧ ¬ Sound w) ∧
    ∃ w, Lts.Reach next Lts.anyStep {} w ∧ w.Unlocked ∧ w.retries.keys = [] ∧
      w.queues.jobs.lookup ⟨"a.drv"⟩ = some sampleInfo ∧
      w.queues.getAlreadyScheduled sampleInfo = false ∧
      (w.queues.scheduled.lookup ⟨"a.drv"⟩).map ScheduledItem.stepInfo = some sampleInfo ∧
      ¬ Sound w := by
  constructor
  · have hrun : (Lts.run next {} (samplePrepare ++
        [.insertScheduled ⟨0, 0⟩, .takeScheduled 0 ⟨"a.drv"⟩, .clearFlag 0, .decrActive 0 false,
         .setFlag, .incrActive])).map
        (fun w => decide (w.Unlocked ∧ w.queues.jobs.lookup ⟨"a.drv"⟩ = some sampleInfo ∧
          w.queues.getAlreadyScheduled sampleInfo = true ∧
          w.queues.scheduled.lookup ⟨"a.drv"⟩ = none ∧ w.underflowed = true)) = some true := by
      decide +kernel
    obtain ⟨w, hw, hend⟩ := Option.map_eq_some_iff.mp hrun
    obtain ⟨hunlocked, hjobs, hflag, hitem, hunder⟩ := of_decide_eq_true hend
    refine ⟨w, Lts.reach_of_run hw, hunlocked, hjobs, hflag, hitem, hunder, ?_⟩
    intro hsound
    have hagree := ((hsound.2 hunlocked).flag _ _ hjobs).mp hflag
    rw [hitem] at hagree
    cases hagree
  · have hrun : (Lts.run next {} (samplePrepare ++
        [.insertScheduled ⟨0, 0⟩, .setFlag, .incrActive, .takeScheduled 0 ⟨"a.drv"⟩, .clearFlag 0,
         .decrActive 0 true, .cloneInner "x86_64-linux", .visit true, .insertScheduled ⟨0, 0⟩,
         .setFlag, .incrActive, .retryFlag 0])).map
        (fun w => decide (w.Unlocked ∧ w.retries.keys = [] ∧
          w.queues.jobs.lookup ⟨"a.drv"⟩ = some sampleInfo ∧
          w.queues.getAlreadyScheduled sampleInfo = false ∧
          (w.queues.scheduled.lookup ⟨"a.drv"⟩).map ScheduledItem.stepInfo =
            some sampleInfo)) = some true := by
      decide +kernel
    obtain ⟨w, hw, hend⟩ := Option.map_eq_some_iff.mp hrun
    obtain ⟨hunlocked, hretries, hjobs, hflag, hitem⟩ := of_decide_eq_true hend
    refine ⟨w, Lts.reach_of_run hw, hunlocked, hretries, hjobs, hflag, hitem, ?_⟩
    intro hsound
    have hagree := ((hsound.2 hunlocked).flag _ _ hjobs).mpr hitem
    rw [hflag] at hagree
    cases hagree

end Bookkeeping

end QueueRunner
