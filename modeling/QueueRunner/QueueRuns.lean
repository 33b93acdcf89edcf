import QueueRunner.Lib.Run
import QueueRunner.Queue

/-!
# Runs of the queue operations

The queues are shared.  Any task may call the operations of
`QueueRunner.Queue` in any order, and a task may keep the step info that
an operation hands out: `fail_step` holds the removed `ScheduledItem`
across its awaits.  `QueueOp` lists the calls together with the three
things the other tasks do to the pointers and flags that the operations
read.

The representation invariant is `OnePointer`: every entry of `jobs` has
exactly one weak pointer in the queues, in the queue of the system it was
inserted under.  The two duplicate tests of an insertion are different.
The map test looks for the derivation in `jobs`, the queue test for any
live pointer of that derivation.  They disagree when somebody still holds
a step info that has left the map, and then the new job enters the map
and no queue.  `Unclaimed` says that this does not happen, and
`onePointer_runs` shows that nothing else can break the invariant.
-/

namespace QueueRunner

/-- The queues, the step infos that other tasks hold, and the `finished`
flags of the steps.  `under` remembers the system that a step info was
inserted under; no operation reads it. -/
structure QueueState where
  queues : InnerQueues := {}
  held : List InfoRef := []
  finished : StepRef → Bool := fun _ => false
  under : InfoRef → System := fun _ => ""

/-- A call of a queue operation, or a step of its callers. -/
inductive QueueOp where
  | insertNewJobs (system : System) (jobs : List (StepRef × StepInfo))
      (now : Timestamp) (cmp : InfoRef → InfoRef → Ordering)
  | addJobToScheduled (i : InfoRef) (system : System) (machine : MachineRef)
  | removeJobFromScheduled (drv : StorePath)
  | removeJob (i : InfoRef) (system : System)
  | removeJobByPath (drv : StorePath)
  | removeAllWeakPointer
  | sortQueues (cmp : InfoRef → InfoRef → Ordering)
  | ensureQueuesForSystems (systems : List System)
  /-- A task upgrades a weak pointer, or clones a pointer it can reach. -/
  | keep (i : InfoRef)
  /-- A task drops one of its pointers. -/
  | drop (i : InfoRef)
  | setFinished (step : StepRef) (v : Bool)

namespace QueueState

/-- The strong pointers of the other tasks. -/
def holds (s : QueueState) (i : InfoRef) : Bool := s.held.contains i

/-- Whether a weak pointer can be upgraded. -/
def live (s : QueueState) (i : InfoRef) : Bool := s.queues.live s.holds i

/-- The step infos that an insertion allocates. -/
def newJobs (s : QueueState) (jobs : List (StepRef × StepInfo)) :
    List InfoRef :=
  (s.queues.submitJobs s.finished jobs).2

/-- One call, or one step of a caller.  An argument that is an `Arc` must
be held by the caller. -/
def next (s : QueueState) : QueueOp → Option QueueState
  | .insertNewJobs system jobs now cmp =>
    some { s with
      queues := s.queues.insertNewJobs s.holds s.finished cmp system jobs now
      under := fun i => if i ∈ s.newJobs jobs then system else s.under i }
  | .addJobToScheduled i system machine =>
    if i ∈ s.held then
      some { s with queues := s.queues.addJobToScheduled i system machine }
    else none
  | .removeJobFromScheduled drv =>
    match s.queues.removeJobFromScheduled drv with
    | none => some s
    | some (item, queues) =>
      some { s with queues := queues, held := item.stepInfo :: s.held }
  | .removeJob i system =>
    if i ∈ s.held then
      some { s with queues := s.queues.removeJob s.holds i system }
    else none
  | .removeJobByPath drv =>
    some { s with queues := s.queues.removeJobByPath drv }
  | .removeAllWeakPointer =>
    some { s with queues := s.queues.removeAllWeakPointer s.holds }
  | .sortQueues cmp =>
    some { s with queues := s.queues.sortQueues s.holds cmp }
  | .ensureQueuesForSystems systems =>
    some { s with queues := s.queues.ensureQueuesForSystems systems }
  | .keep i => if s.live i then some { s with held := i :: s.held } else none
  | .drop i => some { s with held := s.held.erase i }
  | .setFinished step v =>
    some { s with finished := Function.update s.finished step v }

/-- The weak pointers to a step info among all queues. -/
def weakCount (s : QueueState) (i : InfoRef) : Nat :=
  (s.queues.inner.values.map (fun bq => bq.jobs.count i)).sum

/-- The representation invariant of the queues. -/
def OnePointer (s : QueueState) : Prop :=
  ∀ drv i, s.queues.jobs.lookup drv = some i →
    s.weakCount i = 1 ∧ i ∈ s.queues.queueJobs (s.under i)

/-- No new job meets a live pointer of its derivation in the queue it goes
to.  Such a pointer belongs to a step info that has left `jobs` and that
`scheduled` or another task still holds. -/
def Unclaimed (s : QueueState) : QueueOp → Prop
  | .insertNewJobs system jobs _ _ =>
    ∀ job ∈ jobs, job.1.drvPath ∉ s.queues.jobs → s.finished job.1 = false →
      ∀ i ∈ s.queues.queueJobs system, s.live i = true →
        i.drvPath ≠ job.1.drvPath
  | _ => True

instance (s : QueueState) (op : QueueOp) : Decidable (s.Unclaimed op) :=
  match op with
  | .insertNewJobs system jobs _ _ => inferInstanceAs (Decidable
      (∀ job ∈ jobs, job.1.drvPath ∉ s.queues.jobs → s.finished job.1 = false →
        ∀ i ∈ s.queues.queueJobs system, s.live i = true → i.drvPath ≠ job.1.drvPath))
  | .addJobToScheduled _ _ _ | .removeJobFromScheduled _ | .removeJob _ _ | .removeJobByPath _
  | .removeAllWeakPointer | .sortQueues _ | .ensureQueuesForSystems _ | .keep _ | .drop _
  | .setFinished _ _ => inferInstanceAs (Decidable True)

/-! ## The inductive invariant -/

/-- What the steps of a run keep: `OnePointer` with the count spelled out
for every queue, and the facts that make allocations fresh. -/
structure Inv (s : QueueState) : Prop where
  path : ∀ drv i, s.queues.jobs.lookup drv = some i → i.drvPath = drv
  jobFresh : ∀ drv i, s.queues.jobs.lookup drv = some i →
    i.gen < s.queues.fresh
  queueFresh : ∀ system, ∀ i ∈ s.queues.queueJobs system,
    i.gen < s.queues.fresh
  count : ∀ drv i, s.queues.jobs.lookup drv = some i → ∀ system,
    (s.queues.queueJobs system).count i = if system = s.under i then 1 else 0

theorem inv_init : Inv {} := by
  constructor <;> simp [InnerQueues.queueJobs]

/-- The inductive invariant is stronger than the representation
invariant. -/
theorem Inv.onePointer {s : QueueState} (h : Inv s) : OnePointer s := by
  intro drv i hi
  have hmem : i ∈ s.queues.queueJobs (s.under i) := by
    apply List.count_pos_iff.mp
    rw [h.count drv i hi, if_pos rfl]
    exact Nat.one_pos
  refine ⟨?_, hmem⟩
  have hkey : s.under i ∈ s.queues.inner := by
    by_contra hnot
    simp [InnerQueues.queueJobs, AList.lookup_eq_none.mpr hnot] at hmem
  apply Map.sum_values_eq_one hkey
  intro system bq hbq
  have hc := h.count drv i hi system
  rwa [InnerQueues.queueJobs, hbq] at hc

/-- A step that adds no job and keeps the pointers to the jobs it leaves
keeps the invariant. -/
theorem Inv.of_frame {s s' : QueueState} (h : Inv s)
    (hjobs : ∀ drv i, s'.queues.jobs.lookup drv = some i →
      s.queues.jobs.lookup drv = some i)
    (hfresh : s'.queues.fresh = s.queues.fresh) (hunder : s'.under = s.under)
    (hmem : ∀ system, ∀ i ∈ s'.queues.queueJobs system,
      i ∈ s.queues.queueJobs system)
    (hcount : ∀ drv i, s'.queues.jobs.lookup drv = some i → ∀ system,
      (s'.queues.queueJobs system).count i =
        (s.queues.queueJobs system).count i) :
    Inv s' where
  path drv i hi := h.path drv i (hjobs drv i hi)
  jobFresh drv i hi := hfresh ▸ h.jobFresh drv i (hjobs drv i hi)
  queueFresh system i hi := hfresh ▸ h.queueFresh system i (hmem system i hi)
  count drv i hi system := by
    rw [hcount drv i hi, hunder]
    exact h.count drv i (hjobs drv i hi) system

/-- A step that changes neither the jobs nor the pointers. -/
theorem Inv.of_eq {s s' : QueueState} (h : Inv s)
    (hjobs : s'.queues.jobs = s.queues.jobs)
    (hfresh : s'.queues.fresh = s.queues.fresh) (hunder : s'.under = s.under)
    (hqueue : ∀ system, s'.queues.queueJobs system =
      s.queues.queueJobs system) : Inv s' :=
  h.of_frame (fun _ _ hi => hjobs ▸ hi) hfresh hunder
    (fun system _ hi => hqueue system ▸ hi)
    (fun _ _ _ system => by rw [hqueue])

/-! ## One step -/

theorem inv_removeJob {s : QueueState} (h : Inv s) (i : InfoRef)
    (system : System) :
    Inv { s with queues := s.queues.removeJob s.holds i system } := by
  apply h.of_frame
  · intro drv j hj
    simp only [InnerQueues.removeJob_jobs, Map.lookup_erase_eq] at hj
    split_ifs at hj
    exact hj
  · simp
  · rfl
  · intro system' j hj
    simp only [InnerQueues.queueJobs_removeJob] at hj
    split_ifs at hj
    · exact List.mem_of_mem_filter hj
    · exact hj
  · intro drv j hj system'
    simp only [InnerQueues.removeJob_jobs] at hj
    simp only [InnerQueues.queueJobs_removeJob]
    split_ifs
    · apply List.count_filter
      rw [InnerQueues.live_iff]
      exact Or.inr (Or.inl ⟨drv, hj⟩)
    · rfl

theorem inv_removeAllWeakPointer {s : QueueState} (h : Inv s) :
    Inv { s with queues := s.queues.removeAllWeakPointer s.holds } := by
  refine h.of_frame (fun _ _ hj => hj) rfl rfl ?_ ?_
  · intro system j hj
    simp only [InnerQueues.queueJobs_removeAllWeakPointer] at hj
    exact List.mem_of_mem_filter hj
  · intro drv j hj system
    simp only [InnerQueues.queueJobs_removeAllWeakPointer]
    apply List.count_filter
    rw [InnerQueues.live_iff]
    exact Or.inr (Or.inl ⟨drv, hj⟩)

theorem inv_sortQueues {s : QueueState} (h : Inv s)
    (cmp : InfoRef → InfoRef → Ordering) :
    Inv { s with queues := s.queues.sortQueues s.holds cmp } := by
  have hperm := InnerQueues.queueJobs_sortQueues_perm cmp s.queues s.holds
  refine h.of_frame (fun _ _ hj => hj) rfl rfl ?_ ?_
  · exact fun system j hj => (hperm system).mem_iff.mp hj
  · exact fun _ j _ system => (hperm system).count_eq j

/-- The pointers to a job that was queued before the batch: the new jobs
are other pointers, and the job is live, so it is not scrubbed. -/
theorem count_old_insertNewJobs {s : QueueState} (h : Inv s)
    (system : System) (jobs : List (StepRef × StepInfo)) (now : Timestamp)
    (cmp : InfoRef → InfoRef → Ordering) {drv : StorePath} {i : InfoRef}
    (hi : s.queues.jobs.lookup drv = some i) (system' : System) :
    ((s.queues.insertNewJobs s.holds s.finished cmp system jobs now).queueJobs
      system').count i = (s.queues.queueJobs system').count i := by
  have hsub := InnerQueues.submitted_submitJobs s.queues s.finished jobs
  by_cases hs : system' = system
  · subst hs
    obtain ⟨l, hl, he⟩ := InnerQueues.foldl_pushJob_sublist
      ((s.queues.submitJobs s.finished jobs).1.live s.holds)
      (s.queues.submitJobs s.finished jobs).1.info now
      (s.queues.submitJobs s.finished jobs).2 (s.queues.queueJobs system', 0)
    have hnotNew : i ∉ l := by
      intro hmem
      have hge := (hsub.gen i (hl.mem hmem)).1
      exact absurd (h.jobFresh drv i hi) (not_lt.mpr hge)
    have hlive : (s.queues.submitJobs s.finished jobs).1.live s.holds i = true := by
      rw [InnerQueues.live_iff]
      exact Or.inr (Or.inl ⟨drv, (hsub.lookup drv i).mpr (Or.inl hi)⟩)
    rw [(InnerQueues.queueJobs_insertNewJobs_perm ..).count_eq, he,
      List.count_filter hlive, List.count_append,
      List.count_eq_zero_of_not_mem hnotNew, Nat.add_zero]
  · rw [InnerQueues.queueJobs_insertNewJobs_of_ne _ _ _ _ _ _ _ hs]

/-- The pointers to a new job when no live pointer of its derivation is in
the queue: exactly one, in the queue of the batch. -/
theorem count_new_insertNewJobs {s : QueueState} (h : Inv s)
    (system : System) (jobs : List (StepRef × StepInfo)) (now : Timestamp)
    (cmp : InfoRef → InfoRef → Ordering)
    (hfree : s.Unclaimed (.insertNewJobs system jobs now cmp)) {i : InfoRef}
    (hi : i ∈ s.newJobs jobs) (system' : System) :
    ((s.queues.insertNewJobs s.holds s.finished cmp system jobs now).queueJobs
      system').count i = if system' = system then 1 else 0 := by
  have hsub := InnerQueues.submitted_submitJobs s.queues s.finished jobs
  have hgen : s.queues.fresh ≤ i.gen := (hsub.gen i hi).1
  have hold : ∀ system'', i ∉ s.queues.queueJobs system'' := fun system'' hmem =>
    absurd (h.queueFresh system'' i hmem) (not_lt.mpr hgen)
  by_cases hs : system' = system
  · subst hs
    rw [if_pos rfl, (InnerQueues.queueJobs_insertNewJobs_perm ..).count_eq,
      List.count_filter (hsub.live_new s.holds hi),
      InnerQueues.foldl_pushJob_eq _ _ _ _ _
        (fun j hj => hsub.live_new s.holds hj) hsub.nodup,
      List.count_append, List.count_eq_zero_of_not_mem (hold system'),
      Nat.zero_add]
    · exact List.count_eq_one_of_mem (List.Nodup.of_map _ hsub.nodup) hi
    · intro j hj v hv hlive
      rw [hsub.live_old s.holds (h.queueFresh system' v hv)] at hlive
      obtain ⟨hfin, info, hmem, -⟩ := hsub.origin j hj
      exact hfree (j.step, info) hmem (hsub.notMem j hj) hfin v hv hlive
  · rw [if_neg hs, InnerQueues.queueJobs_insertNewJobs_of_ne _ _ _ _ _ _ _ hs]
    exact List.count_eq_zero_of_not_mem (hold system')

theorem inv_insertNewJobs {s : QueueState} (h : Inv s)
    (system : System) (jobs : List (StepRef × StepInfo)) (now : Timestamp)
    (cmp : InfoRef → InfoRef → Ordering)
    (hfree : s.Unclaimed (.insertNewJobs system jobs now cmp)) :
    Inv { s with
      queues := s.queues.insertNewJobs s.holds s.finished cmp system jobs now
      under := fun i => if i ∈ s.newJobs jobs then system else s.under i } := by
  have hsub := InnerQueues.submitted_submitJobs s.queues s.finished jobs
  have hnotNew : ∀ {drv i}, s.queues.jobs.lookup drv = some i →
      i ∉ s.newJobs jobs := fun {drv i} hi hmem =>
    absurd (h.jobFresh drv i hi) (not_lt.mpr (hsub.gen i hmem).1)
  constructor
  · intro drv i hi
    simp only [InnerQueues.insertNewJobs_jobs, hsub.lookup] at hi
    rcases hi with hi | ⟨-, he⟩
    · exact h.path drv i hi
    · exact he
  · intro drv i hi
    simp only [InnerQueues.insertNewJobs_jobs, hsub.lookup] at hi
    simp only [InnerQueues.insertNewJobs_fresh]
    rcases hi with hi | ⟨hi, -⟩
    · exact lt_of_lt_of_le (h.jobFresh drv i hi) hsub.fresh_le
    · exact (hsub.gen i hi).2
  · intro system' i hi
    simp only [InnerQueues.insertNewJobs_fresh]
    rcases InnerQueues.mem_queueJobs_insertNewJobs _ _ _ _ _ _ _ hi with
      hi | ⟨-, hi⟩
    · exact lt_of_lt_of_le (h.queueFresh system' i hi) hsub.fresh_le
    · exact (hsub.gen i hi).2
  · intro drv i hi system'
    simp only [InnerQueues.insertNewJobs_jobs, hsub.lookup] at hi
    rcases hi with hi | ⟨hi, -⟩
    · simp only [count_old_insertNewJobs h system jobs now cmp hi,
        if_neg (hnotNew hi)]
      exact h.count drv i hi system'
    · have hnew : i ∈ s.newJobs jobs := hi
      simp only [count_new_insertNewJobs h system jobs now cmp hfree hi,
        if_pos hnew]

/-- A new job that meets a live pointer of its derivation enters the map
and no queue. -/
theorem not_onePointer_insertNewJobs {s : QueueState} (h : Inv s)
    (system : System) (jobs : List (StepRef × StepInfo)) (now : Timestamp)
    (cmp : InfoRef → InfoRef → Ordering)
    (hclaimed : ¬s.Unclaimed (.insertNewJobs system jobs now cmp)) :
    ¬OnePointer { s with
      queues := s.queues.insertNewJobs s.holds s.finished cmp system jobs now
      under := fun i => if i ∈ s.newJobs jobs then system else s.under i } := by
  have hsub := InnerQueues.submitted_submitJobs s.queues s.finished jobs
  simp only [Unclaimed, not_forall, not_not] at hclaimed
  obtain ⟨job, hjob, hnot, hfin, v, hv, hlive, hpath⟩ := hclaimed
  obtain ⟨i, hi, he⟩ := hsub.accepts job hjob hnot hfin
  have hgen : s.queues.fresh ≤ i.gen := (hsub.gen i hi).1
  intro hone
  have hmem := (hone i.drvPath i (by
    simp only [InnerQueues.insertNewJobs_jobs, hsub.lookup]
    exact Or.inr ⟨hi, trivial⟩)).2
  have hunder : (if i ∈ s.newJobs jobs then system else s.under i) = system :=
    if_pos hi
  simp only [hunder] at hmem
  refine InnerQueues.not_mem_foldl_pushJob _ _ now _ (s.queues.queueJobs system, 0)
    hv ?_ (hpath.trans he.symm) ?_ (List.mem_of_mem_filter
      ((InnerQueues.queueJobs_insertNewJobs_perm ..).mem_iff.mp hmem))
  · rw [hsub.live_old s.holds (h.queueFresh system v hv)]
    exact hlive
  · exact fun hi' => absurd (h.queueFresh system i hi') (not_lt.mpr hgen)

/-- A step keeps the invariant when no insertion meets a live pointer. -/
theorem inv_next {s s' : QueueState} (h : Inv s) {op : QueueOp}
    (hfree : s.Unclaimed op) (hnext : s.next op = some s') : Inv s' := by
  cases op with
  | insertNewJobs system jobs now cmp =>
    cases hnext
    exact inv_insertNewJobs h system jobs now cmp hfree
  | addJobToScheduled i system machine =>
    simp only [next] at hnext
    split_ifs at hnext
    cases hnext
    exact h.of_eq (by simp) (by simp) rfl (by simp)
  | removeJobFromScheduled drv =>
    simp only [next] at hnext
    split at hnext
    · cases hnext
      exact h
    · rename_i item queues hrem
      cases hnext
      have hu := InnerQueues.unscheduled_of_removeJobFromScheduled hrem
      exact h.of_eq hu.jobs hu.fresh rfl hu.queueJobs
  | removeJob i system =>
    simp only [next] at hnext
    split_ifs at hnext
    cases hnext
    exact inv_removeJob h i system
  | removeJobByPath drv =>
    cases hnext
    refine h.of_frame ?_ rfl rfl (fun _ _ hi => hi) (fun _ _ _ _ => rfl)
    intro drv' i hi
    simp only [InnerQueues.removeJobByPath, Map.lookup_erase_eq] at hi
    split_ifs at hi
    exact hi
  | removeAllWeakPointer =>
    cases hnext
    exact inv_removeAllWeakPointer h
  | sortQueues cmp =>
    cases hnext
    exact inv_sortQueues h cmp
  | ensureQueuesForSystems systems =>
    cases hnext
    obtain ⟨hj, -, -, hf, hq⟩ := s.queues.ensureQueuesForSystems_frame systems
    exact h.of_eq hj hf rfl hq
  | keep i =>
    simp only [next] at hnext
    split_ifs at hnext
    cases hnext
    exact h.of_eq rfl rfl rfl (fun _ => rfl)
  | drop i =>
    cases hnext
    exact h.of_eq rfl rfl rfl (fun _ => rfl)
  | setFinished step v =>
    cases hnext
    exact h.of_eq rfl rfl rfl (fun _ => rfl)

/-! ## Whole runs -/

/-- In every run in which no insertion meets a live pointer of the same
derivation, every job has exactly one weak pointer, in the queue it was
inserted under.  The condition cannot be weakened: from a state of such a
run, a step keeps the invariant exactly when it meets the condition. -/
theorem onePointer_runs (s : QueueState)
    (hrun : Lts.Reach next Unclaimed {} s) :
    OnePointer s ∧ ∀ op s', s.next op = some s' →
      (OnePointer s' ↔ s.Unclaimed op) := by
  have hinv : Inv s := hrun.invariant inv_init
    (fun s op s' h hok hnext => inv_next h hok hnext)
  refine ⟨hinv.onePointer, fun op s' hnext => ⟨fun hone => ?_, fun hok => ?_⟩⟩
  · cases op with
    | insertNewJobs system jobs now cmp =>
      by_contra hclaimed
      cases hnext
      exact not_onePointer_insertNewJobs hinv system jobs now cmp hclaimed hone
    | _ => trivial
  · exact (inv_next hinv hok hnext).onePointer

/-- A step of the derivation `a.drv`. -/
def stepA : StepRef := ⟨⟨"a.drv"⟩, 0⟩

/-- A step of the derivation `b.drv`. -/
def stepB : StepRef := ⟨⟨"b.drv"⟩, 1⟩

/-- A job runs on a machine and fails for good.  The item is dropped, and the
queues are scrubbed.  Then the step is inserted again with another one. -/
def failedAndDropped : List QueueOp :=
  [.insertNewJobs "x86_64-linux" [(stepA, {})] 0 (fun _ _ => .eq),
    .keep ⟨stepA, 0⟩,
    .addJobToScheduled ⟨stepA, 0⟩ "x86_64-linux" ⟨0, 0⟩,
    .drop ⟨stepA, 0⟩,
    .removeJobFromScheduled ⟨"a.drv"⟩,
    .removeJob ⟨stepA, 0⟩ "x86_64-linux",
    .drop ⟨stepA, 0⟩,
    .removeAllWeakPointer,
    .insertNewJobs "x86_64-linux" [(stepA, {}), (stepB, {})] 0 (fun _ _ => .eq),
    .sortQueues (fun _ _ => .eq)]

/-- The second insertion gives both steps their pointers. -/
theorem onePointer_runs_insert : ∃ s, Lts.Reach next Unclaimed {} s ∧
    s.queues.queueJobs "x86_64-linux" = [⟨stepA, 1⟩, ⟨stepB, 2⟩] ∧
      s.queues.jobs.lookup ⟨"a.drv"⟩ = some ⟨stepA, 1⟩ ∧ OnePointer s := by
  have hend : (Lts.runWith next Unclaimed {} failedAndDropped).map (fun s =>
      (s.queues.queueJobs "x86_64-linux", s.queues.jobs.lookup ⟨"a.drv"⟩)) =
      some ([⟨stepA, 1⟩, ⟨stepB, 2⟩], some ⟨stepA, 1⟩) := by decide +kernel
  obtain ⟨s, hs, hview⟩ := Option.map_eq_some_iff.mp hend
  obtain ⟨hqueue, hjob⟩ := Prod.mk.inj hview
  have hrun := Lts.reach_of_runWith hs
  exact ⟨s, hrun, hqueue, hjob, (onePointer_runs s hrun).1⟩

/-- A job runs on a machine and fails for good while a dispatch pass is
under way.  `fail_step` takes the item out of `scheduled` and the job out
of `jobs`, and keeps the item while it writes to the database.  Then the
pass inserts the step again. -/
def failedThenInserted : List QueueOp :=
  [.insertNewJobs "x86_64-linux" [(stepA, {})] 0 (fun _ _ => .eq),
    .keep ⟨stepA, 0⟩,
    .addJobToScheduled ⟨stepA, 0⟩ "x86_64-linux" ⟨0, 0⟩,
    .drop ⟨stepA, 0⟩,
    .removeJobFromScheduled ⟨"a.drv"⟩,
    .removeJob ⟨stepA, 0⟩ "x86_64-linux",
    .insertNewJobs "x86_64-linux" [(stepA, {})] 0 (fun _ _ => .eq)]

/-- After that run the map holds a job that no queue points to. -/
theorem onePointer_fails :
    ¬∀ s, Lts.Reach next Lts.anyStep {} s → OnePointer s := by
  intro h
  have hend : (Lts.run next {} failedThenInserted).map (fun s =>
      (s.queues.jobs.lookup ⟨"a.drv"⟩, s.weakCount ⟨stepA, 1⟩)) =
      some (some ⟨stepA, 1⟩, 0) := by decide +kernel
  obtain ⟨s, hs, he⟩ := Option.map_eq_some_iff.mp hend
  simp only [Prod.mk.injEq] at he
  have hone := (h s (Lts.reach_of_run hs) _ _ he.1).1
  rw [he.2] at hone
  exact absurd hone (by decide)

end QueueState

end QueueRunner
