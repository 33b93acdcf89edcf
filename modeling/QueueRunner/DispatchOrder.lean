import QueueRunner.Lifetimes
import QueueRunner.Priorities
import QueueRunner.StepOrder

/-!
# The order in which jobs are dispatched

`process` walks over each queue from its head.  A queue is sorted in one
place only, at the end of `insert_new_jobs`, and `do_dispatch_once` calls
that for the systems of the runnable steps that were never tried.  What
the comparators read changes at any time: `update_priorities` raises
priorities, `create_step` adds dependents, and the shares of the jobsets
move with every step that ends.

`DispatchOrder` is the runner with its priorities and shares.  It keeps
the systems whose queue was disturbed: two of its live jobs changed places
in the order after the queue was last sorted.  `ordered_runs` says that the
queues are in order at the start of `process` when no queue is disturbed
at the end of the insertions.  A queue in which every step was tried stays
disturbed, because nothing sorts it.
-/

namespace QueueRunner

/-- The jobs of a queue that can be upgraded, in the order of dispatch. -/
def Runner.liveJobs (r : Runner) (system : System) : List InfoRef :=
  (r.queueJobs system).filter r.live

/-- The comparator that the dispatch loop hands to `insert_new_jobs`. -/
def Action.sortedBy (cmp : InfoRef → InfoRef → Ordering) : Action → Action
  | .dispatch ans => .dispatch { ans with cmp := cmp }
  | a => a

/-- The system whose queue the step sorts. -/
def Runner.sorts (r : Runner) (a : Action) : Option System :=
  match r.dispatcher, a with
  | .insert _ queues, .dispatch ans => if ans.system ∈ queues then some ans.system else none
  | _, _ => none

/-- The last `insert_new_jobs` of `do_dispatch_once` has returned. -/
def DispatchPc.insertsDone : DispatchPc → Bool
  | .insert _ queues => queues.keys.isEmpty
  | _ => false

/-- `do_dispatch_once` has left the loop over the collected jobs, and
`process` has not started. -/
def DispatchPc.pastInserts : DispatchPc → Bool
  | .scrub | .process => true
  | _ => false

/-- `do_dispatch_once` between the last `insert_new_jobs` and the start of
`process`. -/
def DispatchPc.beforeProcess (d : DispatchPc) : Bool := d.insertsDone || d.pastInserts

/-- `process` starts with the next step. -/
def DispatchPc.isProcess : DispatchPc → Bool
  | .process => true
  | _ => false

/-- The prioritised runner with the share that `get_lowest_share_used` of
each step gives, and the systems whose queue was disturbed. -/
structure DispatchOrder where
  world : Prioritised := {}
  share : StepRef → Int := fun _ => 0
  disturbed : List System := []

/-- The steps of the runner, and a change of the shares: usage is added to
the jobsets and pruned. -/
inductive OrderAction where
  | run (a : PriorityAction)
  | setShares (share : StepRef → Int)

/-- The step belongs to the dispatch loop. -/
def OrderAction.isDispatch : OrderAction → Bool
  | .run { action := .dispatch _, .. } => true
  | _ => false

namespace DispatchOrder

/-- What the comparators read of a job now.  `sort_jobs` stores the share
in the step info before it compares. -/
def keys (w : DispatchOrder) (i : InfoRef) : SortKeys where
  highestGlobalPriority := (w.world.step i.step).highestGlobalPriority
  lowestShareUsed := w.share i.step
  rdepsLen := (w.world.runner.shared.graph.step i.step).rdepsLen
  highestLocalPriority := (w.world.step i.step).highestLocalPriority
  lowestBuildId := (w.world.step i.step).lowestBuildId

/-- The selected comparator on the current keys. -/
def cmp (sortFn : StepSortFn) (w : DispatchOrder) : InfoRef → InfoRef → Ordering :=
  BuildQueue.cmpOn sortFn w.keys

/-- `scrube_jobs` leaves live pointers only, and `sort_jobs` refreshes the
share of every one of them.  So it does not matter which shares are in the
step infos: the queue is sorted by what the comparators read now. -/
theorem sortJobsNow_eq (sortFn : StepSortFn) (w : DispatchOrder) (cached : InfoRef → Int)
    {live : InfoRef → Bool} {q : BuildQueue} (hlive : ∀ j ∈ q.jobs, live j = true) :
    (q.sortJobsNow live (fun i => w.share i.step) sortFn
      (fun i => { w.keys i with lowestShareUsed := cached i })).2 =
        q.sortJobs live (w.cmp sortFn) := by
  have hkeys : ∀ j ∈ q.jobs, BuildQueue.updateStats live (fun i => w.share i.step) q.jobs
      (fun i => { w.keys i with lowestShareUsed := cached i }) j = w.keys j := by
    intro j hj
    rw [BuildQueue.updateStats_apply, if_pos ⟨hj, hlive j hj⟩]
    rfl
  simp only [BuildQueue.sortJobsNow, BuildQueue.sortJobs]
  congr 1
  apply Sorting.insertionSort_congr
  intro a ha b hb
  simp only [BuildQueue.sortLe, BuildQueue.cmpOn, cmp, hkeys a ha, hkeys b hb]

/-- The live jobs of the queue are in the order of the comparator. -/
def Ordered (sortFn : StepSortFn) (w : DispatchOrder) (system : System) : Prop :=
  (w.world.runner.liveJobs system).Pairwise (fun a b => w.cmp sortFn a b ≠ .gt)

/-- No two live jobs of the queue that were in order have come out of it. -/
def KeepsOrder (sortFn : StepSortFn) (w w' : DispatchOrder) (system : System) : Prop :=
  (w'.world.runner.liveJobs system).Pairwise
    (fun a b => w.cmp sortFn a b ≠ .gt → w'.cmp sortFn a b ≠ .gt)

instance (sortFn : StepSortFn) (w w' : DispatchOrder) (system : System) :
    Decidable (KeepsOrder sortFn w w' system) :=
  inferInstanceAs (Decidable (List.Pairwise _ _))

/-- The systems with a disturbed queue after the step from `w` to `w'`,
which sorts the queue of `sorted`. -/
def disturbedBy (sortFn : StepSortFn) (w w' : DispatchOrder) (sorted : Option System) :
    List System :=
  w'.world.runner.shared.queues.inner.keys.filter (fun system =>
    sorted ≠ some system ∧ (system ∈ w.disturbed ∨ ¬ KeepsOrder sortFn w w' system))

/-- The state after a step that sorts the queue of `sorted`. -/
def advance (sortFn : StepSortFn) (w w' : DispatchOrder) (sorted : Option System) :
    DispatchOrder :=
  { w' with disturbed := disturbedBy sortFn w w' sorted }

def next (cfg : Config) (sortFn : StepSortFn) (w : DispatchOrder) :
    OrderAction → Option DispatchOrder
  | .run a =>
    (w.world.next cfg { a with action := a.action.sortedBy (w.cmp sortFn) }).map (fun world =>
      w.advance sortFn { w with world := world } (w.world.runner.sorts a.action))
  | .setShares share => some (w.advance sortFn { w with share := share } none)

/-- Nothing but the dispatch loop moves between the insertions and
`process`. -/
def Quiet (w : DispatchOrder) (a : OrderAction) : Prop :=
  w.world.runner.dispatcher.beforeProcess = true → a.isDispatch = true

/-- When the insertions are over, no queue is disturbed. -/
def Undisturbed (w : DispatchOrder) (a : OrderAction) : Prop :=
  w.world.runner.dispatcher.insertsDone = true → a.isDispatch = true → w.disturbed = []

instance (w : DispatchOrder) (a : OrderAction) : Decidable (Quiet w a) :=
  inferInstanceAs (Decidable (_ → _))

instance (w : DispatchOrder) (a : OrderAction) : Decidable (Undisturbed w a) :=
  inferInstanceAs (Decidable (_ → _ → _))

/-- At the start of `process` every queue is in order. -/
def OrderedAtProcess (sortFn : StepSortFn) (w : DispatchOrder) : Prop :=
  w.world.runner.dispatcher.isProcess = true → ∀ system, w.Ordered sortFn system

end DispatchOrder

/-! ## The pointers of a queue

Only `insert_new_jobs` adds pointers to a queue and moves them; every other
step keeps some of them, in their order. -/

theorem InnerQueues.queueJobs_removeJob_sublist (q : InnerQueues) (held : InfoRef → Bool)
    (i : InfoRef) (system system' : System) :
    ((q.removeJob held i system).queueJobs system').Sublist (q.queueJobs system') := by
  rw [queueJobs_removeJob]
  split_ifs
  · exact List.filter_sublist
  · exact List.Sublist.refl _

theorem SameMarks.queueJobs_sublist {s s' : Shared} (h : SameMarks s s') (system : System) :
    (s'.queues.queueJobs system).Sublist (s.queues.queueJobs system) := by
  rw [h.queueJobs]

theorem DispatchStep.queueJobs_sublist {s s' : Shared} {held : InfoRef → Bool}
    {d d' : DispatchPc} (hs : DispatchStep s held d s' d')
    (hd : ∀ now queues, d ≠ .insert now queues) (system : System) :
    (s'.queues.queueJobs system).Sublist (s.queues.queueJobs system) := by
  cases hs with
  | other hm hinfo hwalk hcollected htodo => exact hm.queueJobs_sublist system
  | insert now queues system jobs cmp hjobs => exact absurd rfl (hd now queues)
  | scrub hinfo hwalk hcollected htodo =>
    rw [InnerQueues.queueJobs_removeAllWeakPointer]
    exact List.filter_sublist
  | skip hjobs hm => exact hm.queueJobs_sublist system
  | cancel hjobs hlive hflag hfin hdep hm => exact hm.queueJobs_sublist system
  | pick m job ans hjobs hlive hflag hfin hdep hmachine huuid hpath hm hnext =>
    exact hm.queueJobs_sublist system
  | advance hm hlate hlate' htarget => exact hm.queueJobs_sublist system
  | abandon hm hlate => exact hm.queueJobs_sublist system
  | schedule w i m job => rw [InnerQueues.queueJobs_addJobToScheduled]
  | remove w i => exact InnerQueues.queueJobs_removeJob_sublist ..
  | _ => exact List.Sublist.refl _

theorem CallStep.queueJobs_sublist {s s' : Shared} {held : InfoRef → Bool} {t : CallTask}
    {t' : Option CallTask} (hs : CallStep s held t s' t')
    (hjob : ∀ drv item, s.queues.scheduled.lookup drv = some item →
      (s.jobsOf item.machine).find? (fun j => j.path == drv) ≠ none)
    (system : System) : (s'.queues.queueJobs system).Sublist (s.queues.queueJobs system) := by
  cases hs with
  | quiet hstart hsame hinfos hpending hkeeps => exact hsame.queueJobs_sublist system
  | missing a rest hstart hp hlookup hinfos hpending hlast => exact List.Sublist.refl _
  | ends a rest item job hstart hp hends hinfos hpending hlast =>
    rw [hends.unscheduled.queueJobs]
  | jobMissing a rest item hstart hp hitem hnone => exact absurd hnone (hjob _ _ hitem)
  | removeJob i system' hstart hi hremoved hinfos hpending hlast =>
    exact (hremoved.queueJobs_sublist system).trans
      (InnerQueues.queueJobs_removeJob_sublist ..)

/-- A step that inserts no jobs. -/
theorem RunnerStep.queueJobs_sublist {cfg : Config} {r r' : Runner} {a : Action}
    (hok : RunnerOk cfg r) (hs : RunnerStep cfg r a r')
    (ha : ∀ now queues ans, r.dispatcher = .insert now queues → a ≠ .dispatch ans)
    (system : System) : (r'.queueJobs system).Sublist (r.queueJobs system) := by
  -- a task starts without a change of the queues
  have hspawn : ∀ (r₀ : Runner) {res : Shared × Option CallTask},
      res.1.queues = r₀.shared.queues →
      ((r₀.spawn res).queueJobs system).Sublist (r₀.queueJobs system) := by
    intro r₀ res hqueues
    rw [Runner.queueJobs, Runner.spawn_shared, hqueues]
  cases hs with
  | dispatch hres =>
    refine (dispatchStep_of_resume hres).queueJobs_sublist ?_ system
    intro now queues hd
    exact ha now queues _ hd rfl
  | call ht hres =>
    exact (callStep_of_resume hres).queueJobs_sublist
      (fun drv item hitem => hok.attempts.find_job hitem) system
  | completeBuild uuid machineId state report =>
    obtain ⟨results, hres, -⟩ := completeBuild_spec r.shared uuid machineId state report
    exact hspawn r (by rw [hres])
  | @endStream m hm =>
    obtain ⟨machines, task, hres, -⟩ := endStream_spec r.shared m
    exact hspawn { r with tunnels := r.tunnels.erase m } (by rw [hres])
  | queueChange curIds => exact hspawn r rfl
  | insertMachine uuid record sortFn =>
    obtain ⟨-, -, -, -, hqueue⟩ := r.shared.queues.ensureQueuesForSystems_frame record.systems
    show ((r.shared.queues.ensureQueuesForSystems record.systems).queueJobs system).Sublist _
    rw [hqueue]
  | _ => exact List.Sublist.refl _

/-- The live jobs of a queue whose pointers are kept in their order. -/
theorem RunnerStep.liveJobs_sublist {cfg : Config} {r r' : Runner} {a : Action}
    (hok : RunnerOk cfg r) (hs : RunnerStep cfg r a r') {system : System}
    (hsub : (r'.queueJobs system).Sublist (r.queueJobs system)) :
    (r'.liveJobs system).Sublist (r.liveJobs system) := by
  have hlive : ∀ i ∈ r'.queueJobs system, r'.live i = true → r.live i = true := by
    intro i hi hl
    have hgen := hok.pointers.queueFresh system i (hsub.mem hi)
    exact (hs.live_cases hok hl).resolve_right (fun hnew => absurd hnew.1 (not_le.mpr hgen))
  have hfilter : r'.liveJobs system = ((r'.queueJobs system).filter r.live).filter r'.live := by
    rw [Runner.liveJobs, List.filter_filter]
    apply List.filter_congr
    intro i hi
    cases hl : r'.live i with
    | false => rfl
    | true => rw [hlive i hi hl]; rfl
  rw [hfilter]
  exact List.filter_sublist.trans (hsub.filter _)

/-! ## The dispatch loop before `process` -/

/-- `do_dispatch_once` in its loop over the collected jobs. -/
theorem DispatchPc.resume_insert {cfg : Config} {s s' : Shared} {held : InfoRef → Bool}
    {now : Timestamp} {queues : NewQueues} {ans : Answer} {d' : DispatchPc}
    (h : (DispatchPc.insert now queues).resume cfg s held ans = some (s', d')) :
    (queues.keys = [] ∧ s' = s ∧ d' = .scrub) ∨
      ∃ jobs, queues.keys ≠ [] ∧ queues.lookup ans.system = some jobs ∧
        s' = { s with
          queues := s.queues.insertNewJobs held (fun r => (s.graph.step r).finished)
            ans.cmp ans.system jobs now } ∧
        d' = .insert now (queues.erase ans.system) := by
  simp only [DispatchPc.resume] at h
  split_ifs at h with hkeys
  · cases h
    exact Or.inl ⟨hkeys, rfl, rfl⟩
  · split at h
    · cases h
    · rename_i jobs hjobs
      cases h
      exact Or.inr ⟨jobs, hkeys, hjobs, rfl, rfl⟩

/-- A turn of `process` leads back into `process`. -/
theorem realiseStart_walk (cfg : Config) (s : Shared) (w : Walk) (i : InfoRef) (ans : Answer) :
    (realiseStart cfg s w i ans).2.walk? = some w := by
  unfold realiseStart
  dsimp only
  split
  · rfl
  · split <;> rfl

theorem walkStep_walk (cfg : Config) (s : Shared) (held : InfoRef → Bool) (w : Walk)
    (i : InfoRef) (ans : Answer) : (walkStep cfg s held w i ans).2.walk? = some w := by
  unfold walkStep
  split_ifs <;> first | rfl | exact realiseStart_walk cfg s w i ans

theorem realiseResume_walk (s : Shared) (held : InfoRef → Bool) (w : Walk) (i : InfoRef)
    (pc : RealisePc) (ans : Answer) : (realiseResume s held w i pc ans).2.walk? = some w := by
  cases pc <;> simp only [realiseResume] <;>
    first | rfl | (split <;> rfl)

/-- How the dispatch loop comes to the start of `process`. -/
theorem DispatchPc.resume_beforeProcess {cfg : Config} {s s' : Shared} {held : InfoRef → Bool}
    {d d' : DispatchPc} {ans : Answer} (h : d.resume cfg s held ans = some (s', d'))
    (hd : d'.pastInserts = true) :
    (∃ now queues, d = .insert now queues ∧ queues.keys = [] ∧ s' = s) ∨
      (d = .scrub ∧ s' = { s with queues := s.queues.removeAllWeakPointer held }) := by
  have hwalk : d'.walk? = none := by
    cases d' <;> first | rfl | cases hd
  cases d with
  | insert now queues =>
    rcases resume_insert h with ⟨hkeys, rfl, rfl⟩ | ⟨jobs, -, -, -, rfl⟩
    · exact Or.inl ⟨now, queues, rfl, hkeys, rfl⟩
    · cases hd
  | scrub =>
    cases h
    exact Or.inr ⟨rfl, rfl⟩
  | realise w i pc =>
    have hres := realiseResume_walk s held w i pc ans
    simp only [DispatchPc.resume, Option.some.injEq] at h
    rw [h, hwalk] at hres
    cases hres
  | walk w =>
    simp only [DispatchPc.resume] at h
    split at h
    · split_ifs at h
      cases h
      cases hd
    · cases h
      cases hwalk
    · rename_i i jobs hjobs
      have hres := walkStep_walk cfg s held { w with jobs := jobs } i ans
      simp only [Option.some.injEq] at h
      rw [h, hwalk] at hres
      cases hres
  | process =>
    simp only [DispatchPc.resume] at h
    split_ifs at h
    split at h <;> (cases h; cases hwalk)
  | abort now todo aborted =>
    cases todo with
    | nil =>
      cases h
      cases hd
    | cons r todo =>
      simp only [DispatchPc.resume, Option.some.injEq] at h
      unfold abortStep at h
      split_ifs at h
      · cases h
        cases hd
      · cases h
        cases hd
      · dsimp only at h
        split at h <;> (cases h; cases hd)
  | abortFail now todo aborted f =>
    simp only [DispatchPc.resume] at h
    split at h <;> (cases h; cases hd)
  | abortRemove aborted =>
    simp only [DispatchPc.resume] at h
    split_ifs at h <;> (cases h; cases hd)
  | collect now todo queues =>
    cases todo <;> (cases h; cases hd)
  | idle =>
    simp only [DispatchPc.resume] at h
    split_ifs at h
    cases h
    cases hd
  | abortScrub =>
    cases h
    cases hd

/-- A step of the dispatch loop among the collected jobs. -/
theorem RunnerStep.insert_cases {cfg : Config} {r r' : Runner} {ans : Answer}
    (hs : RunnerStep cfg r (.dispatch ans) r') {now : Timestamp} {queues : NewQueues}
    (hd : r.dispatcher = .insert now queues) :
    (queues.keys = [] ∧ r'.shared = r.shared) ∨
      ∃ jobs, queues.lookup ans.system = some jobs ∧
        r'.shared = { r.shared with
          queues := r.shared.queues.insertNewJobs r.held
            (fun s => (r.shared.graph.step s).finished) ans.cmp ans.system jobs now } := by
  cases hs with
  | dispatch hres =>
    rw [hd] at hres
    rcases DispatchPc.resume_insert hres with ⟨hkeys, rfl, -⟩ | ⟨jobs, -, hjobs, rfl, -⟩
    · exact Or.inl ⟨hkeys, rfl⟩
    · exact Or.inr ⟨jobs, hjobs, rfl⟩

/-- The queue that a step does not sort keeps its pointers in their
order. -/
theorem RunnerStep.queueJobs_sublist_of_sorts {cfg : Config} {r r' : Runner} {a : Action}
    {cmp : InfoRef → InfoRef → Ordering} (hok : RunnerOk cfg r)
    (hs : RunnerStep cfg r (a.sortedBy cmp) r') {system : System}
    (hne : r.sorts a ≠ some system) : (r'.queueJobs system).Sublist (r.queueJobs system) := by
  by_cases hinsert : ∃ now queues ans, r.dispatcher = .insert now queues ∧ a = .dispatch ans
  · obtain ⟨now, queues, ans, hd, rfl⟩ := hinsert
    rcases RunnerStep.insert_cases hs hd with ⟨-, hshared⟩ | ⟨jobs, hjobs, hshared⟩
    · rw [Runner.queueJobs, hshared]
    · have hmem : ans.system ∈ queues := AList.lookup_isSome.mp (by rw [hjobs]; rfl)
      have hother : system ≠ ans.system := by
        rintro rfl
        exact hne (by simp only [Runner.sorts, hd, if_pos hmem])
      rw [Runner.queueJobs, hshared]
      show (InnerQueues.queueJobs _ system).Sublist _
      rw [InnerQueues.queueJobs_insertNewJobs_of_ne _ _ _ _ _ _ _ hother]
  · refine hs.queueJobs_sublist hok ?_ system
    intro now queues ans hd ha
    apply hinsert
    cases a with
    | dispatch ans' => exact ⟨now, queues, ans', hd, rfl⟩
    | _ => cases ha

namespace DispatchOrder

variable {cfg : Config} {sortFn : StepSortFn} {w w' : DispatchOrder}

/-- What a step does to the runner, the priorities and the shares. -/
theorem next_run {a : PriorityAction} (h : w.next cfg sortFn (.run a) = some w') :
    ∃ r, RunnerStep cfg w.world.runner (a.action.sortedBy (w.cmp sortFn)) r ∧
      w' = w.advance sortFn
        { w with
          world := w.world.advance { a with action := a.action.sortedBy (w.cmp sortFn) } r }
        (w.world.runner.sorts a.action) := by
  obtain ⟨world, hworld, rfl⟩ := Option.map_eq_some_iff.mp h
  obtain ⟨r, hr, rfl⟩ := Option.map_eq_some_iff.mp hworld
  exact ⟨r, runnerStep_of_next hr, rfl⟩

/-- A queue that is not disturbed is in order. -/
theorem ordered_advance {sorted : Option System} {system : System}
    (hsub : sorted ≠ some system →
      (w'.world.runner.liveJobs system).Sublist (w.world.runner.liveJobs system))
    (hsorted : sorted = some system → w'.Ordered sortFn system)
    (hw : ∀ system, system ∉ w.disturbed → w.Ordered sortFn system)
    (h : system ∉ (w.advance sortFn w' sorted).disturbed) :
    (w.advance sortFn w' sorted).Ordered sortFn system := by
  show w'.Ordered sortFn system
  by_cases hs : sorted = some system
  · exact hsorted hs
  by_cases hmem : system ∈ w'.world.runner.shared.queues.inner
  · have hkeep : system ∉ w.disturbed ∧ KeepsOrder sortFn w w' system := by
      simp only [advance, disturbedBy, List.mem_filter, decide_eq_true_eq] at h
      by_contra hnot
      refine h ⟨AList.mem_keys.mp hmem, hs, ?_⟩
      by_cases hd : system ∈ w.disturbed
      · exact Or.inl hd
      · exact Or.inr (fun hk => hnot ⟨hd, hk⟩)
    have hbefore := (hw system hkeep.1).sublist (hsub hs)
    exact (hbefore.and hkeep.2).imp (fun hab => hab.2 hab.1)
  · have hnone : w'.world.runner.queueJobs system = [] := by
      simp only [Runner.queueJobs, InnerQueues.queueJobs, AList.lookup_eq_none.mpr hmem]
    rw [Ordered, Runner.liveJobs, hnone]
    exact List.Pairwise.nil

/-- A step of the dispatch loop that leaves the graph alone changes nothing
that the comparators read. -/
theorem cmp_dispatch (ans : Answer) {a : PriorityAction} (ha : a.action = .dispatch ans)
    {r : Runner} (hgraph : r.shared.graph = w.world.runner.shared.graph) :
    cmp sortFn { w with world := w.world.advance a r } = w.cmp sortFn := by
  have hkeys : keys { w with world := w.world.advance a r } = w.keys := by
    funext i
    simp only [keys, Prioritised.advance, ha, hgraph]
  rw [cmp, hkeys, cmp]

/-- The queue that a step sorts is in order after it. -/
theorem ordered_of_sorts {a : PriorityAction} {r : Runner}
    (hs : RunnerStep cfg w.world.runner (a.action.sortedBy (w.cmp sortFn)) r) {system : System}
    (hsorts : w.world.runner.sorts a.action = some system) :
    Ordered sortFn { w with
      world := w.world.advance { a with action := a.action.sortedBy (w.cmp sortFn) } r }
      system := by
  unfold Runner.sorts at hsorts
  split at hsorts
  case h_2 => cases hsorts
  rename_i now queues ans hd ha
  split_ifs at hsorts with hmem
  cases hsorts
  rw [ha] at hs ⊢
  rcases RunnerStep.insert_cases hs hd with ⟨hkeys, -⟩ | ⟨jobs, -, hshared⟩
  · have hkey := AList.mem_keys.mp hmem
    rw [hkeys] at hkey
    cases hkey
  · have : Std.TransCmp (w.cmp sortFn) :=
      inferInstanceAs (Std.TransCmp (BuildQueue.cmpOn sortFn w.keys))
    rw [Ordered, cmp_dispatch { ans with cmp := w.cmp sortFn } rfl (by rw [hshared])]
    simp only [Runner.liveJobs, Prioritised.advance_runner]
    refine List.Pairwise.filter _ ?_
    rw [Runner.queueJobs, hshared]
    exact InnerQueues.pairwise_insertNewJobs _ _ _ (w.cmp sortFn) ans.system jobs now

/-- Every queue that was not disturbed is in order. -/
def QueuesOrdered (sortFn : StepSortFn) (w : DispatchOrder) : Prop :=
  ∀ system, system ∉ w.disturbed → w.Ordered sortFn system

theorem QueuesOrdered.step (h : w.QueuesOrdered sortFn) (hok : RunnerOk cfg w.world.runner)
    {a : OrderAction} (hnext : w.next cfg sortFn a = some w') : w'.QueuesOrdered sortFn := by
  intro system hsystem
  cases a with
  | run a =>
    obtain ⟨r, hs, rfl⟩ := next_run hnext
    refine ordered_advance ?_ (ordered_of_sorts hs) h hsystem
    intro hne
    simp only [Prioritised.advance_runner]
    exact hs.liveJobs_sublist hok (hs.queueJobs_sublist_of_sorts hok hne)
  | setShares share =>
    cases hnext
    exact ordered_advance (fun _ => List.Sublist.refl _) nofun h hsystem

/-- While the comparators read the same, no queue is disturbed. -/
theorem disturbedBy_eq_nil (hw : w.disturbed = []) (hcmp : w'.cmp sortFn = w.cmp sortFn)
    (sorted : Option System) : disturbedBy sortFn w w' sorted = [] := by
  rw [disturbedBy, List.filter_eq_nil_iff]
  intro system _ hs
  simp only [hw, List.not_mem_nil, false_or, decide_eq_true_eq] at hs
  apply hs.2
  rw [KeepsOrder, hcmp]
  exact List.pairwise_of_forall (fun _ _ h => h)

/-- The queues are still undisturbed when `process` starts. -/
def SettledBeforeProcess (w : DispatchOrder) : Prop :=
  w.world.runner.dispatcher.pastInserts = true → w.disturbed = []

theorem SettledBeforeProcess.step (h : w.SettledBeforeProcess) {a : OrderAction}
    (hquiet : Quiet w a) (hok : Undisturbed w a) (hnext : w.next cfg sortFn a = some w') :
    w'.SettledBeforeProcess := by
  intro hpast
  have hdispatch : w.world.runner.dispatcher.pastInserts = true → a.isDispatch = true := by
    intro hd
    exact hquiet (by rw [DispatchPc.beforeProcess, hd, Bool.or_true])
  cases a with
  | setShares share =>
    cases hnext
    cases hdispatch hpast
  | run a =>
    obtain ⟨r, hs, rfl⟩ := next_run hnext
    simp only [advance, Prioritised.advance_runner] at hpast
    obtain ⟨action, rows, priorities⟩ := a
    by_cases ha : ∃ ans, action = .dispatch ans
    · obtain ⟨ans, rfl⟩ := ha
      have hshared : w.disturbed = [] ∧ r.shared.graph = w.world.runner.shared.graph := by
        cases hs with
        | dispatch hres =>
          rcases DispatchPc.resume_beforeProcess hres hpast with
            ⟨now, queues, hd, hkeys, rfl⟩ | ⟨hd, rfl⟩
          · refine ⟨hok ?_ rfl, rfl⟩
            rw [hd]
            show queues.keys.isEmpty = true
            rw [hkeys]
            rfl
          · exact ⟨h (by rw [hd]; rfl), rfl⟩
      exact disturbedBy_eq_nil hshared.1
        (cmp_dispatch { ans with cmp := w.cmp sortFn } rfl hshared.2) _
    · have hsame : action.sortedBy (w.cmp sortFn) = action := by
        cases action with
        | dispatch ans => exact absurd ⟨ans, rfl⟩ ha
        | _ => rfl
      simp only [hsame] at hs
      rw [hs.dispatcher_eq (fun ans he => ha ⟨ans, he⟩)] at hpast
      have hfalse := hdispatch hpast
      cases action with
      | dispatch ans => exact absurd ⟨ans, rfl⟩ ha
      | _ => cases hfalse

theorem reach_runner {ok : DispatchOrder → OrderAction → Prop}
    (h : Lts.Reach (next cfg sortFn) ok {} w) :
    Lts.Reach (Runner.next cfg) Lts.anyStep {} w.world.runner := by
  induction h with
  | refl => exact .refl
  | @step w w' a _ _ hnext ih =>
    cases a with
    | setShares share =>
      cases hnext
      exact ih
    | run a =>
      obtain ⟨world, hworld, rfl⟩ := Option.map_eq_some_iff.mp hnext
      obtain ⟨r, hr, rfl⟩ := Option.map_eq_some_iff.mp hworld
      simp only [advance, Prioritised.advance_runner]
      exact .step _ ih trivial hr

end DispatchOrder

/-- In every run in which nothing changes between the insertions and
`process`, and no queue is disturbed at the end of the insertions, the live
jobs of every queue are in the order of the comparator when `process`
starts. -/
theorem ordered_runs {cfg : Config} {sortFn : StepSortFn} {w : DispatchOrder}
    (h : Lts.Reach (DispatchOrder.next cfg sortFn)
      (fun w a => w.Quiet a ∧ w.Undisturbed a) {} w) : w.OrderedAtProcess sortFn := by
  have hinv : w.QueuesOrdered sortFn ∧ w.SettledBeforeProcess := by
    refine h.invariant_of_reach
      (I := fun w => w.QueuesOrdered sortFn ∧ w.SettledBeforeProcess) ?_ ?_
    · exact ⟨fun system _ => List.Pairwise.nil, nofun⟩
    · intro w a w' hreach hw hok hnext
      have hrunner := RunnerOk.reach (DispatchOrder.reach_runner hreach)
      exact ⟨hw.1.step hrunner hnext, hw.2.step hok.1 hok.2 hnext⟩
  intro hprocess system
  have hpast : w.world.runner.dispatcher.pastInserts = true := by
    generalize w.world.runner.dispatcher = d at hprocess
    cases d <;> first | rfl | cases hprocess
  exact hinv.1 system (by rw [hinv.2 hpast]; exact List.not_mem_nil)

/-! ## Two steps of one system -/

namespace TwoSteps

def first : InfoRef := ⟨Sample.step, 0⟩

def second : InfoRef := ⟨⟨⟨"b.drv"⟩, 3⟩, 1⟩

/-- A machine for two jobs, and a build of each derivation. -/
def created : List Action :=
  .insertMachine 0 { systems := ["x86_64-linux"], maxJobs := 2 } .speedFactorOnly ::
  Sample.created ++
  [Action.create (.startPass [(2, second.drvPath)]) {},
    .create (.resumePass 3) {},
    .create (.resumeBuild 4) {},
    .create (.resumeStep 5) {},
    .create (.resumeStep 5) { store := fun _ => false },
    .create (.resumeStep 5) {},
    .create (.resumeStep 5) {},
    .create (.resumeBuild 4) { ids := [2] },
    .create (.startNested 4) {},
    .create (.resumeBuild 4) {},
    .create (.resumePass 3) {},
    .create (.resumePass 3) { steps := [first.step, second.step] }]

/-- A pass of the dispatch loop up to `process`. -/
def inserted : List Action :=
  [.dispatch { steps := [first.step, second.step] },
    .dispatch {},
    .dispatch {},
    .dispatch {},
    .dispatch { system := "x86_64-linux" },
    .dispatch {},
    .dispatch {}]

/-- Both jobs are sent, and both fail and may be tried again. -/
def tried : List Action :=
  .dispatch { systems := ["x86_64-linux"] } :: List.replicate 12 (Action.dispatch {}) ++
  [Action.completeBuild 0 0 .importFailure {}, .call 0 {}, .call 0 {},
    .completeBuild 1 0 .importFailure {}, .call 1 {}, .call 1 {},
    .dispatch { steps := [first.step, second.step] },
    .dispatch {},
    .dispatch {},
    .dispatch {},
    .dispatch {},
    .dispatch {}]

/-- A pass up to `process` that collects nothing. -/
def notInserted : List Action :=
  [.dispatch { steps := [first.step, second.step] },
    .dispatch {},
    .dispatch {},
    .dispatch {},
    .dispatch {},
    .dispatch {}]

/-- The priority of the second build is raised to ten. -/
def raised : OrderAction :=
  .run { action := .queueChange [1, 2], priorities := fun id => if id = 2 then 10 else 0 }

def run (as : List Action) : List OrderAction := as.map (fun a => .run { action := a })

end TwoSteps

/-- The priority is raised before the jobs are inserted. -/
theorem ordered_runs_raised : ∃ w, Lts.Reach (DispatchOrder.next Sample.config .legacy)
    (fun w a => w.Quiet a ∧ w.Undisturbed a) {} w ∧
      w.world.runner.liveJobs "x86_64-linux" = [TwoSteps.second, TwoSteps.first] ∧
      w.world.runner.dispatcher.isProcess = true ∧ w.OrderedAtProcess .legacy := by
  have hrun : (Lts.runWith (DispatchOrder.next Sample.config .legacy)
      (fun w a => w.Quiet a ∧ w.Undisturbed a) {}
      (TwoSteps.run TwoSteps.created ++ TwoSteps.raised ::
        TwoSteps.run TwoSteps.inserted)).map
      (fun w => (w.world.runner.liveJobs "x86_64-linux",
        w.world.runner.dispatcher.isProcess)) =
      some ([TwoSteps.second, TwoSteps.first], true) := by decide +kernel
  obtain ⟨w, hw, hend⟩ := Option.map_eq_some_iff.mp hrun
  obtain ⟨hjobs, hprocess⟩ := Prod.mk.inj hend
  have hreach := Lts.reach_of_runWith hw
  exact ⟨w, hreach, hjobs, hprocess, ordered_runs hreach⟩

/-- The priority is raised after both steps were tried: the next pass
inserts nothing, and the queue keeps its old order. -/
theorem ordered_fails_tried : ∃ w, Lts.Reach (DispatchOrder.next Sample.config .legacy)
    DispatchOrder.Quiet {} w ∧
      w.world.runner.liveJobs "x86_64-linux" = [TwoSteps.first, TwoSteps.second] ∧
      w.cmp .legacy TwoSteps.first TwoSteps.second = .gt ∧ ¬ w.OrderedAtProcess .legacy := by
  have hrun : (Lts.runWith (DispatchOrder.next Sample.config .legacy) DispatchOrder.Quiet {}
      (TwoSteps.run (TwoSteps.created ++ TwoSteps.inserted ++ TwoSteps.tried) ++
        TwoSteps.raised :: TwoSteps.run TwoSteps.notInserted)).map
      (fun w => (w.world.runner.liveJobs "x86_64-linux",
        w.cmp .legacy TwoSteps.first TwoSteps.second,
        w.world.runner.dispatcher.isProcess)) =
      some ([TwoSteps.first, TwoSteps.second], .gt, true) := by decide +kernel
  obtain ⟨w, hw, hend⟩ := Option.map_eq_some_iff.mp hrun
  simp only [Prod.mk.injEq] at hend
  obtain ⟨hjobs, hcmp, hprocess⟩ := hend
  refine ⟨w, Lts.reach_of_runWith hw, hjobs, hcmp, fun hordered => ?_⟩
  have hpair := hordered hprocess "x86_64-linux"
  rw [DispatchOrder.Ordered, hjobs, List.pairwise_pair] at hpair
  exact hpair hcmp

end QueueRunner
