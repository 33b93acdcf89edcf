import QueueRunner.Removal

/-!
# Cancellation

`kill_active_steps` walks over a copy of `scheduled` and cancels the items
that no build depends on any more.  It marks the step info as cancelled,
sends an abort message, and returns the items for which that worked; then
`process_queue_change` fails them.  An item that is marked is never looked
at again, and no mark is taken back.

The mark belongs to the step info, which outlives the attempt.  So an item
is overlooked when its info was cancelled for an earlier attempt and
dispatched again, or when the abort message of its own attempt could not
be sent.
-/

namespace QueueRunner

/-- The task runs `process_queue_change`. -/
def CallTask.ofQueueChange : CallTask → Bool
  | .killStart | .kill _ _ | .killAbort _ _ _ _ => true
  | .fail _ _ (.queueChange _) => true
  | _ => false

/-- The queue monitor waits for each `process_queue_change`. -/
def OneQueueChange (r : Runner) : Action → Prop
  | .queueChange _ => ∀ task ∈ r.calls.values, task.ofQueueChange = false
  | _ => True

/-- The step info that the dispatch loop is about to schedule. -/
def DispatchPc.schedules : DispatchPc → Option InfoRef
  | .realise _ i (.schedule _ _) => some i
  | _ => none

/-- The mark of a step info. -/
def InnerQueues.cancelled (q : InnerQueues) (i : InfoRef) : Bool := (q.info i).cancelled

/-- When the call marks an item, its machine has the job or the info is not
scheduled; and when it gives up an abort message, its derivation is not
scheduled with a marked info. -/
def CallTask.CancelsFor (s : Shared) : CallTask → Prop
  | .kill ((drv, item) :: _) _ =>
    s.queues.cancelled item.stepInfo = false →
    (s.graph.getDependents item.stepInfo.step).builds = [] →
    (s.machines.machine item.machine).getInternalBuildIdForDrv drv = none →
    ∀ item' ∈ s.queues.scheduled.lookup drv, item'.stepInfo ≠ item.stepInfo
  | .killAbort a m _ _ => (s.machines.machine m).receiverOpen = false →
    ∀ item ∈ s.queues.scheduled.lookup a.drv, s.queues.cancelled item.stepInfo = false
  | _ => True

/-- No step info is dispatched that was cancelled before, and the abort
messages are sent. -/
def CancelsOnce (r : Runner) : Action → Prop
  | .dispatch _ => ∀ i ∈ r.dispatcher.schedules, r.shared.queues.cancelled i = false
  | .call t _ => ∀ task ∈ r.calls.lookup t, task.CancelsFor r.shared
  | _ => True

instance (r : Runner) (a : Action) : Decidable (OneQueueChange r a) :=
  match a with
  | .queueChange _ =>
    inferInstanceAs (Decidable (∀ task ∈ r.calls.values, task.ofQueueChange = false))
  | .dispatch _ | .call _ _ | .completeBuild _ _ _ _ | .create _ _ | .endStream _
  | .insertMachine _ _ _ | .dropStep _ | .dropBuild _ => inferInstanceAs (Decidable True)

instance (s : Shared) (task : CallTask) : Decidable (task.CancelsFor s) :=
  match task with
  | .kill ((drv, item) :: _) _ => inferInstanceAs (Decidable
      (s.queues.cancelled item.stepInfo = false →
        (s.graph.getDependents item.stepInfo.step).builds = [] →
        (s.machines.machine item.machine).getInternalBuildIdForDrv drv = none →
        ∀ item' ∈ s.queues.scheduled.lookup drv, item'.stepInfo ≠ item.stepInfo))
  | .killAbort a m _ _ => inferInstanceAs (Decidable
      ((s.machines.machine m).receiverOpen = false →
        ∀ item ∈ s.queues.scheduled.lookup a.drv, s.queues.cancelled item.stepInfo = false))
  | .succeed _ _ _ | .fail _ _ _ | .killStart | .kill [] _ | .tunnelClose _ =>
    inferInstanceAs (Decidable True)

instance (r : Runner) (a : Action) : Decidable (CancelsOnce r a) :=
  match a with
  | .dispatch _ => inferInstanceAs (Decidable
      (∀ i ∈ r.dispatcher.schedules, r.shared.queues.cancelled i = false))
  | .call t _ => inferInstanceAs (Decidable
      (∀ task ∈ r.calls.lookup t, task.CancelsFor r.shared))
  | .completeBuild _ _ _ _ | .create _ _ | .endStream _ | .queueChange _
  | .insertMachine _ _ _ | .dropStep _ | .dropBuild _ => inferInstanceAs (Decidable True)

/-- `kill_active_steps` comes to every item that is scheduled when it starts.
It cancels one that is still scheduled, that no build depends on and whose
machine has the job: the machine is sent an abort message, and when that has
been sent the attempt is among those that `process_queue_change` fails. -/
structure CancellationEffective (cfg : Config) (r : Runner) : Prop where
  snapshot : ∀ t ans r', r.calls.lookup t = some .killStart →
    r.next cfg (.call t ans) = some r' →
    ∃ todo, r'.calls.lookup t = some (.kill todo []) ∧
      ∀ drv item, r.shared.queues.scheduled.lookup drv = some item → (drv, item) ∈ todo
  chosen : ∀ t drv item todo cancelled uuid ans r',
    r.calls.lookup t = some (.kill ((drv, item) :: todo) cancelled) →
    r.shared.queues.scheduled.lookup drv = some item →
    (r.shared.graph.getDependents item.stepInfo.step).builds = [] →
    (r.shared.machines.machine item.machine).getInternalBuildIdForDrv drv = some uuid →
    r.next cfg (.call t ans) = some r' →
    r'.calls.lookup t = some (.killAbort ⟨uuid, item.machine.id, drv⟩ item.machine
      todo cancelled)
  returned : ∀ t a m todo cancelled ans r',
    r.calls.lookup t = some (.killAbort a m todo cancelled) →
    (r.shared.machines.machine m).receiverOpen = true →
    r.next cfg (.call t ans) = some r' →
    r'.calls.lookup t = some (.kill todo (cancelled ++ [a]))
  failed : ∀ t a cancelled ans r',
    r.calls.lookup t = some (.kill [] (a :: cancelled)) →
    r.next cfg (.call t ans) = some r' →
    r'.calls.lookup t = some (.fail a (.start .cancelled {}) (.queueChange cancelled))

/-! ## The marks -/

/-- The marks of the step infos that exist stay as they are. -/
def InnerQueues.SameCancelled (q q' : InnerQueues) : Prop :=
  ∀ i : InfoRef, i.gen < q.fresh → q'.cancelled i = q.cancelled i

namespace InnerQueues

variable (q : InnerQueues)

theorem cancelled_setAlreadyScheduled (i j : InfoRef) (v : Bool) :
    (q.setAlreadyScheduled i v).cancelled j = q.cancelled j := by
  by_cases h : j = i
  · subst h
    simp [cancelled, setAlreadyScheduled, modifyInfo]
  · simp [cancelled, setAlreadyScheduled, modifyInfo, h]

theorem cancelled_modifyQueue (system : System) (f : BuildQueue → BuildQueue)
    (j : InfoRef) : (q.modifyQueue system f).cancelled j = q.cancelled j := by
  rw [cancelled, modifyQueue_info, cancelled]

theorem cancelled_addJobToScheduled (i : InfoRef) (system : System) (m : MachineRef)
    (j : InfoRef) : (q.addJobToScheduled i system m).cancelled j = q.cancelled j := by
  rw [addJobToScheduled, cancelled_modifyQueue, cancelled_setAlreadyScheduled]
  rfl

theorem cancelled_removeJob (held : InfoRef → Bool) (i : InfoRef) (system : System)
    (j : InfoRef) : (q.removeJob held i system).cancelled j = q.cancelled j := by
  rw [removeJob, cancelled_modifyQueue]
  rfl

theorem cancelled_removeJobFromScheduled {drv : StorePath} {item : ScheduledItem}
    {q' : InnerQueues} (h : q.removeJobFromScheduled drv = some (item, q')) (j : InfoRef) :
    q'.cancelled j = q.cancelled j := by
  unfold removeJobFromScheduled at h
  split at h
  · cases h
  · cases h
    rw [cancelled_modifyQueue, cancelled_setAlreadyScheduled]
    rfl

theorem cancelled_setCancelled (i j : InfoRef) :
    (q.setCancelled i true).cancelled j = if j = i then true else q.cancelled j := by
  by_cases h : j = i
  · subst h
    simp [cancelled, setCancelled, modifyInfo]
  · simp [cancelled, setCancelled, modifyInfo, h]

end InnerQueues

namespace InnerQueues.SameCancelled

variable {q q' : InnerQueues}

theorem refl (q : InnerQueues) : q.SameCancelled q := fun _ _ => rfl

theorem of_forall (h : ∀ i, q'.cancelled i = q.cancelled i) : q.SameCancelled q' :=
  fun i _ => h i

theorem insertNewJobs (q : InnerQueues) (held : InfoRef → Bool) (finished : StepRef → Bool)
    (cmp : InfoRef → InfoRef → Ordering) (system : System)
    (jobs : List (StepRef × StepInfo)) (now : Timestamp) :
    q.SameCancelled (q.insertNewJobs held finished cmp system jobs now) := by
  intro i hi
  rw [cancelled, insertNewJobs_info, (submitted_submitJobs q finished jobs).info_old i hi,
    cancelled]

end InnerQueues.SameCancelled

theorem InnerFail.start_queues (s : Shared) (step : StepRef) (job : Job) :
    (start s step job).1.queues = s.queues := by
  rw [start_shared]

theorem InnerFail.resume_queues (s : Shared) (f : InnerFail) (ans : Answer) :
    (f.resume s ans).1.queues = s.queues := by
  rw [resume_shared]

/-- The dispatch loop marks nothing as cancelled. -/
theorem dispatch_sameCancelled {cfg : Config} {s s' : Shared} {held : InfoRef → Bool}
    {d d' : DispatchPc} {ans : Answer}
    (h : d.resume cfg s held ans = some (s', d')) : s.queues.SameCancelled s'.queues := by
  cases dispatchEffect_of_resume h with
  | insertNewJobs system jobs now =>
    exact InnerQueues.SameCancelled.insertNewJobs s.queues _ _ _ _ _ _
  | schedule i system m => exact .of_forall (s.queues.cancelled_addJobToScheduled i system m)
  | remove i system => exact .of_forall (s.queues.cancelled_removeJob held i system)
  | _ => exact .refl _

theorem failDecide_cancelled (cfg : Config) (s : Shared) (a : Attempt)
    (item : ScheduledItem) (job : Job) (state : BuildResultState)
    (timings : BuildTimings) (caller : Caller) (ans : Answer) (j : InfoRef) :
    (failDecide cfg s a item job state timings caller ans).1.queues.cancelled j =
      s.queues.cancelled j := by
  unfold failDecide
  simp only
  split
  · rfl
  · rename_i result hresult
    by_cases hretry : result.canRetry = true
    · simp only [hretry, if_true, true_and]
      split_ifs
      · exact InnerQueues.cancelled_setAlreadyScheduled _ _ _ _
      · rfl
    · simp only [hretry, Bool.false_eq_true, if_false, false_and]

/-- One turn of `kill_active_steps` skips an item, or marks it and sends an
abort message when its machine has the job. -/
theorem killResume_cases (s : Shared) (drv : StorePath) (item : ScheduledItem)
    (todo : List (StorePath × ScheduledItem)) (cancelled : List Attempt) :
    (killResume s drv item todo cancelled = (s, some (.kill todo cancelled)) ∧
      (s.queues.cancelled item.stepInfo = true ∨
        (s.graph.getDependents item.stepInfo.step).builds ≠ [])) ∨
    (s.queues.cancelled item.stepInfo = false ∧
      (s.graph.getDependents item.stepInfo.step).builds = [] ∧
      ((∃ uuid, (s.machines.machine item.machine).getInternalBuildIdForDrv drv = some uuid ∧
          killResume s drv item todo cancelled =
            ({ s with queues := s.queues.setCancelled item.stepInfo true },
              some (.killAbort ⟨uuid, item.machine.id, drv⟩ item.machine todo cancelled))) ∨
        (s.machines.machine item.machine).getInternalBuildIdForDrv drv = none ∧
          killResume s drv item todo cancelled =
            ({ s with queues := s.queues.setCancelled item.stepInfo true },
              some (.kill todo cancelled)))) := by
  unfold killResume InnerQueues.cancelled
  by_cases hmark : (s.queues.info item.stepInfo).cancelled = true
  · rw [if_pos hmark]
    exact Or.inl ⟨rfl, Or.inl hmark⟩
  by_cases hdep : (s.graph.getDependents item.stepInfo.step).builds ≠ []
  · rw [if_neg hmark, if_pos hdep]
    exact Or.inl ⟨rfl, Or.inr hdep⟩
  rw [if_neg hmark, if_neg hdep]
  refine Or.inr ⟨by simpa using hmark, by simpa using hdep, ?_⟩
  simp only
  cases hjob : (s.machines.machine item.machine).getInternalBuildIdForDrv drv with
  | some uuid => exact Or.inl ⟨uuid, rfl, rfl⟩
  | none => exact Or.inr ⟨rfl, rfl⟩

/-- Only `kill_active_steps` marks a step info, and only one that no build
depends on. -/
theorem CallTask.cancelled_of_resume {cfg : Config} {s : Shared} {held : InfoRef → Bool}
    {t : CallTask} {ans : Answer} {res : Shared × Option CallTask}
    (h : t.resume cfg s held ans = some res) (j : InfoRef) :
    res.1.queues.cancelled j = s.queues.cancelled j ∨
      ∃ drv item todo cancelled, t = .kill ((drv, item) :: todo) cancelled ∧
        j = item.stepInfo ∧ s.queues.cancelled j = false ∧
        (s.graph.getDependents item.stepInfo.step).builds = [] := by
  cases t with
  | succeed a report pc =>
    simp only [resume, Option.some.injEq] at h
    subst h
    left
    cases pc with
    | start =>
      simp only [succeedResume, succeedStart]
      cases hq : s.queues.removeJobFromScheduled a.drv with
      | none => rfl
      | some found =>
        obtain ⟨item, queues⟩ := found
        simp only
        have hc := s.queues.cancelled_removeJobFromScheduled hq j
        split <;> exact hc
    | removeJob item job =>
      simp only [succeedResume]
      have hc := s.queues.cancelled_removeJob held item.stepInfo item.buildQueue j
      split <;> exact hc
    | finishBuildStep item job =>
      simp only [succeedResume]
      split_ifs <;> rfl
    | markSucceeded item direct =>
      simp only [succeedResume]
      split_ifs <;> rfl
    | notify item =>
      simp only [succeedResume]
      split_ifs <;> rfl
  | fail a pc caller =>
    simp only [resume, Option.some.injEq] at h
    subst h
    left
    cases pc with
    | start state timings =>
      simp only [failResume, failStart]
      cases hq : s.queues.removeJobFromScheduled a.drv with
      | none => rfl
      | some found =>
        obtain ⟨item, queues⟩ := found
        simp only
        have hc := s.queues.cancelled_removeJobFromScheduled hq j
        split
        · exact hc
        · rw [failDecide_cancelled]
          exact hc
    | retry item job => rfl
    | removeJob item job =>
      simp only [failResume, InnerFail.start_queues]
      exact s.queues.cancelled_removeJob held item.stepInfo item.buildQueue j
    | inner item f =>
      have hq := InnerFail.resume_queues s f ans
      simp only [failResume]
      split <;> rename_i heq <;> rw [heq] at hq <;> simp only at hq
      · simp only [hq]
      · simp only [Shared.record, hq]
  | killStart =>
    simp only [resume] at h
    split_ifs at h
    cases h
    exact Or.inl rfl
  | kill todo cancelled =>
    cases todo with
    | nil => cases h; exact Or.inl rfl
    | cons e todo =>
      obtain ⟨drv, item⟩ := e
      simp only [resume, Option.some.injEq] at h
      subst h
      rcases killResume_cases s drv item todo cancelled with ⟨hkill, -⟩ |
        ⟨hmark, hdep, hkill⟩
      · rw [hkill]
        exact Or.inl rfl
      · have hq : (killResume s drv item todo cancelled).1.queues =
            s.queues.setCancelled item.stepInfo true := by
          rcases hkill with ⟨uuid, -, hkill⟩ | ⟨-, hkill⟩ <;> rw [hkill]
        rw [hq, InnerQueues.cancelled_setCancelled]
        split_ifs with hj
        · exact Or.inr ⟨drv, item, todo, cancelled, rfl, hj, hj ▸ hmark, hdep⟩
        · exact Or.inl rfl
  | killAbort a m todo cancelled =>
    simp only [resume] at h
    split_ifs at h <;> cases h <;> exact Or.inl rfl
  | tunnelClose m => cases h; exact Or.inl rfl

/-! ## One `process_queue_change` -/

theorem Caller.next_ofQueueChange {caller : Caller} {u : CallTask} (h : caller.next = some u)
    (a : Attempt) (pc : FailPc) : u.ofQueueChange = (CallTask.fail a pc caller).ofQueueChange := by
  cases caller with
  | rpc => cases h
  | tunnel m rest => cases rest <;> cases h <;> rfl
  | queueChange rest =>
    cases rest with
    | nil => cases h
    | cons a rest =>
      cases h
      rfl

/-- A call stays what it is until it returns. -/
theorem CallTask.ofQueueChange_of_resume {cfg : Config} {s : Shared} {held : InfoRef → Bool}
    {t : CallTask} {ans : Answer} {res : Shared × Option CallTask}
    (h : t.resume cfg s held ans = some res) :
    ∀ u, res.2 = some u → u.ofQueueChange = t.ofQueueChange := by
  intro u hu
  cases t with
  | succeed a report pc =>
    cases h
    obtain ⟨pc', rfl, -⟩ := succeedResume_task hu
    rfl
  | fail a pc caller =>
    cases h
    rcases failResume_task hu with ⟨pc', rfl, -⟩ | hu
    · cases caller <;> rfl
    · exact Caller.next_ofQueueChange hu a _
  | killStart =>
    simp only [resume] at h
    split_ifs at h
    cases h
    cases hu
    rfl
  | kill todo cancelled =>
    cases todo with
    | nil =>
      cases h
      cases cancelled with
      | nil => cases hu
      | cons a cancelled =>
        cases hu
        rfl
    | cons e todo =>
      obtain ⟨drv, item⟩ := e
      cases h
      rcases killResume_cases s drv item todo cancelled with
        ⟨hkill, -⟩ | ⟨-, -, ⟨uuid, -, hkill⟩ | ⟨-, hkill⟩⟩ <;>
      · rw [hkill] at hu
        cases hu
        rfl
  | killAbort a m todo cancelled =>
    simp only [resume] at h
    split_ifs at h <;> cases h <;> cases hu <;> rfl
  | tunnelClose m =>
    cases h
    cases hu

/-- The snapshot of `kill_active_steps` has one entry for each derivation, and
the derivations that it has left behind do not come again. -/
def CallTask.Snapshot : CallTask → Prop
  | .kill todo cancelled =>
    (todo.map Prod.fst ++ cancelled.map Attempt.drv).Nodup ∧
      ∀ e ∈ todo, e.2.stepInfo.drvPath = e.1
  | .killAbort a _ todo cancelled =>
    (todo.map Prod.fst ++ (cancelled ++ [a]).map Attempt.drv).Nodup ∧
      ∀ e ∈ todo, e.2.stepInfo.drvPath = e.1
  | _ => True

/-- A `process_queue_change` is going to fail an attempt of `drv`. -/
def Runner.Cancels (r : Runner) (drv : StorePath) : Prop :=
  ∃ t task, r.calls.lookup t = some task ∧ task.ofQueueChange = true ∧
    ∃ a ∈ task.pending, a.drv = drv

/-- Each item with a mark is about to be failed, by the one call that marks
items. -/
structure Cancellations (r : Runner) : Prop where
  marked : ∀ drv item, r.item drv = some item →
    r.shared.queues.cancelled item.stepInfo = true → r.Cancels drv
  snapshot : ∀ t task, r.calls.lookup t = some task → task.Snapshot
  unique : ∀ t task t' task', r.calls.lookup t = some task → r.calls.lookup t' = some task' →
    task.ofQueueChange = true → task'.ofQueueChange = true → t = t'

theorem CallTask.snapshot_of_ofQueueChange {t : CallTask} (h : t.ofQueueChange = false) :
    t.Snapshot := by
  cases t with
  | kill todo cancelled => cases h
  | killAbort a m todo cancelled => cases h
  | _ => trivial

/-- The copy of `scheduled` is a snapshot, and every turn leaves one. -/
theorem CallTask.snapshot_of_resume {cfg : Config} {s : Shared} {held : InfoRef → Bool}
    {t : CallTask} {ans : Answer} {res : Shared × Option CallTask}
    (h : t.resume cfg s held ans = some res) (ht : t.Snapshot)
    (hitem : ∀ drv item, s.queues.scheduled.lookup drv = some item →
      item.stepInfo.drvPath = drv) : ∀ u, res.2 = some u → u.Snapshot := by
  have hnext : ∀ {caller : Caller} {u}, caller.next = some u → u.Snapshot := by
    intro caller u hu
    cases caller with
    | rpc => cases hu
    | tunnel m rest => cases rest <;> (cases hu; trivial)
    | queueChange rest => cases rest <;> (cases hu; try trivial)
  intro u hu
  cases t with
  | killStart =>
    simp only [resume] at h
    split_ifs at h with hperm
    cases h
    cases hu
    have hkeys : (ans.scheduled.map Prod.fst).Perm s.queues.scheduled.keys := by
      have := hperm.map Sigma.fst
      simpa [List.map_map, Function.comp_def, AList.keys, List.keys] using this
    refine ⟨by simpa using hkeys.nodup_iff.mpr s.queues.scheduled.keys_nodup, ?_⟩
    intro e he
    refine hitem e.1 e.2 (AList.mem_lookup_iff.mpr ?_)
    exact hperm.mem_iff.mp (List.mem_map.mpr ⟨e, he, rfl⟩)
  | kill todo cancelled =>
    cases todo with
    | nil =>
      cases h
      exact hnext hu
    | cons e todo =>
      obtain ⟨drv, item⟩ := e
      cases h
      obtain ⟨hnodup, hdrv⟩ := ht
      have hdrv' : ∀ e ∈ todo, e.2.stepInfo.drvPath = e.1 := fun e he =>
        hdrv e (List.mem_cons_of_mem _ he)
      have hrest : (CallTask.kill todo cancelled).Snapshot :=
        ⟨(List.nodup_cons.mp hnodup).2, hdrv'⟩
      rcases killResume_cases s drv item todo cancelled with
        ⟨hkill, -⟩ | ⟨-, -, ⟨uuid, -, hkill⟩ | ⟨-, hkill⟩⟩
      · rw [hkill] at hu
        cases hu
        exact hrest
      · rw [hkill] at hu
        cases hu
        refine ⟨?_, hdrv'⟩
        -- the derivation moves from the front to the end
        have hperm : (todo.map Prod.fst ++
            (cancelled ++ [(⟨uuid, item.machine.id, drv⟩ : Attempt)]).map Attempt.drv).Perm
            (((drv, item) :: todo).map Prod.fst ++ cancelled.map Attempt.drv) := by
          simp only [List.map_append, List.map_cons, List.map_nil, ← List.append_assoc]
          exact List.perm_append_singleton _ _
        exact hperm.nodup_iff.mpr hnodup
      · rw [hkill] at hu
        cases hu
        exact hrest
  | killAbort a m todo cancelled =>
    obtain ⟨hnodup, hdrv⟩ := ht
    simp only [resume] at h
    split_ifs at h
    · cases h
      cases hu
      exact ⟨hnodup, hdrv⟩
    · cases h
      cases hu
      refine ⟨hnodup.sublist ?_, hdrv⟩
      exact List.Sublist.append_left ((List.sublist_append_left cancelled [a]).map _) _
  | succeed a report pc =>
    exact CallTask.snapshot_of_ofQueueChange (ofQueueChange_of_resume h u hu)
  | fail a pc caller =>
    cases h
    rcases failResume_task hu with ⟨pc', rfl, -⟩ | hu
    · trivial
    · exact hnext hu
  | tunnelClose m =>
    cases h
    cases hu

namespace Cancellations

variable {cfg : Config} {r r' : Runner}

theorem init : Cancellations {} where
  marked _ _ h := by simp [Runner.item] at h
  snapshot _ _ h := by simp at h
  unique _ _ _ _ h := by simp at h

/-- A step that keeps the calls, adds no item with a mark and changes no
mark of an item. -/
theorem of_same (h : Cancellations r) (hcalls : r'.calls = r.calls)
    (hmarked : ∀ drv item, r'.item drv = some item →
      r'.shared.queues.cancelled item.stepInfo = true →
      r.item drv = some item ∧ r.shared.queues.cancelled item.stepInfo = true) :
    Cancellations r' where
  marked drv item hi hc := by
    obtain ⟨hi, hc⟩ := hmarked drv item hi hc
    obtain ⟨t, task, ht, hq, ha⟩ := h.marked drv item hi hc
    exact ⟨t, task, hcalls ▸ ht, hq, ha⟩
  snapshot := hcalls ▸ h.snapshot
  unique := hcalls ▸ h.unique

/-- A call starts, and it is the only `process_queue_change`. -/
theorem spawn (h : Cancellations r)
    (htasks : ∀ t task, r.calls.lookup t = some task → t < r.nextTask)
    {res : Shared × Option CallTask}
    (hscheduled : res.1.queues.scheduled = r.shared.queues.scheduled)
    (hinfo : res.1.queues.info = r.shared.queues.info)
    (hnew : ∀ u, res.2 = some u → u.Snapshot)
    (hone : ∀ u, res.2 = some u → u.ofQueueChange = true →
      ∀ task ∈ r.calls.values, task.ofQueueChange = false) :
    Cancellations (r.spawn res) where
  marked drv item hi hc := by
    rw [Runner.item, Runner.spawn_shared, hscheduled] at hi
    rw [Runner.spawn_shared, InnerQueues.cancelled, hinfo] at hc
    obtain ⟨t, task, ht, hq, ha⟩ := h.marked drv item hi hc
    refine ⟨t, task, ?_, hq, ha⟩
    have hne : t ≠ r.nextTask := Nat.ne_of_lt (htasks t task ht)
    rw [Runner.lookup_spawn, if_neg (fun hc => hne hc.1), ht]
  snapshot t task ht := by
    rw [Runner.lookup_spawn] at ht
    split_ifs at ht
    · exact hnew task ht
    · exact h.snapshot t task ht
  unique t task t' task' ht ht' hq hq' := by
    have hold : ∀ {x y u v}, x = r.nextTask ∧ res.2 ≠ none → res.2 = some u →
        u.ofQueueChange = true → r.calls.lookup y = some v → v.ofQueueChange = true → x = y := by
      intro x y u v _ hu hqu hv hqv
      have := hone u hu hqu v (Map.mem_values_iff.mpr ⟨y, hv⟩)
      rw [hqv] at this
      cases this
    rw [Runner.lookup_spawn] at ht ht'
    split_ifs at ht ht' with hx hy hy
    · exact hx.1.trans hy.1.symm
    · exact hold hx ht hq ht' hq'
    · exact (hold hy ht' hq' ht hq).symm
    · exact h.unique t task t' task' ht ht' hq hq'

/-- A call is resumed.  It keeps the marks of the items that stay, apart
from those that it is going to fail. -/
theorem setCall (h : Cancellations r) (hok : RunnerOk cfg r) {t : TaskId} {task : CallTask}
    {ans : Answer} {res : Shared × Option CallTask} (ht : r.calls.lookup t = some task)
    (hres : task.resume cfg r.shared r.held ans = some res)
    (hmarked : ∀ drv item, res.1.queues.scheduled.lookup drv = some item →
      res.1.queues.cancelled item.stepInfo = true →
      (∃ u, res.2 = some u ∧ u.ofQueueChange = true ∧ ∃ a ∈ u.pending, a.drv = drv) ∨
      (r.item drv = some item ∧ r.shared.queues.cancelled item.stepInfo = true ∧
        ∀ a ∈ task.pending, a.drv = drv → task.ofQueueChange = true →
          ∃ u, res.2 = some u ∧ a ∈ u.pending)) :
    Cancellations (r.setCall t res) where
  marked drv item hi hc := by
    rcases hmarked drv item hi hc with ⟨u, hu, hq, ha⟩ | ⟨hi, hc, hkeep⟩
    · exact ⟨t, u, by rw [Runner.lookup_setCall, if_pos rfl, hu], hq, ha⟩
    · obtain ⟨t', task', ht', hq, a, ha, hdrv⟩ := h.marked drv item hi hc
      by_cases heq : t' = t
      · subst heq
        obtain rfl : task = task' := Option.some.inj (ht.symm.trans ht')
        obtain ⟨u, hu, hau⟩ := hkeep a ha hdrv hq
        refine ⟨t', u, by rw [Runner.lookup_setCall, if_pos rfl, hu], ?_, a, hau, hdrv⟩
        rw [CallTask.ofQueueChange_of_resume hres u hu]
        exact hq
      · exact ⟨t', task', by rw [Runner.lookup_setCall, if_neg heq, ht'], hq, a, ha, hdrv⟩
  snapshot t' u hu := by
    rw [Runner.lookup_setCall] at hu
    split_ifs at hu
    · exact CallTask.snapshot_of_resume hres (h.snapshot t task ht)
        (fun drv item hi => (hok.pointers.item drv item hi).1) u hu
    · exact h.snapshot t' u hu
  unique t₁ u₁ t₂ u₂ h₁ h₂ hq₁ hq₂ := by
    have hold : ∀ x u, (r.setCall t res).calls.lookup x = some u → u.ofQueueChange = true →
        ∃ v, r.calls.lookup x = some v ∧ v.ofQueueChange = true := by
      intro x u hu hq
      rw [Runner.lookup_setCall] at hu
      split_ifs at hu with hx
      · subst hx
        refine ⟨task, ht, ?_⟩
        rw [← CallTask.ofQueueChange_of_resume hres u hu]
        exact hq
      · exact ⟨u, hu, hq⟩
    obtain ⟨v₁, hv₁, hqv₁⟩ := hold t₁ u₁ h₁ hq₁
    obtain ⟨v₂, hv₂, hqv₂⟩ := hold t₂ u₂ h₂ hq₂
    exact h.unique t₁ v₁ t₂ v₂ hv₁ hv₂ hqv₁ hqv₂

/-- A step of a call that is not in `kill_active_steps`. -/
theorem call_of_not_kill (h : Cancellations r) (hok : RunnerOk cfg r) {t : TaskId}
    {task : CallTask} {ans : Answer} {res : Shared × Option CallTask}
    (ht : r.calls.lookup t = some task)
    (hres : task.resume cfg r.shared r.held ans = some res) (hkill : task.isKill = false) :
    Cancellations (r.setCall t res) := by
  have hmark : ∀ j, res.1.queues.cancelled j = r.shared.queues.cancelled j := by
    intro j
    rcases CallTask.cancelled_of_resume hres j with hj | ⟨drv, item, todo, cancelled, rfl, -⟩
    · exact hj
    · cases hkill
  refine h.setCall hok ht hres (fun drv item hi hc => .inr ?_)
  rw [hmark] at hc
  obtain ⟨s', t'⟩ := res
  -- what a first step consumes is no longer in `scheduled`
  have hfirst : ∀ {a : Attempt} {rest}, task.pending = a :: rest → (∀ u ∈ t', u.pending = rest) →
      (t' = none → rest = []) → drv ≠ a.drv → ∀ b ∈ task.pending, b.drv = drv →
      task.ofQueueChange = true → ∃ u, t' = some u ∧ b ∈ u.pending := by
    intro a rest hp hpending hlast hne b hb hdrv _
    exact Removals.rest_of_ne hp hpending hlast hb (fun heq => hne (by rw [← hdrv, heq]))
  cases callStep_of_resume hres with
  | quiet hstart hsame hinfos hpending hkeeps =>
    rw [hsame.scheduled] at hi
    refine ⟨hi, hc, fun a ha _ _ => ?_⟩
    rcases hkeeps with hkeeps | hkill'
    · exact hkeeps a ha
    · rw [hkill] at hkill'
      cases hkill'
  | missing a rest hstart hp hlookup hinfos hpending hlast =>
    refine ⟨hi, hc, hfirst hp hpending hlast ?_⟩
    rintro rfl
    exact absurd (hlookup.symm.trans hi) (by simp)
  | ends a rest item' job hstart hp hends hinfos hpending hlast =>
    rw [hends.unscheduled.scheduled, Map.lookup_erase_eq] at hi
    split_ifs at hi with hdrv
    exact ⟨hi, hc, hfirst hp hpending hlast hdrv⟩
  | jobMissing a rest item' hstart hp hitem hnone =>
    exact absurd hnone (hok.attempts.find_job hitem)
  | removeJob i system hstart hi' hremoved hinfos hpending hlast =>
    rw [hremoved.scheduled, InnerQueues.removeJob_scheduled] at hi
    refine ⟨hi, hc, fun a ha _ _ => ?_⟩
    cases t' with
    | none =>
      rw [hlast rfl] at ha
      cases ha
    | some u => exact ⟨u, rfl, by rwa [hpending u rfl]⟩

/-- A turn of `kill_active_steps`: what it marks is about to be failed, or is
not scheduled. -/
theorem killTurn (h : Cancellations r) (hok : RunnerOk cfg r) {t : TaskId} {drv : StorePath}
    {item : ScheduledItem} {todo : List (StorePath × ScheduledItem)} {cancelled : List Attempt}
    {ans : Answer} (ht : r.calls.lookup t = some (.kill ((drv, item) :: todo) cancelled))
    (hres : (CallTask.kill ((drv, item) :: todo) cancelled).resume cfg r.shared r.held ans =
      some (killResume r.shared drv item todo cancelled))
    (hcond : CallTask.CancelsFor r.shared (.kill ((drv, item) :: todo) cancelled)) :
    Cancellations (r.setCall t (killResume r.shared drv item todo cancelled)) := by
  have hdrv : item.stepInfo.drvPath = drv := (h.snapshot t _ ht).2 (drv, item) List.mem_cons_self
  refine h.setCall hok ht hres (fun drv' item' hi hc => ?_)
  -- an item with the info that is marked is that of the derivation
  have hsame : ∀ {s' : Shared}, s'.queues = r.shared.queues.setCancelled item.stepInfo true →
      s'.queues.scheduled.lookup drv' = some item' →
      s'.queues.cancelled item'.stepInfo = true →
      r.item drv' = some item' ∧ (drv' = drv ∧ item'.stepInfo = item.stepInfo ∨
        r.shared.queues.cancelled item'.stepInfo = true) := by
    intro s' hs' hi hc
    rw [hs'] at hi hc
    have hi' : r.item drv' = some item' := hi
    refine ⟨hi', ?_⟩
    rw [InnerQueues.cancelled_setCancelled] at hc
    split_ifs at hc with heq
    · refine .inl ⟨?_, heq⟩
      rw [← (hok.pointers.item drv' item' hi').1, heq, hdrv]
    · exact .inr hc
  rcases killResume_cases r.shared drv item todo cancelled with
    ⟨hkill, -⟩ | ⟨hmark, hdep, ⟨uuid, hjob, hkill⟩ | ⟨hjob, hkill⟩⟩
  · rw [hkill] at hi hc ⊢
    exact .inr ⟨hi, hc, fun a ha _ _ => ⟨_, rfl, ha⟩⟩
  · rw [hkill] at hi hc ⊢
    obtain ⟨hi', ⟨rfl, -⟩ | hc'⟩ := hsame rfl hi hc
    · exact .inl ⟨_, rfl, rfl, ⟨uuid, item.machine.id, drv'⟩, List.mem_cons_self, rfl⟩
    · exact .inr ⟨hi', hc', fun a ha _ _ => ⟨_, rfl, List.mem_cons_of_mem _ ha⟩⟩
  · rw [hkill] at hi hc ⊢
    obtain ⟨hi', ⟨rfl, heq⟩ | hc'⟩ := hsame rfl hi hc
    · exact absurd heq (hcond hmark hdep hjob item' hi')
    · exact .inr ⟨hi', hc', fun a ha _ _ => ⟨_, rfl, ha⟩⟩

theorem call (h : Cancellations r) (hok : RunnerOk cfg r) {t : TaskId} {task : CallTask}
    {ans : Answer} {res : Shared × Option CallTask} (ht : r.calls.lookup t = some task)
    (hres : task.resume cfg r.shared r.held ans = some res)
    (hcond : task.CancelsFor r.shared) : Cancellations (r.setCall t res) := by
  cases hkill : task.isKill with
  | false => exact h.call_of_not_kill hok ht hres hkill
  | true =>
    have hrun := hres
    cases task with
    | killStart =>
      simp only [CallTask.resume] at hres
      split_ifs at hres with hperm
      cases hres
      refine h.setCall hok ht hrun ?_
      exact fun drv item hi hc => .inr ⟨hi, hc, by simp [CallTask.pending]⟩
    | kill todo cancelled =>
      cases todo with
      | nil =>
        cases hres
        refine h.setCall hok ht hrun (fun drv item hi hc => .inr ⟨hi, hc, ?_⟩)
        intro a ha _ _
        cases cancelled with
        | nil => cases ha
        | cons b cancelled => exact ⟨_, rfl, ha⟩
      | cons e todo =>
        obtain ⟨drv, item⟩ := e
        cases hres
        exact h.killTurn hok ht hrun hcond
    | killAbort a m todo cancelled =>
      simp only [CallTask.resume] at hres
      split_ifs at hres with hopen
      · cases hres
        refine h.setCall hok ht hrun ?_
        refine fun drv item hi hc => .inr ⟨hi, hc, fun b hb _ _ => ⟨_, rfl, ?_⟩⟩
        rcases List.mem_cons.mp hb with rfl | hb
        · exact List.mem_append_right _ List.mem_cons_self
        · exact List.mem_append_left _ hb
      · cases hres
        refine h.setCall hok ht hrun ?_
        refine fun drv item hi hc => .inr ⟨hi, hc, fun b hb hdrv _ => ⟨_, rfl, ?_⟩⟩
        rcases List.mem_cons.mp hb with rfl | hb
        · -- the message was not sent, and no item with a mark is left behind
          subst hdrv
          have hfalse := hcond (by simpa using hopen) item hi
          exact absurd (hc.symm.trans hfalse) (by simp)
        · exact hb
    | succeed a report pc => cases hkill
    | fail a pc caller => cases hkill
    | tunnelClose m => cases hkill

/-- The dispatch loop schedules no step info with a mark. -/
theorem dispatch (h : Cancellations r) (hok : RunnerOk cfg r) {ans : Answer} {s' : Shared}
    {d' : DispatchPc} (hres : r.dispatcher.resume cfg r.shared r.held ans = some (s', d'))
    (hcond : ∀ i ∈ r.dispatcher.schedules, r.shared.queues.cancelled i = false) :
    Cancellations { r with shared := s', dispatcher := d' } := by
  have hsame := dispatch_sameCancelled hres
  refine h.of_same rfl (fun drv item hi hc => ?_)
  rcases (dispatchStep_of_resume hres).item_cases hi with hi | ⟨w, i, m, job, hd, -, rfl⟩
  · have hfresh := hok.pointers.queueFresh _ _ (hok.pointers.item drv item hi).2.1
    exact ⟨hi, (hsame _ hfresh).symm.trans hc⟩
  · have hfresh := hok.pointers.queueFresh _ _ (hok.pointers.holding w i _ hd).1
    have hfalse := hcond i (by rw [hd]; rfl)
    exact absurd ((hsame _ hfresh).symm.trans hc) (by simp [hfalse])

/-- Every step that meets the condition keeps the invariant. -/
theorem step (h : Cancellations r) (hok : RunnerOk cfg r) {a : Action}
    (hone : OneQueueChange r a) (hcond : CancelsOnce r a) (hs : RunnerStep cfg r a r') :
    Cancellations r' := by
  cases hs with
  | dispatch hres => exact h.dispatch hok hres hcond
  | call ht hres => exact h.call hok ht hres (hcond _ ht)
  | completeBuild uuid machineId state report =>
    obtain ⟨results, hs, hcases⟩ := completeBuild_spec r.shared uuid machineId state report
    have hq : ∀ u, (completeBuild r.shared uuid machineId state report).2 = some u →
        u.ofQueueChange = false := by
      intro u hu
      obtain ⟨a, rfl | rfl⟩ := completeBuild_task hu
      · rfl
      · rfl
    refine h.spawn hok.tasks (by rw [hs]) (by rw [hs]) ?_ ?_
    · exact fun u hu => CallTask.snapshot_of_ofQueueChange (hq u hu)
    · intro u hu hqu
      rw [hq u hu] at hqu
      cases hqu
  | endStream hm =>
    rename_i m
    obtain ⟨machines, task, hs, ht, -⟩ := endStream_spec r.shared m
    have hq : ∀ u, (endStream r.shared m).2 = some u → u.ofQueueChange = false := by
      intro u hu
      rcases endStream_task hu with rfl | ⟨a, rest, rfl⟩
      · rfl
      · rfl
    have h₀ : Cancellations { r with tunnels := r.tunnels.erase m } :=
      h.of_same rfl (fun _ _ hi hc => ⟨hi, hc⟩)
    refine h₀.spawn hok.tasks (by rw [hs]) (by rw [hs]) ?_ ?_
    · exact fun u hu => CallTask.snapshot_of_ofQueueChange (hq u hu)
    · intro u hu hqu
      rw [hq u hu] at hqu
      cases hqu
  | queueChange curIds =>
    refine h.spawn hok.tasks rfl rfl ?_ ?_
    · intro u hu
      cases hu
      trivial
    · exact fun _ _ _ => hone
  | insertMachine id record sortFn =>
    refine h.of_same rfl (fun drv item hi hc => ?_)
    obtain ⟨-, hscheduled, hinfo, -⟩ :=
      r.shared.queues.ensureQueuesForSystems_frame record.systems
    rw [Runner.item, hscheduled] at hi
    rw [InnerQueues.cancelled, hinfo] at hc
    exact ⟨hi, hc⟩
  | create hnext => exact h.of_same rfl (fun _ _ hi hc => ⟨hi, hc⟩)
  | dropStep hheld => exact h.of_same rfl (fun _ _ hi hc => ⟨hi, hc⟩)
  | dropBuild hheld => exact h.of_same rfl (fun _ _ hi hc => ⟨hi, hc⟩)

/-- The item that the loop comes to has no mark when it is still scheduled. -/
theorem not_cancelled (h : Cancellations r) {t : TaskId} {drv : StorePath} {item : ScheduledItem}
    {todo : List (StorePath × ScheduledItem)} {cancelled : List Attempt}
    (ht : r.calls.lookup t = some (.kill ((drv, item) :: todo) cancelled))
    (hi : r.item drv = some item) : r.shared.queues.cancelled item.stepInfo = false := by
  rw [← Bool.not_eq_true]
  intro hc
  obtain ⟨t', task, ht', hq, a, ha, hdrv⟩ := h.marked drv item hi hc
  -- the call that would fail it is the one that comes to it
  obtain rfl := h.unique t _ t' _ ht ht' rfl hq
  obtain rfl := Option.some.inj (ht.symm.trans ht')
  obtain ⟨hnodup, -⟩ := h.snapshot t _ ht
  have hmem : drv ∈ cancelled.map Attempt.drv := List.mem_map.mpr ⟨a, ha, hdrv⟩
  exact (List.nodup_cons.mp hnodup).1 (List.mem_append_right _ hmem)

theorem reach (h : Lts.Reach (Runner.next cfg)
    (fun r a => OneQueueChange r a ∧ CancelsOnce r a) {} r) : Cancellations r := by
  refine h.invariant_of_reach init ?_
  rintro s a s' hreach hs ⟨hone, hcond⟩ hnext
  exact hs.step (RunnerOk.reach hreach) hone hcond (runnerStep_of_next hnext)

/-- A call is resumed from a known point. -/
theorem lookup_of_next {t : TaskId} {task : CallTask} {ans : Answer}
    (ht : r.calls.lookup t = some task) (hnext : r.next cfg (.call t ans) = some r') :
    ∃ res, task.resume cfg r.shared r.held ans = some res ∧ r'.calls.lookup t = res.2 := by
  simp only [Runner.next, ht] at hnext
  split at hnext
  · rename_i res hres
    cases hnext
    exact ⟨res, hres, by rw [Runner.lookup_setCall, if_pos rfl]⟩
  · cases hnext

theorem effective (h : Cancellations r) : CancellationEffective cfg r where
  snapshot t ans r' ht hnext := by
    obtain ⟨res, hres, hlookup⟩ := lookup_of_next ht hnext
    simp only [CallTask.resume] at hres
    split_ifs at hres with hperm
    cases hres
    refine ⟨ans.scheduled, hlookup, fun drv item hi => ?_⟩
    have hmem := hperm.mem_iff.mpr (AList.mem_lookup_iff.mp hi)
    obtain ⟨e, he, heq⟩ := List.mem_map.mp hmem
    cases heq
    exact he
  chosen t drv item todo cancelled uuid ans r' ht hi hdep hjob hnext := by
    obtain ⟨res, hres, hlookup⟩ := lookup_of_next ht hnext
    cases hres
    have hmark := h.not_cancelled ht hi
    rcases killResume_cases r.shared drv item todo cancelled with
      ⟨-, hskip⟩ | ⟨-, -, ⟨uuid', hjob', hkill⟩ | ⟨hnone, -⟩⟩
    · rcases hskip with hc | hd
      · rw [hmark] at hc
        cases hc
      · exact absurd hdep hd
    · obtain rfl := Option.some.inj (hjob.symm.trans hjob')
      rw [hlookup, hkill]
    · rw [hjob] at hnone
      cases hnone
  returned t a m todo cancelled ans r' ht hopen hnext := by
    obtain ⟨res, hres, hlookup⟩ := lookup_of_next ht hnext
    simp only [CallTask.resume, hopen, if_true] at hres
    cases hres
    exact hlookup
  failed t a cancelled ans r' ht hnext := by
    obtain ⟨res, hres, hlookup⟩ := lookup_of_next ht hnext
    cases hres
    exact hlookup

end Cancellations

/-! ## Whole runs -/

/-- Cancellation is effective in every run in which no step info is scheduled
again after it was cancelled, and every abort message of an item that stays
scheduled is sent. -/
theorem cancellationEffective_runs (cfg : Config) (r : Runner)
    (hrun : Lts.Reach (Runner.next cfg)
      (fun r a => OneQueueChange r a ∧ CancelsOnce r a) {} r) : CancellationEffective cfg r :=
  (Cancellations.reach hrun).effective

namespace Sample

/-- The item of `drv` while its attempt runs. -/
def item : ScheduledItem := ⟨info, "x86_64-linux", machine⟩

/-- The builds are taken out of the queue, the last pointer to `b` goes, and
`kill_active_steps` takes its snapshot. -/
def cancels (t : TaskId) (b : BuildRef) : List Action :=
  [.queueChange [], .dropBuild b, .call t { scheduled := [(drv, item)] }]

/-- The item is marked, its machine is sent the abort message, and `fail_step`
leaves the step for another try. -/
def cancelled : List Action :=
  [.call 0 {}, .call 0 {}, .call 0 {}, .call 0 {}, .call 0 {}]

end Sample

/-- The attempt of a step that no build needs any more is cancelled. -/
theorem cancellationEffective_runs_cancelled : ∃ r, Lts.Reach (Runner.next Sample.config)
    (fun r a => OneQueueChange r a ∧ CancelsOnce r a) {} r ∧
      r.calls.lookup 0 = some (.kill [(Sample.drv, Sample.item)] []) ∧
      r.shared.queues.scheduled.lookup Sample.drv = some Sample.item ∧
      CancellationEffective Sample.config r := by
  have hend : (Lts.runWith (Runner.next Sample.config)
      (fun r a => OneQueueChange r a ∧ CancelsOnce r a) {}
      (Sample.register :: Sample.created ++ Sample.sent ++ Sample.scheduled ++
        Sample.cancels 0 ⟨1, Sample.drv, 0⟩)).map (fun r =>
      (r.calls.lookup 0, r.shared.queues.scheduled.lookup Sample.drv)) =
      some (some (.kill [(Sample.drv, Sample.item)] []), some Sample.item) := by
    decide +kernel
  obtain ⟨r, hr, he⟩ := Option.map_eq_some_iff.mp hend
  simp only [Prod.mk.injEq] at he
  have hrun := Lts.reach_of_runWith hr
  exact ⟨r, hrun, he.1, he.2, cancellationEffective_runs Sample.config r hrun⟩

/-- The attempt is cancelled and the step is left for another try.  Another
build takes the step up, it is dispatched again with the same step info, and
that build is taken out of the queue too.  Now `kill_active_steps` overlooks
the item, because its info still has the mark. -/
theorem cancellationEffective_fails : ¬∀ cfg r,
    Lts.Reach (Runner.next cfg) OneQueueChange {} r → CancellationEffective cfg r := by
  intro h
  have hend : (Lts.runWith (Runner.next Sample.config) OneQueueChange {}
      (Sample.register :: Sample.created ++ Sample.sent ++ Sample.scheduled ++
        Sample.cancels 0 ⟨1, Sample.drv, 0⟩ ++ Sample.cancelled ++ Sample.joined ++
        Sample.sentAgain ++ Sample.scheduled ++ Sample.cancels 1 ⟨2, Sample.drv, 2⟩)).map (fun r =>
      decide (r.calls.lookup 1 = some (.kill [(Sample.drv, Sample.item)] []) ∧
        r.shared.queues.scheduled.lookup Sample.drv = some Sample.item ∧
        (r.shared.graph.getDependents Sample.step).builds = [] ∧
        (r.shared.machines.machine Sample.machine).getInternalBuildIdForDrv Sample.drv = some 1 ∧
        (r.next Sample.config (.call 1 {})).map (fun r' => r'.calls.lookup 1) =
          some (some (.kill [] [])))) = some true := by
    decide +kernel
  obtain ⟨r, hr, he⟩ := Option.map_eq_some_iff.mp hend
  obtain ⟨hkill, hitem, hdep, hjob, hnext⟩ := of_decide_eq_true he
  obtain ⟨r', hr', hskip⟩ := Option.map_eq_some_iff.mp hnext
  have habort := (h _ r (Lts.reach_of_runWith hr)).chosen 1 _ _ _ _ 1 _ r' hkill hitem hdep hjob hr'
  rw [hskip] at habort
  cases habort

end QueueRunner
