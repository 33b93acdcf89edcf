import QueueRunner.Invariant

/-!
# Calls and the attempts they belong to

A call of `succeed_step` or `fail_step` is made for one attempt, but it
finds the item and the job by the derivation path.  Between the choice of
the attempt and the removal of the item the attempt may end by another
call, and the derivation may be sent again.  Then the call removes the new
attempt.  Unless that happens, a call acts on its own attempt only.
-/

namespace QueueRunner

/-- The attempt that the call was made for. -/
def CallTask.attempt : CallTask → Option Attempt
  | .succeed a _ _ | .fail a _ _ => some a
  | _ => none

/-- No attempt is touched: the items, the jobs, and the counters of the
steps stay as they are. -/
structure Untouched (r r' : Runner) : Prop where
  scheduled : r'.shared.queues.scheduled = r.shared.queues.scheduled
  jobsOf : ∀ m, r'.shared.jobsOf m = r.shared.jobsOf m
  tries : ∀ x, (r'.shared.graph.step x).tries = (r.shared.graph.step x).tries
  finished : ∀ x,
    (r'.shared.graph.step x).finished = (r.shared.graph.step x).finished

/-- The item and the job of the attempt `a` are removed, and nothing of any
other attempt is touched. -/
def EndsOnly (r : Runner) (a : Attempt) (r' : Runner) : Prop :=
  ∃ item j, r.item a.drv = some item ∧ item.machine.id = a.machineId ∧
    j ∈ r.shared.jobsOf item.machine ∧ j.path = a.drv ∧
    j.internalBuildId = a.uuid ∧
    r'.shared.queues.scheduled = r.shared.queues.scheduled.erase a.drv ∧
    (∀ m j', j' ∈ r'.shared.jobsOf m ↔
      j' ∈ r.shared.jobsOf m ∧ (m = item.machine → j' ≠ j)) ∧
    ∀ x, x ≠ item.stepInfo.step →
      (r'.shared.graph.step x).tries = (r.shared.graph.step x).tries ∧
      (r'.shared.graph.step x).finished = (r.shared.graph.step x).finished

/-- The calls act on their own attempts: a step of a call touches nothing,
or it ends the attempt of the call, and only when that attempt is not over
yet. -/
def OwnAttemptsOnly (cfg : Config) (r : Runner) : Prop :=
  ∀ t ans r', r.next cfg (.call t ans) = some r' → Untouched r r' ∨
    ∃ task a, r.calls.lookup t = some task ∧ task.attempt = some a ∧
      a.uuid ∉ r.shared.log.ended ∧ EndsOnly r a r'

/-- The dispatch loop schedules a derivation only while no call is pending
for an older attempt to build it. -/
def NoStaleCall (r : Runner) : Action → Prop
  | .dispatch _ => ∀ job ∈ r.dispatcher.insertedJob, ∀ task ∈ r.calls.values,
    ∀ a ∈ task.pending, a.drv = job.path → a.uuid = job.internalBuildId
  | _ => True

instance (r : Runner) (a : Action) : Decidable (NoStaleCall r a) :=
  match a with
  | .dispatch _ => inferInstanceAs (Decidable
      (∀ job ∈ r.dispatcher.insertedJob, ∀ task ∈ r.calls.values,
        ∀ a ∈ task.pending, a.drv = job.path → a.uuid = job.internalBuildId))
  | .call _ _ | .completeBuild _ _ _ _ | .create _ _ | .endStream _ | .queueChange _
  | .insertMachine _ _ _ | .dropStep _ | .dropBuild _ => inferInstanceAs (Decidable True)

/-- A pending attempt is the one that runs, if its derivation runs at all. -/
structure Owner (r : Runner) (a : Attempt) : Prop where
  bound : a.uuid < r.shared.nextUuid
  item : ∀ item, r.item a.drv = some item → item.machine.id = a.machineId ∧
    ∃ j ∈ r.shared.jobsOf item.machine, j.path = a.drv ∧ j.internalBuildId = a.uuid
  attempt : ∀ i m job, r.dispatcher.attempt = some (i, m, job) →
    job.internalBuildId = a.uuid → m.id = a.machineId

/-- Every pending attempt is an owner. -/
def Owners (r : Runner) : Prop := ∀ a, r.Pending a → Owner r a

namespace Owner

variable {cfg : Config} {r r' : Runner} {a : Attempt}

/-- An attempt is an owner when a call finds its job. -/
theorem of_hasJob (hok : RunnerOk cfg r) (h : r.shared.HasJob a) : Owner r a := by
  obtain ⟨m, j, hm, hj, hu, hp⟩ := h
  refine ⟨hu ▸ hok.attempts.bound m j hj, fun item hitem => ?_, fun i m' job ha hid => ?_⟩
  · rcases hok.attempts.job m j hj with ⟨item', hitem', rfl⟩ | ⟨-, i, ha⟩
    · rw [hp, hitem, Option.some.injEq] at hitem'
      subst hitem'
      exact ⟨hm, j, hj, hp, hu⟩
    · -- the derivation that the dispatch loop works on is not scheduled
      have hnone := Attempts.item_eq_none hok.pointers ha
      rw [← (hok.attempts.path i m j ha).1, hp, hitem] at hnone
      cases hnone
  · cases hins : r.dispatcher.inserted with
    | true =>
      obtain ⟨rfl, -⟩ := hok.attempts.uuid m' job
        (hok.attempts.inserted i m' job ha hins) m j hj (by rw [hid, hu])
      exact hm
    | false =>
      exact absurd (hu.trans hid.symm) (hok.attempts.notInserted i m' job ha hins m j hj)

/-- A step that leaves the items, the jobs and the dispatch loop alone. -/
theorem of_same (h : Owner r a)
    (hscheduled : r'.shared.queues.scheduled = r.shared.queues.scheduled)
    (hjobs : ∀ m, r'.shared.jobsOf m = r.shared.jobsOf m)
    (hnext : r.shared.nextUuid ≤ r'.shared.nextUuid)
    (hd : r'.dispatcher = r.dispatcher) : Owner r' a := by
  refine ⟨lt_of_lt_of_le h.bound hnext, fun item hitem => ?_, hd ▸ h.attempt⟩
  rw [Runner.item, hscheduled] at hitem
  rw [hjobs]
  exact h.item item hitem

/-- A step of the dispatch loop that meets the condition. -/
theorem dispatch (h : Owner r a) (hok : RunnerOk cfg r) {s' : Shared}
    {d' : DispatchPc} (hs : DispatchStep r.shared r.held r.dispatcher s' d')
    (hfresh : ∀ job ∈ r.dispatcher.insertedJob, a.drv = job.path →
      a.uuid = job.internalBuildId) :
    Owner { r with shared := s', dispatcher := d' } a := by
  have hk := hs.keepsAttempts hok.pointers
  refine ⟨lt_of_lt_of_le h.bound hk.nextUuid, fun item hitem => ?_,
    fun i m job ha hu => ?_⟩
  · rcases hs.item_cases hitem with hitem | ⟨w, i, m, job, hd, hdrv, rfl⟩
    · obtain ⟨hm, j, hj, hp, hu⟩ := h.item item hitem
      exact ⟨hm, j, hk.jobsOf _ j hj, hp, hu⟩
    · have ha : r.dispatcher.attempt = some (i, m, job) := by rw [hd]; rfl
      have hpath := (hok.attempts.path i m job ha).1
      have hu := hfresh job (by rw [hd]; rfl) (hdrv.trans hpath.symm)
      refine ⟨h.attempt i m job ha hu.symm, job, ?_, hpath.trans hdrv.symm, hu.symm⟩
      exact hk.jobsOf m job (hok.attempts.inserted i m job ha (by rw [hd]; rfl))
  · rcases hs.attempt_cases ha with ⟨job', ha', hid, -⟩ | ⟨-, hid, -, -⟩
    · exact h.attempt i m job' ha' (by rw [← hid, hu])
    · have hlt := h.bound
      rw [← hu, hid] at hlt
      exact absurd hlt (lt_irrefl _)

end Owner

namespace Owners

variable {cfg : Config} {r r' : Runner}

theorem init : Owners {} := by
  rintro a ⟨t, task, ht, -⟩
  simp at ht

/-- A step that leaves the attempts and the dispatch loop alone, and after
which only attempts are pending that were pending before or have a job. -/
theorem of_same (h : Owners r) (hok : RunnerOk cfg r)
    (hscheduled : r'.shared.queues.scheduled = r.shared.queues.scheduled)
    (hjobs : ∀ m, r'.shared.jobsOf m = r.shared.jobsOf m)
    (hnext : r.shared.nextUuid ≤ r'.shared.nextUuid)
    (hd : r'.dispatcher = r.dispatcher)
    (hpending : ∀ a, r'.Pending a → r.Pending a ∨ r.shared.HasJob a) : Owners r' := by
  intro a ha
  have howner : Owner r a := (hpending a ha).elim (h a) (.of_hasJob hok)
  exact howner.of_same hscheduled hjobs hnext hd

/-- A step of a call. -/
theorem call (h : Owners r) (hok : RunnerOk cfg r) {t : TaskId} {task : CallTask}
    {res : Shared × Option CallTask} (ht : r.calls.lookup t = some task)
    (hs : CallStep r.shared r.held task res.1 res.2) : Owners (r.setCall t res) := by
  have htask : ∀ a ∈ task.pending, r.Pending a := fun a ha => ⟨t, task, ht, ha⟩
  have hrest : ∀ {a rest}, task.pending = a :: rest →
      (∀ u ∈ res.2, u.pending = rest) →
      ∀ b, (r.setCall t res).Pending b → r.Pending b := by
    intro a rest hp hpending b hb
    rcases Runner.pending_setCall hb with ⟨t', task', -, ht', hb⟩ | ⟨u, hu, hb⟩
    · exact ⟨t', task', ht', hb⟩
    · rw [hpending u hu] at hb
      exact htask b (by rw [hp]; exact List.mem_cons_of_mem _ hb)
  obtain ⟨s', t'⟩ := res
  cases hs with
  | quiet hstart hsame hinfos hpending hkeeps =>
    refine h.of_same hok hsame.scheduled hsame.jobsOf hsame.nextUuid rfl fun a ha => ?_
    rcases Runner.pending_setCall ha with ⟨t₁, task₁, -, ht₁, ha⟩ | ⟨u, hu, ha⟩
    · exact Or.inl ⟨t₁, task₁, ht₁, ha⟩
    · exact (hpending u hu a ha).imp (htask a) id
  | missing a rest hstart hp hlookup hinfos hpending hlast =>
    exact h.of_same hok rfl (fun _ => rfl) (le_refl _) rfl
      (fun b hb => Or.inl (hrest hp hpending b hb))
  | jobMissing a rest item hstart hp hitem hnone =>
    exact absurd hnone (hok.attempts.find_job hitem)
  | removeJob i system hstart hi hremoved hinfos hpending hlast =>
    refine h.of_same hok ?_ hremoved.jobsOf hremoved.nextUuid rfl fun a ha => ?_
    · exact hremoved.scheduled.trans (InnerQueues.removeJob_scheduled ..)
    · rcases Runner.pending_setCall ha with ⟨t₁, task₁, -, ht₁, ha⟩ | ⟨u, hu, ha⟩
      · exact Or.inl ⟨t₁, task₁, ht₁, ha⟩
      · exact Or.inl (htask a (hpending u hu ▸ ha))
  | ends a rest item job hstart hp hends hinfos hpending hlast =>
    intro b hb
    have howner := h b (hrest hp hpending b hb)
    refine ⟨?_, fun item' hitem' => ?_, howner.attempt⟩
    · exact lt_of_lt_of_eq howner.bound hends.nextUuid.symm
    · rw [Runner.item, Runner.setCall, hends.unscheduled.scheduled,
        Map.lookup_erase_eq] at hitem'
      split_ifs at hitem' with hdrv
      obtain ⟨hm, j, hj, hjp, hju⟩ := howner.item item' hitem'
      refine ⟨hm, j, ?_, hjp, hju⟩
      rw [Runner.setCall, hends.jobsOf]
      split_ifs
      · exact List.mem_filter.mpr ⟨hj, by simpa [hjp] using hdrv⟩
      · exact hj

/-- Every step that meets the condition keeps the invariant. -/
theorem step (h : Owners r) (hok : RunnerOk cfg r) {a : Action}
    (hfresh : NoStaleCall r a) (hs : RunnerStep cfg r a r') : Owners r' := by
  cases hs with
  | dispatch hres =>
    intro b hb
    refine (h b hb).dispatch hok (dispatchStep_of_resume hres) fun job hjob => ?_
    obtain ⟨t, task, ht, hb⟩ := hb
    exact hfresh job hjob task (Map.mem_values_iff.mpr ⟨t, ht⟩) b hb
  | call ht hres => exact h.call hok ht (callStep_of_resume hres)
  | completeBuild uuid machineId state report =>
    obtain ⟨results, hs, hcases⟩ :=
      completeBuild_spec r.shared uuid machineId state report
    refine h.of_same hok ?_ (fun m => ?_) ?_ (r.spawn_dispatcher _) fun b hb => ?_
    · rw [Runner.spawn_shared, hs]
    · rw [Runner.spawn_shared, hs]
      rfl
    · rw [Runner.spawn_shared, hs]
    · refine (Runner.pending_spawn hb).imp id ?_
      rintro ⟨u, hu, hbu⟩
      rcases hcases with ⟨a, task, hla, -, htask, -, hp⟩ | ⟨e, -, -, htask⟩
      · rw [htask, Option.some.injEq] at hu
        rw [← hu, hp, List.mem_singleton] at hbu
        obtain ⟨m, j, hm, hj, hju, rfl⟩ := lookupAttempt_eq_ok hla
        rw [hbu]
        exact ⟨m, j, (hok.registry.byUuid machineId m hm).1, hj, hju, rfl⟩
      · rw [htask] at hu
        cases hu
  | @endStream m hm =>
    obtain ⟨machines, task, hs, ht, hmachine, -, -, -, -, hcases⟩ :=
      endStream_spec r.shared m
    refine h.of_same hok ?_ (fun o => ?_) ?_ (Runner.spawn_dispatcher _ _) fun b hb => ?_
    · rw [Runner.spawn_shared, hs]
    · rw [Runner.spawn_shared, hs, Shared.jobsOf, Shared.jobsOf, hmachine]
    · rw [Runner.spawn_shared, hs]
    · refine (Runner.pending_spawn hb).imp id ?_
      rintro ⟨u, hu, hbu⟩
      rw [ht, Option.some.injEq] at hu
      subst hu
      rcases hcases with ⟨-, -, hp⟩ | ⟨o, ho, -, -, hp⟩
      · rw [hp] at hbu
        cases hbu
      · rw [hp] at hbu
        obtain ⟨j, hj, rfl⟩ := List.mem_map.mp hbu
        exact ⟨o, j, (hok.registry.byUuid m.id o ho).1, hj, rfl, rfl⟩
  | queueChange curIds =>
    refine h.of_same hok ?_ (fun o => ?_) ?_ (r.spawn_dispatcher _) fun b hb => ?_
    · rw [Runner.spawn_shared]
      rfl
    · rw [Runner.spawn_shared]
      rfl
    · rw [Runner.spawn_shared]
      exact le_refl _
    · refine (Runner.pending_spawn hb).imp id ?_
      rintro ⟨u, ⟨⟩, hbu⟩
      cases hbu
  | insertMachine id record sortFn =>
    refine h.of_same hok ?_ (fun m => ?_) (le_refl _) rfl (fun _ => Or.inl)
    · exact (r.shared.queues.ensureQueuesForSystems_frame record.systems).2.1
    · exact hok.jobsOf_insertMachine id _ sortFn rfl m
  | create hnext =>
    exact h.of_same hok rfl (fun _ => rfl) (le_refl _) rfl (fun _ => Or.inl)
  | dropStep hheld =>
    exact h.of_same hok rfl (fun _ => rfl) (le_refl _) rfl (fun _ => Or.inl)
  | dropBuild hheld =>
    exact h.of_same hok rfl (fun _ => rfl) (le_refl _) rfl (fun _ => Or.inl)

theorem reach (h : Lts.Reach (Runner.next cfg) NoStaleCall {} r) : Owners r := by
  refine h.invariant_of_reach init ?_
  intro s a s' hreach hs hfresh hnext
  exact hs.step (RunnerOk.reach hreach) hfresh (runnerStep_of_next hnext)

/-- While every pending attempt is an owner, a call acts on its own attempt
only. -/
theorem ownAttemptsOnly (h : Owners r) (hok : RunnerOk cfg r) :
    OwnAttemptsOnly cfg r := by
  intro t ans r' hnext
  cases runnerStep_of_next hnext with
  | @call _ _ task res ht hres =>
    have hgraph := callGraph_of_resume hres
    obtain ⟨s', t'⟩ := res
    cases callStep_of_resume hres with
    | quiet hstart hsame hinfos hpending hkeeps =>
      exact Or.inl ⟨hsame.scheduled, hsame.jobsOf,
        fun x => (hgraph.sameCounters hstart x).1,
        fun x => (hgraph.sameCounters hstart x).2⟩
    | missing a rest hstart hp hlookup hinfos hpending hlast =>
      exact Or.inl ⟨rfl, fun _ => rfl, fun _ => rfl, fun _ => rfl⟩
    | jobMissing a rest item hstart hp hitem hnone =>
      exact absurd hnone (hok.attempts.find_job hitem)
    | removeJob i system hstart hi hremoved hinfos hpending hlast =>
      refine Or.inl ⟨?_, hremoved.jobsOf, fun x => (hgraph.sameCounters hstart x).1,
        fun x => (hgraph.sameCounters hstart x).2⟩
      exact hremoved.scheduled.trans (InnerQueues.removeJob_scheduled ..)
    | ends a rest item job hstart hp hends hinfos hpending hlast =>
      have hfound := hends.unscheduled.found
      have hmem : r.Pending a := ⟨t, task, ht, by rw [hp]; exact List.mem_cons_self⟩
      obtain ⟨hm, j, hj, hjp, hju⟩ := (h a hmem).item item hfound
      have hattempt : task.attempt = some a := by
        cases task with
        | succeed b report pc => cases pc <;> cases hstart; rfl
        | fail b pc caller => cases pc <;> cases hstart; rfl
        | _ => cases hstart
      refine Or.inr ⟨task, a, ht, hattempt, fun hended => ?_, item, j, hfound, hm, hj, hjp,
        hju, hends.unscheduled.scheduled, fun m j' => ?_, fun x hx => ?_⟩
      · exact (hok.attempts.ended _ hended).2 _ j hj hju
      · rw [Runner.setCall, hends.jobsOf]
        split_ifs with hmach
        · rw [List.mem_filter]
          refine and_congr_right fun hj' => ?_
          simp only [bne_iff_ne, ne_eq, hmach, forall_const]
          refine not_congr ⟨fun hpath => ?_, fun heq => heq ▸ hjp⟩
          subst hmach
          exact List.inj_on_of_nodup_map (hok.attempts.nodup _) hj' hj
            (hpath.trans hjp.symm)
        · simp [hmach]
      · exact hgraph.sameCounters_of_ne hstart hfound hx

end Owners

/-! ## Whole runs -/

/-- In every run in which no derivation is scheduled again while a call for
an older attempt of it is pending, the calls act on their own attempts. -/
theorem ownAttemptsOnly_runs (cfg : Config) (r : Runner)
    (hrun : Lts.Reach (Runner.next cfg) NoStaleCall {} r) : OwnAttemptsOnly cfg r :=
  (Owners.reach hrun).ownAttemptsOnly (RunnerOk.reach hrun)

/-- The builder reports the failure of attempt `0` twice.  Both calls have
ended when the step is sent again as attempt `1`. -/
def retriedAfterReports : List Action :=
  Sample.register :: Sample.created ++ Sample.sent ++ Sample.scheduled ++
    [Action.completeBuild 0 0 .importFailure {}, .completeBuild 0 0 .importFailure {},
      .call 0 {}, .call 0 {}, .call 1 {}] ++ Sample.sentAgain ++ Sample.scheduled

/-- The second call finds no item, and attempt `1` goes on. -/
theorem ownAttemptsOnly_runs_retried : ∃ r, Lts.Reach (Runner.next Sample.config)
    NoStaleCall {} r ∧ r.shared.log.ended = [0] ∧ r.calls.keys = [] ∧
      r.shared.queues.scheduled.keys = [Sample.drv] ∧ OwnAttemptsOnly Sample.config r := by
  have hend : (Lts.runWith (Runner.next Sample.config) NoStaleCall {} retriedAfterReports).map
      (fun r => (r.shared.log.ended, r.calls.keys, r.shared.queues.scheduled.keys)) =
      some ([0], [], [Sample.drv]) := by decide +kernel
  obtain ⟨r, hr, he⟩ := Option.map_eq_some_iff.mp hend
  simp only [Prod.mk.injEq] at he
  have hrun := Lts.reach_of_runWith hr
  exact ⟨r, hrun, he.1, he.2.1, he.2.2, ownAttemptsOnly_runs Sample.config r hrun⟩

/-- The builder reports the failure of attempt `0` twice.  The first call
ends the attempt, and the step is sent again as attempt `1` before the
second call is resumed. -/
def reportedTwice : List Action :=
  Sample.register :: Sample.created ++ Sample.sent ++ Sample.scheduled ++
    [Action.completeBuild 0 0 .importFailure {}, .completeBuild 0 0 .importFailure {},
      .call 0 {}, .call 0 {}] ++ Sample.sentAgain ++ Sample.scheduled

/-- The second call then removes the item and the job of attempt `1`. -/
theorem ownAttemptsOnly_fails : ¬∀ cfg r,
    Lts.Reach (Runner.next cfg) Lts.anyStep {} r → OwnAttemptsOnly cfg r := by
  intro h
  have hend : (Lts.run (Runner.next Sample.config) {} reportedTwice).map (fun r =>
      (r.shared.log.ended, (r.calls.lookup 1).bind CallTask.attempt,
        r.shared.queues.scheduled.keys,
        (r.next Sample.config (.call 1 {})).map (fun r' =>
          r'.shared.queues.scheduled.keys))) =
      some ([0], some ⟨0, 0, Sample.drv⟩, [Sample.drv], some []) := by decide +kernel
  obtain ⟨r, hr, he⟩ := Option.map_eq_some_iff.mp hend
  simp only [Prod.mk.injEq] at he
  obtain ⟨hended, hattempt, hkeys, hnext⟩ := he
  obtain ⟨r', hr', hkeys'⟩ := Option.map_eq_some_iff.mp hnext
  rcases h _ r (Lts.reach_of_run hr) 1 {} r' hr' with
    hsame | ⟨task, a, ht, ha, hnot, -⟩
  · rw [hsame.scheduled, hkeys] at hkeys'
    cases hkeys'
  · rw [ht, Option.bind_some, ha, Option.some.injEq] at hattempt
    rw [hended, hattempt] at hnot
    simp at hnot

end QueueRunner
