import QueueRunner.Invariant

/-!
# Completions that a builder reports

The dispatch loop sends a message, inserts the job, and puts the item into
`scheduled`, in this order.  The builder may report the result as soon as
it has the message.  This module follows the two sides: the report is
applied unless it overtakes the dispatch loop, that is, unless
`complete_build` runs before the job is inserted, or the call that it
starts takes its item before the item is there.
-/

namespace QueueRunner

/-- The steps of the dispatch loop and of the builders.  A builder reports
a message once, to the runner that sent it, and machines have ids of their
own.  Nobody else ends attempts. -/
def CompletionStep (r : Runner) : Action → Prop
  | .completeBuild uuid machineId _ _ =>
    (∃ e ∈ r.shared.log.sent, e.1 = uuid ∧ e.2.2.id = machineId) ∧
      uuid ∉ r.shared.log.reported
  | .endStream _ | .queueChange _ => False
  | .insertMachine id _ _ => r.shared.machines.byUuid.lookup id = none
  | _ => True

/-- The report of an attempt does not overtake the dispatch loop: it does
not arrive between the message and the insertion of the job, and its call
does not take the item between the insertion and `add_job_to_scheduled`. -/
def NotOvertaking (r : Runner) : Action → Prop
  | .completeBuild uuid _ _ _ =>
    ∀ job ∈ r.dispatcher.sentJob, job.internalBuildId ≠ uuid
  | .call t _ =>
    ∀ job ∈ r.dispatcher.insertedJob, ∀ task ∈ r.calls.lookup t,
      ∀ a ∈ task.pending, a.uuid ≠ job.internalBuildId
  | _ => True

instance (r : Runner) (a : Action) : Decidable (CompletionStep r a) :=
  match a with
  | .completeBuild uuid machineId _ _ => inferInstanceAs (Decidable
      ((∃ e ∈ r.shared.log.sent, e.1 = uuid ∧ e.2.2.id = machineId) ∧
        uuid ∉ r.shared.log.reported))
  | .endStream _ | .queueChange _ => inferInstanceAs (Decidable False)
  | .insertMachine id _ _ =>
    inferInstanceAs (Decidable (r.shared.machines.byUuid.lookup id = none))
  | .dispatch _ | .call _ _ | .create _ _ | .dropStep _ | .dropBuild _ =>
    inferInstanceAs (Decidable True)

instance (r : Runner) (a : Action) : Decidable (NotOvertaking r a) :=
  match a with
  | .completeBuild uuid _ _ _ => inferInstanceAs (Decidable
      (∀ job ∈ r.dispatcher.sentJob, job.internalBuildId ≠ uuid))
  | .call t _ => inferInstanceAs (Decidable
      (∀ job ∈ r.dispatcher.insertedJob, ∀ task ∈ r.calls.lookup t,
        ∀ a ∈ task.pending, a.uuid ≠ job.internalBuildId))
  | .dispatch _ | .create _ _ | .endStream _ | .queueChange _ | .insertMachine _ _ _
  | .dropStep _ | .dropBuild _ => inferInstanceAs (Decidable True)

/-- Every call has reached its attempt.  When no call works on a reported
attempt any more, the attempt has ended: no machine has its job, and every
item in `scheduled` belongs to another attempt. -/
def CompletionsApplied (r : Runner) : Prop :=
  (∀ e ∈ r.shared.log.results, e.2.applied = true) ∧
  ∀ u ∈ r.shared.log.reported, (∀ a, r.Pending a → a.uuid ≠ u) →
    u ∈ r.shared.log.ended ∧
    (∀ m, ∀ j ∈ r.shared.jobsOf m, j.internalBuildId ≠ u) ∧
    ∀ drv item, r.item drv = some item →
      ∃ j ∈ r.shared.jobsOf item.machine, j.path = drv ∧ j.internalBuildId ≠ u

/-- A task that `complete_build` has started. -/
def CallTask.ofRpc : CallTask → Bool
  | .succeed _ _ _ | .fail _ _ .rpc => true
  | _ => false

/-- A call of `complete_build` ends its attempt in its first step. -/
theorem pending_of_ofRpc {cfg : Config} {s : Shared} {held : InfoRef → Bool}
    {t : CallTask} {ans : Answer} {res : Shared × Option CallTask}
    (ht : t.ofRpc = true) (h : t.resume cfg s held ans = some res) :
    ∀ u, res.2 = some u → u.ofRpc = true ∧ u.pending = [] := by
  intro u hu
  cases t with
  | succeed a report pc =>
    cases h
    obtain ⟨pc', rfl, hstart⟩ := succeedResume_task hu
    cases pc' with
    | start => cases hstart
    | _ => exact ⟨rfl, rfl⟩
  | fail a pc caller =>
    cases caller with
    | rpc =>
      cases h
      rcases failResume_task hu with ⟨pc', rfl, hstart⟩ | hu
      · cases pc' with
        | start state timings => cases hstart
        | _ => exact ⟨rfl, rfl⟩
      · cases hu
    | _ => cases ht
  | _ => cases ht

/-- A call of `complete_build` is for one attempt. -/
theorem pending_subsingleton_of_ofRpc {t : CallTask} (ht : t.ofRpc = true)
    {a : Attempt} (ha : a ∈ t.pending) : t.pending = [a] := by
  cases t with
  | succeed b report pc =>
    cases pc <;> first
      | (cases ha; done)
      | (rw [List.mem_singleton.mp ha]; rfl)
  | fail b pc caller =>
    cases caller with
    | rpc =>
      cases pc <;> first
        | (cases ha; done)
        | (rw [List.mem_singleton.mp ha]; rfl)
    | _ => cases ht
  | _ => cases ht

/-- The invariant of the two sides. -/
structure Completions (r : Runner) : Prop where
  results : ∀ e ∈ r.shared.log.results, e.2.applied = true
  ofRpc : ∀ t task, r.calls.lookup t = some task → task.ofRpc = true
  pending : ∀ a, r.Pending a → a.uuid ∈ r.shared.log.reported ∧
    (r.Running a.uuid a.drv ∨ r.dispatcher.inserted = true ∧
      ∃ i m job, r.dispatcher.attempt = some (i, m, job) ∧
        job.internalBuildId = a.uuid ∧ job.path = a.drv)
  unique : ∀ t task a t' task' a', r.calls.lookup t = some task → a ∈ task.pending →
    r.calls.lookup t' = some task' → a' ∈ task'.pending → a.uuid = a'.uuid → t = t'
  reported : ∀ u ∈ r.shared.log.reported,
    (∃ a, r.Pending a ∧ a.uuid = u) ∨ u ∈ r.shared.log.ended
  ended : ∀ u ∈ r.shared.log.ended, u ∈ r.shared.log.reported
  listed : r.shared.machines.Listed
  attempt : ∀ i m job, r.dispatcher.attempt = some (i, m, job) →
    r.shared.machines.byUuid.lookup m.id = some m
  sent : ∀ u i m, (u, i, m) ∈ r.shared.log.sent →
    r.shared.machines.byUuid.lookup m.id = some m

namespace Completions

variable {cfg : Config} {r r' : Runner}

theorem init : Completions {} := by
  constructor <;> simp [Runner.Pending, DispatchPc.attempt, Machines.Listed]

/-- The invariant gives the property. -/
theorem applied (h : Completions r) (hok : RunnerOk cfg r) : CompletionsApplied r := by
  refine ⟨h.results, fun u hu hdone => ?_⟩
  have hended : u ∈ r.shared.log.ended := by
    rcases h.reported u hu with ⟨a, ha, hau⟩ | hended
    · exact absurd hau (hdone a ha)
    · exact hended
  have hgone := (hok.attempts.ended u hended).2
  refine ⟨hended, hgone, fun drv item hitem => ?_⟩
  obtain ⟨j, hj, hp⟩ := hok.attempts.scheduled drv item hitem
  exact ⟨j, hj, hp, hgone _ j hj⟩

/-- A step that takes no attempt away and starts no call. -/
theorem of_keeps (h : Completions r) (hk : KeepsAttempts r.shared r'.shared)
    (hcalls : r'.calls = r.calls)
    (hins : r.dispatcher.inserted = true → ∀ i m job,
      r.dispatcher.attempt = some (i, m, job) → r'.dispatcher = r.dispatcher ∨
        r'.Running job.internalBuildId job.path)
    (hlisted : r'.shared.machines.Listed)
    (hattempt : ∀ i m job, r'.dispatcher.attempt = some (i, m, job) →
      r'.shared.machines.byUuid.lookup m.id = some m)
    (hsent : ∀ u i m, (u, i, m) ∈ r'.shared.log.sent →
      r'.shared.machines.byUuid.lookup m.id = some m) : Completions r' := by
  have hpending : ∀ a, r'.Pending a ↔ r.Pending a := by
    intro a
    rw [Runner.Pending, hcalls]
    rfl
  refine
    { results := fun e he => ?_, ofRpc := ?_, pending := fun a ha => ?_, unique := ?_
      reported := fun u hu => ?_, ended := fun u hu => ?_, listed := hlisted
      attempt := hattempt, sent := hsent }
  · exact (hk.answers e he).elim (h.results e) id
  · rw [hcalls]
    exact h.ofRpc
  · obtain ⟨hrep, hcases⟩ := h.pending a ((hpending a).mp ha)
    rw [hk.reported]
    refine ⟨hrep, ?_⟩
    rcases hcases with ⟨item, j, hitem, hj, hp, hu⟩ | ⟨hin, i, m, job, hat, hu, hp⟩
    · exact Or.inl ⟨item, j, hk.item _ _ hitem, hk.jobsOf _ _ hj, hp, hu⟩
    · rcases hins hin i m job hat with hd | hrun
      · exact Or.inr ⟨hd ▸ hin, i, m, job, hd ▸ hat, hu, hp⟩
      · exact Or.inl (hu ▸ hp ▸ hrun)
  · rw [hcalls]
    exact h.unique
  · rw [hk.reported] at hu
    rw [hk.ended]
    exact (h.reported u hu).imp (fun ⟨a, ha, hau⟩ => ⟨a, (hpending a).mpr ha, hau⟩) id
  · rw [hk.ended] at hu
    rw [hk.reported]
    exact h.ended u hu

/-- A step of the dispatch loop. -/
theorem dispatch (h : Completions r) (hok : RunnerOk cfg r) {s' : Shared}
    {d' : DispatchPc} (hs : DispatchStep r.shared r.held r.dispatcher s' d') :
    Completions { r with shared := s', dispatcher := d' } := by
  have hreg := hs.sameRegistry
  refine h.of_keeps (hs.keepsAttempts hok.pointers) rfl ?_ (h.listed.of_same hreg)
    ?_ ?_
  · intro hin i m job ha
    obtain ⟨w, -, -, rfl⟩ := hs.of_inserted hin ha
    have hpath := (hok.attempts.path i m job ha).1
    refine Or.inr ⟨⟨i, w.system, m⟩, job, ?_, hok.attempts.inserted i m job ha hin,
      rfl, rfl⟩
    simp [Runner.item, Map.lookup_insert_eq, hpath]
  · intro i m job ha
    rw [hreg.byUuid]
    rcases hs.attempt_cases ha with ⟨job', ha', -, -⟩ | ⟨-, -, -, system, order, hm⟩
    · exact h.attempt i m job' ha'
    · exact h.listed.candidates (fun id m hid => (hok.registry.byUuid id m hid).1) hm
  · intro u i m he
    rw [hreg.byUuid]
    rcases hs.sent_cases he with he | ⟨w, i', m', job, hd, -, he⟩
    · exact h.sent u i m he
    · cases he
      exact h.attempt i m job (by rw [hd]; rfl)

section

variable {t : TaskId} {task : CallTask} {ans : Answer} {res : Shared × Option CallTask}

/-- After a step of a call the attempts of the other tasks are pending, and
no more. -/
theorem pending_setCall (h : Completions r) (ht : r.calls.lookup t = some task)
    (hres : task.resume cfg r.shared r.held ans = some res) {t' : TaskId} {task' : CallTask}
    {a : Attempt} (ht' : (r.setCall t res).calls.lookup t' = some task')
    (ha : a ∈ task'.pending) : t' ≠ t ∧ r.calls.lookup t' = some task' := by
  rw [r.lookup_setCall t] at ht'
  split_ifs at ht' with heq
  · rw [(pending_of_ofRpc (h.ofRpc t task ht) hres task' ht').2] at ha
    cases ha
  · exact ⟨heq, ht'⟩

theorem ofRpc_setCall (h : Completions r) (ht : r.calls.lookup t = some task)
    (hres : task.resume cfg r.shared r.held ans = some res) (t' : TaskId) (task' : CallTask)
    (ht' : (r.setCall t res).calls.lookup t' = some task') : task'.ofRpc = true := by
  rw [r.lookup_setCall t] at ht'
  split_ifs at ht'
  · exact (pending_of_ofRpc (h.ofRpc t task ht) hres task' ht').1
  · exact h.ofRpc t' task' ht'

theorem unique_setCall (h : Completions r) (ht : r.calls.lookup t = some task)
    (hres : task.resume cfg r.shared r.held ans = some res) (t₁ : TaskId) (task₁ : CallTask)
    (a₁ : Attempt) (t₂ : TaskId) (task₂ : CallTask) (a₂ : Attempt)
    (h₁ : (r.setCall t res).calls.lookup t₁ = some task₁) (ha₁ : a₁ ∈ task₁.pending)
    (h₂ : (r.setCall t res).calls.lookup t₂ = some task₂) (ha₂ : a₂ ∈ task₂.pending)
    (huuid : a₁.uuid = a₂.uuid) : t₁ = t₂ :=
  h.unique t₁ task₁ a₁ t₂ task₂ a₂ (h.pending_setCall ht hres h₁ ha₁).2 ha₁
    (h.pending_setCall ht hres h₂ ha₂).2 ha₂ huuid

/-- A pending attempt of another task is still pending. -/
theorem still_pending {t' : TaskId} {task' : CallTask} {a : Attempt}
    (ht' : r.calls.lookup t' = some task') (ha : a ∈ task'.pending) (hne : t' ≠ t) :
    (r.setCall t res).Pending a := by
  refine ⟨t', task', ?_, ha⟩
  rw [r.lookup_setCall t, if_neg hne]
  exact ht'

/-- The attempt of a call that does not overtake the dispatch loop is
running. -/
theorem running_of_pending (h : Completions r) (ht : r.calls.lookup t = some task)
    (hnot : NotOvertaking r (.call t ans)) {a : Attempt} (ha : a ∈ task.pending) :
    r.Running a.uuid a.drv := by
  rcases (h.pending a ⟨t, task, ht, ha⟩).2 with hrun | ⟨hin, i, m, job, hat, hu, -⟩
  · exact hrun
  · obtain ⟨w, hd⟩ := DispatchPc.eq_schedule_of_inserted hin hat
    exact absurd hu.symm (hnot job (by rw [hd]; rfl) task ht a ha)

/-- A step of a call that ends no attempt. -/
theorem call_quiet (h : Completions r) (ht : r.calls.lookup t = some task)
    (hres : task.resume cfg r.shared r.held ans = some res) (hnone : task.pending = [])
    (hsame : SameAttempts r.shared res.1)
    (hreg : r.shared.machines.SameRegistry res.1.machines)
    (hrep : res.1.log.reported = r.shared.log.reported)
    (hanswers : ∀ e ∈ res.1.log.results, e ∈ r.shared.log.results ∨ e.2.applied = true) :
    Completions (r.setCall t res) := by
  refine
    { results := fun e he => (hanswers e he).elim (h.results e) id
      ofRpc := h.ofRpc_setCall ht hres, unique := h.unique_setCall ht hres
      pending := fun a ha => ?_, reported := fun u hu => ?_
      ended := fun u hu => ?_, listed := h.listed.of_same hreg
      attempt := fun i m job ha => ?_, sent := fun u i m he => ?_ }
  · obtain ⟨t', task', ht', ha'⟩ := ha
    obtain ⟨ha, hcases⟩ := h.pending a ⟨t', task', (h.pending_setCall ht hres ht' ha').2, ha'⟩
    refine ⟨hrep ▸ ha, hcases.imp ?_ id⟩
    rintro ⟨item, j, hitem, hj, hp⟩
    refine ⟨item, j, ?_, ?_, hp⟩
    · rw [Runner.item, Runner.setCall, hsame.scheduled]
      exact hitem
    · rw [Runner.setCall, hsame.jobsOf]
      exact hj
  · rw [Runner.setCall, hrep] at hu
    rcases h.reported u hu with ⟨a, ⟨t', task', ht', ha⟩, hau⟩ | hu
    · have hne : t' ≠ t := by
        rintro rfl
        rw [ht, Option.some.injEq] at ht'
        rw [← ht', hnone] at ha
        cases ha
      exact Or.inl ⟨a, still_pending ht' ha hne, hau⟩
    · exact Or.inr (hsame.ended ▸ hu)
  · rw [Runner.setCall, hsame.ended] at hu
    exact hrep ▸ h.ended u hu
  · rw [Runner.setCall, hreg.byUuid]
    exact h.attempt i m job ha
  · rw [Runner.setCall, hsame.sent] at he
    rw [Runner.setCall, hreg.byUuid]
    exact h.sent u i m he

/-- A step of a call that ends its attempt: the job that goes is the one of
the attempt. -/
theorem call_ends (h : Completions r) (hok : RunnerOk cfg r)
    (ht : r.calls.lookup t = some task)
    (hres : task.resume cfg r.shared r.held ans = some res) {a : Attempt}
    (hsingle : task.pending = [a]) (hrunning : r.Running a.uuid a.drv) {item : ScheduledItem}
    {job : Job} (hends : EndsAttempt r.shared res.1 a.drv item job) :
    Completions (r.setCall t res) := by
  obtain ⟨item', j, hitem, hj, hjp, hju⟩ := hrunning
  have hfound := hends.unscheduled.found
  rw [Runner.item, hfound, Option.some.injEq] at hitem
  subst hitem
  have hjob : job = j := by
    refine List.inj_on_of_nodup_map (hok.attempts.nodup _)
      (List.mem_of_find?_eq_some hends.found) hj ?_
    rw [hjp]
    simpa using List.find?_some hends.found
  have huuid : job.internalBuildId = a.uuid := by rw [hjob, hju]
  have hamem : a ∈ task.pending := by simp [hsingle]
  have ha := h.pending a ⟨t, task, ht, hamem⟩
  refine
    { results := fun e he => (hends.answers e he).elim (h.results e) id
      ofRpc := h.ofRpc_setCall ht hres, unique := h.unique_setCall ht hres
      pending := fun b hb => ?_, reported := fun u hu => ?_, ended := fun u hu => ?_
      listed := h.listed.of_same hends.registry
      attempt := fun i m job' hat => ?_, sent := fun u i m he => ?_ }
  · obtain ⟨tb, taskb, htb, hbm⟩ := hb
    obtain ⟨hne, htb⟩ := h.pending_setCall ht hres htb hbm
    obtain ⟨hrep, hcases⟩ := h.pending b ⟨tb, taskb, htb, hbm⟩
    refine ⟨hends.reported ▸ hrep, hcases.imp ?_ id⟩
    rintro ⟨itemb, jb, hitemb, hjb, hpb, hub⟩
    have hdrv : b.drv ≠ a.drv := by
      intro he
      rw [he, Runner.item, hfound, Option.some.injEq] at hitemb
      subst hitemb
      have heq : jb = j :=
        List.inj_on_of_nodup_map (hok.attempts.nodup _) hjb hj (by rw [hpb, hjp, he])
      exact hne (h.unique tb taskb b t task a htb hbm ht hamem
        (by rw [← hub, heq, hju]))
    refine ⟨itemb, jb, ?_, ?_, hpb, hub⟩
    · rw [Runner.item, Runner.setCall, hends.unscheduled.scheduled,
        Map.lookup_erase_eq, if_neg hdrv]
      exact hitemb
    · rw [Runner.setCall, hends.jobsOf]
      split_ifs
      · exact List.mem_filter.mpr ⟨hjb, by simpa [hpb] using hdrv⟩
      · exact hjb
  · rw [Runner.setCall, hends.reported] at hu
    by_cases hua : u = a.uuid
    · right
      rw [Runner.setCall, hends.ended, hua, huuid]
      exact List.mem_cons_self
    · rcases h.reported u hu with ⟨b, ⟨tb, taskb, htb, hbm⟩, hbu⟩ | hu
      · have hne : tb ≠ t := by
          rintro rfl
          rw [ht, Option.some.injEq] at htb
          rw [← htb, hsingle, List.mem_singleton] at hbm
          exact hua (by rw [← hbu, hbm])
        exact Or.inl ⟨b, still_pending htb hbm hne, hbu⟩
      · right
        rw [Runner.setCall, hends.ended]
        exact List.mem_cons_of_mem _ hu
  · rw [Runner.setCall, hends.ended] at hu
    rw [Runner.setCall, hends.reported]
    rcases List.mem_cons.mp hu with rfl | hu
    · exact huuid ▸ ha.1
    · exact h.ended u hu
  · rw [Runner.setCall, hends.registry.byUuid]
    exact h.attempt i m job' hat
  · rw [Runner.setCall, hends.sent] at he
    rw [Runner.setCall, hends.registry.byUuid]
    exact h.sent u i m he

/-- A step of a call, which does not take the item of an attempt that the
dispatch loop has not scheduled yet. -/
theorem call (h : Completions r) (hok : RunnerOk cfg r) (ht : r.calls.lookup t = some task)
    (hres : task.resume cfg r.shared r.held ans = some res)
    (hnot : NotOvertaking r (.call t ans)) : Completions (r.setCall t res) := by
  have hnew := pending_of_ofRpc (h.ofRpc t task ht) hres
  have hrunning : ∀ a rest, task.pending = a :: rest →
      task.pending = [a] ∧ r.Running a.uuid a.drv := fun a rest hp =>
    ⟨pending_subsingleton_of_ofRpc (h.ofRpc t task ht) (by simp [hp]),
      h.running_of_pending ht hnot (by simp [hp])⟩
  have hquiet := h.call_quiet ht hres
  obtain ⟨s', t'⟩ := res
  cases callStep_of_resume hres with
  | quiet hstart hsame hinfos hpending hkeeps =>
    refine hquiet ?_ hsame.sameAttempts hsame.registry hsame.reported hsame.answers
    rcases hkeeps with hkeeps | hkill
    · refine List.eq_nil_iff_forall_not_mem.mpr fun a ha => ?_
      obtain ⟨u, hu, hau⟩ := hkeeps a ha
      rw [(hnew u hu).2] at hau
      cases hau
    · have := h.ofRpc t task ht
      cases task <;> cases hkill <;> cases this
  | missing a rest hstart hp hlookup hinfos hpending hlast =>
    obtain ⟨-, item, j, hitem, -⟩ := hrunning a rest hp
    rw [Runner.item, hlookup] at hitem
    cases hitem
  | jobMissing a rest item hstart hp hitem hnone =>
    exact absurd hnone (hok.attempts.find_job hitem)
  | removeJob i system hstart hi hremoved hinfos hpending hlast =>
    refine hquiet ?_ ⟨?_, hremoved.jobsOf, hremoved.sent, hremoved.ended,
      hremoved.nextUuid⟩ hremoved.registry hremoved.reported hremoved.answers
    · cases t' with
      | none => exact hlast rfl
      | some u => rw [← hpending u rfl, (hnew u rfl).2]
    · exact hremoved.scheduled.trans (InnerQueues.removeJob_scheduled ..)
  | ends a rest item job hstart hp hends' hinfos hpending hlast =>
    exact h.call_ends hok ht hres (hrunning a rest hp).1 (hrunning a rest hp).2 hends'

end

/-- A report finds the job that the runner has for it. -/
theorem lookupAttempt_of_job (hok : RunnerOk cfg r) {u machineId : Uuid}
    {m : MachineRef} {j : Job}
    (hm : r.shared.machines.byUuid.lookup machineId = some m)
    (hj : j ∈ r.shared.jobsOf m) (hu : j.internalBuildId = u) :
    lookupAttempt r.shared u machineId = .ok ⟨u, machineId, j.path⟩ := by
  unfold lookupAttempt
  simp only [hm, Machine.getJobDrvForBuildId]
  cases hf : (r.shared.machines.machine m).jobs.find?
      (fun j => j.internalBuildId == u) with
  | none =>
    have hne := List.find?_eq_none.mp hf j hj
    simp [hu] at hne
  | some j' =>
    have hid : j'.internalBuildId = u := by simpa using List.find?_some hf
    obtain ⟨-, rfl⟩ := hok.attempts.uuid m j' (List.mem_of_find?_eq_some hf) m j hj
      (by rw [hid, hu])
    rfl

/-- A report that is not early finds its job, on the machine that the
message was sent to. -/
theorem job_of_report (h : Completions r) (hok : RunnerOk cfg r) {u machineId : Uuid}
    {state : BuildResultState} {report : BuildReport} {i : InfoRef} {m : MachineRef}
    (hsent : (u, i, m) ∈ r.shared.log.sent) (hrep : u ∉ r.shared.log.reported)
    (hnot : NotOvertaking r (.completeBuild u machineId state report)) :
    ∃ j ∈ r.shared.jobsOf m, j.internalBuildId = u ∧
      (r.Running u j.path ∨ r.dispatcher.inserted = true ∧
        r.dispatcher.attempt = some (i, m, j)) := by
  obtain ⟨-, hc | ⟨item, hitem, -, rfl, j, hj, hp, hu⟩ | ⟨hlate, job, ha, hu⟩⟩ :=
    hok.attempts.sent u i m hsent
  · exact absurd (h.ended u hc) hrep
  · exact ⟨j, hj, hu, Or.inl ⟨item, j, hp ▸ hitem, hj, rfl, hu⟩⟩
  · cases hin : r.dispatcher.inserted with
    | true =>
      exact ⟨job, hok.attempts.inserted i m job ha hin, hu, Or.inr ⟨rfl, ha⟩⟩
    | false =>
      obtain ⟨w, hd⟩ := DispatchPc.eq_sent_of_late hlate hin ha
      exact absurd hu (hnot job (by rw [hd]; rfl))

/-- A report that is not early starts a call for its attempt. -/
theorem completeBuild (h : Completions r) (hok : RunnerOk cfg r) {u machineId : Uuid}
    {state : BuildResultState} {report : BuildReport}
    (hstep : CompletionStep r (.completeBuild u machineId state report))
    (hnot : NotOvertaking r (.completeBuild u machineId state report)) :
    Completions (r.spawn (completeBuild r.shared u machineId state report)) := by
  obtain ⟨⟨⟨u', i, m⟩, hsent, hu', rfl⟩, hrep⟩ := hstep
  obtain rfl : u = u' := hu'.symm
  obtain ⟨j, hj, hu, hcases⟩ := h.job_of_report hok hsent hrep hnot
  have hlook := lookupAttempt_of_job hok (h.sent u i m hsent) hj hu
  obtain ⟨results, hs, hspec⟩ := completeBuild_spec r.shared u m.id state report
  rcases hspec with ⟨a, task, hla, rfl, ht, -, hpend⟩ | ⟨e, hla, -⟩
  swap
  · rw [hlook] at hla
    cases hla
  rw [hlook, Except.ok.injEq] at hla
  have hofRpc : task.ofRpc = true := by
    obtain ⟨a', rfl | rfl⟩ := completeBuild_task ht
    · rfl
    · rfl
  set r' := r.spawn (QueueRunner.completeBuild r.shared u m.id state report) with hr'
  have hshared : r'.shared = { r.shared with log := { r.shared.log with
      reported := u :: r.shared.log.reported } } := by rw [hr', Runner.spawn_shared, hs]
  have hd : r'.dispatcher = r.dispatcher := by rw [hr', Runner.spawn_dispatcher]
  have hlookup : ∀ t, r'.calls.lookup t =
      if t = r.nextTask then some task else r.calls.lookup t := by
    intro t
    rw [hr', Runner.lookup_spawn, ht]
    simp
  have hnew : ∀ t task', r'.calls.lookup t = some task' → ∀ b ∈ task'.pending,
      (t = r.nextTask ∧ b = ⟨u, m.id, j.path⟩) ∨
        (t ≠ r.nextTask ∧ r.calls.lookup t = some task') := by
    intro t task' ht' b hb
    rw [hlookup] at ht'
    split_ifs at ht' with heq
    · rw [Option.some.injEq] at ht'
      rw [← ht', hpend, List.mem_singleton, ← hla] at hb
      exact Or.inl ⟨heq, hb⟩
    · exact Or.inr ⟨heq, ht'⟩
  have hold : ∀ b, r.Pending b → r'.Pending b := by
    rintro b ⟨t, task', ht', hb⟩
    refine ⟨t, task', ?_, hb⟩
    rw [hlookup, if_neg (Nat.ne_of_lt (hok.tasks t task' ht'))]
    exact ht'
  have hitem : ∀ drv, r'.item drv = r.item drv := fun drv => by
    rw [Runner.item, hshared]
  have hjobs : ∀ o, r'.shared.jobsOf o = r.shared.jobsOf o := fun o => by
    rw [hshared]
    rfl
  have hrunning : ∀ u drv, r.Running u drv → r'.Running u drv := by
    rintro u drv ⟨item, j, hi, hj, hp⟩
    exact ⟨item, j, by rwa [hitem], by rwa [hjobs], hp⟩
  have hpending : ∀ b, r.Pending b → b.uuid ≠ u := by
    intro b hb he
    exact hrep (he ▸ (h.pending b hb).1)
  refine
    { results := ?_, ofRpc := ?_, pending := ?_, unique := ?_, reported := ?_
      ended := ?_, listed := ?_, attempt := ?_, sent := ?_ }
  · rw [hshared]
    exact h.results
  · intro t task' ht'
    rw [hlookup] at ht'
    split_ifs at ht'
    · rw [Option.some.injEq] at ht'
      exact ht' ▸ hofRpc
    · exact h.ofRpc t task' ht'
  · rintro b ⟨t, task', ht', hb⟩
    rw [hshared, hd]
    rcases hnew t task' ht' b hb with ⟨-, rfl⟩ | ⟨-, ht'⟩
    · refine ⟨List.mem_cons_self, hcases.imp (hrunning _ _) ?_⟩
      intro h'
      exact ⟨h'.1, i, m, j, h'.2, hu, rfl⟩
    · obtain ⟨hb', hcases'⟩ := h.pending b ⟨t, task', ht', hb⟩
      exact ⟨List.mem_cons_of_mem _ hb', hcases'.imp (hrunning _ _) id⟩
  · intro t₁ task₁ a₁ t₂ task₂ a₂ h₁ ha₁ h₂ ha₂ he
    rcases hnew t₁ task₁ h₁ a₁ ha₁ with ⟨e₁, rfl⟩ | ⟨-, h₁⟩ <;>
      rcases hnew t₂ task₂ h₂ a₂ ha₂ with ⟨e₂, rfl⟩ | ⟨-, h₂⟩
    · rw [e₁, e₂]
    · exact absurd he.symm (hpending a₂ ⟨t₂, task₂, h₂, ha₂⟩)
    · exact absurd he (hpending a₁ ⟨t₁, task₁, h₁, ha₁⟩)
    · exact h.unique t₁ task₁ a₁ t₂ task₂ a₂ h₁ ha₁ h₂ ha₂ he
  · intro v hv
    rw [hshared] at hv ⊢
    rcases List.mem_cons.mp hv with rfl | hv
    · refine Or.inl ⟨⟨v, m.id, j.path⟩, ⟨r.nextTask, task, ?_, ?_⟩, rfl⟩
      · rw [hlookup, if_pos rfl]
      · simp [hpend, ← hla]
    · refine (h.reported v hv).imp ?_ id
      rintro ⟨b, hb, hbv⟩
      exact ⟨b, hold b hb, hbv⟩
  · intro v hv
    rw [hshared] at hv ⊢
    exact List.mem_cons_of_mem _ (h.ended v hv)
  · rw [hshared]
    exact h.listed
  · rw [hshared, hd]
    exact h.attempt
  · rw [hshared]
    exact h.sent

/-- A machine registers under a new id. -/
theorem insertMachine (h : Completions r) {id : Uuid}
    (record : Machine) (sortFn : MachineSortFn)
    (hid : r.shared.machines.byUuid.lookup id = none)
    (hshared : r'.shared = { r.shared with
      queues := r.shared.queues.ensureQueuesForSystems record.systems
      machines := (r.shared.machines.insertMachine id record sortFn).1 })
    (hjobs : ∀ m, r'.shared.jobsOf m = r.shared.jobsOf m)
    (hd : r'.dispatcher = r.dispatcher) (hcalls : r'.calls = r.calls) :
    Completions r' := by
  have hscheduled := (r.shared.queues.ensureQueuesForSystems_frame record.systems).2.1
  have hreg : ∀ m : MachineRef, r.shared.machines.byUuid.lookup m.id = some m →
      r'.shared.machines.byUuid.lookup m.id = some m := by
    intro m hm
    have hne : m.id ≠ id := by
      intro he
      rw [he, hid] at hm
      cases hm
    rw [hshared]
    simp only [Machines.insertMachine, Machines.sort, Map.lookup_insert_eq, if_neg hne]
    exact hm
  refine h.of_keeps ⟨?_, ?_, ?_, ?_, ?_, ?_⟩ hcalls (fun _ _ _ _ _ => Or.inl hd) ?_ ?_ ?_
  · intro drv item hi
    rw [hshared]
    exact hscheduled ▸ hi
  · intro m j hj
    rwa [hjobs]
  · rw [hshared]
  · rw [hshared]
  · rw [hshared]
    exact fun e => Or.inl
  · rw [hshared]
  · rw [hshared]
    exact h.listed.insertMachine record sortFn hid
  · intro i m job ha
    exact hreg m (h.attempt i m job (hd ▸ ha))
  · intro u i m he
    rw [hshared] at he
    exact hreg m (h.sent u i m he)

/-- Every step that does not overtake keeps the invariant. -/
theorem step (h : Completions r) (hok : RunnerOk cfg r) {a : Action}
    (hdomain : CompletionStep r a) (hnot : NotOvertaking r a)
    (hs : RunnerStep cfg r a r') : Completions r' := by
  have hsame : ∀ {g : Graph} {p : List StorePath} {c : Creation},
      Completions { r with
        shared := { r.shared with graph := g, log := { r.shared.log with present := p } }
        creation := c } := by
    intro g p c
    exact h.of_keeps ⟨fun _ _ => id, fun _ _ => id, rfl, rfl, fun _ => Or.inl, le_refl _⟩ rfl
      (fun _ _ _ _ _ => Or.inl rfl) h.listed h.attempt h.sent
  cases hs with
  | dispatch hres => exact h.dispatch hok (dispatchStep_of_resume hres)
  | call ht hres => exact h.call hok ht hres hnot
  | completeBuild u machineId state report => exact h.completeBuild hok hdomain hnot
  | endStream hm => exact hdomain.elim
  | queueChange curIds => exact hdomain.elim
  | insertMachine id record sortFn =>
    refine h.insertMachine (.new record) sortFn hdomain rfl (fun m => ?_) rfl rfl
    exact hok.jobsOf_insertMachine id _ sortFn rfl m
  | create hnext => exact hsame
  | dropStep hheld => exact hsame
  | dropBuild hheld => exact hsame

/-- The invariant holds along every run in which no report overtakes. -/
theorem reach
    (h : Lts.Reach (Runner.next cfg) (fun r a => CompletionStep r a ∧ NotOvertaking r a)
      {} r) : Completions r := by
  refine h.invariant_of_reach init ?_
  rintro s a s' hreach hs ⟨hdomain, hnot⟩ hnext
  exact hs.step (RunnerOk.reach hreach) hdomain hnot (runnerStep_of_next hnext)

/-! ## A report that overtakes -/

/-- A report that arrives before the job is inserted is not applied. -/
theorem not_applied_of_early_report (h : Completions r) (hok : RunnerOk cfg r)
    {u machineId : Uuid} {state : BuildResultState} {report : BuildReport}
    (hstep : CompletionStep r (.completeBuild u machineId state report))
    {w : Walk} {i : InfoRef} {m : MachineRef} {job : Job}
    (hd : r.dispatcher = .realise w i (.sent m job)) (hu : job.internalBuildId = u) :
    ¬CompletionsApplied
      (r.spawn (QueueRunner.completeBuild r.shared u machineId state report)) := by
  intro happlied
  obtain ⟨results, hs, hspec⟩ := completeBuild_spec r.shared u machineId state report
  rcases hspec with ⟨a, task, hla, -⟩ | ⟨e, hla, rfl, -⟩
  · -- no machine has the job
    obtain ⟨o, j, -, hj, hju, -⟩ := lookupAttempt_eq_ok hla
    exact hok.attempts.notInserted i m job (by rw [hd]; rfl) (by rw [hd]; rfl) o j hj
      (by rw [hju, hu])
  · have he := happlied.1 (u, e) (by rw [Runner.spawn_shared, hs]; exact List.mem_cons_self)
    obtain ⟨⟨⟨u', i', m'⟩, hsent, hu', rfl⟩, -⟩ := hstep
    obtain rfl : u = u' := hu'.symm
    unfold lookupAttempt at hla
    rw [h.sent u i' m' hsent] at hla
    simp only at hla
    split at hla <;> cases hla
    cases he

/-- A call that looks for its item before the dispatch loop has put it into
`scheduled` is not applied. -/
theorem not_applied_of_early_call (h : Completions r) (hok : RunnerOk cfg r)
    {t : TaskId} {task : CallTask} {ans : Answer} {res : Shared × Option CallTask}
    (ht : r.calls.lookup t = some task)
    (hres : task.resume cfg r.shared r.held ans = some res)
    {w : Walk} {i : InfoRef} {m : MachineRef} {job : Job}
    (hd : r.dispatcher = .realise w i (.schedule m job)) {a : Attempt}
    (ha : a ∈ task.pending) (hu : a.uuid = job.internalBuildId) :
    ¬CompletionsApplied (r.setCall t res) := by
  have hat : r.dispatcher.attempt = some (i, m, job) := by rw [hd]; rfl
  have hpath := (hok.attempts.path i m job hat).1
  have hnone := (hok.pointers.holding w i _ hd).2
  have hrpc := h.ofRpc t task ht
  have hsingle := pending_subsingleton_of_ofRpc hrpc ha
  have hnew := pending_of_ofRpc hrpc hres
  -- the derivation of the attempt is not scheduled
  have hitem : r.item a.drv = none := by
    rcases (h.pending a ⟨t, task, ht, ha⟩).2 with
      ⟨item, j, hitem, hj, hp, hju⟩ | ⟨-, i', m', job', hat', -, hp⟩
    · have hin := hok.attempts.inserted i m job hat (by rw [hd]; rfl)
      obtain ⟨-, rfl⟩ := hok.attempts.uuid _ _ hj _ _ hin (by rw [hju, hu])
      rw [← hp, hpath, hnone] at hitem
      cases hitem
    · rw [hat] at hat'
      cases hat'
      rw [← hp, hpath, hnone]
  have hhead : ∀ b rest, task.pending = b :: rest → b = a := by
    intro b rest hp
    rw [hsingle] at hp
    exact (List.cons.inj hp).1.symm
  intro happlied
  obtain ⟨s', t'⟩ := res
  cases callStep_of_resume hres with
  | quiet hstart hsame hinfos hpending hkeeps =>
    rcases hkeeps with hkeeps | hkill
    · obtain ⟨v, hv, hav⟩ := hkeeps a ha
      rw [(hnew v hv).2] at hav
      cases hav
    · cases task <;> cases hkill <;> cases hrpc
  | missing b rest hstart hp hlookup hinfos hpending hlast =>
    exact absurd (happlied.1 (b.uuid, .stepNotScheduled) List.mem_cons_self) (by simp
      [CallResult.applied])
  | jobMissing b rest item hstart hp hitem' hjob =>
    rw [hhead b rest hp] at hitem'
    rw [Runner.item, hitem'] at hitem
    cases hitem
  | removeJob j system hstart hj hremoved hinfos hpending hlast =>
    cases t' with
    | none =>
      rw [hlast rfl] at hsingle
      cases hsingle
    | some v =>
      have hv := hpending v rfl
      rw [(hnew v rfl).2, hsingle] at hv
      cases hv
  | ends b rest item job' hstart hp hends hinfos hpending hlast =>
    have hfound := hends.unscheduled.found
    rw [hhead b rest hp] at hfound
    rw [Runner.item, hfound] at hitem
    cases hitem

end Completions

/-! ## Whole runs -/

/-- In every run in which no report overtakes the dispatch loop, every
report is applied.  The condition cannot be weakened: from a state of such
a run, a step keeps the property exactly when it does not overtake. -/
theorem completionsApplied_runs (cfg : Config) (r : Runner)
    (hrun : Lts.Reach (Runner.next cfg)
      (fun r a => CompletionStep r a ∧ NotOvertaking r a) {} r) :
    CompletionsApplied r ∧ ∀ a r', CompletionStep r a → r.next cfg a = some r' →
      (CompletionsApplied r' ↔ NotOvertaking r a) := by
  have hok := RunnerOk.reach hrun
  have h := Completions.reach hrun
  refine ⟨h.applied hok, fun a r' hdomain hnext => ?_⟩
  have hstep := runnerStep_of_next hnext
  refine ⟨fun happlied => ?_, fun hnot => ?_⟩
  · cases hstep with
    | call ht hres =>
      intro job hjob task ht' a ha hu
      obtain ⟨w, i, m, hd⟩ := DispatchPc.eq_of_insertedJob hjob
      rw [Option.mem_def, ht, Option.some.injEq] at ht'
      subst ht'
      exact h.not_applied_of_early_call hok ht hres hd ha hu happlied
    | completeBuild u machineId state report =>
      intro job hjob hu
      obtain ⟨w, i, m, hd⟩ := DispatchPc.eq_of_sentJob hjob
      exact h.not_applied_of_early_report hok hdomain hd hu happlied
    | _ => trivial
  · exact (h.step hok hdomain hnot hstep).applied (hok.step hstep)

/-- The builder reports after the item is in `scheduled`, and the call ends
the attempt. -/
theorem completionsApplied_runs_report : ∃ r, Lts.Reach (Runner.next Sample.config)
    (fun r a => CompletionStep r a ∧ NotOvertaking r a) {} r ∧
      r.shared.log.reported = [0] ∧ r.shared.log.ended = [0] ∧
      CompletionsApplied r := by
  have hend : (Lts.runWith (Runner.next Sample.config)
      (fun r a => CompletionStep r a ∧ NotOvertaking r a) {}
      (Sample.register :: Sample.created ++ Sample.sent ++
        [.dispatch {}, .dispatch {}, .completeBuild 0 0 .success {}, .call 0 {}])).map
      (fun r => (r.shared.log.reported, r.shared.log.ended)) = some ([0], [0]) := by
    decide +kernel
  obtain ⟨r, hr, he⟩ := Option.map_eq_some_iff.mp hend
  simp only [Prod.mk.injEq] at he
  have hrun := Lts.reach_of_runWith hr
  exact ⟨r, hrun, he.1, he.2, (completionsApplied_runs Sample.config r hrun).1⟩

/-- The builder reports right after the message: the runner answers that it
has no such job. -/
theorem completionsApplied_fails : ¬∀ cfg r,
    Lts.Reach (Runner.next cfg) CompletionStep {} r → CompletionsApplied r := by
  intro h
  have hend : (Lts.runWith (Runner.next Sample.config) CompletionStep {}
      (Sample.register :: Sample.created ++ Sample.sent ++
        [.completeBuild 0 0 .success {}])).map (fun r => r.shared.log.results) =
      some [(0, .jobNotFound)] := by decide +kernel
  obtain ⟨r, hr, he⟩ := Option.map_eq_some_iff.mp hend
  have happlied := (h _ r (Lts.reach_of_runWith hr)).1 (0, .jobNotFound) (by simp [he])
  cases happlied

end QueueRunner
