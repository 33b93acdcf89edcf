import QueueRunner.ResolvedDrv
import QueueRunner.Verdicts

/-!
# The messages to the builders

The runner sends a `BuildMessage` in the dispatch loop and an `AbortMessage`
in `kill_active_steps`.  `Runner.outgoing` is the message that a step of the
runner puts into the channel of a machine.

`SentLog` relates the messages to the rest of the runner: no two build
messages carry the same id, and every job of a machine, every attempt that a
call works on and every abort message belongs to a build message that was
sent to the same machine for the same derivation.
-/

namespace QueueRunner

/-- The request for a job that `build_drv` sends, and the abort message of
`abort_build`, with the machine that gets them. -/
def Runner.outgoing (r : Runner) (opts : BuildOptions) (presigned : Option PresignedUrlOpts) :
    Action → Option (MachineRef × MachineMessage)
  | .dispatch _ =>
    match r.dispatcher with
    | .realise _ _ (.send m job) =>
      if (r.shared.machines.machine m).receiverOpen then
        some (m, job.buildDrv opts presigned)
      else none
    | _ => none
  | .call t _ =>
    match r.calls.lookup t with
    | some (.killAbort a m _ _) =>
      if (r.shared.machines.machine m).receiverOpen then
        some (m, .abortMessage a.uuid)
      else none
    | _ => none
  | _ => none

/-- The step works on an attempt that was sent. -/
def Runner.SentTo (r : Runner) (uuid : Uuid) (m : MachineRef) (drv : StorePath) : Prop :=
  ∃ i, (uuid, i, m) ∈ r.shared.log.sent ∧ i.drvPath = drv

/-- What the messages that were sent say about the runner. -/
structure SentLog (r : Runner) : Prop where
  nodup : (r.shared.log.sent.map Prod.fst).Nodup
  late : ∀ i m job, r.dispatcher.late = true → r.dispatcher.attempt = some (i, m, job) →
    (job.internalBuildId, i, m) ∈ r.shared.log.sent
  job : ∀ m, ∀ j ∈ r.shared.jobsOf m, r.SentTo j.internalBuildId m j.path
  pending : ∀ a, r.Pending a → ∃ m, m.id = a.machineId ∧ r.SentTo a.uuid m a.drv
  abort : ∀ t a m todo cancelled, r.calls.lookup t = some (.killAbort a m todo cancelled) →
    r.SentTo a.uuid m a.drv

/-! ## The steps that matter -/

/-- The dispatch loop inserts a job when its message has been sent. -/
theorem DispatchStep.jobsOf_late {s s' : Shared} {held : InfoRef → Bool}
    {d d' : DispatchPc} (hs : DispatchStep s held d s' d') {m : MachineRef} {j : Job}
    (hj : j ∈ s'.jobsOf m) :
    j ∈ s.jobsOf m ∨ ∃ i, d.attempt = some (i, m, j) ∧ d.late = true := by
  cases hs with
  | other hm => exact Or.inl (hm.jobsOf m ▸ hj)
  | skip hjobs hm => exact Or.inl (hm.jobsOf m ▸ hj)
  | cancel hjobs hlive hflag hfin hdep hm => exact Or.inl (hm.jobsOf m ▸ hj)
  | pick m' job ans hjobs hlive hflag hfin hdep hmachine huuid hpath hm hnext =>
    exact Or.inl (hm.jobsOf m ▸ hj)
  | advance hm => exact Or.inl (hm.jobsOf m ▸ hj)
  | abandon hm => exact Or.inl (hm.jobsOf m ▸ hj)
  | insertJob w i m' job now =>
    rw [Attempts.jobsOf_buildDrvSent] at hj
    split_ifs at hj with hm
    · rcases List.mem_append.mp hj with hj | hj
      · exact Or.inl hj
      · rw [List.mem_singleton.mp hj, hm]
        exact Or.inr ⟨i, rfl, rfl⟩
    · exact Or.inl hj
  | _ => exact Or.inl hj

/-- The loop is past the message of its attempt when it has just sent it, or when
it was past it before. -/
theorem DispatchStep.late_sent {s s' : Shared} {held : InfoRef → Bool} {d d' : DispatchPc}
    (hs : DispatchStep s held d s' d') (hl : d'.late = true) {i : InfoRef} {m : MachineRef}
    {job : Job} (ha : d'.attempt = some (i, m, job)) :
    (job.internalBuildId, i, m) ∈ s'.log.sent ∨
      d.late = true ∧ d.attempt = some (i, m, job) := by
  have hnone : ∀ {d' : DispatchPc}, d'.walk? = none → d'.late = false := fun hw =>
    (DispatchPc.attempt_eq_none_of_info (DispatchPc.info_eq_none_of_walk? hw)).2
  cases hs with
  | send w i' m' job' hopen =>
    cases ha
    exact Or.inl List.mem_cons_self
  | insertJob w i' m' job' now =>
    cases ha
    exact Or.inr ⟨rfl, rfl⟩
  | advance hm hlate hlate' => exact absurd (hlate'.symm.trans hl) (by decide)
  | other hm hinfo hwalk => exact absurd ((hnone hwalk).symm.trans hl) (by decide)
  | scrub hinfo hwalk => exact absurd ((hnone hwalk).symm.trans hl) (by decide)
  | removeByPath drv hinfo hwalk =>
    exact absurd ((hnone hwalk).symm.trans hl) (by decide)
  | _ => cases hl

/-- The abort message is for a job of the machine that gets it. -/
theorem CallTask.killAbort_of_resume {cfg : Config} {s s' : Shared} {held : InfoRef → Bool}
    {task : CallTask} {ans : Answer} {a : Attempt} {m : MachineRef}
    {todo : List (StorePath × ScheduledItem)} {cancelled : List Attempt}
    (h : task.resume cfg s held ans = some (s', some (.killAbort a m todo cancelled))) :
    ∃ j ∈ s.jobsOf m, j.internalBuildId = a.uuid ∧ j.path = a.drv := by
  unfold CallTask.resume at h
  cases task with
  | succeed a' report pc =>
    simp only [Option.some.injEq] at h
    obtain ⟨pc', he, -⟩ := succeedResume_task (congrArg Prod.snd h)
    cases he
  | fail a' pc caller =>
    simp only [Option.some.injEq] at h
    rcases failResume_task (congrArg Prod.snd h) with ⟨pc', he, -⟩ | he
    · cases he
    · cases caller with
      | rpc => cases he
      | tunnel m' rest => cases rest <;> cases he
      | queueChange rest => cases rest <;> cases he
  | killStart =>
    simp only at h
    split_ifs at h
    cases h
  | kill items cancelled' =>
    cases items with
    | nil =>
      simp only [Option.some.injEq] at h
      cases cancelled' <;> cases h
    | cons e items =>
      simp only [Option.some.injEq, killResume] at h
      split_ifs at h
      · cases h
      · cases h
      · split at h
        · rename_i uuid huuid
          cases h
          simp only [Machine.getInternalBuildIdForDrv, Option.map_eq_some_iff] at huuid
          obtain ⟨j, hj, rfl⟩ := huuid
          exact ⟨j, List.mem_of_find?_eq_some hj, rfl, by simpa using List.find?_some hj⟩
        · cases h
  | killAbort a' m' todo' cancelled' =>
    simp only at h
    split_ifs at h <;> cases h
  | tunnelClose m' => cases h

namespace SentLog

variable {cfg : Config} {r r' : Runner}

theorem init : SentLog {} := by
  constructor <;> simp [DispatchPc.late, Shared.jobsOf, Runner.Pending]

/-- An id has been sent to one machine for one step info. -/
theorem unique (h : SentLog r) {u : Uuid} {i i' : InfoRef} {m m' : MachineRef}
    (hi : (u, i, m) ∈ r.shared.log.sent) (hi' : (u, i', m') ∈ r.shared.log.sent) :
    i = i' ∧ m = m' := by
  have heq := List.inj_on_of_nodup_map h.nodup hi hi' rfl
  simp only [Prod.mk.injEq, true_and] at heq
  exact heq

/-- A step after which more was sent, and that takes up no other attempts. -/
theorem of_subset (h : SentLog r) (hnodup : (r'.shared.log.sent.map Prod.fst).Nodup)
    (hsent : r.shared.log.sent ⊆ r'.shared.log.sent)
    (hlate : ∀ i m job, r'.dispatcher.late = true →
      r'.dispatcher.attempt = some (i, m, job) →
      (job.internalBuildId, i, m) ∈ r'.shared.log.sent)
    (hjobs : ∀ m, ∀ j ∈ r'.shared.jobsOf m, j ∈ r.shared.jobsOf m ∨
      r'.SentTo j.internalBuildId m j.path)
    (hpending : ∀ a, r'.Pending a → r.Pending a ∨
      ∃ m j, m.id = a.machineId ∧ j ∈ r.shared.jobsOf m ∧ j.internalBuildId = a.uuid ∧
        j.path = a.drv)
    (habort : ∀ t a m todo cancelled,
      r'.calls.lookup t = some (.killAbort a m todo cancelled) →
      r.calls.lookup t = some (.killAbort a m todo cancelled) ∨
        ∃ j ∈ r.shared.jobsOf m, j.internalBuildId = a.uuid ∧ j.path = a.drv) :
    SentLog r' := by
  have hmono : ∀ {u m drv}, r.SentTo u m drv → r'.SentTo u m drv := by
    intro u m drv ⟨i, hi, hdrv⟩
    exact ⟨i, hsent hi, hdrv⟩
  refine { nodup := hnodup, late := hlate, job := ?_, pending := ?_, abort := ?_ }
  · intro m j hj
    rcases hjobs m j hj with hj | hj
    · exact hmono (h.job m j hj)
    · exact hj
  · intro a ha
    rcases hpending a ha with ha | ⟨m, j, hm, hj, hu, hp⟩
    · obtain ⟨m, hm, hs⟩ := h.pending a ha
      exact ⟨m, hm, hmono hs⟩
    · refine ⟨m, hm, ?_⟩
      rw [← hu, ← hp]
      exact hmono (h.job m j hj)
  · intro t a m todo cancelled ht
    rcases habort t a m todo cancelled ht with ht | ⟨j, hj, hu, hp⟩
    · exact hmono (h.abort t a m todo cancelled ht)
    · rw [← hu, ← hp]
      exact hmono (h.job m j hj)

/-- A step that sends nothing. -/
theorem of_same (h : SentLog r) (hsent : r'.shared.log.sent = r.shared.log.sent)
    (hlate : r'.dispatcher = r.dispatcher)
    (hjobs : ∀ m, ∀ j ∈ r'.shared.jobsOf m, j ∈ r.shared.jobsOf m)
    (hpending : ∀ a, r'.Pending a → r.Pending a ∨
      ∃ m j, m.id = a.machineId ∧ j ∈ r.shared.jobsOf m ∧ j.internalBuildId = a.uuid ∧
        j.path = a.drv)
    (habort : ∀ t a m todo cancelled,
      r'.calls.lookup t = some (.killAbort a m todo cancelled) →
      r.calls.lookup t = some (.killAbort a m todo cancelled) ∨
        ∃ j ∈ r.shared.jobsOf m, j.internalBuildId = a.uuid ∧ j.path = a.drv) :
    SentLog r' := by
  refine h.of_subset (hsent ▸ h.nodup) (hsent ▸ List.Subset.refl _) ?_
    (fun m j hj => Or.inl (hjobs m j hj)) hpending habort
  rw [hlate, hsent]
  exact h.late

/-- A step of the dispatch loop. -/
theorem dispatch (h : SentLog r) (hok : RunnerOk cfg r) {s' : Shared} {d' : DispatchPc}
    (hs : DispatchStep r.shared r.held r.dispatcher s' d') :
    SentLog { r with shared := s', dispatcher := d' } := by
  have hsub : r.shared.log.sent ⊆ s'.log.sent := by
    rcases hs.sent_eq with heq | ⟨w, i, m, job, -, -, rfl⟩
    · rw [heq]
      exact List.Subset.refl _
    · exact List.subset_cons_self _ _
  refine h.of_subset ?_ hsub ?_ ?_ (fun a ha => Or.inl ha) (fun t a m todo c ht => Or.inl ht)
  · rcases hs.sent_eq with heq | ⟨w, i, m, job, hd, -, rfl⟩
    · exact heq ▸ h.nodup
    · refine List.nodup_cons.mpr ⟨?_, h.nodup⟩
      intro hmem
      obtain ⟨e, he, hid⟩ := List.mem_map.mp hmem
      exact hok.attempts.notSent i m job (by rw [hd]; rfl) (by rw [hd]; rfl) e he hid
  · intro i m job hlate ha
    change d'.late = true at hlate
    change d'.attempt = some (i, m, job) at ha
    rcases hs.late_sent hlate ha with hmem | ⟨hlate₀, ha₀⟩
    · exact hmem
    · exact hsub (h.late i m job hlate₀ ha₀)
  · intro m j hj
    rcases hs.jobsOf_late hj with hj | ⟨i, ha, hlate⟩
    · exact Or.inl hj
    · exact Or.inr ⟨i, hsub (h.late i m j hlate ha), (hok.attempts.path i m j ha).1.symm⟩

/-- The attempts that a call takes up have a job. -/
theorem call_pending {s' : Shared} {task : CallTask} {t' : Option CallTask}
    (hs : CallStep r.shared r.held task s' t') {u : CallTask} (hu : t' = some u)
    {a : Attempt} (ha : a ∈ u.pending) (hok : RunnerOk cfg r) :
    a ∈ task.pending ∨ r.shared.HasJob a := by
  cases hs with
  | quiet hstart hsame hinfos hpending hkeeps => exact hpending u hu a ha
  | missing b rest hstart hp hlookup hinfos hpending hlast =>
    rw [hpending u hu] at ha
    exact Or.inl (hp ▸ List.mem_cons_of_mem _ ha)
  | ends b rest item job hstart hp hends hinfos hpending hlast =>
    rw [hpending u hu] at ha
    exact Or.inl (hp ▸ List.mem_cons_of_mem _ ha)
  | jobMissing b rest item hstart hp hitem hnone =>
    exact absurd hnone (hok.attempts.find_job hitem)
  | removeJob i system hstart hi hremoved hinfos hpending hlast =>
    exact Or.inl (hpending u hu ▸ ha)

/-- A call takes no job up. -/
theorem call_jobs {s' : Shared} {task : CallTask} {t' : Option CallTask}
    (hs : CallStep r.shared r.held task s' t') (hok : RunnerOk cfg r) {m : MachineRef}
    {j : Job} (hj : j ∈ s'.jobsOf m) : j ∈ r.shared.jobsOf m := by
  cases hs with
  | quiet hstart hsame => rwa [← hsame.jobsOf]
  | missing => exact hj
  | ends a rest item job hstart hp hends =>
    rw [hends.jobsOf] at hj
    split_ifs at hj
    · exact List.mem_of_mem_filter hj
    · exact hj
  | jobMissing a rest item hstart hp hitem hnone =>
    exact absurd hnone (hok.attempts.find_job hitem)
  | removeJob i system hstart hi hremoved =>
    rw [hremoved.jobsOf] at hj
    exact hj

/-- A step of a call. -/
theorem call (h : SentLog r) (hok : RunnerOk cfg r) {t : TaskId} {task : CallTask}
    {ans : Answer} {res : Shared × Option CallTask} (ht : r.calls.lookup t = some task)
    (hres : task.resume cfg r.shared r.held ans = some res) : SentLog (r.setCall t res) := by
  have hs := callStep_of_resume hres
  refine h.of_same (hs.sent_eq hok) rfl (fun m j hj => call_jobs hs hok hj) ?_ ?_
  · intro a ha
    rcases Runner.pending_setCall ha with ⟨t', task', -, ht', ha⟩ | ⟨u, hu, ha⟩
    · exact Or.inl ⟨t', task', ht', ha⟩
    · rcases call_pending hs hu ha hok with ha | ha
      · exact Or.inl ⟨t, task, ht, ha⟩
      · exact Or.inr ha
  · intro t' a m todo cancelled ht'
    rw [Runner.lookup_setCall] at ht'
    split_ifs at ht' with heq
    · obtain ⟨s', u⟩ := res
      change u = some _ at ht'
      subst ht'
      exact Or.inr (CallTask.killAbort_of_resume hres)
    · exact Or.inl ht'

/-- A task starts for attempts that have a job. -/
theorem spawn (h : SentLog r) {res : Shared × Option CallTask}
    (hsent : res.1.log.sent = r.shared.log.sent)
    (hmachine : res.1.machines.machine = r.shared.machines.machine)
    (hpending : ∀ u, res.2 = some u → ∀ a ∈ u.pending,
      ∃ m j, m.id = a.machineId ∧ j ∈ r.shared.jobsOf m ∧ j.internalBuildId = a.uuid ∧
        j.path = a.drv)
    (habort : ∀ a m todo cancelled, res.2 ≠ some (.killAbort a m todo cancelled)) :
    SentLog (r.spawn res) := by
  refine h.of_same ?_ (r.spawn_dispatcher res) (fun m j hj => ?_) (fun a ha => ?_) ?_
  · rwa [Runner.spawn_shared]
  · rwa [Runner.spawn_shared, Shared.jobsOf, hmachine] at hj
  · rcases Runner.pending_spawn ha with ha | ⟨u, hu, ha⟩
    · exact Or.inl ha
    · exact Or.inr (hpending u hu a ha)
  · intro t a m todo cancelled ht
    rw [Runner.lookup_spawn] at ht
    split_ifs at ht with heq
    · exact absurd ht (habort a m todo cancelled)
    · exact Or.inl ht

/-- Every step of the runner. -/
theorem step (h : SentLog r) (hok : RunnerOk cfg r) {a : Action}
    (hs : RunnerStep cfg r a r') : SentLog r' := by
  cases hs with
  | dispatch hres => exact h.dispatch hok (dispatchStep_of_resume hres)
  | call ht hres => exact h.call hok ht hres
  | completeBuild uuid machineId state report =>
    obtain ⟨results, hshared, htask⟩ :=
      completeBuild_spec r.shared uuid machineId state report
    refine h.spawn (by rw [hshared]) (by rw [hshared]) (fun u hu a ha => ?_) ?_
    · rcases htask with ⟨b, task, hl, -, htask, -, hp⟩ | ⟨e, -, -, hnone⟩
      · rw [hu, Option.some.injEq] at htask
        rw [htask, hp, List.mem_singleton] at ha
        subst ha
        obtain ⟨m, j, hm, hj, hid, rfl⟩ := lookupAttempt_eq_ok hl
        exact ⟨m, j, (hok.registry.byUuid _ m hm).1, hj, hid, rfl⟩
      · rw [hnone] at hu
        cases hu
    · intro a m todo cancelled hu
      obtain ⟨b, hb | hb⟩ := completeBuild_task hu <;> cases hb
  | @endStream m hm =>
    obtain ⟨machines, task, hshared, htask, hmachine, -, -, -, -, hp⟩ :=
      endStream_spec r.shared m
    refine spawn (r := { r with tunnels := r.tunnels.erase m }) ?_ (by rw [hshared])
      (by rw [hshared, hmachine]) (fun u hu a ha => ?_) ?_
    · exact h.of_same rfl rfl (fun _ _ hj => hj) (fun _ ha => Or.inl ha)
        (fun _ _ _ _ _ ht => Or.inl ht)
    · rw [htask, Option.some.injEq] at hu
      rcases hp with ⟨-, -, hp⟩ | ⟨o, ho, -, -, hp⟩
      · rw [← hu, hp] at ha
        cases ha
      · rw [← hu, hp] at ha
        obtain ⟨j, hj, rfl⟩ := List.mem_map.mp ha
        exact ⟨o, j, (hok.registry.byUuid _ o ho).1, hj, rfl, rfl⟩
    · intro a m' todo cancelled hu
      rcases endStream_task hu with he | ⟨b, rest, he⟩ <;> cases he
  | queueChange curIds =>
    refine h.spawn rfl rfl (fun u hu a ha => ?_) (fun a m todo cancelled hu => by cases hu)
    cases hu
    cases ha
  | insertMachine id record sortFn =>
    refine h.of_same rfl rfl (fun m j hj => ?_) (fun _ ha => Or.inl ha)
      (fun _ _ _ _ _ ht => Or.inl ht)
    rwa [Shared.jobsOf, hok.jobsOf_insertMachine id _ sortFn rfl m] at hj
  | create hnext =>
    exact h.of_same rfl rfl (fun _ _ hj => hj) (fun _ ha => Or.inl ha)
      (fun _ _ _ _ _ ht => Or.inl ht)
  | dropStep hheld =>
    exact h.of_same rfl rfl (fun _ _ hj => hj) (fun _ ha => Or.inl ha)
      (fun _ _ _ _ _ ht => Or.inl ht)
  | dropBuild hheld =>
    exact h.of_same rfl rfl (fun _ _ hj => hj) (fun _ ha => Or.inl ha)
      (fun _ _ _ _ _ ht => Or.inl ht)

theorem reach {ok : Runner → Action → Prop} (h : Lts.Reach (Runner.next cfg) ok {} r) :
    SentLog r := by
  refine h.invariant_of_reach (I := SentLog) init ?_
  intro s a s' hreach hs _ hnext
  exact hs.step (RunnerOk.reach hreach) (runnerStep_of_next hnext)

end SentLog

end QueueRunner
