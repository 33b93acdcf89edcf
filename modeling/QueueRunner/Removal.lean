import QueueRunner.Invariant

/-!
# The removal of a machine

When the stream of a machine ends, its tunnel task calls `remove_machine`.
The machine leaves the registry, the jobs it has at that moment fail one
after the other, and only then the receiver of the message channel is
dropped.  The dispatch loop may hold the machine all the time.

No step stays scheduled on a machine that is gone, unless the dispatch
loop sends to it after it has left the registry, or the removal falls
between two of the three updates of a dispatch.
-/

namespace QueueRunner

/-- The task belongs to the end of a stream. -/
def CallTask.isTunnel : CallTask → Bool
  | .fail _ _ (.tunnel _ _) | .tunnelClose _ => true
  | _ => false

/-- The machine is in `Machines.by_uuid`. -/
def Machines.Registered (ms : Machines) (m : MachineRef) : Prop :=
  ms.byUuid.lookup m.id = some m

instance (ms : Machines) (m : MachineRef) : Decidable (ms.Registered m) :=
  inferInstanceAs (Decidable (_ = _))

/-- The machine that the dispatch loop is about to send to, or whose message
it has sent. -/
def DispatchPc.sendsTo : DispatchPc → Option MachineRef
  | .realise _ _ (.send m _) => some m
  | _ => none

def DispatchPc.sentTo : DispatchPc → Option MachineRef
  | .realise _ _ (.sent m _) => some m
  | _ => none

/-- A machine registers under an id that is not in use. -/
def RegistersFresh (r : Runner) : Action → Prop
  | .insertMachine id _ _ => r.shared.machines.byUuid.lookup id = none
  | _ => True

/-- The removal of a machine does not fall into a dispatch to it: the
dispatch loop does not send to a machine that has left the registry while
its channel is still open, the removal does not take its snapshot between
the message and the insertion of the job, and it does not look for an item
between the insertion of the job and `add_job_to_scheduled`. -/
def NotDuringDispatch (r : Runner) : Action → Prop
  | .dispatch _ => ∀ m ∈ r.dispatcher.sendsTo,
    (r.shared.machines.machine m).receiverOpen = true →
      r.shared.machines.Registered m
  | .endStream m => ∀ o ∈ r.dispatcher.sentTo, o.id ≠ m.id
  | .call t _ => ∀ job ∈ r.dispatcher.insertedJob, ∀ task ∈ r.calls.lookup t,
    task.isTunnel = true → ∀ a ∈ task.starting, a.uuid ≠ job.internalBuildId
  | _ => True

instance (r : Runner) (a : Action) : Decidable (RegistersFresh r a) :=
  match a with
  | .insertMachine id _ _ =>
    inferInstanceAs (Decidable (r.shared.machines.byUuid.lookup id = none))
  | .dispatch _ | .call _ _ | .completeBuild _ _ _ _ | .create _ _ | .endStream _
  | .queueChange _ | .dropStep _ | .dropBuild _ => inferInstanceAs (Decidable True)

instance (r : Runner) (a : Action) : Decidable (NotDuringDispatch r a) :=
  match a with
  | .dispatch _ => inferInstanceAs (Decidable (∀ m ∈ r.dispatcher.sendsTo,
      (r.shared.machines.machine m).receiverOpen = true →
        r.shared.machines.Registered m))
  | .endStream m =>
    inferInstanceAs (Decidable (∀ o ∈ r.dispatcher.sentTo, o.id ≠ m.id))
  | .call t _ => inferInstanceAs (Decidable
      (∀ job ∈ r.dispatcher.insertedJob, ∀ task ∈ r.calls.lookup t,
        task.isTunnel = true → ∀ a ∈ task.starting, a.uuid ≠ job.internalBuildId))
  | .completeBuild _ _ _ _ | .create _ _ | .queueChange _ | .insertMachine _ _ _
  | .dropStep _ | .dropBuild _ => inferInstanceAs (Decidable True)

/-- Once the dispatch loop has no attempt in its hands and no stream is
ending, every item is on a registered machine that has the job, and every
job of a registered machine has its item there. -/
def NoJobLost (r : Runner) : Prop :=
  r.dispatcher.attempt = none →
  (∀ t task, r.calls.lookup t = some task → task.isTunnel = false) →
  (∀ drv item, r.item drv = some item →
    r.shared.machines.Registered item.machine ∧
      ∃ j ∈ r.shared.jobsOf item.machine, j.path = drv) ∧
  ∀ id m, r.shared.machines.byUuid.lookup id = some m →
    ∀ j ∈ r.shared.jobsOf m, ∃ item, r.item j.path = some item ∧ item.machine = m

/-- The end of a stream still has to fail an attempt. -/
def Runner.TunnelPending (r : Runner) (a : Attempt) : Prop :=
  ∃ t task, r.calls.lookup t = some task ∧ task.isTunnel = true ∧ a ∈ task.pending

/-- What is on a machine that is gone will be failed. -/
structure Removals (r : Runner) : Prop where
  item : ∀ drv item, r.item drv = some item →
    r.shared.machines.Registered item.machine ∨ ∃ a, r.TunnelPending a ∧ a.drv = drv
  late : ∀ i m job, r.dispatcher.attempt = some (i, m, job) →
    r.dispatcher.late = true → r.shared.machines.Registered m ∨
      (r.dispatcher.inserted = true ∧
        ∃ a, r.TunnelPending a ∧ a.drv = job.path ∧ a.uuid = job.internalBuildId)

/-- The task that ends a stream goes on until the receiver is dropped. -/
theorem isTunnel_of_resume {cfg : Config} {s : Shared} {held : InfoRef → Bool}
    {t : CallTask} {ans : Answer} {res : Shared × Option CallTask}
    (ht : t.isTunnel = true) (h : t.resume cfg s held ans = some res) :
    ∀ u, res.2 = some u → u.isTunnel = true := by
  have hnext : ∀ m rest u, (Caller.tunnel m rest).next = some u → u.isTunnel = true := by
    intro m rest u hu
    cases rest <;> cases hu <;> rfl
  cases t with
  | fail a pc caller =>
    cases caller with
    | tunnel m rest =>
      cases h
      intro u hu
      rcases failResume_task hu with ⟨pc', rfl, -⟩ | hu
      · rfl
      · exact hnext m rest u hu
    | _ => cases ht
  | tunnelClose m =>
    cases h
    intro u hu
    cases hu
  | _ => cases ht

namespace Removals

variable {cfg : Config} {r r' : Runner}

theorem init : Removals {} := by
  constructor <;> simp [Runner.item, DispatchPc.attempt]

/-- The invariant gives the property. -/
theorem noJobLost (h : Removals r) (hok : RunnerOk cfg r) : NoJobLost r := by
  intro hnone htunnel
  refine ⟨fun drv item hitem => ⟨?_, hok.attempts.scheduled drv item hitem⟩,
    fun id m hm j hj => ?_⟩
  · rcases h.item drv item hitem with hreg | ⟨a, ⟨t, task, ht, htun, -⟩, -⟩
    · exact hreg
    · rw [htunnel t task ht] at htun
      cases htun
  · rcases hok.attempts.job m j hj with hitem | ⟨-, i, ha⟩
    · exact hitem
    · rw [hnone] at ha
      cases ha

/-- A step that keeps the items, the registered machines and what the ends
of streams have to do. -/
theorem of_same (h : Removals r)
    (hitem : ∀ drv item, r'.item drv = some item → r.item drv = some item)
    (hreg : ∀ m, r.shared.machines.Registered m → r'.shared.machines.Registered m)
    (htunnel : ∀ a, r.TunnelPending a → r'.TunnelPending a)
    (hd : r'.dispatcher = r.dispatcher) : Removals r' where
  item drv item hi := (h.item drv item (hitem drv item hi)).imp (hreg _)
    (fun ⟨a, ha, hdrv⟩ => ⟨a, htunnel a ha, hdrv⟩)
  late i m job ha hl := by
    rw [hd] at ha hl ⊢
    exact (h.late i m job ha hl).imp (hreg m)
      (fun ⟨hin, a, ha, hp⟩ => ⟨hin, a, htunnel a ha, hp⟩)

/-- A step of the dispatch loop. -/
theorem dispatch (h : Removals r) (hok : RunnerOk cfg r) {s' : Shared}
    {d' : DispatchPc} (hs : DispatchStep r.shared r.held r.dispatcher s' d')
    (hopen : ∀ m ∈ r.dispatcher.sendsTo,
      (r.shared.machines.machine m).receiverOpen = true →
        r.shared.machines.Registered m) :
    Removals { r with shared := s', dispatcher := d' } := by
  have hreg : ∀ m, r.shared.machines.Registered m → s'.machines.Registered m := by
    intro m hm
    rw [Machines.Registered, hs.sameRegistry.byUuid]
    exact hm
  refine ⟨fun drv item hitem => ?_, fun i m job ha hl => ?_⟩
  · rcases hs.item_cases hitem with hitem | ⟨w, i, m, job, hd, hdrv, rfl⟩
    · exact (h.item drv item hitem).imp (hreg _) id
    · have ha : r.dispatcher.attempt = some (i, m, job) := by rw [hd]; rfl
      refine (h.late i m job ha (by rw [hd]; rfl)).imp (hreg m) ?_
      rintro ⟨-, a, ha', hp, -⟩
      exact ⟨a, ha', by rw [hp, (hok.attempts.path i m job ha).1, hdrv]⟩
  · obtain ⟨w, i', m', job', ⟨hd, rfl, hrecv⟩ | ⟨hd, rfl⟩⟩ := hs.late_cases hl
    · cases ha
      exact Or.inl (hreg m (hopen m (by rw [hd]; rfl) hrecv))
    · cases ha
      rcases h.late i m job (by rw [hd]; rfl) (by rw [hd]; rfl) with hm | ⟨hin, -⟩
      · exact Or.inl (hreg m hm)
      · rw [hd] at hin
        cases hin

/-- The attempts that the ends of streams still have to fail, after a task
has been resumed. -/
theorem tunnelPending_setCall {t : TaskId} {task : CallTask}
    {res : Shared × Option CallTask} (ht : r.calls.lookup t = some task)
    (hnew : task.isTunnel = true → ∀ u, res.2 = some u → u.isTunnel = true)
    {a : Attempt} (ha : r.TunnelPending a)
    (hkeep : task.isTunnel = true → a ∈ task.pending → ∃ u, res.2 = some u ∧
      a ∈ u.pending) : (r.setCall t res).TunnelPending a := by
  obtain ⟨t', task', ht', htun, ha⟩ := ha
  by_cases heq : t' = t
  · subst heq
    rw [ht, Option.some.injEq] at ht'
    subst ht'
    obtain ⟨u, hu, hau⟩ := hkeep htun ha
    refine ⟨t', u, ?_, hnew htun u hu, hau⟩
    rw [Runner.lookup_setCall, if_pos rfl, hu]
  · refine ⟨t', task', ?_, htun, ha⟩
    rw [Runner.lookup_setCall, if_neg heq]
    exact ht'

/-- An attempt that a task had to end, other than the one it has started
with. -/
theorem rest_of_ne {task : CallTask} {t' : Option CallTask} {a b : Attempt}
    {rest : List Attempt} (hp : task.pending = a :: rest)
    (hpending : ∀ u ∈ t', u.pending = rest) (hlast : t' = none → rest = [])
    (hb : b ∈ task.pending) (hne : b ≠ a) : ∃ u, t' = some u ∧ b ∈ u.pending := by
  rw [hp] at hb
  have hb : b ∈ rest := (List.mem_cons.mp hb).resolve_left hne
  cases t' with
  | none =>
    rw [hlast rfl] at hb
    cases hb
  | some u => exact ⟨u, rfl, by rwa [hpending u rfl]⟩

/-- A step of a call. -/
theorem call (h : Removals r) (hok : RunnerOk cfg r) {t : TaskId}
    {task : CallTask} {ans : Answer} {res : Shared × Option CallTask}
    (ht : r.calls.lookup t = some task)
    (hres : task.resume cfg r.shared r.held ans = some res)
    (hnot : ∀ job ∈ r.dispatcher.insertedJob, task.isTunnel = true →
      ∀ a ∈ task.starting, a.uuid ≠ job.internalBuildId) :
    Removals (r.setCall t res) := by
  have hnew := fun htun => isTunnel_of_resume htun hres
  -- the first step of a call consumes its attempt, with the item it finds
  have hfirst : ∀ {a rest}, task.starting = some a → task.pending = a :: rest →
      (∀ u ∈ res.2, u.pending = rest) → (res.2 = none → rest = []) →
      r.shared.machines.SameRegistry res.1.machines →
      (∀ drv item, (r.setCall t res).item drv = some item →
        drv ≠ a.drv ∧ r.item drv = some item) →
      Removals (r.setCall t res) := by
    intro a rest hstart hp hpending hlast hreg hitem
    have hreg' : ∀ m, r.shared.machines.Registered m →
        res.1.machines.Registered m := by
      intro m hm
      rw [Machines.Registered, hreg.byUuid]
      exact hm
    refine ⟨fun drv item hi => ?_, fun i m job ha hl => ?_⟩
    · obtain ⟨hne, hi⟩ := hitem drv item hi
      refine (h.item drv item hi).imp (hreg' _) ?_
      rintro ⟨b, hb, rfl⟩
      refine ⟨b, tunnelPending_setCall ht hnew hb (fun _ hmem => ?_), rfl⟩
      exact rest_of_ne hp hpending hlast hmem (fun he => hne (by rw [he]))
    · refine (h.late i m job ha hl).imp (hreg' m) ?_
      rintro ⟨hin, b, hb, hdrv, hu⟩
      refine ⟨hin, b, tunnelPending_setCall ht hnew hb (fun htun hmem => ?_), hdrv, hu⟩
      obtain ⟨w, hd⟩ := DispatchPc.eq_schedule_of_inserted hin ha
      have hne := hnot job (by rw [show r.dispatcher = _ from hd]; rfl) htun a hstart
      exact rest_of_ne hp hpending hlast hmem (fun he => hne (by rw [← he, hu]))
  obtain ⟨s', t'⟩ := res
  cases callStep_of_resume hres with
  | quiet hstart hsame hinfos hpending hkeeps =>
    refine h.of_same (fun drv item hi => ?_) (fun m hm => ?_) (fun a ha => ?_) rfl
    · rwa [Runner.item, Runner.setCall, hsame.scheduled] at hi
    · rw [Machines.Registered, Runner.setCall, hsame.registry.byUuid]
      exact hm
    · refine tunnelPending_setCall ht hnew ha fun htun hmem => ?_
      rcases hkeeps with hkeeps | hkill
      · exact hkeeps a hmem
      · cases task <;> cases hkill <;> cases htun
  | missing a rest hstart hp hlookup hinfos hpending hlast =>
    refine hfirst hstart hp hpending hlast (.refl _) (fun drv item hi => ⟨?_, hi⟩)
    rintro rfl
    have hi' : r.item a.drv = some item := hi
    rw [Runner.item, hlookup] at hi'
    cases hi'
  | ends a rest item job hstart hp hends hinfos hpending hlast =>
    refine hfirst hstart hp hpending hlast hends.registry (fun drv item' hi => ?_)
    rw [Runner.item, Runner.setCall, hends.unscheduled.scheduled,
      Map.lookup_erase_eq] at hi
    split_ifs at hi with hdrv
    exact ⟨hdrv, hi⟩
  | jobMissing a rest item hstart hp hitem hnone =>
    exact absurd hnone (hok.attempts.find_job hitem)
  | removeJob i system hstart hi hremoved hinfos hpending hlast =>
    refine h.of_same (fun drv item hi => ?_) (fun m hm => ?_) (fun a ha => ?_) rfl
    · rw [Runner.item, Runner.setCall, hremoved.scheduled,
        InnerQueues.removeJob_scheduled] at hi
      exact hi
    · rw [Machines.Registered, Runner.setCall, hremoved.registry.byUuid]
      exact hm
    · refine tunnelPending_setCall ht hnew ha fun _ hmem => ?_
      cases t' with
      | none =>
        rw [hlast rfl] at hmem
        cases hmem
      | some u => exact ⟨u, rfl, by rwa [hpending u rfl]⟩

/-- What the ends of streams have to do stays when a task starts. -/
theorem tunnelPending_spawn (hok : RunnerOk cfg r) (res : Shared × Option CallTask)
    {a : Attempt} (ha : r.TunnelPending a) : (r.spawn res).TunnelPending a := by
  obtain ⟨t, task, ht, htun, ha⟩ := ha
  refine ⟨t, task, ?_, htun, ha⟩
  have hne : t ≠ r.nextTask := Nat.ne_of_lt (hok.tasks t task ht)
  rw [Runner.lookup_spawn, if_neg (fun hc => hne hc.1)]
  exact ht

/-- A stream ends. -/
theorem endStream (h : Removals r) (hok : RunnerOk cfg r) (m : MachineRef)
    (hnot : ∀ o ∈ r.dispatcher.sentTo, o.id ≠ m.id) :
    Removals (({ r with tunnels := r.tunnels.erase m } : Runner).spawn
      (endStream r.shared m)) := by
  obtain ⟨machines, task, hs, ht, hmachine, -, -, -, -, hcases⟩ := endStream_spec r.shared m
  have htun : task.isTunnel = true := by
    rcases endStream_task ht with rfl | ⟨a, rest, rfl⟩
    · rfl
    · rfl
  set r₀ : Runner := { r with tunnels := r.tunnels.erase m } with hr₀
  set r' := r₀.spawn (QueueRunner.endStream r.shared m) with hr'
  have hok₀ : ∀ t task, r₀.calls.lookup t = some task → t < r₀.nextTask := hok.tasks
  have hshared : r'.shared = { r.shared with machines := machines } := by
    rw [hr', Runner.spawn_shared, hs]
  have hd : r'.dispatcher = r.dispatcher := r₀.spawn_dispatcher _
  have hitem : ∀ drv, r'.item drv = r.item drv := fun drv => by rw [Runner.item, hshared]
  have hold : ∀ a, r.TunnelPending a → r'.TunnelPending a := by
    rintro a ⟨t, task', ht', htun', ha⟩
    refine ⟨t, task', ?_, htun', ha⟩
    have hne : t ≠ r₀.nextTask := Nat.ne_of_lt (hok₀ t task' ht')
    rw [hr', Runner.lookup_spawn, if_neg (fun hc => hne hc.1)]
    exact ht'
  have hnew : ∀ a ∈ task.pending, r'.TunnelPending a := by
    intro a ha
    refine ⟨r₀.nextTask, task, ?_, htun, ha⟩
    rw [hr', Runner.lookup_spawn, ht]
    simp
  rcases hcases with ⟨-, hsame, -⟩ | ⟨o, ho, hbyUuid, -, hpending⟩
  · refine h.of_same (fun drv item hi => hitem drv ▸ hi) (fun m' hm' => ?_) hold hd
    rw [hshared, hsame]
    exact hm'
  · -- a machine that is not the removed one stays registered
    have hreg : ∀ m', r.shared.machines.Registered m' → m' ≠ o →
        r'.shared.machines.Registered m' := by
      intro m' hm' hne
      have hid : m'.id ≠ m.id := by
        intro he
        rw [Machines.Registered, he, ho, Option.some.injEq] at hm'
        exact hne hm'.symm
      rw [Machines.Registered, hshared, hbyUuid, Map.lookup_erase_eq, if_neg hid]
      exact hm'
    -- the jobs of the removed one are in the snapshot
    have hsnap : ∀ j ∈ r.shared.jobsOf o, ∃ a, r'.TunnelPending a ∧ a.drv = j.path ∧
        a.uuid = j.internalBuildId := by
      intro j hj
      refine ⟨⟨j.internalBuildId, m.id, j.path⟩, hnew _ ?_, rfl, rfl⟩
      rw [hpending]
      exact List.mem_map.mpr ⟨j, hj, rfl⟩
    refine ⟨fun drv item hi => ?_, fun i m' job ha hl => ?_⟩
    · rw [hitem] at hi
      by_cases hmach : item.machine = o
      · obtain ⟨j, hj, hjp⟩ := hok.attempts.scheduled drv item hi
        obtain ⟨a, ha, hdrv, -⟩ := hsnap j (hmach ▸ hj)
        exact Or.inr ⟨a, ha, hdrv.trans hjp⟩
      · refine (h.item drv item hi).imp (fun hm => hreg _ hm hmach) ?_
        rintro ⟨a, ha, hdrv⟩
        exact ⟨a, hold a ha, hdrv⟩
    · rw [hd] at ha hl ⊢
      by_cases hmach : m' = o
      · subst hmach
        cases hin : r.dispatcher.inserted with
        | true =>
          obtain ⟨a, hta, hdrv, hu⟩ := hsnap job (hok.attempts.inserted i m' job ha hin)
          exact Or.inr ⟨rfl, a, hta, hdrv, hu⟩
        | false =>
          obtain ⟨w, hsent⟩ := DispatchPc.eq_sent_of_late hl hin ha
          exact absurd (hok.registry.byUuid m.id m' ho).1
            (hnot m' (by rw [hsent]; rfl))
      · refine (h.late i m' job ha hl).imp (fun hm => hreg _ hm hmach) ?_
        rintro ⟨hin, a, hta, hp⟩
        exact ⟨hin, a, hold a hta, hp⟩

/-- Every step that meets the condition keeps the invariant. -/
theorem step (h : Removals r) (hok : RunnerOk cfg r) {a : Action}
    (hfresh : RegistersFresh r a) (hnot : NotDuringDispatch r a)
    (hs : RunnerStep cfg r a r') : Removals r' := by
  cases hs with
  | dispatch hres => exact h.dispatch hok (dispatchStep_of_resume hres) hnot
  | call ht hres => exact h.call hok ht hres (fun job hjob => hnot job hjob _ ht)
  | completeBuild uuid machineId state report =>
    obtain ⟨results, hs, -⟩ := completeBuild_spec r.shared uuid machineId state report
    refine h.of_same (fun drv item hi => ?_) (fun m hm => ?_)
      (fun a => tunnelPending_spawn hok _) (r.spawn_dispatcher _)
    · rwa [Runner.item, Runner.spawn_shared, hs] at hi
    · rw [Runner.spawn_shared, hs]
      exact hm
  | endStream hm => exact h.endStream hok _ hnot
  | queueChange curIds =>
    refine h.of_same (fun drv item hi => ?_) (fun m hm => ?_)
      (fun a => tunnelPending_spawn hok _) (r.spawn_dispatcher _)
    · rw [Runner.item, Runner.spawn_shared] at hi
      exact hi
    · rw [Runner.spawn_shared]
      exact hm
  | insertMachine id record sortFn =>
    refine h.of_same (fun drv item hi => ?_) (fun m hm => ?_) (fun _ ha => ha) rfl
    · rwa [Runner.item,
        (r.shared.queues.ensureQueuesForSystems_frame record.systems).2.1] at hi
    · have hne : m.id ≠ id := by
        intro he
        rw [Machines.Registered, he, show _ = none from hfresh] at hm
        cases hm
      simp only [Machines.Registered, Machines.insertMachine, Machines.sort,
        Map.lookup_insert_eq, if_neg hne]
      exact hm
  | create hnext => exact h.of_same (fun _ _ => id) (fun _ => id) (fun _ => id) rfl
  | dropStep hheld => exact h.of_same (fun _ _ => id) (fun _ => id) (fun _ => id) rfl
  | dropBuild hheld => exact h.of_same (fun _ _ => id) (fun _ => id) (fun _ => id) rfl

theorem reach (h : Lts.Reach (Runner.next cfg)
    (fun r a => RegistersFresh r a ∧ NotDuringDispatch r a) {} r) : Removals r := by
  refine h.invariant_of_reach init ?_
  rintro s a s' hreach hs ⟨hfresh, hnot⟩ hnext
  exact hs.step (RunnerOk.reach hreach) hfresh hnot (runnerStep_of_next hnext)

end Removals

/-! ## Whole runs -/

/-- In every run in which no removal of a machine falls into a dispatch to
it, no job is lost. -/
theorem noJobLost_runs (cfg : Config) (r : Runner)
    (hrun : Lts.Reach (Runner.next cfg)
      (fun r a => RegistersFresh r a ∧ NotDuringDispatch r a) {} r) : NoJobLost r :=
  (Removals.reach hrun).noJobLost (RunnerOk.reach hrun)

/-- The stream of a machine with a scheduled job ends. -/
theorem noJobLost_runs_endStream : ∃ r, Lts.Reach (Runner.next Sample.config)
    (fun r a => RegistersFresh r a ∧ NotDuringDispatch r a) {} r ∧
      r.shared.log.ended = [0] ∧ r.shared.queues.scheduled.keys = [] ∧
      NoJobLost r := by
  have hend : (Lts.runWith (Runner.next Sample.config)
      (fun r a => RegistersFresh r a ∧ NotDuringDispatch r a) {}
      (Sample.register :: Sample.created ++ Sample.sent ++ Sample.scheduled ++
        [.endStream Sample.machine, .call 0 {}, .call 0 {}, .call 0 {}])).map
      (fun r => (r.shared.log.ended, r.shared.queues.scheduled.keys)) =
      some ([0], []) := by decide +kernel
  obtain ⟨r, hr, he⟩ := Option.map_eq_some_iff.mp hend
  simp only [Prod.mk.injEq] at he
  have hrun := Lts.reach_of_runWith hr
  exact ⟨r, hrun, he.1, he.2, noJobLost_runs Sample.config r hrun⟩

/-- The stream ends right before the message is sent.  The channel is still
open, so the job is sent to the machine that is gone and stays scheduled
there. -/
theorem noJobLost_fails : ¬∀ cfg r,
    Lts.Reach (Runner.next cfg) RegistersFresh {} r → NoJobLost r := by
  intro h
  have hend : (Lts.runWith (Runner.next Sample.config) RegistersFresh {}
      (Sample.register :: Sample.created ++ Sample.sent.dropLast ++
        [.endStream Sample.machine, .dispatch {}] ++ Sample.scheduled ++
        [.call 0 {}])).map (fun r =>
      (r.dispatcher.attempt, r.calls.keys, r.shared.queues.scheduled.lookup Sample.drv,
        r.shared.machines.byUuid.keys)) =
      some (none, [], some ⟨Sample.info, "x86_64-linux", Sample.machine⟩, []) := by
    decide +kernel
  obtain ⟨r, hr, he⟩ := Option.map_eq_some_iff.mp hend
  simp only [Prod.mk.injEq] at he
  obtain ⟨hnone, hcalls, hitem, hkeys⟩ := he
  have hlost := h _ r (Lts.reach_of_runWith hr) hnone ?_
  · have hreg := (hlost.1 _ _ hitem).1
    have hmem : Sample.machine.id ∈ r.shared.machines.byUuid.keys :=
      AList.lookup_isSome.mp (by rw [show _ = some _ from hreg]; rfl)
    rw [hkeys] at hmem
    cases hmem
  · intro t task ht
    have hmem : t ∈ r.calls.keys := AList.lookup_isSome.mp (by rw [ht]; rfl)
    rw [hcalls] at hmem
    cases hmem

end QueueRunner
