import QueueRunner.Registry

/-!
# The invariant of the runner

`RunnerOk` collects what holds in every state that the runner reaches:
the calls that create steps are in order, the pointers to step infos are
unique, and every attempt is where it should be.  `RunnerOk.step` goes
once through the actions of the runner.  The properties of whole runs
build on `RunnerOk.reach`.
-/

namespace QueueRunner

/-! ## The start of a call -/

/-- `complete_build` only writes to the history.  It starts a task when a
machine has the job. -/
theorem completeBuild_spec (s : Shared) (uuid machineId : Uuid)
    (state : BuildResultState) (report : BuildReport) :
    ∃ results, (completeBuild s uuid machineId state report).1 =
        { s with log := { s.log with
            reported := uuid :: s.log.reported, results := results } } ∧
      ((∃ a task, lookupAttempt s uuid machineId = .ok a ∧
          results = s.log.results ∧
          (completeBuild s uuid machineId state report).2 = some task ∧
          task.infos = [] ∧ task.pending = [a]) ∨
        ∃ e, lookupAttempt s uuid machineId = .error e ∧
          results = (uuid, e) :: s.log.results ∧
          (completeBuild s uuid machineId state report).2 = none) := by
  have hlookup : lookupAttempt { s with log := { s.log with
      reported := uuid :: s.log.reported } } uuid machineId =
      lookupAttempt s uuid machineId := rfl
  unfold completeBuild
  simp only [hlookup]
  cases hl : lookupAttempt s uuid machineId with
  | error e => exact ⟨_, rfl, Or.inr ⟨e, rfl, rfl, rfl⟩⟩
  | ok a =>
    refine ⟨s.log.results, ?_⟩
    split_ifs
    · exact ⟨rfl, Or.inl ⟨a, _, rfl, rfl, rfl, rfl, rfl⟩⟩
    · exact ⟨rfl, Or.inl ⟨a, _, rfl, rfl, rfl, rfl, rfl⟩⟩

/-- The task of `complete_build` succeeds or fails the attempt. -/
theorem completeBuild_task {s : Shared} {uuid machineId : Uuid} {state : BuildResultState}
    {report : BuildReport} {task : CallTask}
    (h : (completeBuild s uuid machineId state report).2 = some task) :
    ∃ a, task = .succeed a report .start ∨
      task = .fail a (.start state report.toBuildTimings) .rpc := by
  unfold completeBuild at h
  simp only at h
  split at h
  · cases h
  · rename_i a _
    split_ifs at h
    · exact ⟨a, Or.inl (Option.some.inj h).symm⟩
    · exact ⟨a, Or.inr (Option.some.inj h).symm⟩

/-- The attempt that `complete_build` finds. -/
theorem lookupAttempt_eq_ok {s : Shared} {uuid machineId : Uuid} {a : Attempt}
    (h : lookupAttempt s uuid machineId = .ok a) :
    ∃ m j, s.machines.byUuid.lookup machineId = some m ∧ j ∈ s.jobsOf m ∧
      j.internalBuildId = uuid ∧ a = ⟨uuid, machineId, j.path⟩ := by
  unfold lookupAttempt at h
  cases hm : s.machines.byUuid.lookup machineId with
  | none => simp [hm] at h
  | some m =>
    simp only [hm, Machine.getJobDrvForBuildId] at h
    cases hj : (s.machines.machine m).jobs.find? (fun j => j.internalBuildId == uuid) with
    | none => simp [hj] at h
    | some j =>
      simp only [hj, Option.map_some, Except.ok.injEq] at h
      exact ⟨m, j, rfl, List.mem_of_find?_eq_some hj, by simpa using List.find?_some hj,
        h.symm⟩

/-- The end of a stream removes the machine and starts the task that fails
its jobs. -/
theorem endStream_spec (s : Shared) (m : MachineRef) :
    ∃ machines task, (endStream s m).1 = { s with machines := machines } ∧
      (endStream s m).2 = some task ∧ machines.machine = s.machines.machine ∧
      machines.fresh = s.machines.fresh ∧
      (∀ id o, machines.byUuid.lookup id = some o →
        s.machines.byUuid.lookup id = some o) ∧
      (∀ system l, machines.bySystem.lookup system = some l → ∀ o ∈ l,
        ∃ l', s.machines.bySystem.lookup system = some l' ∧ o ∈ l') ∧
      task.infos = [] ∧
      ((s.machines.byUuid.lookup m.id = none ∧ machines = s.machines ∧
          task.pending = []) ∨
        ∃ o, s.machines.byUuid.lookup m.id = some o ∧
          machines.byUuid = s.machines.byUuid.erase m.id ∧
          machines.bySystem = (s.machines.machine o).systems.foldl
            (Machines.retainSystem m.id) s.machines.bySystem ∧
          task.pending = (s.jobsOf o).map (fun j =>
            (⟨j.internalBuildId, m.id, j.path⟩ : Attempt))) := by
  unfold endStream Machines.removeMachine
  cases hm : s.machines.byUuid.lookup m.id with
  | none =>
    exact ⟨s.machines, _, rfl, rfl, rfl, rfl, fun _ _ => id,
      fun _ l hl _ ho => ⟨l, hl, ho⟩, rfl, Or.inl ⟨rfl, rfl, rfl⟩⟩
  | some o =>
    simp only
    obtain ⟨task, htask⟩ : ∃ task, (Caller.tunnel m ((s.machines.machine o).jobs.map
        (fun j => (⟨j.internalBuildId, m.id, j.path⟩ : Attempt)))).next = some task := by
      cases (s.machines.machine o).jobs <;> exact ⟨_, rfl⟩
    obtain ⟨hpending, hinfos⟩ := Caller.pending_of_next htask
    refine ⟨_, task, rfl, htask, rfl, rfl, ?_, ?_, hinfos, Or.inr ⟨o, rfl, rfl, rfl, hpending⟩⟩
    · intro id o' ho'
      simp only [Map.lookup_erase_eq] at ho'
      split_ifs at ho'
      exact ho'
    · intro system l hl o' ho'
      exact (Machines.mem_foldl_retainSystem _ _ _ hl ho').1

/-- The task that is started at the end of a stream is one of the tunnel. -/
theorem endStream_task {s : Shared} {m : MachineRef} {task : CallTask}
    (h : (endStream s m).2 = some task) :
    task = .tunnelClose m ∨
      ∃ a rest, task = .fail a (.start .preparingFailure {}) (.tunnel m rest) := by
  unfold endStream at h
  split at h
  · exact Or.inl (Option.some.inj h).symm
  · rename_i o machines _
    simp only at h
    cases hjobs : (machines.machine o).jobs with
    | nil =>
      rw [hjobs] at h
      exact Or.inl (Option.some.inj h).symm
    | cons j jobs =>
      rw [hjobs] at h
      exact Or.inr ⟨_, _, (Option.some.inj h).symm⟩

/-! ## One step of the runner -/

/-- What a step of the runner does, action by action. -/
inductive RunnerStep (cfg : Config) (r : Runner) : Action → Runner → Prop where
  | dispatch {ans : Answer} {s' : Shared} {d' : DispatchPc}
      (h : r.dispatcher.resume cfg r.shared r.held ans = some (s', d')) :
      RunnerStep cfg r (.dispatch ans) { r with shared := s', dispatcher := d' }
  | call {t : TaskId} {ans : Answer} {task : CallTask}
      {res : Shared × Option CallTask} (ht : r.calls.lookup t = some task)
      (h : task.resume cfg r.shared r.held ans = some res) :
      RunnerStep cfg r (.call t ans) (r.setCall t res)
  | completeBuild (uuid machineId : Uuid) (state : BuildResultState)
      (report : BuildReport) :
      RunnerStep cfg r (.completeBuild uuid machineId state report)
        (r.spawn (completeBuild r.shared uuid machineId state report))
  | endStream {m : MachineRef} (hm : m ∈ r.tunnels) :
      RunnerStep cfg r (.endStream m)
        (({ r with tunnels := r.tunnels.erase m } : Runner).spawn
          (endStream r.shared m))
  | queueChange (curIds : List BuildID) :
      RunnerStep cfg r (.queueChange curIds) (r.spawn (queueChange r.shared curIds))
  | insertMachine (id : Uuid) (record : Machine) (sortFn : MachineSortFn) :
      RunnerStep cfg r (.insertMachine id record sortFn)
        { r with
          shared := { r.shared with
            queues := r.shared.queues.ensureQueuesForSystems record.systems
            machines := (r.shared.machines.insertMachine id (.new record) sortFn).1 }
          tunnels := ⟨id, r.shared.machines.fresh⟩ :: r.tunnels }
  | create {a : CreateAction} {ans : Answer} {c : CreateState}
      (h : r.createState.next cfg ans a = some c) :
      RunnerStep cfg r (.create a ans) (r.setCreateState c)
  | dropStep {s : StepRef} (h : r.stepHeld s = false) :
      RunnerStep cfg r (.dropStep s)
        { r with shared := { r.shared with graph := r.shared.graph.dropStep s } }
  | dropBuild {b : BuildRef} (h : r.buildHeld b = false) :
      RunnerStep cfg r (.dropBuild b)
        { r with shared := { r.shared with graph := r.shared.graph.dropBuild b } }

theorem runnerStep_of_next {cfg : Config} {r r' : Runner} {a : Action}
    (h : r.next cfg a = some r') : RunnerStep cfg r a r' := by
  cases a with
  | dispatch ans =>
    simp only [Runner.next] at h
    split at h <;> cases h
    exact .dispatch (by assumption)
  | call t ans =>
    simp only [Runner.next] at h
    split at h
    · cases h
    · rename_i task ht
      split at h <;> cases h
      exact .call ht (by assumption)
  | completeBuild uuid machineId state report =>
    cases h
    exact .completeBuild uuid machineId state report
  | endStream m =>
    simp only [Runner.next] at h
    split_ifs at h with hm
    cases h
    exact .endStream hm
  | queueChange curIds =>
    cases h
    exact .queueChange curIds
  | insertMachine id record sortFn =>
    cases h
    exact .insertMachine id record sortFn
  | create a ans =>
    simp only [Runner.next] at h
    split at h <;> cases h
    exact .create (by assumption)
  | dropStep s =>
    simp only [Runner.next] at h
    split_ifs at h with hs
    cases h
    exact .dropStep (by simpa using hs)
  | dropBuild b =>
    simp only [Runner.next] at h
    split_ifs at h with hb
    cases h
    exact .dropBuild (by simpa using hb)

@[simp] theorem Runner.spawn_shared (r : Runner) (res : Shared × Option CallTask) :
    (r.spawn res).shared = res.1 := by
  unfold spawn
  split <;> rfl

/-- What a step of the runner makes of the graph. -/
inductive RunnerGraph (r : Runner) : Action → Graph → Prop where
  | fades {a : Action} {g : Graph} (h : r.shared.graph.Fades g) : RunnerGraph r a g
  | call {t : TaskId} {ans : Answer} {task : CallTask} {g : Graph}
      (ht : r.calls.lookup t = some task) (h : CallGraph r.shared task g) :
      RunnerGraph r (.call t ans) g
  | create {a : CreateAction} {ans : Answer} {g : Graph}
      (h : CreateGraph r.createState a g) : RunnerGraph r (.create a ans) g
  | dropStep (s : StepRef) : RunnerGraph r (.dropStep s) (r.shared.graph.dropStep s)
  | dropBuild (b : BuildRef) : RunnerGraph r (.dropBuild b) (r.shared.graph.dropBuild b)

/-- Every step of the runner, by what it makes of the graph. -/
theorem RunnerStep.runnerGraph {cfg : Config} {r r' : Runner} {a : Action}
    (h : RunnerStep cfg r a r') : RunnerGraph r a r'.shared.graph := by
  cases h with
  | dispatch hres => exact .fades (dispatch_fades hres)
  | call ht hres => exact .call ht (callGraph_of_resume hres)
  | completeBuild uuid machineId state report =>
    obtain ⟨results, hshared, -⟩ := completeBuild_spec r.shared uuid machineId state report
    rw [Runner.spawn_shared, hshared]
    exact .fades (.refl _)
  | @endStream m hm =>
    obtain ⟨machines, task, hshared, -⟩ := endStream_spec r.shared m
    rw [Runner.spawn_shared, hshared]
    exact .fades (.refl _)
  | queueChange curIds =>
    rw [Runner.spawn_shared]
    exact .fades (.retainBuilds _ _)
  | insertMachine id record sortFn => exact .fades (.refl _)
  | create hnext => exact .create (CreateState.createStep_of_next hnext).createGraph
  | @dropStep s hheld => exact .dropStep s
  | @dropBuild b hheld => exact .dropBuild b

/-! ## The invariant -/

/-- What holds in every state of the runner. -/
structure RunnerOk (cfg : Config) (r : Runner) : Prop where
  create : CreateOk cfg r.createState
  pointers : Pointers cfg r
  attempts : Attempts r
  registry : Registry r
  tasks : ∀ t task, r.calls.lookup t = some task → t < r.nextTask

@[simp] theorem Runner.spawn_dispatcher (r : Runner)
    (res : Shared × Option CallTask) :
    (r.spawn res).dispatcher = r.dispatcher := by
  unfold spawn
  split <;> rfl

/-- Only its own steps move the dispatch loop. -/
theorem RunnerStep.dispatcher_eq {cfg : Config} {r r' : Runner} {a : Action}
    (hs : RunnerStep cfg r a r') (ha : ∀ ans, a ≠ .dispatch ans) :
    r'.dispatcher = r.dispatcher := by
  cases hs with
  | dispatch hres => exact absurd rfl (ha _)
  | completeBuild uuid machineId state report => exact r.spawn_dispatcher _
  | endStream hm => exact Runner.spawn_dispatcher _ _
  | queueChange curIds => exact r.spawn_dispatcher _
  | _ => rfl

@[simp] theorem Runner.spawn_creation (r : Runner)
    (res : Shared × Option CallTask) :
    (r.spawn res).creation = r.creation := by
  unfold spawn
  split <;> rfl

/-- A report does not reach what the creation of builds works on. -/
theorem Runner.createState_completeBuild (r : Runner) (uuid machineId : Uuid)
    (state : BuildResultState) (report : BuildReport) :
    (r.spawn (completeBuild r.shared uuid machineId state report)).createState =
      r.createState := by
  obtain ⟨results, hshared, -⟩ := completeBuild_spec r.shared uuid machineId state report
  rw [createState, createState, spawn_shared, spawn_creation, hshared]

/-- Nor does the end of a stream. -/
theorem Runner.createState_endStream (r : Runner) (m : MachineRef) :
    (({ r with tunnels := r.tunnels.erase m } : Runner).spawn
      (endStream r.shared m)).createState = r.createState := by
  obtain ⟨machines, task, hshared, -⟩ := endStream_spec r.shared m
  rw [createState, createState, spawn_shared, spawn_creation, hshared]

namespace RunnerOk

variable {cfg : Config} {r r' : Runner}

theorem init : RunnerOk cfg {} where
  create := CreateOk.init
  pointers := Pointers.init
  attempts := Attempts.init
  registry := Registry.init
  tasks := by simp

/-- A step that only touches the graph and the calls that create steps. -/
theorem of_create (h : RunnerOk cfg r) (hc : CreateOk cfg r'.createState)
    (hqueues : r'.shared.queues = r.shared.queues)
    (hmachines : r'.shared.machines = r.shared.machines)
    (hsent : r'.shared.log.sent = r.shared.log.sent)
    (hended : r'.shared.log.ended = r.shared.log.ended)
    (hnext : r'.shared.nextUuid = r.shared.nextUuid)
    (hd : r'.dispatcher = r.dispatcher)
    (hheld : ∀ i, r'.held i = true → r.held i = true)
    (htasks : ∀ t task, r'.calls.lookup t = some task → t < r'.nextTask) :
    RunnerOk cfg r' where
  create := hc
  pointers := h.pointers.shrinks_same (.of_sameQueues hheld hqueues) hd
  attempts := by
    refine h.attempts.of_same_loop ⟨?_, fun m => ?_, hsent, hended, ?_⟩ hd
    · rw [hqueues]
    · rw [Shared.jobsOf, hmachines]
      rfl
    · rw [hnext]
  registry := by
    refine h.registry.of_same_loop ?_ hd (fun m j hj => ?_)
    · rw [hmachines]
      exact .refl _
    · rwa [Shared.jobsOf, hmachines] at hj
  tasks := htasks

/-- The tasks after one has started. -/
theorem tasks_spawn (h : ∀ t task, r.calls.lookup t = some task → t < r.nextTask)
    (res : Shared × Option CallTask) (t : TaskId) (task : CallTask)
    (ht : (r.spawn res).calls.lookup t = some task) :
    t < (r.spawn res).nextTask := by
  rw [Runner.lookup_spawn] at ht
  obtain ⟨s, u⟩ := res
  cases u with
  | none =>
    simp only [ne_eq, not_true, and_false, if_false] at ht
    exact h t task ht
  | some u =>
    simp only [ne_eq, reduceCtorEq, not_false_eq_true, and_true] at ht
    split_ifs at ht with heq
    · exact heq ▸ Nat.lt_succ_self _
    · exact Nat.lt_succ_of_lt (h t task ht)

/-- A task starts that holds no step info. -/
theorem spawn (h : RunnerOk cfg r) {res : Shared × Option CallTask}
    (hcarries : r.shared.graph.Carries res.1.graph)
    (hqueues : res.1.queues = r.shared.queues)
    (hmachines : res.1.machines = r.shared.machines)
    (hsent : res.1.log.sent = r.shared.log.sent)
    (hended : res.1.log.ended = r.shared.log.ended)
    (hnext : res.1.nextUuid = r.shared.nextUuid)
    (hinfos : ∀ u, res.2 = some u → u.infos = []) : RunnerOk cfg (r.spawn res) := by
  refine h.of_create ?_ ?_ ?_ ?_ ?_ ?_ (r.spawn_dispatcher res) (fun i hi => ?_)
    (tasks_spawn h.tasks res)
  · refine h.create.of_carries ?_ ?_
    · simpa [Runner.createState] using hcarries
    · simp [Runner.createState]
  · rwa [Runner.spawn_shared]
  · rwa [Runner.spawn_shared]
  · rwa [Runner.spawn_shared]
  · rwa [Runner.spawn_shared]
  · rwa [Runner.spawn_shared]
  · rcases r.held_spawn hi with hi | ⟨u, hu, hi⟩
    · exact hi
    · rw [hinfos u hu] at hi
      cases hi

/-- The tunnel task of a machine leaves its loop. -/
theorem endStream (h : RunnerOk cfg r) (m : MachineRef) :
    RunnerOk cfg (({ r with tunnels := r.tunnels.erase m } : Runner).spawn
      (endStream r.shared m)) := by
  obtain ⟨machines, task, hs, ht, hmachine, hfresh, hbyUuid, hbySystem, hinfos, -⟩ :=
    endStream_spec r.shared m
  set r₀ : Runner := { r with tunnels := r.tunnels.erase m } with hr₀
  have hshared : (r₀.spawn (QueueRunner.endStream r.shared m)).shared =
      { r.shared with machines := machines } := by rw [Runner.spawn_shared, hs]
  have hd : (r₀.spawn (QueueRunner.endStream r.shared m)).dispatcher = r.dispatcher :=
    r₀.spawn_dispatcher _
  have hjobs : ∀ o, (r₀.spawn (QueueRunner.endStream r.shared m)).shared.jobsOf o =
      r.shared.jobsOf o := by
    intro o
    rw [hshared, Shared.jobsOf, Shared.jobsOf, hmachine]
  refine
    { create := ?_, pointers := ?_, attempts := ?_, registry := ?_
      tasks := ?_ }
  · refine h.create.of_carries ?_ ?_
    · have hg : (r₀.spawn (QueueRunner.endStream r.shared m)).shared.graph =
          r.shared.graph := by rw [hshared]
      simp only [Runner.createState, hg]
      exact .of_fades (.refl _)
    · rw [Runner.createState, Runner.spawn_creation]
      rfl
  · refine h.pointers.shrinks_same (.of_sameQueues (fun i hi => ?_) ?_) hd
    · rcases r₀.held_spawn hi with hi | ⟨u, hu, hi⟩
      · exact hi
      · rw [ht, Option.some.injEq] at hu
        rw [← hu, hinfos] at hi
        cases hi
    · rw [hshared]
  · refine h.attempts.of_same_loop ⟨?_, hjobs, ?_, ?_, ?_⟩ hd <;> rw [hshared]
  · refine
      { byUuid := ?_, bySystem := ?_, attempt := ?_, fresh := ?_ } <;>
      rw [hshared]
    · intro id o ho
      rw [hfresh]
      exact h.registry.byUuid id o (hbyUuid id o ho)
    · intro system l hl o ho
      obtain ⟨l', hl', ho'⟩ := hbySystem system l hl o ho
      rw [hfresh]
      exact h.registry.bySystem system l' hl' o ho'
    · rw [hd, hfresh]
      exact h.registry.attempt
    · intro o ho
      rw [hfresh] at ho
      rw [Shared.jobsOf, hmachine]
      exact h.registry.fresh o ho
  · exact tasks_spawn (r := r₀) h.tasks _

/-- A machine has no job before it is registered and none after. -/
theorem jobsOf_insertMachine (h : RunnerOk cfg r) (id : Uuid) (record : Machine)
    (sortFn : MachineSortFn) (hjobs : record.jobs = []) (m : MachineRef) :
    ((r.shared.machines.insertMachine id record sortFn).1.machine m).jobs =
      r.shared.jobsOf m := by
  simp only [Machines.insertMachine, Machines.sort]
  by_cases hm : m = ⟨id, r.shared.machines.fresh⟩
  · subst hm
    rw [Function.update_self, hjobs, h.registry.fresh _ (le_refl _)]
  · rw [Function.update_of_ne hm]
    rfl

/-- A machine is registered. -/
theorem insertMachine (h : RunnerOk cfg r) (id : Uuid) (record : Machine)
    (sortFn : MachineSortFn) (hjobs : record.jobs = []) :
    RunnerOk cfg { r with
      shared := { r.shared with
        queues := r.shared.queues.ensureQueuesForSystems record.systems
        machines := (r.shared.machines.insertMachine id record sortFn).1 }
      tunnels := ⟨id, r.shared.machines.fresh⟩ :: r.tunnels } := by
  obtain ⟨hqjobs, hscheduled, hinfo, hqfresh, hqueue⟩ :=
    r.shared.queues.ensureQueuesForSystems_frame record.systems
  have hsame := h.jobsOf_insertMachine id record sortFn hjobs
  have hlt : ∀ {n}, n < r.shared.machines.fresh →
      n < (r.shared.machines.insertMachine id record sortFn).1.fresh :=
    fun hn => Nat.lt_succ_of_lt hn
  refine
    { create := h.create, pointers := ?_, attempts := ?_, registry := ?_
      tasks := h.tasks }
  · refine h.pointers.shrinks_same
      { live := fun i hi => ?_
        mem := fun system i hi => by rwa [Runner.queueJobs, hqueue] at hi
        keeps := fun system i hi _ => by rwa [Runner.queueJobs, hqueue]
        item := fun drv item hi => by rwa [Runner.item, hscheduled] at hi
        flag := fun _ _ _ => by rw [hinfo]
        fresh := hqfresh } rfl
    refine Shrinks.live_of_subset ?_ ?_ hscheduled hi
    · exact fun _ hheld => hheld
    · exact fun drv j hj => by rwa [hqjobs] at hj
  · exact h.attempts.of_same_loop ⟨hscheduled, hsame, rfl, rfl, le_refl _⟩ rfl
  · refine
      { byUuid := ?_, bySystem := ?_, attempt := ?_, fresh := ?_ }
    · intro id' m hm
      simp only [Machines.insertMachine, Machines.sort, Map.lookup_insert_eq] at hm
      split_ifs at hm with hid
      · cases hm
        exact ⟨hid.symm, Nat.lt_succ_self _⟩
      · exact ⟨(h.registry.byUuid id' m hm).1, hlt (h.registry.byUuid id' m hm).2⟩
    · intro system l hl m hm
      rcases Machines.insertMachine_bySystem hl hm with ⟨rfl, -⟩ | ⟨l', hl', hm'⟩
      · exact Nat.lt_succ_self _
      · exact hlt (h.registry.bySystem system l' hl' m hm')
    · exact fun i m job ha => hlt (h.registry.attempt i m job ha)
    · intro m hm
      rw [Shared.jobsOf, hsame]
      exact h.registry.fresh m (Nat.le_of_succ_le hm)

/-- Every step of the runner keeps the invariant. -/
theorem step (h : RunnerOk cfg r) {a : Action} (hs : RunnerStep cfg r a r') :
    RunnerOk cfg r' := by
  cases hs with
  | dispatch hres =>
    have hstep := dispatchStep_of_resume hres
    refine ⟨?_, h.pointers.dispatch h.create.graph hstep,
      h.attempts.dispatch h.pointers hstep, h.registry.dispatch hstep, h.tasks⟩
    exact h.create.of_carries (.of_fades (dispatch_fades hres)) rfl
  | call ht hres =>
    have hstep := callStep_of_resume hres
    have hjob := fun drv item (hitem : r.item drv = some item) =>
      h.attempts.find_job hitem
    refine ⟨?_, h.pointers.call ht hjob hstep, h.attempts.call h.pointers hstep,
      h.registry.call hjob hstep, fun t' task' ht' => ?_⟩
    · exact h.create.of_carries (callGraph_of_resume hres).carries rfl
    · rw [Runner.lookup_setCall] at ht'
      split_ifs at ht' with heq
      · subst heq
        exact h.tasks _ _ ht
      · exact h.tasks t' task' ht'
  | completeBuild uuid machineId state report =>
    obtain ⟨results, hs, hcases⟩ :=
      completeBuild_spec r.shared uuid machineId state report
    refine h.spawn ?_ ?_ ?_ ?_ ?_ ?_ ?_ <;> try rw [hs]
    · exact .of_fades (.refl _)
    · intro u hu
      rcases hcases with ⟨a, task, -, -, ht, hinfos, -⟩ | ⟨e, -, -, ht⟩
      · rw [ht, Option.some.injEq] at hu
        rw [← hu, hinfos]
      · rw [ht] at hu
        cases hu
  | endStream hm => exact h.endStream _
  | queueChange curIds =>
    refine h.spawn (.of_fades (.retainBuilds _ _)) rfl rfl rfl rfl rfl ?_
    rintro u ⟨⟩
    rfl
  | insertMachine id record sortFn =>
    exact h.insertMachine id (.new record) sortFn rfl
  | create hnext =>
    refine h.of_create ?_ rfl rfl rfl rfl rfl rfl (fun _ => id) h.tasks
    exact h.create.step (CreateState.createStep_of_next hnext)
  | dropStep hheld =>
    refine h.of_create ?_ rfl rfl rfl rfl rfl rfl (fun _ => id) h.tasks
    exact h.create.of_carries (.dropStep _ _) rfl
  | dropBuild hheld =>
    refine h.of_create ?_ rfl rfl rfl rfl rfl rfl (fun _ => id) h.tasks
    exact h.create.of_carries (.dropBuild _ _) rfl

/-- The invariant holds in every state of a run. -/
theorem reach {ok : Runner → Action → Prop}
    (h : Lts.Reach (Runner.next cfg) ok {} r) : RunnerOk cfg r :=
  h.invariant init (fun _ _ _ hok _ hnext => hok.step (runnerStep_of_next hnext))

end RunnerOk

end QueueRunner
