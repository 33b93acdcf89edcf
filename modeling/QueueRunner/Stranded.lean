import QueueRunner.Dependents
import QueueRunner.Retries

/-!
# No step is stranded

`do_dispatch_once` leaves out every step that was tried, as its job is still
in the queue.  So a tried step that has lost its job is never sent again, and a
build that depends on it, or comes to depend on it, waits forever.

A job is taken out of the queue when its step succeeds or is given up, when no
build depended on it a moment ago (`MaybeCancelled`), and when no machine has
supported it for long.  In the last two cases the step may have been tried and
stays in `Steps`.
-/

namespace QueueRunner

namespace Runner

/-- No call of `succeed_step` or `fail_step` and no pass of the dispatch loop
is under way. -/
def Quiet (r : Runner) : Prop :=
  r.dispatcher = .idle ∧ ∀ t task, r.calls.lookup t = some task →
    (∀ a report pc, task ≠ .succeed a report pc) ∧ ∀ a pc caller, task ≠ .fail a pc caller

/-- A live step of `Steps` that could be sent, and that a build waits for. -/
structure Wanted (r : Runner) (s : StepRef) : Prop where
  registered : r.shared.graph.steps.lookup s.drvPath = some s
  alive : (r.shared.graph.step s).alive = true
  runnable : (r.shared.graph.step s).runnable = true
  unfinished : (r.shared.graph.step s).finished = false
  drv : (r.shared.graph.step s).drv.isSome = true
  build : ∃ b, r.shared.graph.DependsOn s b

/-- The queue has a job for the step. -/
def HasJobFor (r : Runner) (s : StepRef) : Prop :=
  ∃ i, r.shared.queues.jobs.lookup s.drvPath = some i ∧ i.step = s

/-- The next pass of `do_dispatch_once` accepts the step. -/
def Accepts (r : Runner) (s : StepRef) : Prop :=
  (r.shared.graph.step s).tries = 0 ∧ r.shared.queues.jobs.lookup s.drvPath = none

end Runner

/-- Every step that a build waits for is in the queue, or will be. -/
def NotStranded (r : Runner) : Prop :=
  r.Quiet → ∀ s, r.Wanted s → r.HasJobFor s ∨ r.Accepts s

/-! ## The condition -/

namespace Runner

/-- The step that `Steps` has for the path was never tried. -/
def Untried (r : Runner) (p : StorePath) : Prop :=
  ∀ s ∈ r.shared.graph.steps.lookup p, (r.shared.graph.step s).tries = 0

instance (r : Runner) (p : StorePath) : Decidable (r.Untried p) :=
  inferInstanceAs (Decidable (∀ s ∈ r.shared.graph.steps.lookup p,
    (r.shared.graph.step s).tries = 0))

/-- The paths of the jobs in the queue, and of the steps that the dispatch loop
has collected for it. -/
def queuedPaths (r : Runner) : List StorePath :=
  r.shared.queues.jobs.keys ++ r.dispatcher.todo.map StepRef.drvPath ++
    r.dispatcher.collected.values.flatten.map (fun j => j.1.drvPath)

end Runner

/-- The call leaves a job for every step that was tried. -/
def CallTask.KeepsTried (t : CallTask) (r : Runner) (ans : Answer) : Prop :=
  match t with
  -- `fail_step` counts a try of a step that has a job
  | .fail a (.start _ _) _ => ∀ item ∈ r.item a.drv,
      r.shared.graph.steps.lookup a.drv = some item.stepInfo.step →
        (r.shared.queues.jobs.lookup a.drv).isSome
  -- and removes the job of its own step only
  | .fail _ (.removeJob item _) _ =>
    ∀ s ∈ r.shared.graph.steps.lookup item.stepInfo.drvPath,
      s = item.stepInfo.step ∨ (r.shared.graph.step s).tries = 0
  -- and its `inner_fail_job` ends when the step was tried
  | .fail _ (.inner _ f) _ => f.pc = .notify ∨ ans.ok = true ∨
      (r.shared.graph.steps.lookup f.step.drvPath = some f.step →
        (r.shared.graph.step f.step).tries = 0)
  | .succeed _ _ (.removeJob item _) =>
    ∀ s ∈ r.shared.graph.steps.lookup item.stepInfo.drvPath,
      (r.shared.graph.step s).finished = true ∨ (r.shared.graph.step s).tries = 0
  | _ => True

/-- No tried step loses its job, and `Steps` gives no path a new step while
there is a job for the old one. -/
def KeepsTried (cfg : Config) (r : Runner) : Action → Prop
  | .dispatch ans =>
    match r.dispatcher with
    | .realise _ i .remove => r.Untried i.drvPath
    | .abortRemove _ => r.Untried ans.step.drvPath
    | _ => True
  | .call t ans => ∀ task ∈ r.calls.lookup t, task.KeepsTried r ans
  | .create a ans => ∀ c ∈ r.createState.next cfg ans a, ∀ p ∈ r.queuedPaths,
      ∀ s ∈ c.graph.steps.lookup p, r.shared.graph.steps.lookup p = some s
  | _ => True

instance (t : CallTask) (r : Runner) (ans : Answer) : Decidable (t.KeepsTried r ans) :=
  match t with
  | .fail a (.start _ _) _ => inferInstanceAs (Decidable (∀ item ∈ r.item a.drv,
      r.shared.graph.steps.lookup a.drv = some item.stepInfo.step →
        (r.shared.queues.jobs.lookup a.drv).isSome))
  | .fail _ (.removeJob item _) _ => inferInstanceAs (Decidable
      (∀ s ∈ r.shared.graph.steps.lookup item.stepInfo.drvPath,
        s = item.stepInfo.step ∨ (r.shared.graph.step s).tries = 0))
  | .fail _ (.inner _ f) _ => inferInstanceAs (Decidable (f.pc = .notify ∨ ans.ok = true ∨
      (r.shared.graph.steps.lookup f.step.drvPath = some f.step →
        (r.shared.graph.step f.step).tries = 0)))
  | .succeed _ _ (.removeJob item _) => inferInstanceAs (Decidable
      (∀ s ∈ r.shared.graph.steps.lookup item.stepInfo.drvPath,
        (r.shared.graph.step s).finished = true ∨ (r.shared.graph.step s).tries = 0))
  | .fail _ (.retry _ _) _ | .succeed _ _ .start | .succeed _ _ (.finishBuildStep _ _)
  | .succeed _ _ (.markSucceeded _ _) | .succeed _ _ (.notify _) | .killStart | .kill _ _
  | .killAbort _ _ _ _ | .tunnelClose _ => inferInstanceAs (Decidable True)

instance (cfg : Config) (r : Runner) (a : Action) : Decidable (KeepsTried cfg r a) :=
  match a with
  | .dispatch ans =>
    match hd : r.dispatcher with
    | .realise _ i .remove => decidable_of_iff (r.Untried i.drvPath) (by simp [KeepsTried, hd])
    | .abortRemove _ => decidable_of_iff (r.Untried ans.step.drvPath) (by simp [KeepsTried, hd])
    | .realise _ _ (.checkCached _ _) | .realise _ _ (.cachedFailure _)
    | .realise _ _ (.prepare _ _) | .realise _ _ (.send _ _) | .realise _ _ (.sent _ _)
    | .realise _ _ (.schedule _ _) | .idle | .collect _ _ _ | .insert _ _ | .scrub | .process
    | .walk _ | .abort _ _ _ | .abortFail _ _ _ _ | .abortScrub =>
      isTrue (by simp [KeepsTried, hd])
  | .call t ans => inferInstanceAs (Decidable
      (∀ task ∈ r.calls.lookup t, task.KeepsTried r ans))
  | .create a ans => inferInstanceAs (Decidable
      (∀ c ∈ r.createState.next cfg ans a, ∀ p ∈ r.queuedPaths,
        ∀ s ∈ c.graph.steps.lookup p, r.shared.graph.steps.lookup p = some s))
  | .completeBuild _ _ _ _ | .endStream _ | .queueChange _ | .insertMachine _ _ _
  | .dropStep _ | .dropBuild _ => inferInstanceAs (Decidable True)

/-! ## The invariant -/

/-- `Steps` has no other step for the path of `s`. -/
def Runner.Current (r : Runner) (s : StepRef) : Prop :=
  ∀ t, r.shared.graph.steps.lookup s.drvPath = some t → t = s

/-- The jobs belong to the steps of `Steps`, and a tried step has a job until
it is done with. -/
structure JobsKept (r : Runner) : Prop where
  todo : ∀ s ∈ r.dispatcher.todo, r.Current s
  collected : ∀ system jobs, r.dispatcher.collected.lookup system = some jobs →
    ∀ j ∈ jobs, r.Current j.1
  jobs : ∀ p i, r.shared.queues.jobs.lookup p = some i → i.drvPath = p ∧ r.Current i.step
  tried : ∀ p s, r.shared.graph.steps.lookup p = some s →
    (r.shared.graph.step s).tries = 0 ∨ (r.shared.queues.jobs.lookup p).isSome ∨
      (r.shared.graph.step s).finished = true ∨ r.GivingUp s
  fresh : ∀ s : StepRef, r.shared.graph.fresh ≤ s.gen → (r.shared.graph.step s).tries = 0

namespace JobsKept

variable {cfg : Config} {r r' : Runner}

theorem init : JobsKept {} := by
  constructor <;> simp [DispatchPc.todo, DispatchPc.collected]

/-- The invariant gives the property. -/
theorem notStranded (h : JobsKept r) : NotStranded r := by
  rintro ⟨-, hquiet⟩ s hs
  cases hjob : r.shared.queues.jobs.lookup s.drvPath with
  | some i =>
    obtain ⟨hpath, hcurrent⟩ := h.jobs _ i hjob
    refine .inl ⟨i, hjob, ?_⟩
    rw [InfoRef.drvPath] at hpath
    exact (hcurrent s (by rw [hpath]; exact hs.registered)).symm
  | none =>
    refine .inr ⟨?_, hjob⟩
    rcases h.tried _ s hs.registered with htries | hsome | hfinished | ⟨t, task, ht, hgives⟩
    · exact htries
    · rw [hjob] at hsome
      cases hsome
    · rw [hs.unfinished] at hfinished
      cases hfinished
    · obtain ⟨-, hnot⟩ := hquiet t task ht
      cases task with
      | fail a pc caller => exact absurd rfl (hnot a pc caller)
      | _ => cases hgives

/-- A step that adds no job and leaves the dispatch loop alone. -/
theorem of_same (h : JobsKept r)
    (hsteps : ∀ p ∈ r.queuedPaths, ∀ s, r'.shared.graph.steps.lookup p = some s →
      r.shared.graph.steps.lookup p = some s)
    (hjobs : ∀ p i, r'.shared.queues.jobs.lookup p = some i →
      r.shared.queues.jobs.lookup p = some i)
    (hd : r'.dispatcher = r.dispatcher)
    (htried : ∀ p s, r'.shared.graph.steps.lookup p = some s →
      (r'.shared.graph.step s).tries = 0 ∨ (r'.shared.queues.jobs.lookup p).isSome ∨
        (r'.shared.graph.step s).finished = true ∨ r'.GivingUp s)
    (hfresh : ∀ s : StepRef, r'.shared.graph.fresh ≤ s.gen →
      (r'.shared.graph.step s).tries = 0) : JobsKept r' := by
  have hcurrent : ∀ s, s.drvPath ∈ r.queuedPaths → r.Current s → r'.Current s :=
    fun s hmem hs t ht => hs t (hsteps _ hmem t ht)
  refine ⟨fun s hs => ?_, fun system jobs hj j hmem => ?_, fun p i hi => ?_, htried,
    hfresh⟩
  · rw [hd] at hs
    refine hcurrent s ?_ (h.todo s hs)
    simp only [Runner.queuedPaths, List.mem_append]
    exact .inl (.inr (List.mem_map_of_mem hs))
  · rw [hd] at hj
    refine hcurrent j.1 ?_ (h.collected system jobs hj j hmem)
    simp only [Runner.queuedPaths, List.mem_append]
    refine .inr (List.mem_map.mpr ⟨j, List.mem_flatten.mpr ⟨jobs, ?_, hmem⟩, rfl⟩)
    exact Map.mem_values_iff.mpr ⟨system, hj⟩
  · have hi := hjobs p i hi
    obtain ⟨hpath, hs⟩ := h.jobs p i hi
    refine ⟨hpath, hcurrent i.step ?_ hs⟩
    simp only [Runner.queuedPaths, List.mem_append]
    refine .inl (.inl ?_)
    rw [InfoRef.drvPath] at hpath
    rw [hpath]
    exact AList.lookup_isSome.mp (by rw [hi]; rfl)

/-- A step that lets the graph grow and leaves the queue and the dispatch loop
alone. -/
theorem of_grows (h : JobsKept r) (hok : RunnerOk cfg r)
    (hgrows : r.shared.graph.Grows r'.shared.graph)
    (hsteps : ∀ p ∈ r.queuedPaths, ∀ s, r'.shared.graph.steps.lookup p = some s →
      r.shared.graph.steps.lookup p = some s)
    (hjobs : r'.shared.queues.jobs = r.shared.queues.jobs)
    (hd : r'.dispatcher = r.dispatcher) (hgiving : ∀ s, r.GivingUp s → r'.GivingUp s) :
    JobsKept r' := by
  have hnew : ∀ s : StepRef, r.shared.graph.fresh ≤ s.gen →
      (r'.shared.graph.step s).tries = 0 := by
    intro s hs
    rcases hgrows.step s with hold | ⟨-, hnew⟩
    · exact hold.tries.trans (h.fresh s hs)
    · exact hnew.tries
  refine h.of_same hsteps (by simp [hjobs]) hd (fun p s hs => ?_)
    (fun s hs => hnew s (le_trans hgrows.fresh hs))
  rcases hgrows.steps p s hs with hold | hgen
  · have hmarks := hgrows.step_of_lt (hok.create.graph.steps p s hold).2
    rw [hmarks.tries, hjobs]
    exact (h.tried p s hold).imp_right (Or.imp_right (Or.imp hmarks.finished (hgiving s)))
  · exact .inl (hnew s hgen)

/-- What a pass has collected are steps that `Steps` has or had. -/
theorem dispatch_collected (h : JobsKept r) (hok : RunnerOk cfg r) {s' : Shared}
    {d' : DispatchPc} (hs : DispatchStep r.shared r.held r.dispatcher s' d') :
    (∀ s ∈ d'.todo, r.Current s) ∧
      ∀ system jobs, d'.collected.lookup system = some jobs → ∀ j ∈ jobs, r.Current j.1 := by
  refine hs.collected (fun x p hp _ _ t ht => ?_) h.todo h.collected
  obtain rfl := (hok.create.graph.steps p x hp).1
  exact Option.some.inj (ht.symm.trans hp)

/-- New jobs come from the collected steps, and no tried step loses its job. -/
theorem dispatch_jobs (h : JobsKept r) {ans : Answer} {s' : Shared} {d' : DispatchPc}
    (hres : r.dispatcher.resume cfg r.shared r.held ans = some (s', d'))
    (hkeeps : KeepsTried cfg r (.dispatch ans)) :
    (∀ p i, s'.queues.jobs.lookup p = some i →
      r.shared.queues.jobs.lookup p = some i ∨ i.drvPath = p ∧ r.Current i.step) ∧
    ∀ p, (r.shared.queues.jobs.lookup p).isSome →
      (s'.queues.jobs.lookup p).isSome ∨ r.Untried p := by
  have hsame : s'.queues.jobs = r.shared.queues.jobs →
      (∀ p i, s'.queues.jobs.lookup p = some i →
        r.shared.queues.jobs.lookup p = some i ∨ i.drvPath = p ∧ r.Current i.step) ∧
      ∀ p, (r.shared.queues.jobs.lookup p).isSome →
        (s'.queues.jobs.lookup p).isSome ∨ r.Untried p := by
    intro hjobs
    rw [hjobs]
    exact ⟨fun _ _ => .inl, fun _ => .inl⟩
  have herase : ∀ q, s'.queues.jobs = r.shared.queues.jobs.erase q → r.Untried q →
      (∀ p i, s'.queues.jobs.lookup p = some i →
        r.shared.queues.jobs.lookup p = some i ∨ i.drvPath = p ∧ r.Current i.step) ∧
      ∀ p, (r.shared.queues.jobs.lookup p).isSome →
        (s'.queues.jobs.lookup p).isSome ∨ r.Untried p := by
    intro q hjobs huntried
    rw [hjobs]
    refine ⟨fun p i hi => ?_, fun p hp => ?_⟩
    · rw [Map.lookup_erase_eq] at hi
      split_ifs at hi
      exact .inl hi
    · rw [Map.lookup_erase_eq]
      split_ifs with hq
      · exact .inr (hq ▸ huntried)
      · exact .inl hp
  have hs := dispatchStep_of_resume hres
  generalize hd : r.dispatcher = d at hs hres
  cases hs with
  | other hm hinfo hwalk hc ht => exact hsame hm.jobs
  | insert now queues system jobs cmp hjobs =>
    have hsub := InnerQueues.submitted_submitJobs r.shared.queues
      (fun t => (r.shared.graph.step t).finished) jobs
    simp only [InnerQueues.insertNewJobs_jobs]
    refine ⟨fun p i hi => ?_, fun p hp => ?_⟩
    · rcases (hsub.lookup p i).mp hi with hi | ⟨hnew, hpath⟩
      · exact .inl hi
      · obtain ⟨-, info, hmem, -⟩ := hsub.origin i hnew
        exact .inr ⟨hpath, h.collected system jobs (by rw [hd]; exact hjobs) _ hmem⟩
    · obtain ⟨i, hi⟩ := Option.isSome_iff_exists.mp hp
      rw [(hsub.lookup p i).mpr (.inl hi)]
      exact .inl rfl
  | remove w i =>
    refine herase i.drvPath (InnerQueues.removeJob_jobs _ _ _ _) ?_
    simpa [KeepsTried, hd] using hkeeps
  | removeByPath drv hinfo hwalk hc ht hremove =>
    obtain ⟨aborted, rfl⟩ := hremove
    simp only [DispatchPc.resume] at hres
    split_ifs at hres
    · obtain ⟨hshared, -⟩ := Prod.mk.inj (Option.some.inj hres)
      exact hsame (by rw [← hshared])
    · obtain ⟨hshared, -⟩ := Prod.mk.inj (Option.some.inj hres)
      refine herase ans.step.drvPath (by rw [← hshared]; rfl) ?_
      simpa [KeepsTried, hd] using hkeeps
  | schedule w i m job =>
    exact hsame (by simp [InnerQueues.addJobToScheduled, InnerQueues.setAlreadyScheduled])
  | skip hjobs hm => exact hsame hm.jobs
  | cancel hjobs hlive hflag hfin hdep hm => exact hsame hm.jobs
  | pick m job ans hjobs hlive hflag hfin hdep hmachine huuid hpath hm hnext =>
    exact hsame hm.jobs
  | advance hm hlate hlate' htarget => exact hsame hm.jobs
  | abandon hm hlate => exact hsame hm.jobs
  | _ => exact hsame rfl

/-- A step of the dispatch loop. -/
theorem dispatch (h : JobsKept r) (hok : RunnerOk cfg r) {ans : Answer} {s' : Shared}
    {d' : DispatchPc} (hres : r.dispatcher.resume cfg r.shared r.held ans = some (s', d'))
    (hkeeps : KeepsTried cfg r (.dispatch ans)) :
    JobsKept { r with shared := s', dispatcher := d' } := by
  have hfades := dispatch_fades hres
  have hcurrent : ∀ s, r.Current s →
      Runner.Current { r with shared := s', dispatcher := d' } s :=
    fun s hs t ht => hs t (hfades.steps _ t ht)
  obtain ⟨htodo, hcollected⟩ := h.dispatch_collected hok (dispatchStep_of_resume hres)
  obtain ⟨hjobs, hkept⟩ := h.dispatch_jobs hres hkeeps
  refine ⟨fun s hs => hcurrent s (htodo s hs),
    fun system jobs hj j hmem => hcurrent j.1 (hcollected system jobs hj j hmem),
    fun p i hi => ?_, fun p s hs => ?_, fun s hs => ?_⟩
  · rcases hjobs p i hi with hi | ⟨hpath, hs⟩
    · exact (h.jobs p i hi).imp_right (hcurrent i.step)
    · exact ⟨hpath, hcurrent i.step hs⟩
  · have hreg := hfades.steps p s hs
    have hbase := hfades.sameBase s
    simp only [hbase.tries, hbase.finished]
    rcases h.tried p s hreg with htries | hsome | hfinished | hgiving
    · exact .inl htries
    · rcases hkept p hsome with hsome | huntried
      · exact .inr (.inl hsome)
      · exact .inl (huntried s hreg)
    · exact .inr (.inr (.inl hfinished))
    · exact .inr (.inr (.inr hgiving))
  · rw [(hfades.sameBase s).tries]
    exact h.fresh s (by rwa [← hfades.fresh])

/-- A call that gives a registered step up goes on until the step has left
`Steps`, or the step was never tried. -/
theorem givingUp_setCall {t : TaskId} {task : CallTask} {ans : Answer}
    {res : Shared × Option CallTask} (ht : r.calls.lookup t = some task)
    (hres : task.resume cfg r.shared r.held ans = some res) (hkeeps : task.KeepsTried r ans)
    {s : StepRef} (hs : r.shared.graph.steps.lookup s.drvPath = some s) (hg : r.GivingUp s) :
    (r.setCall t res).GivingUp s ∨ res.1.graph.steps.lookup s.drvPath ≠ some s ∨
      (r.shared.graph.step s).tries = 0 := by
  by_cases hserved : task.Served ans
  · exact (Tries.givingUp_setCall ht hres hserved hg).imp_right .inl
  obtain ⟨t', task', ht', hx⟩ := hg
  by_cases heq : t' = t
  case neg =>
    refine .inl ⟨t', task', ?_, hx⟩
    rw [Runner.lookup_setCall, if_neg heq, ht']
  subst heq
  rw [ht, Option.some.injEq] at ht'
  subst ht'
  cases task with
  | fail a pc caller =>
    cases pc with
    | inner item f =>
      simp only [CallTask.givesUp] at hx
      split_ifs at hx with hpc
      cases hx
      rcases hkeeps with hnotify | hok | htries
      · exact absurd hnotify hpc
      · exact absurd (.inr hok) hserved
      · exact .inr (.inr (htries hs))
    | removeJob item job => exact absurd trivial hserved
    | _ => cases hx
  | _ => cases hx

/-- A call that is past its first step.  A job that it removes belongs to a
step that it is done with. -/
theorem call_quiet (h : JobsKept r) (hok : RunnerOk cfg r) {t : TaskId} {task : CallTask}
    {ans : Answer} {res : Shared × Option CallTask} (ht : r.calls.lookup t = some task)
    (hres : task.resume cfg r.shared r.held ans = some res) (hkeeps : task.KeepsTried r ans)
    (hstart : task.starting = none)
    (hjobs : ∀ p i, res.1.queues.jobs.lookup p = some i →
      r.shared.queues.jobs.lookup p = some i)
    (hkept : ∀ p s, r.shared.graph.steps.lookup p = some s →
      (r.shared.queues.jobs.lookup p).isSome → (res.1.queues.jobs.lookup p).isSome ∨
        (r.shared.graph.step s).tries = 0 ∨ (r.shared.graph.step s).finished = true ∨
        r.GivingUp s) : JobsKept (r.setCall t res) := by
  have hgraph := callGraph_of_resume hres
  obtain ⟨hfresh, hsteps⟩ := hgraph.steps_subset
  have hcounters := fun x => hgraph.sameCounters hstart x
  refine h.of_same (fun p _ => hsteps p) hjobs rfl (fun p s hs => ?_) (fun s hs => ?_)
  · have hreg := hsteps p s hs
    obtain rfl := (hok.create.graph.steps p s hreg).1
    change (res.1.graph.step s).tries = 0 ∨ (res.1.queues.jobs.lookup s.drvPath).isSome = true ∨
      (res.1.graph.step s).finished = true ∨ (r.setCall t res).GivingUp s
    rw [(hcounters s).1, (hcounters s).2]
    have hgiving : r.GivingUp s → (r.shared.graph.step s).tries = 0 ∨
        (res.1.queues.jobs.lookup s.drvPath).isSome = true ∨
        (r.shared.graph.step s).finished = true ∨ (r.setCall t res).GivingUp s := by
      intro hg
      rcases givingUp_setCall ht hres hkeeps hreg hg with hg | hne | htries
      · exact .inr (.inr (.inr hg))
      · exact absurd hs hne
      · exact .inl htries
    rcases h.tried s.drvPath s hreg with htries | hsome | hfinished | hg
    · exact .inl htries
    · rcases hkept s.drvPath s hreg hsome with hsome | htries | hfinished | hg
      · exact .inr (.inl hsome)
      · exact .inl htries
      · exact .inr (.inr (.inl hfinished))
      · exact hgiving hg
    · exact .inr (.inr (.inl hfinished))
    · exact hgiving hg
  · change (res.1.graph.step s).tries = 0
    rw [(hcounters s).1]
    exact h.fresh s (by rw [← hfresh]; exact hs)

/-- The first step of a call leaves the tasks that give a step up alone. -/
theorem givingUp_of_starting {t : TaskId} {task : CallTask} {res : Shared × Option CallTask}
    {a : Attempt} {s : StepRef} (ht : r.calls.lookup t = some task)
    (hstart : task.starting = some a) (hg : r.GivingUp s) : (r.setCall t res).GivingUp s := by
  obtain ⟨t', task', ht', hx⟩ := hg
  refine ⟨t', task', ?_, hx⟩
  rw [Runner.lookup_setCall, if_neg, ht']
  rintro rfl
  rw [ht, Option.some.injEq] at ht'
  subst ht'
  cases task with
  | fail b pc caller =>
    cases pc with
    | start state timings => cases hx
    | _ => cases hstart
  | _ => cases hx

/-- A call ends the attempt of a step.  The step is finished, or it has a
job. -/
theorem call_ends (h : JobsKept r) (hok : RunnerOk cfg r)
    (hfound : JobSteps (JobSteps.Found r) r) {t : TaskId} {task : CallTask} {ans : Answer}
    {res : Shared × Option CallTask} {a : Attempt} {item : ScheduledItem} {job : Job}
    (ht : r.calls.lookup t = some task)
    (hres : task.resume cfg r.shared r.held ans = some res) (hkeeps : task.KeepsTried r ans)
    (hstart : task.starting = some a)
    (hends : EndsAttempt r.shared res.1 a.drv item job) : JobsKept (r.setCall t res) := by
  have hgraph := callGraph_of_resume hres
  obtain ⟨hfresh, hsteps⟩ := hgraph.steps_subset
  have hitem : r.item a.drv = some item := hends.unscheduled.found
  have hpath := (hok.pointers.item a.drv item hitem).1
  have hjobs : res.1.queues.jobs = r.shared.queues.jobs := hends.unscheduled.jobs
  have hother := fun s hs => hgraph.sameCounters_of_ne hstart hends.unscheduled.found (x := s) hs
  have hgiving : ∀ s, r.GivingUp s → (r.setCall t res).GivingUp s := fun s hg =>
    givingUp_of_starting ht hstart hg
  refine h.of_same (fun p _ => hsteps p) (fun p i hi => hjobs ▸ hi) rfl (fun p s hs => ?_)
    (fun s hs => ?_)
  · have hreg := hsteps p s hs
    have hsp := (hok.create.graph.steps p s hreg).1
    change (res.1.graph.step s).tries = 0 ∨ (res.1.queues.jobs.lookup p).isSome = true ∨
      (res.1.graph.step s).finished = true ∨ (r.setCall t res).GivingUp s
    rw [hjobs]
    have hsame : (res.1.graph.step s).tries = (r.shared.graph.step s).tries ∧
        (res.1.graph.step s).finished = (r.shared.graph.step s).finished →
        (res.1.graph.step s).tries = 0 ∨ (r.shared.queues.jobs.lookup p).isSome = true ∨
          (res.1.graph.step s).finished = true ∨ (r.setCall t res).GivingUp s := by
      intro hcounters
      rw [hcounters.1, hcounters.2]
      exact (h.tried p s hreg).imp_right (Or.imp_right (Or.imp_right (hgiving s)))
    by_cases hne : s = item.stepInfo.step
    case neg => exact hsame (hother s hne)
    subst hne
    have hdrv : p = a.drv := hsp.symm.trans hpath
    cases hgraph with
    | fades hg =>
      have hbase := hg.sameBase item.stepInfo.step
      exact hsame ⟨hbase.tries, hbase.finished⟩
    | succeeds b report item' htask hitem' hg =>
      subst htask
      cases hstart
      obtain rfl : item = item' := Option.some.inj (hitem.symm.trans hitem')
      refine .inr (.inr (.inl ?_))
      rw [hg]
      simp [Graph.setFinished]
    | fails b state report caller item' tries after htask hitem' hg =>
      subst htask
      cases hstart
      refine .inr (.inl ?_)
      rw [hdrv]
      exact hkeeps item hitem (by rw [← hdrv]; exact hreg)
    | releases b report item' now htask hg =>
      subst htask
      cases hstart
  · change (res.1.graph.step s).tries = 0
    have hne : s ≠ item.stepInfo.step := by
      rintro rfl
      have hlt := (hfound.item a.drv item hitem).1
      rw [← hfresh] at hlt
      exact absurd hlt (Nat.not_lt.mpr hs)
    rw [(hother s hne).1]
    exact h.fresh s (by rw [← hfresh]; exact hs)

/-- A step of a call. -/
theorem call (h : JobsKept r) (hok : RunnerOk cfg r)
    (hfound : JobSteps (JobSteps.Found r) r) {t : TaskId} {task : CallTask} {ans : Answer}
    {res : Shared × Option CallTask} (ht : r.calls.lookup t = some task)
    (hres : task.resume cfg r.shared r.held ans = some res) (hkeeps : task.KeepsTried r ans) :
    JobsKept (r.setCall t res) := by
  have hcall := callStep_of_resume hres
  generalize hs' : res.1 = s' at hcall
  generalize ht' : res.2 = t' at hcall
  cases hcall with
  | quiet hstart hsame hinfos hpending hkeep =>
    have hjobs : res.1.queues.jobs = r.shared.queues.jobs := hs' ▸ hsame.jobs
    exact h.call_quiet hok ht hres hkeeps hstart (by simp [hjobs])
      (fun p s _ hsome => .inl (by rwa [hjobs]))
  | missing a rest hstart hp hlookup hinfos hpending hlast =>
    have hgraph : res.1.graph = r.shared.graph := by
      rw [hs']
      rfl
    have hqueues : res.1.queues = r.shared.queues := by
      rw [hs']
      rfl
    refine h.of_same (fun p _ => ?_) ?_ rfl (fun p s => ?_) ?_ <;>
      simp only [Runner.setCall, hgraph, hqueues]
    · exact fun _ => id
    · exact fun _ _ => id
    · intro hs
      refine (h.tried p s hs).imp_right (Or.imp_right (Or.imp_right (fun hg => ?_)))
      exact givingUp_of_starting ht hstart hg
    · exact h.fresh
  | jobMissing a rest item hstart hp hitem hnone =>
    exact absurd hnone (hok.attempts.find_job hitem)
  | ends a rest item job hstart hp hends hinfos hpending hlast =>
    exact h.call_ends hok hfound ht hres hkeeps hstart (hs' ▸ hends)
  | removeJob i system hstart hi hremoved hinfos hpending hlast hremoves =>
    have hjobs : res.1.queues.jobs = r.shared.queues.jobs.erase i.drvPath := by
      rw [hs', hremoved.jobs]
      exact InnerQueues.removeJob_jobs ..
    refine h.call_quiet hok ht hres hkeeps hstart (fun p j hj => ?_) (fun p s hs hsome => ?_)
    · rw [hjobs, Map.lookup_erase_eq] at hj
      split_ifs at hj
      exact hj
    · rw [hjobs, Map.lookup_erase_eq]
      split_ifs with hp
      case neg => exact .inl hsome
      subst hp
      obtain ⟨item, hitem, rfl⟩ := hremoves
      right
      cases task with
      | succeed a report pc =>
        cases pc with
        | removeJob item' job =>
          cases hitem
          rcases hkeeps s hs with hfinished | htries
          · exact .inr (.inl hfinished)
          · exact .inl htries
        | _ => cases hitem
      | fail a pc caller =>
        cases pc with
        | removeJob item' job =>
          cases hitem
          rcases hkeeps s hs with rfl | htries
          · exact .inr (.inr ⟨t, _, ht, rfl⟩)
          · exact .inl htries
        | _ => cases hitem
      | _ => cases hitem

/-- Every step that meets the condition. -/
theorem step (h : JobsKept r) (hok : RunnerOk cfg r) (hfound : JobSteps (JobSteps.Found r) r)
    {a : Action} (hkeeps : KeepsTried cfg r a) (hs : RunnerStep cfg r a r') : JobsKept r' := by
  have hgrows := hs.runnerGraph.grows
  have hsame : r'.shared.graph.steps = r.shared.graph.steps →
      ∀ p ∈ r.queuedPaths, ∀ s, r'.shared.graph.steps.lookup p = some s →
        r.shared.graph.steps.lookup p = some s := by
    intro heq p _ s hs
    rwa [heq] at hs
  cases hs with
  | dispatch hres => exact h.dispatch hok hres hkeeps
  | @call _ _ task _ ht hres => exact h.call hok hfound ht hres (hkeeps task ht)
  | completeBuild uuid machineId state report =>
    obtain ⟨results, heq, -⟩ := completeBuild_spec r.shared uuid machineId state report
    refine h.of_grows hok (hgrows (by simp)) (hsame ?_) ?_ (r.spawn_dispatcher _)
      (fun s => Tries.givingUp_spawn hok.tasks _)
    · rw [Runner.spawn_shared, heq]
    · rw [Runner.spawn_shared, heq]
  | @endStream m hm =>
    obtain ⟨machines, task, heq, -⟩ := endStream_spec r.shared m
    refine h.of_grows hok (hgrows (by simp)) (hsame ?_) ?_ (Runner.spawn_dispatcher _ _)
      (fun s => Tries.givingUp_spawn (r := { r with tunnels := r.tunnels.erase m }) hok.tasks _)
    · rw [Runner.spawn_shared, heq]
    · rw [Runner.spawn_shared, heq]
  | queueChange curIds =>
    refine h.of_grows hok (hgrows (by simp)) (hsame ?_) ?_ (r.spawn_dispatcher _)
      (fun s => Tries.givingUp_spawn hok.tasks _)
    · rw [Runner.spawn_shared]
      rfl
    · rw [Runner.spawn_shared]
      rfl
  | insertMachine id record sortFn =>
    exact h.of_grows hok (hgrows (by simp)) (hsame rfl)
      (r.shared.queues.ensureQueuesForSystems_frame record.systems).1 rfl (fun _ hg => hg)
  | @create a ans c hnext =>
    refine h.of_grows hok (hgrows (by simp)) (fun p hp s hs => ?_) rfl rfl (fun _ hg => hg)
    exact hkeeps c hnext p hp s hs
  | dropStep hheld =>
    exact h.of_grows hok (hgrows (by simp)) (hsame rfl) rfl rfl (fun _ hg => hg)
  | dropBuild hheld =>
    exact h.of_grows hok (hgrows (by simp)) (hsame rfl) rfl rfl (fun _ hg => hg)

theorem reach (h : Lts.Reach (Runner.next cfg) (KeepsTried cfg) {} r) : JobsKept r := by
  refine h.invariant_of_reach init ?_
  intro r a r' hreach hr hkeeps hnext
  exact hr.step (RunnerOk.reach hreach) (JobSteps.reach hreach) hkeeps (runnerStep_of_next hnext)

end JobsKept

/-! ## Whole runs -/

/-- In every run in which no tried step loses its job and no step of the queue
is replaced, no step is stranded. -/
theorem notStranded_runs (cfg : Config) (r : Runner)
    (hrun : Lts.Reach (Runner.next cfg) (KeepsTried cfg) {} r) : NotStranded r :=
  (JobsKept.reach hrun).notStranded

namespace Sample

/-- The attempt fails and allows another try, and the pass ends. -/
def tried : List Action :=
  register :: created ++ sent ++ scheduled ++
    [Action.completeBuild 0 0 .importFailure {}, .call 0 {}, .call 0 {}] ++ passEnd

/-- The next pass walks over the queue.  The build is taken out of the queue
and goes, so `process` finds no build for the job.  Before it removes the job,
another build of `drv` is created. -/
def joinedLate : List Action :=
  [Action.dispatch { steps := [step] },
    .dispatch {},
    .dispatch {},
    .dispatch {},
    .dispatch {},
    .dispatch { systems := ["x86_64-linux"] },
    .queueChange [],
    .dropBuild ⟨1, drv, 0⟩,
    .call 1 {},
    .call 1 {},
    .dispatch {}] ++ joined ++ [Action.dispatch {}] ++ passEnd

/-- The dispatch loop is idle and no call runs. -/
def isQuiet (r : Runner) : Bool :=
  (match r.dispatcher with
    | .idle => true
    | _ => false) && r.calls.keys == []

theorem quiet_of_isQuiet {r : Runner} (h : isQuiet r = true) : r.Quiet := by
  obtain ⟨hd, hcalls⟩ := Bool.and_eq_true_iff.mp h
  have hcalls : r.calls.keys = [] := by simpa using hcalls
  refine ⟨?_, fun t task ht => ?_⟩
  · cases hr : r.dispatcher with
    | idle => rfl
    | _ =>
      rw [hr] at hd
      cases hd
  · have hmem : t ∈ r.calls.keys := AList.lookup_isSome.mp (by rw [ht]; rfl)
    rw [hcalls] at hmem
    cases hmem

/-- What makes a step wanted, for a build that is attached to it. -/
def isWanted (r : Runner) (s : StepRef) (b : BuildRef) : Bool :=
  decide (r.shared.graph.steps.lookup s.drvPath = some s ∧
    (r.shared.graph.step s).alive = true ∧ (r.shared.graph.step s).runnable = true ∧
    (r.shared.graph.step s).finished = false ∧ (r.shared.graph.step s).drv.isSome = true ∧
    (r.shared.graph.build b).alive = true ∧ (r.shared.graph.build b).finishedInDb = false ∧
    b ∈ (r.shared.graph.step s).builds)

theorem wanted_of_isWanted {r : Runner} {s : StepRef} {b : BuildRef}
    (h : isWanted r s b = true) : r.Wanted s := by
  obtain ⟨hreg, halive, hrun, hunfinished, hdrv, hbuild, hpending, hmem⟩ := of_decide_eq_true h
  exact ⟨hreg, halive, hrun, hunfinished, hdrv, b, ⟨hbuild, hpending⟩, s, .refl, hmem⟩

end Sample

/-- A step that was tried once has its job while its build waits. -/
theorem notStranded_runs_tried : ∃ r, Lts.Reach (Runner.next Sample.config)
    (KeepsTried Sample.config) {} r ∧ r.Quiet ∧ r.Wanted Sample.step ∧
      (r.shared.graph.step Sample.step).tries = 1 ∧ r.HasJobFor Sample.step := by
  have hend : (Lts.runWith (Runner.next Sample.config) (KeepsTried Sample.config) {}
      Sample.tried).map (fun r => (Sample.isQuiet r,
        Sample.isWanted r Sample.step ⟨1, Sample.drv, 0⟩,
        (r.shared.graph.step Sample.step).tries)) = some (true, true, 1) := by
    decide +kernel
  obtain ⟨r, hr, he⟩ := Option.map_eq_some_iff.mp hend
  simp only [Prod.mk.injEq] at he
  obtain ⟨hquiet, hwanted, htries⟩ := he
  have hrun := Lts.reach_of_runWith hr
  have hquiet := Sample.quiet_of_isQuiet hquiet
  have hwanted := Sample.wanted_of_isWanted hwanted
  refine ⟨r, hrun, hquiet, hwanted, htries, ?_⟩
  rcases notStranded_runs Sample.config r hrun hquiet Sample.step hwanted with hjob | hnew
  · exact hjob
  · have := hnew.1
    omega

/-- A build comes to depend on a tried step between the look at its builds and
the removal of its job.  The step has no job, and no pass will accept it. -/
theorem notStranded_fails : ¬∀ cfg r,
    Lts.Reach (Runner.next cfg) Lts.anyStep {} r → NotStranded r := by
  intro h
  have hend : (Lts.run (Runner.next Sample.config) {} (Sample.tried ++ Sample.joinedLate)).map
      (fun r => (Sample.isQuiet r, Sample.isWanted r Sample.step ⟨2, Sample.drv, 2⟩,
        (r.shared.graph.step Sample.step).tries, r.shared.queues.jobs.lookup Sample.drv)) =
      some (true, true, 1, none) := by
    decide +kernel
  obtain ⟨r, hr, he⟩ := Option.map_eq_some_iff.mp hend
  simp only [Prod.mk.injEq] at he
  obtain ⟨hquiet, hwanted, htries, hjobs⟩ := he
  have hstranded := h _ r (Lts.reach_of_run hr) (Sample.quiet_of_isQuiet hquiet) Sample.step
    (Sample.wanted_of_isWanted hwanted)
  rcases hstranded with ⟨i, hi, -⟩ | ⟨hnew, -⟩
  · change r.shared.queues.jobs.lookup Sample.drv = some i at hi
    rw [hjobs] at hi
    cases hi
  · omega

end QueueRunner
