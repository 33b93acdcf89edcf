import QueueRunner.DispatchOrder
import QueueRunner.Edges
import QueueRunner.MachineChoice
import QueueRunner.Unsupported

/-!
# A build is only sent to a machine that can run it

`do_dispatch_once` sorts the runnable steps by the system of their
derivation, and `process` asks for a machine for the system of the queue it
walks over.  `get_required_features` gives no features for a step whose
derivation is not known, so the search is only right because `create_step`
has read the derivation before the step can become runnable.  The message
is sent several awaits after the search, when the machine may have left and
another one with the same id may have joined.
-/

namespace QueueRunner

/-! ## The derivation of a step -/

/-- The step of a call that has read the derivation. -/
def StepPc.read? : StepPc → Option StepRef
  | .checkCached s _ _ | .substitute s _ _ | .inputs s _ _ => some s
  | .queryDrv _ | .queryOutputs _ _ | .returned _ => none

theorem StepPc.Moves.read_cases {cfg : Config} {drvPath : StorePath} {pc pc' : StepPc}
    (h : pc.Moves cfg drvPath pc') {s : StepRef} (hs : pc'.read? = some s) :
    pc.read? = some s ∨ ∃ drv, pc = .queryOutputs s drv := by
  cases h with
  | setDrv t drv missing =>
    obtain rfl := Option.some.inj hs
    exact Or.inr ⟨drv, rfl⟩
  | substitute t drv missing => exact Or.inl hs
  | inputs hpc =>
    left
    rcases hpc with rfl | rfl <;> exact hs
  | _ => cases hs

/-- A call has read the derivation already, or it does so now. -/
theorem PoolStep.read_cases {cfg : Config} {ans : Answer} {c c' : Creation} {a : CreateAction}
    (h : PoolStep cfg ans c a c') {k : CallId} {call' : StepCall} {s : StepRef}
    (hk : c'.steps.lookup k = some call') (hs : call'.pc.read? = some s) :
    (∃ call, c.steps.lookup k = some call ∧ call.pc.read? = some s) ∨
      ∃ call drv, a = .resumeStep k ∧ c.steps.lookup k = some call ∧
        call.pc = .queryOutputs s drv := by
  have hnew : ∀ {pc : StepPc}, ((∃ s, pc = .queryDrv s) ∨ ∃ r, pc = .returned r) →
      pc.read? = none := by
    rintro pc (⟨t, rfl⟩ | ⟨r, rfl⟩) <;> rfl
  cases h with
  | startToplevel hcall hpc hstart =>
    rw [Map.lookup_insert_eq] at hk
    split_ifs at hk
    · cases hk
      rw [hnew hstart] at hs
      cases hs
    · exact Or.inl ⟨call', hk, hs⟩
  | takeToplevel hcall hpc hchild hmove =>
    rw [Map.lookup_erase_eq] at hk
    split_ifs at hk
    exact Or.inl ⟨call', hk, hs⟩
  | startInput hcall hpc hstart =>
    rw [Map.lookup_insert_eq] at hk
    split_ifs at hk with heq
    · cases hk
      exact Or.inl ⟨_, heq ▸ hcall, by rw [hpc]; exact hs⟩
    · rw [Map.lookup_insert_eq] at hk
      split_ifs at hk
      · cases hk
        rw [hnew hstart] at hs
        cases hs
      · exact Or.inl ⟨call', hk, hs⟩
  | moveStep hcall hmove hpasses hbuilds =>
    rw [Map.lookup_insert_eq] at hk
    split_ifs at hk with heq
    · cases hk
      subst heq
      rcases hmove.read_cases hs with hread | ⟨drv, hpc⟩
      · exact Or.inl ⟨_, hcall, hread⟩
      · exact Or.inr ⟨_, drv, rfl, hcall, hpc⟩
    · exact Or.inl ⟨call', hk, hs⟩
  | takeInput hcall hpc hchild hne =>
    rw [Map.lookup_insert_eq] at hk
    split_ifs at hk with heq
    · cases hk
      exact Or.inl ⟨_, heq ▸ hcall, by rw [hpc]; exact hs⟩
    · rw [Map.lookup_erase_eq] at hk
      split_ifs at hk
      exact Or.inl ⟨call', hk, hs⟩
  | dropInputs r hcall hpc hchild hne =>
    rw [Map.lookup_insert_eq] at hk
    split_ifs at hk with heq
    · cases hk
      cases hs
    · rw [Map.lookup_retain, Option.filter_eq_some_iff] at hk
      obtain ⟨hk, -⟩ := hk
      rw [Map.lookup_erase_eq] at hk
      split_ifs at hk
      exact Or.inl ⟨call', hk, hs⟩
  | _ => exact Or.inl ⟨call', hk, hs⟩

/-- The call sets the derivation that it has read. -/
theorem CreateStep.known_of_queryOutputs {cfg : Config} {c c' : CreateState} {ans : Answer}
    {k : CallId} {call : StepCall} {s : StepRef} {drv : Derivation}
    (h : CreateStep cfg c ans (.resumeStep k) c') (hk : c.creation.steps.lookup k = some call)
    (hpc : call.pc = .queryOutputs s drv) : (c'.graph.step s).drv ≠ none := by
  have hother : ∀ {call' : StepCall}, c.creation.steps.lookup k = some call' →
      call'.pc ≠ .queryOutputs s drv → (c'.graph.step s).drv ≠ none := by
    intro call' hk' hne
    obtain rfl := Option.some.inj (hk.symm.trans hk')
    exact absurd hpc hne
  cases h with
  | setDrv hk' hpc' =>
    obtain rfl := Option.some.inj (hk.symm.trans hk')
    rw [hpc] at hpc'
    cases hpc'
    rw [CreateState.setStepCall_graph, Graph.setDrv, Graph.modifyStep_self]
    simp
  | moveBuild ha => rcases ha with ha | ha <;> cases ha
  | readDrv hk' hpc' => exact hother hk' (by simp [hpc'])
  | unreadable hk' hpc' => exact hother hk' (by simp [hpc'])
  | cachedFailure hk' hpc' => exact hother hk' (by simp [hpc'])
  | substitute hk' hpc' => exact hother hk' (by simp [hpc'])
  | decide finished hk' hpc' =>
    rcases hpc' with ⟨hpc', -⟩ | ⟨hpc', -⟩ <;> exact hother hk' (by simp [hpc'])
  | takeInput r hk' hpc' => exact hother hk' (by simp [hpc'])
  | finish hk' hpc' => exact hother hk' (by simp [hpc'])

/-- The derivation of a complete step is known. -/
structure KnownDrvs (c : CreateState) : Prop where
  gen : ∀ s, (c.graph.step s).created = true → s.gen < c.graph.fresh
  created : ∀ s, (c.graph.step s).created = true → (c.graph.step s).drv ≠ none
  steps : ∀ k call s, c.creation.steps.lookup k = some call → call.pc.read? = some s →
    (c.graph.step s).drv ≠ none

namespace KnownDrvs

variable {cfg : Config} {r r' : Runner}

theorem init : KnownDrvs ⟨{}, [], {}⟩ := by
  constructor <;> simp

/-- A call that has read the derivation works on its step. -/
theorem step_of_read {pc : StepPc} {s : StepRef} (h : pc.read? = some s) :
    pc.step? = some s := by
  cases pc <;> first | exact h | cases h

/-- Every step of the runner. -/
theorem step (h : KnownDrvs r.createState) (hlinked : r.shared.graph.Linked)
    (halloc : Allocated r.createState) {a : Action} (hs : RunnerStep cfg r a r') :
    KnownDrvs r'.createState := by
  have hwakes := hs.runnerGraph.wakes
  have hfresh : r.shared.graph.fresh ≤ r'.shared.graph.fresh := hs.extends.1.fresh
  have hread : ∀ {k call s}, r.creation.steps.lookup k = some call → call.pc.read? = some s →
      s.gen < r.shared.graph.fresh ∧ (r'.shared.graph.step s).drv ≠ none := by
    intro k call s hk hs'
    have hgen := hlinked.gen s (halloc.steps k call s hk (step_of_read hs'))
    exact ⟨hgen, (hwakes s hgen).drv (h.steps k call s hk hs')⟩
  have hcreated : ∀ s, (r'.shared.graph.step s).created = true →
      s.gen < r.shared.graph.fresh ∧ (r'.shared.graph.step s).drv ≠ none := by
    intro s hs'
    rcases hs.waitsStep.created_cases hs' with hold | ⟨k, call, hk, hpc, -⟩
    · have hgen := h.gen s hold
      exact ⟨hgen, (hwakes s hgen).drv (h.created s hold)⟩
    · exact hread hk (by rw [hpc]; rfl)
  refine ⟨fun s hs' => lt_of_lt_of_le (hcreated s hs').1 hfresh, fun s hs' => (hcreated s hs').2,
    fun k call s hk hpc => ?_⟩
  rcases hs.create_or_quiet with ⟨ca, ans, hstep⟩ | ⟨-, hcreation⟩
  · rcases hstep.poolStep.read_cases hk hpc with
      ⟨call₀, hk₀, hpc₀⟩ | ⟨call₀, drv, rfl, hk₀, hpc₀⟩
    · exact (hread hk₀ hpc₀).2
    · exact hstep.known_of_queryOutputs hk₀ hpc₀
  · rw [Runner.createState, hcreation] at hk
    exact (hread hk hpc).2

theorem reach {ok : Runner → Action → Prop} (h : Lts.Reach (Runner.next cfg) ok {} r) :
    KnownDrvs r.createState := by
  have hany := h.mono fun _ _ _ => trivial
  refine hany.invariant_of_reach (I := fun r => KnownDrvs r.createState) init ?_
  intro r a r' hreach hr _ hnext
  exact hr.step (Prioritised.linked_reach hreach) (Allocated.reach hreach)
    (runnerStep_of_next hnext)

/-- A runnable step has the derivation that `create_step` has read for it. -/
theorem drv_of_runnable (h : KnownDrvs r.createState) (hok : RunnerOk cfg r)
    (hmade : Making r.createState) {s : StepRef}
    (hs : (r.shared.graph.step s).runnable = true) :
    (r.shared.graph.step s).drv = some (cfg.drvOf s.drvPath) := by
  obtain ⟨drv, hdrv⟩ := Option.ne_none_iff_exists'.mp (h.created s (hmade.runnable s hs))
  have hdrv₀ : (r.shared.graph.step s).drv = some drv := hdrv
  rw [hdrv₀, show drv = cfg.drvOf s.drvPath from hok.create.graph.drv s drv hdrv]

theorem drv_of_reach (h : Lts.Reach (Runner.next cfg) Lts.anyStep {} r) {s : StepRef}
    (hs : (r.shared.graph.step s).runnable = true) :
    (r.shared.graph.step s).drv = some (cfg.drvOf s.drvPath) :=
  (reach h).drv_of_runnable (RunnerOk.reach h) (Making.reach h) hs

end KnownDrvs

/-! ## The choice of the machine -/

/-- The machine may build the derivation: it has the system, and it accepts
the features that the derivation requires. -/
structure Machine.CanBuild (m : Machine) (drv : Derivation) : Prop where
  system : drv.system = "builtin" ∨ drv.system ∈ m.systems
  features : m.acceptsFeatures drv.requiredFeatures = true

/-- The machine of a new attempt is one that the search has found. -/
theorem walkStep_eligible {cfg : Config} {s : Shared} {held : InfoRef → Bool} {w : Walk}
    {i i' : InfoRef} {ans : Answer} {m : MachineRef} {job : Job}
    (ha : (walkStep cfg s held w i ans).2.attempt = some (i', m, job)) :
    i' = i ∧ s.queues.live held i = true ∧ m ∈ s.machines.candidates w.system ans.machines ∧
      s.machines.eligible (Shared.seconds ans.now) (some cfg.freeFn) ans.disk ans.dyn
        (s.graph.getRequiredFeatures i.step) m = true := by
  unfold walkStep at ha
  split_ifs at ha with hlive hflag hfin hafter
  · cases ha
  · cases ha
  · cases ha
  · cases ha
  unfold realiseStart at ha
  simp only at ha
  have hfind := Machines.findFree_snd s.machines (Shared.seconds ans.now) cfg.freeFn ans.disk
    ans.dyn (s.graph.getRequiredFeatures i.step) (s.machines.candidates w.system ans.machines)
  generalize s.machines.findFree (Shared.seconds ans.now) cfg.freeFn ans.disk ans.dyn
    (s.graph.getRequiredFeatures i.step) (s.machines.candidates w.system ans.machines) = res
    at ha hfind
  obtain ⟨machines, found⟩ := res
  cases found with
  | none => cases ha
  | some m' =>
    simp only at ha hfind
    split at ha
    · cases ha
    · cases ha
      exact ⟨rfl, by simpa using hlive, List.mem_of_find?_eq_some hfind.symm,
        List.find?_some hfind.symm⟩

/-- Only the walk of `process` starts an attempt. -/
theorem DispatchStep.walk_of_attempt {s s' : Shared} {held : InfoRef → Bool}
    {d d' : DispatchPc} (hs : DispatchStep s held d s' d') (hnone : d.attempt = none)
    {i : InfoRef} {m : MachineRef} {job : Job} (ha : d'.attempt = some (i, m, job)) :
    ∃ w, d = .walk w := by
  have hidle : d'.walk? = none → ∃ w, d = .walk w := by
    intro hw
    rw [(DispatchPc.attempt_eq_none_of_info (DispatchPc.info_eq_none_of_walk? hw)).1] at ha
    cases ha
  cases hs with
  | other hm hinfo hwalk hcollected htodo => exact hidle hwalk
  | scrub hinfo hwalk hcollected htodo => exact hidle hwalk
  | removeByPath drv hinfo hwalk hcollected htodo => exact hidle hwalk
  | pick => exact ⟨_, rfl⟩
  | advance hm hlate hlate' htarget =>
    rw [DispatchPc.attempt_realise] at ha hnone
    obtain ⟨⟨m', job'⟩, htarget', -⟩ := Option.map_eq_some_iff.mp ha
    obtain ⟨job₀, htarget₀, -⟩ := htarget m' job' htarget'
    rw [htarget₀] at hnone
    cases hnone
  | send => cases hnone
  | insertJob => cases hnone
  | _ => cases ha

/-- A new attempt is for a job of the queue that `process` walks over. -/
theorem DispatchPc.resume_picks {cfg : Config} {s s' : Shared} {held : InfoRef → Bool}
    {d d' : DispatchPc} {ans : Answer} (hres : d.resume cfg s held ans = some (s', d'))
    {i : InfoRef} {m : MachineRef} {job : Job} (ha : d'.attempt = some (i, m, job)) :
    (∃ job', d.attempt = some (i, m, job')) ∨ ∃ w, d = .walk w ∧ i ∈ w.jobs ∧
      s.queues.live held i = true ∧ m ∈ s.machines.candidates w.system ans.machines ∧
      s.machines.eligible (Shared.seconds ans.now) (some cfg.freeFn) ans.disk ans.dyn
        (s.graph.getRequiredFeatures i.step) m = true := by
  by_cases hwalk : ∃ w, d = .walk w
  · obtain ⟨w, rfl⟩ := hwalk
    right
    simp only [DispatchPc.resume] at hres
    split at hres
    · split_ifs at hres
      cases hres
      cases ha
    · cases hres
      cases ha
    · rename_i j jobs hjobs
      rw [Option.some.injEq] at hres
      have ha' : (walkStep cfg s held { w with jobs := jobs } j ans).2.attempt =
          some (i, m, job) := by
        rw [hres]
        exact ha
      obtain ⟨rfl, hlive, hmem, heligible⟩ := walkStep_eligible ha'
      exact ⟨w, rfl, by rw [hjobs]; exact List.mem_cons_self, hlive, hmem, heligible⟩
  · left
    have hs := dispatchStep_of_resume hres
    rcases hs.attempt_cases ha with ⟨job', ha', -, -⟩ | ⟨hnone, -, -, -⟩
    · exact ⟨job', ha'⟩
    · exact absurd (hs.walk_of_attempt hnone ha) hwalk

/-! ## The machines of a run -/

/-- Every machine that was registered can build what it could. -/
structure Machines.Stays (ms ms' : Machines) : Prop where
  fresh : ms.fresh ≤ ms'.fresh
  canBuild : ∀ (m : MachineRef) (drv : Derivation), m.gen < ms.fresh →
    (ms.machine m).CanBuild drv → (ms'.machine m).CanBuild drv

/-- The lists by system hold machines with the system. -/
def Machines.BySystem (ms : Machines) : Prop :=
  ∀ system l, ms.bySystem.lookup system = some l → ∀ m ∈ l,
    system ∈ (ms.machine m).systems

theorem Machines.Stays.of_machine {ms ms' : Machines} (hfresh : ms'.fresh = ms.fresh)
    (hmachine : ms'.machine = ms.machine) : ms.Stays ms' :=
  ⟨Nat.le_of_eq hfresh.symm, fun _ _ _ h => hmachine ▸ h⟩

theorem Machines.SameRegistry.stays {ms ms' : Machines} (h : ms.SameRegistry ms') :
    ms.Stays ms' where
  fresh := Nat.le_of_eq h.fresh.symm
  canBuild m drv _ hm := by
    refine ⟨?_, ?_⟩
    · rw [h.systems]
      exact hm.system
    · rw [h.accepts]
      exact hm.features

theorem Machines.SameRegistry.bySystem_of {ms ms' : Machines} (h : ms.SameRegistry ms')
    (hlists : ms.BySystem) : ms'.BySystem := by
  intro system l hl m hm
  rw [h.bySystem] at hl
  rw [h.systems]
  exact hlists system l hl m hm

/-- A machine registers. -/
theorem Machines.insertMachine_stays {ms : Machines} (id : Uuid) (record : Machine)
    (sortFn : MachineSortFn) (hlists : ms.BySystem)
    (hold : ∀ system l, ms.bySystem.lookup system = some l → ∀ m ∈ l, m.gen < ms.fresh) :
    ms.Stays (ms.insertMachine id record sortFn).1 ∧
      (ms.insertMachine id record sortFn).1.BySystem := by
  have hmachine : (ms.insertMachine id record sortFn).1.machine =
      Function.update ms.machine ⟨id, ms.fresh⟩ record := rfl
  have hother : ∀ m : MachineRef, m.gen < ms.fresh →
      (ms.insertMachine id record sortFn).1.machine m = ms.machine m := by
    intro m hm
    have hne : m ≠ ⟨id, ms.fresh⟩ := by
      intro heq
      rw [heq] at hm
      exact lt_irrefl _ hm
    rw [hmachine, Function.update_of_ne hne]
  refine ⟨⟨Nat.le_succ _, fun m drv hm h => ?_⟩, fun system l hl m hm => ?_⟩
  · rw [hother m hm]
    exact h
  · rcases insertMachine_bySystem hl hm with ⟨rfl, hsystem⟩ | ⟨l', hl', hm'⟩
    · rw [hmachine, Function.update_self]
      exact hsystem
    · rw [hother m (hold system l' hl' m hm')]
      exact hlists system l' hl' m hm'

/-- What a step of the runner does to the machines. -/
theorem RunnerStep.machines {cfg : Config} {r r' : Runner} {a : Action} (hok : RunnerOk cfg r)
    (h : RunnerStep cfg r a r') (hlists : r.shared.machines.BySystem) :
    r.shared.machines.Stays r'.shared.machines ∧ r'.shared.machines.BySystem := by
  have hsame : r.shared.machines.SameRegistry r'.shared.machines →
      r.shared.machines.Stays r'.shared.machines ∧ r'.shared.machines.BySystem :=
    fun hsame => ⟨hsame.stays, hsame.bySystem_of hlists⟩
  cases h with
  | dispatch hres => exact hsame (dispatchStep_of_resume hres).sameRegistry
  | call ht hres => exact hsame ((callStep_of_resume hres).sameRegistry hok)
  | completeBuild uuid machineId state report =>
    obtain ⟨results, hshared, -⟩ := completeBuild_spec r.shared uuid machineId state report
    apply hsame
    rw [Runner.spawn_shared, hshared]
    exact .refl _
  | @endStream m hm =>
    obtain ⟨machines, task, hshared, -, hmachine, hfresh, -, hsystems, -⟩ :=
      endStream_spec r.shared m
    rw [Runner.spawn_shared, hshared]
    refine ⟨.of_machine hfresh hmachine, fun system l hl o ho => ?_⟩
    obtain ⟨l', hl', ho'⟩ := hsystems system l hl o ho
    show system ∈ (machines.machine o).systems
    rw [hmachine]
    exact hlists system l' hl' o ho'
  | queueChange curIds =>
    apply hsame
    rw [Runner.spawn_shared]
    exact .refl _
  | insertMachine id record sortFn =>
    exact Machines.insertMachine_stays id _ sortFn hlists hok.registry.bySystem
  | _ => exact hsame (.refl _)

/-! ## The invariant -/

/-- The attempts and the messages are for machines that can build them. -/
structure Placed (cfg : Config) (r : Runner) : Prop where
  lists : r.shared.machines.BySystem
  attempt : ∀ i m job, r.dispatcher.attempt = some (i, m, job) →
    (r.shared.machines.machine m).CanBuild (cfg.drvOf i.drvPath)
  sent : ∀ e ∈ r.shared.log.sent, e.2.2.gen < r.shared.machines.fresh ∧
    (r.shared.machines.machine e.2.2).CanBuild (cfg.drvOf e.2.1.drvPath)

namespace Placed

variable {cfg : Config} {r r' : Runner}

theorem init : Placed cfg {} := by
  constructor <;> simp [Machines.BySystem, DispatchPc.attempt]

/-- The machine that the search finds for a job of the queue can build it. -/
theorem canBuild_of_picked (h : Placed cfg r) (hok : RunnerOk cfg r)
    (hjobs : JobSteps (JobSteps.Found r) r) (hmade : Making r.createState)
    (hdrvs : KnownDrvs r.createState) {w : Walk} (hw : r.dispatcher = .walk w) {i : InfoRef}
    (hi : i ∈ w.jobs) (hlive : r.live i = true) {m : MachineRef} {order : List MachineRef}
    (hm : m ∈ r.shared.machines.candidates w.system order)
    (haccepts : (r.shared.machines.machine m).acceptsFeatures
      (r.shared.graph.getRequiredFeatures i.step) = true) :
    (r.shared.machines.machine m).CanBuild (cfg.drvOf i.drvPath) := by
  have hwalk : r.dispatcher.walk? = some w := by
    rw [hw]
    rfl
  have hsystem : (cfg.drvOf i.drvPath).system = w.system :=
    hok.pointers.system w.system i ((hok.pointers.walk w hwalk i hi).2 hlive)
  -- the features are those of the derivation, which is known
  have hdrv := hdrvs.drv_of_runnable hok hmade (hjobs.walk w hwalk i hi).2
  have hfeatures : r.shared.graph.getRequiredFeatures i.step =
      (cfg.drvOf i.drvPath).requiredFeatures := by
    simp only [Graph.getRequiredFeatures, hdrv]
    rfl
  refine ⟨?_, hfeatures ▸ haccepts⟩
  rw [hsystem]
  by_cases hbuiltin : w.system = "builtin"
  · exact Or.inl hbuiltin
  · right
    unfold Machines.candidates at hm
    rw [if_neg hbuiltin] at hm
    cases hl : r.shared.machines.bySystem.lookup w.system with
    | none => simp [hl] at hm
    | some l =>
      rw [hl] at hm
      exact h.lists w.system l hl m hm

/-- Every step of the runner. -/
theorem step (h : Placed cfg r) (hok : RunnerOk cfg r)
    (hjobs : JobSteps (JobSteps.Found r) r) (hmade : Making r.createState)
    (hdrvs : KnownDrvs r.createState) {a : Action} (hs : RunnerStep cfg r a r') :
    Placed cfg r' := by
  have hattempt := (hok.step hs).registry.attempt
  obtain ⟨hstays, hlists⟩ := hs.machines hok h.lists
  refine ⟨hlists, fun i m job ha => ?_, fun e he => ?_⟩
  · have hold : ∀ job', r.dispatcher.attempt = some (i, m, job') →
        (r'.shared.machines.machine m).CanBuild (cfg.drvOf i.drvPath) := fun job' ha' =>
      hstays.canBuild m _ (hok.registry.attempt i m job' ha') (h.attempt i m job' ha')
    by_cases hd : ∃ ans, a = .dispatch ans
    · obtain ⟨ans, rfl⟩ := hd
      cases hs with
      | @dispatch _ s' d' hres =>
        rcases DispatchPc.resume_picks hres ha with
          ⟨job', ha'⟩ | ⟨w, hw, hi, hlive, hm, heligible⟩
        · exact hold job' ha'
        · obtain ⟨-, haccepts⟩ := Bool.and_eq_true_iff.mp heligible
          refine hstays.canBuild m _ ?_
            (h.canBuild_of_picked hok hjobs hmade hdrvs hw hi hlive hm haccepts)
          rw [← (dispatchStep_of_resume hres).sameRegistry.fresh]
          exact hattempt i m job ha
    · rw [hs.dispatcher_eq fun ans he => hd ⟨ans, he⟩] at ha
      exact hold job ha
  · have hold : ∀ e ∈ r.shared.log.sent, e.2.2.gen < r'.shared.machines.fresh ∧
        (r'.shared.machines.machine e.2.2).CanBuild (cfg.drvOf e.2.1.drvPath) := by
      intro e he
      obtain ⟨hgen, hcan⟩ := h.sent e he
      exact ⟨lt_of_lt_of_le hgen hstays.fresh, hstays.canBuild _ _ hgen hcan⟩
    rcases hs.sent_eq hok with hsent | ⟨w, i, m, job, hd, hsent⟩
    · rw [hsent] at he
      exact hold e he
    · rw [hsent] at he
      rcases List.mem_cons.mp he with rfl | he
      · have ha : r.dispatcher.attempt = some (i, m, job) := by
          rw [hd]
          rfl
        have hgen := hok.registry.attempt i m job ha
        exact ⟨lt_of_lt_of_le hgen hstays.fresh,
          hstays.canBuild m _ hgen (h.attempt i m job ha)⟩
      · exact hold e he

theorem reach {ok : Runner → Action → Prop} (h : Lts.Reach (Runner.next cfg) ok {} r) :
    Placed cfg r := by
  refine h.invariant_of_reach init ?_
  intro r a r' hreach hr _ hnext
  exact hr.step (RunnerOk.reach hreach) (JobSteps.reach hreach) (Making.reach hreach)
    (KnownDrvs.reach hreach) (runnerStep_of_next hnext)

end Placed

/-- In every run, the machine that a message was sent to has the system of the
derivation, supports all features that it requires, and has no mandatory
feature that it does not require.  The step of the message is runnable and has
this derivation, and it had it in every earlier state in which it was
runnable. -/
theorem sent_to_capable_machine (cfg : Config) (r r' : Runner)
    (h : Lts.Reach (Runner.next cfg) Lts.anyStep {} r)
    (h' : Lts.Reach (Runner.next cfg) Lts.anyStep r r') (u : Uuid) (i : InfoRef)
    (m : MachineRef) (he : (u, i, m) ∈ r'.shared.log.sent) :
    (((cfg.drvOf i.drvPath).system = "builtin" ∨
        (cfg.drvOf i.drvPath).system ∈ (r'.shared.machines.machine m).systems) ∧
      (∀ f ∈ (cfg.drvOf i.drvPath).requiredFeatures,
        f ∈ (r'.shared.machines.machine m).supportedFeatures) ∧
      ∀ f ∈ (r'.shared.machines.machine m).mandatoryFeatures,
        f ∈ (cfg.drvOf i.drvPath).requiredFeatures) ∧
      (r'.shared.graph.step i.step).runnable = true ∧
      (r'.shared.graph.step i.step).drv = some (cfg.drvOf i.drvPath) ∧
      ((r.shared.graph.step i.step).runnable = true →
        (r.shared.graph.step i.step).drv = some (cfg.drvOf i.drvPath)) := by
  have hreach := h.trans h'
  obtain ⟨-, hsystem, hfeatures⟩ := (Placed.reach hreach).sent _ he
  simp only [Machine.acceptsFeatures, Bool.and_eq_true, List.all_eq_true,
    List.contains_iff_mem] at hfeatures
  have hrunnable := ((JobSteps.reach hreach).sent _ he).2
  exact ⟨⟨hsystem, hfeatures.2, hfeatures.1⟩, hrunnable,
    KnownDrvs.drv_of_reach hreach hrunnable, KnownDrvs.drv_of_reach h⟩

namespace Sample

/-- Every derivation requires `kvm`. -/
def kvmConfig : Config :=
  { config with drvOf := fun _ => ⟨"x86_64-linux", [], [⟨"out", some ⟨"out"⟩⟩], ["kvm"]⟩ }

/-- A machine that is reserved for what requires `kvm`. -/
def registerKvm : Action :=
  .insertMachine 0
    { systems := ["x86_64-linux"], supportedFeatures := ["big-parallel", "kvm"],
      mandatoryFeatures := ["kvm"], maxJobs := 1 } .speedFactorOnly

end Sample

/-- The step is runnable once it is created, and its message goes to the
machine with `kvm`. -/
theorem sent_to_capable_machine_sample : ∃ r r' : Runner,
    (r.shared.graph.step Sample.step).runnable = true ∧
      (0, Sample.info, Sample.machine) ∈ r'.shared.log.sent ∧
      (((Sample.kvmConfig.drvOf Sample.drv).system = "builtin" ∨
          (Sample.kvmConfig.drvOf Sample.drv).system ∈
            (r'.shared.machines.machine Sample.machine).systems) ∧
        (∀ f ∈ (Sample.kvmConfig.drvOf Sample.drv).requiredFeatures,
          f ∈ (r'.shared.machines.machine Sample.machine).supportedFeatures) ∧
        ∀ f ∈ (r'.shared.machines.machine Sample.machine).mandatoryFeatures,
          f ∈ (Sample.kvmConfig.drvOf Sample.drv).requiredFeatures) ∧
      (r'.shared.graph.step Sample.step).runnable = true ∧
      (r'.shared.graph.step Sample.step).drv = some (Sample.kvmConfig.drvOf Sample.drv) ∧
      ((r.shared.graph.step Sample.step).runnable = true →
        (r.shared.graph.step Sample.step).drv = some (Sample.kvmConfig.drvOf Sample.drv)) := by
  have hrun : ((Lts.run (Runner.next Sample.kvmConfig) {}
      (Sample.registerKvm :: Sample.created)).bind (fun r =>
        (Lts.run (Runner.next Sample.kvmConfig) r Sample.sent).map (fun r' =>
          ((r.shared.graph.step Sample.step).runnable, r'.shared.log.sent)))) =
      some (true, [(0, Sample.info, Sample.machine)]) := by
    decide +kernel
  obtain ⟨r, hr, hrest⟩ := Option.bind_eq_some_iff.mp hrun
  obtain ⟨r', hr', hends⟩ := Option.map_eq_some_iff.mp hrest
  rw [Prod.mk.injEq] at hends
  obtain ⟨hrunnable, hsent⟩ := hends
  have he : (0, Sample.info, Sample.machine) ∈ r'.shared.log.sent := by
    rw [hsent]
    exact List.mem_cons_self
  exact ⟨r, r', hrunnable, he, sent_to_capable_machine Sample.kvmConfig r r'
    (Lts.reach_of_run hr) (Lts.reach_of_run hr') 0 Sample.info Sample.machine he⟩

end QueueRunner
