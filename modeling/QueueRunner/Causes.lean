import QueueRunner.Dependents
import QueueRunner.DispatchOrder
import QueueRunner.Finality
import QueueRunner.Wakeups

/-!
# Why a build is finished

`succeed_step` finishes the builds of its step, `inner_fail_job` the builds
that depend on a step that has failed, and `create_build` the build that it
creates.  `inner_fail_job` finds the builds by the weak pointers that
`Steps::create` has left in the steps, while queue passes go on beside it.
These pointers lead to dependents only (`References`), so a step that
finishes a build has one of the reasons of `Runner.Finishes`.
-/

namespace QueueRunner

/-- The derivation `q` is `p`, or `p` needs it as an input, directly or not. -/
def Config.Needs (cfg : Config) (p q : StorePath) : Prop :=
  Relation.ReflTransGen (fun p q => q ∈ (cfg.drvOf p).inputDrvs) p q

/-! ## The pointers of a step -/

/-- A step points to steps that have it as an input, and to builds of its
derivation. -/
structure References (cfg : Config) (g : Graph) : Prop where
  rdeps : ∀ s t, t ∈ (g.step s).rdeps → s.drvPath ∈ (cfg.drvOf t.drvPath).inputDrvs
  builds : ∀ s b, b ∈ (g.step s).builds → b.drvPath = s.drvPath

namespace References

variable {cfg : Config} {g g' : Graph}

theorem init : References cfg {} := by
  constructor <;> simp

theorem narrows (h : References cfg g) (hg : Graph.Keeps Step.Narrows g g') :
    References cfg g' where
  rdeps s t ht := h.rdeps s t ((hg s).1 ht)
  builds s b hb := h.builds s b ((hg s).2 hb)

/-- `Steps::create` adds a step that has the derivation as an input, or a
build of the derivation. -/
theorem created (h : References cfg g) {drvPath : StorePath} {build : Option BuildRef}
    {parent : Option StepRef} {s : StepRef} {isNew : Bool}
    (hc : Graph.Created g drvPath build parent g' s isNew) (hs : s.drvPath = drvPath)
    (hbuild : ∀ b ∈ build, b.drvPath = drvPath)
    (hparent : ∀ t ∈ parent, drvPath ∈ (cfg.drvOf t.drvPath).inputDrvs) :
    References cfg g' := by
  -- a new step points to nothing else
  have hold : (g.step s).Narrows (if isNew then {} else g.step s) := by
    cases isNew with
    | true => exact ⟨List.nil_subset _, List.nil_subset _⟩
    | false => exact .refl _
  refine ⟨fun u t ht => ?_, fun u b hb => ?_⟩
  · rw [hc.step] at ht
    by_cases hus : u = s
    · rw [if_pos hus] at ht
      rw [hus]
      rcases List.mem_append.mp ht with ht | ht
      · exact h.rdeps s t (hold.1 ht)
      · exact hs ▸ hparent t (Option.mem_toList.mp ht)
    · rw [if_neg hus] at ht
      exact h.rdeps u t ht
  · rw [hc.step] at hb
    by_cases hus : u = s
    · rw [if_pos hus] at hb
      rw [hus]
      rcases List.mem_append.mp hb with hb | hb
      · exact h.builds s b (hold.2 hb)
      · exact (hbuild b (Option.mem_toList.mp hb)).trans hs.symm
    · rw [if_neg hus] at hb
      exact h.builds u b hb

/-- A call of `create_step` starts. -/
theorem started {c c' : CreateState} (h : References cfg c.graph) (hok : CreateOk cfg c)
    {pass build : CallId} {callers : List CallId} {drvPath : StorePath} {rb : Option BuildRef}
    {rs : Option StepRef} {pc : StepPc}
    (hstart : CreateState.Started c pass build callers drvPath rb rs c' pc)
    (hbuild : ∀ b ∈ rb, b.drvPath = drvPath)
    (hparent : ∀ t ∈ rs, drvPath ∈ (cfg.drvOf t.drvPath).inputDrvs) :
    References cfg c'.graph := by
  rcases hstart.result with ⟨-, hg, -⟩ | ⟨s, isNew, hcreated, -⟩
  · rw [hg]
    exact h
  · refine h.created hcreated ?_ hbuild hparent
    cases isNew with
    | true => rw [(hcreated.notFound rfl).2]
    | false =>
      have hfind := (Graph.findStep_eq_some.mp (hcreated.found rfl)).1
      exact (hok.graph.steps drvPath s hfind).1

/-- Every step of the creation. -/
theorem createStep {c c' : CreateState} {ans : Answer} {a : CreateAction}
    (h : References cfg c.graph) (hok : CreateOk cfg c)
    (hinputs : CallInputs cfg c.creation.steps) (hs : CreateStep cfg c ans a c') :
    References cfg c'.graph := by
  have hsame : c'.graph.step = c.graph.step → References cfg c'.graph := fun hstep =>
    h.narrows fun s => hstep ▸ .refl _
  cases hs with
  | startPass rows => exact hsame (c.startPass_grows rows).2.1
  | makeRunnable now todo hpass hwaiting hcall hpc =>
    exact h.narrows (.foldl Step.Narrows.refl Step.Narrows.trans
      (fun g s => Graph.narrows_makeRunnable g now s) _ _)
  | sweep now order hpass hwaiting htodo horder =>
    exact h.narrows (Graph.narrows_sweepSteps c.graph now order)
  | @startToplevel k call hcall hpc hready =>
    obtain ⟨pc, hstart⟩ := c.started_startStep call.pass k [] call.build.drvPath
      (some call.build) none
    have hbuild : ∀ b ∈ some call.build, b.drvPath = call.build.drvPath := by simp
    exact (h.started hok hstart hbuild (by simp) :)
  | @attach k call step hcall hpc =>
    apply hsame
    simp only [CreateState.finishBuild]
    split_ifs <;> rfl
  | @startInput k call step drvPath todo calls hcall hpc hlength =>
    obtain ⟨pc, hstart⟩ := c.started_startStep call.pass call.build
      (k :: call.callers) drvPath none (some step)
    have hparent : ∀ t ∈ some step, drvPath ∈ (cfg.drvOf t.drvPath).inputDrvs := by
      intro t ht
      obtain rfl := Option.mem_some.mp ht
      have hpath := (hok.steps k call hcall).2.path step (by rw [hpc]; rfl)
      have htodo := hinputs.todo k call hcall
      rw [hpc] at htodo
      rw [hpath]
      exact htodo List.mem_cons_self
    exact (h.started hok hstart (by simp) hparent :)
  | finishInDb hcall hpc => exact hsame rfl
  | @setDrv k call step drv hcall hpc =>
    exact h.narrows (Graph.NoNewRefs.setDrv c.graph step drv).step
  | @cachedFailure k call step drv missing hcall hpc hcached =>
    exact h.narrows (Graph.NoNewRefs.setPreviousFailure c.graph step true).step
  | @decide k call step drv finished hcall hpc =>
    rw [CreateState.decideStep_graph]
    split_ifs
    · exact h.narrows (.modifyStep Step.Narrows.refl (.refl _))
    · exact h
  | @takeInput k k' call child step drvPath todo calls r hcall hpc hchild hresult =>
    cases r with
    | none => exact h
    | previousFailure failed => exact h
    | valid dep =>
      simp only [CreateState.takeInput]
      split_ifs with hopen
      · exact h.narrows (Graph.NoNewRefs.addDep c.graph step dep).step
      · exact h
  | @finish k call step hcall hpc =>
    rw [CreateState.finishStep_graph]
    exact h.narrows (Graph.NoNewRefs.setCreated c.graph step).step
  | _ => exact h

/-- Every other step of the runner. -/
theorem runnerStep {r r' : Runner} (h : References cfg r.shared.graph)
    (hok : CreateOk cfg r.createState) (hinputs : CallInputs cfg r.creation.steps) {a : Action}
    (hs : RunnerStep cfg r a r') : References cfg r'.shared.graph := by
  by_cases ha : ∃ ca ans, a = .create ca ans
  · obtain ⟨ca, ans, rfl⟩ := ha
    cases hs with
    | create hnext =>
      exact References.createStep h hok hinputs (CreateState.createStep_of_next hnext)
  · generalize hg : r'.shared.graph = g
    have hgraph := hg ▸ hs.runnerGraph
    cases hgraph with
    | fades hfades => exact h.narrows (Graph.NoNewRefs.of_fades hfades).step
    | call ht hcall => exact h.narrows hcall.noNewRefs.step
    | create hcreate => exact absurd ⟨_, _, rfl⟩ ha
    | dropStep s => exact h.narrows (.modifyStep Step.Narrows.refl (.refl _))
    | dropBuild b => exact h.narrows fun _ => .refl _

/-! ## The builds that depend on a step -/

/-- A step that refers to `s` needs its derivation. -/
theorem needs_of_refers (h : References cfg g) {s t : StepRef} (hrefers : g.Refers s t) :
    cfg.Needs t.drvPath s.drvPath := by
  induction hrefers with
  | refl => exact .refl
  | @tail t u _ hrdep ih => exact .head (h.rdeps t u hrdep.1) ih

end References

/-- `get_dependents` visits only steps that refer to the first one. -/
theorem Graph.refers_of_mem_getDependentsFrom {g : Graph} {s₀ : StepRef} (fuel : Nat)
    {d : Dependents} {s : StepRef} (hs : g.Refers s₀ s) (hd : ∀ t ∈ d.steps, g.Refers s₀ t) :
    ∀ t ∈ (g.getDependentsFrom fuel d s).steps, g.Refers s₀ t := by
  induction fuel generalizing d s with
  | zero => exact hd
  | succ fuel ih =>
    simp only [getDependentsFrom]
    split_ifs
    · exact hd
    · refine List.foldlRecOn (motive := fun d : Dependents => ∀ t ∈ d.steps, g.Refers s₀ t) _ _
        (fun t ht => ?_) (fun d hd u hu => ?_)
      · rcases List.mem_append.mp ht with ht | ht
        · exact hd t ht
        · exact List.mem_singleton.mp ht ▸ hs
      · split_ifs with halive
        · exact ih (hs.tail ⟨hu, halive⟩) hd
        · exact hd

/-- The builds that `get_dependents` finds need the derivation of the step. -/
theorem References.needs_of_getDependents {cfg : Config} {g : Graph} (h : References cfg g)
    {s : StepRef} {b : BuildRef} (hb : b ∈ (g.getDependents s).builds) :
    cfg.Needs b.drvPath s.drvPath := by
  obtain ⟨t, ht, hattached⟩ := (g.collected_getDependents s).attached b hb
  rw [h.builds t b hattached]
  exact h.needs_of_refers (g.refers_of_mem_getDependentsFrom _ .refl (by simp) t ht)

/-! ## `inner_fail_job` -/

namespace InnerFail

variable {cfg : Config}

/-- The builds of the round need the derivation of the step. -/
def Blames (cfg : Config) (f : InnerFail) : Prop :=
  ∀ b ∈ f.builds, cfg.Needs b.drvPath f.step.drvPath

theorem loopHead_blames {s : Shared} (h : References cfg s.graph) (step : StepRef) (job : Job)
    (stepFinished : Bool) : (loopHead s step job stepFinished).2.step = step ∧
      (loopHead s step job stepFinished).2.Blames cfg := by
  have hfound : ∀ b ∈ (s.graph.getAllIndirectBuilds step).2,
      cfg.Needs b.drvPath step.drvPath := by
    rw [(s.graph.getAllIndirectBuilds_spec step).1]
    exact fun b hb => h.needs_of_getDependents hb
  unfold loopHead
  generalize s.graph.getAllIndirectBuilds step = res at hfound
  obtain ⟨g, indirect⟩ := res
  simp only
  split_ifs
  · exact ⟨rfl, fun b hb => by cases hb⟩
  · exact ⟨rfl, hfound⟩

theorem start_blames {s : Shared} (h : References cfg s.graph) (step : StepRef) (job : Job) :
    (start s step job).2.step = step ∧ (start s step job).2.Blames cfg := by
  unfold start
  split_ifs
  · exact ⟨rfl, fun b hb => by cases hb⟩
  · exact loopHead_blames h step job false

theorem resume_blames {s s' : Shared} (h : References cfg s.graph) {f f' : InnerFail}
    {ans : Answer} (hres : f.resume s ans = (s', .running f')) :
    f'.step = f.step ∧ f'.Blames cfg := by
  unfold resume at hres
  cases hpc : f.pc with
  | finishBuildStep =>
    rw [hpc] at hres
    simp only at hres
    split_ifs at hres
    · cases hres
      exact loopHead_blames h f.step f.job false
    · cases hres
  | mark indirect =>
    rw [hpc] at hres
    simp only at hres
    split_ifs at hres
    · cases hres
      have hnarrows := Graph.NoNewRefs.of_fades (Graph.Fades.finishBuilds s.graph indirect)
      exact loopHead_blames (s := { s with graph := s.graph.finishBuilds indirect })
        (h.narrows hnarrows.step) f.step f.job true
    · cases hres
  | notify =>
    rw [hpc] at hres
    cases hres

theorem loopHead_build (s : Shared) (step : StepRef) (job : Job) (v : Bool) :
    (loopHead s step job v).1.graph.build = s.graph.build := by
  rw [loopHead_shared]
  exact (s.graph.getAllIndirectBuilds_spec step).2.1

theorem start_build (s : Shared) (step : StepRef) (job : Job) :
    (start s step job).1.graph.build = s.graph.build := by
  unfold start
  split_ifs
  · rfl
  · exact loopHead_build s step job false

/-- The builds that a step of `inner_fail_job` finishes are those of the
round. -/
theorem mem_builds_of_finished {s : Shared} {f : InnerFail} {ans : Answer} {b : BuildRef}
    (hb : (s.graph.build b).finishedInDb = false)
    (hb' : ((f.resume s ans).1.graph.build b).finishedInDb = true) : b ∈ f.builds := by
  have hsame : (f.resume s ans).1.graph.build = s.graph.build → b ∈ f.builds := by
    intro heq
    rw [heq, hb] at hb'
    cases hb'
  obtain ⟨step, job, pc⟩ := f
  cases pc with
  | finishBuildStep =>
    apply hsame
    simp only [resume]
    split_ifs
    · exact loopHead_build s step job false
    · rfl
  | mark indirect =>
    by_cases hok : ans.ok = true
    · simp only [resume, if_pos hok] at hb'
      rw [loopHead_build] at hb'
      have hmem := ((s.graph.finishedBy_finishBuilds indirect).finished b).mp hb'
      rw [hb] at hmem
      exact hmem.resolve_left (by simp)
    · apply hsame
      simp only [resume, if_neg hok]
  | notify => exact hsame rfl

end InnerFail

/-! ## The calls -/

/-- The verdict that the call carries out, and the builds that it is about to
finish.  `fail_step` fails its own step. -/
def CallTask.Justified (cfg : Config) (log : Log) : CallTask → Prop
  | .succeed _ _ .start => True
  | .succeed _ _ (.removeJob item _) => item.stepInfo.step ∈ log.succeeded
  | .succeed _ _ (.finishBuildStep item _) => item.stepInfo.step ∈ log.succeeded
  | .succeed _ _ (.markSucceeded item direct) => item.stepInfo.step ∈ log.succeeded ∧
    ∀ b ∈ direct, b.drvPath = item.stepInfo.step.drvPath
  | .succeed _ _ (.notify item) => item.stepInfo.step ∈ log.succeeded
  | .fail _ (.removeJob item _) _ => item.stepInfo.step ∈ log.failed
  | .fail _ (.inner item f) _ =>
    f.step = item.stepInfo.step ∧ f.step ∈ log.failed ∧ f.Blames cfg
  | _ => True

namespace CallTask.Justified

variable {cfg : Config} {log log' : Log} {task : CallTask}

theorem mono (h : task.Justified cfg log) (hsucceeded : log.succeeded ⊆ log'.succeeded)
    (hfailed : log.failed ⊆ log'.failed) : task.Justified cfg log' := by
  cases task with
  | succeed a report pc =>
    cases pc with
    | start => trivial
    | markSucceeded item direct => exact ⟨hsucceeded h.1, h.2⟩
    | _ => exact hsucceeded h
  | fail a pc caller =>
    cases pc with
    | removeJob item job => exact hfailed h
    | inner item f => exact ⟨h.1, hfailed h.2.1, h.2.2⟩
    | _ => trivial
  | _ => trivial

/-- A call that has no item yet. -/
theorem of_infos (h : task.infos = []) : task.Justified cfg log := by
  cases task with
  | succeed a report pc =>
    cases pc with
    | start => trivial
    | _ => cases h
  | fail a pc caller =>
    cases pc with
    | removeJob item job => cases h
    | inner item f => cases h
    | _ => trivial
  | _ => trivial

theorem of_next {caller : Caller} (h : caller.next = some task) : task.Justified cfg log := by
  cases caller with
  | rpc => cases h
  | tunnel m rest => cases rest <;> cases h <;> trivial
  | queueChange rest =>
    cases rest with
    | nil => cases h
    | cons a rest =>
      cases h
      trivial

end CallTask.Justified

/-! ## A step of a call -/

section

variable {cfg : Config} {s : Shared}

theorem succeedResume_justified (href : References cfg s.graph) (held : InfoRef → Bool)
    {a : Attempt} {report : BuildReport} {pc : SucceedPc}
    (h : (CallTask.succeed a report pc).Justified cfg s.log) (ans : Answer) {task : CallTask}
    (ht : (succeedResume s held a report pc ans).2 = some task) :
    task.Justified cfg (succeedResume s held a report pc ans).1.log := by
  cases pc with
  | start =>
    simp only [succeedResume, succeedStart] at ht ⊢
    cases hq : s.queues.removeJobFromScheduled a.drv with
    | none =>
      rw [hq] at ht
      cases ht
    | some res =>
      obtain ⟨item, queues⟩ := res
      rw [hq] at ht
      simp only at ht ⊢
      split at ht
      · cases ht
      · cases ht
        exact List.mem_cons_self
  | removeJob item job =>
    simp only [succeedResume] at ht ⊢
    split at ht
    · cases ht
    · cases ht
      exact h
  | finishBuildStep item job =>
    simp only [succeedResume] at ht ⊢
    split_ifs at ht ⊢
    · cases ht
      exact ⟨h, fun b hb => href.builds _ b (List.mem_of_mem_filter hb)⟩
    · cases ht
      exact ⟨h, fun b hb => href.builds _ b (List.mem_of_mem_filter hb)⟩
  | markSucceeded item direct =>
    simp only [succeedResume] at ht ⊢
    split_ifs at ht ⊢
    cases ht
    exact h.1
  | notify item =>
    simp only [succeedResume] at ht
    split_ifs at ht

theorem failDecide_justified {a : Attempt} {item : ScheduledItem} {job : Job}
    {state : BuildResultState} {timings : BuildTimings} {caller : Caller} {ans : Answer}
    {task : CallTask}
    (ht : (failDecide cfg s a item job state timings caller ans).2 = some task) :
    task.Justified cfg (failDecide cfg s a item job state timings caller ans).1.log := by
  unfold failDecide at ht ⊢
  simp only at ht ⊢
  split at ht
  · exact .of_next ht
  · split_ifs at ht ⊢
    · cases ht
      trivial
    · cases ht
      exact List.mem_cons_self
    · cases ht
      trivial
    · cases ht
      exact List.mem_cons_self

theorem failResume_justified (href : References cfg s.graph) (held : InfoRef → Bool)
    {a : Attempt} {pc : FailPc} {caller : Caller}
    (h : (CallTask.fail a pc caller).Justified cfg s.log) (ans : Answer) {task : CallTask}
    (ht : (failResume cfg s held a pc caller ans).2 = some task) :
    task.Justified cfg (failResume cfg s held a pc caller ans).1.log := by
  cases pc with
  | start state timings =>
    simp only [failResume, failStart] at ht ⊢
    cases hq : s.queues.removeJobFromScheduled a.drv with
    | none =>
      rw [hq] at ht
      exact .of_next ht
    | some res =>
      obtain ⟨item, queues⟩ := res
      rw [hq] at ht
      simp only at ht ⊢
      split at ht
      · exact .of_next ht
      · exact failDecide_justified ht
  | retry item job => exact .of_next ht
  | removeJob item job =>
    simp only [failResume] at ht ⊢
    -- the builds are found in the graph, which the queues leave alone
    generalize hs' : ({ s with
      queues := s.queues.removeJob held item.stepInfo item.buildQueue } : Shared) = s' at ht ⊢
    have href' : References cfg s'.graph := hs' ▸ href
    obtain ⟨hstep, hblames⟩ := InnerFail.start_blames href' item.stepInfo.step job
    have hlog := InnerFail.start_log s' item.stepInfo.step job
    generalize InnerFail.start s' item.stepInfo.step job = res at ht hstep hblames hlog ⊢
    cases ht
    refine ⟨hstep, ?_, hblames⟩
    rw [hlog, hstep, ← hs']
    exact h
  | inner item f =>
    simp only [failResume] at ht ⊢
    have hlog := InnerFail.resume_log s f ans
    split at ht <;> rename_i heq
    · cases ht
      obtain ⟨hstep, hblames⟩ := InnerFail.resume_blames href heq
      rw [heq] at hlog
      refine ⟨hstep.trans h.1, ?_, hblames⟩
      rw [hlog, hstep]
      exact h.2.1
    · exact .of_next ht

/-- Every step of a call. -/
theorem CallTask.Justified.resume {held : InfoRef → Bool} {t task : CallTask}
    (h : t.Justified cfg s.log) (href : References cfg s.graph) {ans : Answer}
    {res : Shared × Option CallTask} (hres : t.resume cfg s held ans = some res)
    (ht : res.2 = some task) : task.Justified cfg res.1.log := by
  cases t with
  | succeed a report pc =>
    cases hres
    exact succeedResume_justified href held h ans ht
  | fail a pc caller =>
    cases hres
    exact failResume_justified href held h ans ht
  | killStart =>
    unfold CallTask.resume at hres
    split_ifs at hres
    cases hres
    cases ht
    trivial
  | kill todo cancelled =>
    cases todo with
    | nil =>
      cases hres
      exact .of_next ht
    | cons e todo =>
      cases hres
      simp only [killResume] at ht
      split_ifs at ht
      · cases ht
        trivial
      · cases ht
        trivial
      · split at ht <;> cases ht <;> trivial
  | killAbort a machine todo cancelled =>
    simp only [CallTask.resume] at hres
    split_ifs at hres <;> cases hres <;> cases ht <;> trivial
  | tunnelClose machine =>
    cases hres
    cases ht

/-- The builds that a step of a call finishes are those that it is about to
finish. -/
theorem CallTask.finishes_of_finished {held : InfoRef → Bool} {t : CallTask} {ans : Answer}
    {res : Shared × Option CallTask} (hres : t.resume cfg s held ans = some res) {b : BuildRef}
    (hb : (s.graph.build b).finishedInDb = false)
    (hb' : (res.1.graph.build b).finishedInDb = true) :
    (∃ a report item direct, t = .succeed a report (.markSucceeded item direct) ∧ b ∈ direct) ∨
      ∃ a item f caller, t = .fail a (.inner item f) caller ∧ b ∈ f.builds := by
  have hsame : res.1.graph.build ≠ s.graph.build := by
    intro heq
    rw [heq, hb] at hb'
    cases hb'
  cases t with
  | succeed a report pc =>
    cases hres
    cases pc with
    | start =>
      refine absurd ?_ hsame
      simp only [succeedResume, succeedStart]
      split
      · rfl
      · split <;> rfl
    | removeJob item job =>
      refine absurd ?_ hsame
      simp only [succeedResume]
      split <;> rfl
    | finishBuildStep item job =>
      refine absurd ?_ hsame
      simp only [succeedResume]
      split_ifs <;> rfl
    | markSucceeded item direct =>
      by_cases hok : (ans.ok && s.graph.marksAll report ans direct) = true
      · simp only [succeedResume, if_pos hok] at hb'
        have hmem := ((s.graph.finishedBy_finishBuilds direct).finished b).mp hb'
        rw [hb] at hmem
        exact Or.inl ⟨a, report, item, direct, rfl, hmem.resolve_left (by simp)⟩
      · refine absurd ?_ hsame
        simp only [succeedResume, if_neg hok]
        rfl
    | notify item =>
      refine absurd ?_ hsame
      simp only [succeedResume]
      split_ifs
      · exact (Graph.SameMaps.makeRdepsRunnable s.graph ans.now item.stepInfo.step).build
      · rfl
  | fail a pc caller =>
    cases hres
    cases pc with
    | start state timings =>
      refine absurd ?_ hsame
      simp only [failResume, failStart]
      split
      · rfl
      · split
        · rfl
        · simp only [failDecide]
          split
          · rfl
          · split_ifs <;> rfl
    | retry item job => exact absurd rfl hsame
    | removeJob item job =>
      refine absurd ?_ hsame
      simp only [failResume, InnerFail.start_build]
    | inner item f =>
      have hf : ((f.resume s ans).1.graph.build b).finishedInDb = true := by
        simp only [failResume] at hb'
        split at hb' <;> rename_i heq <;> rw [heq] <;> exact hb'
      exact Or.inr ⟨a, item, f, caller, rfl, InnerFail.mem_builds_of_finished hb hf⟩
  | killStart =>
    unfold CallTask.resume at hres
    split_ifs at hres
    cases hres
    exact absurd rfl hsame
  | kill todo cancelled =>
    refine absurd ?_ hsame
    cases todo with
    | nil =>
      cases hres
      rfl
    | cons e todo =>
      cases hres
      rw [killResume_shared]
  | killAbort a machine todo cancelled =>
    simp only [CallTask.resume] at hres
    split_ifs at hres <;> cases hres <;> exact absurd rfl hsame
  | tunnelClose machine =>
    cases hres
    exact absurd rfl hsame

end

/-! ## The dispatch loop -/

/-- The call of `inner_fail_job` that the loop waits for. -/
def DispatchPc.innerFail? : DispatchPc → Option InnerFail
  | .realise _ _ (.cachedFailure f) => some f
  | .abortFail _ _ _ f => some f
  | _ => none

/-- What a step of the loop does to its call of `inner_fail_job`. -/
inductive DispatchFails (s : Shared) (ans : Answer) (d : DispatchPc) (s' : Shared)
    (d' : DispatchPc) : Prop where
  | none (hbuild : s'.graph.build = s.graph.build) (hd' : d'.innerFail? = none)
  | starts (s₀ : Shared) (step : StepRef) (job : Job) (hs₀ : s₀.graph = s.graph)
      (hbuild : s'.graph.build = s.graph.build)
      (hd' : d'.innerFail? = some (InnerFail.start s₀ step job).2)
  | resumes (f : InnerFail) (hd : d.innerFail? = some f)
      (hg : s'.graph = (f.resume s ans).1.graph)
      (hd' : ∀ f', d'.innerFail? = some f' → (f.resume s ans).2 = .running f')

section

variable {cfg : Config} {s s' : Shared} {held : InfoRef → Bool} {d d' : DispatchPc}
  {ans : Answer}

theorem walkStep_fails (cfg : Config) (s : Shared) (held : InfoRef → Bool) (d : DispatchPc)
    (w : Walk) (i : InfoRef) (ans : Answer) :
    DispatchFails s ans d (walkStep cfg s held w i ans).1 (walkStep cfg s held w i ans).2 := by
  unfold walkStep realiseStart
  split_ifs
  · exact .none rfl rfl
  · exact .none rfl rfl
  · exact .none rfl rfl
  · exact .none rfl rfl
  · simp only
    split
    · exact .none rfl rfl
    · split <;> exact .none rfl rfl

theorem realiseResume_fails (s : Shared) (held : InfoRef → Bool) (w : Walk) (i : InfoRef)
    (pc : RealisePc) (ans : Answer) :
    DispatchFails s ans (.realise w i pc) (realiseResume s held w i pc ans).1
      (realiseResume s held w i pc ans).2 := by
  cases pc with
  | checkCached m job =>
    simp only [realiseResume]
    split_ifs
    · exact .starts s _ _ rfl (InnerFail.start_build ..) rfl
    · exact .none rfl rfl
  | cachedFailure f =>
    simp only [realiseResume]
    split <;> rename_i heq
    · exact .resumes f rfl (by rw [heq]) fun f' hf' => by rw [heq, Option.some.inj hf']
    · exact .resumes f rfl (by rw [heq]) fun f' hf' => by cases hf'
    · exact .resumes f rfl (by rw [heq]) fun f' hf' => by cases hf'
  | prepare m job =>
    simp only [realiseResume]
    split_ifs <;> exact .none rfl rfl
  | send m job =>
    simp only [realiseResume]
    split_ifs <;> exact .none rfl rfl
  | _ => exact .none rfl rfl

theorem abortStep_fails (cfg : Config) (s : Shared) (now : Timestamp)
    (todo aborted : List StepRef) (r : StepRef) (ans : Answer) :
    DispatchFails s ans (.abort now (r :: todo) aborted)
      (abortStep cfg s now todo aborted r ans).1 (abortStep cfg s now todo aborted r ans).2 := by
  unfold abortStep
  split_ifs
  · exact .none rfl rfl
  · exact .none rfl rfl
  · simp only
    split
    · exact .none rfl rfl
    · exact .starts { s with nextUuid := s.nextUuid + 1 } r _ rfl
        (InnerFail.start_build ..) rfl

/-- Every step of the dispatch loop is one of the relation. -/
theorem dispatchFails_of_resume (hres : d.resume cfg s held ans = some (s', d')) :
    DispatchFails s ans d s' d' := by
  unfold DispatchPc.resume at hres
  cases d with
  | walk w =>
    simp only at hres
    split at hres
    · split_ifs at hres
      cases hres
      exact .none rfl rfl
    · cases hres
      exact .none rfl rfl
    · rename_i i jobs hjobs
      have hwalk := walkStep_fails cfg s held (.walk w) { w with jobs := jobs } i ans
      rwa [Option.some.inj hres] at hwalk
  | realise w i pc =>
    have hrealise := realiseResume_fails s held w i pc ans
    rwa [Option.some.inj hres] at hrealise
  | abort now todo aborted =>
    cases todo with
    | nil =>
      cases hres
      exact .none rfl rfl
    | cons r todo =>
      have habort := abortStep_fails cfg s now todo aborted r ans
      rwa [Option.some.inj hres] at habort
  | abortFail now todo aborted f =>
    simp only at hres
    split at hres <;> rename_i heq <;> cases hres
    · exact .resumes f rfl (by rw [heq]) fun f' hf' => by rw [heq, Option.some.inj hf']
    · exact .resumes f rfl (by rw [heq]) fun f' hf' => by cases hf'
  | idle =>
    simp only at hres
    split_ifs at hres
    cases hres
    exact .none rfl rfl
  | collect now todo queues => cases todo <;> cases hres <;> exact .none rfl rfl
  | insert now queues =>
    simp only at hres
    split_ifs at hres
    · cases hres
      exact .none rfl rfl
    · split at hres <;> cases hres
      exact .none rfl rfl
  | process =>
    simp only at hres
    split_ifs at hres
    split at hres <;> cases hres <;> exact .none rfl rfl
  | abortRemove aborted =>
    simp only at hres
    split_ifs at hres <;> cases hres <;> exact .none rfl rfl
  | _ =>
    cases hres
    exact .none rfl rfl

/-- The call of the loop fails only builds that need its step. -/
theorem DispatchFails.blames (h : DispatchFails s ans d s' d') (href : References cfg s.graph)
    {f : InnerFail} (hf : d'.innerFail? = some f) : f.Blames cfg := by
  cases h with
  | none hbuild hd' =>
    rw [hd'] at hf
    cases hf
  | starts s₀ step job hs₀ hbuild hd' =>
    rw [hd', Option.some.injEq] at hf
    exact hf ▸ (InnerFail.start_blames (hs₀ ▸ href) step job).2
  | resumes f₀ hd hg hd' =>
    have hrunning : f₀.resume s ans = ((f₀.resume s ans).1, .running f) :=
      Prod.ext rfl (hd' f hf)
    exact (InnerFail.resume_blames href hrunning).2

/-- The loop only finishes the builds of its call. -/
theorem DispatchFails.mem_builds_of_finished (h : DispatchFails s ans d s' d') {b : BuildRef}
    (hb : (s.graph.build b).finishedInDb = false)
    (hb' : (s'.graph.build b).finishedInDb = true) :
    ∃ f, d.innerFail? = some f ∧ b ∈ f.builds := by
  have hchanged : s'.graph.build ≠ s.graph.build := by
    intro heq
    rw [heq, hb] at hb'
    cases hb'
  cases h with
  | none hbuild hd' => exact absurd hbuild hchanged
  | starts s₀ step job hs₀ hbuild hd' => exact absurd hbuild hchanged
  | resumes f hd hg hd' =>
    rw [hg] at hb'
    exact ⟨f, hd, InnerFail.mem_builds_of_finished hb hb'⟩

end

/-! ## The creation of builds -/

section

variable {cfg : Config} {c c' : CreateState} {ans : Answer} {b : BuildRef}

/-- The builds that are loaded are not finished. -/
theorem CreateState.finished_of_startPass (rows : List (BuildID × StorePath))
    (hb : ((c.startPass rows).graph.build b).finishedInDb = true) :
    (c.graph.build b).finishedInDb = true := by
  have hload : ∀ (rows : List (BuildID × StorePath)) (acc : Graph × Pass),
      ((rows.foldl loadBuild acc).1.build b).finishedInDb = true →
        (acc.1.build b).finishedInDb = true := by
    intro rows
    induction rows with
    | nil => exact fun acc h => h
    | cons row rows ih =>
      intro acc h
      have hrow := ih _ h
      by_cases hnew : b = ⟨row.1, row.2, acc.1.fresh⟩
      · simp [loadBuild, Graph.newBuild, hnew] at hrow
      · simpa [loadBuild, Graph.newBuild, hnew] using hrow
  exact hload rows (c.graph, ⟨∅, ∅, [], [], [], none⟩) hb

theorem CreateState.Started.build_eq {pass build : CallId} {callers : List CallId}
    {drvPath : StorePath} {rb : Option BuildRef} {rs : Option StepRef} {pc : StepPc}
    (h : Started c pass build callers drvPath rb rs c' pc) :
    c'.graph.build = c.graph.build := by
  rcases h.result with ⟨-, hg, -⟩ | ⟨s, isNew, hcreated, -⟩
  · rw [hg]
  · exact hcreated.build

theorem CreateState.finishBuild_finished (c : CreateState) (k : CallId) (call : BuildCall)
    (step : Option StepRef) (b : BuildRef) :
    ((c.finishBuild k call step).graph.build b).finishedInDb =
      (c.graph.build b).finishedInDb := by
  cases step with
  | none => rfl
  | some step =>
    simp only [finishBuild, setBuildCall_graph]
    split_ifs <;> exact (BuildsStep.toplevel _ call.build step).finished b

/-- The build that a step of `create_build` finishes is its own. -/
theorem CreateState.finishes_of_resumeBuild {k : CallId} (hres : c.resumeBuild k ans = some c')
    (hb : (c.graph.build b).finishedInDb = false)
    (hb' : (c'.graph.build b).finishedInDb = true) :
    ∃ call, c.creation.builds.lookup k = some call ∧ call.build = b ∧
      (call.pc = .abort ∨ call.pc = .previousFailure ∨ call.pc = .cached) := by
  have hself : ∀ {x : BuildRef},
      ((c.graph.setFinishedInDb x).build b).finishedInDb = true → x = b := by
    intro x hx
    by_contra hne
    simp [Graph.setFinishedInDb, Graph.modifyBuild, Ne.symm hne, hb] at hx
  have hsame : (c'.graph.build b).finishedInDb ≠ (c.graph.build b).finishedInDb := by
    rw [hb, hb']
    simp
  unfold resumeBuild at hres
  cases hcall : c.creation.builds.lookup k with
  | none =>
    rw [hcall] at hres
    cases hres
  | some call =>
    rw [hcall] at hres
    simp only at hres
    cases hpc : call.pc with
    | abort =>
      rw [hpc] at hres
      cases hres
      exact ⟨call, rfl, hself hb', Or.inl hpc⟩
    | previousFailure =>
      rw [hpc] at hres
      simp only at hres
      split_ifs at hres <;> cases hres
      · exact ⟨call, rfl, hself hb', Or.inr (Or.inl hpc)⟩
      · exact absurd rfl hsame
    | cached =>
      rw [hpc] at hres
      simp only at hres
      split_ifs at hres <;> cases hres
      · exact ⟨call, rfl, hself hb', Or.inr (Or.inr hpc)⟩
      · exact absurd rfl hsame
    | validPath =>
      rw [hpc] at hres
      simp only at hres
      split_ifs at hres with hok hfinished
      · cases hres
        obtain ⟨pc, hstart⟩ := c.started_startStep call.pass k [] call.build.drvPath
          (some call.build) none
        exact absurd (congrArg (fun f => (f b).finishedInDb) hstart.build_eq) hsame
      · cases hres
        rw [hself hb', hb] at hfinished
        cases hfinished
      · cases hres
        exact absurd rfl hsame
    | step k' =>
      rw [hpc] at hres
      simp only at hres
      split at hres
      · split at hres
        · split_ifs at hres <;> cases hres <;> exact absurd rfl hsame
        · split_ifs at hres
          cases hres
          exact absurd rfl hsame
        · split_ifs at hres
          cases hres
          exact absurd rfl hsame
      · cases hres
    | nested step todo calls =>
      rw [hpc] at hres
      cases calls with
      | nil =>
        cases todo with
        | nil =>
          cases hres
          exact absurd (c.finishBuild_finished k call step b) hsame
        | cons id todo => cases hres
      | cons k' calls =>
        simp only at hres
        split at hres
        · cases hres
          exact absurd rfl hsame
        · cases hres
    | returned =>
      rw [hpc] at hres
      cases hres

/-- Every step of the creation. -/
theorem CreateState.finishes_of_next {a : CreateAction} (hnext : c.next cfg ans a = some c')
    (hb : (c.graph.build b).finishedInDb = false)
    (hb' : (c'.graph.build b).finishedInDb = true) :
    ∃ k call, a = .resumeBuild k ∧ c.creation.builds.lookup k = some call ∧ call.build = b ∧
      (call.pc = .abort ∨ call.pc = .previousFailure ∨ call.pc = .cached) := by
  by_cases ha : ∃ k, a = .resumeBuild k
  · obtain ⟨k, rfl⟩ := ha
    obtain ⟨call, hcall, hbuild, hpc⟩ := CreateState.finishes_of_resumeBuild hnext hb hb'
    exact ⟨k, call, rfl, hcall, hbuild, hpc⟩
  · have hgraph := (CreateState.createStep_of_next hnext).createGraph
    have hsame : ∀ {g : Graph}, g = c'.graph → c.graph.SameMaps g → False := by
      intro g hg hmaps
      rw [← hg, hmaps.build, hb] at hb'
      cases hb'
    exfalso
    generalize hg : c'.graph = g at hgraph hb' hsame
    cases hgraph with
    | same => exact hsame rfl (.refl _)
    | startPass rows =>
      rw [CreateState.finished_of_startPass rows hb'] at hb
      cases hb
    | makeRunnable now steps =>
      exact hsame rfl (.foldl (fun g s => .makeRunnable g now s) _ _)
    | sweep now order => exact hsame rfl (.sweepSteps _ now order)
    | @finishInDb k call hcall => exact ha ⟨k, rfl⟩
    | @attach k call step hcall hpc => exact ha ⟨k, rfl⟩
    | created h =>
      rw [h.build, hb] at hb'
      cases hb'
    | _ => exact hsame rfl ⟨rfl, rfl, rfl, rfl, rfl, rfl⟩

end

/-! ## The invariant -/

/-- What is about to be finished has a reason. -/
structure Blamed (cfg : Config) (r : Runner) : Prop where
  references : References cfg r.shared.graph
  calls : ∀ t task, r.calls.lookup t = some task → task.Justified cfg r.shared.log
  dispatcher : ∀ f, r.dispatcher.innerFail? = some f → f.Blames cfg

namespace Blamed

variable {cfg : Config} {r r' : Runner}

theorem init : Blamed cfg {} := by
  refine ⟨.init, ?_, ?_⟩ <;> simp [DispatchPc.innerFail?]

/-- Every step of the runner. -/
theorem step (h : Blamed cfg r) (hok : RunnerOk cfg r)
    (hinputs : CallInputs cfg r.creation.steps) {a : Action} (hs : RunnerStep cfg r a r') :
    Blamed cfg r' := by
  have hreferences := h.references.runnerStep hok.create hinputs hs
  have hverdicts := hs.verdicts_subset hok
  have hold : ∀ t task, r.calls.lookup t = some task → task.Justified cfg r'.shared.log :=
    fun t task ht => (h.calls t task ht).mono hverdicts.1 hverdicts.2
  refine ⟨hreferences, fun t task ht => ?_, fun f hf => ?_⟩
  · cases hs with
    | @call t₀ ans task₀ res ht₀ hres =>
      rw [Runner.lookup_setCall] at ht
      split_ifs at ht
      · exact (h.calls t₀ task₀ ht₀).resume h.references hres ht
      · exact hold t task ht
    | completeBuild uuid machineId state report =>
      obtain ⟨results, -, hspawn⟩ := completeBuild_spec r.shared uuid machineId state report
      rw [Runner.lookup_spawn] at ht
      split_ifs at ht
      · rcases hspawn with ⟨a, task', -, -, heq, hinfos, -⟩ | ⟨e, -, -, heq⟩
        · obtain rfl := Option.some.inj (ht.symm.trans heq)
          exact .of_infos hinfos
        · rw [heq] at ht
          cases ht
      · exact hold t task ht
    | @endStream m hm =>
      obtain ⟨machines, task', -, heq, -, -, -, -, hinfos, -⟩ := endStream_spec r.shared m
      rw [Runner.lookup_spawn] at ht
      split_ifs at ht
      · obtain rfl := Option.some.inj (ht.symm.trans heq)
        exact .of_infos hinfos
      · exact hold t task ht
    | queueChange curIds =>
      rw [Runner.lookup_spawn] at ht
      split_ifs at ht
      · cases ht
        trivial
      · exact hold t task ht
    | _ => exact hold t task ht
  · by_cases hd : ∃ ans, a = .dispatch ans
    · obtain ⟨ans, rfl⟩ := hd
      cases hs with
      | dispatch hres => exact (dispatchFails_of_resume hres).blames h.references hf
    · rw [hs.dispatcher_eq fun ans he => hd ⟨ans, he⟩] at hf
      exact h.dispatcher f hf

theorem reach {ok : Runner → Action → Prop} (h : Lts.Reach (Runner.next cfg) ok {} r) :
    Blamed cfg r := by
  have hany := h.mono fun _ _ _ => trivial
  refine hany.invariant_of_reach init ?_
  intro r a r' hreach hr _ hnext
  exact hr.step (RunnerOk.reach hreach) (Edges.reach hreach).inputs (runnerStep_of_next hnext)

end Blamed

/-! ## The causes -/

/-- Why a step of the runner finishes a build. -/
inductive Runner.Finishes (cfg : Config) (r : Runner) (b : BuildRef) : Action → Prop where
  /-- The step of its derivation has succeeded. -/
  | succeeded {t : TaskId} {ans : Answer} {a : Attempt} {report : BuildReport}
      {item : ScheduledItem} {direct : List BuildRef}
      (ht : r.calls.lookup t = some (.succeed a report (.markSucceeded item direct)))
      (hb : b ∈ direct) (hsucceeded : item.stepInfo.step ∈ r.shared.log.succeeded)
      (hpath : b.drvPath = item.stepInfo.step.drvPath) : Finishes cfg r b (.call t ans)
  /-- A derivation that it needs has failed for good. -/
  | failed {t : TaskId} {ans : Answer} {a : Attempt} {item : ScheduledItem} {f : InnerFail}
      {caller : Caller} (ht : r.calls.lookup t = some (.fail a (.inner item f) caller))
      (hb : b ∈ f.builds) (hfailed : f.step ∈ r.shared.log.failed)
      (hneeds : cfg.Needs b.drvPath f.step.drvPath) : Finishes cfg r b (.call t ans)
  /-- The dispatch loop gives up a derivation that it needs. -/
  | givenUp {ans : Answer} {f : InnerFail} (hd : r.dispatcher.innerFail? = some f)
      (hb : b ∈ f.builds) (hneeds : cfg.Needs b.drvPath f.step.drvPath) :
      Finishes cfg r b (.dispatch ans)
  /-- Its derivation is gone, has failed before, or has its outputs. -/
  | created {k : CallId} {ans : Answer} {call : BuildCall}
      (hk : r.creation.builds.lookup k = some call) (hb : call.build = b)
      (hpc : call.pc = .abort ∨ call.pc = .previousFailure ∨ call.pc = .cached) :
      Finishes cfg r b (.create (.resumeBuild k) ans)

/-- The step of the runner that finishes a build has a reason. -/
theorem RunnerStep.finishes {cfg : Config} {r r' : Runner} {a : Action}
    (h : RunnerStep cfg r a r') (hblamed : Blamed cfg r) {b : BuildRef}
    (hb : (r.shared.graph.build b).finishedInDb = false)
    (hb' : (r'.shared.graph.build b).finishedInDb = true) : r.Finishes cfg b a := by
  have hsame : r'.shared.graph.build = r.shared.graph.build → r.Finishes cfg b a := by
    intro heq
    rw [heq, hb] at hb'
    cases hb'
  cases h with
  | dispatch hres =>
    obtain ⟨f, hf, hmem⟩ := (dispatchFails_of_resume hres).mem_builds_of_finished hb hb'
    exact .givenUp hf hmem (hblamed.dispatcher f hf b hmem)
  | @call t ans task res ht hres =>
    rcases CallTask.finishes_of_finished hres hb hb' with
      ⟨a, report, item, direct, rfl, hmem⟩ | ⟨a, item, f, caller, rfl, hmem⟩
    · have hjustified := hblamed.calls t _ ht
      exact .succeeded ht hmem hjustified.1 (hjustified.2 b hmem)
    · have hjustified := hblamed.calls t _ ht
      exact .failed ht hmem hjustified.2.1 (hjustified.2.2 b hmem)
  | create hnext =>
    obtain ⟨k, call, rfl, hk, hbuild, hpc⟩ := CreateState.finishes_of_next hnext hb hb'
    exact .created hk hbuild hpc
  | completeBuild uuid machineId state report =>
    obtain ⟨results, heq, -⟩ := completeBuild_spec r.shared uuid machineId state report
    apply hsame
    rw [Runner.spawn_shared, heq]
  | @endStream m hm =>
    obtain ⟨machines, task, heq, -⟩ := endStream_spec r.shared m
    apply hsame
    rw [Runner.spawn_shared, heq]
  | queueChange curIds =>
    apply hsame
    rw [Runner.spawn_shared]
    rfl
  | insertMachine id record sortFn => exact hsame rfl
  | dropStep hheld => exact hsame rfl
  | @dropBuild b' hheld =>
    simp only [Graph.dropBuild, Graph.modifyBuild] at hb'
    by_cases hbb : b = b'
    · subst hbb
      simp [hb] at hb'
    · simp [hbb, hb] at hb'

/-- In every run a build that is finished was finished by a step of the run
that had a reason: its own derivation has succeeded, a derivation that it
needs has failed or was given up, or its own call of `create_build` has found
that the derivation is gone, has failed before, or has its outputs. -/
theorem finished_build_has_cause (cfg : Config) (r : Runner)
    (h : Lts.Reach (Runner.next cfg) Lts.anyStep {} r) (b : BuildRef)
    (hb : (r.shared.graph.build b).finishedInDb = true) :
    ∃ r₁ a r₂, Lts.Reach (Runner.next cfg) Lts.anyStep {} r₁ ∧
      Runner.next cfg r₁ a = some r₂ ∧ Lts.Reach (Runner.next cfg) Lts.anyStep r₂ r ∧
      (r₁.shared.graph.build b).finishedInDb = false ∧ r₁.Finishes cfg b a := by
  obtain ⟨r₁, a, r₂, hbefore, hnext, hafter, hnot, hthen⟩ :=
    h.exists_step (P := fun r => (r.shared.graph.build b).finishedInDb = true) (by simp) hb
  have hopen : (r₁.shared.graph.build b).finishedInDb = false := by simpa using hnot
  exact ⟨r₁, a, r₂, hbefore, hnext, hafter, hopen,
    (runnerStep_of_next hnext).finishes (Blamed.reach hbefore) hopen hthen⟩

/-- The input is built and fails, and the build of `top` is finished. -/
def Chain.inputFails : List Action :=
  Chain.inputBuilt.dropLast ++
    [.completeBuild 0 0 .buildFailure {}, .call 0 {}, .call 0 {}, .call 0 {}, .call 0 {}]

theorem finished_build_has_cause_chain : ∃ r : Runner, r.shared.log.failed = [Chain.inputStep] ∧
    ∃ r₁ a r₂, Lts.Reach (Runner.next Chain.config) Lts.anyStep {} r₁ ∧
      Runner.next Chain.config r₁ a = some r₂ ∧
      Lts.Reach (Runner.next Chain.config) Lts.anyStep r₂ r ∧
      (r₁.shared.graph.build ⟨1, Chain.top, 0⟩).finishedInDb = false ∧
      r₁.Finishes Chain.config ⟨1, Chain.top, 0⟩ a := by
  have hrun : (Lts.run (Runner.next Chain.config) {} Chain.inputFails).map (fun r =>
      (r.shared.log.failed, (r.shared.graph.build ⟨1, Chain.top, 0⟩).finishedInDb)) =
        some ([Chain.inputStep], true) := by
    decide +kernel
  obtain ⟨r, hr, hvalues⟩ := Option.map_eq_some_iff.mp hrun
  obtain ⟨hfailed, hfinished⟩ := Prod.mk.inj hvalues
  exact ⟨r, hfailed, finished_build_has_cause Chain.config r (Lts.reach_of_run hr)
    ⟨1, Chain.top, 0⟩ hfinished⟩

end QueueRunner
