import QueueRunner.Allocation
import QueueRunner.Dependents
import QueueRunner.JobSteps

/-!
# What an error leaves behind

`succeed_step` and `fail_step` take the item out of `scheduled` and set the
flag `finished` before their first fallible call.  A call that returns an
error leaves the rest undone.  `NotHalfFinished` says what should be left: when
an unfinished build depends on the step, the step is still in the queue, still
scheduled, or done with.

The call runs alone here, from a state of the runner in which the step is
scheduled.  Each await of it may fail: `Answer.ok` is false when one of the
operations there returns an error, the conversions of sizes and times included.
-/

namespace QueueRunner

/-- The steps that wait for `s` have lost it from their dependencies. -/
def Graph.Released (g : Graph) (s : StepRef) : Prop :=
  ∀ t, g.Rdep s t → ∀ d ∈ (g.step t).deps, d.drvPath ≠ s.drvPath

/-- The step will be built, or its builds and its referrers are served. -/
def CanComplete (s : Shared) (step : StepRef) : Prop :=
  ((∃ i, s.queues.jobs.lookup step.drvPath = some i ∧ i.step = step) ∧
      (s.graph.step step).finished = false) ∨
    (∃ item, s.queues.scheduled.lookup step.drvPath = some item ∧ item.stepInfo.step = step) ∨
    ((s.graph.step step).finished = true ∧ s.graph.getDirectBuilds step = [] ∧
      s.graph.Released step)

/-- No unfinished build waits for the step in vain. -/
def NotHalfFinished (s : Shared) (step : StepRef) : Prop :=
  ∀ b, s.graph.DependsOn step b → CanComplete s step

/-- Where a call may return an error. -/
inductive ErrorPoint where
  /-- `succeed_step` up to the transaction that marks the builds. -/
  | succeedStep
  /-- The notification of `succeed_step`. -/
  | succeedNotify
  /-- `fail_step` before it gives the step up. -/
  | failStep
  /-- `inner_fail_job` up to the end of its loop. -/
  | innerFail
  /-- The notification of `inner_fail_job`. -/
  | failNotify
deriving DecidableEq

/-- The point that a task waits at. -/
def CallTask.errorPoint : CallTask → ErrorPoint
  | .succeed _ _ (.notify _) => .succeedNotify
  | .succeed _ _ _ => .succeedStep
  | .fail _ (.inner _ ⟨_, _, .notify⟩) _ => .failNotify
  | .fail _ (.inner _ _) _ => .innerFail
  | _ => .failStep

/-- When an error at this point does no harm, read off the state before the
call. -/
def ErrorPoint.Harmless (s : Shared) (step : StepRef) : ErrorPoint → Prop
  | .succeedStep => (∀ b, ¬s.graph.DependsOn step b) ∨
      (s.graph.getDirectBuilds step = [] ∧ s.graph.Released step)
  | .succeedNotify => (∀ b, s.graph.DependsOn step b → b ∈ (s.graph.step step).builds) ∨
      s.graph.Released step
  | .failStep => (∀ b, ¬s.graph.DependsOn step b) ∨
      ∃ i, s.queues.jobs.lookup step.drvPath = some i ∧ i.step = step
  | .innerFail => ∀ b, ¬s.graph.DependsOn step b
  | .failNotify => ∀ b, s.graph.DependsOn step b →
      ∃ t ∈ (s.graph.getDependents step).steps, b ∈ (s.graph.step t).builds

/-- The call `t` runs alone from `s` and returns an error at the await of `t'`,
in the state `s'`. -/
inductive FailsAt (cfg : Config) : Shared → CallTask → Shared → CallTask → Prop where
  | here {s s' : Shared} {t : CallTask} {held : InfoRef → Bool} {ans : Answer}
      {next : Option CallTask} {uuid : Uuid} {result : CallResult}
      (hres : t.resume cfg s held ans = some (s', next))
      (hlog : s'.log.results = (uuid, result) :: s.log.results) (herr : result ≠ .ok) :
      FailsAt cfg s t s' t
  | later {s s₁ s' : Shared} {t t₁ t' : CallTask} {held : InfoRef → Bool} {ans : Answer}
      (hres : t.resume cfg s held ans = some (s₁, some t₁))
      (hlog : s₁.log.results = s.log.results) (h : FailsAt cfg s₁ t₁ s' t') :
      FailsAt cfg s t s' t'

/-- The builds of a round are no longer pending. -/
theorem Graph.pending_finishBuilds (g : Graph) (bs : List BuildRef) (b : BuildRef) :
    (g.finishBuilds bs).Pending b ↔ g.Pending b ∧ b ∉ bs := by
  have hby := g.finishedBy_finishBuilds bs
  rw [Graph.Pending, hby.alive b, ← Bool.not_eq_true, hby.finished b]
  simp only [Graph.Pending, ← Bool.not_eq_true]
  tauto

/-! ## The state after the item is taken -/

/-- The item of the step is gone, and the pointers are as they were. -/
structure ItemTaken (s₀ : Shared) (step : StepRef) (finished : Bool) (s : Shared) : Prop where
  edges : s₀.graph.SameEdges s.graph
  finished : (s.graph.step step).finished = finished
  item : s.queues.scheduled.lookup step.drvPath = none

namespace ItemTaken

variable {s₀ s : Shared} {step : StepRef} {finished : Bool}

theorem released (h : ItemTaken s₀ step finished s) :
    s.graph.Released step ↔ s₀.graph.Released step := by
  unfold Graph.Released
  simp only [h.edges.rdep, h.edges.deps]

theorem dependsOn (h : ItemTaken s₀ step finished s) {b : BuildRef} :
    s.graph.DependsOn step b ↔ s.graph.Pending b ∧
      ∃ t, s₀.graph.Refers step t ∧ b ∈ (s₀.graph.step t).builds := by
  unfold Graph.DependsOn
  simp only [h.edges.refers, h.edges.builds]

theorem dependsOn_same (h : ItemTaken s₀ step finished s) (hbuild : s.graph.build = s₀.graph.build)
    {b : BuildRef} : s.graph.DependsOn step b ↔ s₀.graph.DependsOn step b := by
  rw [h.dependsOn, Graph.DependsOn, Graph.Pending, Graph.Pending, hbuild]

theorem getDirectBuilds (h : ItemTaken s₀ step finished s)
    (hbuild : s.graph.build = s₀.graph.build) :
    s.graph.getDirectBuilds step = s₀.graph.getDirectBuilds step := by
  unfold Graph.getDirectBuilds
  rw [h.edges.builds, hbuild]

/-- A finished step without its item has to be done with. -/
theorem canComplete_finished (h : ItemTaken s₀ step true s) :
    CanComplete s step ↔ s.graph.getDirectBuilds step = [] ∧ s₀.graph.Released step := by
  unfold CanComplete
  rw [h.finished, h.item, h.released]
  simp

/-- An unfinished one has to be in the queue. -/
theorem canComplete_unfinished (h : ItemTaken s₀ step false s) :
    CanComplete s step ↔ ∃ i, s.queues.jobs.lookup step.drvPath = some i ∧ i.step = step := by
  unfold CanComplete
  rw [h.finished, h.item]
  simp

theorem succeedStep_iff (h : ItemTaken s₀ step true s) (hbuild : s.graph.build = s₀.graph.build) :
    NotHalfFinished s step ↔ ErrorPoint.succeedStep.Harmless s₀ step := by
  simp only [NotHalfFinished, h.canComplete_finished, h.dependsOn_same hbuild,
    h.getDirectBuilds hbuild, ErrorPoint.Harmless]
  rw [← exists_imp, imp_iff_not_or, not_exists]

theorem failStep_iff (h : ItemTaken s₀ step false s) (hbuild : s.graph.build = s₀.graph.build)
    (hjobs : s.queues.jobs = s₀.queues.jobs) :
    NotHalfFinished s step ↔ ErrorPoint.failStep.Harmless s₀ step := by
  simp only [NotHalfFinished, h.canComplete_unfinished, h.dependsOn_same hbuild, hjobs,
    ErrorPoint.Harmless]
  rw [← exists_imp, imp_iff_not_or, not_exists]

/-- The direct builds are finished, and what is left are the others. -/
theorem succeedNotify_iff (h : ItemTaken s₀ step true s)
    (hpending : ∀ b, s.graph.Pending b ↔
      s₀.graph.Pending b ∧ b ∉ s₀.graph.getDirectBuilds step) :
    NotHalfFinished s step ↔ ErrorPoint.succeedNotify.Harmless s₀ step := by
  have hpending : ∀ b, s.graph.Pending b ↔ s₀.graph.Pending b ∧
      b ∉ (s₀.graph.step step).builds := by
    intro b
    rw [hpending b]
    simp only [Graph.getDirectBuilds, List.mem_filter, Graph.Pending, Bool.and_eq_true,
      Bool.not_eq_true']
    tauto
  have hnone : s.graph.getDirectBuilds step = [] := by
    refine List.filter_eq_nil_iff.mpr (fun b hb => ?_)
    rw [h.edges.builds] at hb
    have hnot : ¬s.graph.Pending b := fun hp => ((hpending b).mp hp).2 hb
    simpa [Graph.Pending] using hnot
  simp only [NotHalfFinished, h.canComplete_finished, hnone, true_and, ErrorPoint.Harmless]
  rw [← exists_imp, imp_iff_not_or, not_exists]
  refine or_congr_left (forall_congr' (fun b => ?_))
  rw [h.dependsOn, hpending b, Graph.DependsOn]
  constructor
  · rintro hnot ⟨hb, ht⟩
    by_contra hbuilds
    exact hnot ⟨⟨hb, hbuilds⟩, ht⟩
  · rintro himp ⟨⟨hb, hbuilds⟩, ht⟩
    exact hbuilds (himp ⟨hb, ht⟩)

/-- The queue has no job for the step any more. -/
theorem not_canComplete (h : ItemTaken s₀ step false s)
    (hjobs : s.queues.jobs.lookup step.drvPath = none) : ¬CanComplete s step := by
  rw [h.canComplete_unfinished, hjobs]
  simp

theorem notHalfFinished_of_jobs (h : ItemTaken s₀ step false s)
    (hjobs : s.queues.jobs.lookup step.drvPath = none) :
    NotHalfFinished s step ↔ ∀ b, ¬s.graph.DependsOn step b :=
  forall_congr' (fun _ => imp_iff_not (h.not_canComplete hjobs))

end ItemTaken

/-! ## The loop of `inner_fail_job` -/

/-- What the loop has done to the builds so far. -/
structure Failing (s₀ : Shared) (step : StepRef) (s : Shared) : Prop where
  taken : ItemTaken s₀ step false s
  jobs : s.queues.jobs.lookup step.drvPath = none
  pending : ∀ b, s.graph.Pending b → s₀.graph.Pending b
  failed : ∀ b, s₀.graph.Pending b → s.graph.Pending b ∨
    ∃ t ∈ (s₀.graph.getDependents step).steps, b ∈ (s₀.graph.step t).builds

namespace Failing

variable {s₀ s s' : Shared} {step : StepRef}

theorem of_same (h : ItemTaken s₀ step false s) (hbuild : s.graph.build = s₀.graph.build)
    (hjobs : s.queues.jobs.lookup step.drvPath = none) : Failing s₀ step s where
  taken := h
  jobs := hjobs
  pending b hb := by rwa [Graph.Pending, hbuild] at hb
  failed b hb := .inl (by rwa [Graph.Pending, hbuild])

/-- A round fails the builds it has collected. -/
theorem finishBuilds (h : Failing s₀ step s) :
    Failing s₀ step { s with
      graph := s.graph.finishBuilds (s.graph.getDependents step).builds } := by
  have hedges := s.graph.sameEdges_finishBuilds (s.graph.getDependents step).builds
  have hpending := fun b => s.graph.pending_finishBuilds (s.graph.getDependents step).builds b
  have hfades := Graph.Fades.finishBuilds s.graph (s.graph.getDependents step).builds
  refine ⟨⟨h.taken.edges.trans hedges, ?_, h.taken.item⟩, h.jobs, fun b hb => ?_, fun b hb => ?_⟩
  · exact (hfades.sameBase step).finished.trans h.taken.finished
  · exact h.pending b ((hpending b).mp hb).1
  · rcases h.failed b hb with hb | hb
    · by_cases hmem : b ∈ (s.graph.getDependents step).builds
      · obtain ⟨t, ht, hbt⟩ := (s.graph.collected_getDependents step).attached b hmem
        rw [h.taken.edges.steps_getDependents] at ht
        rw [h.taken.edges.builds] at hbt
        exact .inr ⟨t, ht, hbt⟩
      · exact .inl ((hpending b).mpr ⟨hb, hmem⟩)
    · exact .inr hb

theorem getAllIndirectBuilds (h : Failing s₀ step s) :
    Failing s₀ step { s with graph := (s.graph.getAllIndirectBuilds step).1 } := by
  obtain ⟨-, hbuild, -, -⟩ := s.graph.getAllIndirectBuilds_spec step
  have hfades := Graph.Fades.getAllIndirectBuilds s.graph step
  have hpending : ∀ b, (s.graph.getAllIndirectBuilds step).1.Pending b ↔ s.graph.Pending b := by
    intro b
    rw [Graph.Pending, Graph.Pending, hbuild]
  refine ⟨⟨h.taken.edges.trans (.of_fades hfades), ?_, h.taken.item⟩, h.jobs,
    fun b hb => h.pending b ((hpending b).mp hb), fun b hb => ?_⟩
  · exact (hfades.sameBase step).finished.trans h.taken.finished
  · exact (h.failed b hb).imp_left (hpending b).mpr

/-- An error in the loop, before or after the first round. -/
theorem innerFail_iff (h : Failing s₀ step s)
    (hsome : s.graph.build = s₀.graph.build ∨ ∃ b, s.graph.DependsOn step b) :
    NotHalfFinished s step ↔ ErrorPoint.innerFail.Harmless s₀ step := by
  rw [h.taken.notHalfFinished_of_jobs h.jobs]
  rcases hsome with hbuild | ⟨b, hb⟩
  · simp only [h.taken.dependsOn_same hbuild, ErrorPoint.Harmless]
  · have hb₀ : s₀.graph.DependsOn step b := by
      rw [h.taken.dependsOn] at hb
      exact ⟨h.pending b hb.1, hb.2⟩
    exact ⟨fun hall => absurd hb (hall b), fun hall => absurd hb₀ (hall b)⟩

/-- When the loop has ended, only the builds of steps that were not visited are
left. -/
theorem failNotify_iff (h : Failing s₀ step s) (hallocated : step ∈ s.graph.allocated)
    (hrdeps : ∀ t u, s.graph.Rdep t u → u ∈ s.graph.allocated)
    (hend : (s.graph.getDependents step).builds = []) :
    NotHalfFinished s step ↔ ErrorPoint.failNotify.Harmless s₀ step := by
  rw [h.taken.notHalfFinished_of_jobs h.jobs]
  obtain ⟨hwalk, -⟩ := Graph.walked_getDependents hrdeps hallocated
  constructor
  · intro hall b hb
    refine (h.failed b hb.1).resolve_left (fun hpending => ?_)
    exact hall b (h.taken.dependsOn.mpr ⟨hpending, hb.2⟩)
  · intro hall b hb
    obtain ⟨hpending, hrefers⟩ := h.taken.dependsOn.mp hb
    obtain ⟨t, ht, hbt⟩ := hall b ⟨h.pending b hpending, hrefers⟩
    rw [← h.taken.edges.steps_getDependents] at ht
    rw [← h.taken.edges.builds] at hbt
    obtain ⟨c, hc, -⟩ := ((hwalk.pending t ht).resolve_left (by simp)) b hbt hpending
    rw [hend] at hc
    cases hc

end Failing

/-- Where the loop waits, and what is known there. -/
inductive Waiting (s₀ : Shared) (step : StepRef) (s : Shared) : InnerFailPc → Prop where
  | finishBuildStep (hbuild : s.graph.build = s₀.graph.build) :
      Waiting s₀ step s .finishBuildStep
  /-- The first round may have no builds. -/
  | mark (hround : s.graph.build = s₀.graph.build ∨ (s.graph.getDependents step).builds ≠ []) :
      Waiting s₀ step s (.mark (s.graph.getDependents step).builds)
  | notify (hend : (s.graph.getDependents step).builds = []) : Waiting s₀ step s .notify

/-- The head of the loop collects the builds of the next round. -/
theorem Failing.loopHead {s₀ s : Shared} {step : StepRef} (h : Failing s₀ step s) (job : Job)
    (stepFinished : Bool) (hfirst : stepFinished = false → s.graph.build = s₀.graph.build) :
    ∃ s' pc, InnerFail.loopHead s step job stepFinished = (s', ⟨step, job, pc⟩) ∧
      s'.log = s.log ∧ Failing s₀ step s' ∧ Waiting s₀ step s' pc := by
  obtain ⟨hindirect, hbuild, -, hstep⟩ := s.graph.getAllIndirectBuilds_spec step
  have hallocated := (Graph.Fades.getAllIndirectBuilds s.graph step).allocated
  have hsame := Graph.getDependents_congr hstep hbuild hallocated step
  have hnext := h.getAllIndirectBuilds
  rw [← hsame] at hindirect
  unfold InnerFail.loopHead
  simp only
  rw [hindirect]
  split_ifs with hend
  · exact ⟨_, _, rfl, rfl, hnext, .notify hend.1⟩
  · refine ⟨_, _, rfl, rfl, hnext, .mark ?_⟩
    cases stepFinished with
    | false => exact .inl (hbuild.trans (hfirst rfl))
    | true => exact .inr (fun hnone => hend ⟨hnone, rfl⟩)

/-! ## The call from its start -/

section Call

variable {s₀ : Shared} {item : ScheduledItem}

/-- The call for `item` waits at one of its points. -/
inductive Midway (s₀ : Shared) (item : ScheduledItem) : Shared → CallTask → Prop where
  | succeedStart {a : Attempt} {report : BuildReport}
      (hitem : s₀.queues.scheduled.lookup a.drv = some item) :
      Midway s₀ item s₀ (.succeed a report .start)
  | succeedTaken {s : Shared} {a : Attempt} {report : BuildReport} {pc : SucceedPc}
      (hpc : (∃ job, pc = .removeJob item job) ∨ (∃ job, pc = .finishBuildStep item job) ∨
        pc = .markSucceeded item (s₀.graph.getDirectBuilds item.stepInfo.step))
      (htaken : ItemTaken s₀ item.stepInfo.step true s)
      (hbuild : s.graph.build = s₀.graph.build) :
      Midway s₀ item s (.succeed a report pc)
  | succeedNotify {s : Shared} {a : Attempt} {report : BuildReport}
      (htaken : ItemTaken s₀ item.stepInfo.step true s)
      (hpending : ∀ b, s.graph.Pending b ↔
        s₀.graph.Pending b ∧ b ∉ s₀.graph.getDirectBuilds item.stepInfo.step) :
      Midway s₀ item s (.succeed a report (.notify item))
  | failStart {a : Attempt} {state : BuildResultState} {timings : BuildTimings} {caller : Caller}
      (hitem : s₀.queues.scheduled.lookup a.drv = some item) :
      Midway s₀ item s₀ (.fail a (.start state timings) caller)
  | retry {s : Shared} {a : Attempt} {job : Job} {caller : Caller}
      (htaken : ItemTaken s₀ item.stepInfo.step false s)
      (hbuild : s.graph.build = s₀.graph.build) (hjobs : s.queues.jobs = s₀.queues.jobs) :
      Midway s₀ item s (.fail a (.retry item job) caller)
  | removeJob {s : Shared} {a : Attempt} {job : Job} {caller : Caller}
      (htaken : ItemTaken s₀ item.stepInfo.step false s)
      (hbuild : s.graph.build = s₀.graph.build) :
      Midway s₀ item s (.fail a (.removeJob item job) caller)
  | inner {s : Shared} {a : Attempt} {job : Job} {pc : InnerFailPc} {caller : Caller}
      (hfailing : Failing s₀ item.stepInfo.step s)
      (hwaiting : Waiting s₀ item.stepInfo.step s pc) :
      Midway s₀ item s (.fail a (.inner item ⟨item.stepInfo.step, job, pc⟩) caller)

/-- What the code from one await to the next does: the call returns, and an
error has done harm unless it was harmless, or the call waits again. -/
def Turn (s₀ : Shared) (item : ScheduledItem) (results : List (Uuid × CallResult)) (t : CallTask)
    (res : Shared × Option CallTask) : Prop :=
  (∃ uuid result, res.1.log.results = (uuid, result) :: results ∧
    (result ≠ .ok → (NotHalfFinished res.1 item.stepInfo.step ↔
      t.errorPoint.Harmless s₀ item.stepInfo.step))) ∨
  (res.1.log.results = results ∧ ∀ t', res.2 = some t' → Midway s₀ item res.1 t')

/-- The first step of the call: the item leaves `scheduled`, and the flag is
set. -/
theorem ItemTaken.of_unscheduled {s : Shared} {drv : StorePath} {finished : Bool}
    {f : Step → Step} (hdrv : item.stepInfo.drvPath = drv)
    (hq : s₀.queues.Unscheduled drv item s.queues)
    (hg : s.graph = s₀.graph.modifyStep item.stepInfo.step f)
    (hf : ∀ r, (f r).deps = r.deps ∧ (f r).rdeps = r.rdeps ∧ (f r).builds = r.builds ∧
      (f r).alive = r.alive)
    (hfinished : ∀ r, (f r).finished = finished) :
    ItemTaken s₀ item.stepInfo.step finished s where
  edges := by
    rw [hg]
    exact .modifyStep _ _ hf
  finished := by
    rw [hg, Graph.modifyStep_self]
    exact hfinished _
  item := by
    rw [hq.scheduled, Map.lookup_erase_eq]
    exact if_pos hdrv

/-- Where the step is scheduled, the call takes its item. -/
theorem exists_itemTaken {drv : StorePath}
    (hitem : s₀.queues.scheduled.lookup drv = some item) (hdrv : item.stepInfo.drvPath = drv)
    (finished : Bool) :
    ∃ queues, s₀.queues.removeJobFromScheduled drv = some (item, queues) ∧
      queues.jobs = s₀.queues.jobs ∧
      ∀ s : Shared, s.queues = queues →
        s.graph = s₀.graph.setFinished item.stepInfo.step finished →
          ItemTaken s₀ item.stepInfo.step finished s := by
  cases hq : s₀.queues.removeJobFromScheduled drv with
  | none => simp [InnerQueues.removeJobFromScheduled_eq_none.mp hq] at hitem
  | some res =>
    obtain ⟨item', queues⟩ := res
    have hun := InnerQueues.unscheduled_of_removeJobFromScheduled hq
    obtain rfl : item = item' := Option.some.inj (hitem.symm.trans hun.found)
    refine ⟨queues, rfl, hun.jobs, ?_⟩
    intro s hqueues hg
    exact .of_unscheduled hdrv (hqueues ▸ hun) hg (fun _ => ⟨rfl, rfl, rfl, rfl⟩) (fun _ => rfl)

theorem turn_succeedStart {a : Attempt} (report : BuildReport)
    (hitem : s₀.queues.scheduled.lookup a.drv = some item)
    (hdrv : item.stepInfo.drvPath = a.drv) (ans : Answer) :
    Turn s₀ item s₀.log.results (.succeed a report .start) (succeedStart s₀ a report ans) := by
  obtain ⟨queues, hq, -, htaken⟩ := exists_itemTaken hitem hdrv true
  simp only [succeedStart, hq]
  split
  · exact .inl ⟨a.uuid, .jobMissing, rfl, fun _ => (htaken _ rfl rfl).succeedStep_iff rfl⟩
  · refine .inr ⟨rfl, ?_⟩
    rintro _ ⟨⟩
    exact .succeedTaken (.inl ⟨_, rfl⟩) (htaken _ rfl rfl) rfl

theorem turn_succeedTaken {s : Shared} {a : Attempt} {report : BuildReport} {pc : SucceedPc}
    (hpc : (∃ job, pc = .removeJob item job) ∨ (∃ job, pc = .finishBuildStep item job) ∨
      pc = .markSucceeded item (s₀.graph.getDirectBuilds item.stepInfo.step))
    (htaken : ItemTaken s₀ item.stepInfo.step true s) (hbuild : s.graph.build = s₀.graph.build)
    (held : InfoRef → Bool) (ans : Answer) :
    Turn s₀ item s.log.results (.succeed a report pc) (succeedResume s held a report pc ans) := by
  rcases hpc with ⟨job, rfl⟩ | ⟨job, rfl⟩ | rfl
  · have hremoved : ItemTaken s₀ item.stepInfo.step true { s with
        queues := s.queues.removeJob held item.stepInfo item.buildQueue } :=
      ⟨htaken.edges, htaken.finished, by simpa using htaken.item⟩
    simp only [succeedResume]
    split
    · have hrecord : ∀ r, ItemTaken s₀ item.stepInfo.step true
          (Shared.record { s with
            queues := s.queues.removeJob held item.stepInfo item.buildQueue } a.uuid r) :=
        fun _ => ⟨hremoved.edges, hremoved.finished, hremoved.item⟩
      exact .inl ⟨a.uuid, .overhead, rfl, fun _ => (hrecord _).succeedStep_iff hbuild⟩
    · refine .inr ⟨rfl, ?_⟩
      rintro _ ⟨⟩
      exact .succeedTaken (.inr (.inl ⟨_, rfl⟩)) hremoved hbuild
  · simp only [succeedResume]
    split_ifs with hok hnone
    · refine .inr ⟨rfl, ?_⟩
      rintro _ ⟨⟩
      have hfades := Graph.Fades.removeStep s.graph item.stepInfo.step.drvPath
      refine .succeedTaken (.inr (.inr ?_)) ⟨htaken.edges.trans (.of_fades hfades), ?_,
        htaken.item⟩ hbuild
      · rw [← htaken.getDirectBuilds hbuild]
      · exact htaken.finished
    · refine .inr ⟨rfl, ?_⟩
      rintro _ ⟨⟩
      refine .succeedTaken (.inr (.inr ?_)) htaken hbuild
      rw [← htaken.getDirectBuilds hbuild]
    · exact .inl ⟨a.uuid, .database, rfl, fun _ =>
        (ItemTaken.mk htaken.edges htaken.finished htaken.item).succeedStep_iff hbuild⟩
  · simp only [succeedResume]
    split_ifs with hok
    · refine .inr ⟨rfl, ?_⟩
      rintro _ ⟨⟩
      have hfades := Graph.Fades.finishBuilds s.graph
        (s₀.graph.getDirectBuilds item.stepInfo.step)
      refine .succeedNotify ⟨htaken.edges.trans (.of_fades hfades), ?_, htaken.item⟩ (fun b => ?_)
      · exact (hfades.sameBase item.stepInfo.step).finished.trans htaken.finished
      · rw [Graph.pending_finishBuilds, Graph.Pending, Graph.Pending, hbuild]
    · exact .inl ⟨a.uuid, .database, rfl, fun _ =>
        (ItemTaken.mk htaken.edges htaken.finished htaken.item).succeedStep_iff hbuild⟩

/-- `fail_step` after the machine has given up the job. -/
theorem turn_failDecide (cfg : Config) {s : Shared} {a : Attempt} (job : Job)
    (state : BuildResultState) (timings : BuildTimings) (caller : Caller)
    (htaken : ItemTaken s₀ item.stepInfo.step false s) (hbuild : s.graph.build = s₀.graph.build)
    (hjobs : s.queues.jobs = s₀.queues.jobs) (ans : Answer) :
    Turn s₀ item s.log.results (.fail a (.start state timings) caller)
      (failDecide cfg s a item job state timings caller ans) := by
  have hmodify : ∀ {g : Graph} (f : Step → Step),
      s.graph.SameEdges g ∧ g.build = s.graph.build ∧
        (g.step item.stepInfo.step).finished = (s.graph.step item.stepInfo.step).finished →
      (∀ r, (f r).deps = r.deps ∧ (f r).rdeps = r.rdeps ∧ (f r).builds = r.builds ∧
        (f r).alive = r.alive) → (∀ r, (f r).finished = r.finished) →
      s.graph.SameEdges (g.modifyStep item.stepInfo.step f) ∧
        (g.modifyStep item.stepInfo.step f).build = s.graph.build ∧
        ((g.modifyStep item.stepInfo.step f).step item.stepInfo.step).finished =
          (s.graph.step item.stepInfo.step).finished := by
    rintro g f ⟨hedges, hsame, hflag⟩ hf hfinished
    refine ⟨hedges.trans (.modifyStep _ _ hf), hsame, ?_⟩
    rw [Graph.modifyStep_self, hfinished, hflag]
  unfold failDecide
  simp only
  split
  · exact .inl ⟨a.uuid, .overhead, rfl, fun _ =>
      (ItemTaken.mk htaken.edges htaken.finished htaken.item).failStep_iff hbuild hjobs⟩
  · rename_i result _
    generalize hg : (if result.canRetry = true then
      s.graph.incrTries item.stepInfo.step else s.graph) = g
    have hsame : s.graph.SameEdges g ∧ g.build = s.graph.build ∧
        (g.step item.stepInfo.step).finished = (s.graph.step item.stepInfo.step).finished := by
      rw [← hg]
      split_ifs
      · exact hmodify _ ⟨.refl _, rfl, rfl⟩ (fun _ => ⟨rfl, rfl, rfl, rfl⟩) (fun _ => rfl)
      · exact ⟨.refl _, rfl, rfl⟩
    split_ifs
    · obtain ⟨hedges, hafter, hflag⟩ := hmodify (fun r => { r with after := ans.after }) hsame
        (fun _ => ⟨rfl, rfl, rfl, rfl⟩) (fun _ => rfl)
      refine .inr ⟨rfl, ?_⟩
      rintro _ ⟨⟩
      exact .retry ⟨htaken.edges.trans hedges, hflag.trans htaken.finished, htaken.item⟩
        (hafter.trans hbuild) hjobs
    · obtain ⟨hedges, hafter, hflag⟩ := hsame
      refine .inr ⟨rfl, ?_⟩
      rintro _ ⟨⟩
      exact .removeJob ⟨htaken.edges.trans hedges, hflag.trans htaken.finished, htaken.item⟩
        (hafter.trans hbuild)

theorem turn_failStart (cfg : Config) {a : Attempt} (state : BuildResultState)
    (timings : BuildTimings) (caller : Caller)
    (hitem : s₀.queues.scheduled.lookup a.drv = some item)
    (hdrv : item.stepInfo.drvPath = a.drv) (ans : Answer) :
    Turn s₀ item s₀.log.results (.fail a (.start state timings) caller)
      (failStart cfg s₀ a state timings caller ans) := by
  obtain ⟨queues, hq, hjobs, htaken⟩ := exists_itemTaken hitem hdrv false
  simp only [failStart, hq]
  split
  · exact .inl ⟨a.uuid, .jobMissing, rfl, fun _ => (htaken _ rfl rfl).failStep_iff rfl hjobs⟩
  · rename_i machines job _
    exact turn_failDecide cfg job state timings caller (htaken (({ s₀ with
      queues := queues
      graph := s₀.graph.setFinished item.stepInfo.step false
      machines := machines } : Shared).endAttempt job) rfl rfl) rfl hjobs ans

/-- `fail_step` gives the step up and starts `inner_fail_job`. -/
theorem turn_removeJob {s : Shared} {a : Attempt} {job : Job} {caller : Caller} (cfg : Config)
    (htaken : ItemTaken s₀ item.stepInfo.step false s) (hbuild : s.graph.build = s₀.graph.build)
    (held : InfoRef → Bool) (ans : Answer) :
    Turn s₀ item s.log.results (.fail a (.removeJob item job) caller)
      (failResume cfg s held a (.removeJob item job) caller ans) := by
  have hfailing : Failing s₀ item.stepInfo.step { s with
      queues := s.queues.removeJob held item.stepInfo item.buildQueue } := by
    refine .of_same ⟨htaken.edges, htaken.finished, by simpa using htaken.item⟩ hbuild ?_
    simp only [InnerQueues.removeJob_jobs, Map.lookup_erase_eq]
    exact if_pos rfl
  simp only [failResume, InnerFail.start]
  split_ifs with hnr
  · refine .inr ⟨rfl, ?_⟩
    rintro _ ⟨⟩
    exact .inner hfailing (.finishBuildStep hbuild)
  · obtain ⟨s', pc, heq, hlog, hfailing, hwaiting⟩ := hfailing.loopHead job false (fun _ => hbuild)
    rw [heq]
    refine .inr ⟨by rw [hlog], ?_⟩
    rintro _ ⟨⟩
    exact .inner hfailing hwaiting

section Inner

variable (hallocated : item.stepInfo.step ∈ s₀.graph.allocated)
  (hrdeps : ∀ t u, s₀.graph.Rdep t u → u ∈ s₀.graph.allocated)
include hallocated hrdeps

/-- A round has builds that depend on the step. -/
theorem Failing.dependsOn {s : Shared} (h : Failing s₀ item.stepInfo.step s)
    (hsome : (s.graph.getDependents item.stepInfo.step).builds ≠ []) :
    ∃ b, s.graph.DependsOn item.stepInfo.step b := by
  obtain ⟨b, hb⟩ := List.exists_mem_of_ne_nil _ hsome
  have hcollected := s.graph.collected_getDependents item.stepInfo.step
  obtain ⟨t, ht, hbt⟩ := hcollected.attached b hb
  have hwalk := (Graph.walked_getDependents (g := s.graph) (fun t u hu => by
    rw [h.taken.edges.allocated]
    exact hrdeps t u (h.taken.edges.rdep.mp hu)) (by rwa [h.taken.edges.allocated])).1
  exact ⟨b, hcollected.pending b hb, t, (hwalk.refers t ht).resolve_left (by simp), hbt⟩

theorem turn_inner {s : Shared} {a : Attempt} {job : Job} {pc : InnerFailPc} {caller : Caller}
    (cfg : Config) (hfailing : Failing s₀ item.stepInfo.step s)
    (hwaiting : Waiting s₀ item.stepInfo.step s pc) (held : InfoRef → Bool) (ans : Answer) :
    Turn s₀ item s.log.results (.fail a (.inner item ⟨item.stepInfo.step, job, pc⟩) caller)
      (failResume cfg s held a (.inner item ⟨item.stepInfo.step, job, pc⟩) caller ans) := by
  have hrecord : ∀ r, Failing s₀ item.stepInfo.step (s.record a.uuid r) := fun _ =>
    ⟨⟨hfailing.taken.edges, hfailing.taken.finished, hfailing.taken.item⟩, hfailing.jobs,
      hfailing.pending, hfailing.failed⟩
  cases hwaiting with
  | finishBuildStep hbuild =>
    simp only [failResume, InnerFail.resume]
    split_ifs with hok
    · obtain ⟨s', pc, heq, hlog, hfailing, hwaiting⟩ :=
        hfailing.loopHead job false (fun _ => hbuild)
      rw [heq]
      refine .inr ⟨by rw [hlog], ?_⟩
      rintro _ ⟨⟩
      exact .inner hfailing hwaiting
    · exact .inl ⟨a.uuid, .database, rfl, fun _ => (hrecord _).innerFail_iff (.inl hbuild)⟩
  | mark hround =>
    simp only [failResume, InnerFail.resume]
    split_ifs with hok
    · obtain ⟨s', pc, heq, hlog, hfailing, hwaiting⟩ :=
        hfailing.finishBuilds.loopHead job true (by simp)
      rw [heq]
      refine .inr ⟨by rw [hlog], ?_⟩
      rintro _ ⟨⟩
      exact .inner hfailing hwaiting
    · refine .inl ⟨a.uuid, .database, rfl, fun _ => (hrecord _).innerFail_iff ?_⟩
      exact hround.imp_right (fun hsome => hfailing.dependsOn hallocated hrdeps hsome)
  | notify hend =>
    simp only [failResume, InnerFail.resume]
    refine .inl ⟨a.uuid, _, rfl, fun _ => (hrecord _).failNotify_iff ?_ ?_ hend⟩
    · exact hfailing.taken.edges.allocated ▸ hallocated
    · intro t u hu
      exact hfailing.taken.edges.allocated ▸ hrdeps t u (hfailing.taken.edges.rdep.mp hu)

/-- Every step of the call. -/
theorem Midway.turn {cfg : Config} {s : Shared} {t : CallTask} (h : Midway s₀ item s t)
    (hdrv : ∀ drv, s₀.queues.scheduled.lookup drv = some item → item.stepInfo.drvPath = drv)
    {held : InfoRef → Bool} {ans : Answer} {res : Shared × Option CallTask}
    (hres : t.resume cfg s held ans = some res) : Turn s₀ item s.log.results t res := by
  cases h with
  | @succeedStart a report hitem =>
    cases hres
    exact turn_succeedStart report hitem (hdrv a.drv hitem) ans
  | succeedTaken hpc htaken hbuild =>
    cases hres
    exact turn_succeedTaken hpc htaken hbuild held ans
  | @succeedNotify _ a report htaken hpending =>
    cases hres
    simp only [succeedResume]
    split_ifs with hok
    · exact .inl ⟨a.uuid, .ok, rfl, fun hne => absurd rfl hne⟩
    · refine .inl ⟨a.uuid, .database, rfl, fun _ => ?_⟩
      exact (ItemTaken.mk htaken.edges htaken.finished htaken.item).succeedNotify_iff hpending
  | @failStart a state timings caller hitem =>
    cases hres
    exact turn_failStart cfg state timings caller hitem (hdrv a.drv hitem) ans
  | @retry _ a job caller htaken hbuild hjobs =>
    cases hres
    refine .inl ⟨a.uuid, _, rfl, fun _ => ?_⟩
    exact (ItemTaken.mk htaken.edges htaken.finished htaken.item).failStep_iff hbuild hjobs
  | removeJob htaken hbuild =>
    cases hres
    exact turn_removeJob cfg htaken hbuild held ans
  | inner hfailing hwaiting =>
    cases hres
    exact turn_inner hallocated hrdeps cfg hfailing hwaiting held ans

/-- The whole call, up to its error. -/
theorem Midway.failsAt {cfg : Config} {s s' : Shared} {t t' : CallTask}
    (h : Midway s₀ item s t) (hfails : FailsAt cfg s t s' t')
    (hdrv : ∀ drv, s₀.queues.scheduled.lookup drv = some item → item.stepInfo.drvPath = drv) :
    NotHalfFinished s' item.stepInfo.step ↔
      t'.errorPoint.Harmless s₀ item.stepInfo.step := by
  induction hfails with
  | here hres hlog herr =>
    rcases h.turn hallocated hrdeps hdrv hres with ⟨uuid, result, hlog', hiff⟩ | ⟨hlog', -⟩
    · rw [hlog] at hlog'
      simp only [List.cons.injEq, Prod.mk.injEq] at hlog'
      exact hiff (hlog'.1.2 ▸ herr)
    · rw [hlog] at hlog'
      exact absurd hlog' (List.cons_ne_self _ _)
  | later hres hlog hrest ih =>
    rcases h.turn hallocated hrdeps hdrv hres with ⟨uuid, result, hlog', -⟩ | ⟨-, hnext⟩
    · rw [hlog] at hlog'
      exact absurd hlog'.symm (List.cons_ne_self _ _)
    · exact ih (hnext _ rfl)

end Inner

end Call

/-! ## The states of the runner -/

/-- A step on its way to a machine was allocated. -/
theorem JobSteps.allocated {cfg : Config} {ok : Runner → Action → Prop} {r : Runner}
    (h : Lts.Reach (Runner.next cfg) ok {} r) :
    JobSteps (· ∈ r.shared.graph.allocated) r := by
  refine h.invariant_of_reach (I := fun r => JobSteps (· ∈ r.shared.graph.allocated) r) init ?_
  intro r a r' hreach hsteps _ hnext
  have hs := runnerStep_of_next hnext
  have hallocated := Allocated.reach hreach
  refine (hsteps.step (RunnerOk.reach hreach)
    (fun s p hp _ => hallocated.graph.steps p s hp) hs).mono ?_
  exact fun s hs' => hallocated.subset_of_runnerGraph hs.runnerGraph hs'

/-- `succeed_step` or `fail_step` is called for an attempt. -/
def CallTask.Starts (a : Attempt) : CallTask → Prop
  | .succeed b _ .start | .fail b (.start _ _) _ => b = a
  | _ => False

/-- An error leaves no build half-finished exactly when it was harmless at the
point where it came. -/
theorem notHalfFinished_iff {cfg : Config} {ok : Runner → Action → Prop} {r : Runner}
    (hreach : Lts.Reach (Runner.next cfg) ok {} r) {a : Attempt} {item : ScheduledItem}
    (hitem : r.item a.drv = some item) {t t' : CallTask} {s' : Shared} (hstart : t.Starts a)
    (hfails : FailsAt cfg r.shared t s' t') :
    NotHalfFinished s' item.stepInfo.step ↔
      t'.errorPoint.Harmless r.shared item.stepInfo.step := by
  have hmidway : Midway r.shared item r.shared t := by
    cases t with
    | succeed b report pc =>
      cases pc with
      | start =>
        obtain rfl : b = a := hstart
        exact .succeedStart hitem
      | _ => cases hstart
    | fail b pc caller =>
      cases pc with
      | start state timings =>
        obtain rfl : b = a := hstart
        exact .failStart hitem
      | _ => cases hstart
    | _ => cases hstart
  have hallocated := Allocated.reach hreach
  exact hmidway.failsAt ((JobSteps.allocated hreach).item a.drv item hitem)
    (fun t u hu => hallocated.graph.rdeps t u hu.1) hfails
    (fun drv hdrv => ((RunnerOk.reach hreach).pointers.item drv item hdrv).1)

namespace Sample

/-- The attempt of `drv`. -/
def attempt : Attempt := ⟨0, 0, drv⟩

/-- An overhead that does not fit into an `i32`. -/
def longImport : BuildReport := { importElapsed := 2 ^ 31 }

/-- The run up to the item in `scheduled`. -/
def running : List Action := register :: created ++ sent ++ scheduled

end Sample

/-- `fail_step` cannot convert the overhead.  The job is still in the queue, so
the build is not lost. -/
theorem notHalfFinished_iff_overhead : ∃ r s', Lts.Reach (Runner.next Sample.config)
    Lts.anyStep {} r ∧ FailsAt Sample.config r.shared
      (.fail Sample.attempt (.start .buildFailure Sample.longImport.toBuildTimings) .rpc) s'
      (.fail Sample.attempt (.start .buildFailure Sample.longImport.toBuildTimings) .rpc) ∧
    s'.graph.DependsOn Sample.step ⟨1, Sample.drv, 0⟩ ∧ NotHalfFinished s' Sample.step := by
  have hend : (Lts.run (Runner.next Sample.config) {} Sample.running).bind (fun r =>
      ((CallTask.fail Sample.attempt (.start .buildFailure Sample.longImport.toBuildTimings)
        .rpc).resume Sample.config r.shared r.held {}).map (fun res =>
      decide (r.item Sample.drv = some ⟨Sample.info, "x86_64-linux", Sample.machine⟩ ∧
        r.shared.queues.jobs.lookup Sample.drv = some Sample.info ∧
        res.1.log.results = (0, .overhead) :: r.shared.log.results ∧
        (res.1.graph.build ⟨1, Sample.drv, 0⟩).alive = true ∧
        (res.1.graph.build ⟨1, Sample.drv, 0⟩).finishedInDb = false ∧
        ⟨1, Sample.drv, 0⟩ ∈ (res.1.graph.step Sample.step).builds))) = some true := by
    decide +kernel
  obtain ⟨r, hr, hend⟩ := Option.bind_eq_some_iff.mp hend
  obtain ⟨⟨s', next⟩, hres, hend⟩ := Option.map_eq_some_iff.mp hend
  obtain ⟨hitem, hjobs, hlog, halive, hunfinished, hbuild⟩ := of_decide_eq_true hend
  have hreach := Lts.reach_of_run hr
  have hfails := FailsAt.here hres hlog (by decide)
  refine ⟨r, s', hreach, hfails, ⟨⟨halive, hunfinished⟩, Sample.step, .refl, hbuild⟩, ?_⟩
  have hstart : (CallTask.fail Sample.attempt
      (.start .buildFailure Sample.longImport.toBuildTimings) .rpc).Starts Sample.attempt := rfl
  exact (notHalfFinished_iff hreach hitem hstart hfails).mpr (.inr ⟨Sample.info, hjobs, rfl⟩)

/-- `succeed_step` cannot convert the overhead.  The step is finished and out
of the queue, and its build is not marked. -/
theorem notHalfFinished_fails : ¬∀ cfg r,
    Lts.Reach (Runner.next cfg) Lts.anyStep {} r → ∀ (a : Attempt) (item : ScheduledItem),
    r.item a.drv = some item → ∀ (t t' : CallTask) (s' : Shared), t.Starts a →
    FailsAt cfg r.shared t s' t' → NotHalfFinished s' item.stepInfo.step := by
  intro h
  have hend : (Lts.run (Runner.next Sample.config) {} Sample.running).bind (fun r =>
      ((CallTask.succeed Sample.attempt Sample.longImport .start).resume
        Sample.config r.shared r.held {}).bind (fun res₁ => res₁.2.bind (fun t =>
      (t.resume Sample.config res₁.1 r.held {}).map (fun res =>
      decide (r.item Sample.drv = some ⟨Sample.info, "x86_64-linux", Sample.machine⟩ ∧
        res₁.1.log.results = r.shared.log.results ∧
        res.1.log.results = (0, .overhead) :: res₁.1.log.results ∧
        res.1.queues.scheduled.lookup Sample.drv = none ∧
        (res.1.graph.step Sample.step).finished = true ∧
        (res.1.graph.build ⟨1, Sample.drv, 0⟩).alive = true ∧
        (res.1.graph.build ⟨1, Sample.drv, 0⟩).finishedInDb = false ∧
        ⟨1, Sample.drv, 0⟩ ∈ (res.1.graph.step Sample.step).builds))))) = some true := by
    decide +kernel
  obtain ⟨r, hr, hend⟩ := Option.bind_eq_some_iff.mp hend
  obtain ⟨⟨s₁, _⟩, hres₁, hend⟩ := Option.bind_eq_some_iff.mp hend
  obtain ⟨t, rfl, hend⟩ := Option.bind_eq_some_iff.mp hend
  obtain ⟨⟨s', next⟩, hres, hend⟩ := Option.map_eq_some_iff.mp hend
  obtain ⟨hitem, hlog₁, hlog, hgone, hfinished, halive, hunfinished, hbuild⟩ :=
    of_decide_eq_true hend
  simp only at hlog₁ hlog hgone hfinished halive hunfinished hbuild
  have hstart : (CallTask.succeed Sample.attempt Sample.longImport .start).Starts
      Sample.attempt := rfl
  have hfails := FailsAt.later hres₁ hlog₁ (.here hres hlog (by decide))
  have hdepends : s'.graph.DependsOn Sample.step ⟨1, Sample.drv, 0⟩ :=
    ⟨⟨halive, hunfinished⟩, Sample.step, .refl, hbuild⟩
  have hdirect : ⟨1, Sample.drv, 0⟩ ∈ s'.graph.getDirectBuilds Sample.step := by
    simp [Graph.getDirectBuilds, hbuild, halive, hunfinished]
  have hlost : CanComplete s' Sample.step :=
    h _ r (Lts.reach_of_run hr) Sample.attempt _ hitem _ _ _ hstart hfails _ hdepends
  rcases hlost with ⟨-, hflag⟩ | ⟨item, hsome, -⟩ | ⟨-, hnone, -⟩
  · rw [hfinished] at hflag
    cases hflag
  · change s'.queues.scheduled.lookup Sample.drv = some item at hsome
    rw [hgone] at hsome
    cases hsome
  · rw [hnone] at hdirect
    cases hdirect

end QueueRunner
