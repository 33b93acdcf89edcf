import QueueRunner.CreateInv
import QueueRunner.Effects

/-!
# What a step of the runner does to the graph

The dispatch loop only lets the graph fade: builds of a failed step are
finished, and steps without builds leave the map.  A call that ends an
attempt sets the flags of one step, and `succeed_step` ends with the
release of the steps that wait for it.  From this it follows that every
step of the runner keeps the invariant of the creation.
-/

namespace QueueRunner

/-! ## `inner_fail_job` -/

namespace InnerFail

theorem loopHead_fades (s : Shared) (step : StepRef) (job : Job) (v : Bool) :
    s.graph.Fades (loopHead s step job v).1.graph := by
  have h := Graph.Fades.getAllIndirectBuilds s.graph step
  unfold loopHead
  generalize s.graph.getAllIndirectBuilds step = res at h
  obtain ⟨g, indirect⟩ := res
  simp only
  split_ifs <;> exact h

theorem start_fades (s : Shared) (step : StepRef) (job : Job) :
    s.graph.Fades (start s step job).1.graph := by
  unfold start
  split_ifs
  · exact .refl _
  · exact loopHead_fades s step job false

theorem resume_fades (s : Shared) (f : InnerFail) (ans : Answer) :
    s.graph.Fades (f.resume s ans).1.graph := by
  unfold resume
  cases f.pc with
  | finishBuildStep =>
    by_cases hok : ans.ok <;> simp only [hok, if_true]
    · exact loopHead_fades s f.step f.job false
    · exact .refl _
  | mark indirect =>
    by_cases hok : ans.ok <;> simp only [hok, if_true]
    · exact (Graph.Fades.finishBuilds s.graph indirect).trans
        (loopHead_fades { s with graph := s.graph.finishBuilds indirect }
          f.step f.job true)
    · exact .refl _
  | notify => exact .refl _

end InnerFail

/-! ## The dispatch loop -/

/-- A step of the dispatch loop lets the graph fade. -/
theorem dispatch_fades {cfg : Config} {s s' : Shared} {held : InfoRef → Bool}
    {d d' : DispatchPc} {ans : Answer}
    (h : d.resume cfg s held ans = some (s', d')) : s.graph.Fades s'.graph := by
  cases dispatchEffect_of_resume h with
  | cloneRunnable => exact .cloneRunnable _
  | innerFail nextUuid step job =>
    exact InnerFail.start_fades { s with nextUuid := nextUuid } step job
  | innerResume f => exact InnerFail.resume_fades s f ans
  | supported r => exact .setLastSupportedNow ..
  | _ => exact .refl _

/-! ## The calls that end attempts -/

/-- What a step of a call does to the graph. -/
inductive CallGraph (s : Shared) (t : CallTask) (g : Graph) : Prop where
  | fades (h : s.graph.Fades g)
  /-- `succeed_step` takes its item. -/
  | succeeds (a : Attempt) (report : BuildReport) (item : ScheduledItem)
      (ht : t = .succeed a report .start)
      (hitem : s.queues.scheduled.lookup a.drv = some item)
      (hg : g = s.graph.setFinished item.stepInfo.step true)
  /-- `fail_step` takes its item. -/
  | fails (a : Attempt) (state : BuildResultState) (timings : BuildTimings)
      (caller : Caller) (item : ScheduledItem) (tries : Nat) (after : Timestamp)
      (ht : t = .fail a (.start state timings) caller)
      (hitem : s.queues.scheduled.lookup a.drv = some item)
      (hg : g = s.graph.modifyStep item.stepInfo.step (fun r =>
        { r with finished := false, tries := tries, after := after }))
  /-- `succeed_step` releases the steps that wait for its step. -/
  | releases (a : Attempt) (report : BuildReport) (item : ScheduledItem)
      (now : Timestamp) (ht : t = .succeed a report (.notify item))
      (hg : g = s.graph.makeRdepsRunnable now item.stepInfo.step)

theorem succeedResume_graph (s : Shared) (held : InfoRef → Bool) (a : Attempt)
    (report : BuildReport) (pc : SucceedPc) (ans : Answer) :
    CallGraph s (.succeed a report pc)
      (succeedResume s held a report pc ans).1.graph := by
  cases pc with
  | start =>
    simp only [succeedResume, succeedStart]
    cases hq : s.queues.removeJobFromScheduled a.drv with
    | none => exact .fades (.refl _)
    | some res =>
      obtain ⟨item, queues⟩ := res
      have hitem := (InnerQueues.unscheduled_of_removeJobFromScheduled hq).found
      simp only
      split
      · exact .succeeds a report item rfl hitem rfl
      · exact .succeeds a report item rfl hitem rfl
  | removeJob item job =>
    simp only [succeedResume]
    split <;> exact .fades (.refl _)
  | finishBuildStep item job =>
    simp only [succeedResume]
    split_ifs
    · exact .fades (.removeStep ..)
    · exact .fades (.refl _)
    · exact .fades (.refl _)
  | markSucceeded item direct =>
    simp only [succeedResume]
    split_ifs
    · exact .fades (.finishBuilds ..)
    · exact .fades (.refl _)
  | notify item =>
    simp only [succeedResume]
    split_ifs
    · exact .releases a report item ans.now rfl rfl
    · exact .fades (.refl _)

/-- The step of a failed attempt after the decision about a retry. -/
theorem failDecide_graph (cfg : Config) (s : Shared) (a : Attempt)
    (item : ScheduledItem) (job : Job) (state : BuildResultState)
    (timings : BuildTimings) (caller : Caller) (ans : Answer) :
    ∃ tries after, (failDecide cfg s a item job state timings caller ans).1.graph =
      s.graph.modifyStep item.stepInfo.step (fun r =>
        { r with tries := tries, after := after }) := by
  have hsame : s.graph = s.graph.modifyStep item.stepInfo.step (fun r =>
      { r with
        tries := (s.graph.step item.stepInfo.step).tries
        after := (s.graph.step item.stepInfo.step).after }) := by
    simp [Graph.modifyStep]
  unfold failDecide
  simp only
  split
  · exact ⟨_, _, hsame⟩
  · rename_i result _
    by_cases hretry : result.canRetry = true
    · rw [if_pos hretry]
      split_ifs
      · refine ⟨((s.graph.step item.stepInfo.step).tries + 1) % 2 ^ 32, ans.after, ?_⟩
        simp only [Graph.incrTries, Graph.setAfter, Graph.modifyStep,
          Function.update_self, Function.update_idem]
      · refine ⟨((s.graph.step item.stepInfo.step).tries + 1) % 2 ^ 32,
          (s.graph.step item.stepInfo.step).after, ?_⟩
        simp only [Graph.incrTries, Graph.modifyStep]
    · rw [if_neg hretry, if_neg (fun h => hretry h.1)]
      exact ⟨_, _, hsame⟩

theorem failResume_graph (cfg : Config) (s : Shared) (held : InfoRef → Bool)
    (a : Attempt) (pc : FailPc) (caller : Caller) (ans : Answer) :
    CallGraph s (.fail a pc caller)
      (failResume cfg s held a pc caller ans).1.graph := by
  cases pc with
  | start state timings =>
    simp only [failResume, failStart]
    cases hq : s.queues.removeJobFromScheduled a.drv with
    | none => exact .fades (.refl _)
    | some res =>
      obtain ⟨item, queues⟩ := res
      have hitem := (InnerQueues.unscheduled_of_removeJobFromScheduled hq).found
      simp only
      split
      · refine .fails a state timings caller item
          (s.graph.step item.stepInfo.step).tries
          (s.graph.step item.stepInfo.step).after rfl hitem ?_
        simp [Graph.setFinished, Graph.modifyStep, Shared.record]
      · rename_i machines job hm
        obtain ⟨tries, after, hg⟩ := failDecide_graph cfg
          (({ s with
              queues := queues
              graph := s.graph.setFinished item.stepInfo.step false
              machines := machines } : Shared).endAttempt job)
          a item job state timings caller ans
        refine .fails a state timings caller item tries after rfl hitem ?_
        rw [hg]
        simp [Graph.setFinished, Graph.modifyStep, Shared.endAttempt]
  | retry item job => exact .fades (.refl _)
  | removeJob item job =>
    exact .fades (InnerFail.start_fades { s with
      queues := s.queues.removeJob held item.stepInfo item.buildQueue }
      item.stepInfo.step job)
  | inner item f =>
    have h := InnerFail.resume_fades s f ans
    simp only [failResume]
    split <;> rename_i heq <;> rw [heq] at h <;> exact .fades h

/-- Every step of a call is one of the relation. -/
theorem callGraph_of_resume {cfg : Config} {s : Shared} {held : InfoRef → Bool}
    {t : CallTask} {ans : Answer} {res : Shared × Option CallTask}
    (h : t.resume cfg s held ans = some res) : CallGraph s t res.1.graph := by
  unfold CallTask.resume at h
  cases t with
  | succeed a report pc =>
    cases h
    exact succeedResume_graph s held a report pc ans
  | fail a pc caller =>
    cases h
    exact failResume_graph cfg s held a pc caller ans
  | killStart =>
    simp only at h
    split_ifs at h
    cases h
    exact .fades (.refl _)
  | kill todo cancelled =>
    cases todo with
    | nil => cases h; exact .fades (.refl _)
    | cons e todo =>
      cases h
      rw [killResume_shared]
      exact .fades (.refl _)
  | killAbort a machine todo cancelled =>
    simp only at h
    split_ifs at h <;> cases h <;> exact .fades (.refl _)
  | tunnelClose machine => cases h; exact .fades (.refl _)

/-- A call keeps the derivations and the builds of all steps. -/
theorem CallGraph.carries {s : Shared} {t : CallTask} {g : Graph}
    (h : CallGraph s t g) : s.graph.Carries g := by
  cases h with
  | fades h => exact .of_fades h
  | succeeds a report item ht hitem hg =>
    rw [hg]
    exact .setFinished ..
  | fails a state report caller item tries after ht hitem hg =>
    rw [hg]
    exact .modifyStep _ _ (fun _ => rfl) (fun _ => rfl)
  | releases a report item now ht hg =>
    rw [hg]
    exact .of_sameBase (Graph.sameBase_makeRdepsRunnable _ _ now)
      (.makeRdepsRunnable _ now _)

/-- A call only takes entries from `Steps`. -/
theorem CallGraph.steps_subset {s : Shared} {t : CallTask} {g : Graph} (h : CallGraph s t g) :
    g.fresh = s.graph.fresh ∧
      ∀ p x, g.steps.lookup p = some x → s.graph.steps.lookup p = some x := by
  cases h with
  | fades h => exact ⟨h.fresh, h.steps⟩
  | succeeds a report item ht hitem hg =>
    rw [hg]
    exact ⟨rfl, fun _ _ => id⟩
  | fails a state report caller item tries after ht hitem hg =>
    rw [hg]
    exact ⟨rfl, fun _ _ => id⟩
  | releases a report item now ht hg =>
    have hmaps := Graph.SameMaps.makeRdepsRunnable s.graph now item.stepInfo.step
    rw [hg, hmaps.steps]
    exact ⟨hmaps.fresh, fun _ _ => id⟩

/-- A call that is past its first step changes no counter of a step. -/
theorem CallGraph.sameCounters {s : Shared} {t : CallTask} {g : Graph}
    (h : CallGraph s t g) (hstart : t.starting = none) (x : StepRef) :
    (g.step x).tries = (s.graph.step x).tries ∧
      (g.step x).finished = (s.graph.step x).finished := by
  cases h with
  | fades h => exact ⟨(h.sameBase x).tries, (h.sameBase x).finished⟩
  | succeeds a report item ht hitem hg =>
    rw [ht] at hstart
    cases hstart
  | fails a state report caller item tries after ht hitem hg =>
    rw [ht] at hstart
    cases hstart
  | releases a report item now ht hg =>
    have hbase := Graph.sameBase_makeRdepsRunnable s.graph item.stepInfo.step now x
    rw [hg]
    exact ⟨hbase.tries, hbase.finished⟩

/-- The first step of a call only changes the counters of its own step. -/
theorem CallGraph.sameCounters_of_ne {s : Shared} {t : CallTask} {g : Graph}
    (h : CallGraph s t g) {a : Attempt} {item : ScheduledItem}
    (hstart : t.starting = some a)
    (hitem : s.queues.scheduled.lookup a.drv = some item) {x : StepRef}
    (hx : x ≠ item.stepInfo.step) :
    (g.step x).tries = (s.graph.step x).tries ∧
      (g.step x).finished = (s.graph.step x).finished := by
  cases h with
  | fades h => exact ⟨(h.sameBase x).tries, (h.sameBase x).finished⟩
  | succeeds b report item' ht hitem' hg =>
    rw [ht] at hstart
    cases hstart
    rw [hitem, Option.some.injEq] at hitem'
    subst hitem'
    rw [hg, Graph.setFinished, Graph.modifyStep_step, if_neg hx]
    exact ⟨rfl, rfl⟩
  | fails b state report caller item' tries after ht hitem' hg =>
    rw [ht] at hstart
    cases hstart
    rw [hitem, Option.some.injEq] at hitem'
    subst hitem'
    rw [hg, Graph.modifyStep_step, if_neg hx]
    exact ⟨rfl, rfl⟩
  | releases b report item' now ht hg =>
    rw [ht] at hstart
    cases hstart

end QueueRunner
