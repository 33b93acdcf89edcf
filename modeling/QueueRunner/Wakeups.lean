import QueueRunner.Attached
import QueueRunner.Finality
import QueueRunner.KnownFailures
import QueueRunner.Loading

/-!
# No wakeup is lost

A step waits until its last dependency is released.  Three places release
dependencies: `succeed_step` at its end, the sweep at the end of a pass over
the queue, and the end of `create_step` for a step that has none left.

`NoWakeupLost` says that nobody waits in vain.  A step that still depends on
one that has succeeded will be released by the call of `succeed_step`, which
is still under way; one that depends on a step that was found to be finished
will be released by that call or by the sweep of a pass; and a complete step
without dependencies is runnable, or a pass is about to make it so.

The set `new_runnable` of a pass compares steps by their derivation path, so
of two steps with the same path that are completed for one build only the
first becomes runnable.  `NoneShadowed` says that this does not happen.
-/

namespace QueueRunner

/-! ## What a release takes away -/

namespace Graph

variable {g : Graph} {d t : StepRef} {now : Timestamp}

/-- `make_rdeps_runnable` of a finished step takes it from the dependencies of
its live `rdeps`. -/
theorem not_mem_deps_of_makeRdepsRunnable (hfinished : (g.step d).finished = true)
    (ht : t ∈ (g.step d).rdeps) (hlive : (g.step t).alive = true) :
    d ∉ (g.makeRdepsRunnable now d).deps t := by
  have hstays : t ∈ ((g.makeRdepsRunnable now d).step d).rdeps := by
    have hkeeps : Keeps (Step.Wakes (fun t => (g.step t).alive = true)) g
        (g.makeRdepsRunnable now d) := Wakes.keeps_makeRdepsRunnable (fun _ => id) d
    exact (hkeeps d).rdeps t ht hlive
  have hreleased := (makeRdepsRunnable_released now hfinished hstays).2.1
  intro hd
  exact hreleased d hd rfl

/-- So does the sweep, for every step that it meets. -/
theorem not_mem_deps_of_sweepSteps {order : List StepRef} (hd : d ∈ order)
    (hdlive : (g.step d).alive = true) (hfinished : (g.step d).finished = true)
    (hfailure : (g.step d).previousFailure = false) (ht : t ∈ (g.step d).rdeps)
    (hlive : (g.step t).alive = true) : d ∉ (g.sweepSteps now order).deps t := by
  induction order generalizing g with
  | nil => cases hd
  | cons s order ih =>
    show d ∉ ((sweepStep now g s).sweepSteps now order).deps t
    have hrest := (Settles.sweepSteps (sweepStep now g s) now order).step t
    by_cases hds : d = s
    · intro hmem
      have hone : d ∈ (g.makeRdepsRunnable now d).deps t := by
        have hvisit : sweepStep now g s = g.makeRdepsRunnable now d := by
          unfold sweepStep
          rw [← hds, if_pos ⟨hdlive, hfinished, hfailure⟩]
        rw [← hvisit]
        exact hrest.deps.subset hmem
      exact not_mem_deps_of_makeRdepsRunnable hfinished ht hlive hone
    · have hone := Settles.sweepStep g now s
      have hbase : SameBase g (sweepStep now g s) := by
        unfold sweepStep
        split_ifs
        · exact sameBase_makeRdepsRunnable g s now
        · exact Keeps.refl Step.SameBase.refl g
      have hstays : t ∈ ((sweepStep now g s).step d).rdeps := by
        have hkeeps : Keeps (Step.Wakes (fun t => (g.step t).alive = true)) g
            (g.sweepSteps now [s]) := Wakes.keeps_sweepSteps [s] fun _ => id
        exact (hkeeps d).rdeps t ht hlive
      apply ih
      · exact (List.mem_cons.mp hd).resolve_left hds
      · exact (hbase d).alive.trans hdlive
      · exact (hbase d).finished.trans hfinished
      · exact (hbase d).previousFailure.trans hfailure
      · exact hstays
      · exact (hbase t).alive.trans hlive

/-- The loop over `new_runnable` makes all of them runnable. -/
theorem runnable_makeAllRunnable {l : List StepRef} {s : StepRef} (hs : s ∈ l) :
    ((l.foldl (fun g s => g.makeRunnable now s) g).step s).runnable = true := by
  obtain ⟨l₁, l₂, rfl⟩ := List.append_of_mem hs
  rw [List.foldl_append, List.foldl_cons]
  have hone : ∀ g : Graph, ((g.makeRunnable now s).step s).runnable = true := by
    intro g
    unfold makeRunnable
    split_ifs with hrun
    · exact hrun
    · rw [modifyStep_self]
  have hrest : ∀ g : Graph, Keeps (Step.Wakes (fun _ => True)) g
      (l₂.foldl (fun g s => g.makeRunnable now s) g) := fun g =>
    Keeps.foldl Step.Wakes.refl (fun _ _ _ => Step.Wakes.trans)
      Wakes.keeps_makeRunnable l₂ g
  exact (hrest _ s).runnable (hone _)

end Graph

/-! ## The calls that release a step -/

/-- No step of `succeed_step` fails: what the builder reports can be written,
and the database serves the call. -/
def CallTask.Succeeds (t : CallTask) (ans : Answer) : Prop :=
  match t with
  | .succeed _ report (.removeJob _ _) => report.getOverhead < 2 ^ 31
  | .succeed _ report (.markSucceeded _ direct) =>
    ans.ok = true ∧ (direct = [] ∨ report.fits = true)
  | .succeed _ _ (.finishBuildStep _ _) | .succeed _ _ (.notify _) => ans.ok = true
  | _ => True

instance (t : CallTask) (ans : Answer) : Decidable (t.Succeeds ans) :=
  match t with
  | .succeed _ report pc =>
    match pc with
    | .removeJob _ _ => inferInstanceAs (Decidable (report.getOverhead < 2 ^ 31))
    | .markSucceeded _ direct =>
      inferInstanceAs (Decidable (ans.ok = true ∧ (direct = [] ∨ report.fits = true)))
    | .finishBuildStep _ _ | .notify _ => inferInstanceAs (Decidable (ans.ok = true))
    | .start => inferInstanceAs (Decidable True)
  | .fail _ _ _ | .killStart | .kill _ _ | .killAbort _ _ _ _ | .tunnelClose _ =>
    inferInstanceAs (Decidable True)

/-- The calls of `succeed_step` do not fail on the way. -/
def SuccessServed (r : Runner) : Action → Prop
  | .call t ans => ∀ task ∈ r.calls.lookup t, task.Succeeds ans
  | _ => True

instance (r : Runner) (a : Action) : Decidable (SuccessServed r a) :=
  match a with
  | .call t ans => inferInstanceAs (Decidable (∀ task ∈ r.calls.lookup t, task.Succeeds ans))
  | .dispatch _ | .completeBuild _ _ _ _ | .endStream _ | .queueChange _
  | .insertMachine _ _ _ | .create _ _ | .dropStep _ | .dropBuild _ =>
    inferInstanceAs (Decidable True)

namespace CallTask

variable {cfg : Config} {s : Shared} {held : InfoRef → Bool} {t : CallTask} {ans : Answer}
  {res : Shared × Option CallTask} {d : StepRef}

/-- A call that completes a step goes on until it releases the step. -/
theorem completes_resume (hres : t.resume cfg s held ans = some res) (h : t.completes d)
    (hsucceeds : t.Succeeds ans) : (∃ t', res.2 = some t' ∧ t'.completes d) ∨
      res.1.graph = s.graph.makeRdepsRunnable ans.now d := by
  unfold completes at h
  split at h
  · cases h
  · rename_i a report item job
    have hlt : report.getOverhead < 2 ^ 31 := hsucceeds
    simp only [CallTask.resume, succeedResume, RemoteBuild.setOverhead, hlt, if_true,
      Option.some.injEq] at hres
    subst hres
    exact Or.inl ⟨_, rfl, h⟩
  · rename_i a report item job
    have hok : ans.ok = true := hsucceeds
    simp only [CallTask.resume, succeedResume, hok, if_true, Option.some.injEq] at hres
    subst hres
    exact Or.inl ⟨_, rfl, h⟩
  · rename_i a report item direct
    obtain ⟨hok, hfits⟩ : ans.ok = true ∧ (direct = [] ∨ report.fits = true) := hsucceeds
    simp only [CallTask.resume, succeedResume, hok, Graph.marksAll_of_fits hfits, Bool.and_self,
      if_true, Option.some.injEq] at hres
    subst hres
    exact Or.inl ⟨_, rfl, h⟩
  · rename_i a report item
    have hok : ans.ok = true := hsucceeds
    simp only [CallTask.resume, succeedResume, hok, if_true, Option.some.injEq] at hres
    subst hres
    rw [h]
    exact Or.inr rfl
  · cases h

/-- A call that reads the builds of a step completes it. -/
theorem completes_of_reads (h : t.readsBuildsOf d) : t.completes d := by
  unfold readsBuildsOf at h
  split at h
  · exact h
  · exact h
  · cases h

/-- A call that marks a step as succeeded completes it next. -/
theorem completes_of_succeeded (hres : t.resume cfg s held ans = some res)
    (hjob : ∀ drv item, s.queues.scheduled.lookup drv = some item →
      (s.jobsOf item.machine).find? (fun j => j.path == drv) ≠ none)
    (hbefore : d ∉ s.log.succeeded) (hafter : d ∈ res.1.log.succeeded) :
    ∃ t', res.2 = some t' ∧ t'.completes d := by
  cases callVerdict_of_resume hres with
  | pending hsame hnone => exact absurd (hsame.succeeded ▸ hafter) hbefore
  | retries b state timings caller item htask hitem hsame htries hlt =>
    exact absurd (hsame.succeeded ▸ hafter) hbefore
  | givesUp b state timings caller item job htask hitem hfailed hsucceeded ht' =>
    exact absurd (hsucceeded ▸ hafter) hbefore
  | overflows b state timings caller htask hover hsame =>
    exact absurd (hsame.succeeded ▸ hafter) hbefore
  | jobMissing b item hstart hitem hnone => exact absurd hnone (hjob _ item hitem)
  | succeeds a report item ht hitem hfailed hsucceeded hfin htries =>
    rw [hsucceeded] at hafter
    have hd : item.stepInfo.step = d :=
      ((List.mem_cons.mp hafter).resolve_right hbefore).symm
    subst ht
    simp only [CallTask.resume, succeedResume, Option.some.injEq] at hres
    unfold succeedStart at hres
    cases hq : s.queues.removeJobFromScheduled a.drv with
    | none => simp [InnerQueues.removeJobFromScheduled_eq_none.mp hq] at hitem
    | some found =>
      obtain ⟨item', queues⟩ := found
      have hitem' := (InnerQueues.unscheduled_of_removeJobFromScheduled hq).found
      have hsame : item' = item := Option.some.inj (hitem'.symm.trans hitem)
      subst hsame
      rw [hq] at hres
      simp only at hres
      cases hm : s.machines.removeJob item'.machine (Shared.seconds ans.now) a.drv with
      | mk machines job =>
        cases job with
        | none => exact absurd (congrArg Prod.snd hm) (hjob a.drv item' hitem)
        | some job =>
          rw [hm] at hres
          subst hres
          exact ⟨_, rfl, hd⟩

end CallTask

/-! ## The passes that wait -/

/-- A pass over the queue is under way. -/
def Creation.Busy (c : Creation) : Prop := ∃ k p, c.passes.lookup k = some p

/-- The pass waits as before, and has collected no less. -/
def Pass.KeepsWaiting (p p' : Pass) : Prop :=
  p'.waiting = p.waiting ∧ p.newRunnable ⊆ p'.newRunnable

/-- The set gets the step, unless it has one with the same path. -/
theorem mem_insertStep {l : List StepRef} {s : StepRef}
    (halone : ∀ t ∈ l, t.drvPath = s.drvPath → t = s) : s ∈ insertStep l s := by
  unfold insertStep
  split_ifs with hany
  · obtain ⟨t, ht, hpath⟩ := List.any_eq_true.mp hany
    exact halone t ht (by simpa using hpath) ▸ ht
  · exact List.mem_append_right _ List.mem_cons_self

theorem subset_insertStep (l : List StepRef) (s : StepRef) : l ⊆ insertStep l s := by
  unfold insertStep
  split_ifs
  · exact List.Subset.refl _
  · exact List.subset_append_left _ _

namespace CreateState

variable {c : CreateState} {k k' : CallId} {p : Pass}

theorem insertFinishedDrv_keepsWaiting (hp : c.creation.passes.lookup k = some p)
    (drvPath : StorePath) : ∃ p',
      (c.insertFinishedDrv k' drvPath).creation.passes.lookup k = some p' ∧
        p.KeepsWaiting p' := by
  unfold insertFinishedDrv
  split
  · rename_i q hq
    rw [setPass_passes, Map.lookup_insert_eq]
    split_ifs with he
    · rw [← he, hp, Option.some.injEq] at hq
      exact ⟨_, rfl, by rw [hq], by rw [hq]; exact List.Subset.refl _⟩
    · exact ⟨p, hp, rfl, List.Subset.refl _⟩
  · exact ⟨p, hp, rfl, List.Subset.refl _⟩

theorem insertNewRunnable_keepsWaiting (hp : c.creation.passes.lookup k = some p)
    (s : StepRef) : ∃ p',
      (c.insertNewRunnable k' s).creation.passes.lookup k = some p' ∧ p.KeepsWaiting p' := by
  unfold insertNewRunnable
  split
  · rename_i q hq
    rw [setPass_passes, Map.lookup_insert_eq]
    split_ifs with he
    · rw [← he, hp, Option.some.injEq] at hq
      exact ⟨_, rfl, by rw [hq], by rw [hq]; exact subset_insertStep _ _⟩
    · exact ⟨p, hp, rfl, List.Subset.refl _⟩
  · exact ⟨p, hp, rfl, List.Subset.refl _⟩

/-- The pass has collected the step, unless it has one with its path. -/
theorem insertNewRunnable_collects (hp : c.creation.passes.lookup k = some p) {s : StepRef}
    (halone : ∀ t ∈ p.newRunnable, t.drvPath = s.drvPath → t = s) :
    ∃ p', (c.insertNewRunnable k s).creation.passes.lookup k = some p' ∧
      p'.waiting = p.waiting ∧ s ∈ p'.newRunnable := by
  unfold insertNewRunnable
  simp only [hp, setPass_passes, AList.lookup_insert]
  exact ⟨_, rfl, rfl, mem_insertStep halone⟩

end CreateState

/-- A pass that waits goes on to wait or makes runnable what it has
collected, and a pass ends with its sweep. -/
theorem CreateStep.pass_cases {cfg : Config} {c c' : CreateState} {ans : Answer}
    {a : CreateAction} (h : CreateStep cfg c ans a c') (hw : Awaiting c.creation) {k : CallId}
    {p : Pass} (hp : c.creation.passes.lookup k = some p) :
    (∃ p', c'.creation.passes.lookup k = some p' ∧ (p.waiting = none ∨ p.KeepsWaiting p' ∨
        ∀ s ∈ p.newRunnable, (c'.graph.step s).runnable = true)) ∨
      p.waiting = none ∧ ∃ now order, order.Perm c.graph.steps.values ∧
        c'.graph = c.graph.sweepSteps now order := by
  have hkeeps : (∃ p', c'.creation.passes.lookup k = some p' ∧ p.KeepsWaiting p') →
      ∃ p', c'.creation.passes.lookup k = some p' ∧ (p.waiting = none ∨ p.KeepsWaiting p' ∨
        ∀ s ∈ p.newRunnable, (c'.graph.step s).runnable = true) := by
    rintro ⟨p', hp', hkeeps⟩
    exact ⟨p', hp', Or.inr (Or.inl hkeeps)⟩
  have hsame : c'.creation.passes = c.creation.passes →
      ∃ p', c'.creation.passes.lookup k = some p' ∧ p.KeepsWaiting p' := by
    intro hpasses
    rw [hpasses]
    exact ⟨p, hp, rfl, List.Subset.refl _⟩
  cases h with
  | startPass rows =>
    have hlt : k < c.creation.fresh := hw.builds.passBound k p hp
    refine Or.inl (hkeeps ⟨p, ?_, rfl, List.Subset.refl _⟩)
    rw [CreateState.startPass, CreateState.setPass_passes, Map.lookup_insert_eq, if_neg hlt.ne]
    exact hp
  | skipBuild hpass htodo hwaiting hid =>
    left
    rw [CreateState.setPass_passes, Map.lookup_insert_eq]
    split_ifs with heq
    · rw [← heq, hp, Option.some.injEq] at hpass
      subst hpass
      exact ⟨_, rfl, Or.inl hwaiting⟩
    · exact ⟨p, hp, Or.inr (Or.inl ⟨rfl, List.Subset.refl _⟩)⟩
  | nextBuild hpass htodo hwaiting hid =>
    left
    rw [Map.lookup_insert_eq]
    split_ifs with heq
    · rw [← heq, hp, Option.some.injEq] at hpass
      subst hpass
      exact ⟨_, rfl, Or.inl hwaiting⟩
    · exact ⟨p, hp, Or.inr (Or.inl ⟨rfl, List.Subset.refl _⟩)⟩
  | @makeRunnable j k' pass call now todo hpass hwaiting hcall hpc =>
    left
    rw [CreateState.setPass_passes, Map.lookup_insert_eq]
    split_ifs with heq
    · rw [← heq, hp, Option.some.injEq] at hpass
      subst hpass
      refine ⟨_, rfl, Or.inr (Or.inr fun s hs => ?_)⟩
      exact Graph.runnable_makeAllRunnable hs
    · exact ⟨p, hp, Or.inr (Or.inl ⟨rfl, List.Subset.refl _⟩)⟩
  | @sweep j pass now order hpass hwaiting htodo horder =>
    rw [Map.lookup_erase_eq]
    split_ifs with heq
    · rw [← heq, hp, Option.some.injEq] at hpass
      subst hpass
      exact Or.inr ⟨hwaiting, now, order, horder, rfl⟩
    · exact Or.inl ⟨p, hp, Or.inr (Or.inl ⟨rfl, List.Subset.refl _⟩)⟩
  | startNested hcall hpc hlength hpass hid =>
    refine Or.inl (hkeeps ?_)
    rw [Map.lookup_insert_eq]
    split_ifs with heq
    · rw [← heq, hp, Option.some.injEq] at hpass
      subst hpass
      exact ⟨_, rfl, rfl, List.Subset.refl _⟩
    · exact ⟨p, hp, rfl, List.Subset.refl _⟩
  | @startToplevel j call hcall hpc hok =>
    obtain ⟨pc, hstart⟩ := c.started_startStep call.pass j [] call.build.drvPath
      (some call.build) none
    exact Or.inl (hkeeps (hsame hstart.passes))
  | @startInput j call step drvPath todo calls hcall hpc hlength =>
    obtain ⟨pc, hstart⟩ := c.started_startStep call.pass call.build
      (j :: call.callers) drvPath none (some step)
    exact Or.inl (hkeeps (hsame hstart.passes))
  | @decide j call step drv missing finished hcall hpc =>
    cases finished with
    | false => exact Or.inl (hkeeps (hsame rfl))
    | true => exact Or.inl (hkeeps (CreateState.insertFinishedDrv_keepsWaiting hp call.drvPath))
  | @takeInput j k' call child step drvPath todo calls r hcall hpc hchild hresult =>
    refine Or.inl (hkeeps (hsame ?_))
    cases r with
    | valid dep =>
      simp only [CreateState.takeInput]
      split_ifs <;> rfl
    | _ => rfl
  | @finish j call step hcall hpc =>
    refine Or.inl (hkeeps ?_)
    simp only [CreateState.finishStep, CreateState.returnStep, CreateState.setStepCall_passes,
      (CreateState.insertNewStep_frame _ _ _).2.2.2.1]
    split_ifs
    · exact CreateState.insertNewRunnable_keepsWaiting
        (c := { c with graph := c.graph.setCreated step }) hp step
    · exact ⟨p, hp, rfl, List.Subset.refl _⟩
  | _ => exact Or.inl (hkeeps (hsame rfl))

/-! ## Steps that are ready -/

/-- The call is about to collect its step, and the pass has another one with
its path. -/
def StepCall.Shadowed (c : CreateState) (call : StepCall) : Prop :=
  match call.pc with
  | .inputs t [] [] => (c.graph.step t).depsLen = 0 ∧
      ∃ p ∈ c.creation.passes.lookup call.pass, ∃ s ∈ p.newRunnable,
        s.drvPath = t.drvPath ∧ s ≠ t
  | _ => False

/-- No pass drops a step for another one with its path. -/
def NoneShadowed (r : Runner) (_ : Action) : Prop :=
  ∀ call ∈ r.creation.steps.values, ¬call.Shadowed r.createState

instance (c : CreateState) (call : StepCall) : Decidable (call.Shadowed c) :=
  match call with
  | ⟨pass, _, _, _, _, _, .inputs t [] []⟩ =>
    inferInstanceAs (Decidable ((c.graph.step t).depsLen = 0 ∧
      ∃ p ∈ c.creation.passes.lookup pass, ∃ s ∈ p.newRunnable,
        s.drvPath = t.drvPath ∧ s ≠ t))
  | ⟨_, _, _, _, _, _, .inputs _ (_ :: _) _⟩ | ⟨_, _, _, _, _, _, .inputs _ [] (_ :: _)⟩
  | ⟨_, _, _, _, _, _, .queryDrv _⟩ | ⟨_, _, _, _, _, _, .queryOutputs _ _⟩
  | ⟨_, _, _, _, _, _, .checkCached _ _ _⟩ | ⟨_, _, _, _, _, _, .substitute _ _ _⟩
  | ⟨_, _, _, _, _, _, .returned _⟩ => inferInstanceAs (Decidable False)

instance (r : Runner) (a : Action) : Decidable (NoneShadowed r a) :=
  inferInstanceAs (Decidable (∀ call ∈ r.creation.steps.values, ¬call.Shadowed r.createState))

/-- The step is runnable, or a pass that waits has collected it. -/
def CreateState.WillRun (c : CreateState) (t : StepRef) : Prop :=
  (c.graph.step t).runnable = true ∨
    ∃ k p z, c.creation.passes.lookup k = some p ∧ p.waiting = some z ∧ t ∈ p.newRunnable

/-- A complete step without dependencies will run. -/
structure Ready (c : CreateState) : Prop where
  gen : ∀ t, (c.graph.step t).created = true → t.gen < c.graph.fresh
  ready : ∀ t, (c.graph.step t).created = true → c.graph.deps t = [] → c.WillRun t

namespace Ready

variable {cfg : Config} {r r' : Runner}

theorem init : Ready ⟨{}, [], {}⟩ := by
  constructor <;> simp

/-- What will run is not forgotten. -/
theorem willRun_step (hw : Awaiting r.creation) {a : Action} (hs : RunnerStep cfg r a r')
    {t : StepRef} (hgen : t.gen < r.shared.graph.fresh) (hrun : r.createState.WillRun t) :
    r'.createState.WillRun t := by
  rcases hrun with ht | ⟨k, p, z, hp, hz, hmem⟩
  · exact Or.inl ((hs.runnerGraph.wakes t hgen).runnable ht)
  · rcases hs.create_or_quiet with ⟨ca, ans, hstep⟩ | ⟨-, hcreation⟩
    · have hcases := hstep.pass_cases hw hp
      simp only [hz, reduceCtorEq, false_and, or_false, false_or] at hcases
      obtain ⟨p', hp', hkeeps | hall⟩ := hcases
      · exact Or.inr ⟨k, p', z, hp', hkeeps.1.trans hz, hkeeps.2 hmem⟩
      · exact Or.inl (hall t hmem)
    · refine Or.inr ⟨k, p, z, ?_, hz, hmem⟩
      show r'.creation.passes.lookup k = some p
      rw [hcreation]
      exact hp

/-- A step that is completed now has a pass that waits, and the pass collects
it. -/
theorem willRun_finishStep {c : CreateState} (hmade : Making c) (hw : Awaiting c.creation)
    (hown : Owned c.creation) {k : CallId} {call : StepCall} {t : StepRef}
    (hcall : c.creation.steps.lookup k = some call) (hpc : call.pc = .inputs t [] [])
    (hshadow : ¬call.Shadowed c) (hnil : c.graph.deps t = []) :
    (c.finishStep k call t).WillRun t := by
  obtain ⟨p, z, hp, hz⟩ := hown.waits hw hcall
  have hlen : (c.graph.step t).depsLen = 0 := by
    rw [hmade.depsLen t]
    show (c.graph.deps t).length = 0
    rw [hnil]
    rfl
  have hlen' : ((c.graph.setCreated t).step t).depsLen = 0 := by
    rw [Graph.setCreated, Graph.modifyStep_self]
    exact hlen
  have halone : ∀ s ∈ p.newRunnable, s.drvPath = t.drvPath → s = t := by
    intro s hs hpath
    by_contra hne
    refine hshadow ?_
    rw [StepCall.Shadowed, hpc]
    exact ⟨hlen, p, hp, s, hs, hpath, hne⟩
  obtain ⟨p', hp', hwaiting, hmem⟩ := CreateState.insertNewRunnable_collects
    (c := { c with graph := c.graph.setCreated t }) hp halone
  refine Or.inr ⟨call.pass, p', z, ?_, hwaiting.trans hz, hmem⟩
  simp only [CreateState.finishStep, CreateState.returnStep, CreateState.setStepCall_passes,
    (CreateState.insertNewStep_frame _ _ _).2.2.2.1, if_pos hlen']
  exact hp'

/-- Every step that meets the condition. -/
theorem step (h : Ready r.createState) (hmade : Making r.createState)
    (hw : Awaiting r.creation) (hown : Owned r.creation) {a : Action}
    (hshadow : NoneShadowed r a) (hs : RunnerStep cfg r a r') : Ready r'.createState := by
  have hwakes := hs.runnerGraph.wakes
  have hfresh : r.shared.graph.fresh ≤ r'.shared.graph.fresh := hs.extends.1.fresh
  -- a step that was complete before
  have hold : ∀ {t}, (r.shared.graph.step t).created = true →
      t.gen < r'.shared.graph.fresh ∧
        (r'.shared.graph.deps t = [] → r'.createState.WillRun t) := by
    intro t ht
    have hgen := h.gen t ht
    refine ⟨lt_of_lt_of_le hgen hfresh, fun hnil => ?_⟩
    rcases (hwakes t hgen).ready ht hnil with hnil' | hrun
    · exact willRun_step hw hs hgen (h.ready t ht hnil')
    · exact Or.inl hrun
  have hboth : ∀ t, (r'.shared.graph.step t).created = true → t.gen < r'.shared.graph.fresh ∧
      (r'.shared.graph.deps t = [] → r'.createState.WillRun t) := by
    intro t ht
    rcases hs.waitsStep.created_cases ht with hcreated | ⟨k, call, hcall, hpc, hc⟩
    · exact hold hcreated
    · have hmaking : r.createState.creation.making k = some t := by
        rw [Creation.making_of_lookup hcall, hpc]
        rfl
      refine ⟨lt_of_lt_of_le (hmade.gen k t hmaking) hfresh, fun hnil => ?_⟩
      have hnil' : r'.createState.graph.deps t = [] := hnil
      rw [hc, CreateState.finishStep_graph, Graph.deps_setCreated] at hnil'
      rw [hc]
      exact willRun_finishStep hmade hw hown hcall hpc
        (hshadow call (Map.mem_values_iff.mpr ⟨k, hcall⟩)) hnil'
  exact ⟨fun t ht => (hboth t ht).1, fun t ht => (hboth t ht).2⟩

theorem reach (h : Lts.Reach (Runner.next cfg) NoneShadowed {} r) : Ready r.createState := by
  refine h.invariant_of_reach (I := fun r => Ready r.createState) init ?_
  intro r a r' hreach hr hshadow hnext
  exact hr.step (Making.reach hreach) (Awaiting.reach hreach) (Owned.reach hreach) hshadow
    (runnerStep_of_next hnext)

end Ready

/-! ## Steps that are finished -/

/-- A call of `succeed_step` is on its way to release the step. -/
def Runner.Completing (r : Runner) (d : StepRef) : Prop :=
  ∃ k task, r.calls.lookup k = some task ∧ task.completes d

/-- A call only changes with its own step. -/
theorem RunnerStep.calls_cases {cfg : Config} {r r' : Runner} {a : Action}
    (h : RunnerStep cfg r a r') (hok : RunnerOk cfg r) {k : TaskId} {task : CallTask}
    (hk : r.calls.lookup k = some task) : r'.calls.lookup k = some task ∨
      ∃ ans res, a = .call k ans ∧ task.resume cfg r.shared r.held ans = some res ∧
        r' = r.setCall k res := by
  have hne : k ≠ r.nextTask := (hok.tasks k task hk).ne
  cases h with
  | @call t ans task' res ht hres =>
    by_cases heq : k = t
    · subst heq
      obtain rfl := Option.some.inj (hk.symm.trans ht)
      exact Or.inr ⟨ans, res, rfl, hres, rfl⟩
    · left
      rw [Runner.lookup_setCall, if_neg heq, hk]
  | completeBuild uuid machineId state report =>
    left
    rw [Runner.lookup_spawn, if_neg (fun hc => hne hc.1), hk]
  | @endStream m hm =>
    left
    rw [Runner.lookup_spawn, if_neg (fun hc => hne hc.1)]
    exact hk
  | queueChange curIds =>
    left
    rw [Runner.lookup_spawn, if_neg (fun hc => hne hc.1), hk]
  | _ => exact Or.inl hk

/-- A step is finished by a call of `succeed_step` or by the decision of
`create_step`. -/
theorem RunnerStep.finished_cases {cfg : Config} {r r' : Runner} {a : Action}
    (h : RunnerStep cfg r a r') {d : StepRef}
    (hd : (r'.shared.graph.step d).finished = true) :
    (r.shared.graph.step d).finished = true ∨
      (∃ k ans res, ∃ task : CallTask, task.resume cfg r.shared r.held ans = some res ∧
        r' = r.setCall k res) ∨
      ∃ k ans c, CreateStep cfg r.createState ans (.resumeStep k) c ∧
        r' = r.setCreateState c ∧ r.createState.Decided k ans d c := by
  -- a step that is neither one of a call nor one of the creation
  have hbase : ∀ {g : Graph}, r'.shared.graph = g → r.shared.graph.Fades g →
      (r.shared.graph.step d).finished = true := by
    intro g hg hfades
    rw [← (hfades.sameBase d).finished, ← hg]
    exact hd
  cases h with
  | dispatch hres => exact Or.inl (hbase rfl (dispatch_fades hres))
  | call ht hres => exact Or.inr (Or.inl ⟨_, _, _, _, hres, rfl⟩)
  | completeBuild uuid machineId state report =>
    obtain ⟨results, hshared, -⟩ := completeBuild_spec r.shared uuid machineId state report
    rw [Runner.spawn_shared, hshared] at hd
    exact Or.inl hd
  | @endStream m hm =>
    obtain ⟨machines, task, hshared, -⟩ := endStream_spec r.shared m
    rw [Runner.spawn_shared, hshared] at hd
    exact Or.inl hd
  | queueChange curIds =>
    rw [Runner.spawn_shared] at hbase hd
    exact Or.inl (hbase rfl (.retainBuilds _ curIds))
  | insertMachine id record sortFn => exact Or.inl hd
  | @create a ans c hnext =>
    have hstep := CreateState.createStep_of_next hnext
    rcases hstep.finished_of_finished hd with hold | ⟨k, rfl, hdecided⟩
    · exact Or.inl hold
    · exact Or.inr (Or.inr ⟨k, ans, c, hstep, rfl, hdecided⟩)
  | @dropStep s hheld =>
    left
    simp only [Graph.dropStep, Graph.modifyStep_step] at hd
    split_ifs at hd with heq
    · exact heq ▸ hd
    · exact hd
  | dropBuild hheld => exact Or.inl hd

/-- The creation is busy until the sweep of its last pass. -/
theorem CreateStep.busy_cases {cfg : Config} {c c' : CreateState} {ans : Answer}
    {a : CreateAction} (h : CreateStep cfg c ans a c') (hw : Awaiting c.creation)
    (hbusy : c.creation.Busy) :
    c'.creation.Busy ∨ ∃ now order, order.Perm c.graph.steps.values ∧
      c'.graph = c.graph.sweepSteps now order := by
  obtain ⟨k, p, hp⟩ := hbusy
  rcases h.pass_cases hw hp with ⟨p', hp', -⟩ | ⟨-, hsweep⟩
  · exact Or.inl ⟨k, p', hp'⟩
  · exact Or.inr hsweep

/-! ## The invariant -/

/-- Whoever depends on a finished step is about to be released from it. -/
structure Waking (r : Runner) : Prop where
  succeeded : ∀ t d, d ∈ r.shared.graph.deps t → (r.shared.graph.step t).alive = true →
    d ∈ r.shared.log.succeeded → r.Completing d
  finished : ∀ t d, d ∈ r.shared.graph.deps t → (r.shared.graph.step t).alive = true →
    (r.shared.graph.step d).finished = true →
      r.shared.graph.steps.lookup d.drvPath = some d → r.Completing d ∨ r.creation.Busy

namespace Waking

variable {cfg : Config} {r r' : Runner} {t d : StepRef}

theorem init : Waking {} := by
  constructor <;> simp [Graph.deps]

/-- A finished step gets nobody new that depends on it. -/
theorem old_dependency (hedges : Edges cfg r.createState) (hlinked : r.shared.graph.Linked)
    {a : Action} (hs : RunnerStep cfg r a r') (hd : d ∈ r'.shared.graph.deps t)
    (hlive : (r'.shared.graph.step t).alive = true)
    (hfinished : (r'.shared.graph.step d).finished = true) :
    d ∈ r.shared.graph.deps t ∧ (r.shared.graph.step t).alive = true := by
  rcases hs.waitsStep.deps_cases hd with hold | ⟨⟨-, -, -, -, hopen⟩, hg⟩
  · have hgen := hlinked.gen t (hedges.allocated t d hold)
    exact ⟨hold, (hs.runnerGraph.wakes t hgen).alive hlive⟩
  · have hopen' : (r'.shared.graph.step d).finished = false := by
      change (r'.createState.graph.step d).finished = false
      rw [hg, Graph.addDep, Graph.modifyStep_step]
      split_ifs with heq
      · exact heq ▸ hopen
      · exact hopen
    exact absurd (hfinished.symm.trans hopen') (by simp)

/-- A call that completes a step goes on, or releases the steps that depend
on it. -/
theorem completing_step (hok : RunnerOk cfg r) (hedges : Edges cfg r.createState) {a : Action}
    (hserved : SuccessServed r a) (hs : RunnerStep cfg r a r')
    (hd : d ∈ r.shared.graph.deps t) (hlive : (r.shared.graph.step t).alive = true)
    (hfinished : (r.shared.graph.step d).finished = true) (h : r.Completing d) :
    r'.Completing d ∨ d ∉ r'.shared.graph.deps t := by
  obtain ⟨k, task, hk, hcompletes⟩ := h
  rcases hs.calls_cases hok hk with hk' | ⟨ans, res, rfl, hres, rfl⟩
  · exact Or.inl ⟨k, task, hk', hcompletes⟩
  · rcases CallTask.completes_resume hres hcompletes (hserved task hk) with
      ⟨task', htask', hcompletes'⟩ | hg
    · refine Or.inl ⟨k, task', ?_, hcompletes'⟩
      rw [Runner.lookup_setCall, if_pos rfl, htask']
    · right
      show d ∉ res.1.graph.deps t
      rw [hg]
      have hmem := (hedges.deps t d hd hlive).2
      exact Graph.not_mem_deps_of_makeRdepsRunnable hfinished hmem hlive

/-- As long as a pass is under way, its sweep is still to come. -/
theorem busy_step (hedges : Edges cfg r.createState) (hfailures : KnownFailures r.createState)
    (hw : Awaiting r.creation) {a : Action} (hs : RunnerStep cfg r a r')
    (hd : d ∈ r.shared.graph.deps t) (hlive : (r.shared.graph.step t).alive = true)
    (hfinished : (r.shared.graph.step d).finished = true)
    (hlookup : r.shared.graph.steps.lookup d.drvPath = some d) (hbusy : r.creation.Busy) :
    r'.creation.Busy ∨ d ∉ r'.shared.graph.deps t := by
  rcases hs.create_or_quiet with ⟨ca, ans, hstep⟩ | ⟨-, hcreation⟩
  · refine (hstep.busy_cases hw hbusy).imp id ?_
    rintro ⟨now, order, horder, hg⟩
    have hmem : d ∈ order := horder.mem_iff.mpr (Map.mem_values_iff.mpr ⟨_, hlookup⟩)
    have hfailure : (r.shared.graph.step d).previousFailure = false := by
      cases hfailure : (r.shared.graph.step d).previousFailure with
      | false => rfl
      | true => exact hfinished.symm.trans (hfailures.unmarked d hfailure).2
    obtain ⟨hdlive, hrdep⟩ := hedges.deps t d hd hlive
    show d ∉ r'.createState.graph.deps t
    rw [hg]
    exact Graph.not_mem_deps_of_sweepSteps hmem hdlive hfinished hfailure hrdep hlive
  · left
    rw [hcreation]
    exact hbusy

/-- A call of `create_step` decides while its pass waits. -/
theorem busy_of_decided {c c' : CreateState} {k : CallId} {ans : Answer} {a : CreateAction}
    (hown : Owned c.creation) (hw : Awaiting c.creation) (hs : CreateStep cfg c ans a c')
    (hdecided : c.Decided k ans d c') : c'.creation.Busy := by
  have hcall : ∃ call, c.creation.steps.lookup k = some call := by
    have hdecides := hdecided.decides
    unfold CreateState.decides at hdecides
    split at hdecides
    · exact ⟨_, ‹_›⟩
    · exact ⟨_, ‹_›⟩
    · cases hdecides
  obtain ⟨call, hcall⟩ := hcall
  obtain ⟨p, z, hp, hz⟩ := hown.waits hw hcall
  rcases hs.pass_cases hw hp with ⟨p', hp', -⟩ | ⟨hnone, -⟩
  · exact ⟨call.pass, p', hp'⟩
  · rw [hz] at hnone
    cases hnone

/-- Every step that meets the condition. -/
theorem step (h : Waking r) (hok : RunnerOk cfg r) (hedges : Edges cfg r.createState)
    (hlinked : r.shared.graph.Linked) (hfinal : Final r) (hfinal' : Final r')
    (hfailures : KnownFailures r.createState) (hown : Owned r.creation)
    (hw : Awaiting r.creation) {a : Action} (hserved : SuccessServed r a)
    (hs : RunnerStep cfg r a r') : Waking r' := by
  refine ⟨fun t d hd hlive hsucceeded => ?_, fun t d hd hlive hfinished hlookup => ?_⟩
  · have hfinished := (hfinal'.marked d hsucceeded).2
    obtain ⟨hd₀, hlive₀⟩ := old_dependency hedges hlinked hs hd hlive hfinished
    by_cases hold : d ∈ r.shared.log.succeeded
    · have hfinished₀ := (hfinal.marked d hold).2
      refine (completing_step hok hedges hserved hs hd₀ hlive₀ hfinished₀ ?_).resolve_right
        (not_not_intro hd)
      exact h.succeeded t d hd₀ hlive₀ hold
    · by_cases ha : ∃ k ans, a = .call k ans
      · obtain ⟨k, ans, rfl⟩ := ha
        cases hs with
        | call ht hres =>
          obtain ⟨task', htask', hcompletes⟩ := CallTask.completes_of_succeeded hres
            (fun drv item hitem => hok.attempts.find_job hitem) hold hsucceeded
          refine ⟨k, task', ?_, hcompletes⟩
          rw [Runner.lookup_setCall, if_pos rfl, htask']
      · have hsame := hs.sameVerdicts fun k ans he => ha ⟨k, ans, he⟩
        exact absurd (hsame.succeeded ▸ hsucceeded) hold
  · obtain ⟨hd₀, hlive₀⟩ := old_dependency hedges hlinked hs hd hlive hfinished
    by_cases hfinished₀ : (r.shared.graph.step d).finished = true
    · have hgen := hlinked.gen d (hlinked.deps t hd₀)
      have hlookup₀ : r.shared.graph.steps.lookup d.drvPath = some d :=
        (hs.extends.1.steps _ _ hlookup).resolve_right (Nat.not_le_of_lt hgen)
      rcases h.finished t d hd₀ hlive₀ hfinished₀ hlookup₀ with hcompleting | hbusy
      · exact Or.inl ((completing_step hok hedges hserved hs hd₀ hlive₀ hfinished₀
          hcompleting).resolve_right (not_not_intro hd))
      · exact Or.inr ((busy_step hedges hfailures hw hs hd₀ hlive₀ hfinished₀ hlookup₀
          hbusy).resolve_right (not_not_intro hd))
    · rcases hs.finished_cases hfinished with
        hold | ⟨k, ans, res, task, hres, rfl⟩ | ⟨k, ans, c, hstep, rfl, hdecided⟩
      · exact absurd hold hfinished₀
      · obtain ⟨task', htask', hreads⟩ := CallTask.reads_of_finished hres
          (fun drv item hitem => hok.attempts.find_job hitem) (by simpa using hfinished₀)
          hfinished
        refine Or.inl ⟨k, task', ?_, CallTask.completes_of_reads hreads⟩
        rw [Runner.lookup_setCall, if_pos rfl, htask']
      · exact Or.inr (busy_of_decided hown hw hstep hdecided)

theorem reach (h : Lts.Reach (Runner.next cfg) SuccessServed {} r) : Waking r := by
  refine h.invariant_of_reach init ?_
  intro r a r' hreach hr hserved hnext
  have hany := hreach.mono fun _ _ _ => trivial
  have hs := runnerStep_of_next hnext
  have hok := RunnerOk.reach hreach
  have hfinal := Final.reach hreach
  exact hr.step hok (Edges.reach hreach) (Prioritised.linked_reach hany) hfinal
    (hfinal.step hok (JobSteps.reach hreach) hs) (KnownFailures.reach hreach)
    (Owned.reach hreach) (Awaiting.reach hreach) hserved hs

end Waking

/-! ## No wakeup is lost -/

/-- Nobody waits in vain. -/
structure NoWakeupLost (r : Runner) : Prop where
  /-- The call of a step that has succeeded will release whoever depends on
  it. -/
  succeeded : ∀ t d, d ∈ r.shared.graph.deps t → (r.shared.graph.step t).alive = true →
    d ∈ r.shared.log.succeeded → r.Completing d
  /-- A step of `Steps` that is finished will be released by a call or by the
  sweep of a pass. -/
  finished : ∀ t d, d ∈ r.shared.graph.deps t → (r.shared.graph.step t).alive = true →
    (r.shared.graph.step d).finished = true →
      r.shared.graph.steps.lookup d.drvPath = some d → r.Completing d ∨ r.creation.Busy
  /-- A complete step without dependencies will run. -/
  ready : ∀ t, (r.shared.graph.step t).created = true → r.shared.graph.deps t = [] →
    r.createState.WillRun t

theorem NoWakeupLost.reach {cfg : Config} {r : Runner}
    (hserved : Lts.Reach (Runner.next cfg) SuccessServed {} r)
    (hshadow : Lts.Reach (Runner.next cfg) NoneShadowed {} r) : NoWakeupLost r where
  succeeded := (Waking.reach hserved).succeeded
  finished := (Waking.reach hserved).finished
  ready := (Ready.reach hshadow).ready

namespace Chain

/-- The input is built, and its machine reports a success. -/
def inputBuilt : List Action :=
  Sample.register :: inputMissing ++
  [Action.dispatch { steps := [inputStep] },
    .dispatch {},
    .dispatch {},
    .dispatch { system := "x86_64-linux" },
    .dispatch {},
    .dispatch {},
    .dispatch { systems := ["x86_64-linux"] },
    .dispatch {},
    .dispatch {},
    .dispatch {},
    .dispatch {}] ++ Sample.scheduled ++
  [.completeBuild 0 0 .success {}]

end Chain

/-- Without the condition the call ends when the database fails, and `top`
waits for a step that has succeeded. -/
theorem noWakeupLost_fails : ¬ ∀ (cfg : Config) (r : Runner),
    Lts.Reach (Runner.next cfg) Lts.anyStep {} r → NoWakeupLost r := by
  intro hall
  have hrun : (Lts.run (Runner.next Chain.config) {}
      (Chain.inputBuilt ++ [.call 0 {}, .call 0 {}, .call 0 { ok := false }])).map
        (fun r => (r.shared.log.succeeded, r.shared.graph.deps Chain.topStep,
          (r.shared.graph.step Chain.topStep).alive, r.calls.keys)) =
      some ([Chain.inputStep], [Chain.inputStep], true, []) := by
    decide +kernel
  obtain ⟨r, hr, hvalues⟩ := Option.map_eq_some_iff.mp hrun
  simp only [Prod.mk.injEq] at hvalues
  obtain ⟨hsucceeded, hdeps, hlive, hcalls⟩ := hvalues
  obtain ⟨k, task, hk, -⟩ := (hall Chain.config r (Lts.reach_of_run hr)).succeeded Chain.topStep
    Chain.inputStep (by rw [hdeps]; exact List.mem_cons_self) hlive
    (by rw [hsucceeded]; exact List.mem_cons_self)
  have hmem : k ∈ r.calls.keys := AList.lookup_isSome.mp (by rw [hk]; rfl)
  rw [hcalls] at hmem
  cases hmem

end QueueRunner
