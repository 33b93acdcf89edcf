import QueueRunner.Making

/-!
# The sweep over the steps

`Steps::make_rdeps_runnable` runs at the end of every pass over the queue.
It releases the steps that still wait for a step which has finished, and
prunes the list of a finished step.  A graph is `Swept` when there is
nothing left to release.  `Swept.sweepSteps_eq` says that a sweep leaves
such a graph alone, and `swept_of_sweepSteps` that it leaves no other graph
alone.

The lengths that a step keeps of `deps` and `rdeps` are true in every run:
this is `Counted`.
-/

namespace QueueRunner

/-- The steps that wait for a finished step of `Steps` have been released. -/
def Graph.Swept (g : Graph) : Prop :=
  ∀ s ∈ g.steps.values, (g.step s).alive = true → (g.step s).finished = true →
    (g.step s).previousFailure = false → ∀ t ∈ (g.step s).rdeps,
      (g.step t).alive = true ∧ (∀ d ∈ (g.step t).deps, d.drvPath ≠ s.drvPath) ∧
      ((g.step t).deps = [] → (g.step t).created = true → (g.step t).runnable = true)

/-! ## The sweep of a graph that was swept -/

namespace Graph

variable {g g' : Graph} {s t : StepRef} {now : Timestamp}

/-- The lengths that the steps keep are those of their lists. -/
structure Counted (g : Graph) : Prop where
  deps : ∀ s, (g.step s).depsLen = (g.step s).deps.length
  rdeps : ∀ s, (g.step s).rdepsLen = (g.step s).rdeps.length

theorem modifyStep_eq_self {f : Step → Step} (hf : f (g.step s) = g.step s) :
    g.modifyStep s f = g := by
  unfold modifyStep
  rw [hf, Function.update_eq_self]

private theorem foldl_eq_self {α : Type} {op : Graph → α → Graph} {l : List α}
    (hop : ∀ a ∈ l, op g a = g) : l.foldl op g = g := by
  induction l with
  | nil => rfl
  | cons a l ih =>
    rw [List.foldl_cons, hop a List.mem_cons_self]
    exact ih fun b hb => hop b (List.mem_cons_of_mem _ hb)

/-- A step that was released is released again. -/
theorem releaseRdep_eq_self (hcounted : g.Counted)
    (hdeps : ∀ d ∈ (g.step t).deps, d.drvPath ≠ s.drvPath)
    (hrunnable : (g.step t).deps = [] → (g.step t).created = true → (g.step t).runnable = true) :
    releaseRdep s now g t = g := by
  have hfilter : (g.step t).deps.filter (fun d => d.drvPath != s.drvPath) = (g.step t).deps := by
    rw [List.filter_eq_self]
    exact fun d hd => bne_iff_ne.mpr (hdeps d hd)
  have hsame : g.modifyStep t (fun r => { r with
      deps := (g.step t).deps, depsLen := (g.step t).deps.length }) = g := by
    refine modifyStep_eq_self ?_
    rw [← hcounted.deps t]
  unfold releaseRdep
  simp only [hfilter, hsame]
  split_ifs with halive hlast
  · unfold makeRunnable
    rw [if_pos (hrunnable hlast.1 hlast.2)]
  · rfl
  · rfl

theorem makeRdepsRunnable_eq_self (hcounted : g.Counted)
    (hrdeps : ∀ t ∈ (g.step s).rdeps, (g.step t).alive = true ∧
      (∀ d ∈ (g.step t).deps, d.drvPath ≠ s.drvPath) ∧
      ((g.step t).deps = [] → (g.step t).created = true → (g.step t).runnable = true)) :
    g.makeRdepsRunnable now s = g := by
  have hwalk : (g.step s).rdeps.foldl (releaseRdep s now) g = g :=
    foldl_eq_self fun t ht => releaseRdep_eq_self hcounted (hrdeps t ht).2.1 (hrdeps t ht).2.2
  have hfilter : (g.step s).rdeps.filter (fun r => (g.step r).alive) = (g.step s).rdeps := by
    rw [List.filter_eq_self]
    exact fun t ht => (hrdeps t ht).1
  unfold makeRdepsRunnable
  split_ifs
  · simp only [hwalk, hfilter]
    refine modifyStep_eq_self ?_
    rw [← hcounted.rdeps s]
  · rfl

/-- The sweep has nothing to do. -/
theorem Swept.sweepSteps_eq (hswept : g.Swept) (hcounted : g.Counted) {order : List StepRef}
    (horder : order.Perm g.steps.values) : g.sweepSteps now order = g := by
  refine foldl_eq_self fun s hs => ?_
  unfold sweepStep
  split_ifs with hcond
  · exact makeRdepsRunnable_eq_self hcounted
      (hswept s (horder.mem_iff.mp hs) hcond.1 hcond.2.1 hcond.2.2)
  · rfl

/-! ## What a sweep releases -/

/-- What becomes of one step that waits for `s`. -/
theorem releaseRdep_released (now : Timestamp) (s : StepRef) (halive : (g.step t).alive = true) :
    (∀ d ∈ ((releaseRdep s now g t).step t).deps, d.drvPath ≠ s.drvPath) ∧
      ((g.step t).deps = [] → (g.step t).created = true →
        ((releaseRdep s now g t).step t).runnable = true) := by
  have hfilter : ∀ d ∈ (g.step t).deps.filter (fun d => d.drvPath != s.drvPath),
      d.drvPath ≠ s.drvPath := fun d hd => bne_iff_ne.mp (List.mem_filter.mp hd).2
  unfold releaseRdep
  simp only [halive, if_true, modifyStep_self]
  split_ifs with hlast
  · refine ⟨fun d hd => ?_, fun _ _ => ?_⟩
    · have hdeps := ((Settles.keeps_makeRunnable (g := g.modifyStep t (fun r => { r with
          deps := (g.step t).deps.filter (fun d => d.drvPath != s.drvPath)
          depsLen := ((g.step t).deps.filter (fun d => d.drvPath != s.drvPath)).length }))
        (s := t) (by rw [modifyStep_self]; exact hlast.2) now) t).deps
      rw [modifyStep_self] at hdeps
      exact hfilter d (hdeps.subset hd)
    · unfold makeRunnable
      split_ifs with hrun
      · exact hrun
      · rw [modifyStep_self]
  · refine ⟨fun d hd => ?_, fun hnil hcreated => ?_⟩
    · rw [modifyStep_self] at hd
      exact hfilter d hd
    · exact absurd ⟨by rw [hnil]; rfl, hcreated⟩ hlast

/-- The walk over the steps that wait for `s`, around one of them. -/
theorem walk_released (now : Timestamp) (s : StepRef) {l : List StepRef} (ht : t ∈ l)
    (halive : (g.step t).alive = true) :
    (∀ d ∈ ((l.foldl (releaseRdep s now) g).step t).deps, d.drvPath ≠ s.drvPath) ∧
      ((g.step t).deps = [] → (g.step t).created = true →
        ((l.foldl (releaseRdep s now) g).step t).runnable = true) := by
  obtain ⟨l₁, l₂, rfl⟩ := List.append_of_mem ht
  rw [List.foldl_append, List.foldl_cons]
  have hsettles : ∀ (l : List StepRef) (g : Graph),
      Keeps Step.Settles g (l.foldl (releaseRdep s now) g) := fun l g =>
    Keeps.foldl Step.Settles.refl (fun _ _ _ => Step.Settles.trans)
      (Settles.keeps_releaseRdep s now) l g
  have hgrows : ∀ (l : List StepRef) (g : Graph),
      Keeps Step.Grows g (l.foldl (releaseRdep s now) g) := fun l g =>
    Keeps.foldl Step.Grows.refl (fun _ _ _ => Step.Grows.trans)
      (fun g t => Keeps.releaseRdep Step.Grows.refl (fun _ _ _ => Step.Grows.trans)
        (fun _ _ => ⟨fun _ => rfl, id, id, rfl⟩) (fun _ _ _ => ⟨id, id, id, rfl⟩) g s t) l g
  have hbefore := hsettles l₁ g t
  have hafter := hsettles l₂ (releaseRdep s now (l₁.foldl (releaseRdep s now) g) t) t
  obtain ⟨hdeps, hrun⟩ := releaseRdep_released (g := l₁.foldl (releaseRdep s now) g) now s
    (t := t) (hbefore.alive.trans halive)
  refine ⟨fun d hd => hdeps d (hafter.deps.subset hd), fun hnil hcreated => ?_⟩
  refine (hgrows l₂ _ t).runnable (hrun ?_ (hbefore.created.trans hcreated))
  exact List.sublist_nil.mp (hnil ▸ hbefore.deps)

/-- `make_rdeps_runnable` releases what waits for the step, and prunes its
list. -/
theorem makeRdepsRunnable_released (now : Timestamp) (hfinished : (g.step s).finished = true)
    (ht : t ∈ ((g.makeRdepsRunnable now s).step s).rdeps) :
    (g.step t).alive = true ∧
      (∀ d ∈ ((g.makeRdepsRunnable now s).step t).deps, d.drvPath ≠ s.drvPath) ∧
      ((g.step t).deps = [] → (g.step t).created = true →
        ((g.makeRdepsRunnable now s).step t).runnable = true) := by
  have hsettles : Keeps Step.Settles g ((g.step s).rdeps.foldl (releaseRdep s now) g) :=
    Keeps.foldl Step.Settles.refl (fun _ _ _ => Step.Settles.trans)
      (Settles.keeps_releaseRdep s now) _ g
  unfold makeRdepsRunnable at ht ⊢
  simp only [hfinished, if_true, modifyStep_self, List.mem_filter] at ht ⊢
  have halive := (hsettles t).alive ▸ ht.2
  obtain ⟨hdeps, hrun⟩ := walk_released now s ((hsettles s).rdeps ht.1) halive
  refine ⟨halive, ?_⟩
  rw [modifyStep_step]
  split_ifs with hts
  · subst hts
    exact ⟨hdeps, hrun⟩
  · exact ⟨hdeps, hrun⟩

/-- A sweep that leaves the edges and the runnable steps alone had nothing
to do. -/
theorem swept_of_sweepSteps {order : List StepRef} (horder : order.Perm g.steps.values)
    (hdeps : ∀ t, ((g.sweepSteps now order).step t).deps = (g.step t).deps)
    (hrdeps : ∀ t, ((g.sweepSteps now order).step t).rdeps = (g.step t).rdeps)
    (hrunnable : ∀ t, ((g.sweepSteps now order).step t).runnable = (g.step t).runnable) :
    g.Swept := by
  intro s hs halive hfinished hfailure t ht
  obtain ⟨l₁, l₂, rfl⟩ := List.append_of_mem (horder.mem_iff.mpr hs)
  have hsplit : g.sweepSteps now (l₁ ++ s :: l₂) =
      (sweepStep now (g.sweepSteps now l₁) s).sweepSteps now l₂ := by
    simp only [sweepSteps, List.foldl_append, List.foldl_cons]
  rw [hsplit] at hdeps hrdeps hrunnable
  -- The sweep before `s` and the one after it only release steps.
  have hbefore := (Settles.sweepSteps g now l₁).step
  have hbase := sameBase_sweepSteps g now l₁ s
  have hvisit : sweepStep now (g.sweepSteps now l₁) s =
      (g.sweepSteps now l₁).makeRdepsRunnable now s := by
    unfold sweepStep
    rw [if_pos ⟨hbase.alive.trans halive, hbase.finished.trans hfinished,
      hbase.previousFailure.trans hfailure⟩]
  rw [hvisit] at hdeps hrdeps hrunnable
  have hafter := (Settles.sweepSteps ((g.sweepSteps now l₁).makeRdepsRunnable now s) now l₂).step
  have hgrows : Keeps Step.Grows _
      (((g.sweepSteps now l₁).makeRdepsRunnable now s).sweepSteps now l₂) :=
    Keeps.sweepSteps Step.Grows.refl (fun _ _ _ => Step.Grows.trans)
      (fun _ _ => ⟨fun _ => rfl, id, id, rfl⟩) (fun _ _ _ => ⟨id, id, id, rfl⟩)
      (fun _ _ _ => ⟨id, id, id, rfl⟩) l₂ _
  obtain ⟨hlive, hreleased, hrun⟩ := makeRdepsRunnable_released now
    (hbase.finished.trans hfinished) ((hafter s).rdeps (hrdeps s ▸ ht))
  refine ⟨(hbefore t).alive ▸ hlive, fun d hd => ?_, fun hnil hcreated => ?_⟩
  · exact hreleased d ((hafter t).deps.subset (hdeps t ▸ hd))
  · rw [← hrunnable t]
    refine (hgrows t).runnable (hrun ?_ ((hbefore t).created.trans hcreated))
    exact List.sublist_nil.mp (hnil ▸ (hbefore t).deps)

end Graph

/-! ## The lengths -/

/-- The length of `rdeps` stays true. -/
def Step.CountsRdeps (r r' : Step) : Prop :=
  r.rdepsLen = r.rdeps.length → r'.rdepsLen = r'.rdeps.length

namespace Step.CountsRdeps

variable {r r' r'' : Step}

theorem refl (r : Step) : CountsRdeps r r := id

theorem trans (h : CountsRdeps r r') (h' : CountsRdeps r' r'') : CountsRdeps r r'' := h' ∘ h

end Step.CountsRdeps

/-- The same for all steps. -/
def Graph.CountsRdeps (g g' : Graph) : Prop := Keeps Step.CountsRdeps g g'

namespace Graph.CountsRdeps

variable {g g' : Graph}

theorem refl (g : Graph) : CountsRdeps g g := Keeps.refl Step.CountsRdeps.refl g

theorem of_step (h : ∀ s, (g'.step s).rdeps = (g.step s).rdeps ∧
    (g'.step s).rdepsLen = (g.step s).rdepsLen) : CountsRdeps g g' := by
  intro s hs
  rw [(h s).1, (h s).2]
  exact hs

theorem of_fades (h : g.Fades g') : CountsRdeps g g' := by
  refine of_step fun s => ?_
  rw [h.step s]
  exact ⟨rfl, rfl⟩

/-- A change of one step that leaves its list alone. -/
theorem modifyStep (g : Graph) (s : StepRef) {f : Step → Step}
    (hf : ∀ r, (f r).rdeps = r.rdeps ∧ (f r).rdepsLen = r.rdepsLen) :
    CountsRdeps g (g.modifyStep s f) := by
  refine of_step fun t => ?_
  rw [modifyStep_step]
  split_ifs
  · exact hf _
  · exact ⟨rfl, rfl⟩

theorem makeAllRunnable (g : Graph) (now : Timestamp) (l : List StepRef) :
    CountsRdeps g (l.foldl (fun g s => g.makeRunnable now s) g) :=
  Keeps.makeAllRunnable Step.CountsRdeps.refl (fun _ _ _ => Step.CountsRdeps.trans)
    (fun _ _ h => h) l g

theorem makeRdepsRunnable (g : Graph) (now : Timestamp) (s : StepRef) :
    CountsRdeps g (g.makeRdepsRunnable now s) := by
  unfold Graph.makeRdepsRunnable
  split_ifs
  · have hreleased : CountsRdeps g ((g.step s).rdeps.foldl (releaseRdep s now) g) :=
      Keeps.foldl Step.CountsRdeps.refl (fun _ _ _ => Step.CountsRdeps.trans) (fun g t =>
        Keeps.releaseRdep Step.CountsRdeps.refl (fun _ _ _ => Step.CountsRdeps.trans)
          (fun _ _ h => h) (fun _ _ _ h => h) g s t) _ g
    exact Keeps.trans (fun _ _ _ => Step.CountsRdeps.trans) hreleased
      (Keeps.modifyStep Step.CountsRdeps.refl fun _ => rfl)
  · exact refl g

theorem sweepSteps (g : Graph) (now : Timestamp) (order : List StepRef) :
    CountsRdeps g (g.sweepSteps now order) := by
  refine Keeps.foldl Step.CountsRdeps.refl (fun _ _ _ => Step.CountsRdeps.trans)
    (fun g s => ?_) order g
  unfold sweepStep
  split_ifs
  · exact makeRdepsRunnable g now s
  · exact refl g

/-- `Steps::create`. -/
theorem of_created {drvPath : StorePath} {build : Option BuildRef} {step : Option StepRef}
    {s : StepRef} {isNew : Bool} (h : Created g drvPath build step g' s isNew) :
    CountsRdeps g g' := by
  intro t ht
  rw [h.step]
  split_ifs with hts hnew
  · cases step <;> rfl
  · subst hts
    cases step with
    | none =>
      simp only [referred, Option.toList, List.append_nil]
      exact ht
    | some x => rfl
  · exact ht

end Graph.CountsRdeps

theorem CreateGraph.countsRdeps {c : CreateState} {a : CreateAction} {g : Graph}
    (h : CreateGraph c a g) : c.graph.CountsRdeps g := by
  cases h with
  | same => exact .refl _
  | startPass rows =>
    refine Graph.CountsRdeps.of_step fun s => ?_
    rw [(c.startPass_grows rows).2.1]
    exact ⟨rfl, rfl⟩
  | makeRunnable now steps => exact .makeAllRunnable _ _ _
  | sweep now order => exact .sweepSteps _ _ _
  | finishInDb hcall => exact .refl c.graph
  | attach hcall hpc =>
    simp only [CreateState.finishBuild]
    split_ifs <;> exact .refl c.graph
  | created h => exact .of_created h
  | setDrv step drv =>
    exact .modifyStep (f := fun r => { r with drv := some _ }) _ _ fun _ => ⟨rfl, rfl⟩
  | setPreviousFailure step =>
    exact .modifyStep (f := fun r => { r with previousFailure := true }) _ _ fun _ => ⟨rfl, rfl⟩
  | setFinished step =>
    exact .modifyStep (f := fun r => { r with finished := true }) _ _ fun _ => ⟨rfl, rfl⟩
  | addDep step dep =>
    exact .modifyStep (f := fun r => { r with deps := _, depsLen := _ }) _ _ fun _ => ⟨rfl, rfl⟩
  | setCreated step =>
    exact .modifyStep (f := fun r => { r with created := true }) _ _ fun _ => ⟨rfl, rfl⟩

theorem CallGraph.countsRdeps {s : Shared} {t : CallTask} {g : Graph}
    (h : CallGraph s t g) : s.graph.CountsRdeps g := by
  cases h with
  | fades hg => exact .of_fades hg
  | succeeds a report item ht hitem hg =>
    rw [hg]
    exact .modifyStep (f := fun r => { r with finished := true }) _ _ fun _ => ⟨rfl, rfl⟩
  | fails a state report caller item tries after ht hitem hg =>
    rw [hg]
    exact .modifyStep _ _ fun _ => ⟨rfl, rfl⟩
  | releases a report item now ht hg =>
    rw [hg]
    exact .makeRdepsRunnable _ _ _

theorem RunnerGraph.countsRdeps {r : Runner} {a : Action} {g : Graph}
    (h : RunnerGraph r a g) : r.shared.graph.CountsRdeps g := by
  cases h with
  | fades h => exact .of_fades h
  | call ht h => exact h.countsRdeps
  | create h => exact h.countsRdeps
  | dropStep s =>
    exact .modifyStep (f := fun r => { r with alive := false }) _ _ fun _ => ⟨rfl, rfl⟩
  | dropBuild b => exact .refl r.shared.graph

theorem Graph.Counted.reach {cfg : Config} {ok : Runner → Action → Prop} {r : Runner}
    (h : Lts.Reach (Runner.next cfg) ok {} r) : r.shared.graph.Counted where
  deps := (Making.reach h).depsLen
  rdeps := h.invariant (I := fun r => ∀ s, (r.shared.graph.step s).rdepsLen =
      (r.shared.graph.step s).rdeps.length) (fun _ => rfl)
    fun _ _ _ hr _ hnext s => (runnerStep_of_next hnext).runnerGraph.countsRdeps s (hr s)

end QueueRunner
