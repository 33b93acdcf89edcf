import QueueRunner.Allocation
import QueueRunner.Lifetimes

/-!
# The assertions of `make_runnable`

`make_runnable` asserts that its step is created, not finished, and has no
dependencies left.  Three places call it: the loop of `process_new_builds`
over `new_runnable`, the sweep of `Steps::make_rdeps_runnable` at the end
of a pass, and `succeed_step` for the steps that wait for its step.  The
two walks keep the entries of `rdeps` and come back to the same steps
again and again.

A step that was created is finished by `succeed_step` only, so the
assertions can only fail for a step that has succeeded.
`assertionsHold_runs` says that they never fail in a run in which
`succeed_step` starts for a step when no live step refers to it any more
and no pass is about to make it runnable.
-/

namespace QueueRunner

/-- The assertions of `Step::make_runnable`. -/
def Step.Assertable (r : Step) : Prop :=
  r.created = true ∧ r.finished = false ∧ r.deps = []

instance (r : Step) : Decidable r.Assertable :=
  inferInstanceAs (Decidable (r.created = true ∧ r.finished = false ∧ r.deps = []))

namespace Graph

/-- The calls that a loop makes, each with the graph of its turn. -/
def foldCalls {α : Type} (op : Graph → α → Graph) (calls : Graph → α → List Step) :
    Graph → List α → List Step
  | _, [] => []
  | g, a :: l => calls g a ++ foldCalls op calls (op g a) l

/-- The call of `make_runnable` in the closure of `make_rdeps_runnable`:
the record of the step at the call. -/
def releaseRdepCalls (self : StepRef) (g : Graph) (rdep : StepRef) : List Step :=
  if (g.step rdep).alive then
    let deps := (g.step rdep).deps.filter (fun d => d.drvPath != self.drvPath)
    let g := g.modifyStep rdep (fun r =>
      { r with deps := deps, depsLen := deps.length })
    if deps = [] ∧ (g.step rdep).created = true then [g.step rdep] else []
  else []

/-- The calls of `make_runnable` in `Step::make_rdeps_runnable`. -/
def makeRdepsRunnableCalls (now : Timestamp) (g : Graph) (s : StepRef) : List Step :=
  if (g.step s).finished then
    foldCalls (releaseRdep s now) (releaseRdepCalls s) g (g.step s).rdeps
  else []

/-- The calls in one turn of `Steps::make_rdeps_runnable`. -/
def sweepStepCalls (now : Timestamp) (g : Graph) (s : StepRef) : List Step :=
  if (g.step s).alive = true ∧ (g.step s).finished = true ∧
      (g.step s).previousFailure = false then makeRdepsRunnableCalls now g s
  else []

end Graph

namespace Runner

/-- The records of the steps that an action calls `make_runnable` on, each
at the moment of its call. -/
def makeRunnableCalls (r : Runner) : Action → List Step
  | .create (.resumePass k) ans =>
    match r.creation.passes.lookup k with
    | none => []
    | some pass =>
      match pass.waiting, pass.todo with
      | some _, _ => Graph.foldCalls (fun g s => g.makeRunnable ans.now s)
          (fun g s => [g.step s]) r.shared.graph pass.newRunnable
      | none, [] => Graph.foldCalls (Graph.sweepStep ans.now) (Graph.sweepStepCalls ans.now)
          r.shared.graph ans.steps
      | none, _ :: _ => []
  | .call t ans =>
    match r.calls.lookup t with
    | some (.succeed _ _ (.notify item)) =>
      if ans.ok then r.shared.graph.makeRdepsRunnableCalls ans.now item.stepInfo.step
      else []
    | _ => []
  | _ => []

/-- The step that `succeed_step` is about to mark. -/
def marks (r : Runner) : Action → Option StepRef
  | .call t _ =>
    match r.calls.lookup t with
    | some (.succeed a _ .start) => (r.item a.drv).map (fun item => item.stepInfo.step)
    | _ => none
  | _ => none

end Runner

/-- Every step that `make_runnable` is called on meets its assertions. -/
def AssertionsHold (cfg : Config) (r : Runner) : Prop :=
  ∀ a r', r.next cfg a = some r' → ∀ x ∈ r.makeRunnableCalls a, x.Assertable

/-- `succeed_step` marks a step when no pass has it in `new_runnable` and
no live step has it in `rdeps`. -/
def MarkedLast (r : Runner) (a : Action) : Prop :=
  ∀ s ∈ r.marks a, (∀ p ∈ r.creation.passes.values, s ∉ p.newRunnable) ∧
    ∀ d ∈ r.shared.graph.allocated, (r.shared.graph.step d).alive = true →
      s ∉ (r.shared.graph.step d).rdeps

instance (r : Runner) (a : Action) : Decidable (MarkedLast r a) :=
  inferInstanceAs (Decidable (∀ s ∈ r.marks a,
    (∀ p ∈ r.creation.passes.values, s ∉ p.newRunnable) ∧
    ∀ d ∈ r.shared.graph.allocated, (r.shared.graph.step d).alive = true →
      s ∉ (r.shared.graph.step d).rdeps))

/-! ## The calls of the loops -/

namespace Graph

/-- A loop that keeps `I` calls `make_runnable` on records with `P`, when
each turn does. -/
theorem foldCalls_forall {α : Type} {op : Graph → α → Graph} {calls : Graph → α → List Step}
    {I : Graph → Prop} {P : Step → Prop} {l : List α} {g : Graph} (hg : I g)
    (hop : ∀ g a, a ∈ l → I g → I (op g a))
    (hcalls : ∀ g a, a ∈ l → I g → ∀ x ∈ calls g a, P x) : ∀ x ∈ foldCalls op calls g l, P x := by
  induction l generalizing g with
  | nil => simp [foldCalls]
  | cons a l ih =>
    intro x hx
    rcases List.mem_append.mp hx with hx | hx
    · exact hcalls g a List.mem_cons_self hg x hx
    · exact ih (hop g a List.mem_cons_self hg)
        (fun g b hb => hop g b (List.mem_cons_of_mem _ hb))
        (fun g b hb => hcalls g b (List.mem_cons_of_mem _ hb)) x hx

/-- No live step refers to a step that was created and is finished. -/
def RdepsOpen (g : Graph) : Prop :=
  ∀ d, (g.step d).alive = true → ∀ s ∈ (g.step d).rdeps, (g.step s).created = true →
    (g.step s).finished = false

variable {g g' : Graph}

theorem RdepsOpen.of_keeps (h : g.RdepsOpen) (hk : Keeps Step.Settles g g') :
    g'.RdepsOpen := by
  intro d hd s hs hc
  rw [(hk d).alive] at hd
  rw [(hk s).created] at hc
  rw [(hk s).finished]
  exact h d hd s ((hk d).rdeps hs) hc

/-- The closure of `make_rdeps_runnable` tests two of the assertions. -/
theorem assertable_releaseRdepCalls {self rdep : StepRef}
    (h : (g.step rdep).created = true → (g.step rdep).finished = false) :
    ∀ x ∈ releaseRdepCalls self g rdep, x.Assertable := by
  intro x hx
  simp only [releaseRdepCalls, modifyStep_self] at hx
  split_ifs at hx with halive hlast
  · rw [List.mem_singleton.mp hx]
    exact ⟨hlast.2, h hlast.2, hlast.1⟩
  · cases hx
  · cases hx

theorem assertable_makeRdepsRunnableCalls (h : g.RdepsOpen) (now : Timestamp) {s : StepRef}
    (hs : (g.step s).alive = true) :
    ∀ x ∈ g.makeRdepsRunnableCalls now s, x.Assertable := by
  unfold makeRdepsRunnableCalls
  split_ifs
  · refine foldCalls_forall (I := Keeps Step.Settles g) (Keeps.refl Step.Settles.refl g)
      (fun g' t _ hk => ?_) (fun g' t ht hk => assertable_releaseRdepCalls fun hc => ?_)
    · exact Keeps.trans (fun _ _ _ => Step.Settles.trans) hk
        (Settles.keeps_releaseRdep s now g' t)
    · rw [(hk t).created] at hc
      rw [(hk t).finished]
      exact h s hs t ht hc
  · simp

theorem assertable_sweep (h : g.RdepsOpen) (now : Timestamp) (order : List StepRef) :
    ∀ x ∈ foldCalls (sweepStep now) (sweepStepCalls now) g order, x.Assertable := by
  refine foldCalls_forall (I := RdepsOpen) h (fun g' t _ hg' => ?_) (fun g' t _ hg' => ?_)
  · exact hg'.of_keeps (Settles.sweepStep g' now t)
  · unfold sweepStepCalls
    split_ifs with ht
    · exact assertable_makeRdepsRunnableCalls hg' now ht.1
    · simp

theorem assertable_makeAllRunnable (now : Timestamp) {l : List StepRef}
    (hl : ∀ s ∈ l, (g.step s).Assertable) :
    ∀ x ∈ foldCalls (fun g s => g.makeRunnable now s) (fun g s => [g.step s]) g l,
      x.Assertable := by
  refine foldCalls_forall (I := Keeps Step.Settles g) (Keeps.refl Step.Settles.refl g)
    (fun g' s hs hk => ?_) (fun g' s hs hk x hx => ?_)
  · refine Keeps.trans (fun _ _ _ => Step.Settles.trans) hk (Settles.keeps_makeRunnable ?_ now)
    rw [(hk s).created]
    exact (hl s hs).1
  · rw [List.mem_singleton.mp hx]
    obtain ⟨hc, hf, hdeps⟩ := hl s hs
    exact ⟨(hk s).created.trans hc, (hk s).finished.trans hf,
      List.sublist_nil.mp (hdeps ▸ (hk s).deps)⟩

end Graph

/-! ## The invariant -/

/-- What has succeeded is not made runnable again. -/
structure MarkOrder (c : CreateState) : Prop where
  collects : ∀ s, c.creation.Collects s → (c.graph.step s).finished = false
  rdeps : c.graph.RdepsOpen
  unallocated : ∀ d, d ∉ c.graph.allocated → (c.graph.step d).rdeps = []

namespace MarkOrder

variable {cfg : Config} {c c' : CreateState} {r r' : Runner}

theorem init : MarkOrder ⟨{}, [], {}⟩ := by
  refine ⟨?_, ?_, fun _ _ => rfl⟩
  · simp [Creation.Collects]
  · intro d _ s hs
    cases hs

theorem of_settles (h : MarkOrder c) (hg : c.graph.Settles c'.graph)
    (hcollects : c.creation.KeepsCollected c'.creation) : MarkOrder c' where
  collects s hs := (hg.step s).finished.trans (h.collects s (hcollects s hs))
  rdeps := h.rdeps.of_keeps hg.step
  unallocated d hd := by
    rw [hg.allocated] at hd
    exact List.subset_nil.mp (h.unallocated d hd ▸ (hg.step d).rdeps)

/-- A step is marked that no live step refers to and no pass has collected,
or that cannot be marked as both. -/
theorem of_modify (h : MarkOrder c) {s : StepRef} {f : Step → Step}
    (hg : c'.graph = c.graph.modifyStep s f) (hrdeps : ∀ x, (f x).rdeps = x.rdeps)
    (halive : ∀ x, (f x).alive = x.alive)
    (hmarks : (f (c.graph.step s)).finished = true → (∀ d, (c.graph.step d).alive = true →
      s ∈ (c.graph.step d).rdeps → (f (c.graph.step s)).created = false))
    (hcollects : ∀ t, c'.creation.Collects t → c.creation.Collects t ∧
      (t = s → (f (c.graph.step s)).finished = false) ∨
      t = s ∧ (f (c.graph.step s)).finished = false) : MarkOrder c' := by
  have hself : c'.graph.step s = f (c.graph.step s) := by rw [hg, Graph.modifyStep_self]
  have hother : ∀ t, t ≠ s → c'.graph.step t = c.graph.step t := fun t ht => by
    rw [hg, Graph.modifyStep_step, if_neg ht]
  have hedges : ∀ d, (c'.graph.step d).rdeps = (c.graph.step d).rdeps ∧
      (c'.graph.step d).alive = (c.graph.step d).alive := by
    intro d
    by_cases hd : d = s
    · rw [hd, hself]
      exact ⟨hrdeps _, halive _⟩
    · rw [hother d hd]
      exact ⟨rfl, rfl⟩
  refine ⟨fun t ht => ?_, fun d hd t ht hc => ?_, fun d hd => ?_⟩
  · by_cases hts : t = s
    · rw [hts, hself]
      exact (hcollects t ht).elim (fun h => h.2 hts) (fun h => h.2)
    · rw [hother t hts]
      exact h.collects t ((hcollects t ht).resolve_right fun h => hts h.1).1
  · rw [(hedges d).2] at hd
    rw [(hedges d).1] at ht
    by_cases hts : t = s
    · subst hts
      rw [hself] at hc ⊢
      by_contra hf
      rw [hmarks (by simpa using hf) d hd ht] at hc
      cases hc
    · rw [hother t hts] at hc ⊢
      exact h.rdeps d hd t ht hc
  · rw [(hedges d).1]
    exact h.unallocated d (by rwa [hg] at hd)

/-- A call starts.  A step that refers to its inputs is not created yet. -/
theorem create (h : MarkOrder c) (hmaking : Making c) (hallocated : Allocated c)
    {drvPath : StorePath} {build : Option BuildRef} {parent : Option StepRef} {s : StepRef}
    {isNew : Bool} (hg : Graph.Created c.graph drvPath build parent c'.graph s isNew)
    (hparent : ∀ t, parent = some t → ∃ k, c.creation.making k = some t)
    (hcollects : c.creation.KeepsCollected c'.creation) : MarkOrder c' := by
  -- the marks of the other steps stay, and a new step has none
  have hmarks : ∀ t, (c'.graph.step t).created = true →
      (c'.graph.step t).created = (c.graph.step t).created ∧
        (c'.graph.step t).finished = (c.graph.step t).finished := by
    intro t hc
    rw [hg.step] at hc ⊢
    split_ifs at hc ⊢ with hts hnew
    · cases hc
    · subst hts
      exact ⟨rfl, rfl⟩
    · exact ⟨rfl, rfl⟩
  have hrdeps : ∀ d t, t ∈ (c'.graph.step d).rdeps → (c'.graph.step d).alive = true →
      (c.graph.step d).alive = true ∧ t ∈ (c.graph.step d).rdeps ∨ parent = some t := by
    intro d t ht hd
    rw [hg.step] at ht
    split_ifs at ht with hds hnew
    · rcases List.mem_append.mp ht with ht | ht
      · cases ht
      · exact Or.inr (Option.mem_toList.mp ht)
    · rcases List.mem_append.mp ht with ht | ht
      · subst hds
        have hfound := (Graph.findStep_eq_some.mp (hg.found (by simpa using hnew))).2
        exact Or.inl ⟨hfound, ht⟩
      · exact Or.inr (Option.mem_toList.mp ht)
    · rw [hg.step, if_neg hds] at hd
      exact Or.inl ⟨hd, ht⟩
  refine ⟨fun t ht => ?_, fun d hd t ht hc => ?_, fun d hd => ?_⟩
  · obtain ⟨hgen, -, -⟩ := hmaking.collects t (hcollects t ht)
    have hold := h.collects t (hcollects t ht)
    rw [hg.step]
    split_ifs with hts hnew
    · rfl
    · rw [← hts]
      exact hold
    · exact hold
  · obtain ⟨hcreated, hfinished⟩ := hmarks t hc
    rcases hrdeps d t ht hd with ⟨hd, ht⟩ | hp
    · rw [hfinished]
      exact h.rdeps d hd t ht (hcreated ▸ hc)
    · obtain ⟨k, hk⟩ := hparent t hp
      rw [hcreated, (hmaking.unmarked k t hk).1] at hc
      cases hc
  · rw [hg.allocated] at hd
    have hds : d ≠ s := by
      rintro rfl
      cases isNew with
      | true => exact hd (by simp)
      | false =>
        exact hd (hallocated.graph.steps drvPath d
          (Graph.findStep_eq_some.mp (hg.found rfl)).1)
    rw [hg.step, if_neg hds]
    refine h.unallocated d fun hmem => hd ?_
    split_ifs
    · exact List.mem_cons_of_mem _ hmem
    · exact hmem

/-- Every step of the creation. -/
theorem step (h : MarkOrder c) (hmaking : Making c) (hallocated : Allocated c)
    (hs : MakeStep c c') : MarkOrder c' := by
  -- no pass has collected a step that a call works on
  have hne : ∀ {k s t}, c.creation.making k = some s → c.creation.Collects t → t ≠ s := by
    rintro k s t hk ht rfl
    have hcreated := (hmaking.unmarked k t hk).1
    rw [(hmaking.collects t ht).2.1] at hcreated
    cases hcreated
  cases hs with
  | settles hg hm hcollects => exact h.of_settles hg hcollects
  | release l now hl hg hm hcollects =>
    refine h.of_settles ?_ hcollects
    rw [hg]
    exact .makeAllRunnable (fun s hs => (hmaking.collects s (hl s hs)).2.1) now
  | create hg hparent hm hcollects => exact h.create hmaking hallocated hg hparent hcollects
  | @finish k s hk hg hm hcollects =>
    refine h.of_modify hg (fun _ => rfl) (fun _ => rfl) (fun _ _ _ _ => ?_) fun t ht => ?_
    · exact (hmaking.unmarked k s hk).1
    · exact Or.inl ⟨hcollects t ht, fun hts => absurd hts (hne hk (hcollects t ht))⟩
  | @addDep k k' s dep child hk hchild hdep hg hm hcollects =>
    refine h.of_modify (f := fun r => { r with deps := _, depsLen := _ }) hg (fun _ => rfl)
      (fun _ => rfl) (fun _ _ _ _ => ?_) fun t ht => ?_
    · exact (hmaking.unmarked k s hk).1
    · exact Or.inl ⟨hcollects t ht, fun hts => absurd hts (hne hk (hcollects t ht))⟩
  | @complete k s hk hg hm hcollects =>
    have hfinished := (hmaking.unmarked k s hk).2
    refine h.of_modify hg (fun _ => rfl) (fun _ => rfl) (fun hf => ?_) fun t ht => ?_
    · simp only [hfinished] at hf
      cases hf
    · exact (hcollects t ht).imp (fun ht => ⟨ht, fun _ => hfinished⟩) fun hts => ⟨hts.1, hfinished⟩

/-- Every step of the runner that meets the condition. -/
theorem runnerStep (h : MarkOrder r.createState) (hmaking : Making r.createState)
    (hallocated : Allocated r.createState) {a : Action} (hmarked : MarkedLast r a)
    (hs : StepsStep r a r') : MarkOrder r'.createState := by
  cases hs with
  | make hm => exact h.step hmaking hallocated hm
  | @succeed t ans attempt report item ha ht hitem hg hcreation =>
    have hmarks : r.marks a = some item.stepInfo.step := by
      simp [ha, Runner.marks, ht, hitem]
    obtain ⟨hpasses, hrefs⟩ := hmarked _ hmarks
    refine h.of_modify hg (fun _ => rfl) (fun _ => rfl) (fun _ d hd hmem => ?_) fun s hs => ?_
    · by_cases hd' : d ∈ r.shared.graph.allocated
      · exact absurd hmem (hrefs d hd' hd)
      · rw [h.unallocated d hd'] at hmem
        cases hmem
    · rw [Runner.createState, hcreation] at hs
      refine Or.inl ⟨hs, ?_⟩
      rintro rfl
      obtain ⟨k, p, hp, hmem⟩ := hs
      exact absurd hmem (hpasses p (Map.mem_values_iff.mpr ⟨k, hp⟩))
  | fail tries after hitem hg hcreation =>
    refine h.of_modify hg (fun _ => rfl) (fun _ => rfl) (fun hf => ?_) fun s hs => ?_
    · cases hf
    · rw [Runner.createState, hcreation] at hs
      exact Or.inl ⟨hs, fun _ => rfl⟩
  | @drop d hheld hg hcreation =>
    have hsame : ∀ s, (r'.shared.graph.step s).created = (r.shared.graph.step s).created ∧
        (r'.shared.graph.step s).finished = (r.shared.graph.step s).finished ∧
        (r'.shared.graph.step s).rdeps = (r.shared.graph.step s).rdeps ∧
        ((r'.shared.graph.step s).alive = true → (r.shared.graph.step s).alive = true) := by
      intro s
      rw [hg, Graph.dropStep, Graph.modifyStep_step]
      split_ifs
      · exact ⟨rfl, rfl, rfl, by simp⟩
      · exact ⟨rfl, rfl, rfl, id⟩
    refine ⟨fun s hs => ?_, fun x hx s hs hc => ?_, fun x hx => ?_⟩
    · rw [Runner.createState, hcreation] at hs
      exact (hsame s).2.1.trans (h.collects s hs)
    · refine (hsame s).2.1.trans (h.rdeps x ((hsame x).2.2.2 hx) s ?_ ((hsame s).1 ▸ hc))
      exact (hsame x).2.2.1 ▸ hs
    · rw [Runner.createState, hg] at hx
      exact (hsame x).2.2.1.trans (h.unallocated x hx)

theorem reach (h : Lts.Reach (Runner.next cfg) MarkedLast {} r) : MarkOrder r.createState :=
  h.invariant_of_reach (I := fun r => MarkOrder r.createState) init
    fun _ _ _ hreach hs hmarked hnext => hs.runnerStep (Making.reach hreach)
      (Allocated.reach hreach) hmarked (runnerStep_of_next hnext).stepsStep

end MarkOrder

/-- The invariants give the property. -/
theorem MarkOrder.assertionsHold {cfg : Config} {r : Runner} (h : MarkOrder r.createState)
    (hmaking : Making r.createState) (hlife : Lifetimes r) : AssertionsHold cfg r := by
  intro a r' hnext x hx
  cases a with
  | create ca ans =>
    cases ca with
    | resumePass k =>
      simp only [Runner.makeRunnableCalls] at hx
      split at hx
      · cases hx
      · rename_i pass hpass
        split at hx
        · refine Graph.assertable_makeAllRunnable ans.now (fun s hs => ?_) x hx
          have hcollects : r.creation.Collects s := ⟨k, pass, hpass, hs⟩
          obtain ⟨-, hc, hdeps⟩ := hmaking.collects s hcollects
          exact ⟨hc, h.collects s hcollects, hdeps⟩
        · exact Graph.assertable_sweep h.rdeps ans.now ans.steps x hx
        · cases hx
    | _ => cases hx
  | call t ans =>
    simp only [Runner.makeRunnableCalls] at hx
    split at hx
    · rename_i a report item ht
      split_ifs at hx
      · refine Graph.assertable_makeRdepsRunnableCalls h.rdeps ans.now ?_ x hx
        refine hlife.live item.stepInfo ?_
        rw [Runner.live_iff, Runner.held_iff]
        exact Or.inl (Or.inr ⟨t, _, ht, by simp [CallTask.infos]⟩)
      · cases hx
    · cases hx
  | _ => cases hx

/-- When `succeed_step` only marks steps that no live step and no pass
refers to as waiting, the assertions hold at every call. -/
theorem assertionsHold_runs (cfg : Config) (r : Runner)
    (h : Lts.Reach (Runner.next cfg) MarkedLast {} r) : AssertionsHold cfg r :=
  (MarkOrder.reach h).assertionsHold (Making.reach h) (Lifetimes.reach h)

namespace Chain

/-- The input is found and freed, then `top` is built and succeeds. -/
def topSucceeds : List Action :=
  Sample.register :: toInput ++ inputFound ++ created ++ [Action.dropStep inputStep] ++ toMessage ++
    [Action.dispatch {}] ++ Sample.scheduled ++ [Action.completeBuild 0 0 .success {}, .call 0 {}]

end Chain

/-- A step with an input that succeeds. -/
theorem assertionsHold_runs_chain : ∃ r, Lts.Reach (Runner.next Chain.config) MarkedLast {} r ∧
    r.shared.log.succeeded = [Chain.topStep] ∧ AssertionsHold Chain.config r := by
  have hrun : (Lts.runWith (Runner.next Chain.config) MarkedLast {} Chain.topSucceeds).map
      (fun r => r.shared.log.succeeded) = some [Chain.topStep] := by
    decide +kernel
  obtain ⟨r, hr, hsucceeded⟩ := Option.map_eq_some_iff.mp hrun
  have hreach := Lts.reach_of_runWith hr
  exact ⟨r, hreach, hsucceeded, assertionsHold_runs Chain.config r hreach⟩

/-! ## A step that succeeds before its input is released

The database is slow, and `succeed_step` for `input` waits after it has
marked the step.  A build of `top` is created meanwhile: its input is
finished, so it does not wait for it, but `input` gets it as an `rdep`.
When `top` has succeeded, the first call goes on and makes it runnable. -/

namespace Overtaken

def input : StepRef := ⟨Chain.input, 1⟩

def top : StepRef := ⟨Chain.top, 3⟩

/-- The step of `input` is created, built, and marked as finished. -/
def inputMarked : List Action :=
  Sample.register :: [Action.create (.startPass [(1, Chain.input)]) {},
    .create (.resumePass 0) {},
    .create (.resumeBuild 1) {},
    .create (.resumeStep 2) {},
    .create (.resumeStep 2) { store := fun _ => false },
    .create (.resumeStep 2) {},
    .create (.resumeStep 2) {},
    .create (.resumeBuild 1) { ids := [1] },
    .create (.startNested 1) {},
    .create (.resumeBuild 1) {},
    .create (.resumePass 0) {},
    .create (.resumePass 0) { steps := [input] },
    .dispatch { steps := [input] }] ++ Sample.sent.tail ++ Sample.scheduled ++
  [Action.completeBuild 0 0 .success {}, .call 0 {}]

/-- A build of `top` is created. -/
def topCreated : List Action :=
  [.create (.startPass [(2, Chain.top)]) {},
    .create (.resumePass 3) {},
    .create (.resumeBuild 4) {},
    .create (.resumeStep 5) {},
    .create (.resumeStep 5) { store := fun _ => false },
    .create (.resumeStep 5) {},
    .create (.startInput 5) {},
    .create (.resumeStep 5) {},
    .create (.resumeStep 5) {},
    .create (.resumeBuild 4) { ids := [2] },
    .create (.startNested 4) {},
    .create (.resumeBuild 4) {},
    .create (.resumePass 3) {}]

/-- The pass of the dispatch loop ends, and the next one sends `top`. -/
def topSent : List Action :=
  [Action.dispatch { steps := [input, top] }] ++ List.replicate 5 (Action.dispatch {}) ++
  [Action.dispatch { steps := [input, top] },
    .dispatch {},
    .dispatch {},
    .dispatch {},
    .dispatch { system := "x86_64-linux" },
    .dispatch {},
    .dispatch {},
    .dispatch { systems := ["x86_64-linux"] }] ++ List.replicate 7 (Action.dispatch {})

/-- It succeeds, and the first call goes on up to its release. -/
def inputReleases : List Action :=
  [.completeBuild 1 0 .success {}, .call 1 {}, .call 0 {}, .call 0 {}, .call 0 {}]

end Overtaken

/-- `make_runnable` is called on a step that has succeeded. -/
theorem assertionsHold_fails : ¬∀ cfg r,
    Lts.Reach (Runner.next cfg) Lts.anyStep {} r → AssertionsHold cfg r := by
  intro hall
  have hrun : (Lts.run (Runner.next Chain.config) {} (Overtaken.inputMarked ++
      Overtaken.topCreated ++ Overtaken.topSent ++ Overtaken.inputReleases)).map (fun r =>
        ((r.next Chain.config (.call 0 {})).isSome,
          decide (∀ x ∈ r.makeRunnableCalls (.call 0 {}), x.Assertable))) =
      some (true, false) := by
    decide +kernel
  obtain ⟨r, hr, hcalls⟩ := Option.map_eq_some_iff.mp hrun
  rw [Prod.mk.injEq, Option.isSome_iff_exists, decide_eq_false_iff_not] at hcalls
  obtain ⟨⟨r', hnext⟩, hnot⟩ := hcalls
  exact hnot (hall Chain.config r (Lts.reach_of_run hr) (.call 0 {}) r' hnext)

end QueueRunner
