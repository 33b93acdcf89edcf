import QueueRunner.Causes
import QueueRunner.ErrorPaths

/-!
# Work remains

A step that is runnable is taken up only when `Steps` still has it.
`succeed_step` and `inner_fail_job` take steps from `Steps` by derivation
path, so a step can be taken in the place of another one with its path.  As
long as no two live steps have one path (`NewPaths`), this does not happen:
`Steps` then has, with a step, all the steps that it waits for and that have
not succeeded (`Graph.Closed`).

The derivations are acyclic, so together with `NoWakeupLost` this rules out a
deadlock.  When nothing is under way, `clone_runnable` finds a step below every
step of `Steps` that is not finished, unless a creation has broken off
(`work_remains_below`).
-/

namespace QueueRunner

/-! ## One live step a path -/

/-- `Steps::create` makes a new step only for a path that no live step has. -/
def NewPaths (cfg : Config) (r : Runner) : Action → Prop
  | .create a ans => ∀ c ∈ r.createState.next cfg ans a, ∀ s ∈ c.graph.allocated,
      s ∈ r.shared.graph.allocated ∨ ∀ t ∈ r.shared.graph.allocated,
        (r.shared.graph.step t).alive = true → t.drvPath ≠ s.drvPath
  | _ => True

instance (cfg : Config) (r : Runner) (a : Action) : Decidable (NewPaths cfg r a) :=
  match a with
  | .create a ans => inferInstanceAs (Decidable (∀ c ∈ r.createState.next cfg ans a,
      ∀ s ∈ c.graph.allocated, s ∈ r.shared.graph.allocated ∨
        ∀ t ∈ r.shared.graph.allocated, (r.shared.graph.step t).alive = true →
          t.drvPath ≠ s.drvPath))
  | .dispatch _ | .call _ _ | .completeBuild _ _ _ _ | .endStream _ | .queueChange _
  | .insertMachine _ _ _ | .dropStep _ | .dropBuild _ => inferInstanceAs (Decidable True)

/-- No two live steps have one path. -/
def Graph.Distinct (g : Graph) : Prop :=
  ∀ s ∈ g.allocated, ∀ t ∈ g.allocated, (g.step s).alive = true → (g.step t).alive = true →
    s.drvPath = t.drvPath → s = t

/-- A step of the runner makes one step at most. -/
theorem StepsStep.allocated {r r' : Runner} {a : Action} (h : StepsStep r a r') :
    r'.shared.graph.allocated = r.shared.graph.allocated ∨
      ∃ s, r'.shared.graph.allocated = s :: r.shared.graph.allocated := by
  cases h with
  | make hm =>
    cases hm with
    | settles hg => exact Or.inl hg.allocated
    | release l now hl hg =>
      have hmaps : Graph.SameMaps r.shared.graph
          (l.foldl (fun g s => g.makeRunnable now s) r.shared.graph) :=
        .foldl (fun g s => .makeRunnable g now s) _ _
      exact Or.inl ((congrArg Graph.allocated hg).trans hmaps.allocated)
    | @create drvPath build parent s isNew hg =>
      have hallocated : r'.shared.graph.allocated =
        if isNew then s :: r.shared.graph.allocated else r.shared.graph.allocated := hg.allocated
      cases isNew with
      | true => exact Or.inr ⟨s, hallocated⟩
      | false => exact Or.inl hallocated
    | finish hk hg => exact Or.inl ((congrArg Graph.allocated hg).trans rfl)
    | addDep hk hchild hdep hg => exact Or.inl ((congrArg Graph.allocated hg).trans rfl)
    | complete hk hg => exact Or.inl ((congrArg Graph.allocated hg).trans rfl)
  | succeed ha ht hitem hg => exact Or.inl ((congrArg Graph.allocated hg).trans rfl)
  | fail tries after hitem hg => exact Or.inl ((congrArg Graph.allocated hg).trans rfl)
  | drop hheld hg => exact Or.inl ((congrArg Graph.allocated hg).trans rfl)

/-- A new step has a path that no live step has. -/
theorem RunnerStep.newPath {cfg : Config} {r r' : Runner} {a : Action}
    (h : RunnerStep cfg r a r') (hnew : NewPaths cfg r a) {s : StepRef}
    (hs : s ∈ r'.shared.graph.allocated) : s ∈ r.shared.graph.allocated ∨
      ∀ t ∈ r.shared.graph.allocated, (r.shared.graph.step t).alive = true →
        t.drvPath ≠ s.drvPath := by
  by_cases ha : ∃ ca ans, a = .create ca ans
  · obtain ⟨ca, ans, rfl⟩ := ha
    cases h with
    | @create _ _ c hnext => exact hnew c hnext s hs
  · left
    generalize hg : r'.shared.graph = g at hs
    have hgraph := hg ▸ h.runnerGraph
    cases hgraph with
    | fades hfades => exact hfades.allocated ▸ hs
    | call ht hcall => exact hcall.noNewRefs.allocated ▸ hs
    | create hcreate => exact absurd ⟨_, _, rfl⟩ ha
    | dropStep s => exact hs
    | dropBuild b => exact hs

namespace Graph.Distinct

variable {cfg : Config} {r r' : Runner}

theorem init : ({} : Graph).Distinct := by simp [Graph.Distinct]

/-- Every step that meets the condition. -/
theorem step (h : r.shared.graph.Distinct) (hlinked : r.shared.graph.Linked) {a : Action}
    (hnew : NewPaths cfg r a) (hs : RunnerStep cfg r a r') : r'.shared.graph.Distinct := by
  have halive : ∀ s ∈ r.shared.graph.allocated, (r'.shared.graph.step s).alive = true →
      (r.shared.graph.step s).alive = true := fun s hmem =>
    (hs.runnerGraph.wakes s (hlinked.gen s hmem)).alive
  -- an old step and a new one
  have hmixed : ∀ s ∈ r.shared.graph.allocated, ∀ t ∈ r'.shared.graph.allocated,
      (r'.shared.graph.step s).alive = true → t ∉ r.shared.graph.allocated →
        s.drvPath ≠ t.drvPath := fun s hs' t ht hlive hnot =>
    (hs.newPath hnew ht).resolve_left hnot s hs' (halive s hs' hlive)
  intro s hs' t ht hlives hlivet hpath
  by_cases hold : s ∈ r.shared.graph.allocated
  · by_cases hold' : t ∈ r.shared.graph.allocated
    · exact h s hold t hold' (halive s hold hlives) (halive t hold' hlivet) hpath
    · exact absurd hpath (hmixed s hold t ht hlives hold')
  · by_cases hold' : t ∈ r.shared.graph.allocated
    · exact absurd hpath.symm (hmixed t hold' s hs' hlivet hold)
    · rcases hs.stepsStep.allocated with heq | ⟨u, heq⟩
      · exact absurd (heq ▸ hs') hold
      · rw [heq] at hs' ht
        obtain rfl := (List.mem_cons.mp hs').resolve_right hold
        exact ((List.mem_cons.mp ht).resolve_right hold').symm

theorem reach (h : Lts.Reach (Runner.next cfg) (NewPaths cfg) {} r) :
    r.shared.graph.Distinct := by
  refine h.invariant_of_reach (I := fun r => r.shared.graph.Distinct) init ?_
  intro r a r' hreach hr hnew hnext
  exact hr.step (Prioritised.linked_reach (hreach.mono fun _ _ _ => trivial)) hnew
    (runnerStep_of_next hnext)

end Graph.Distinct

/-! ## What is taken from `Steps` -/

namespace Graph

/-- With a step, `Steps` has the live steps that it waits for, unless they
are done. -/
def Closed (g : Graph) (done : List StepRef) : Prop :=
  ∀ s d, g.steps.lookup s.drvPath = some s → g.Rdep d s → (g.step d).alive = true → d ∉ done →
    g.steps.lookup d.drvPath = some d

/-- The graphs have the same steps. -/
structure SameSteps (g g' : Graph) : Prop where
  step : g'.step = g.step
  steps : g'.steps = g.steps
  allocated : g'.allocated = g.allocated
  allocatedBuilds : g'.allocatedBuilds = g.allocatedBuilds
  fresh : g'.fresh = g.fresh

/-- What becomes of `Steps` when no step is created. -/
inductive Delists (g g' : Graph) (fails succeeds : StepRef → Prop) : Prop where
  | same (hsteps : g'.steps = g.steps)
  | clone (hsteps : g'.steps = g.cloneRunnable.1.steps)
  | succeed {x : StepRef} (hx : succeeds x) (hsteps : g'.steps = g.steps.erase x.drvPath)
  /-- `inner_fail_job` looks for the builds that depend on its step. -/
  | fail {x : StepRef} {g₁ : Graph} (hx : fails x) (hsame : g.SameSteps g₁)
      (hsteps : g'.steps = (g₁.getAllIndirectBuilds x).1.steps)

namespace SameSteps

variable {g g' : Graph}

theorem refl (g : Graph) : g.SameSteps g := ⟨rfl, rfl, rfl, rfl, rfl⟩

theorem allocated' (h : g.SameSteps g') (halloc : g.Allocated) : g'.Allocated :=
  halloc.of_noNewRefs (.of_eq h.step h.steps h.allocated h.allocatedBuilds h.fresh)

theorem distinct (h : g.SameSteps g') (hdist : g.Distinct) : g'.Distinct := by
  unfold Distinct
  rw [h.step, h.allocated]
  exact hdist

end SameSteps

theorem sameSteps_finishBuilds (g : Graph) (bs : List BuildRef) :
    g.SameSteps (g.finishBuilds bs) :=
  List.foldlRecOn (motive := fun g' : Graph => g.SameSteps g') bs _ (.refl g)
    (fun _ h _ _ => ⟨h.step, h.steps, h.allocated, h.allocatedBuilds, h.fresh⟩)

theorem lookup_foldl_removeStep_of_ne (g : Graph) (l : List StepRef) {p : StorePath}
    (hp : ∀ t ∈ l, t.drvPath ≠ p) :
    (l.foldl (fun g t => g.removeStep t.drvPath) g).steps.lookup p = g.steps.lookup p := by
  induction l generalizing g with
  | nil => rfl
  | cons t l ih =>
    rw [List.foldl_cons, ih _ fun u hu => hp u (List.mem_cons_of_mem _ hu), removeStep,
      Map.lookup_erase_eq, if_neg (Ne.symm (hp t List.mem_cons_self))]

/-- A step that refers to a live one is live. -/
theorem Refers.alive {g : Graph} {x t : StepRef} (h : g.Refers x t)
    (hx : (g.step x).alive = true) : (g.step t).alive = true := by
  cases h with
  | refl => exact hx
  | tail _ hrdep => exact hrdep.2

theorem Refers.mem_allocated {g : Graph} (halloc : g.Allocated) {x t : StepRef}
    (h : g.Refers x t) (hx : x ∈ g.allocated) : t ∈ g.allocated := by
  cases h with
  | refl => exact hx
  | tail _ hrdep => exact halloc.rdeps _ _ hrdep.1

/-- When the dependents of a step leave the map, a step that stays there keeps
what it waits for: the walk goes from a step to all that wait for it. -/
theorem lookup_getAllIndirectBuilds {g : Graph} (halloc : g.Allocated) (hdist : g.Distinct)
    {x s d : StepRef} (hx : x ∈ g.allocated) (hxlive : (g.step x).alive = true)
    (hs : (g.getAllIndirectBuilds x).1.steps.lookup s.drvPath = some s) (hrdep : g.Rdep d s)
    (hlive : (g.step d).alive = true) (hd : g.steps.lookup d.drvPath = some d) :
    (g.getAllIndirectBuilds x).1.steps.lookup d.drvPath = some d := by
  unfold getAllIndirectBuilds at hs ⊢
  simp only at hs ⊢
  split_ifs at hs ⊢ with hnone
  · obtain ⟨hwalk, -⟩ := walked_getDependents (fun t u hu => halloc.rdeps t u hu.1) hx
    by_cases hvisited : ∃ t ∈ (g.getDependents x).steps, t.drvPath = d.drvPath
    · obtain ⟨t, ht, hpath⟩ := hvisited
      have hrefers : g.Refers x t := (hwalk.refers t ht).resolve_left (by simp)
      obtain rfl : t = d := hdist t (hrefers.mem_allocated halloc hx) d (halloc.steps _ _ hd)
        (hrefers.alive hxlive) hlive hpath
      obtain ⟨u, hu, hupath⟩ := ((hwalk.rdeps t ht).resolve_left (by simp)) s hrdep
      rw [← hupath, lookup_foldl_removeStep _ _ hu] at hs
      cases hs
    · rw [lookup_foldl_removeStep_of_ne _ _ fun t ht hpath => hvisited ⟨t, ht, hpath⟩]
      exact hd
  · exact hd

namespace Closed

variable {g g' : Graph} {done done' : List StepRef}

theorem init : ({} : Graph).Closed [] := by
  intro s d hs
  simp at hs

/-- No step is created, and what leaves the map is done or has no build that
waits for it. -/
theorem delists (h : g.Closed done) (halloc : g.Allocated) (hdist : g.Distinct)
    (hg : g.NoNewRefs g') (halive : ∀ t, (g'.step t).alive = true → (g.step t).alive = true)
    (hdone : done ⊆ done') {fails succeeds : StepRef → Prop} (hd : g.Delists g' fails succeeds)
    (hfails : ∀ x, fails x → x ∈ g.allocated ∧ (g.step x).alive = true)
    (hsucceeds : ∀ x, succeeds x → x ∈ done' ∧ x ∈ g.allocated ∧ (g.step x).alive = true) :
    g'.Closed done' := by
  intro s d hs hrdep hlive hnot
  have hrdep' : g.Rdep d s := ⟨(hg.step d).1 hrdep.1, halive s hrdep.2⟩
  have hlive' := halive d hlive
  have hthere : g.steps.lookup d.drvPath = some d :=
    h s d (hg.steps _ _ hs) hrdep' hlive' (fun hmem => hnot (hdone hmem))
  cases hd with
  | same hsteps => exact hsteps ▸ hthere
  | clone hsteps =>
    rw [hsteps]
    simp only [cloneRunnable, Map.lookup_retain, hthere, Option.filter_some, hlive', if_true]
  | @succeed x hx hsteps =>
    obtain ⟨hxdone, hxalloc, hxlive⟩ := hsucceeds x hx
    rw [hsteps, Map.lookup_erase_eq]
    split_ifs with hpath
    · obtain rfl := hdist d (halloc.steps _ _ hthere) x hxalloc hlive' hxlive hpath
      exact absurd hxdone hnot
    · exact hthere
  | @fail x g₁ hx hsame hsteps =>
    obtain ⟨hxalloc, hxlive⟩ := hfails x hx
    rw [hsteps] at hs ⊢
    refine lookup_getAllIndirectBuilds (hsame.allocated' halloc) (hsame.distinct hdist)
      (hsame.allocated ▸ hxalloc) (hsame.step ▸ hxlive) hs ?_ (hsame.step ▸ hlive')
      (hsame.steps ▸ hthere)
    rw [Rdep, hsame.step]
    exact hrdep'

/-- The map stays as it is, and no step waits for more. -/
theorem of_step (h : g.Closed done) (hrdeps : ∀ t, (g'.step t).rdeps ⊆ (g.step t).rdeps)
    (halive : ∀ t, (g'.step t).alive = true → (g.step t).alive = true)
    (hsteps : g'.steps = g.steps) : g'.Closed done := by
  intro s d hs hrdep hlive hnot
  rw [hsteps] at hs ⊢
  exact h s d hs ⟨hrdeps d hrdep.1, halive s hrdep.2⟩ (halive d hlive) hnot

theorem congr (h : g.Closed done) (hstep : g'.step = g.step) (hsteps : g'.steps = g.steps) :
    g'.Closed done :=
  h.of_step (fun _ => hstep ▸ List.Subset.refl _) (fun _ => hstep ▸ id) hsteps

/-- The same with a change of one step. -/
theorem modifyStep (h : g.Closed done) (s : StepRef) {f : Step → Step}
    (hrdeps : ∀ r, (f r).rdeps = r.rdeps) (halive : ∀ r, (f r).alive = true → r.alive = true) :
    (g.modifyStep s f).Closed done := by
  refine h.of_step (fun t => ?_) (fun t ht => ?_) rfl
  · rw [modifyStep_step]
    split_ifs with heq
    · rw [hrdeps, heq]
      exact List.Subset.refl _
    · exact List.Subset.refl _
  · rw [modifyStep_step] at ht
    split_ifs at ht
    · exact halive _ ht
    · exact ht

/-- `Steps::create` enters the step that it returns. -/
theorem created (h : g.Closed done) (halloc : g.Allocated)
    (hgen : ∀ t ∈ g.allocated, t.gen < g.fresh) {drvPath : StorePath}
    {build : Option BuildRef} {parent : Option StepRef} {c : StepRef} {isNew : Bool}
    (hc : Created g drvPath build parent g' c isNew) (hpath : c.drvPath = drvPath) :
    g'.Closed done := by
  intro s d hs hrdep hlive hnot
  rw [hc.steps, Map.lookup_insert_eq] at hs ⊢
  by_cases hdc : d = c
  · rw [hdc, if_pos hpath]
  have hstep : g'.step d = g.step d := by rw [hc.step, if_neg hdc]
  rw [hstep] at hlive
  have hmem : s ∈ (g.step d).rdeps := hstep ▸ hrdep.1
  -- the step that waits is old: it is the one that was found, or another one
  have hold : g.steps.lookup s.drvPath = some s ∧ (g.step s).alive = true := by
    by_cases hsc : s = c
    · cases isNew with
      | true =>
        have hlt := hgen s (halloc.rdeps d s hmem)
        rw [hsc, (hc.notFound rfl).2] at hlt
        exact absurd hlt (lt_irrefl _)
      | false =>
        rw [hsc, hpath]
        exact findStep_eq_some.mp (hc.found rfl)
    · refine ⟨?_, ?_⟩
      · split_ifs at hs with hsame
        · exact absurd (Option.some.inj hs).symm hsc
        · exact hs
      · have halive := hrdep.2
        rwa [hc.step, if_neg hsc] at halive
  have hthere := h s d hold.1 ⟨hmem, hold.2⟩ hlive hnot
  split_ifs with hsame
  · have hfind : g.findStep drvPath = some d := findStep_eq_some.mpr ⟨hsame ▸ hthere, hlive⟩
    cases isNew with
    | true =>
      rw [(hc.notFound rfl).1] at hfind
      cases hfind
    | false => exact (hc.found rfl).symm.trans hfind
  · exact hthere

end Closed

end Graph

/-- Every step of the creation. -/
theorem CreateGraph.closed {cfg : Config} {c : CreateState} {a : CreateAction} {g : Graph}
    {done : List StepRef} (h : CreateGraph c a g) (hclosed : c.graph.Closed done)
    (hok : CreateOk cfg c) (halloc : c.graph.Allocated)
    (hgen : ∀ t ∈ c.graph.allocated, t.gen < c.graph.fresh) : g.Closed done := by
  cases h with
  | same => exact hclosed
  | startPass rows =>
    obtain ⟨-, hstep, hsteps⟩ := c.startPass_grows rows
    exact hclosed.congr hstep hsteps
  | makeRunnable now steps =>
    have hnarrows : Graph.Keeps Step.Narrows c.graph
        (steps.foldl (fun g s => g.makeRunnable now s) c.graph) :=
      .foldl Step.Narrows.refl Step.Narrows.trans
        (fun g s => Graph.narrows_makeRunnable g now s) _ _
    have hbase : Graph.SameBase c.graph
        (steps.foldl (fun g s => g.makeRunnable now s) c.graph) :=
      .foldl Step.SameBase.refl (fun _ _ _ => Step.SameBase.trans)
        (fun g s => Graph.sameBase_makeRunnable g s now) _ _
    have hmaps : Graph.SameMaps c.graph
        (steps.foldl (fun g s => g.makeRunnable now s) c.graph) :=
      .foldl (fun g s => .makeRunnable g now s) _ _
    exact hclosed.of_step (fun t => (hnarrows t).1) (fun t ht => (hbase t).alive ▸ ht) hmaps.steps
  | sweep now order =>
    exact hclosed.of_step (fun t => (Graph.narrows_sweepSteps c.graph now order t).1)
      (fun t ht => (Graph.sameBase_sweepSteps c.graph now order t).alive ▸ ht)
      (Graph.SameMaps.sweepSteps c.graph now order).steps
  | finishInDb hcall => exact hclosed.congr rfl rfl
  | attach hcall hpc =>
    refine hclosed.congr ?_ ?_ <;>
    · simp only [CreateState.finishBuild]
      split_ifs <;> rfl
  | @created _ drvPath rb rs _ s isNew hcreated =>
    refine hclosed.created halloc hgen hcreated ?_
    cases isNew with
    | true => rw [(hcreated.notFound rfl).2]
    | false => exact (hok.graph.steps drvPath s
        (Graph.findStep_eq_some.mp (hcreated.found rfl)).1).1
  | setDrv step drv => exact hclosed.modifyStep step (fun _ => rfl) (fun _ => id)
  | setPreviousFailure step => exact hclosed.modifyStep step (fun _ => rfl) (fun _ => id)
  | setFinished step => exact hclosed.modifyStep step (fun _ => rfl) (fun _ => id)
  | addDep step dep =>
    unfold Graph.addDep
    exact hclosed.modifyStep step (fun _ => rfl) (fun _ => id)
  | setCreated step => exact hclosed.modifyStep step (fun _ => rfl) (fun _ => id)

/-! ## The steps that are failed -/

theorem InnerFail.loopHead_delists {s : Shared} {x : StepRef} (job : Job) (v : Bool)
    {g : Graph} (hsame : g.SameSteps s.graph) {fails succeeds : StepRef → Prop} (hx : fails x) :
    g.Delists (loopHead s x job v).1.graph fails succeeds := by
  refine .fail hx hsame ?_
  rw [loopHead_shared]

theorem InnerFail.start_delists {s : Shared} {x : StepRef} (job : Job)
    {fails succeeds : StepRef → Prop} (hx : fails x) :
    s.graph.Delists (start s x job).1.graph fails succeeds := by
  unfold start
  split_ifs
  · exact .same rfl
  · exact loopHead_delists job false (.refl _) hx

theorem InnerFail.resume_delists {s : Shared} {f : InnerFail} (ans : Answer)
    {fails succeeds : StepRef → Prop} (hx : fails f.step) :
    s.graph.Delists (f.resume s ans).1.graph fails succeeds := by
  unfold resume
  cases f.pc with
  | finishBuildStep =>
    by_cases hok : ans.ok = true
    · simp only [if_pos hok]
      exact loopHead_delists f.job false (.refl _) hx
    · simp only [if_neg hok]
      exact .same rfl
  | mark indirect =>
    by_cases hok : ans.ok = true
    · simp only [if_pos hok]
      exact loopHead_delists (s := { s with graph := s.graph.finishBuilds indirect }) f.job true
        (Graph.sameSteps_finishBuilds _ indirect) hx
    · simp only [if_neg hok]
      exact .same rfl
  | notify => exact .same rfl

theorem InnerFail.start_step (s : Shared) (x : StepRef) (job : Job) :
    (start s x job).2.step = x := (start_spec s x job).1

theorem InnerFail.resume_step {s : Shared} {f f' : InnerFail} {ans : Answer}
    (h : (f.resume s ans).2 = .running f') : f'.step = f.step := by
  unfold resume at h
  cases hpc : f.pc with
  | finishBuildStep =>
    simp only [hpc] at h
    split_ifs at h
    cases h
    exact loopHead_step ..
  | mark indirect =>
    simp only [hpc] at h
    split_ifs at h
    cases h
    exact loopHead_step ..
  | notify =>
    simp only [hpc] at h
    cases h

/-- The steps that the dispatch loop fails, or may yet fail. -/
def DispatchPc.failing : DispatchPc → List StepRef
  | .realise _ i _ => [i.step]
  | .abort _ todo _ => todo
  | .abortFail _ todo _ f => f.step :: todo
  | _ => []

/-- A cached failure is one of the step that is dispatched. -/
def DispatchPc.FailsOwn (d : DispatchPc) : Prop :=
  ∀ w i f, d = .realise w i (.cachedFailure f) → f.step = i.step

/-- The step that a call of `fail_step` fails. -/
def CallTask.failing : CallTask → Option StepRef
  | .fail _ (.removeJob item _) _ | .fail _ (.inner item _) _ => some item.stepInfo.step
  | _ => none

/-- What a step of the dispatch loop does to the steps that it fails. -/
structure Handles (s : Shared) (d : DispatchPc) (s' : Shared) (d' : DispatchPc) : Prop where
  failing : ∀ x ∈ d'.failing, x ∈ d.failing ∨ (∃ i, d'.info = some i ∧ i.step = x) ∨
    ∃ p, s.graph.steps.lookup p = some x ∧ (s.graph.step x).alive = true
  own : d'.FailsOwn
  delists : s.graph.Delists s'.graph (· ∈ d.failing) (fun _ => False)

namespace Handles

variable {cfg : Config} {s s' : Shared} {held : InfoRef → Bool} {d d' : DispatchPc}
  {ans : Answer}

/-- The loop takes up no step to fail. -/
theorem of_subset (hd : d'.failing ⊆ d.failing)
    (hcached : ∀ w i f, d' ≠ .realise w i (.cachedFailure f))
    (hdelists : s.graph.Delists s'.graph (· ∈ d.failing) (fun _ => False)) :
    Handles s d s' d' where
  failing _ hx := Or.inl (hd hx)
  own w i f h := absurd h (hcached w i f)
  delists := hdelists

/-- `Steps` stays as it is. -/
theorem quiet (hsteps : s'.graph.steps = s.graph.steps) (hd : d'.failing ⊆ d.failing)
    (hcached : ∀ w i f, d' ≠ .realise w i (.cachedFailure f)) : Handles s d s' d' :=
  .of_subset hd hcached (.same hsteps)

theorem of_walkStep (w w' : Walk) (i : InfoRef) :
    Handles s (.walk w') (walkStep cfg s held w i ans).1 (walkStep cfg s held w i ans).2 := by
  have hwalk : ∀ w₁ : Walk, Handles s (.walk w') s (.walk w₁) := fun w₁ =>
    .quiet rfl (List.Subset.refl _) (by simp)
  unfold walkStep realiseStart
  split_ifs
  · exact hwalk w
  · exact hwalk w
  · exact hwalk w
  · exact hwalk w
  · simp only
    split
    · exact .quiet rfl (List.Subset.refl _) (by simp)
    · split
      all_goals refine ⟨fun x hx => Or.inr (Or.inl ⟨i, rfl, ?_⟩), ?_, .same rfl⟩
      · exact (List.mem_singleton.mp hx).symm
      · intro _ _ _ h
        cases h
      · exact (List.mem_singleton.mp hx).symm
      · intro _ _ _ h
        cases h

theorem of_realiseResume (w : Walk) (i : InfoRef) (pc : RealisePc)
    (hown : (DispatchPc.realise w i pc).FailsOwn) :
    Handles s (.realise w i pc) (realiseResume s held w i pc ans).1
      (realiseResume s held w i pc ans).2 := by
  have hi : i.step ∈ (DispatchPc.realise w i pc).failing := List.mem_cons_self
  cases pc with
  | checkCached m job =>
    simp only [realiseResume]
    split_ifs
    · refine ⟨fun x hx => Or.inl hx, ?_, InnerFail.start_delists _ hi⟩
      intro w' i' f h
      cases h
      exact InnerFail.start_step ..
    · exact .quiet rfl (List.Subset.refl _) (by simp)
  | cachedFailure f =>
    have hf : f.step = i.step := hown w i f rfl
    have hdelists : s.graph.Delists (f.resume s ans).1.graph
        (· ∈ (DispatchPc.realise w i (.cachedFailure f)).failing) (fun _ => False) :=
      InnerFail.resume_delists ans (hf ▸ hi)
    simp only [realiseResume]
    split <;> rename_i heq <;> rw [heq] at hdelists
    · refine ⟨fun x hx => Or.inl hx, ?_, hdelists⟩
      intro w' i' f' h
      cases h
      exact (InnerFail.resume_step (by rw [heq])).trans hf
    · exact .of_subset (List.Subset.refl _) (by simp) hdelists
    · exact .of_subset (List.nil_subset _) (by simp) hdelists
  | prepare m job =>
    simp only [realiseResume]
    split_ifs
    · exact .quiet rfl (List.Subset.refl _) (by simp)
    · exact .quiet rfl (List.nil_subset _) (by simp)
  | send m job =>
    simp only [realiseResume]
    split_ifs
    · exact .quiet rfl (List.Subset.refl _) (by simp)
    · exact .quiet rfl (List.nil_subset _) (by simp)
  | sent m job => exact .quiet rfl (List.Subset.refl _) (by simp [realiseResume])
  | schedule m job => exact .quiet rfl (List.nil_subset _) (by simp [realiseResume])
  | remove => exact .quiet rfl (List.nil_subset _) (by simp [realiseResume])

theorem of_abortStep (now : Timestamp) (todo aborted : List StepRef) (x : StepRef) :
    Handles s (.abort now (x :: todo) aborted) (abortStep cfg s now todo aborted x ans).1
      (abortStep cfg s now todo aborted x ans).2 := by
  have hsub : todo ⊆ (DispatchPc.abort now (x :: todo) aborted).failing :=
    List.subset_cons_self _ _
  unfold abortStep
  split_ifs
  · exact .quiet rfl hsub (by simp)
  · exact .quiet rfl hsub (by simp)
  · simp only
    split
    · exact .quiet rfl hsub (by simp)
    · have hx : x ∈ (DispatchPc.abort now (x :: todo) aborted).failing := List.mem_cons_self
      refine .of_subset ?_ (by simp) ?_
      · simp only [DispatchPc.failing, InnerFail.start_step]
        exact List.Subset.refl _
      · exact InnerFail.start_delists (s := { s with nextUuid := s.nextUuid + 1 }) _ hx

/-- Every step of the dispatch loop. -/
theorem of_resume (hres : d.resume cfg s held ans = some (s', d')) (hown : d.FailsOwn) :
    Handles s d s' d' := by
  unfold DispatchPc.resume at hres
  cases d with
  | idle =>
    simp only at hres
    split_ifs at hres
    cases hres
    exact .of_subset (List.nil_subset _) (by simp) (.clone rfl)
  | collect now todo queues =>
    cases todo <;> cases hres <;> exact .quiet rfl (List.nil_subset _) (by simp)
  | insert now queues =>
    simp only at hres
    split_ifs at hres
    · cases hres
      exact .quiet rfl (List.nil_subset _) (by simp)
    · split at hres <;> cases hres
      exact .quiet rfl (List.nil_subset _) (by simp)
  | process =>
    simp only at hres
    split_ifs at hres
    split at hres <;> cases hres <;> exact .quiet rfl (List.nil_subset _) (by simp)
  | walk w =>
    simp only at hres
    split at hres
    · split_ifs at hres with hperm
      cases hres
      refine ⟨fun x hx => Or.inr (Or.inr ?_), ?_, .clone rfl⟩
      case refine_2 =>
        intro _ _ _ h
        cases h
      have hmem := (hperm.mem_iff (a := x)).mp hx
      simp only [Graph.cloneRunnable, List.mem_filter, Map.mem_values_iff] at hmem
      obtain ⟨⟨p, hp⟩, -⟩ := hmem
      rw [Map.lookup_retain, Option.filter_eq_some_iff] at hp
      exact ⟨p, hp.1, hp.2⟩
    · cases hres
      exact .quiet rfl (List.nil_subset _) (by simp)
    · rename_i i jobs hjobs
      have hwalk : Handles s (.walk w) (walkStep cfg s held { w with jobs := jobs } i ans).1
          (walkStep cfg s held { w with jobs := jobs } i ans).2 := of_walkStep ..
      rwa [Option.some.inj hres] at hwalk
  | realise w i pc =>
    have hrealise : Handles s (.realise w i pc) (realiseResume s held w i pc ans).1
        (realiseResume s held w i pc ans).2 := of_realiseResume w i pc hown
    rwa [Option.some.inj hres] at hrealise
  | abort now todo aborted =>
    cases todo with
    | nil =>
      cases hres
      exact .quiet rfl (List.nil_subset _) (by simp)
    | cons x todo =>
      have habort : Handles s (.abort now (x :: todo) aborted)
          (abortStep cfg s now todo aborted x ans).1
          (abortStep cfg s now todo aborted x ans).2 := of_abortStep now todo aborted x
      rwa [Option.some.inj hres] at habort
  | abortFail now todo aborted f =>
    have hf : f.step ∈ (DispatchPc.abortFail now todo aborted f).failing := List.mem_cons_self
    have hdelists : s.graph.Delists (f.resume s ans).1.graph
        (· ∈ (DispatchPc.abortFail now todo aborted f).failing) (fun _ => False) :=
      InnerFail.resume_delists ans hf
    simp only at hres
    split at hres <;> rename_i heq <;> cases hres <;> rw [heq] at hdelists
    · refine .of_subset ?_ (by simp) hdelists
      have hstep := InnerFail.resume_step (congrArg Prod.snd heq)
      simp only [DispatchPc.failing, hstep]
      exact List.Subset.refl _
    · exact .of_subset (List.subset_cons_self _ _) (by simp) hdelists
  | abortRemove aborted =>
    simp only at hres
    split_ifs at hres <;> cases hres <;> exact .quiet rfl (List.nil_subset _) (by simp)
  | _ =>
    cases hres
    exact .quiet rfl (List.nil_subset _) (by simp)

end Handles

/-- Every step of a call. -/
theorem CallTask.delists_of_resume {cfg : Config} {s : Shared} {held : InfoRef → Bool}
    {t : CallTask} {ans : Answer} {res : Shared × Option CallTask}
    (hres : t.resume cfg s held ans = some res) (hjustified : t.Justified cfg s.log) :
    s.graph.Delists res.1.graph (fun x => t.failing = some x) t.completes := by
  unfold CallTask.resume at hres
  cases t with
  | succeed a report pc =>
    cases hres
    cases pc with
    | start =>
      refine .same ?_
      simp only [succeedResume, succeedStart]
      split
      · rfl
      · split <;> rfl
    | removeJob item job =>
      refine .same ?_
      simp only [succeedResume]
      split <;> rfl
    | finishBuildStep item job =>
      simp only [succeedResume]
      split_ifs
      · exact .succeed (x := item.stepInfo.step) rfl rfl
      · exact .same rfl
      · exact .same rfl
    | markSucceeded item direct =>
      refine .same ?_
      simp only [succeedResume]
      split_ifs
      · exact (Graph.sameSteps_finishBuilds s.graph direct).steps
      · rfl
    | notify item =>
      refine .same ?_
      simp only [succeedResume]
      split_ifs
      · exact (Graph.SameMaps.makeRdepsRunnable s.graph ans.now item.stepInfo.step).steps
      · rfl
  | fail a pc caller =>
    cases hres
    cases pc with
    | start state timings =>
      refine .same ?_
      simp only [failResume, failStart]
      split
      · rfl
      · split
        · rfl
        · obtain ⟨tries, after, hg⟩ := failDecide_graph cfg _ a _ _ state timings caller ans
          rw [hg]
          rfl
    | retry item job => exact .same rfl
    | removeJob item job => exact InnerFail.start_delists (s := { s with
        queues := s.queues.removeJob held item.stepInfo item.buildQueue }) job rfl
    | inner item f =>
      have hdelists : s.graph.Delists (f.resume s ans).1.graph
          (fun x => (CallTask.fail a (.inner item f) caller).failing = some x)
          (CallTask.fail a (.inner item f) caller).completes :=
        InnerFail.resume_delists ans (congrArg some hjustified.1.symm)
      simp only [failResume]
      split <;> rename_i heq <;> rw [heq] at hdelists <;> exact hdelists
  | killStart =>
    simp only at hres
    split_ifs at hres
    cases hres
    exact .same rfl
  | kill todo cancelled =>
    cases todo with
    | nil =>
      cases hres
      exact .same rfl
    | cons e todo =>
      cases hres
      rw [killResume_shared]
      exact .same rfl
  | killAbort a machine todo cancelled =>
    simp only at hres
    split_ifs at hres <;> cases hres <;> exact .same rfl
  | tunnelClose machine =>
    cases hres
    exact .same rfl

/-- A call that fails or completes a step holds its info. -/
theorem CallTask.exists_info {t : CallTask} {x : StepRef}
    (h : t.failing = some x ∨ t.completes x) : ∃ i ∈ t.infos, i.step = x := by
  rcases h with h | h
  · unfold failing at h
    split at h
    · exact ⟨_, List.mem_cons_self, Option.some.inj h⟩
    · exact ⟨_, List.mem_cons_self, Option.some.inj h⟩
    · cases h
  · unfold completes at h
    split at h
    · cases h
    · exact ⟨_, List.mem_cons_self, h⟩
    · exact ⟨_, List.mem_cons_self, h⟩
    · exact ⟨_, List.mem_cons_self, h⟩
    · exact ⟨_, List.mem_cons_self, h⟩
    · cases h

/-- The step that a call completes has succeeded. -/
theorem CallTask.Justified.succeeded {cfg : Config} {log : Log} {t : CallTask}
    (h : t.Justified cfg log) {x : StepRef} (hx : t.completes x) : x ∈ log.succeeded := by
  unfold completes at hx
  split at hx
  · cases hx
  · exact hx ▸ h
  · exact hx ▸ h
  · exact hx ▸ h.1
  · exact hx ▸ h
  · cases hx

theorem CallGraph.alive {s : Shared} {t : CallTask} {g : Graph} (h : CallGraph s t g)
    (x : StepRef) : (g.step x).alive = (s.graph.step x).alive := by
  have hmodify : ∀ (y : StepRef) {f : Step → Step}, (∀ r, (f r).alive = r.alive) →
      ((s.graph.modifyStep y f).step x).alive = (s.graph.step x).alive := by
    intro y f hf
    rw [Graph.modifyStep_step]
    split_ifs with heq
    · rw [hf, heq]
    · rfl
  cases h with
  | fades hg => exact (hg.sameBase x).alive
  | succeeds a report item ht hitem hg =>
    rw [hg]
    exact hmodify _ fun _ => rfl
  | fails a state report caller item tries after ht hitem hg =>
    rw [hg]
    exact hmodify _ fun _ => rfl
  | releases a report item now ht hg =>
    rw [hg]
    exact (Graph.sameBase_makeRdepsRunnable _ _ now x).alive

/-! ## The invariant -/

/-- `Steps` misses no step that is waited for, and the steps that are failed
are alive. -/
structure Registers (r : Runner) : Prop where
  closed : r.shared.graph.Closed r.shared.log.succeeded
  info : ∀ i, r.live i = true → i.step ∈ r.shared.graph.allocated
  failing : ∀ x ∈ r.dispatcher.failing, x ∈ r.shared.graph.allocated ∧
    (r.shared.graph.step x).alive = true
  own : r.dispatcher.FailsOwn

namespace Registers

variable {cfg : Config} {r r' : Runner}

theorem init : Registers {} where
  closed := .init
  info i hi := by simp [Runner.live_iff, Runner.held_iff, DispatchPc.info, Runner.item] at hi
  failing := by simp [DispatchPc.failing]
  own _ _ _ h := by cases h

/-- The step of a live info was allocated and is alive. -/
theorem live (h : Registers r) (hlife : Lifetimes r) {i : InfoRef} (hi : r.live i = true) :
    i.step ∈ r.shared.graph.allocated ∧ (r.shared.graph.step i.step).alive = true :=
  ⟨h.info i hi, hlife.live i hi⟩

/-- The loop holds the steps that it fails. -/
theorem stepHeld_of_failing {x : StepRef} (hx : x ∈ r.dispatcher.failing) :
    r.stepHeld x = true := by
  cases hd : r.dispatcher with
  | realise w i pc =>
    rw [hd] at hx
    obtain rfl := List.mem_singleton.mp hx
    refine Lifetimes.stepHeld_of_live ((Runner.live_iff r i).mpr (Or.inl ?_))
    exact (Runner.held_iff r i).mpr (Or.inl (by rw [hd]; rfl))
  | abort now todo aborted =>
    rw [hd] at hx
    rw [Runner.stepHeld, decide_eq_true_eq, hd]
    exact Or.inr (Or.inl (List.mem_append_left _ hx))
  | abortFail now todo aborted f =>
    rw [hd] at hx
    rw [Runner.stepHeld, decide_eq_true_eq, hd]
    exact Or.inr (Or.inl (List.cons_subset_cons _ (List.subset_append_left _ _) hx))
  | _ =>
    rw [hd] at hx
    cases hx

/-- The map of the steps. -/
theorem closed_step (h : Registers r) (hok : RunnerOk cfg r) (hlife : Lifetimes r)
    (hblamed : Blamed cfg r) (halloc : Allocated r.createState)
    (hlinked : r.shared.graph.Linked) (hdist : r.shared.graph.Distinct) {a : Action}
    (hs : RunnerStep cfg r a r') : r'.shared.graph.Closed r'.shared.log.succeeded := by
  have hdone := (hs.verdicts_subset hok).1
  -- a step that leaves the log alone
  have hquiet : r'.shared.graph.Closed r.shared.log.succeeded →
      r'.shared.graph.Closed r'.shared.log.succeeded := by
    intro hclosed s d hsteps hrdep hlive hnot
    exact hclosed s d hsteps hrdep hlive fun hmem => hnot (hdone hmem)
  have hgraph := hs.runnerGraph
  cases hs with
  | dispatch hres =>
    have hfades := dispatch_fades hres
    exact h.closed.delists halloc.graph hdist (.of_fades hfades)
      (fun t ht => (hfades.sameBase t).alive ▸ ht) hdone (Handles.of_resume hres h.own).delists
      h.failing (fun _ hx => hx.elim)
  | @call t ans task res ht hres =>
    have hcall := callGraph_of_resume hres
    have hlive : ∀ {x}, task.failing = some x ∨ task.completes x →
        x ∈ r.shared.graph.allocated ∧ (r.shared.graph.step x).alive = true := by
      intro x hx
      obtain ⟨i, hi, rfl⟩ := CallTask.exists_info hx
      refine h.live hlife ((Runner.live_iff r i).mpr (Or.inl ?_))
      exact (Runner.held_iff r i).mpr (Or.inr ⟨t, task, ht, hi⟩)
    have hjustified := hblamed.calls t task ht
    exact h.closed.delists halloc.graph hdist hcall.noNewRefs
      (fun x hx => hcall.alive x ▸ hx) hdone (CallTask.delists_of_resume hres hjustified)
      (fun x hx => hlive (Or.inl hx))
      (fun x hx => ⟨hdone (hjustified.succeeded hx), hlive (Or.inr hx)⟩)
  | completeBuild uuid machineId state report =>
    obtain ⟨results, hshared, -⟩ := completeBuild_spec r.shared uuid machineId state report
    refine hquiet ?_
    rw [Runner.spawn_shared, hshared]
    exact h.closed
  | @endStream m hm =>
    obtain ⟨machines, task, hshared, -⟩ := endStream_spec r.shared m
    refine hquiet ?_
    rw [Runner.spawn_shared, hshared]
    exact h.closed
  | queueChange curIds =>
    refine hquiet ?_
    rw [Runner.spawn_shared]
    exact h.closed.congr rfl rfl
  | insertMachine id record sortFn => exact h.closed
  | create hnext =>
    have hcreate := (CreateState.createStep_of_next hnext).createGraph
    exact hquiet (hcreate.closed h.closed hok.create halloc.graph hlinked.gen)
  | dropStep hheld => exact h.closed.modifyStep _ (fun _ => rfl) (fun _ hr => by cases hr)
  | dropBuild hheld => exact h.closed.congr rfl rfl

/-- Every step that meets the condition. -/
theorem step (h : Registers r) (hok : RunnerOk cfg r) (hlife : Lifetimes r)
    (hblamed : Blamed cfg r) (halloc : Allocated r.createState)
    (hlinked : r.shared.graph.Linked) (hdist : r.shared.graph.Distinct)
    (hjobs : JobSteps (· ∈ r.shared.graph.allocated) r) {a : Action}
    (hs : RunnerStep cfg r a r') (hlife' : Lifetimes r') : Registers r' := by
  have hsub : r.shared.graph.allocated ⊆ r'.shared.graph.allocated :=
    halloc.subset_of_runnerGraph hs.runnerGraph
  have hinfo : ∀ i, r'.live i = true → i.step ∈ r'.shared.graph.allocated := by
    intro i hi
    rcases hs.live_cases hok hi with hold | ⟨-, system, jobs, info, hcollected, hmem⟩
    · exact hsub (h.info i hold)
    · exact hsub (hjobs.collected system jobs hcollected _ hmem)
  have hkeep : ∀ x ∈ r.dispatcher.failing, x ∈ r'.shared.graph.allocated ∧
      (r'.shared.graph.step x).alive = true := by
    intro x hx
    obtain ⟨hmem, hlive⟩ := h.failing x hx
    exact ⟨hsub hmem, (hs.stepsStep.alive hlive).resolve_right (by simp [stepHeld_of_failing hx])⟩
  have hclosed := h.closed_step hok hlife hblamed halloc hlinked hdist hs
  by_cases ha : ∃ ans, a = .dispatch ans
  · obtain ⟨ans, rfl⟩ := ha
    cases hs with
    | @dispatch _ s' d' hres =>
      have hhandles := Handles.of_resume hres h.own
      refine ⟨hclosed, hinfo, fun x hx => ?_, hhandles.own⟩
      rcases hhandles.failing x hx with hold | ⟨i, hi, rfl⟩ | ⟨p, hp, hlive⟩
      · exact hkeep x hold
      · have hlive : Runner.live { r with shared := s', dispatcher := d' } i = true :=
          (Runner.live_iff _ i).mpr (Or.inl ((Runner.held_iff _ i).mpr (Or.inl hi)))
        exact ⟨hinfo i hlive, hlife'.live i hlive⟩
      · exact ⟨hsub (halloc.graph.steps p x hp),
        ((dispatch_fades hres).sameBase x).alive.trans hlive⟩
  · have hd := hs.dispatcher_eq fun ans he => ha ⟨ans, he⟩
    exact ⟨hclosed, hinfo, fun x hx => hkeep x (hd ▸ hx), hd ▸ h.own⟩

theorem reach (h : Lts.Reach (Runner.next cfg) (NewPaths cfg) {} r) : Registers r := by
  refine h.invariant_of_reach init ?_
  intro r a r' hreach hr hnew hnext
  have hany := hreach.mono fun _ _ _ => trivial
  have hs := runnerStep_of_next hnext
  exact hr.step (RunnerOk.reach hreach) (Lifetimes.reach hreach) (Blamed.reach hreach)
    (Allocated.reach hreach) (Prioritised.linked_reach hany) (Graph.Distinct.reach hreach)
    (JobSteps.allocated hreach) hs (Lifetimes.reach (hreach.step a hnew hnext))

end Registers

/-! ## What a pass has collected -/

/-- The steps that the passes have collected are alive. -/
def CollectsLive (c : CreateState) : Prop :=
  ∀ s, c.creation.Collects s → s ∈ c.graph.allocated ∧ (c.graph.step s).alive = true

namespace CollectsLive

variable {cfg : Config} {r r' : Runner}

theorem init : CollectsLive ⟨{}, [], {}⟩ := by
  rintro s ⟨k, p, hp, -⟩
  simp at hp

/-- A pass holds what it has collected. -/
theorem stepHeld_of_collects {s : StepRef} (h : r.creation.Collects s) : r.stepHeld s = true := by
  obtain ⟨k, p, hp, hs⟩ := h
  have hsteps : s ∈ r.creation.steps' := by
    unfold Creation.steps'
    exact List.mem_append_right _ (List.mem_flatMap.mpr ⟨p, Map.mem_values_iff.mpr ⟨k, hp⟩, hs⟩)
  rw [Runner.stepHeld, decide_eq_true_eq]
  exact Or.inr (Or.inr (Or.inl hsteps))

/-- Every step of the runner. -/
theorem step (h : CollectsLive r.createState) (halloc : Allocated r.createState)
    (hedges : Edges cfg r.createState) {a : Action} (hs : RunnerStep cfg r a r') :
    CollectsLive r'.createState := by
  have hsub : r.shared.graph.allocated ⊆ r'.shared.graph.allocated :=
    halloc.subset_of_runnerGraph hs.runnerGraph
  -- what is collected is held, and was alive
  have hheld : ∀ s, r'.creation.Collects s → s ∈ r.shared.graph.allocated ∧
      (r.shared.graph.step s).alive = true ∧ r.stepHeld s = true := by
    have hold : ∀ s, r.creation.Collects s → s ∈ r.shared.graph.allocated ∧
        (r.shared.graph.step s).alive = true ∧ r.stepHeld s = true := fun s hs' =>
      ⟨(h s hs').1, (h s hs').2, stepHeld_of_collects hs'⟩
    intro s hcollects
    cases hs.stepsStep with
    | make hm =>
      cases hm with
      | @complete k t hk hg hmaking hnew =>
        rcases hnew s hcollects with hs' | ⟨rfl, -⟩
        · exact hold s hs'
        · obtain ⟨call, hcall, hpc⟩ := Creation.making_eq_some.mp hk
          have hstep := Edges.step?_of_making hpc
          exact ⟨Edges.mem_allocated_of_making halloc hk, (hedges.calls k call s hcall hstep).1,
            Edges.stepHeld_of_call hcall hstep⟩
      | settles hg hmaking hkeeps => exact hold s (hkeeps s hcollects)
      | release l now hl hg hmaking hkeeps => exact hold s (hkeeps s hcollects)
      | create hg hparent hmaking hkeeps => exact hold s (hkeeps s hcollects)
      | finish hk hg hmaking hkeeps => exact hold s (hkeeps s hcollects)
      | addDep hk hchild hdep hg hmaking hkeeps => exact hold s (hkeeps s hcollects)
    | succeed ha ht hitem hg hcreation => exact hold s (hcreation ▸ hcollects)
    | fail tries after hitem hg hcreation => exact hold s (hcreation ▸ hcollects)
    | drop hheld hg hcreation => exact hold s (hcreation ▸ hcollects)
  intro s hs'
  obtain ⟨hmem, hlive, hheld'⟩ := hheld s hs'
  exact ⟨hsub hmem, (hs.stepsStep.alive hlive).resolve_right (by simp [hheld'])⟩

theorem reach {ok : Runner → Action → Prop} (h : Lts.Reach (Runner.next cfg) ok {} r) :
    CollectsLive r.createState := by
  refine h.invariant_of_reach (I := fun r => CollectsLive r.createState) init ?_
  intro r a r' hreach hr _ hnext
  exact hr.step (Allocated.reach hreach) (Edges.reach hreach) (runnerStep_of_next hnext)

end CollectsLive

/-- All calls of `succeed_step` and all passes over the queue are over. -/
def Runner.AtRest (r : Runner) : Prop :=
  (∀ d, ¬r.Completing d) ∧ ¬r.creation.Busy

end QueueRunner
