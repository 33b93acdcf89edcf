import QueueRunner.JobSteps
import QueueRunner.Release

/-!
# The steps under construction

A new step is entered into `Steps` before its call of `create_step` knows
anything about it.  Until the call returns it is the only one that
finishes the step, gives it dependencies, or completes it; every other
call gets the step as it is.

`MakeStep` says what a step of the creation does to the steps.  The
invariants of their marks and dependencies use nothing else of
`CreateStep`.
-/

namespace QueueRunner

/-- The step that a call of `create_step` still works on. -/
def StepPc.making : StepPc → Option StepRef
  | .queryDrv s | .queryOutputs s _ | .checkCached s _ _ | .substitute s _ _
  | .inputs s _ _ => some s
  | .returned _ => none

namespace Creation

/-- The step that the call `k` works on. -/
def making (c : Creation) (k : CallId) : Option StepRef :=
  (c.steps.lookup k).bind (fun call => call.pc.making)

/-- A pass is going to make the step runnable. -/
def Collects (c : Creation) (s : StepRef) : Prop :=
  ∃ k p, c.passes.lookup k = some p ∧ s ∈ p.newRunnable

theorem making_of_lookup {c : Creation} {k : CallId} {call : StepCall}
    (h : c.steps.lookup k = some call) : c.making k = call.pc.making := by
  rw [making, h]
  rfl

theorem making_eq_some {c : Creation} {k : CallId} {s : StepRef} :
    c.making k = some s ↔
      ∃ call, c.steps.lookup k = some call ∧ call.pc.making = some s :=
  Option.bind_eq_some_iff

/-- Every call works on the step that it worked on before. -/
def KeepsMaking (c c' : Creation) : Prop := ∀ k s, c'.making k = some s → c.making k = some s

/-- No pass has collected more. -/
def KeepsCollected (c c' : Creation) : Prop := ∀ s, c'.Collects s → c.Collects s

theorem KeepsMaking.of_steps {c c' : Creation} (h : c'.steps = c.steps) : c.KeepsMaking c' := by
  intro k s hk
  rwa [making, h] at hk

theorem KeepsCollected.of_passes {c c' : Creation} (h : c'.passes = c.passes) :
    c.KeepsCollected c' := by
  rintro s ⟨k, p, hp, hs⟩
  exact ⟨k, p, h ▸ hp, hs⟩

/-- Calls go away. -/
theorem KeepsMaking.of_subset {c c' : Creation}
    (h : ∀ k call, c'.steps.lookup k = some call → c.steps.lookup k = some call) :
    c.KeepsMaking c' := by
  intro k s hk
  obtain ⟨call, hcall, hs⟩ := making_eq_some.mp hk
  exact making_eq_some.mpr ⟨call, h k call hcall, hs⟩

/-- A pass is written back with no more steps than it had. -/
theorem KeepsCollected.insert {c c' : Creation} {k : CallId} {p p' : Pass}
    (hp : c.passes.lookup k = some p) (h : c'.passes = c.passes.insert k p')
    (hsub : p'.newRunnable ⊆ p.newRunnable) : c.KeepsCollected c' := by
  rintro s ⟨k', q, hq, hs⟩
  rw [h, Map.lookup_insert_eq] at hq
  split_ifs at hq
  · cases hq
    exact ⟨k, p, hp, hsub hs⟩
  · exact ⟨k', q, hq, hs⟩

end Creation

/-! ## What happens to a step that no call works on -/

/-- A step that was created may become runnable, and dependencies go. -/
structure Step.Settles (r r' : Step) : Prop where
  created : r'.created = r.created
  finished : r'.finished = r.finished
  runnable : r'.runnable = true → r.runnable = true ∨ r.created = true
  deps : r'.deps.Sublist r.deps
  depsLen : r.depsLen = r.deps.length → r'.depsLen = r'.deps.length
  rdeps : r'.rdeps ⊆ r.rdeps
  alive : r'.alive = r.alive

namespace Step.Settles

variable {r r' r'' : Step}

/-- A change of other fields. -/
theorem of_eq (hcreated : r'.created = r.created) (hfinished : r'.finished = r.finished)
    (hrunnable : r'.runnable = r.runnable) (hdeps : r'.deps = r.deps)
    (hdepsLen : r'.depsLen = r.depsLen) (hrdeps : r'.rdeps = r.rdeps)
    (halive : r'.alive = r.alive) : Settles r r' where
  created := hcreated
  finished := hfinished
  runnable hr := Or.inl (hrunnable ▸ hr)
  deps := hdeps ▸ List.Sublist.refl _
  depsLen hlen := by rw [hdepsLen, hdeps, hlen]
  rdeps := hrdeps ▸ List.Subset.refl _
  alive := halive

theorem refl (r : Step) : Settles r r := of_eq rfl rfl rfl rfl rfl rfl rfl

theorem trans (h : Settles r r') (h' : Settles r' r'') : Settles r r'' where
  created := h'.created.trans h.created
  finished := h'.finished.trans h.finished
  runnable hr := by
    rcases h'.runnable hr with hr | hc
    · exact h.runnable hr
    · exact Or.inr (h.created ▸ hc)
  deps := h'.deps.trans h.deps
  depsLen hlen := h'.depsLen (h.depsLen hlen)
  rdeps := List.Subset.trans h'.rdeps h.rdeps
  alive := h'.alive.trans h.alive

end Step.Settles

/-- The same for all steps, and nothing is allocated or entered. -/
structure Graph.Settles (g g' : Graph) : Prop where
  step : Keeps Step.Settles g g'
  steps : ∀ p s, g'.steps.lookup p = some s → g.steps.lookup p = some s
  allocated : g'.allocated = g.allocated
  fresh : g.fresh ≤ g'.fresh

namespace Graph.Settles

variable {g g' : Graph}

theorem of_step (hstep : g'.step = g.step) (hsteps : g'.steps = g.steps)
    (hallocated : g'.allocated = g.allocated) (hfresh : g.fresh ≤ g'.fresh) : g.Settles g' where
  step _ := hstep ▸ .refl _
  steps _ _ hs := hsteps ▸ hs
  allocated := hallocated
  fresh := hfresh

theorem refl (g : Graph) : g.Settles g := of_step rfl rfl rfl (le_refl _)

theorem of_keeps (h : Keeps Step.Settles g g') (hmaps : g.SameMaps g') : g.Settles g' where
  step := h
  steps _ _ hs := hmaps.steps ▸ hs
  allocated := hmaps.allocated
  fresh := Nat.le_of_eq hmaps.fresh.symm

theorem of_fades (h : g.Fades g') : g.Settles g' where
  step t := by
    rw [h.step t]
    exact .of_eq rfl rfl rfl rfl rfl rfl rfl
  steps := h.steps
  allocated := h.allocated
  fresh := Nat.le_of_eq h.fresh.symm

theorem modifyStep (g : Graph) (s : StepRef) {f : Step → Step}
    (hf : Step.Settles (g.step s) (f (g.step s))) : g.Settles (g.modifyStep s f) :=
  of_keeps (Keeps.modifyStep Step.Settles.refl hf) (.modifyStep g s f)

/-- `make_runnable` for a step that was created. -/
theorem keeps_makeRunnable {s : StepRef} (hs : (g.step s).created = true) (now : Timestamp) :
    Keeps Step.Settles g (g.makeRunnable now s) := by
  unfold Graph.makeRunnable
  split_ifs
  · exact Keeps.refl Step.Settles.refl g
  · exact Keeps.modifyStep Step.Settles.refl ⟨rfl, rfl, fun _ => Or.inr hs,
      List.Sublist.refl _, id, List.Subset.refl _, rfl⟩

theorem keeps_releaseRdep (self : StepRef) (now : Timestamp) (g : Graph) (rdep : StepRef) :
    Keeps Step.Settles g (releaseRdep self now g rdep) := by
  have hdrop : Keeps Step.Settles g (g.modifyStep rdep (fun r => { r with
      deps := (g.step rdep).deps.filter (fun d => d.drvPath != self.drvPath)
      depsLen := ((g.step rdep).deps.filter
        (fun d => d.drvPath != self.drvPath)).length })) :=
    Keeps.modifyStep Step.Settles.refl ⟨rfl, rfl, Or.inl, List.filter_sublist,
      fun _ => rfl, List.Subset.refl _, rfl⟩
  unfold Graph.releaseRdep
  simp only
  split_ifs with halive hlast
  · exact Keeps.trans (fun _ _ _ => Step.Settles.trans) hdrop (keeps_makeRunnable hlast.2 now)
  · exact hdrop
  · exact Keeps.refl Step.Settles.refl g

theorem keeps_makeRdepsRunnable (g : Graph) (now : Timestamp) (s : StepRef) :
    Keeps Step.Settles g (g.makeRdepsRunnable now s) := by
  unfold Graph.makeRdepsRunnable
  split_ifs
  · refine Keeps.trans (fun _ _ _ => Step.Settles.trans)
      (Keeps.foldl Step.Settles.refl (fun _ _ _ => Step.Settles.trans)
        (keeps_releaseRdep s now) (g.step s).rdeps g) ?_
    exact Keeps.modifyStep Step.Settles.refl ⟨rfl, rfl, Or.inl, List.Sublist.refl _, id,
      List.filter_subset_self _, rfl⟩
  · exact Keeps.refl Step.Settles.refl g

theorem makeRdepsRunnable (g : Graph) (now : Timestamp) (s : StepRef) :
    g.Settles (g.makeRdepsRunnable now s) :=
  of_keeps (keeps_makeRdepsRunnable g now s) (.makeRdepsRunnable g now s)

theorem sweepStep (g : Graph) (now : Timestamp) (s : StepRef) :
    Keeps Step.Settles g (sweepStep now g s) := by
  unfold Graph.sweepStep
  split_ifs
  · exact keeps_makeRdepsRunnable g now s
  · exact Keeps.refl Step.Settles.refl g

theorem sweepSteps (g : Graph) (now : Timestamp) (order : List StepRef) :
    g.Settles (g.sweepSteps now order) :=
  of_keeps (Keeps.foldl Step.Settles.refl (fun _ _ _ => Step.Settles.trans)
    (fun g s => sweepStep g now s) order g) (.sweepSteps g now order)

/-- The loop over `new_runnable`. -/
theorem makeAllRunnable {l : List StepRef} (hl : ∀ s ∈ l, (g.step s).created = true)
    (now : Timestamp) : g.Settles (l.foldl (fun g s => g.makeRunnable now s) g) := by
  refine of_keeps ?_ (.foldl (fun g s => .makeRunnable g now s) l g)
  induction l generalizing g with
  | nil => exact Keeps.refl Step.Settles.refl g
  | cons s l ih =>
    have hone := keeps_makeRunnable (hl s List.mem_cons_self) now
    refine Keeps.trans (fun _ _ _ => Step.Settles.trans) hone (ih fun t ht => ?_)
    rw [(hone t).created]
    exact hl t (List.mem_cons_of_mem _ ht)

end Graph.Settles

/-! ## The steps of the creation -/

open CreateState

/-- What a step of the creation does to the steps. -/
inductive MakeStep (c c' : CreateState) : Prop where
  | settles (hg : c.graph.Settles c'.graph) (hmaking : c.creation.KeepsMaking c'.creation)
      (hcollects : c.creation.KeepsCollected c'.creation)
  /-- A pass makes the steps runnable that it has collected. -/
  | release (l : List StepRef) (now : Timestamp) (hl : ∀ s ∈ l, c.creation.Collects s)
      (hg : c'.graph = l.foldl (fun g s => g.makeRunnable now s) c.graph)
      (hmaking : c.creation.KeepsMaking c'.creation)
      (hcollects : c.creation.KeepsCollected c'.creation)
  /-- A call starts and gets its step from `Steps::create`. -/
  | create {drvPath : StorePath} {build : Option BuildRef} {parent : Option StepRef}
      {s : StepRef} {isNew : Bool}
      (hg : Graph.Created c.graph drvPath build parent c'.graph s isNew)
      (hparent : ∀ t, parent = some t → ∃ k, c.creation.making k = some t)
      (hmaking : ∀ k t, c'.creation.making k = some t → c.creation.making k = some t ∨
        k = c.creation.fresh ∧ t = s ∧ isNew = true)
      (hcollects : c.creation.KeepsCollected c'.creation)
  /-- The outputs of the step are there. -/
  | finish {k : CallId} {s : StepRef} (hk : c.creation.making k = some s)
      (hg : c'.graph = c.graph.setFinished s true)
      (hmaking : ∀ k' t, c'.creation.making k' = some t → c.creation.making k' = some t ∧ k' ≠ k)
      (hcollects : c.creation.KeepsCollected c'.creation)
  | addDep {k k' : CallId} {s dep : StepRef} {child : StepCall}
      (hk : c.creation.making k = some s)
      (hchild : c.creation.steps.lookup k' = some child) (hdep : child.pc.step? = some dep)
      (hg : c'.graph = c.graph.addDep s dep) (hmaking : c.creation.KeepsMaking c'.creation)
      (hcollects : c.creation.KeepsCollected c'.creation)
  | complete {k : CallId} {s : StepRef} (hk : c.creation.making k = some s)
      (hg : c'.graph = c.graph.setCreated s)
      (hmaking : ∀ k' t, c'.creation.making k' = some t → c.creation.making k' = some t ∧ k' ≠ k)
      (hcollects : ∀ t, c'.creation.Collects t → c.creation.Collects t ∨
        t = s ∧ (c.graph.step s).depsLen = 0)

/-- The calls after one of them was written back. -/
theorem CreateState.making_setStepCall (c : CreateState) (k k' : CallId) (call : StepCall) :
    (c.setStepCall k call).creation.making k' =
      if k' = k then call.pc.making else c.creation.making k' := by
  rw [Creation.making, setStepCall_steps, Map.lookup_insert_eq]
  split_ifs <;> rfl

/-- A call goes on with its step, or returns. -/
theorem CreateState.keepsMaking_setStepCall {c : CreateState} {k : CallId} {call call' : StepCall}
    (hcall : c.creation.steps.lookup k = some call)
    (h : ∀ s, call'.pc.making = some s → call.pc.making = some s) :
    c.creation.KeepsMaking (c.setStepCall k call').creation := by
  intro k' s hk
  rw [making_setStepCall] at hk
  split_ifs at hk with he
  · rw [he, Creation.making_of_lookup hcall]
    exact h s hk
  · exact hk

/-- A call returns. -/
theorem CreateState.making_returnStep {c : CreateState} {k k' : CallId} {call : StepCall}
    {r : CreateStepResult} {s : StepRef}
    (h : (c.returnStep k call r).creation.making k' = some s) :
    c.creation.making k' = some s ∧ k' ≠ k := by
  rw [returnStep, making_setStepCall] at h
  split_ifs at h with he
  · cases h
  · exact ⟨h, he⟩

theorem CreateState.loadBuilds_newRunnable (rows : List (BuildID × StorePath))
    (acc : Graph × Pass) :
    (rows.foldl loadBuild acc).2.newRunnable = acc.2.newRunnable ∧
      (rows.foldl loadBuild acc).1.allocated = acc.1.allocated := by
  induction rows generalizing acc with
  | nil => exact ⟨rfl, rfl⟩
  | cons row rows ih => exact ih (loadBuild acc row)

/-- A pass collects one more step. -/
theorem CreateState.collects_insertNewRunnable {c : CreateState} {k k' : CallId} {s t : StepRef}
    {p : Pass} (hp : (c.insertNewRunnable k s).creation.passes.lookup k' = some p)
    (ht : t ∈ p.newRunnable) : c.creation.Collects t ∨ t = s := by
  unfold insertNewRunnable at hp
  split at hp
  · rename_i q hq
    rw [setPass_passes, Map.lookup_insert_eq] at hp
    split_ifs at hp
    · cases hp
      simp only [insertStep] at ht
      split_ifs at ht
      · exact Or.inl ⟨k, q, hq, ht⟩
      · rcases List.mem_append.mp ht with ht | ht
        · exact Or.inl ⟨k, q, hq, ht⟩
        · exact Or.inr (List.mem_singleton.mp ht)
    · exact Or.inl ⟨k', p, hp, ht⟩
  · exact Or.inl ⟨k', p, hp, ht⟩

/-- The start of a call of `create_step`, whose caller is written back. -/
theorem CreateState.Started.makeStep {c c₁ c' : CreateState} {pass build : CallId}
    {callers : List CallId} {drvPath : StorePath} {rb : Option BuildRef}
    {rs : Option StepRef} {pc : StepPc}
    (h : Started c pass build callers drvPath rb rs c₁ pc)
    (hparent : ∀ t, rs = some t → ∃ k, c.creation.making k = some t)
    (hgraph : c'.graph = c₁.graph) (hpasses : c'.creation.passes = c₁.creation.passes)
    (hmaking : ∀ k t, c'.creation.making k = some t →
      c.creation.making k = some t ∨ c₁.creation.making k = some t) : MakeStep c c' := by
  have hcollects : c.creation.KeepsCollected c'.creation :=
    .of_passes (hpasses.trans h.passes)
  have hcall : ∀ k t, c₁.creation.making k = some t →
      c.creation.making k = some t ∨ k = c.creation.fresh ∧ pc.making = some t := by
    intro k t hk
    rw [Creation.making, h.steps, Map.lookup_insert_eq] at hk
    split_ifs at hk with he
    · exact Or.inr ⟨he, hk⟩
    · exact Or.inl hk
  rcases h.result with ⟨rfl, hg, -⟩ | ⟨s, isNew, hcreated, hpc⟩
  · refine .settles ?_ (fun k t hk => ?_) hcollects
    · rw [hgraph, hg]
      exact .refl _
    · rcases hmaking k t hk with hk | hk
      · exact hk
      · exact (hcall k t hk).resolve_right (by simp [StepPc.making])
  · refine .create (hgraph ▸ hcreated) hparent (fun k t hk => ?_) hcollects
    rcases hmaking k t hk with hk | hk
    · exact Or.inl hk
    · refine (hcall k t hk).imp id fun ⟨he, ht⟩ => ⟨he, ?_⟩
      rw [hpc] at ht
      cases isNew with
      | true =>
        cases ht
        exact ⟨rfl, rfl⟩
      | false => cases ht

/-- A call goes on with its step while the graph settles. -/
theorem MakeStep.goesOn {c : CreateState} {g : Graph} {present : List StorePath} {k : CallId}
    {call call' : StepCall} (hg : c.graph.Settles g)
    (hcall : c.creation.steps.lookup k = some call)
    (hpc : ∀ s, call'.pc.making = some s → call.pc.making = some s) :
    MakeStep c (({ c with graph := g, present := present } : CreateState).setStepCall k call') :=
  .settles hg (keepsMaking_setStepCall (c := { c with graph := _, present := _ }) hcall hpc)
    (.of_passes rfl)

section

variable {c : CreateState} {k k' : CallId} {call child : StepCall} {step : StepRef}
  {drvPath : StorePath} {todo : List StorePath} {calls : List (StorePath × CallId)}

/-- A new pass has collected no step. -/
theorem CreateState.makeStep_startPass (rows : List (BuildID × StorePath)) :
    MakeStep c (c.startPass rows) := by
  obtain ⟨hgrows, hstep, hsteps⟩ := c.startPass_grows rows
  refine .settles (.of_step hstep hsteps (loadBuilds_newRunnable rows _).2 hgrows.fresh)
    (.of_steps rfl) ?_
  rintro s ⟨k, p, hp, hs⟩
  rw [CreateState.startPass, setPass_passes, Map.lookup_insert_eq] at hp
  split_ifs at hp
  · cases hp
    rw [(loadBuilds_newRunnable rows _).1] at hs
    cases hs
  · exact ⟨k, p, hp, hs⟩

/-- The call of an input starts, and the one that starts it goes on. -/
theorem CreateState.makeStep_startInput (hcall : c.creation.steps.lookup k = some call)
    (hpc : call.pc.making = some step) {pc : StepPc} (hmake : pc.making = some step) :
    MakeStep c ((c.startStep call.pass call.build (k :: call.callers) drvPath none
      (some step)).1.setStepCall k { call with pc := pc }) := by
  obtain ⟨pc', hstart⟩ := c.started_startStep call.pass call.build (k :: call.callers) drvPath
    none (some step)
  have hk : c.creation.making k = some step := (Creation.making_of_lookup hcall).trans hpc
  refine hstart.makeStep ?_ rfl rfl fun k' t hk' => ?_
  · rintro t ⟨⟩
    exact ⟨k, hk⟩
  · rw [making_setStepCall] at hk'
    split_ifs at hk' with he
    · left
      rw [he, hk, ← hk', hmake]
    · exact Or.inr hk'

/-- The outputs are there, or the inputs come next. -/
theorem CreateState.makeStep_decideStep (hcall : c.creation.steps.lookup k = some call)
    (hpc : call.pc.making = some step) (drv : Derivation) (finished : Bool) :
    MakeStep c (c.decideStep k call step drv finished) := by
  cases finished with
  | false =>
    refine .goesOn (.refl _) hcall ?_
    rw [hpc]
    exact fun _ => id
  | true =>
    have hframe := c.insertFinishedDrv_frame call.pass call.drvPath
    refine .finish ((Creation.making_of_lookup hcall).trans hpc) ?_ (fun k' t hk' => ?_) ?_
    · simp only [decideStep, if_true, returnStep, setStepCall_graph, hframe.1]
    · obtain ⟨hm, hne⟩ := making_returnStep hk'
      rw [Creation.making, hframe.2.2.1] at hm
      exact ⟨hm, hne⟩
    · unfold decideStep insertFinishedDrv
      rw [if_pos rfl]
      split
      · rename_i p hp
        exact .insert hp rfl (List.Subset.refl _)
      · exact .of_passes rfl

/-- The result of an input becomes a dependency, or it ends the call. -/
theorem CreateState.makeStep_takeInput {r : CreateStepResult}
    (hcall : c.creation.steps.lookup k = some call)
    (hpc : call.pc = .inputs step todo ((drvPath, k') :: calls))
    (hchild : c.creation.steps.lookup k' = some child) (hresult : child.pc = .returned r) :
    MakeStep c ((c.takeStepCall k').takeInput k call step todo calls r) := by
  have hsub : ∀ k₀ call₀, (c.takeStepCall k').creation.steps.lookup k₀ = some call₀ →
      c.creation.steps.lookup k₀ = some call₀ := by
    intro k₀ call₀ hk₀
    rw [takeStepCall_steps, Map.lookup_erase_eq] at hk₀
    split_ifs at hk₀
    exact hk₀
  have hk : c.creation.making k = some step := by
    rw [Creation.making_of_lookup hcall, hpc]
    rfl
  -- the call goes on with its step
  have hgoes : ∀ {c₁ : CreateState}, c₁.creation.steps = (c.takeStepCall k').creation.steps →
      c.creation.KeepsMaking
        (c₁.setStepCall k { call with pc := .inputs step todo calls }).creation := by
    intro c₁ hc₁ k₀ s hk₀
    rw [making_setStepCall] at hk₀
    split_ifs at hk₀ with he
    · cases hk₀
      exact he ▸ hk
    · rw [Creation.making, hc₁] at hk₀
      exact Creation.KeepsMaking.of_subset hsub k₀ s hk₀
  unfold CreateState.takeInput
  cases r with
  | none => exact .settles (.refl _) (hgoes rfl) (.of_passes rfl)
  | valid dep =>
    simp only
    split_ifs
    · exact .addDep hk hchild (by rw [hresult]; rfl) rfl (hgoes rfl) (.of_passes rfl)
    · exact .settles (.refl _) (hgoes rfl) (.of_passes rfl)
  | previousFailure failed =>
    refine .settles (.refl _) (fun k₀ s hk₀ => ?_) (.of_passes rfl)
    obtain ⟨hm, -⟩ := making_returnStep hk₀
    refine Creation.KeepsMaking.of_subset (fun k₁ call₁ hk₁ => ?_) k₀ s hm
    simp only [dropCallees, Map.lookup_retain, Option.filter_eq_some_iff] at hk₁
    exact hsub k₁ call₁ hk₁.1

/-- The step is complete, and the pass collects it when it has no
dependency. -/
theorem CreateState.makeStep_finishStep (hcall : c.creation.steps.lookup k = some call)
    (hpc : call.pc.making = some step) : MakeStep c (c.finishStep k call step) := by
  have hnew := insertNewRunnable_frame { c with graph := c.graph.setCreated step } call.pass step
  have hdeps : ((c.graph.setCreated step).step step).depsLen = (c.graph.step step).depsLen := by
    rw [Graph.setCreated, Graph.modifyStep_self]
  refine .complete ((Creation.making_of_lookup hcall).trans hpc) ?_ (fun k' t hk' => ?_) ?_
  · simp only [finishStep, returnStep, setStepCall_graph, (insertNewStep_frame _ _ _).1]
    split_ifs
    · exact hnew.1
    · rfl
  · obtain ⟨hm, hne⟩ := making_returnStep hk'
    rw [Creation.making, (insertNewStep_frame _ _ _).2.2.1] at hm
    refine ⟨?_, hne⟩
    split_ifs at hm
    · rwa [hnew.2.2.1] at hm
    · exact hm
  · rintro t ⟨k', p, hp, ht⟩
    simp only [finishStep, returnStep, setStepCall_passes,
      (insertNewStep_frame _ _ _).2.2.2.1] at hp
    split_ifs at hp with hlen
    · exact collects_insertNewRunnable hp ht |>.imp id fun he => ⟨he, hdeps ▸ hlen⟩
    · exact Or.inl ⟨k', p, hp, ht⟩

end

/-- Every step of the creation. -/
theorem CreateStep.makeStep {cfg : Config} {c c' : CreateState} {ans : Answer}
    {a : CreateAction} (h : CreateStep cfg c ans a c') : MakeStep c c' := by
  cases h with
  | startPass rows => exact makeStep_startPass rows
  | skipBuild hpass htodo hwaiting hid =>
    exact .settles (.refl _) (.of_steps rfl) (.insert hpass rfl (List.nil_subset _))
  | nextBuild hpass htodo hwaiting hid =>
    exact .settles (.refl _) (.of_steps rfl) (.insert hpass rfl (List.nil_subset _))
  | @makeRunnable k k' pass call now todo hpass hwaiting hcall hpc =>
    exact .release pass.newRunnable now (fun s hs => ⟨k, pass, hpass, hs⟩) rfl (.of_steps rfl)
      (.insert hpass rfl (List.Subset.refl _))
  | @sweep k pass now order hpass hwaiting htodo horder =>
    refine .settles (.sweepSteps _ now order) (.of_steps rfl) ?_
    rintro s ⟨k', p, hp, hs⟩
    rw [Map.lookup_erase_eq] at hp
    split_ifs at hp
    exact ⟨k', p, hp, hs⟩
  | startNested hcall hpc hlength hpass hid =>
    exact .settles (.refl _) (.of_steps rfl) (.insert hpass rfl (List.Subset.refl _))
  | moveBuild ha hcall hmove => exact .settles (.refl _) (.of_steps rfl) (.of_passes rfl)
  | finishInDb hcall hpc =>
    exact .settles (.of_step rfl rfl rfl (le_refl _)) (.of_steps rfl) (.of_passes rfl)
  | @startToplevel k call hcall hpc =>
    obtain ⟨pc, hstart⟩ := c.started_startStep call.pass k [] call.build.drvPath
      (some call.build) none
    exact hstart.makeStep (by simp) rfl rfl fun _ _ => Or.inr
  | takeToplevel r hcall hpc hchild hresult hmove =>
    refine .settles (.refl _) (.of_subset fun k call hk => ?_) (.of_passes rfl)
    rw [setBuildCall_steps, takeStepCall_steps, Map.lookup_erase_eq] at hk
    split_ifs at hk
    exact hk
  | takeNested hcall hpc hchild hresult =>
    exact .settles (.refl _) (.of_steps rfl) (.of_passes rfl)
  | @attach k call step hcall hpc =>
    refine .settles ?_ (.of_steps rfl) (.of_passes rfl)
    simp only [finishBuild, setBuildCall_graph]
    split_ifs <;> exact .of_step rfl rfl rfl (le_refl _)
  | startInput hcall hpc hlength =>
    exact makeStep_startInput hcall (by rw [hpc]; rfl) rfl
  | readDrv hcall hpc hok => exact .goesOn (.refl _) hcall (by rw [hpc]; exact fun _ => id)
  | unreadable hcall hpc hok => exact .goesOn (.refl _) hcall (by simp [StepPc.making])
  | @setDrv k call step drv hcall hpc =>
    refine .goesOn (.modifyStep _ step (f := fun r => { r with drv := some drv }) ?_) hcall
      (by rw [hpc]; exact fun _ => id)
    exact .of_eq rfl rfl rfl rfl rfl rfl rfl
  | @cachedFailure k call step drv missing hcall hpc hcached =>
    refine .goesOn (.modifyStep _ step (f := fun r => { r with previousFailure := true }) ?_)
      hcall (by simp [StepPc.making])
    exact .of_eq rfl rfl rfl rfl rfl rfl rfl
  | substitute hcall hpc => exact .goesOn (.refl _) hcall (by rw [hpc]; exact fun _ => id)
  | decide finished hcall hpc =>
    refine makeStep_decideStep hcall ?_ _ finished
    rcases hpc with ⟨hpc, -⟩ | ⟨hpc, -⟩ <;> rw [hpc] <;> rfl
  | takeInput r hcall hpc hchild hresult => exact makeStep_takeInput hcall hpc hchild hresult
  | finish hcall hpc => exact makeStep_finishStep hcall (by rw [hpc]; rfl)

/-! ## The steps of the runner -/

/-- What a step of the runner does to the steps. -/
inductive StepsStep (r : Runner) (a : Action) (r' : Runner) : Prop where
  | make (h : MakeStep r.createState r'.createState)
  /-- `succeed_step` takes its item. -/
  | succeed {t : TaskId} {ans : Answer} {attempt : Attempt} {report : BuildReport}
      {item : ScheduledItem} (ha : a = .call t ans)
      (ht : r.calls.lookup t = some (.succeed attempt report .start))
      (hitem : r.item attempt.drv = some item)
      (hg : r'.shared.graph = r.shared.graph.setFinished item.stepInfo.step true)
      (hcreation : r'.creation = r.creation)
  /-- `fail_step` takes its item. -/
  | fail {drv : StorePath} {item : ScheduledItem} (tries : Nat) (after : Timestamp)
      (hitem : r.item drv = some item)
      (hg : r'.shared.graph = r.shared.graph.modifyStep item.stepInfo.step (fun x =>
        { x with finished := false, tries := tries, after := after }))
      (hcreation : r'.creation = r.creation)
  | drop {s : StepRef} (hheld : r.stepHeld s = false)
      (hg : r'.shared.graph = r.shared.graph.dropStep s) (hcreation : r'.creation = r.creation)

theorem RunnerStep.stepsStep {cfg : Config} {r r' : Runner} {a : Action}
    (h : RunnerStep cfg r a r') : StepsStep r a r' := by
  -- a step of a task that leaves the creation alone
  have hsettles : ∀ {r' : Runner}, r.shared.graph.Settles r'.shared.graph →
      r'.creation = r.creation → StepsStep r a r' := fun hg hcreation =>
    .make (.settles hg (.of_steps (congrArg Creation.steps hcreation))
      (.of_passes (congrArg Creation.passes hcreation)))
  cases h with
  | dispatch hres => exact hsettles (.of_fades (dispatch_fades hres)) rfl
  | @call t ans task res ht hres =>
    cases callGraph_of_resume hres with
    | fades hf => exact hsettles (.of_fades hf) rfl
    | succeeds attempt report item htask hitem hg =>
      exact .succeed rfl (htask ▸ ht) hitem hg rfl
    | fails attempt state timings caller item tries after htask hitem hg =>
      exact .fail tries after hitem hg rfl
    | releases attempt report item now htask hg =>
      have hg' : r.shared.graph.Settles res.1.graph := by
        rw [hg]
        exact .makeRdepsRunnable _ now _
      exact hsettles hg' rfl
  | completeBuild uuid machineId state report =>
    obtain ⟨results, hres, -⟩ := completeBuild_spec r.shared uuid machineId state report
    refine hsettles ?_ (r.spawn_creation _)
    rw [Runner.spawn_shared, hres]
    exact .refl _
  | @endStream m hm =>
    obtain ⟨machines, task, hres, -⟩ := endStream_spec r.shared m
    refine hsettles ?_ (Runner.spawn_creation _ _)
    rw [Runner.spawn_shared, hres]
    exact .refl _
  | queueChange curIds =>
    refine hsettles ?_ (r.spawn_creation _)
    rw [Runner.spawn_shared]
    exact .of_fades (.retainBuilds _ _)
  | insertMachine id record sortFn => exact hsettles (.refl _) rfl
  | create hnext => exact .make (createStep_of_next hnext).makeStep
  | dropStep hheld => exact .drop (by simpa using hheld) rfl rfl
  | dropBuild hheld => exact hsettles (.of_step rfl rfl rfl (le_refl _)) rfl

/-! ## The invariant -/

/-- The steps under construction in a reachable state. -/
structure Making (c : CreateState) : Prop where
  gen : ∀ k s, c.creation.making k = some s → s.gen < c.graph.fresh
  unmarked : ∀ k s, c.creation.making k = some s →
    (c.graph.step s).created = false ∧ (c.graph.step s).finished = false
  unique : ∀ k k' s, c.creation.making k = some s → c.creation.making k' = some s → k = k'
  depsLen : ∀ s, (c.graph.step s).depsLen = (c.graph.step s).deps.length
  runnable : ∀ s, (c.graph.step s).runnable = true → (c.graph.step s).created = true
  collects : ∀ s, c.creation.Collects s → s.gen < c.graph.fresh ∧
    (c.graph.step s).created = true ∧ (c.graph.step s).deps = []

/-- A step that was not created keeps its marks. -/
structure Step.Stays (r r' : Step) : Prop where
  created : r'.created = r.created
  finished : r.created = false → r'.finished = r.finished
  runnable : r'.runnable = true → r.runnable = true ∨ r.created = true
  deps : r'.deps.Sublist r.deps
  depsLen : r.depsLen = r.deps.length → r'.depsLen = r'.deps.length

theorem Step.Settles.stays {r r' : Step} (h : Step.Settles r r') : Step.Stays r r' :=
  ⟨h.created, fun _ => h.finished, h.runnable, h.deps, h.depsLen⟩

/-- The step that `Steps::create` makes. -/
theorem Graph.Created.isNew {g g' : Graph} {drvPath : StorePath} {build : Option BuildRef}
    {parent : Option StepRef} {s : StepRef} {isNew : Bool}
    (h : Created g drvPath build parent g' s isNew) (hnew : isNew = true) :
    s.gen = g.fresh ∧ g'.fresh = g.fresh + 1 ∧ Step.IsNew (g'.step s) := by
  refine ⟨by rw [(h.notFound hnew).2], by rw [h.fresh, if_pos hnew], ?_⟩
  rw [h.step, if_pos rfl, if_pos hnew]
  exact ⟨rfl, rfl, rfl, rfl, rfl, rfl⟩

/-- The other steps keep their marks. -/
theorem Graph.Created.stays_or_isNew {g g' : Graph} {drvPath : StorePath}
    {build : Option BuildRef} {parent : Option StepRef} {s : StepRef} {isNew : Bool}
    (h : Created g drvPath build parent g' s isNew) (t : StepRef) :
    Step.Stays (g.step t) (g'.step t) ∨
      t.gen = g.fresh ∧ g'.fresh = g.fresh + 1 ∧ Step.IsNew (g'.step t) := by
  by_cases hts : t = s
  · cases hnew : isNew with
    | true => exact Or.inr (hts ▸ h.isNew hnew)
    | false =>
      refine Or.inl ?_
      rw [h.step, if_pos hts, hnew, hts]
      exact ⟨rfl, fun _ => rfl, Or.inl, List.Sublist.refl _, id⟩
  · refine Or.inl ?_
    rw [h.step, if_neg hts]
    exact ⟨rfl, fun _ => rfl, Or.inl, List.Sublist.refl _, id⟩

namespace Making

variable {cfg : Config} {c c' : CreateState} {r r' : Runner}

theorem init : Making ⟨{}, [], {}⟩ := by
  constructor <;> simp [Creation.making, Creation.Collects]

/-- The calls that go on, over a graph that keeps their steps. -/
theorem of_stays (h : Making c) (hstep : Graph.Keeps Step.Stays c.graph c'.graph)
    (hfresh : c.graph.fresh ≤ c'.graph.fresh) (hmaking : c.creation.KeepsMaking c'.creation)
    (hcollects : c.creation.KeepsCollected c'.creation) : Making c' where
  gen k s hk := lt_of_lt_of_le (h.gen k s (hmaking k s hk)) hfresh
  unmarked k s hk := by
    obtain ⟨hc, hf⟩ := h.unmarked k s (hmaking k s hk)
    exact ⟨(hstep s).created.trans hc, ((hstep s).finished hc).trans hf⟩
  unique k k' s hk hk' := h.unique k k' s (hmaking k s hk) (hmaking k' s hk')
  depsLen s := (hstep s).depsLen (h.depsLen s)
  runnable s hr := by
    rw [(hstep s).created]
    exact ((hstep s).runnable hr).elim (h.runnable s) id
  collects s hs := by
    obtain ⟨hgen, hc, hdeps⟩ := h.collects s (hcollects s hs)
    refine ⟨lt_of_lt_of_le hgen hfresh, (hstep s).created.trans hc, ?_⟩
    exact List.sublist_nil.mp (hdeps ▸ (hstep s).deps)

theorem of_settles (h : Making c) (hg : c.graph.Settles c'.graph)
    (hmaking : c.creation.KeepsMaking c'.creation)
    (hcollects : c.creation.KeepsCollected c'.creation) : Making c' :=
  h.of_stays (fun s => (hg.step s).stays) hg.fresh hmaking hcollects

/-- A call starts. -/
theorem create (h : Making c) {drvPath : StorePath} {build : Option BuildRef}
    {parent : Option StepRef} {s : StepRef} {isNew : Bool}
    (hg : Graph.Created c.graph drvPath build parent c'.graph s isNew)
    (hmaking : ∀ k t, c'.creation.making k = some t → c.creation.making k = some t ∨
      k = c.creation.fresh ∧ t = s ∧ isNew = true)
    (hcollects : c.creation.KeepsCollected c'.creation) : Making c' := by
  have hfresh := (Graph.Grows.of_created hg).fresh
  have hold : ∀ t : StepRef, t.gen < c.graph.fresh → Step.Stays (c.graph.step t)
      (c'.graph.step t) := fun t ht =>
    (hg.stays_or_isNew t).resolve_right fun hn => absurd ht (Nat.not_lt.mpr (Nat.le_of_eq
      hn.1.symm))
  have hnew : isNew = true → s.gen = c.graph.fresh ∧ c'.graph.fresh = c.graph.fresh + 1 ∧
      Step.IsNew (c'.graph.step s) := fun hn => hg.isNew hn
  refine
    { gen := fun k t hk => ?_, unmarked := fun k t hk => ?_, unique := fun k k' t hk hk' => ?_
      depsLen := fun t => ?_, runnable := fun t hr => ?_, collects := fun t ht => ?_ }
  · rcases hmaking k t hk with hk | ⟨-, rfl, hn⟩
    · exact lt_of_lt_of_le (h.gen k t hk) hfresh
    · obtain ⟨hgen, hf, -⟩ := hnew hn
      rw [hgen, hf]
      exact Nat.lt_succ_self _
  · rcases hmaking k t hk with hk | ⟨-, rfl, hn⟩
    · obtain ⟨hc, hf⟩ := h.unmarked k t hk
      have hstay := hold t (h.gen k t hk)
      exact ⟨hstay.created.trans hc, (hstay.finished hc).trans hf⟩
    · exact ⟨(hnew hn).2.2.created, (hnew hn).2.2.finished⟩
  · rcases hmaking k t hk with hk | ⟨hk, rfl, hn⟩ <;>
      rcases hmaking k' t hk' with hk' | ⟨hk', ht', hn'⟩
    · exact h.unique k k' t hk hk'
    · have := h.gen k t hk
      rw [ht', (hnew hn').1] at this
      exact absurd this (Nat.lt_irrefl _)
    · have := h.gen k' t hk'
      rw [(hnew hn).1] at this
      exact absurd this (Nat.lt_irrefl _)
    · rw [hk, hk']
  · rcases hg.stays_or_isNew t with hstay | ⟨-, -, hn⟩
    · exact hstay.depsLen (h.depsLen t)
    · rw [hn.depsLen, hn.deps]
      rfl
  · rcases hg.stays_or_isNew t with hstay | ⟨-, -, hn⟩
    · rw [hstay.created]
      exact (hstay.runnable hr).elim (h.runnable t) id
    · rw [hn.runnable] at hr
      cases hr
  · obtain ⟨hgen, hc, hdeps⟩ := h.collects t (hcollects t ht)
    have hstay := hold t hgen
    refine ⟨lt_of_lt_of_le hgen hfresh, hstay.created.trans hc, ?_⟩
    exact List.sublist_nil.mp (hdeps ▸ hstay.deps)

/-- Another call works on another step. -/
theorem ne_of_making (h : Making c) {k k' : CallId} {s t : StepRef}
    (hk : c.creation.making k = some s) (hk' : c.creation.making k' = some t) (hne : k' ≠ k) :
    t ≠ s := by
  rintro rfl
  exact hne (h.unique k' k t hk' hk)

/-- A change of the step that a call works on. -/
theorem of_modify (h : Making c) {k : CallId} {s : StepRef} {f : Step → Step}
    (hk : c.creation.making k = some s) (hg : c'.graph = c.graph.modifyStep s f)
    (hmaking : ∀ k' t, c'.creation.making k' = some t → c.creation.making k' = some t ∧
      (k' ≠ k ∨ (f (c.graph.step s)).created = false ∧ (f (c.graph.step s)).finished = false))
    (hcollects : ∀ t, c'.creation.Collects t → c.creation.Collects t ∨
      t = s ∧ (f (c.graph.step s)).created = true ∧ (f (c.graph.step s)).deps = [])
    (hlen : (f (c.graph.step s)).depsLen = (f (c.graph.step s)).deps.length)
    (hrunnable : (f (c.graph.step s)).runnable = (c.graph.step s).runnable) : Making c' := by
  have hself : c'.graph.step s = f (c.graph.step s) := by rw [hg, Graph.modifyStep_self]
  have hother : ∀ t, t ≠ s → c'.graph.step t = c.graph.step t := fun t ht => by
    rw [hg, Graph.modifyStep_step, if_neg ht]
  have hfresh : c'.graph.fresh = c.graph.fresh := by rw [hg, Graph.modifyStep_fresh]
  have hgen := h.gen k s hk
  have hcreated := (h.unmarked k s hk).1
  refine
    { gen := fun k' t hk' => ?_, unmarked := fun k' t hk' => ?_
      unique := fun k₁ k₂ t h₁ h₂ => h.unique k₁ k₂ t (hmaking k₁ t h₁).1 (hmaking k₂ t h₂).1
      depsLen := fun t => ?_, runnable := fun t hr => ?_, collects := fun t ht => ?_ }
  · rw [hfresh]
    exact h.gen k' t (hmaking k' t hk').1
  · obtain ⟨hk', hcases⟩ := hmaking k' t hk'
    by_cases hts : t = s
    · rcases hcases with hne | hmarks
      · exact absurd hts (h.ne_of_making hk hk' hne)
      · rw [hts, hself]
        exact hmarks
    · rw [hother t hts]
      exact h.unmarked k' t hk'
  · by_cases hts : t = s
    · rw [hts, hself]
      exact hlen
    · rw [hother t hts]
      exact h.depsLen t
  · by_cases hts : t = s
    · rw [hts, hself, hrunnable] at hr
      rw [h.runnable s hr] at hcreated
      cases hcreated
    · rw [hother t hts] at hr ⊢
      exact h.runnable t hr
  · rcases hcollects t ht with ht | ⟨rfl, hmarks⟩
    · obtain ⟨hgen', hc, hdeps⟩ := h.collects t ht
      have hts : t ≠ s := by
        rintro rfl
        rw [hc] at hcreated
        cases hcreated
      rw [hfresh, hother t hts]
      exact ⟨hgen', hc, hdeps⟩
    · rw [hfresh, hself]
      exact ⟨hgen, hmarks⟩

/-- Every step of the creation. -/
theorem step (h : Making c) (hs : MakeStep c c') : Making c' := by
  cases hs with
  | settles hg hmaking hcollects => exact h.of_settles hg hmaking hcollects
  | release l now hl hg hmaking hcollects =>
    refine h.of_settles ?_ hmaking hcollects
    rw [hg]
    exact .makeAllRunnable (fun s hs => (h.collects s (hl s hs)).2.1) now
  | create hg hparent hmaking hcollects => exact h.create hg hmaking hcollects
  | @finish k s hk hg hmaking hcollects =>
    exact h.of_modify hk hg (fun k' t hk' => (hmaking k' t hk').imp id Or.inl)
      (fun t ht => Or.inl (hcollects t ht)) (h.depsLen s) rfl
  | @addDep k k' s dep child hk hchild hdep hg hmaking hcollects =>
    exact h.of_modify (f := fun r => { r with
        deps := insertStep (c.graph.step s).deps dep
        depsLen := (insertStep (c.graph.step s).deps dep).length }) hk hg
      (fun k' t hk' => ⟨hmaking k' t hk', Or.inr (h.unmarked k s hk)⟩)
      (fun t ht => Or.inl (hcollects t ht)) rfl rfl
  | @complete k s hk hg hmaking hcollects =>
    refine h.of_modify hk hg (fun k' t hk' => (hmaking k' t hk').imp id Or.inl)
      (fun t ht => (hcollects t ht).imp id fun hts => ⟨hts.1, rfl, ?_⟩) (h.depsLen s) rfl
    have hlen := h.depsLen s
    rw [hts.2] at hlen
    exact List.length_eq_zero_iff.mp hlen.symm

/-- A step on its way to a machine is marked. -/
theorem of_mark (h : Making r.createState) (hjobs : JobSteps (JobSteps.Found r) r)
    {drv : StorePath} {item : ScheduledItem} {f : Step → Step} (hitem : r.item drv = some item)
    (hg : r'.shared.graph = r.shared.graph.modifyStep item.stepInfo.step f)
    (hf : ∀ x, (f x).created = x.created ∧ (f x).runnable = x.runnable ∧ (f x).deps = x.deps ∧
      (f x).depsLen = x.depsLen) (hcreation : r'.creation = r.creation) :
    Making r'.createState := by
  have hcreated : (r.shared.graph.step item.stepInfo.step).created = true :=
    h.runnable _ (hjobs.item drv item hitem).2
  have hstays : Graph.Keeps Step.Stays r.shared.graph r'.shared.graph := by
    rw [hg]
    obtain ⟨hc, hr, hdeps, hlen⟩ := hf (r.shared.graph.step item.stepInfo.step)
    refine Graph.Keeps.modifyStep (fun x => (Step.Settles.refl x).stays)
      ⟨hc, fun hn => ?_, fun hrun => Or.inl (hr ▸ hrun), ?_, fun hl => ?_⟩
    · rw [hcreated] at hn
      cases hn
    · rw [hdeps]
    · rw [hlen, hdeps, hl]
  have hfresh : r'.shared.graph.fresh = r.shared.graph.fresh := by
    rw [hg, Graph.modifyStep_fresh]
  exact h.of_stays hstays (Nat.le_of_eq hfresh.symm)
    (.of_steps (congrArg Creation.steps hcreation))
    (.of_passes (congrArg Creation.passes hcreation))

/-- Every step of the runner. -/
theorem runnerStep (h : Making r.createState) (hjobs : JobSteps (JobSteps.Found r) r)
    {a : Action} (hs : StepsStep r a r') : Making r'.createState := by
  cases hs with
  | make hm => exact h.step hm
  | succeed ha ht hitem hg hcreation =>
    exact h.of_mark hjobs hitem hg (fun _ => ⟨rfl, rfl, rfl, rfl⟩) hcreation
  | fail tries after hitem hg hcreation =>
    exact h.of_mark hjobs hitem hg (fun _ => ⟨rfl, rfl, rfl, rfl⟩) hcreation
  | drop hheld hg hcreation =>
    refine h.of_stays ?_ ?_ (.of_steps (congrArg Creation.steps hcreation))
      (.of_passes (congrArg Creation.passes hcreation))
    · rw [Runner.createState, Runner.createState, hg]
      exact Graph.Keeps.modifyStep (f := fun x => { x with alive := false })
        (fun x => (Step.Settles.refl x).stays)
        ⟨rfl, fun _ => rfl, Or.inl, List.Sublist.refl _, id⟩
    · rw [Runner.createState, Runner.createState, hg]
      exact le_refl _

theorem reach {ok : Runner → Action → Prop}
    (h : Lts.Reach (Runner.next cfg) ok {} r) : Making r.createState := by
  refine h.invariant_of_reach (I := fun r => Making r.createState) init ?_
  intro s a s' hreach hs _ hnext
  exact hs.runnerStep (JobSteps.reach hreach) (runnerStep_of_next hnext).stepsStep

end Making

end QueueRunner
