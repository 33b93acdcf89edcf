import QueueRunner.BuildCalls

/-!
# What is pointed to was allocated

Every step and build that a record, a map or a call points to is in the lists
of what was allocated so far.  The walk of `get_dependents` relies on it for
its bound, and a loaded build is different from every older one.

`BuildsStep` says what a step of the creation does to the builds: a pass loads
them, a call of `create_build` finishes its own, or enters it into `Builds`.
-/

namespace QueueRunner

/-! ## The graph -/

/-- A step gets no new pointers. -/
def Step.Narrows (r r' : Step) : Prop := r'.rdeps ⊆ r.rdeps ∧ r'.builds ⊆ r.builds

theorem Step.Narrows.refl (r : Step) : r.Narrows r := ⟨List.Subset.refl _, List.Subset.refl _⟩

theorem Step.Narrows.trans (r r' r'' : Step) (h : r.Narrows r') (h' : r'.Narrows r'') :
    r.Narrows r'' :=
  ⟨List.Subset.trans h'.1 h.1, List.Subset.trans h'.2 h.2⟩

namespace Graph

/-- The steps and builds that the records and the map of steps point to. -/
structure Allocated (g : Graph) : Prop where
  steps : ∀ p s, g.steps.lookup p = some s → s ∈ g.allocated
  rdeps : ∀ s t, t ∈ (g.step s).rdeps → t ∈ g.allocated
  attached : ∀ s b, b ∈ (g.step s).builds → b ∈ g.allocatedBuilds
  gen : ∀ b ∈ g.allocatedBuilds, b.gen < g.fresh

/-- Nothing is allocated, and nothing gets a new pointer to a step or a
build. -/
structure NoNewRefs (g g' : Graph) : Prop where
  step : Keeps Step.Narrows g g'
  steps : ∀ p s, g'.steps.lookup p = some s → g.steps.lookup p = some s
  allocated : g'.allocated = g.allocated
  allocatedBuilds : g'.allocatedBuilds = g.allocatedBuilds
  fresh : g'.fresh = g.fresh

namespace NoNewRefs

variable {g g' : Graph}

theorem of_eq (hstep : g'.step = g.step) (hsteps : g'.steps = g.steps)
    (hallocated : g'.allocated = g.allocated)
    (hbuilds : g'.allocatedBuilds = g.allocatedBuilds) (hfresh : g'.fresh = g.fresh) :
    g.NoNewRefs g' :=
  ⟨fun _ => hstep ▸ .refl _, fun _ _ h => hsteps ▸ h, hallocated, hbuilds, hfresh⟩

theorem of_sameMaps (hstep : Keeps Step.Narrows g g') (h : g.SameMaps g') : g.NoNewRefs g' :=
  ⟨hstep, fun _ _ hs => h.steps ▸ hs, h.allocated, h.allocatedBuilds, h.fresh⟩

theorem of_fades (h : g.Fades g') : g.NoNewRefs g' := by
  refine ⟨fun t => ?_, h.steps, h.allocated, h.allocatedBuilds, h.fresh⟩
  rw [h.step t]
  exact .refl _

theorem modifyStep (g : Graph) (s : StepRef) {f : Step → Step} (hf : ∀ r : Step, r.Narrows (f r)) :
    g.NoNewRefs (g.modifyStep s f) :=
  of_sameMaps (.modifyStep Step.Narrows.refl (hf _)) (.modifyStep g s f)

theorem setFinished (g : Graph) (s : StepRef) (v : Bool) : g.NoNewRefs (g.setFinished s v) := by
  unfold Graph.setFinished
  exact modifyStep g s (fun _ => ⟨List.Subset.refl _, List.Subset.refl _⟩)

theorem setPreviousFailure (g : Graph) (s : StepRef) (v : Bool) :
    g.NoNewRefs (g.setPreviousFailure s v) := by
  unfold Graph.setPreviousFailure
  exact modifyStep g s (fun _ => ⟨List.Subset.refl _, List.Subset.refl _⟩)

theorem setDrv (g : Graph) (s : StepRef) (drv : Derivation) : g.NoNewRefs (g.setDrv s drv) := by
  unfold Graph.setDrv
  exact modifyStep g s (fun _ => ⟨List.Subset.refl _, List.Subset.refl _⟩)

theorem setCreated (g : Graph) (s : StepRef) : g.NoNewRefs (g.setCreated s) := by
  unfold Graph.setCreated
  exact modifyStep g s (fun _ => ⟨List.Subset.refl _, List.Subset.refl _⟩)

theorem addDep (g : Graph) (s dep : StepRef) : g.NoNewRefs (g.addDep s dep) := by
  unfold Graph.addDep
  exact modifyStep g s (fun _ => ⟨List.Subset.refl _, List.Subset.refl _⟩)

end NoNewRefs

theorem narrows_makeRunnable (g : Graph) (now : Timestamp) (s : StepRef) :
    Keeps Step.Narrows g (g.makeRunnable now s) := by
  unfold makeRunnable
  split_ifs
  · exact .refl Step.Narrows.refl g
  · exact .modifyStep Step.Narrows.refl (.refl _)

theorem narrows_makeRdepsRunnable (g : Graph) (now : Timestamp) (s : StepRef) :
    Keeps Step.Narrows g (g.makeRdepsRunnable now s) := by
  have hrelease : ∀ (g : Graph) (t : StepRef), Keeps Step.Narrows g (releaseRdep s now g t) := by
    intro g t
    have hdeps : ∀ deps : List StepRef, Keeps Step.Narrows g
        (g.modifyStep t (fun r => { r with deps := deps, depsLen := deps.length })) := fun deps =>
      .modifyStep Step.Narrows.refl (.refl _)
    unfold releaseRdep
    simp only
    split_ifs
    · exact .trans Step.Narrows.trans (hdeps _) (narrows_makeRunnable _ now t)
    · exact hdeps _
    · exact .refl Step.Narrows.refl g
  unfold makeRdepsRunnable
  split_ifs
  · refine .trans Step.Narrows.trans
      (.foldl Step.Narrows.refl Step.Narrows.trans hrelease (g.step s).rdeps g) ?_
    exact .modifyStep Step.Narrows.refl ⟨List.filter_subset_self _, List.Subset.refl _⟩
  · exact .refl Step.Narrows.refl g

theorem narrows_sweepSteps (g : Graph) (now : Timestamp) (order : List StepRef) :
    Keeps Step.Narrows g (g.sweepSteps now order) := by
  refine .foldl Step.Narrows.refl Step.Narrows.trans (fun g s => ?_) order g
  unfold sweepStep
  split_ifs
  · exact narrows_makeRdepsRunnable g now s
  · exact .refl Step.Narrows.refl g

namespace Allocated

variable {g g' : Graph}

theorem of_noNewRefs (h : g.Allocated) (hn : g.NoNewRefs g') : g'.Allocated where
  steps p s hs := by
    rw [hn.allocated]
    exact h.steps p s (hn.steps p s hs)
  rdeps s t ht := by
    rw [hn.allocated]
    exact h.rdeps s t ((hn.step s).1 ht)
  attached s b hb := by
    rw [hn.allocatedBuilds]
    exact h.attached s b ((hn.step s).2 hb)
  gen b hb := by
    rw [hn.allocatedBuilds] at hb
    rw [hn.fresh]
    exact h.gen b hb

/-- `Steps::create` for a build and a step that were allocated. -/
theorem created (h : g.Allocated) {drvPath : StorePath} {build : Option BuildRef}
    {step : Option StepRef} {s : StepRef} {isNew : Bool}
    (hc : Created g drvPath build step g' s isNew)
    (hbuild : ∀ b, build = some b → b ∈ g.allocatedBuilds)
    (hstep : ∀ t, step = some t → t ∈ g.allocated) :
    g'.Allocated ∧ g.allocated ⊆ g'.allocated ∧ s ∈ g'.allocated := by
  have hsub : g.allocated ⊆ g'.allocated := by
    rw [hc.allocated]
    split_ifs
    · exact List.subset_cons_self _ _
    · exact List.Subset.refl _
  have hs : s ∈ g'.allocated := by
    cases isNew with
    | true =>
      rw [hc.allocated, if_pos rfl]
      exact List.mem_cons_self
    | false => exact hsub (h.steps drvPath s (findStep_eq_some.mp (hc.found rfl)).1)
  -- the record that gets the pointers has only allocated ones
  have hold : ∀ r : Step, r = {} ∨ r = g.step s → r.rdeps ⊆ g.allocated ∧
      r.builds ⊆ g.allocatedBuilds := by
    rintro r (rfl | rfl)
    · exact ⟨List.nil_subset _, List.nil_subset _⟩
    · exact ⟨fun t ht => h.rdeps s t ht, fun b hb => h.attached s b hb⟩
  have hrecord := hold (if isNew then {} else g.step s) (by cases isNew <;> simp)
  refine ⟨⟨fun p t ht => ?_, fun t u hu => ?_, fun t b hb => ?_, fun b hb => ?_⟩, hsub, hs⟩
  · rw [hc.steps, Map.lookup_insert_eq] at ht
    split_ifs at ht
    · cases ht
      exact hs
    · exact hsub (h.steps p t ht)
  · rw [hc.step] at hu
    by_cases ht : t = s
    · rw [if_pos ht] at hu
      rcases List.mem_append.mp hu with hu | hu
      · exact hsub (hrecord.1 hu)
      · exact hsub (hstep u (Option.mem_toList.mp hu))
    · rw [if_neg ht] at hu
      exact hsub (h.rdeps t u hu)
  · rw [hc.allocatedBuilds]
    rw [hc.step] at hb
    by_cases ht : t = s
    · rw [if_pos ht] at hb
      rcases List.mem_append.mp hb with hb | hb
      · exact hrecord.2 hb
      · exact hbuild b (Option.mem_toList.mp hb)
    · rw [if_neg ht] at hb
      exact h.attached t b hb
  · rw [hc.allocatedBuilds] at hb
    rw [hc.fresh]
    split_ifs
    · exact Nat.lt_succ_of_lt (h.gen b hb)
    · exact h.gen b hb

end Allocated

end Graph

/-! ## The creation -/

/-- The steps and builds that the graph and the calls point to. -/
structure Allocated (c : CreateState) : Prop where
  graph : c.graph.Allocated
  steps : ∀ k call s, c.creation.steps.lookup k = some call → call.pc.step? = some s →
    s ∈ c.graph.allocated
  builds : ∀ k call, c.creation.builds.lookup k = some call →
    call.build ∈ c.graph.allocatedBuilds
  waiting : ∀ k p id b, c.creation.passes.lookup k = some p → p.byId.lookup id = some b →
    b ∈ c.graph.allocatedBuilds

namespace Allocated

variable {cfg : Config} {c c' : CreateState}

theorem init : Allocated ⟨{}, [], {}⟩ := by
  refine ⟨?_, by simp, by simp, by simp⟩
  constructor <;> simp

/-- A change of the graph under calls that stay as they are. -/
theorem of_graph (h : Allocated c) (hg : c'.graph.Allocated)
    (hsteps : c.graph.allocated ⊆ c'.graph.allocated)
    (hbuilds : c.graph.allocatedBuilds ⊆ c'.graph.allocatedBuilds)
    (hcreation : c'.creation = c.creation) : Allocated c' where
  graph := hg
  steps k call s hk hs := by
    rw [hcreation] at hk
    exact hsteps (h.steps k call s hk hs)
  builds k call hk := by
    rw [hcreation] at hk
    exact hbuilds (h.builds k call hk)
  waiting k p id b hp hb := by
    rw [hcreation] at hp
    exact hbuilds (h.waiting k p id b hp hb)

theorem of_noNewRefs (h : Allocated c) (hg : c.graph.NoNewRefs c'.graph)
    (hcreation : c'.creation = c.creation) : Allocated c' := by
  refine h.of_graph (h.graph.of_noNewRefs hg) ?_ ?_ hcreation
  · rw [hg.allocated]
    exact List.Subset.refl _
  · rw [hg.allocatedBuilds]
    exact List.Subset.refl _

/-- Calls of `create_step` go away. -/
theorem of_steps_subset (h : Allocated c) (hg : c'.graph = c.graph)
    (hpasses : c'.creation.passes = c.creation.passes)
    (hbuilds : c'.creation.builds = c.creation.builds)
    (hsteps : ∀ k call, c'.creation.steps.lookup k = some call →
      c.creation.steps.lookup k = some call) : Allocated c' where
  graph := hg ▸ h.graph
  steps k call s hk hs := hg ▸ h.steps k call s (hsteps k call hk) hs
  builds k call hk := hg ▸ h.builds k call (hbuilds ▸ hk)
  waiting k p id b hp hb := hg ▸ h.waiting k p id b (hpasses ▸ hp) hb

theorem setStepCall (h : Allocated c) (k : CallId) {call : StepCall}
    (hcall : ∀ s, call.pc.step? = some s → s ∈ c.graph.allocated) :
    Allocated (c.setStepCall k call) where
  graph := h.graph
  steps k' call' s hk hs := by
    simp only [CreateState.setStepCall_steps, Map.lookup_insert_eq] at hk
    split_ifs at hk
    · cases hk
      exact hcall s hs
    · exact h.steps k' call' s hk hs
  builds := h.builds
  waiting := h.waiting

theorem setBuildCall (h : Allocated c) (k : CallId) {call : BuildCall}
    (hcall : call.build ∈ c.graph.allocatedBuilds) : Allocated (c.setBuildCall k call) where
  graph := h.graph
  steps := h.steps
  builds k' call' hk := by
    simp only [CreateState.setBuildCall_builds, Map.lookup_insert_eq] at hk
    split_ifs at hk
    · cases hk
      exact hcall
    · exact h.builds k' call' hk
  waiting := h.waiting

theorem setPass (h : Allocated c) (k : CallId) {pass : Pass}
    (hpass : ∀ id b, pass.byId.lookup id = some b → b ∈ c.graph.allocatedBuilds) :
    Allocated (c.setPass k pass) where
  graph := h.graph
  steps := h.steps
  builds := h.builds
  waiting k' p id b hp hb := by
    simp only [CreateState.setPass_passes, Map.lookup_insert_eq] at hp
    split_ifs at hp
    · cases hp
      exact hpass id b hb
    · exact h.waiting k' p id b hp hb

theorem bumpFresh (h : Allocated c) (k : CallId) :
    Allocated { c with creation := { c.creation with fresh := k } } :=
  ⟨h.graph, h.steps, h.builds, h.waiting⟩

theorem takeStepCall (h : Allocated c) (k : CallId) : Allocated (c.takeStepCall k) := by
  refine h.of_steps_subset rfl rfl rfl (fun k' call hk => ?_)
  simp only [CreateState.takeStepCall_steps, Map.lookup_erase_eq] at hk
  split_ifs at hk
  exact hk

theorem takeBuildCall (h : Allocated c) (k : CallId) : Allocated (c.takeBuildCall k) where
  graph := h.graph
  steps := h.steps
  builds k' call hk := by
    simp only [CreateState.takeBuildCall_builds, Map.lookup_erase_eq] at hk
    split_ifs at hk
    exact h.builds k' call hk
  waiting := h.waiting

theorem dropCallees (h : Allocated c) (k : CallId) : Allocated (c.dropCallees k) := by
  refine h.of_steps_subset rfl rfl rfl (fun k' call hk => ?_)
  simp only [CreateState.dropCallees, Map.lookup_retain, Option.filter_eq_some_iff] at hk
  exact hk.1

theorem insertFinishedDrv (h : Allocated c) (k : CallId) (drvPath : StorePath) :
    Allocated (c.insertFinishedDrv k drvPath) := by
  unfold CreateState.insertFinishedDrv
  split
  · rename_i p hp
    exact h.setPass k (fun id b hb => h.waiting k p id b hp hb)
  · exact h

theorem insertNewRunnable (h : Allocated c) (k : CallId) (s : StepRef) :
    Allocated (c.insertNewRunnable k s) := by
  unfold CreateState.insertNewRunnable
  split
  · rename_i p hp
    exact h.setPass k (fun id b hb => h.waiting k p id b hp hb)
  · exact h

theorem insertNewStep (h : Allocated c) (k : CallId) (s : StepRef) :
    Allocated (c.insertNewStep k s) := by
  unfold CreateState.insertNewStep
  split
  · rename_i b hb
    exact h.setBuildCall k (h.builds k b hb)
  · exact h

/-- A call goes on with its step. -/
theorem keepStep (h : Allocated c) {k : CallId} {call call' : StepCall}
    (hcall : c.creation.steps.lookup k = some call)
    (hpc : ∀ s, call'.pc.step? = some s → call.pc.step? = some s) :
    Allocated (c.setStepCall k call') :=
  h.setStepCall k (fun s hs => h.steps k call s hcall (hpc s hs))

theorem started (h : Allocated c) {pass build : CallId} {callers : List CallId}
    {drvPath : StorePath} {rb : Option BuildRef} {rs : Option StepRef} {pc : StepPc}
    (hs : CreateState.Started c pass build callers drvPath rb rs c' pc)
    (hbuild : ∀ b, rb = some b → b ∈ c.graph.allocatedBuilds)
    (hstep : ∀ t, rs = some t → t ∈ c.graph.allocated) :
    Allocated c' ∧ c.graph.allocated ⊆ c'.graph.allocated ∧
      c'.graph.allocatedBuilds = c.graph.allocatedBuilds := by
  have hgraph : c'.graph.Allocated ∧ c.graph.allocated ⊆ c'.graph.allocated ∧
      c'.graph.allocatedBuilds = c.graph.allocatedBuilds ∧
      ∀ s, pc.step? = some s → s ∈ c'.graph.allocated := by
    rcases hs.result with ⟨rfl, hg, -⟩ | ⟨s, isNew, hcreated, hpc⟩
    · rw [hg]
      exact ⟨h.graph, List.Subset.refl _, rfl, by simp [StepPc.step?]⟩
    · obtain ⟨hg, hsub, hmem⟩ := h.graph.created hcreated hbuild hstep
      have hpc' : pc.step? = some s := by
        subst hpc
        cases isNew <;> rfl
      refine ⟨hg, hsub, hcreated.allocatedBuilds, fun t ht => ?_⟩
      rw [hpc', Option.some.injEq] at ht
      exact ht ▸ hmem
  obtain ⟨hg, hsub, hbuilds, hpc⟩ := hgraph
  refine ⟨⟨hg, fun k call s hk hs' => ?_, fun k call hk => ?_, fun k p id b hp hb => ?_⟩, hsub,
    hbuilds⟩
  · rw [hs.steps, Map.lookup_insert_eq] at hk
    split_ifs at hk
    · cases hk
      exact hpc s hs'
    · exact hsub (h.steps k call s hk hs')
  · rw [hs.builds] at hk
    exact hbuilds ▸ h.builds k call hk
  · rw [hs.passes] at hp
    exact hbuilds ▸ h.waiting k p id b hp hb

theorem decideStep (h : Allocated c) {k : CallId} {call : StepCall}
    (hcall : c.creation.steps.lookup k = some call) {step : StepRef} {drv : Derivation}
    (hstep : call.pc.step? = some step) (finished : Bool) :
    Allocated (c.decideStep k call step drv finished) := by
  unfold CreateState.decideStep
  cases finished with
  | false =>
    rw [if_neg Bool.false_ne_true]
    exact h.keepStep hcall (fun s hs => hstep.trans hs)
  | true =>
    rw [if_pos rfl]
    refine setStepCall ?_ k (by simp [StepPc.step?])
    exact (h.insertFinishedDrv call.pass call.drvPath).of_noNewRefs (.setFinished _ step true) rfl

theorem takeInput (h : Allocated c) {k : CallId} {call : StepCall}
    (hcall : c.creation.steps.lookup k = some call) {step : StepRef}
    (hstep : call.pc.step? = some step) (todo : List StorePath)
    (calls : List (StorePath × CallId)) (r : CreateStepResult) :
    Allocated (c.takeInput k call step todo calls r) := by
  unfold CreateState.takeInput
  simp only
  cases r with
  | none => exact h.keepStep hcall (fun s hs => hstep.trans hs)
  | valid dep =>
    simp only
    split_ifs
    · have h₁ : Allocated { c with graph := c.graph.addDep step dep } :=
        h.of_noNewRefs (.addDep _ step dep) rfl
      exact h₁.keepStep hcall (fun s hs => hstep.trans hs)
    · exact h.keepStep hcall (fun s hs => hstep.trans hs)
  | previousFailure failed =>
    exact (h.dropCallees k).setStepCall k (by simp [StepPc.step?])

theorem finishStep (h : Allocated c) {k : CallId} {call : StepCall}
    (hcall : c.creation.steps.lookup k = some call) {step : StepRef}
    (hstep : call.pc.step? = some step) : Allocated (c.finishStep k call step) := by
  have hmem := h.steps k call step hcall hstep
  have h₁ : Allocated { c with graph := c.graph.setCreated step } :=
    h.of_noNewRefs (.setCreated _ step) rfl
  have hreturned : ∀ s, (StepPc.returned (.valid step)).step? = some s →
      s ∈ c.graph.allocated := by
    rintro s ⟨⟩
    exact hmem
  unfold CreateState.finishStep
  simp only [CreateState.returnStep]
  split_ifs
  · refine ((h₁.insertNewRunnable call.pass step).insertNewStep call.build step).setStepCall k ?_
    rw [(CreateState.insertNewStep_frame ..).1, (CreateState.insertNewRunnable_frame ..).1]
    exact hreturned
  · refine (h₁.insertNewStep call.build step).setStepCall k ?_
    rw [(CreateState.insertNewStep_frame ..).1]
    exact hreturned

/-- What the load of the new builds has allocated so far. -/
structure Loads (g : Graph) (rows : List (BuildID × StorePath)) (acc : Graph × Pass) : Prop where
  graph : acc.1.Allocated
  step : acc.1.step = g.step
  allocated : acc.1.allocated = g.allocated
  builds : acc.1.builds = g.builds
  /-- The older builds are left alone. -/
  old : ∀ b ∈ g.allocatedBuilds, acc.1.build b = g.build b
  new : ∃ bs, acc.1.allocatedBuilds = bs ++ g.allocatedBuilds ∧
    (bs.map BuildRef.id).Perm (rows.map Prod.fst) ∧
    ∀ b ∈ bs, acc.1.build b = {} ∧ g.fresh ≤ b.gen
  fresh : g.fresh ≤ acc.1.fresh
  byId : ∀ id b, acc.2.byId.lookup id = some b → b ∈ acc.1.allocatedBuilds

theorem Loads.loadBuild {g : Graph} {rows : List (BuildID × StorePath)} {acc : Graph × Pass}
    (h : Loads g rows acc) (hg : ∀ b ∈ g.allocatedBuilds, b.gen < g.fresh)
    (row : BuildID × StorePath) : Loads g (row :: rows) (CreateState.loadBuild acc row) := by
  obtain ⟨bs, hbs, hids, hnew⟩ := h.new
  have hself : (CreateState.loadBuild acc row).1.build ⟨row.1, row.2, acc.1.fresh⟩ = {} := by
    simp [CreateState.loadBuild, Graph.newBuild]
  refine ⟨⟨h.graph.steps, h.graph.rdeps, fun s b hb => ?_, fun b hb => ?_⟩, h.step, h.allocated,
    h.builds, fun b hb => ?_, ⟨⟨row.1, row.2, acc.1.fresh⟩ :: bs, ?_, hids.cons row.1,
      fun b hb => ?_⟩, Nat.le_succ_of_le h.fresh, fun id b hb => ?_⟩
  · exact List.mem_cons_of_mem _ (h.graph.attached s b hb)
  · rcases List.mem_cons.mp hb with rfl | hb
    · exact Nat.lt_succ_self _
    · exact Nat.lt_succ_of_lt (h.graph.gen b hb)
  · rw [CreateState.loadBuild_build row (lt_of_lt_of_le (hg b hb) h.fresh), h.old b hb]
  · simp only [CreateState.loadBuild, Graph.newBuild, hbs, List.cons_append]
  · rcases List.mem_cons.mp hb with rfl | hb
    · exact ⟨hself, h.fresh⟩
    · have hlt : b.gen < acc.1.fresh :=
        h.graph.gen b (hbs ▸ List.mem_append_left _ hb)
      exact ⟨(CreateState.loadBuild_build row hlt).trans (hnew b hb).1, (hnew b hb).2⟩
  · simp only [CreateState.loadBuild, Graph.newBuild, Map.lookup_insert_eq] at hb ⊢
    split_ifs at hb
    · cases hb
      exact List.mem_cons_self
    · exact List.mem_cons_of_mem _ (h.byId id b hb)

theorem loads_startPass (h : Allocated c) (rows : List (BuildID × StorePath)) :
    ∃ acc rows', rows'.Perm rows ∧ Loads c.graph rows' acc ∧
      (c.startPass rows).graph = acc.1 ∧
      (c.startPass rows).creation = { c.creation with
        fresh := c.creation.fresh + 1
        passes := c.creation.passes.insert c.creation.fresh acc.2 } := by
  have hload : ∀ (rows done : List (BuildID × StorePath)) (acc : Graph × Pass),
      Loads c.graph done acc →
      Loads c.graph (rows.reverse ++ done) (rows.foldl CreateState.loadBuild acc) := by
    intro rows
    induction rows with
    | nil => exact fun done acc hacc => hacc
    | cons row rows ih =>
      intro done acc hacc
      have := ih (row :: done) _ (hacc.loadBuild h.graph.gen row)
      simpa using this
  refine ⟨_, rows.reverse ++ [], by simp, hload rows [] (c.graph, ⟨∅, ∅, [], [], [], none⟩)
    ⟨h.graph, rfl, rfl, rfl, fun _ _ => rfl, ⟨[], rfl, .nil, by simp⟩, le_refl _, by simp⟩, rfl,
    rfl⟩

theorem startPass (h : Allocated c) (rows : List (BuildID × StorePath)) :
    Allocated (c.startPass rows) := by
  obtain ⟨acc, rows', -, hload, hgraph, hcreation⟩ := h.loads_startPass rows
  obtain ⟨bs, hbs, -, -⟩ := hload.new
  have hsub : c.graph.allocatedBuilds ⊆ (c.startPass rows).graph.allocatedBuilds := by
    rw [hgraph, hbs]
    exact List.subset_append_right _ _
  refine ⟨hgraph ▸ hload.graph, fun k call s hk hs => ?_, fun k call hk => ?_,
    fun k p id b hp hb => ?_⟩
  · rw [hcreation] at hk
    rw [hgraph, hload.allocated]
    exact h.steps k call s hk hs
  · rw [hcreation] at hk
    exact hsub (h.builds k call hk)
  · rw [hcreation, Map.lookup_insert_eq] at hp
    split_ifs at hp
    · cases hp
      rw [hgraph]
      exact hload.byId id b hb
    · exact hsub (h.waiting k p id b hp hb)

/-- Every step of the creation points only to what was allocated. -/
theorem step (h : Allocated c) (hok : CreateOk cfg c) {ans : Answer} {a : CreateAction}
    (hs : CreateStep cfg c ans a c') : Allocated c' := by
  cases hs with
  | startPass rows => exact h.startPass rows
  | @skipBuild k pass id todo hpass htodo hwaiting hid =>
    exact h.setPass k (fun id b hb => h.waiting k pass id b hpass hb)
  | @nextBuild k pass id todo b hpass htodo hwaiting hid =>
    refine ((h.setPass k (fun id' b' hb' => ?_)).bumpFresh _).setBuildCall _ ?_
    · rw [Map.lookup_erase_eq] at hb'
      split_ifs at hb'
      exact h.waiting k pass id' b' hpass hb'
    · exact h.waiting k pass id b hpass hid
  | @makeRunnable k k' pass call now todo hpass hwaiting hcall hpc =>
    have hnarrow : c.graph.NoNewRefs
        (pass.newRunnable.foldl (fun g s => g.makeRunnable now s) c.graph) :=
      .of_sameMaps (.foldl Step.Narrows.refl Step.Narrows.trans
        (fun g s => Graph.narrows_makeRunnable g now s) _ _)
        (.foldl (fun g s => .makeRunnable g now s) _ _)
    have h₁ : Allocated { c.takeBuildCall k' with
        graph := pass.newRunnable.foldl (fun g s => g.makeRunnable now s) c.graph } :=
      (h.takeBuildCall k').of_noNewRefs hnarrow rfl
    exact h₁.setPass k (fun id b hb => hnarrow.allocatedBuilds ▸ h.waiting k pass id b hpass hb)
  | @sweep k pass now order hpass hwaiting htodo horder =>
    have h₁ : Allocated { c with graph := c.graph.sweepSteps now order } :=
      h.of_noNewRefs (.of_sameMaps (Graph.narrows_sweepSteps _ now order)
        (.sweepSteps _ now order)) rfl
    refine ⟨h₁.graph, h₁.steps, h₁.builds, fun k' p id b hp hb => ?_⟩
    simp only [Map.lookup_erase_eq] at hp
    split_ifs at hp
    exact h₁.waiting k' p id b hp hb
  | @startNested k call step id todo calls pass b hcall hpc hlength hpass hid =>
    refine (((h.setPass call.pass (fun id' b' hb' => ?_)).bumpFresh _).setBuildCall _
      ?_).setBuildCall k (h.builds k call hcall)
    · rw [Map.lookup_erase_eq] at hb'
      split_ifs at hb'
      exact h.waiting call.pass pass id' b' hpass hb'
    · exact h.waiting call.pass pass id b hpass hid
  | @moveBuild a k call pc ha hcall hmove => exact h.setBuildCall k (h.builds k call hcall)
  | @finishInDb k call hcall hpc =>
    have h₁ : Allocated { c with graph := c.graph.setFinishedInDb call.build } :=
      h.of_noNewRefs (.of_eq rfl rfl rfl rfl rfl) rfl
    exact h₁.setBuildCall k (h.builds k call hcall)
  | @startToplevel k call hcall hpc =>
    obtain ⟨pc, hstart⟩ := c.started_startStep call.pass k [] call.build.drvPath
      (some call.build) none
    obtain ⟨h₁, -, hbuilds⟩ := h.started hstart (by rintro b ⟨⟩; exact h.builds k call hcall)
      (by simp)
    exact h₁.setBuildCall k (hbuilds ▸ h.builds k call hcall)
  | @takeToplevel k k' call child pc r hcall hpc hchild hresult hmove =>
    exact (h.takeStepCall k').setBuildCall k (h.builds k call hcall)
  | @takeNested k k' call child step todo calls hcall hpc hchild hresult =>
    exact (h.takeBuildCall k').setBuildCall k (h.builds k call hcall)
  | @attach k call step hcall hpc =>
    have h₁ : Allocated { c with
        graph := (if (c.graph.build call.build).finishedInDb then c.graph
          else c.graph.insertNewBuild call.build).setToplevelStep call.build step } := by
      refine h.of_noNewRefs ?_ rfl
      split_ifs <;> exact .of_eq rfl rfl rfl rfl rfl
    refine h₁.setBuildCall k ?_
    split_ifs <;> exact h.builds k call hcall
  | @startInput k call step drvPath todo calls hcall hpc hlength =>
    obtain ⟨pc, hstart⟩ := c.started_startStep call.pass call.build
      (k :: call.callers) drvPath none (some step)
    have hmem := h.steps k call step hcall (by rw [hpc]; rfl)
    obtain ⟨h₁, -, -⟩ := h.started hstart (by simp) (by rintro t ⟨⟩; exact hmem)
    have hkeep : (c.startStep call.pass call.build (k :: call.callers) drvPath none
        (some step)).1.creation.steps.lookup k = some call := by
      rw [hstart.steps, Map.lookup_insert_eq, if_neg (Nat.ne_of_lt (hok.steps k call hcall).1)]
      exact hcall
    exact h₁.keepStep hkeep (by rw [hpc]; exact fun _ hs => hs)
  | readDrv hcall hpc hans => exact h.keepStep hcall (by rw [hpc]; exact fun _ hs => hs)
  | unreadable hcall hpc hans => exact h.keepStep hcall (by simp [StepPc.step?])
  | @setDrv k call step drv hcall hpc =>
    have h₁ : Allocated { c with graph := c.graph.setDrv step drv } :=
      h.of_noNewRefs (.setDrv _ step drv) rfl
    exact h₁.keepStep hcall (by rw [hpc]; exact fun _ hs => hs)
  | @cachedFailure k call step drv missing hcall hpc hcached =>
    have h₁ : Allocated { c with graph := c.graph.setPreviousFailure step true } :=
      h.of_noNewRefs (.setPreviousFailure _ step true) rfl
    exact h₁.keepStep hcall (by simp [StepPc.step?])
  | substitute hcall hpc => exact h.keepStep hcall (by rw [hpc]; exact fun _ hs => hs)
  | decide finished hcall hpc =>
    refine h.decideStep hcall ?_ finished
    rcases hpc with ⟨hpc, -⟩ | ⟨hpc, -⟩ <;> rw [hpc] <;> rfl
  | @takeInput k k' call child step drvPath todo calls r hcall hpc hchild hresult =>
    have hthere := CreateState.lookup_takeStepCall hcall hpc hchild hresult
    exact (h.takeStepCall k').takeInput hthere (by rw [hpc]; rfl) todo calls r
  | finish hcall hpc => exact h.finishStep hcall (by rw [hpc]; rfl)

end Allocated

/-! ## The builds -/

/-- The graphs agree on which builds there are, and which of them live and
are finished. -/
structure Graph.SameLives (g g' : Graph) : Prop where
  alive : ∀ b, (g'.build b).alive = (g.build b).alive
  finished : ∀ b, (g'.build b).finishedInDb = (g.build b).finishedInDb
  allocatedBuilds : g'.allocatedBuilds = g.allocatedBuilds
  allocated : g.allocated ⊆ g'.allocated

theorem Graph.SameMaps.sameLives {g g' : Graph} (h : g.SameMaps g') : g.SameLives g' :=
  ⟨fun _ => by rw [h.build], fun _ => by rw [h.build], h.allocatedBuilds,
    by rw [h.allocated]; exact List.Subset.refl _⟩

/-- What a step of the creation does to the builds. -/
inductive BuildsStep (c : CreateState) (a : CreateAction) (g : Graph) : Prop where
  | same (hlives : c.graph.SameLives g) (hbuilds : g.builds = c.graph.builds)
  | load (rows : List (BuildID × StorePath)) (ha : a = .startPass rows)
      (hg : g = (c.startPass rows).graph)
  /-- `create_build` finishes its build. -/
  | finish (k : CallId) (call : BuildCall) (hcall : c.creation.builds.lookup k = some call)
      (hg : g = c.graph.setFinishedInDb call.build)
  /-- `create_build` ends with an unfinished build. -/
  | insert (k : CallId) (call : BuildCall) (hcall : c.creation.builds.lookup k = some call)
      (hunfinished : (c.graph.build call.build).finishedInDb = false)
      (hlives : c.graph.SameLives g)
      (hbuilds : g.builds = c.graph.builds.insert call.build.id call.build)

namespace BuildsStep

variable {c : CreateState} {a : CreateAction}

theorem of_sameMaps {g : Graph} (h : c.graph.SameMaps g) : BuildsStep c a g :=
  .same h.sameLives h.builds

theorem of_created {drvPath : StorePath} {rb : Option BuildRef} {rs : Option StepRef}
    {g : Graph} {s : StepRef} {isNew : Bool}
    (h : Graph.Created c.graph drvPath rb rs g s isNew) : BuildsStep c a g := by
  refine .same ⟨fun _ => by rw [h.build], fun _ => by rw [h.build], h.allocatedBuilds, ?_⟩
    h.builds
  rw [h.allocated]
  split_ifs
  · exact List.subset_cons_self _ _
  · exact List.Subset.refl _

theorem toplevel (g : Graph) (b : BuildRef) (s : StepRef) :
    g.SameLives (g.setToplevelStep b s) := by
  refine ⟨fun c => ?_, fun c => ?_, rfl, List.Subset.refl _⟩ <;>
    by_cases hc : c = b <;> simp [Graph.setToplevelStep, Graph.modifyBuild, hc]

theorem of_createGraph {g : Graph} (h : CreateGraph c a g) : BuildsStep c a g := by
  cases h with
  | same => exact of_sameMaps (.refl _)
  | startPass rows => exact .load rows rfl rfl
  | makeRunnable now steps => exact of_sameMaps (.foldl (fun g s => .makeRunnable g now s) _ _)
  | sweep now order => exact of_sameMaps (.sweepSteps _ now order)
  | @finishInDb k call hcall => exact .finish k call hcall rfl
  | @attach k call step hcall hpc =>
    simp only [CreateState.finishBuild, CreateState.setBuildCall_graph]
    split_ifs with hfinished
    · exact .same (toplevel c.graph call.build step) rfl
    · have hlives := toplevel (c.graph.insertNewBuild call.build) call.build step
      exact .insert k call hcall (by simpa using hfinished)
        ⟨hlives.alive, hlives.finished, rfl, List.Subset.refl _⟩ rfl
  | created h => exact of_created h
  | setDrv step drv => exact of_sameMaps ⟨rfl, rfl, rfl, rfl, rfl, rfl⟩
  | setPreviousFailure step => exact of_sameMaps ⟨rfl, rfl, rfl, rfl, rfl, rfl⟩
  | setFinished step => exact of_sameMaps ⟨rfl, rfl, rfl, rfl, rfl, rfl⟩
  | addDep step dep => exact of_sameMaps ⟨rfl, rfl, rfl, rfl, rfl, rfl⟩
  | setCreated step => exact of_sameMaps ⟨rfl, rfl, rfl, rfl, rfl, rfl⟩

/-- No step is taken from the list. -/
theorem allocated_subset {g : Graph} (h : BuildsStep c a g) (hok : Allocated c) :
    c.graph.allocated ⊆ g.allocated := by
  cases h with
  | same hlives hbuilds => exact hlives.allocated
  | load rows ha hg =>
    obtain ⟨acc, rows', -, hload, hgraph, -⟩ := hok.loads_startPass rows
    rw [hg, hgraph, hload.allocated]
    exact List.Subset.refl _
  | finish k call hcall hg =>
    rw [hg]
    exact List.Subset.refl _
  | insert k call hcall hunfinished hlives hbuilds => exact hlives.allocated

end BuildsStep

/-! ## The other steps of the runner -/

theorem CallGraph.noNewRefs {s : Shared} {t : CallTask} {g : Graph} (h : CallGraph s t g) :
    s.graph.NoNewRefs g := by
  cases h with
  | fades hg => exact .of_fades hg
  | succeeds a report item ht hitem hg =>
    rw [hg]
    exact .setFinished _ _ _
  | fails a state report caller item tries after ht hitem hg =>
    rw [hg]
    exact .modifyStep _ _ (fun _ => ⟨List.Subset.refl _, List.Subset.refl _⟩)
  | releases a report item now ht hg =>
    rw [hg]
    exact .of_sameMaps (Graph.narrows_makeRdepsRunnable _ _ _) (.makeRdepsRunnable _ _ _)

namespace Allocated

variable {cfg : Config} {r r' : Runner}

theorem runnerStep (h : Allocated r.createState) (hok : RunnerOk cfg r) {a : Action}
    (hs : RunnerStep cfg r a r') : Allocated r'.createState := by
  cases hs with
  | dispatch hres => exact h.of_noNewRefs (.of_fades (dispatch_fades hres)) rfl
  | call ht hres => exact h.of_noNewRefs (callGraph_of_resume hres).noNewRefs rfl
  | completeBuild uuid machineId state report =>
    rw [Runner.createState_completeBuild]
    exact h
  | @endStream m hm =>
    rw [Runner.createState_endStream]
    exact h
  | queueChange curIds =>
    simp only [Runner.createState, Runner.spawn_shared, Runner.spawn_creation]
    exact h.of_noNewRefs (.of_fades (.retainBuilds _ _)) rfl
  | insertMachine id record sortFn => exact h
  | create hnext => exact h.step hok.create (CreateState.createStep_of_next hnext)
  | @dropStep s hheld =>
    have hrefs : r.shared.graph.NoNewRefs (r.shared.graph.dropStep s) :=
      .modifyStep _ _ (fun _ => ⟨List.Subset.refl _, List.Subset.refl _⟩)
    exact h.of_noNewRefs hrefs rfl
  | @dropBuild b hheld =>
    have hrefs : r.shared.graph.NoNewRefs (r.shared.graph.dropBuild b) :=
      .of_eq rfl rfl rfl rfl rfl
    exact h.of_noNewRefs hrefs rfl

/-- No step of the runner takes a step from the list. -/
theorem subset_of_runnerGraph (h : Allocated r.createState) {a : Action} {g : Graph}
    (hg : RunnerGraph r a g) : r.shared.graph.allocated ⊆ g.allocated := by
  cases hg with
  | fades hg => exact hg.allocated ▸ List.Subset.refl _
  | call ht hg => exact hg.noNewRefs.allocated ▸ List.Subset.refl _
  | create hg => exact (BuildsStep.of_createGraph hg).allocated_subset h
  | dropStep s => exact List.Subset.refl _
  | dropBuild b => exact List.Subset.refl _

/-- In every state of the runner, what is pointed to was allocated. -/
theorem reach {ok : Runner → Action → Prop}
    (h : Lts.Reach (Runner.next cfg) ok {} r) : Allocated r.createState := by
  refine h.invariant_of_reach (I := fun r => Allocated r.createState) init ?_
  intro r a r' hreach hr _ hnext
  exact hr.runnerStep (RunnerOk.reach hreach) (runnerStep_of_next hnext)

end Allocated

end QueueRunner
