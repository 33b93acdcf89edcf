import QueueRunner.CreateEffects

/-!
# Invariants of the creation

What holds of the step graph and of the calls that create it, whatever
the stores and the database answer.  A derivation that a step carries is
the one of its path, a step is registered under its own path, and a build
is among the builds of the step that it waits for.
-/

namespace QueueRunner

/-- The step that a call has created or found. -/
def StepPc.step? : StepPc → Option StepRef
  | .queryDrv s | .queryOutputs s _ | .checkCached s _ _ | .substitute s _ _
  | .inputs s _ _ => some s
  | .returned (.valid s) => some s
  | .returned _ => none

/-- The derivation that a call has read. -/
def StepPc.drv? : StepPc → Option Derivation
  | .queryOutputs _ d | .checkCached _ d _ | .substitute _ d _ => some d
  | _ => none

/-- A step keeps its builds and its derivation. -/
structure Graph.Carries (g g' : Graph) : Prop where
  drv : ∀ s, (g'.step s).drv = (g.step s).drv
  attached : ∀ s, (g'.step s).builds = (g.step s).builds
  steps : ∀ p s, g'.steps.lookup p = some s → g.steps.lookup p = some s
  toplevel : ∀ b, (g'.build b).toplevel = (g.build b).toplevel
  fresh : g'.fresh = g.fresh

namespace Graph.Carries

variable {g g' : Graph}

theorem of_fades (h : g.Fades g') : g.Carries g' :=
  ⟨fun s => (h.sameBase s).drv, fun s => (h.sameBase s).builds, h.steps,
    h.toplevel, h.fresh⟩

/-- A change of the steps that leaves the maps and the builds alone. -/
theorem of_sameBase (h : g.SameBase g') (hmaps : g.SameMaps g') : g.Carries g' :=
  ⟨fun s => (h s).drv, fun s => (h s).builds, fun _ _ hs => hmaps.steps ▸ hs,
    fun _ => by rw [hmaps.build], hmaps.fresh⟩

/-- A change of one step. -/
theorem modifyStep (g : Graph) (s : StepRef) {f : Step → Step}
    (hdrv : ∀ r, (f r).drv = r.drv) (hbuilds : ∀ r, (f r).builds = r.builds) :
    g.Carries (g.modifyStep s f) := by
  refine ⟨fun t => ?_, fun t => ?_, fun _ _ => id, fun _ => rfl, rfl⟩
  · rw [modifyStep_step]
    split_ifs
    · exact hdrv _
    · rfl
  · rw [modifyStep_step]
    split_ifs
    · exact hbuilds _
    · rfl

end Graph.Carries

/-- The part of the invariant that is about the graph alone. -/
structure GraphOk (cfg : Config) (g : Graph) : Prop where
  steps : ∀ p s, g.steps.lookup p = some s → s.drvPath = p ∧ s.gen < g.fresh
  drv : ∀ s d, (g.step s).drv = some d → d = cfg.drvOf s.drvPath
  toplevel : ∀ b s, (g.build b).toplevel = some s → b ∈ (g.step s).builds
  fresh : ∀ s, g.fresh ≤ s.gen → (g.step s).builds = []

/-- A call of `create_step` works for its derivation path. -/
structure StepCallOk (cfg : Config) (g : Graph) (call : StepCall) : Prop where
  path : ∀ s, call.pc.step? = some s → s.drvPath = call.drvPath
  drv : ∀ d, call.pc.drv? = some d → d = cfg.drvOf call.drvPath
  attached : ∀ s b, call.pc.step? = some s → call.referringBuild = some b →
    b ∈ (g.step s).builds

/-- A call of `create_build` waits for a step of its build. -/
structure BuildCallOk (c : CreateState) (call : BuildCall) : Prop where
  nested : ∀ s todo calls, call.pc = .nested (some s) todo calls →
    call.build ∈ (c.graph.step s).builds ∧ s.drvPath = call.build.drvPath
  toplevel : ∀ k, call.pc = .step k → k < c.creation.fresh ∧
    ∀ child, c.creation.steps.lookup k = some child →
      child.referringBuild = some call.build ∧ child.drvPath = call.build.drvPath

/-- The invariant of the creation. -/
structure CreateOk (cfg : Config) (c : CreateState) : Prop where
  graph : GraphOk cfg c.graph
  steps : ∀ k call, c.creation.steps.lookup k = some call →
    k < c.creation.fresh ∧ StepCallOk cfg c.graph call
  builds : ∀ k call, c.creation.builds.lookup k = some call →
    BuildCallOk c call

theorem StepCallOk.mono {cfg : Config} {g g' : Graph} {call : StepCall}
    (h : StepCallOk cfg g call)
    (hbuilds : ∀ s b, b ∈ (g.step s).builds → b ∈ (g'.step s).builds) :
    StepCallOk cfg g' call :=
  ⟨h.path, h.drv, fun s b hs hb => hbuilds s b (h.attached s b hs hb)⟩

theorem GraphOk.carries {cfg : Config} {g g' : Graph} (h : GraphOk cfg g)
    (hc : g.Carries g') : GraphOk cfg g' where
  steps p s hs := by
    rw [hc.fresh]
    exact h.steps p s (hc.steps p s hs)
  drv s d hd := h.drv s d (by rwa [hc.drv s] at hd)
  toplevel b s hs := by
    rw [hc.attached]
    exact h.toplevel b s (by rwa [hc.toplevel b] at hs)
  fresh s hs := by
    rw [hc.attached]
    exact h.fresh s (by rwa [hc.fresh] at hs)

/-- A call that neither waits for its step nor for the nested builds. -/
theorem BuildCallOk.of_pc {c : CreateState} {call : BuildCall}
    (hnested : ∀ s todo calls, call.pc ≠ .nested (some s) todo calls)
    (hstep : ∀ k, call.pc ≠ .step k) : BuildCallOk c call :=
  ⟨fun s todo calls h => absurd h (hnested s todo calls),
    fun k h => absurd h (hstep k)⟩

namespace Graph.Carries

theorem setFinishedInDb (g : Graph) (b : BuildRef) :
    g.Carries (g.setFinishedInDb b) := by
  refine ⟨fun _ => rfl, fun _ => rfl, fun _ _ => id, fun c => ?_, rfl⟩
  by_cases h : c = b
  · subst h
    simp [Graph.setFinishedInDb, modifyBuild]
  · simp [Graph.setFinishedInDb, modifyBuild, h]

theorem dropBuild (g : Graph) (b : BuildRef) : g.Carries (g.dropBuild b) := by
  refine ⟨fun _ => rfl, fun _ => rfl, fun _ _ => id, fun c => ?_, rfl⟩
  by_cases h : c = b
  · subst h
    simp [Graph.dropBuild, modifyBuild]
  · simp [Graph.dropBuild, modifyBuild, h]

theorem dropStep (g : Graph) (s : StepRef) : g.Carries (g.dropStep s) :=
  modifyStep g s (fun _ => rfl) (fun _ => rfl)

theorem setFinished (g : Graph) (s : StepRef) (v : Bool) :
    g.Carries (g.setFinished s v) := by
  unfold Graph.setFinished
  exact modifyStep g s (fun _ => rfl) (fun _ => rfl)

theorem setPreviousFailure (g : Graph) (s : StepRef) (v : Bool) :
    g.Carries (g.setPreviousFailure s v) := by
  unfold Graph.setPreviousFailure
  exact modifyStep g s (fun _ => rfl) (fun _ => rfl)

theorem setCreated (g : Graph) (s : StepRef) : g.Carries (g.setCreated s) := by
  unfold Graph.setCreated
  exact modifyStep g s (fun _ => rfl) (fun _ => rfl)

theorem addDep (g : Graph) (s dep : StepRef) : g.Carries (g.addDep s dep) := by
  unfold Graph.addDep
  exact modifyStep g s (fun _ => rfl) (fun _ => rfl)

theorem insertNewBuild (g : Graph) (b : BuildRef) :
    g.Carries (g.insertNewBuild b) :=
  ⟨fun _ => rfl, fun _ => rfl, fun _ _ => id, fun _ => rfl, rfl⟩

end Graph.Carries

namespace GraphOk

variable {cfg : Config} {g : Graph}

theorem newBuild (h : GraphOk cfg g) (id : BuildID) (drvPath : StorePath) :
    GraphOk cfg (g.newBuild id drvPath).1 where
  steps p s hs := ⟨(h.steps p s hs).1, Nat.lt_succ_of_lt (h.steps p s hs).2⟩
  drv := h.drv
  toplevel b s hs := by
    simp only [Graph.newBuild] at hs
    by_cases hb : b = ⟨id, drvPath, g.fresh⟩
    · simp [hb] at hs
    · rw [Function.update_of_ne hb] at hs
      exact h.toplevel b s hs
  fresh s hs := h.fresh s (le_trans (Nat.le_succ _) hs)

theorem setToplevelStep (h : GraphOk cfg g) {b : BuildRef} {s : StepRef}
    (hmem : b ∈ (g.step s).builds) : GraphOk cfg (g.setToplevelStep b s) where
  steps := h.steps
  drv := h.drv
  toplevel c t ht := by
    simp only [Graph.setToplevelStep, Graph.modifyBuild] at ht
    by_cases hc : c = b
    · subst hc
      simp only [Function.update_self, Option.some.injEq] at ht
      exact ht ▸ hmem
    · rw [Function.update_of_ne hc] at ht
      exact h.toplevel c t ht
  fresh := h.fresh

theorem setDrv (h : GraphOk cfg g) {s : StepRef} {drv : Derivation}
    (hdrv : drv = cfg.drvOf s.drvPath) : GraphOk cfg (g.setDrv s drv) where
  steps := h.steps
  drv t d hd := by
    simp only [Graph.setDrv, Graph.modifyStep_step] at hd
    split_ifs at hd with ht
    · cases hd
      exact ht ▸ hdrv
    · exact h.drv t d hd
  toplevel b t ht := by
    simp only [Graph.setDrv, Graph.modifyStep_step]
    split_ifs <;> exact h.toplevel b t ht
  fresh t ht := by
    simp only [Graph.setDrv, Graph.modifyStep_step]
    split_ifs <;> exact h.fresh t ht

end GraphOk

section Created

variable {cfg : Config} {g g' : Graph} {drvPath : StorePath}
  {rb : Option BuildRef} {rs : Option StepRef} {s : StepRef} {isNew : Bool}

/-- The step that `Steps::create` returns: its path, and the build that
refers to it. -/
theorem GraphOk.created_mem (h : GraphOk cfg g)
    (hc : g.Created drvPath rb rs g' s isNew) :
    s.drvPath = drvPath ∧ s.gen < g'.fresh ∧
      ∀ b, rb = some b → b ∈ (g'.step s).builds := by
  have hbuild : ∀ b, rb = some b → b ∈ (g'.step s).builds := by
    rintro b rfl
    rw [hc.step, if_pos rfl]
    simp [Graph.referred]
  cases isNew with
  | true =>
    obtain ⟨-, rfl⟩ := hc.notFound rfl
    rw [hc.fresh]
    exact ⟨rfl, Nat.lt_succ_self _, hbuild⟩
  | false =>
    obtain ⟨hpath, hgen⟩ := h.steps _ _
      (Graph.findStep_eq_some.mp (hc.found rfl)).1
    rw [hc.fresh]
    exact ⟨hpath, hgen, hbuild⟩

/-- No step loses a build: a new step had none. -/
theorem GraphOk.created_builds (h : GraphOk cfg g)
    (hc : g.Created drvPath rb rs g' s isNew) (t : StepRef) (b : BuildRef)
    (hb : b ∈ (g.step t).builds) : b ∈ (g'.step t).builds := by
  rw [hc.step]
  split_ifs with ht hnew
  · obtain ⟨-, rfl⟩ := hc.notFound hnew
    rw [ht, h.fresh _ (le_refl _)] at hb
    cases hb
  · subst ht
    exact List.mem_append_left _ hb
  · exact hb

theorem GraphOk.created (h : GraphOk cfg g)
    (hc : g.Created drvPath rb rs g' s isNew) : GraphOk cfg g' where
  steps p t ht := by
    rw [hc.steps, Map.lookup_insert_eq] at ht
    split_ifs at ht with hp
    · cases ht
      obtain ⟨hpath, hgen, -⟩ := h.created_mem hc
      exact ⟨hpath.trans hp.symm, hgen⟩
    · obtain ⟨hpath, hgen⟩ := h.steps p t ht
      refine ⟨hpath, lt_of_lt_of_le hgen ?_⟩
      rw [hc.fresh]
      split_ifs <;> omega
  drv t d hd := by
    rw [hc.step] at hd
    split_ifs at hd with ht hnew
    · simp [Graph.referred] at hd
    · exact ht ▸ h.drv s d hd
    · exact h.drv t d hd
  toplevel b t ht := by
    rw [hc.build] at ht
    exact h.created_builds hc t b (h.toplevel b t ht)
  fresh t ht := by
    have hgen := (h.created_mem hc).2.1
    have hne : t ≠ s := by
      rintro rfl
      omega
    rw [hc.step, if_neg hne]
    refine h.fresh t (le_trans ?_ ht)
    rw [hc.fresh]
    split_ifs <;> omega

end Created

namespace CreateOk

variable {cfg : Config} {c c' : CreateState}

theorem init : CreateOk cfg ⟨{}, [], {}⟩ := by
  refine ⟨?_, by simp, by simp⟩
  constructor <;> simp

/-- A change of the graph under calls that stay as they are. -/
theorem of_graph (h : CreateOk cfg c) (hg : GraphOk cfg c'.graph)
    (hbuilds : ∀ s b, b ∈ (c.graph.step s).builds → b ∈ (c'.graph.step s).builds)
    (hcreation : c'.creation = c.creation) : CreateOk cfg c' where
  graph := hg
  steps k call hk := by
    rw [hcreation] at hk ⊢
    exact ⟨(h.steps k call hk).1, (h.steps k call hk).2.mono hbuilds⟩
  builds k call hk := by
    rw [hcreation] at hk
    have hb := h.builds k call hk
    refine ⟨fun s todo calls hpc => ?_, fun k' hpc => ?_⟩
    · obtain ⟨hmem, hpath⟩ := hb.nested s todo calls hpc
      exact ⟨hbuilds s _ hmem, hpath⟩
    · rw [hcreation]
      exact hb.toplevel k' hpc

/-- A change of the graph that keeps derivations and builds. -/
theorem of_carries (h : CreateOk cfg c) (hc : c.graph.Carries c'.graph)
    (hcreation : c'.creation = c.creation) : CreateOk cfg c' :=
  h.of_graph (h.graph.carries hc) (fun s b hb => by rwa [hc.attached]) hcreation

/-- A call of `create_step` moves on. -/
theorem setStepCall (h : CreateOk cfg c) {k : CallId} {call call' : StepCall}
    (hcall : c.creation.steps.lookup k = some call)
    (hok : StepCallOk cfg c.graph call')
    (hbuild : call'.referringBuild = call.referringBuild)
    (hpath : call'.drvPath = call.drvPath) :
    CreateOk cfg (c.setStepCall k call') where
  graph := h.graph
  steps k' call₁ hk' := by
    simp only [CreateState.setStepCall_steps, Map.lookup_insert_eq] at hk'
    split_ifs at hk' with he
    · cases hk'
      exact ⟨he ▸ (h.steps k call hcall).1, hok⟩
    · exact h.steps k' call₁ hk'
  builds k' call₁ hk' := by
    have hb := h.builds k' call₁ hk'
    refine ⟨hb.nested, fun k₂ hpc => ⟨(hb.toplevel k₂ hpc).1, fun child hchild => ?_⟩⟩
    simp only [CreateState.setStepCall_steps, Map.lookup_insert_eq] at hchild
    split_ifs at hchild with he
    · cases hchild
      rw [hbuild, hpath]
      exact (hb.toplevel k₂ hpc).2 call (he ▸ hcall)
    · exact (hb.toplevel k₂ hpc).2 child hchild

/-- Calls of `create_step` go away. -/
theorem of_steps_subset (h : CreateOk cfg c) (hg : c'.graph = c.graph)
    (hbuilds : c'.creation.builds = c.creation.builds)
    (hfresh : c.creation.fresh ≤ c'.creation.fresh)
    (hsteps : ∀ k call, c'.creation.steps.lookup k = some call →
      c.creation.steps.lookup k = some call) : CreateOk cfg c' where
  graph := hg ▸ h.graph
  steps k call hk := by
    obtain ⟨hlt, hok⟩ := h.steps k call (hsteps k call hk)
    exact ⟨lt_of_lt_of_le hlt hfresh, hg ▸ hok⟩
  builds k call hk := by
    rw [hbuilds] at hk
    have hb := h.builds k call hk
    refine ⟨fun s todo calls hpc => ?_, fun k' hpc => ?_⟩
    · rw [hg]
      exact hb.nested s todo calls hpc
    · exact ⟨lt_of_lt_of_le (hb.toplevel k' hpc).1 hfresh, fun child hchild =>
        (hb.toplevel k' hpc).2 child (hsteps k' child hchild)⟩

theorem takeStepCall (h : CreateOk cfg c) (k : CallId) :
    CreateOk cfg (c.takeStepCall k) := by
  refine h.of_steps_subset rfl rfl (le_refl _) ?_
  intro k' call hk'
  simp only [CreateState.takeStepCall_steps, Map.lookup_erase_eq] at hk'
  split_ifs at hk'
  exact hk'

theorem takeBuildCall (h : CreateOk cfg c) (k : CallId) :
    CreateOk cfg (c.takeBuildCall k) where
  graph := h.graph
  steps := h.steps
  builds k' call hk' := by
    simp only [CreateState.takeBuildCall_builds, Map.lookup_erase_eq] at hk'
    split_ifs at hk'
    exact ⟨(h.builds k' call hk').nested, (h.builds k' call hk').toplevel⟩

theorem setPass (h : CreateOk cfg c) (k : CallId) (pass : Pass) :
    CreateOk cfg (c.setPass k pass) :=
  h.of_steps_subset rfl rfl (le_refl _) (fun _ _ hk => hk)

/-- A call of `create_build` moves on. -/
theorem setBuildCall (h : CreateOk cfg c) (k : CallId) {call : BuildCall}
    (hok : BuildCallOk c call) : CreateOk cfg (c.setBuildCall k call) where
  graph := h.graph
  steps := h.steps
  builds k' call' hk' := by
    simp only [CreateState.setBuildCall_builds, Map.lookup_insert_eq] at hk'
    split_ifs at hk'
    · cases hk'
      exact ⟨hok.nested, hok.toplevel⟩
    · exact ⟨(h.builds k' call' hk').nested, (h.builds k' call' hk').toplevel⟩

/-- A new call of `create_step` enters the pool. -/
theorem started (h : CreateOk cfg c) {pass build : CallId}
    {callers : List CallId} {drvPath : StorePath} {rb : Option BuildRef}
    {rs : Option StepRef} {pc : StepPc}
    (hs : CreateState.Started c pass build callers drvPath rb rs c' pc) :
    CreateOk cfg c' := by
  have hgraph : GraphOk cfg c'.graph ∧
      (∀ s b, b ∈ (c.graph.step s).builds → b ∈ (c'.graph.step s).builds) ∧
      StepCallOk cfg c'.graph ⟨pass, build, callers, drvPath, rb, rs, pc⟩ := by
    rcases hs.result with ⟨rfl, hg, -⟩ | ⟨s, isNew, hcreated, hpc⟩
    · rw [hg]
      exact ⟨h.graph, fun _ _ => id,
        ⟨by simp [StepPc.step?], by simp [StepPc.drv?], by simp [StepPc.step?]⟩⟩
    · have hbuilds := h.graph.created_builds hcreated
      have hstep : pc.step? = some s ∧ pc.drv? = none := by
        subst hpc
        cases isNew <;> exact ⟨rfl, rfl⟩
      have hmem := h.graph.created_mem hcreated
      refine ⟨h.graph.created hcreated, hbuilds, ⟨?_, by simp [hstep.2], ?_⟩⟩
      · intro t ht
        rw [hstep.1, Option.some.injEq] at ht
        exact ht ▸ hmem.1
      · intro t b ht hb
        rw [hstep.1, Option.some.injEq] at ht
        exact ht ▸ hmem.2.2 b hb
  obtain ⟨hg, hbuilds, hok⟩ := hgraph
  refine ⟨hg, fun k call hk => ?_, fun k call hk => ?_⟩
  · rw [hs.steps, Map.lookup_insert_eq] at hk
    rw [hs.fresh]
    split_ifs at hk with he
    · cases hk
      exact ⟨he ▸ Nat.lt_succ_self _, hok⟩
    · exact ⟨Nat.lt_succ_of_lt (h.steps k call hk).1, (h.steps k call hk).2.mono hbuilds⟩
  · rw [hs.builds] at hk
    have hb := h.builds k call hk
    refine ⟨fun s todo calls hpc => ?_, fun k' hpc => ?_⟩
    · obtain ⟨hmem, hpath⟩ := hb.nested s todo calls hpc
      exact ⟨hbuilds s _ hmem, hpath⟩
    · obtain ⟨hlt, hchild⟩ := hb.toplevel k' hpc
      rw [hs.fresh, hs.steps]
      refine ⟨Nat.lt_succ_of_lt hlt, fun child hk' => ?_⟩
      rw [Map.lookup_insert_eq, if_neg (Nat.ne_of_lt hlt)] at hk'
      exact hchild child hk'

theorem insertFinishedDrv (h : CreateOk cfg c) (k : CallId) (drvPath : StorePath) :
    CreateOk cfg (c.insertFinishedDrv k drvPath) := by
  obtain ⟨hg, -, hs, hb, hf⟩ := c.insertFinishedDrv_frame k drvPath
  exact h.of_steps_subset hg hb hf.ge (fun _ _ hk => hs ▸ hk)

theorem insertNewRunnable (h : CreateOk cfg c) (k : CallId) (s : StepRef) :
    CreateOk cfg (c.insertNewRunnable k s) := by
  obtain ⟨hg, -, hs, hb, hf⟩ := c.insertNewRunnable_frame k s
  exact h.of_steps_subset hg hb hf.ge (fun _ _ hk => hs ▸ hk)

theorem insertNewStep (h : CreateOk cfg c) (k : CallId) (s : StepRef) :
    CreateOk cfg (c.insertNewStep k s) := by
  obtain ⟨hg, -, hs, -, hf⟩ := c.insertNewStep_frame k s
  refine ⟨hg ▸ h.graph, fun k' call hk => ?_, fun k' call hk => ?_⟩
  · rw [hs] at hk
    rw [hf, hg]
    exact h.steps k' call hk
  · obtain ⟨call₀, hcall₀, -, hbuild, hpc⟩ := c.insertNewStep_builds k s hk
    have hb := h.builds k' call₀ hcall₀
    refine ⟨fun t todo calls ht => ?_, fun k₂ ht => ?_⟩
    · rw [hg, hbuild]
      exact hb.nested t todo calls (hpc ▸ ht)
    · rw [hf, hs, hbuild]
      exact hb.toplevel k₂ (hpc ▸ ht)

/-- A call of `create_step` returns nothing. -/
theorem returnNone (h : CreateOk cfg c) {k : CallId} {call : StepCall}
    (hcall : c.creation.steps.lookup k = some call) (r : CreateStepResult)
    (hr : (StepPc.returned r).step? = none) :
    CreateOk cfg (c.returnStep k call r) :=
  h.setStepCall hcall
    ⟨by simp [hr], by simp [StepPc.drv?], by simp [hr]⟩ rfl rfl

/-- A call of `create_step` moves on with its step. -/
theorem keepStep (h : CreateOk cfg c) {k : CallId} {call : StepCall}
    {step : StepRef} {pc : StepPc}
    (hcall : c.creation.steps.lookup k = some call)
    (hstep : call.pc.step? = some step) (hpc : pc.step? = some step)
    (hdrv : ∀ d, pc.drv? = some d → d = cfg.drvOf call.drvPath) :
    CreateOk cfg (c.setStepCall k { call with pc := pc }) := by
  have hok := (h.steps k call hcall).2
  refine h.setStepCall hcall ⟨fun s hs => ?_, hdrv, fun s b hs hb => ?_⟩ rfl rfl
  · exact hok.path s (hstep.trans (hpc.symm.trans hs))
  · exact hok.attached s b (hstep.trans (hpc.symm.trans hs)) hb

theorem decideStep (h : CreateOk cfg c) {k : CallId} {call : StepCall}
    (hcall : c.creation.steps.lookup k = some call) {step : StepRef}
    {drv : Derivation} (hstep : call.pc.step? = some step) (finished : Bool) :
    CreateOk cfg (c.decideStep k call step drv finished) := by
  unfold CreateState.decideStep
  cases finished with
  | false =>
    rw [if_neg Bool.false_ne_true]
    exact h.keepStep hcall hstep rfl (by simp [StepPc.drv?])
  | true =>
    rw [if_pos rfl]
    have h₁ := h.insertFinishedDrv call.pass call.drvPath
    have hsteps := (c.insertFinishedDrv_frame call.pass call.drvPath).2.2.1
    have h₂ : CreateOk cfg ⟨(c.insertFinishedDrv call.pass
        call.drvPath).graph.setFinished step true, if outputsKnown drv then
        call.drvPath :: (c.insertFinishedDrv call.pass call.drvPath).present
        else (c.insertFinishedDrv call.pass call.drvPath).present,
        (c.insertFinishedDrv call.pass call.drvPath).creation⟩ :=
      h₁.of_carries (.setFinished _ step true) rfl
    exact h₂.returnNone (hsteps ▸ hcall) .none rfl

theorem takeInput (h : CreateOk cfg c) {k : CallId} {call : StepCall}
    (hcall : c.creation.steps.lookup k = some call) {step : StepRef}
    (hstep : call.pc.step? = some step) (todo : List StorePath)
    (calls : List (StorePath × CallId)) (r : CreateStepResult) :
    CreateOk cfg (c.takeInput k call step todo calls r) := by
  unfold CreateState.takeInput
  simp only
  cases r with
  | none => exact h.keepStep hcall hstep rfl (by simp [StepPc.drv?])
  | valid dep =>
    simp only
    split_ifs
    · have h₁ : CreateOk cfg { c with graph := c.graph.addDep step dep } :=
        h.of_carries (.addDep _ step dep) rfl
      exact h₁.keepStep hcall hstep rfl (by simp [StepPc.drv?])
    · exact h.keepStep hcall hstep rfl (by simp [StepPc.drv?])
  | previousFailure failed =>
    -- the callees are dropped from the pool in which the call has returned
    refine (h.returnNone hcall (.previousFailure failed) rfl).of_steps_subset
      rfl rfl (le_refl _) ?_
    intro k' call' hk'
    simp only [CreateState.returnStep, CreateState.dropCallees,
      CreateState.setStepCall_steps, Map.lookup_insert_eq, Map.lookup_retain] at hk' ⊢
    split_ifs at hk' ⊢
    · exact hk'
    · exact (Option.filter_eq_some_iff.mp hk').1

theorem finishStep (h : CreateOk cfg c) {k : CallId} {call : StepCall}
    (hcall : c.creation.steps.lookup k = some call) {step : StepRef}
    (hstep : call.pc.step? = some step) :
    CreateOk cfg (c.finishStep k call step) := by
  have h₁ : CreateOk cfg { c with graph := c.graph.setCreated step } :=
    h.of_carries (.setCreated _ step) rfl
  unfold CreateState.finishStep
  simp only [CreateState.returnStep]
  split_ifs
  · have h₂ := (h₁.insertNewRunnable call.pass step).insertNewStep call.build step
    refine h₂.keepStep ?_ hstep rfl (by simp [StepPc.drv?])
    rw [(CreateState.insertNewStep_frame ..).2.2.1,
      (CreateState.insertNewRunnable_frame ..).2.2.1]
    exact hcall
  · have h₂ := h₁.insertNewStep call.build step
    refine h₂.keepStep ?_ hstep rfl (by simp [StepPc.drv?])
    rw [(CreateState.insertNewStep_frame ..).2.2.1]
    exact hcall

/-- Another call id is taken. -/
theorem bumpFresh (h : CreateOk cfg c) :
    CreateOk cfg { c with
      creation := { c.creation with fresh := c.creation.fresh + 1 } } :=
  h.of_steps_subset rfl rfl (Nat.le_succ _) (fun _ _ hk => hk)

/-- The builds that a new pass loads. -/
theorem startPass (h : CreateOk cfg c) (rows : List (BuildID × StorePath)) :
    CreateOk cfg (c.startPass rows) := by
  have hload : ∀ (rows : List (BuildID × StorePath)) (acc : Graph × Pass),
      GraphOk cfg acc.1 → acc.1.step = c.graph.step →
      GraphOk cfg (rows.foldl CreateState.loadBuild acc).1 ∧
        (rows.foldl CreateState.loadBuild acc).1.step = c.graph.step := by
    intro rows
    induction rows with
    | nil => exact fun acc hok hstep => ⟨hok, hstep⟩
    | cons row rows ih => exact fun acc hok hstep => ih _ (hok.newBuild _ _) hstep
  obtain ⟨hok, hstep⟩ := hload rows (c.graph, ⟨∅, ∅, [], [], [], none⟩) h.graph rfl
  have h₁ : CreateOk cfg { c with graph := (rows.foldl CreateState.loadBuild
      (c.graph, ⟨∅, ∅, [], [], [], none⟩)).1 } :=
    h.of_graph hok (fun s b hb => by rwa [hstep]) rfl
  exact h₁.bumpFresh.setPass _ _

/-- Every step of the creation keeps the invariant. -/
theorem step (h : CreateOk cfg c) {ans : Answer} {a : CreateAction}
    (hs : CreateStep cfg c ans a c') : CreateOk cfg c' := by
  cases hs with
  | startPass rows => exact h.startPass rows
  | skipBuild hpass htodo hwaiting hid => exact h.setPass _ _
  | nextBuild hpass htodo hwaiting hid =>
    exact ((h.setPass _ _).bumpFresh).setBuildCall _ (.of_pc (by simp) (by simp))
  | @makeRunnable k k' pass call now todo hpass hwaiting hcall hpc =>
    refine CreateOk.setPass ?_ _ _
    refine (h.takeBuildCall k').of_carries (.of_sameBase ?_ ?_) rfl
    · exact Graph.Keeps.foldl Step.SameBase.refl (fun _ _ _ => Step.SameBase.trans)
        (fun g s => Graph.sameBase_makeRunnable g s now) _ _
    · exact .foldl (fun g s => .makeRunnable g now s) _ _
  | @sweep k pass now order hpass hwaiting htodo horder =>
    have h₁ : CreateOk cfg { c with graph := c.graph.sweepSteps now order } :=
      h.of_carries (.of_sameBase (Graph.sameBase_sweepSteps _ now order)
        (.sweepSteps _ now order)) rfl
    exact h₁.of_steps_subset rfl rfl (le_refl _) (fun _ _ hk => hk)
  | startNested hcall hpc hlength hpass hid =>
    refine ((h.setPass _ _).bumpFresh.setBuildCall _
      (.of_pc (by simp) (by simp))).setBuildCall _ ⟨?_, by simp⟩
    rintro s todo calls ⟨⟩
    exact (h.builds _ _ hcall).nested s _ _ hpc
  | moveBuild ha hcall hmove =>
    refine h.setBuildCall _ ⟨?_, ?_⟩
    · rintro s todo calls ⟨⟩
      rcases hmove with ⟨step, id, todo', calls', hpc, he⟩ | ⟨-, he⟩ | ⟨-, he⟩ | ⟨-, he⟩ <;>
        cases he
      exact (h.builds _ _ hcall).nested s _ _ hpc
    · rintro k ⟨⟩
      rcases hmove with ⟨step, id, todo', calls', hpc, he⟩ | ⟨-, he⟩ | ⟨-, he⟩ | ⟨-, he⟩ <;>
        cases he
  | @finishInDb k call hcall hpc =>
    have h₁ : CreateOk cfg { c with graph := c.graph.setFinishedInDb call.build } :=
      h.of_carries (.setFinishedInDb _ _) rfl
    exact h₁.setBuildCall _ (.of_pc (by simp) (by simp))
  | @startToplevel k call hcall hpc =>
    obtain ⟨pc, hstart⟩ := c.started_startStep call.pass k [] call.build.drvPath
      (some call.build) none
    refine (h.started hstart).setBuildCall _ ⟨by simp, ?_⟩
    rintro k' ⟨⟩
    rw [hstart.fresh, hstart.steps, AList.lookup_insert]
    refine ⟨Nat.lt_succ_self _, ?_⟩
    rintro child ⟨⟩
    exact ⟨rfl, rfl⟩
  | @takeToplevel k k' call child pc r hcall hpc hchild hresult hmove =>
    refine (h.takeStepCall k').setBuildCall _ ⟨?_, ?_⟩
    · rintro s todo calls ⟨⟩
      rcases hmove with ⟨t, -, he | he⟩ | ⟨ids, -, he⟩ | ⟨t, ids, hr, he⟩ <;> cases he
      subst hr
      obtain ⟨hbuild, hpath⟩ := ((h.builds k call hcall).toplevel k' hpc).2 child hchild
      have hok := (h.steps k' child hchild).2
      have hstep : child.pc.step? = some s := by rw [hresult]; rfl
      exact ⟨hok.attached s _ hstep hbuild, (hok.path s hstep).trans hpath⟩
    · rintro k₂ ⟨⟩
      rcases hmove with ⟨t, -, he | he⟩ | ⟨ids, -, he⟩ | ⟨t, ids, hr, he⟩ <;> cases he
  | @takeNested k k' call child step todo calls hcall hpc hchild hresult =>
    refine (h.takeBuildCall k').setBuildCall _ ⟨?_, by simp⟩
    rintro s todo' calls' ⟨⟩
    exact (h.builds k call hcall).nested s _ _ hpc
  | @attach k call step hcall hpc =>
    have hmem := ((h.builds k call hcall).nested step [] [] hpc).1
    have h₁ : CreateOk cfg { c with
        graph := (if (c.graph.build call.build).finishedInDb then c.graph
          else c.graph.insertNewBuild call.build).setToplevelStep call.build step } := by
      refine h.of_graph ?_ ?_ rfl
      · split_ifs
        · exact h.graph.setToplevelStep hmem
        · exact (h.graph.carries (.insertNewBuild _ _)).setToplevelStep hmem
      · intro s b hb
        split_ifs <;> exact hb
    exact h₁.setBuildCall k (.of_pc (by simp) (by simp))
  | @startInput k call step drvPath todo calls hcall hpc hlength =>
    obtain ⟨pc, hstart⟩ := c.started_startStep call.pass call.build
      (k :: call.callers) drvPath none (some step)
    refine (h.started hstart).keepStep ?_ (by rw [hpc]; rfl) rfl
      (by simp [StepPc.drv?])
    rw [hstart.steps, Map.lookup_insert_eq, if_neg (Nat.ne_of_lt (h.steps k call hcall).1)]
    exact hcall
  | @readDrv k call step hcall hpc hok =>
    exact h.keepStep hcall (by rw [hpc]; rfl) rfl
      (by rintro d ⟨⟩; rfl)
  | unreadable hcall hpc hok => exact h.returnNone hcall .none rfl
  | @setDrv k call step drv hcall hpc =>
    have hok := (h.steps k call hcall).2
    have hdrv : drv = cfg.drvOf call.drvPath := hok.drv drv (by rw [hpc]; rfl)
    have hpath : step.drvPath = call.drvPath := hok.path step (by rw [hpc]; rfl)
    have h₁ : CreateOk cfg { c with graph := c.graph.setDrv step drv } :=
      h.of_graph (h.graph.setDrv (hpath ▸ hdrv)) (fun s b hb => by
        simp only [Graph.setDrv, Graph.modifyStep_step]
        split_ifs <;> exact hb) rfl
    exact h₁.keepStep hcall (by rw [hpc]; rfl) rfl
      (by rintro d ⟨⟩; exact hdrv)
  | @cachedFailure k call step drv missing hcall hpc hcached =>
    have h₁ : CreateOk cfg { c with graph := c.graph.setPreviousFailure step true } :=
      h.of_carries (.setPreviousFailure _ step true) rfl
    exact h₁.returnNone hcall (.previousFailure step) rfl
  | @substitute k call step drv missing hcall hpc =>
    refine h.keepStep hcall (by rw [hpc]; rfl) rfl ?_
    intro d hd
    exact (h.steps k call hcall).2.drv d (by rw [hpc]; exact hd)
  | decide finished hcall hpc =>
    refine h.decideStep hcall ?_ finished
    rcases hpc with ⟨hpc, -⟩ | ⟨hpc, -⟩ <;> rw [hpc] <;> rfl
  | @takeInput k k' call child step drvPath todo calls r hcall hpc hchild hresult =>
    have hthere := CreateState.lookup_takeStepCall hcall hpc hchild hresult
    exact (h.takeStepCall k').takeInput hthere (by rw [hpc]; rfl) todo calls r
  | finish hcall hpc => exact h.finishStep hcall (by rw [hpc]; rfl)

end CreateOk

end QueueRunner
