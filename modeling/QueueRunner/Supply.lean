import QueueRunner.Release

/-!
# The inputs of the steps

`create_step` decides which inputs a step has to wait for, and the release
of dependencies lets it go when they are done.  The property that connects
the two is that every input of a step is done or is one of its
dependencies.

That an input is done has two sources: its outputs were found, or
`succeed_step` has run for it.  The invariant here is stated for any notion
`Done` that contains what the calls find out.  It does not hold without a
condition: `create_step` also takes an input as done when its derivation
cannot be read, when it has failed before, and when the path of one of its
outputs is not known.
-/

namespace QueueRunner

/-- The step that a call returned as valid. -/
def StepPc.valid? : StepPc → Option StepRef
  | .returned (.valid s) => some s
  | _ => none

/-- The answer to a call of `create_step` lets no input pass as done that
is not: the derivation of an input is read, outputs that count as found
have known paths, and no step with a previous failure is taken. -/
def StepCall.Sound (call : StepCall) (c : CreateState) (ans : Answer) : Prop :=
  match call.pc with
  | .queryDrv _ => call.referringStep = none ∨ ans.ok = true
  | .checkCached _ drv missing =>
    ans.cached = true ∨ missing ≠ [] ∨ outputsKnown drv = true
  | .substitute _ drv missing =>
    missing.all ans.substituted = false ∨ outputsKnown drv = true
  | .inputs _ _ ((_, k) :: _) => ∀ child ∈ c.creation.steps.lookup k,
    ∀ dep ∈ child.pc.valid?, (c.graph.step dep).previousFailure = false ∨
      (c.graph.step dep).finished = true
  | _ => True

instance (call : StepCall) (c : CreateState) (ans : Answer) :
    Decidable (call.Sound c ans) :=
  match call with
  | ⟨_, _, _, _, _, step, .queryDrv _⟩ =>
    inferInstanceAs (Decidable (step = none ∨ ans.ok = true))
  | ⟨_, _, _, _, _, _, .checkCached _ drv missing⟩ => inferInstanceAs (Decidable
      (ans.cached = true ∨ missing ≠ [] ∨ outputsKnown drv = true))
  | ⟨_, _, _, _, _, _, .substitute _ drv missing⟩ => inferInstanceAs (Decidable
      (missing.all ans.substituted = false ∨ outputsKnown drv = true))
  | ⟨_, _, _, _, _, _, .inputs _ _ ((_, k) :: _)⟩ => inferInstanceAs (Decidable
      (∀ child ∈ c.creation.steps.lookup k, ∀ dep ∈ child.pc.valid?,
        (c.graph.step dep).previousFailure = false ∨
          (c.graph.step dep).finished = true))
  | ⟨_, _, _, _, _, _, .inputs _ _ []⟩ | ⟨_, _, _, _, _, _, .queryOutputs _ _⟩
  | ⟨_, _, _, _, _, _, .returned _⟩ => inferInstanceAs (Decidable True)

section

variable (cfg : Config) (Done : StorePath → Prop)

/-- The step waits for the input, or the input is done. -/
def Graph.Covered (g : Graph) (s : StepRef) (d : StorePath) : Prop :=
  Done d ∨ ∃ dep ∈ (g.step s).deps, dep.drvPath = d

/-- What the marks of the steps say about their inputs. -/
structure GraphSupplied (g : Graph) : Prop where
  finished : ∀ s, (g.step s).finished = true → Done s.drvPath
  created : ∀ s, (g.step s).created = true →
    ∀ d ∈ (cfg.drvOf s.drvPath).inputDrvs, g.Covered Done s d
  runnable : ∀ s, (g.step s).runnable = true →
    ∀ d ∈ (cfg.drvOf s.drvPath).inputDrvs, Done d
  depsLen : ∀ s, (g.step s).depsLen = (g.step s).deps.length

/-- What the sets of a pass say. -/
structure PassSupplied (p : Pass) : Prop where
  finishedDrvs : ∀ d ∈ p.finishedDrvs, Done d
  newRunnable : ∀ s ∈ p.newRunnable, ∀ d ∈ (cfg.drvOf s.drvPath).inputDrvs, Done d

/-- What a call of `create_step` says: a call for an input that returns
nothing has found it done, and a call that works on the inputs has covered
those that it has taken. -/
structure StepCallSupplied (c : CreateState) (call : StepCall) : Prop where
  alloc : ∀ s, call.pc.step? = some s → s.gen < c.graph.fresh
  returned : call.referringStep ≠ none → call.pc = .returned .none → Done call.drvPath
  children : ∀ step todo calls, call.pc = .inputs step todo calls → ∀ e ∈ calls,
    e.2 < c.creation.fresh ∧ ∀ child, c.creation.steps.lookup e.2 = some child →
      child.drvPath = e.1 ∧ child.referringStep ≠ none
  inputs : ∀ step todo calls, call.pc = .inputs step todo calls →
    ∀ d ∈ (cfg.drvOf step.drvPath).inputDrvs,
      d ∈ todo ∨ d ∈ calls.map Prod.fst ∨ c.graph.Covered Done step d

/-- The inputs of all steps are covered. -/
structure Supplied (c : CreateState) : Prop where
  graph : GraphSupplied cfg Done c.graph
  passes : ∀ k p, c.creation.passes.lookup k = some p → PassSupplied cfg Done p
  steps : ∀ k call, c.creation.steps.lookup k = some call →
    StepCallSupplied cfg Done c call

end

namespace Supplied

variable {cfg : Config} {Done Done' : StorePath → Prop} {c c' : CreateState}

theorem init : Supplied cfg Done ⟨{}, [], {}⟩ := by
  refine ⟨?_, by simp, by simp⟩
  constructor <;> simp

/-- More is done. -/
theorem mono (h : Supplied cfg Done c) (hdone : ∀ d, Done d → Done' d) :
    Supplied cfg Done' c where
  graph := {
    finished := fun s hs => hdone _ (h.graph.finished s hs)
    created := fun s hs d hd => (h.graph.created s hs d hd).imp (hdone d) id
    runnable := fun s hs d hd => hdone d (h.graph.runnable s hs d hd)
    depsLen := h.graph.depsLen }
  passes k p hp := {
    finishedDrvs := fun d hd => hdone d ((h.passes k p hp).finishedDrvs d hd)
    newRunnable := fun s hs d hd => hdone d ((h.passes k p hp).newRunnable s hs d hd) }
  steps k call hk := by
    have hs := h.steps k call hk
    refine ⟨hs.alloc, fun hr hpc => hdone _ (hs.returned hr hpc), hs.children, ?_⟩
    intro step todo calls hpc d hd
    exact (hs.inputs step todo calls hpc d hd).imp id
      (fun hc => hc.imp id fun hcov => hcov.imp (hdone d) id)

end Supplied

/-- An input stays covered when only inputs that are done are released. -/
theorem Graph.Covered.frees {Done : StorePath → Prop} {g g' : Graph} {s : StepRef}
    {d : StorePath} (h : g.Covered Done s d)
    (hs : Step.Frees Done (g.step s) (g'.step s)) : g'.Covered Done s d := by
  rcases h with h | ⟨dep, hdep, rfl⟩
  · exact Or.inl h
  · rcases hs.deps dep hdep with hdep | hdone
    · exact Or.inr ⟨dep, hdep, rfl⟩
    · exact Or.inl hdone

namespace GraphSupplied

variable {cfg : Config} {Done : StorePath → Prop} {g g' : Graph}

theorem frees (h : GraphSupplied cfg Done g) (hf : g.Frees Done g') :
    GraphSupplied cfg Done g' where
  finished s hs := by
    rcases hf.step s with hold | ⟨-, hnew⟩
    · exact h.finished s (hold.finished hs)
    · rw [hnew.finished] at hs
      cases hs
  created s hs d hd := by
    rcases hf.step s with hold | ⟨-, hnew⟩
    · exact (h.created s (hold.created hs) d hd).frees hold
    · rw [hnew.created] at hs
      cases hs
  runnable s hs d hd := by
    rcases hf.step s with hold | ⟨-, hnew⟩
    · rcases hold.runnable hs with hs | ⟨hc, hdeps⟩
      · exact h.runnable s hs d hd
      · rcases h.created s hc d hd with hdone | ⟨dep, hdep, rfl⟩
        · exact hdone
        · exact hdeps dep hdep
    · rw [hnew.runnable] at hs
      cases hs
  depsLen s := by
    rcases hf.step s with hold | ⟨-, hnew⟩
    · exact hold.depsLen (h.depsLen s)
    · rw [hnew.deps, hnew.depsLen]
      rfl

/-- A step gets a mark. -/
theorem modifyStep (h : GraphSupplied cfg Done g) (s : StepRef) {f : Step → Step}
    (hdeps : ∀ r, (f r).deps = r.deps ∧ (f r).depsLen = r.depsLen)
    (hfinished : (f (g.step s)).finished = true → Done s.drvPath)
    (hcreated : (f (g.step s)).created = true →
      ∀ d ∈ (cfg.drvOf s.drvPath).inputDrvs, g.Covered Done s d)
    (hrunnable : (f (g.step s)).runnable = true →
      ∀ d ∈ (cfg.drvOf s.drvPath).inputDrvs, Done d) :
    GraphSupplied cfg Done (g.modifyStep s f) := by
  have hsame : ∀ t, ((g.modifyStep s f).step t).deps = (g.step t).deps ∧
      ((g.modifyStep s f).step t).depsLen = (g.step t).depsLen := by
    intro t
    rw [Graph.modifyStep_step]
    split_ifs
    · exact hdeps _
    · exact ⟨rfl, rfl⟩
  refine ⟨fun t ht => ?_, fun t ht d hd => ?_, fun t ht d hd => ?_, fun t => ?_⟩
  · rw [Graph.modifyStep_step] at ht
    split_ifs at ht with he
    · subst he
      exact hfinished ht
    · exact h.finished t ht
  · rw [Graph.Covered, (hsame t).1]
    rw [Graph.modifyStep_step] at ht
    split_ifs at ht with he
    · subst he
      exact hcreated ht d hd
    · exact h.created t ht d hd
  · rw [Graph.modifyStep_step] at ht
    split_ifs at ht with he
    · subst he
      exact hrunnable ht d hd
    · exact h.runnable t ht d hd
  · rw [(hsame t).1, (hsame t).2]
    exact h.depsLen t

theorem setFinished (h : GraphSupplied cfg Done g) {s : StepRef} (hs : Done s.drvPath) :
    GraphSupplied cfg Done (g.setFinished s true) :=
  h.modifyStep s (fun _ => ⟨rfl, rfl⟩) (fun _ => hs) (h.created s) (h.runnable s)

theorem setCreated (h : GraphSupplied cfg Done g) {s : StepRef}
    (hs : ∀ d ∈ (cfg.drvOf s.drvPath).inputDrvs, g.Covered Done s d) :
    GraphSupplied cfg Done (g.setCreated s) :=
  h.modifyStep s (fun _ => ⟨rfl, rfl⟩) (h.finished s) (fun _ => hs) (h.runnable s)

theorem makeRunnable (h : GraphSupplied cfg Done g) {s : StepRef}
    (hs : ∀ d ∈ (cfg.drvOf s.drvPath).inputDrvs, Done d) (now : Timestamp) :
    GraphSupplied cfg Done (g.makeRunnable now s) := by
  unfold Graph.makeRunnable
  split_ifs
  · exact h
  · exact h.modifyStep s (fun _ => ⟨rfl, rfl⟩) (h.finished s) (h.created s) (fun _ => hs)

end GraphSupplied

namespace Supplied

variable {cfg : Config} {Done : StorePath → Prop} {c c' : CreateState}

/-- A change of the graph under calls that stay as they are. -/
theorem of_graph (h : Supplied cfg Done c) (hg : GraphSupplied cfg Done c'.graph)
    (hfresh : c.graph.fresh ≤ c'.graph.fresh)
    (hdeps : ∀ s : StepRef, s.gen < c.graph.fresh → ∀ d, c.graph.Covered Done s d →
      c'.graph.Covered Done s d)
    (hcreation : c'.creation = c.creation) : Supplied cfg Done c' where
  graph := hg
  passes := hcreation ▸ h.passes
  steps k call hk := by
    rw [hcreation] at hk
    have hs := h.steps k call hk
    refine ⟨fun s hstep => lt_of_lt_of_le (hs.alloc s hstep) hfresh, hs.returned, ?_, ?_⟩
    · rw [hcreation]
      exact hs.children
    · intro step todo calls hpc d hd
      have halloc := hs.alloc step (by rw [hpc]; rfl)
      exact (hs.inputs step todo calls hpc d hd).imp id fun hc =>
        hc.imp id (hdeps step halloc d)

/-- Dependencies that are done are released. -/
theorem of_frees (h : Supplied cfg Done c) (hf : c.graph.Frees Done c'.graph)
    (hcreation : c'.creation = c.creation) : Supplied cfg Done c' :=
  h.of_graph (h.graph.frees hf) hf.fresh
    (fun _ hs _ hc => hc.frees (hf.step_of_lt hs)) hcreation

/-- Calls of `create_step` go away, and the passes stay supplied. -/
theorem of_calls (h : Supplied cfg Done c) (hg : c'.graph = c.graph)
    (hfresh : c.creation.fresh ≤ c'.creation.fresh)
    (hpasses : ∀ k p, c'.creation.passes.lookup k = some p → PassSupplied cfg Done p)
    (hsteps : ∀ k call, c'.creation.steps.lookup k = some call →
      c.creation.steps.lookup k = some call) : Supplied cfg Done c' where
  graph := hg ▸ h.graph
  passes := hpasses
  steps k call hk := by
    have hs := h.steps k call (hsteps k call hk)
    refine ⟨hg ▸ hs.alloc, hs.returned, ?_, hg ▸ hs.inputs⟩
    intro step todo calls hpc e he
    obtain ⟨hlt, hchild⟩ := hs.children step todo calls hpc e he
    exact ⟨lt_of_lt_of_le hlt hfresh, fun child hk' => hchild child (hsteps _ child hk')⟩

/-- A pass moves on. -/
theorem setPass (h : Supplied cfg Done c) (k : CallId) {p : Pass}
    (hp : PassSupplied cfg Done p) : Supplied cfg Done (c.setPass k p) := by
  refine h.of_calls rfl (le_refl _) (fun k' p' hk' => ?_) (fun _ _ hk => hk)
  rw [CreateState.setPass_passes, Map.lookup_insert_eq] at hk'
  split_ifs at hk'
  · cases hk'
    exact hp
  · exact h.passes k' p' hk'

/-- A call of `create_build` moves on. -/
theorem setBuildCall (h : Supplied cfg Done c) (k : CallId) (call : BuildCall) :
    Supplied cfg Done (c.setBuildCall k call) :=
  h.of_calls rfl (le_refl _) h.passes (fun _ _ hk => hk)

theorem takeBuildCall (h : Supplied cfg Done c) (k : CallId) :
    Supplied cfg Done (c.takeBuildCall k) :=
  h.of_calls rfl (le_refl _) h.passes (fun _ _ hk => hk)

theorem takeStepCall (h : Supplied cfg Done c) (k : CallId) :
    Supplied cfg Done (c.takeStepCall k) := by
  refine h.of_calls rfl (le_refl _) h.passes (fun k' call hk' => ?_)
  rw [CreateState.takeStepCall_steps, Map.lookup_erase_eq] at hk'
  split_ifs at hk'
  exact hk'

/-- A call of `create_step` moves on. -/
theorem setStepCall (h : Supplied cfg Done c) {k : CallId} {call call' : StepCall}
    (hcall : c.creation.steps.lookup k = some call)
    (hok : StepCallSupplied cfg Done c call') (hpath : call'.drvPath = call.drvPath)
    (hstep : call'.referringStep = call.referringStep) :
    Supplied cfg Done (c.setStepCall k call') := by
  -- a child of another call is found with the same path and the same parent
  have hchildren : ∀ {call₁ : StepCall}, StepCallSupplied cfg Done c call₁ →
      StepCallSupplied cfg Done (c.setStepCall k call') call₁ := by
    intro call₁ h₁
    refine ⟨h₁.alloc, h₁.returned, fun step todo calls hpc e he => ?_, h₁.inputs⟩
    obtain ⟨hlt, hchild⟩ := h₁.children step todo calls hpc e he
    refine ⟨hlt, fun child hk => ?_⟩
    rw [CreateState.setStepCall_steps, Map.lookup_insert_eq] at hk
    split_ifs at hk with hke
    · cases hk
      rw [hpath, hstep]
      exact hchild call (hke ▸ hcall)
    · exact hchild child hk
  refine ⟨h.graph, h.passes, fun k' call₁ hk' => hchildren ?_⟩
  rw [CreateState.setStepCall_steps, Map.lookup_insert_eq] at hk'
  split_ifs at hk'
  · cases hk'
    exact hok
  · exact h.steps k' call₁ hk'

/-- A call of `create_step` moves on with its step, and not to the inputs. -/
theorem keepStep (h : Supplied cfg Done c) {k : CallId} {call : StepCall} {pc : StepPc}
    (hcall : c.creation.steps.lookup k = some call)
    (halloc : ∀ s, pc.step? = some s → s.gen < c.graph.fresh)
    (hreturned : pc ≠ .returned .none)
    (hinputs : ∀ step todo calls, pc ≠ .inputs step todo calls) :
    Supplied cfg Done (c.setStepCall k { call with pc := pc }) :=
  h.setStepCall hcall ⟨halloc, fun _ hpc => absurd hpc hreturned,
    fun step todo calls hpc => absurd hpc (hinputs step todo calls),
    fun step todo calls hpc => absurd hpc (hinputs step todo calls)⟩ rfl rfl

/-- A call of `create_step` returns nothing. -/
theorem returnNone (h : Supplied cfg Done c) {k : CallId} {call : StepCall}
    (hcall : c.creation.steps.lookup k = some call)
    (hdone : call.referringStep ≠ none → Done call.drvPath) :
    Supplied cfg Done (c.returnStep k call .none) :=
  h.setStepCall hcall ⟨by simp [StepPc.step?], fun hr _ => hdone hr, by simp, by simp⟩ rfl rfl

/-- A new call of `create_step` enters the pool. -/
theorem started (h : Supplied cfg Done c) (hok : GraphOk cfg c.graph) {pass build : CallId}
    {callers : List CallId} {drvPath : StorePath} {rb : Option BuildRef}
    {rs : Option StepRef} {pc : StepPc}
    (hs : CreateState.Started c pass build callers drvPath rb rs c' pc) :
    Supplied cfg Done c' := by
  -- what the call knows, and what happens to the graph
  have hgraph : c.graph.Frees Done c'.graph ∧
      StepCallSupplied cfg Done c' ⟨pass, build, callers, drvPath, rb, rs, pc⟩ := by
    rcases hs.result with ⟨rfl, hg, p, hp, hfin⟩ | ⟨s, isNew, hcreated, rfl⟩
    · rw [hg]
      exact ⟨.refl _, ⟨by simp [StepPc.step?], fun _ _ => (h.passes pass p hp).finishedDrvs _ hfin,
        by simp, by simp⟩⟩
    · refine ⟨.of_created hcreated, ⟨fun t ht => ?_, ?_, ?_, ?_⟩⟩
      · have hmem := (hok.created_mem hcreated).2.1
        cases isNew <;> simp only [if_true, Bool.false_eq_true, if_false, StepPc.step?,
          Option.some.injEq] at ht <;> exact ht ▸ hmem
      · intro _ hpc
        cases isNew <;> simp at hpc
      · intro step todo calls hpc
        cases isNew <;> simp at hpc
      · intro step todo calls hpc
        cases isNew <;> simp at hpc
  obtain ⟨hfrees, hnew⟩ := hgraph
  refine ⟨h.graph.frees hfrees, hs.passes ▸ h.passes, fun k call hk => ?_⟩
  rw [hs.steps, Map.lookup_insert_eq] at hk
  split_ifs at hk with he
  · cases hk
    exact hnew
  · have hcall := h.steps k call hk
    refine ⟨fun s hstep => lt_of_lt_of_le (hcall.alloc s hstep) hfrees.fresh, hcall.returned,
      fun step todo calls hpc e he => ?_, fun step todo calls hpc d hd => ?_⟩
    · obtain ⟨hlt, hchild⟩ := hcall.children step todo calls hpc e he
      rw [hs.fresh, hs.steps]
      refine ⟨Nat.lt_succ_of_lt hlt, fun child hk' => ?_⟩
      rw [Map.lookup_insert_eq, if_neg (Nat.ne_of_lt hlt)] at hk'
      exact hchild child hk'
    · have halloc := hcall.alloc step (by rw [hpc]; rfl)
      exact (hcall.inputs step todo calls hpc d hd).imp id fun hc =>
        hc.imp id fun hcov => hcov.frees (hfrees.step_of_lt halloc)

/-- The outputs of a derivation were found, or its inputs come next. -/
theorem decideStep (h : Supplied cfg Done c) (hok : CreateOk cfg c) {k : CallId}
    {call : StepCall} (hcall : c.creation.steps.lookup k = some call) {step : StepRef}
    {drv : Derivation} (hstep : call.pc.step? = some step) (hdrv : call.pc.drv? = some drv)
    {finished : Bool} (hdone : finished = true → Done call.drvPath) :
    Supplied cfg Done (c.decideStep k call step drv finished) := by
  have hcallOk := (hok.steps k call hcall).2
  have hpath := hcallOk.path step hstep
  unfold CreateState.decideStep
  cases finished with
  | false =>
    rw [if_neg Bool.false_ne_true]
    refine h.setStepCall hcall ⟨?_, by simp, ?_, ?_⟩ rfl rfl
    · rintro s ⟨⟩
      exact (h.steps k call hcall).alloc step hstep
    · rintro s todo calls ⟨⟩ e he
      cases he
    · rintro s todo calls ⟨⟩ d hd
      rw [hpath, ← hcallOk.drv drv hdrv] at hd
      exact Or.inl hd
  | true =>
    rw [if_pos rfl]
    have hd := hdone rfl
    have h₁ : Supplied cfg Done (c.insertFinishedDrv call.pass call.drvPath) := by
      unfold CreateState.insertFinishedDrv
      split
      · rename_i p hp
        have hpass := h.passes _ p hp
        refine h.setPass _ ⟨fun d' hd' => ?_, hpass.newRunnable⟩
        rcases List.mem_cons.mp hd' with rfl | hd'
        · exact hd
        · exact hpass.finishedDrvs d' hd'
      · exact h
    have h₂ : Supplied cfg Done ⟨(c.insertFinishedDrv call.pass
        call.drvPath).graph.setFinished step true, if outputsKnown drv then
        call.drvPath :: (c.insertFinishedDrv call.pass call.drvPath).present
        else (c.insertFinishedDrv call.pass call.drvPath).present,
        (c.insertFinishedDrv call.pass call.drvPath).creation⟩ := by
      refine h₁.of_graph (h₁.graph.setFinished (hpath ▸ hd)) (le_refl _)
        (fun s _ d hc => ?_) rfl
      simp only [Graph.Covered, Graph.setFinished, Graph.modifyStep_step]
      split_ifs <;> exact hc
    refine h₂.returnNone ?_ (fun _ => hd)
    rw [(c.insertFinishedDrv_frame call.pass call.drvPath).2.2.1]
    exact hcall

/-- After `add_dep` the step waits for the dependency. -/
theorem covered_addDep (g : Graph) (s dep : StepRef) :
    (g.addDep s dep).Covered Done s dep.drvPath := by
  right
  simp only [Graph.addDep, Graph.modifyStep_step, if_true]
  unfold insertStep
  split_ifs with hany
  · obtain ⟨t, ht, he⟩ := List.any_eq_true.mp hany
    exact ⟨t, ht, by simpa using he⟩
  · exact ⟨dep, List.mem_append_right _ List.mem_cons_self, rfl⟩

/-- An input of a step is taken. -/
theorem takeInput (h : Supplied cfg Done c) {k : CallId} {call : StepCall}
    (hcall : c.creation.steps.lookup k = some call) {step : StepRef}
    {todo : List StorePath} {drvPath : StorePath} {k' : CallId}
    {calls : List (StorePath × CallId)}
    (hpc : call.pc = .inputs step todo ((drvPath, k') :: calls)) {r : CreateStepResult}
    (hnone : r = .none → Done drvPath)
    (hvalid : ∀ dep, r = .valid dep → dep.drvPath = drvPath ∧
      ((c.graph.step dep).previousFailure = false ∨
        (c.graph.step dep).finished = true)) :
    Supplied cfg Done (c.takeInput k call step todo calls r) := by
  have hs := h.steps k call hcall
  have halloc := hs.alloc step (by rw [hpc]; rfl)
  -- the call moves on when the input is covered
  have hmove : ∀ {c' : CreateState}, Supplied cfg Done c' →
      c'.creation = c.creation → c.graph.fresh ≤ c'.graph.fresh →
      (∀ d, c.graph.Covered Done step d → c'.graph.Covered Done step d) →
      c'.graph.Covered Done step drvPath →
      Supplied cfg Done (c'.setStepCall k { call with pc := .inputs step todo calls }) := by
    intro c' h' hcreation hfresh hkeeps hcovered
    have hcall' : c'.creation.steps.lookup k = some call := by rw [hcreation, hcall]
    refine h'.setStepCall hcall' ⟨?_, by simp, ?_, ?_⟩ rfl rfl
    · rintro s ⟨⟩
      exact lt_of_lt_of_le halloc hfresh
    · rintro s todo' calls' ⟨⟩ e he
      rw [hcreation]
      exact hs.children step todo _ hpc e (List.mem_cons_of_mem _ he)
    · rintro s todo' calls' ⟨⟩ d hd
      rcases hs.inputs step todo _ hpc d hd with ht | ht | ht
      · exact Or.inl ht
      · rcases List.mem_cons.mp ht with rfl | ht
        · exact Or.inr (Or.inr hcovered)
        · exact Or.inr (Or.inl ht)
      · exact Or.inr (Or.inr (hkeeps d ht))
  unfold CreateState.takeInput
  simp only
  cases r with
  | none => exact hmove h rfl (le_refl _) (fun _ => id) (Or.inl (hnone rfl))
  | valid dep =>
    obtain ⟨hpath, hfailure⟩ := hvalid dep rfl
    simp only
    split_ifs with hwait
    · have hfrees : c.graph.Frees Done (c.graph.addDep step dep) := .addDep ..
      have h₁ : Supplied cfg Done { c with graph := c.graph.addDep step dep } :=
        h.of_frees hfrees rfl
      refine hmove h₁ rfl hfrees.fresh (fun d hc => hc.frees (hfrees.step_of_lt halloc)) ?_
      exact hpath ▸ covered_addDep c.graph step dep
    · refine hmove h rfl (le_refl _) (fun _ => id) (Or.inl ?_)
      -- a step that is not waited for is finished
      have hfin : (c.graph.step dep).finished = true := by
        rcases hfailure with hfailure | hfin
        · by_contra hfin
          exact hwait ⟨by simpa using hfin, hfailure⟩
        · exact hfin
      exact hpath ▸ h.graph.finished dep hfin
  | previousFailure failed =>
    -- the callees are dropped from the pool in which the call has returned
    have h₁ : Supplied cfg Done (c.returnStep k call (.previousFailure failed)) :=
      h.keepStep hcall (by simp [StepPc.step?]) (by simp) (by simp)
    refine h₁.of_calls rfl (le_refl _) h.passes ?_
    intro k₁ call₁ hk₁
    simp only [CreateState.returnStep, CreateState.dropCallees,
      CreateState.setStepCall_steps, Map.lookup_insert_eq, Map.lookup_retain] at hk₁ ⊢
    split_ifs at hk₁ ⊢
    · exact hk₁
    · exact (Option.filter_eq_some_iff.mp hk₁).1

/-- The step is complete. -/
theorem finishStep (h : Supplied cfg Done c) {k : CallId} {call : StepCall}
    (hcall : c.creation.steps.lookup k = some call) {step : StepRef}
    (hpc : call.pc = .inputs step [] []) :
    Supplied cfg Done (c.finishStep k call step) := by
  have hs := h.steps k call hcall
  have hcovered : ∀ d ∈ (cfg.drvOf step.drvPath).inputDrvs, c.graph.Covered Done step d := by
    intro d hd
    rcases hs.inputs step [] [] hpc d hd with ht | ht | ht
    · cases ht
    · cases ht
    · exact ht
  have h₁ : Supplied cfg Done { c with graph := c.graph.setCreated step } := by
    refine h.of_graph (h.graph.setCreated hcovered) (le_refl _) (fun s _ d hc => ?_) rfl
    simp only [Graph.Covered, Graph.setCreated, Graph.modifyStep_step]
    split_ifs <;> exact hc
  -- the rest of the step: two sets grow, and the call returns
  have hrest : ∀ {c' : CreateState}, Supplied cfg Done c' →
      c'.creation.steps = c.creation.steps → c.graph.fresh ≤ c'.graph.fresh →
      Supplied cfg Done ((c'.insertNewStep call.build step).returnStep k call
        (.valid step)) := by
    intro c' h' hsteps hfresh
    obtain ⟨hg, -, hsteps', hpasses, hf⟩ := c'.insertNewStep_frame call.build step
    have h₂ : Supplied cfg Done (c'.insertNewStep call.build step) :=
      h'.of_calls hg hf.ge (hpasses ▸ h'.passes) (fun _ _ hk => hsteps' ▸ hk)
    refine h₂.keepStep (by rw [hsteps', hsteps]; exact hcall) ?_ (by simp) (by simp)
    rintro s ⟨⟩
    rw [hg]
    exact lt_of_lt_of_le (hs.alloc step (by rw [hpc]; rfl)) hfresh
  unfold CreateState.finishStep
  simp only
  split_ifs with hlen
  · refine hrest ?_ (CreateState.insertNewRunnable_frame ..).2.2.1
      (Nat.le_of_eq (by rw [(CreateState.insertNewRunnable_frame _ _ _).1]; rfl))
    unfold CreateState.insertNewRunnable
    split
    · rename_i p hp
      have hpass := h₁.passes _ p hp
      refine h₁.setPass _ ⟨hpass.finishedDrvs, fun s hmem d hd => ?_⟩
      unfold insertStep at hmem
      split_ifs at hmem
      · exact hpass.newRunnable s hmem d hd
      · rcases List.mem_append.mp hmem with hmem | hmem
        · exact hpass.newRunnable s hmem d hd
        · rw [List.mem_singleton.mp hmem] at hd
          -- the step waits for nothing, so all its inputs are done
          have hempty : (c.graph.step step).deps = [] := by
            refine List.eq_nil_of_length_eq_zero ?_
            rw [← h.graph.depsLen step]
            simpa [Graph.setCreated] using hlen
          rcases hcovered d hd with hdone | ⟨dep, hdep, -⟩
          · exact hdone
          · rw [hempty] at hdep
            cases hdep
    · exact h₁
  · exact hrest h₁ rfl (le_refl _)

/-- The builds that a new pass loads. -/
theorem startPass (h : Supplied cfg Done c) (rows : List (BuildID × StorePath)) :
    Supplied cfg Done (c.startPass rows) := by
  have hload : ∀ (rows : List (BuildID × StorePath)) (acc : Graph × Pass),
      acc.2.finishedDrvs = [] ∧ acc.2.newRunnable = [] →
      (rows.foldl CreateState.loadBuild acc).2.finishedDrvs = [] ∧
        (rows.foldl CreateState.loadBuild acc).2.newRunnable = [] := by
    intro rows
    induction rows with
    | nil => exact fun acc => id
    | cons row rows ih => exact fun acc hacc => ih (CreateState.loadBuild acc row) hacc
  obtain ⟨hfin, hnew⟩ := hload rows (c.graph, ⟨∅, ∅, [], [], [], none⟩) ⟨rfl, rfl⟩
  obtain ⟨hgrows, hstep, -⟩ := c.startPass_grows rows
  have h₁ : Supplied cfg Done { c with graph := (c.startPass rows).graph } :=
    h.of_frees (.of_step hstep hgrows.fresh) rfl
  have h₂ : Supplied cfg Done { c with
      graph := (c.startPass rows).graph
      creation := { c.creation with fresh := c.creation.fresh + 1 } } :=
    h₁.of_calls rfl (Nat.le_succ _) h.passes (fun _ _ hk => hk)
  refine h₂.setPass c.creation.fresh (p := (rows.foldl CreateState.loadBuild
    (c.graph, ⟨∅, ∅, [], [], [], none⟩)).2) ⟨?_, ?_⟩
  · simp [hfin]
  · simp [hnew]

/-- The new steps without dependencies become runnable. -/
theorem makeAllRunnable (h : Supplied cfg Done c) (now : Timestamp) {l : List StepRef}
    (hl : ∀ s ∈ l, ∀ d ∈ (cfg.drvOf s.drvPath).inputDrvs, Done d) :
    Supplied cfg Done { c with
      graph := l.foldl (fun g s => g.makeRunnable now s) c.graph } := by
  have hgraph : ∀ (l : List StepRef) (g : Graph), GraphSupplied cfg Done g →
      (∀ s ∈ l, ∀ d ∈ (cfg.drvOf s.drvPath).inputDrvs, Done d) →
      GraphSupplied cfg Done (l.foldl (fun g s => g.makeRunnable now s) g) ∧
        ∀ s, ((l.foldl (fun g s => g.makeRunnable now s) g).step s).deps =
          (g.step s).deps := by
    intro l
    induction l with
    | nil => exact fun g hg _ => ⟨hg, fun _ => rfl⟩
    | cons s l ih =>
      intro g hg hl
      obtain ⟨hg', hdeps⟩ := ih (g.makeRunnable now s)
        (hg.makeRunnable (hl s List.mem_cons_self) now)
        (fun t ht => hl t (List.mem_cons_of_mem _ ht))
      refine ⟨hg', fun t => (hdeps t).trans ?_⟩
      unfold Graph.makeRunnable
      split_ifs
      · rfl
      · rw [Graph.modifyStep_step]
        split_ifs <;> rfl
  obtain ⟨hg, hdeps⟩ := hgraph l c.graph h.graph hl
  refine h.of_graph hg (Graph.Grows.makeAllRunnable c.graph now l).fresh
    (fun s _ d hc => ?_) rfl
  rw [Graph.Covered, hdeps s]
  exact hc

/-- Every step of the creation that is answered soundly keeps the inputs
covered. -/
theorem step (h : Supplied cfg Done c) (hok : CreateOk cfg c) {ans : Answer}
    {a : CreateAction} (hs : CreateStep cfg c ans a c')
    (hdone : ∀ d ∈ c'.present, Done d)
    (hsound : ∀ k call, a = .resumeStep k → c.creation.steps.lookup k = some call →
      call.Sound c ans) : Supplied cfg Done c' := by
  cases hs with
  | startPass rows => exact h.startPass rows
  | skipBuild hpass htodo hwaiting hid =>
    exact h.setPass _ ⟨(h.passes _ _ hpass).finishedDrvs, by simp⟩
  | nextBuild hpass htodo hwaiting hid =>
    refine h.of_calls rfl (Nat.le_succ _) (fun k p hp => ?_) (fun _ _ hk => hk)
    rw [Map.lookup_insert_eq] at hp
    split_ifs at hp
    · cases hp
      exact ⟨(h.passes _ _ hpass).finishedDrvs, by simp⟩
    · exact h.passes k p hp
  | @makeRunnable k k' pass call now todo hpass hwaiting hcall hpc =>
    have hp := h.passes k pass hpass
    exact ((h.makeAllRunnable now hp.newRunnable).takeBuildCall k').setPass k
      ⟨hp.finishedDrvs, hp.newRunnable⟩
  | @sweep k pass now order hpass hwaiting htodo horder =>
    have h₁ : Supplied cfg Done { c with graph := c.graph.sweepSteps now order } :=
      h.of_frees (.sweepSteps h.graph.finished now order) rfl
    refine h₁.of_calls rfl (le_refl _) (fun k' p hp => ?_) (fun _ _ hk => hk)
    rw [Map.lookup_erase_eq] at hp
    split_ifs at hp
    exact h.passes k' p hp
  | @startNested k call step id todo calls pass b hcall hpc hlength hpass hid =>
    refine h.of_calls rfl (Nat.le_succ _) (fun k p hp => ?_) (fun _ _ hk => hk)
    rw [Map.lookup_insert_eq] at hp
    split_ifs at hp
    · cases hp
      exact ⟨(h.passes _ _ hpass).finishedDrvs, (h.passes _ _ hpass).newRunnable⟩
    · exact h.passes k p hp
  | moveBuild ha hcall hmove => exact h.setBuildCall _ _
  | @finishInDb k call hcall hpc =>
    have h₁ : Supplied cfg Done { c with graph := c.graph.setFinishedInDb call.build } :=
      h.of_frees (.of_step rfl (le_refl _)) rfl
    exact h₁.setBuildCall _ _
  | @startToplevel k call hcall hpc =>
    obtain ⟨pc, hstart⟩ := c.started_startStep call.pass k [] call.build.drvPath
      (some call.build) none
    exact (h.started hok.graph hstart).setBuildCall _ _
  | takeToplevel r hcall hpc hchild hresult hmove => exact (h.takeStepCall _).setBuildCall _ _
  | takeNested hcall hpc hchild hresult => exact (h.takeBuildCall _).setBuildCall _ _
  | @attach k call step hcall hpc =>
    have h₁ : Supplied cfg Done { c with
        graph := (if (c.graph.build call.build).finishedInDb then c.graph
          else c.graph.insertNewBuild call.build).setToplevelStep call.build step } := by
      split_ifs <;> exact h.of_frees (.of_step rfl (le_refl _)) rfl
    exact h₁.setBuildCall k _
  | @startInput k call step drvPath todo calls hcall hpc hlength =>
    obtain ⟨pc, hstart⟩ := c.started_startStep call.pass call.build
      (k :: call.callers) drvPath none (some step)
    have h₁ := h.started hok.graph hstart
    have hk : k ≠ c.creation.fresh := Nat.ne_of_lt (hok.steps k call hcall).1
    have hcall₁ : (c.startStep call.pass call.build (k :: call.callers) drvPath none
        (some step)).1.creation.steps.lookup k = some call := by
      rw [hstart.steps, Map.lookup_insert_eq, if_neg hk, hcall]
    have hs₁ := h₁.steps k call hcall₁
    refine h₁.setStepCall hcall₁ ⟨?_, by simp, ?_, ?_⟩ rfl rfl
    · rintro s ⟨⟩
      exact hs₁.alloc step (by rw [hpc]; rfl)
    · rintro s todo' calls' ⟨⟩ e he
      rcases List.mem_append.mp he with he | he
      · exact hs₁.children step _ _ hpc e he
      · rw [List.mem_singleton.mp he, hstart.fresh, hstart.steps]
        refine ⟨Nat.lt_succ_self _, fun child hk' => ?_⟩
        rw [AList.lookup_insert] at hk'
        cases hk'
        exact ⟨rfl, by simp⟩
    · rintro s todo' calls' ⟨⟩ d hd
      rcases hs₁.inputs step _ _ hpc d hd with ht | ht | ht
      · rcases List.mem_cons.mp ht with rfl | ht
        · exact Or.inr (Or.inl (by simp))
        · exact Or.inl ht
      · exact Or.inr (Or.inl (by simp [List.map_append, ht]))
      · exact Or.inr (Or.inr ht)
  | @readDrv k call step hcall hpc hread =>
    refine h.keepStep hcall ?_ (by simp) (by simp)
    rintro s ⟨⟩
    exact (h.steps k call hcall).alloc step (by rw [hpc]; rfl)
  | @unreadable k call step hcall hpc hread =>
    refine h.returnNone hcall fun hr => ?_
    have hsound := hsound k call rfl hcall
    rw [StepCall.Sound, hpc] at hsound
    rw [hread] at hsound
    exact absurd (hsound.resolve_right (by simp)) hr
  | @setDrv k call step drv hcall hpc =>
    have h₁ : Supplied cfg Done { c with graph := c.graph.setDrv step drv } :=
      h.of_frees (.modifyStep (f := fun r => { r with drv := some drv }) _ _
        (.of_eq rfl rfl rfl rfl rfl)) rfl
    refine h₁.keepStep hcall ?_ (by simp) (by simp)
    rintro s ⟨⟩
    exact (h.steps k call hcall).alloc step (by rw [hpc]; rfl)
  | @cachedFailure k call step drv missing hcall hpc hcached =>
    have h₁ : Supplied cfg Done { c with graph := c.graph.setPreviousFailure step true } :=
      h.of_frees (.modifyStep (f := fun r => { r with previousFailure := true }) _ _
        (.of_eq rfl rfl rfl rfl rfl)) rfl
    exact h₁.keepStep hcall (by simp [StepPc.step?]) (by simp) (by simp)
  | @substitute k call step drv missing hcall hpc =>
    refine h.keepStep hcall ?_ (by simp) (by simp)
    rintro s ⟨⟩
    exact (h.steps k call hcall).alloc step (by rw [hpc]; rfl)
  | @decide k call step drv missing finished hcall hpc =>
    have hsound := hsound k call rfl hcall
    have hplace : call.pc.step? = some step ∧ call.pc.drv? = some drv := by
      rcases hpc with ⟨hpc, -⟩ | ⟨hpc, -⟩ <;> rw [hpc] <;> exact ⟨rfl, rfl⟩
    refine h.decideStep hok hcall hplace.1 hplace.2 ?_
    rintro rfl
    have hknown : outputsKnown drv = true := by
      rcases hpc with ⟨hpc, hcached, hmissing⟩ | ⟨hpc, hmissing⟩
      · rw [StepCall.Sound, hpc] at hsound
        simpa [hcached, of_decide_eq_true hmissing.symm] using hsound
      · rw [StepCall.Sound, hpc] at hsound
        simpa [← hmissing] using hsound
    refine hdone _ ?_
    simp [CreateState.decideStep, CreateState.returnStep, hknown]
  | @takeInput k k' call child step drvPath todo calls r hcall hpc hchild hresult =>
    have hthere := CreateState.lookup_takeStepCall hcall hpc hchild hresult
    have hsound := hsound k call rfl hcall
    rw [StepCall.Sound, hpc] at hsound
    obtain ⟨-, hparent⟩ := (h.steps k call hcall).children step todo _ hpc
      (drvPath, k') List.mem_cons_self
    obtain ⟨hpath, href⟩ := hparent child hchild
    simp only at hpath
    refine (h.takeStepCall k').takeInput hthere hpc ?_ ?_
    · rintro rfl
      exact hpath ▸ (h.steps k' child hchild).returned href hresult
    · rintro dep rfl
      refine ⟨?_, hsound child hchild dep (by rw [hresult]; rfl)⟩
      rw [(hok.steps k' child hchild).2.path dep (by rw [hresult]; rfl), hpath]
  | finish hcall hpc => exact h.finishStep hcall hpc

end Supplied

end QueueRunner
