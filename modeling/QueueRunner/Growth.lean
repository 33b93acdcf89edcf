import QueueRunner.Invariant

/-!
# What the graph never takes back

Steps are allocated with growing numbers, and `Steps` only ever maps a
path to the step it already had or to a new one.  The creation of steps
and builds never takes back a mark of a step that exists: `runnable`,
`created` and `finished` stay set, and the counter of the tries does not
move.  Only `fail_step` clears `finished` and counts a try.
-/

namespace QueueRunner

/-- The marks of a step that stay set. -/
structure Step.Grows (r r' : Step) : Prop where
  runnable : r.runnable = true → r'.runnable = true
  created : r.created = true → r'.created = true
  finished : r.finished = true → r'.finished = true
  tries : r'.tries = r.tries

namespace Step.Grows

theorem refl (r : Step) : Step.Grows r r := ⟨id, id, id, rfl⟩

theorem trans {r r' r'' : Step} (h : Step.Grows r r') (h' : Step.Grows r' r'') :
    Step.Grows r r'' :=
  ⟨h'.runnable ∘ h.runnable, h'.created ∘ h.created, h'.finished ∘ h.finished,
    h'.tries.trans h.tries⟩

end Step.Grows

/-- The numbers of the steps grow, and the map `Steps` gets no old step
that it did not have. -/
structure Graph.Extends (g g' : Graph) : Prop where
  fresh : g.fresh ≤ g'.fresh
  steps : ∀ p s, g'.steps.lookup p = some s → g.steps.lookup p = some s ∨
    g.fresh ≤ s.gen

/-- A step without marks, as `Step::new` makes it. -/
structure Step.IsNew (r : Step) : Prop where
  runnable : r.runnable = false
  created : r.created = false
  finished : r.finished = false
  tries : r.tries = 0
  deps : r.deps = []
  depsLen : r.depsLen = 0

/-- The steps that exist keep their marks. -/
structure Graph.Grows (g g' : Graph) : Prop extends Graph.Extends g g' where
  step : ∀ s, Step.Grows (g.step s) (g'.step s) ∨
    g.fresh ≤ s.gen ∧ Step.IsNew (g'.step s)

namespace Graph.Grows

variable {g g' : Graph}

theorem of_keeps (h : Keeps Step.Grows g g') (hsteps : g'.steps = g.steps)
    (hfresh : g'.fresh = g.fresh) : g.Grows g' where
  fresh := Nat.le_of_eq hfresh.symm
  steps _ _ hs := Or.inl (hsteps ▸ hs)
  step s := Or.inl (h s)

theorem refl (g : Graph) : g.Grows g :=
  of_keeps (Keeps.refl Step.Grows.refl g) rfl rfl

/-- A step that exists keeps its marks. -/
theorem step_of_lt (h : g.Grows g') {s : StepRef} (hs : s.gen < g.fresh) :
    Step.Grows (g.step s) (g'.step s) :=
  (h.step s).resolve_right fun hnew => absurd hs (Nat.not_lt.mpr hnew.1)

theorem modifyStep (g : Graph) (s : StepRef) {f : Step → Step}
    (hf : ∀ r, Step.Grows r (f r)) : g.Grows (g.modifyStep s f) :=
  of_keeps (Keeps.modifyStep Step.Grows.refl (hf _)) rfl rfl

theorem setDrv (g : Graph) (s : StepRef) (drv : Derivation) :
    g.Grows (g.setDrv s drv) :=
  modifyStep (f := fun r => { r with drv := some drv }) g s
    fun _ => ⟨id, id, id, rfl⟩

theorem setPreviousFailure (g : Graph) (s : StepRef) (v : Bool) :
    g.Grows (g.setPreviousFailure s v) :=
  modifyStep (f := fun r => { r with previousFailure := v }) g s
    fun _ => ⟨id, id, id, rfl⟩

theorem setFinished (g : Graph) (s : StepRef) : g.Grows (g.setFinished s true) :=
  modifyStep (f := fun r => { r with finished := true }) g s
    fun _ => ⟨id, id, fun _ => rfl, rfl⟩

theorem setCreated (g : Graph) (s : StepRef) : g.Grows (g.setCreated s) :=
  modifyStep (f := fun r => { r with created := true }) g s
    fun _ => ⟨id, fun _ => rfl, id, rfl⟩

theorem addDep (g : Graph) (s dep : StepRef) : g.Grows (g.addDep s dep) := by
  unfold Graph.addDep
  exact modifyStep g s fun _ => ⟨id, id, id, rfl⟩

theorem of_fades (h : g.Fades g') : g.Grows g' where
  fresh := Nat.le_of_eq h.fresh.symm
  steps p s hs := Or.inl (h.steps p s hs)
  step s := by
    rw [h.step s]
    exact Or.inl ⟨id, id, id, rfl⟩

theorem keeps_makeRdepsRunnable (g : Graph) (now : Timestamp) (s : StepRef) :
    Keeps Step.Grows g (g.makeRdepsRunnable now s) :=
  Keeps.makeRdepsRunnable Step.Grows.refl (fun _ _ _ => Step.Grows.trans)
    (fun _ _ => ⟨fun _ => rfl, id, id, rfl⟩) (fun _ _ _ => ⟨id, id, id, rfl⟩)
    (fun _ _ _ => ⟨id, id, id, rfl⟩) g s

theorem sweepSteps (g : Graph) (now : Timestamp) (order : List StepRef) :
    g.Grows (g.sweepSteps now order) := by
  refine of_keeps ?_ (SameMaps.sweepSteps g now order).steps
    (SameMaps.sweepSteps g now order).fresh
  exact Keeps.sweepSteps Step.Grows.refl (fun _ _ _ => Step.Grows.trans)
    (fun _ _ => ⟨fun _ => rfl, id, id, rfl⟩) (fun _ _ _ => ⟨id, id, id, rfl⟩)
    (fun _ _ _ => ⟨id, id, id, rfl⟩) order g

theorem makeAllRunnable (g : Graph) (now : Timestamp) (l : List StepRef) :
    g.Grows (l.foldl (fun g s => g.makeRunnable now s) g) := by
  have hmaps : g.SameMaps (l.foldl (fun g s => g.makeRunnable now s) g) :=
    .foldl (fun g s => .makeRunnable g now s) l g
  refine of_keeps ?_ hmaps.steps hmaps.fresh
  exact Keeps.makeAllRunnable Step.Grows.refl (fun _ _ _ => Step.Grows.trans)
    (fun _ _ => ⟨fun _ => rfl, id, id, rfl⟩) l g

/-- `Steps::create`. -/
theorem of_created {drvPath : StorePath} {build : Option BuildRef}
    {step : Option StepRef} {s : StepRef} {isNew : Bool}
    (h : Created g drvPath build step g' s isNew) : g.Grows g' := by
  refine { fresh := ?_, steps := fun p t ht => ?_, step := fun t => ?_ }
  · rw [h.fresh]
    split_ifs
    · exact Nat.le_succ _
    · exact le_refl _
  · rw [h.steps, Map.lookup_insert_eq] at ht
    split_ifs at ht with hp
    · cases ht
      cases hnew : isNew with
      | true =>
        rw [(h.notFound hnew).2]
        exact Or.inr (le_refl _)
      | false => exact Or.inl (hp ▸ (findStep_eq_some.mp (h.found hnew)).1)
    · exact Or.inl ht
  · rw [h.step]
    split_ifs with hts hnew
    · rw [hts, (h.notFound hnew).2]
      exact Or.inr ⟨le_refl _, rfl, rfl, rfl, rfl, rfl, rfl⟩
    · subst hts
      exact Or.inl ⟨id, id, id, rfl⟩
    · exact Or.inl (.refl _)

end Graph.Grows

/-- The load of the new builds allocates builds only. -/
theorem CreateState.startPass_grows (c : CreateState) (rows : List (BuildID × StorePath)) :
    c.graph.Grows (c.startPass rows).graph ∧
      (c.startPass rows).graph.step = c.graph.step ∧
      (c.startPass rows).graph.steps = c.graph.steps := by
  have hload : ∀ (rows : List (BuildID × StorePath)) (acc : Graph × Pass),
      acc.1.fresh ≤ (rows.foldl loadBuild acc).1.fresh ∧
        (rows.foldl loadBuild acc).1.step = acc.1.step ∧
        (rows.foldl loadBuild acc).1.steps = acc.1.steps := by
    intro rows
    induction rows with
    | nil => exact fun acc => ⟨le_refl _, rfl, rfl⟩
    | cons row rows ih =>
      intro acc
      obtain ⟨hf, hs, hm⟩ := ih (loadBuild acc row)
      exact ⟨(Nat.le_succ _).trans hf, hs, hm⟩
  obtain ⟨hf, hs, hm⟩ := hload rows (c.graph, ⟨∅, ∅, [], [], [], none⟩)
  refine ⟨{ fresh := hf, steps := fun p s hp => Or.inl ?_, step := fun s => Or.inl ?_ }, hs, hm⟩
  · simp only [CreateState.startPass, CreateState.setPass_graph, hm] at hp
    exact hp
  · simp only [CreateState.startPass, CreateState.setPass_graph, hs]
    exact .refl _

/-- Every step of the creation lets the graph grow. -/
theorem CreateGraph.grows {c : CreateState} {a : CreateAction} {g : Graph}
    (h : CreateGraph c a g) : c.graph.Grows g := by
  cases h with
  | same => exact .refl _
  | startPass rows => exact (c.startPass_grows rows).1
  | makeRunnable now steps => exact .makeAllRunnable ..
  | sweep now order => exact .sweepSteps ..
  | finishInDb hcall => exact .of_keeps (Graph.Keeps.refl Step.Grows.refl _) rfl rfl
  | attach hcall hpc =>
    simp only [CreateState.finishBuild]
    split_ifs <;> exact .of_keeps (Graph.Keeps.refl Step.Grows.refl _) rfl rfl
  | created h => exact .of_created h
  | setDrv step drv => exact .setDrv ..
  | setPreviousFailure step => exact .setPreviousFailure ..
  | setFinished step => exact .setFinished ..
  | addDep step dep => exact .addDep ..
  | setCreated step => exact .setCreated ..

/-- A call lets the map `Steps` and the marks of the creation stand. -/
theorem CallGraph.extends {s : Shared} {t : CallTask} {g : Graph}
    (h : CallGraph s t g) : s.graph.Extends g ∧
      ∀ x, ((s.graph.step x).runnable = true → (g.step x).runnable = true) ∧
        ((s.graph.step x).created = true → (g.step x).created = true) := by
  have hkeeps : ∀ {f : Step → Step} (x : StepRef), (∀ r, (f r).runnable = r.runnable) →
      (∀ r, (f r).created = r.created) →
      s.graph.Extends (s.graph.modifyStep x f) ∧
        ∀ y, ((s.graph.step y).runnable = true →
            ((s.graph.modifyStep x f).step y).runnable = true) ∧
          ((s.graph.step y).created = true →
            ((s.graph.modifyStep x f).step y).created = true) := by
    intro f x hrun hcre
    refine ⟨⟨le_refl _, fun _ _ => Or.inl⟩, fun y => ?_⟩
    rw [Graph.modifyStep_step]
    split_ifs
    · rw [hrun, hcre]
      exact ⟨id, id⟩
    · exact ⟨id, id⟩
  cases h with
  | fades h =>
    refine ⟨⟨Nat.le_of_eq h.fresh.symm, fun p x hx => Or.inl (h.steps p x hx)⟩, fun x => ?_⟩
    rw [h.step x]
    exact ⟨id, id⟩
  | succeeds a report item ht hitem hg =>
    rw [hg]
    exact hkeeps _ (fun _ => rfl) (fun _ => rfl)
  | fails a state report caller item tries after ht hitem hg =>
    rw [hg]
    exact hkeeps _ (fun _ => rfl) (fun _ => rfl)
  | releases a report item now ht hg =>
    have hmaps := Graph.SameMaps.makeRdepsRunnable s.graph now item.stepInfo.step
    rw [hg]
    refine ⟨⟨Nat.le_of_eq hmaps.fresh.symm, fun p x hx => Or.inl (hmaps.steps ▸ hx)⟩,
      fun x => ?_⟩
    have hgrows := Graph.Grows.keeps_makeRdepsRunnable s.graph now item.stepInfo.step x
    exact ⟨hgrows.runnable, hgrows.created⟩

/-- Only a call that ends an attempt takes a mark back. -/
theorem RunnerGraph.grows {r : Runner} {a : Action} {g : Graph} (h : RunnerGraph r a g)
    (hcall : ∀ t ans, a ≠ .call t ans) : r.shared.graph.Grows g := by
  cases h with
  | fades h => exact .of_fades h
  | call ht h => exact absurd rfl (hcall _ _)
  | create h => exact h.grows
  | dropStep s =>
    exact .modifyStep (f := fun r => { r with alive := false }) _ _
      fun _ => ⟨id, id, id, rfl⟩
  | dropBuild b => exact .of_keeps (Graph.Keeps.refl Step.Grows.refl _) rfl rfl

/-- No step of the runner takes back that a step is runnable or created. -/
theorem RunnerStep.extends {cfg : Config} {r r' : Runner} {a : Action}
    (h : RunnerStep cfg r a r') : r.shared.graph.Extends r'.shared.graph ∧
      ∀ x : StepRef, x.gen < r.shared.graph.fresh →
        ((r.shared.graph.step x).runnable = true →
          (r'.shared.graph.step x).runnable = true) ∧
        ((r.shared.graph.step x).created = true →
          (r'.shared.graph.step x).created = true) := by
  have hgrows : r.shared.graph.Grows r'.shared.graph →
      r.shared.graph.Extends r'.shared.graph ∧
      ∀ x : StepRef, x.gen < r.shared.graph.fresh →
        ((r.shared.graph.step x).runnable = true →
          (r'.shared.graph.step x).runnable = true) ∧
        ((r.shared.graph.step x).created = true →
          (r'.shared.graph.step x).created = true) :=
    fun hg => ⟨hg.toExtends, fun x hx =>
      ⟨(hg.step_of_lt hx).runnable, (hg.step_of_lt hx).created⟩⟩
  cases a with
  | call t ans =>
    cases h with
    | call ht hres =>
      obtain ⟨hext, hmarks⟩ := (callGraph_of_resume hres).extends
      exact ⟨hext, fun x _ => hmarks x⟩
  | _ => exact hgrows (h.runnerGraph.grows (by simp))

end QueueRunner
