import QueueRunner.Lifetimes
import QueueRunner.Owners
import QueueRunner.Priorities
import QueueRunner.Sweep

/-!
# The two directions of the step graph

A step points to the steps it depends on (`deps`), and weakly to the steps
that depend on it (`rdeps`).  `create_step` enters the two at different
times: `Steps::create` adds the referring step to `rdeps`, and the caller
adds the dependency when it takes the result of the input, many awaits
later.  In between the input can finish, be released, be taken from `Steps`
or be found by other calls.

`Edges` is what holds all the same: a live step only depends on live steps
of its inputs, and it is in the `rdeps` of each of them.
-/

namespace QueueRunner

/-! ## What no step of the runner loses -/

/-- A step is not revived, it keeps its derivation, its marks and the live
steps that wait for it, and when its last dependency goes it becomes
runnable. -/
structure Step.Wakes (live : StepRef → Prop) (r r' : Step) : Prop where
  alive : r'.alive = true → r.alive = true
  drv : r.drv ≠ none → r'.drv ≠ none
  previousFailure : r.previousFailure = true → r'.previousFailure = true
  created : r.created = true → r'.created = true
  runnable : r.runnable = true → r'.runnable = true
  rdeps : ∀ t ∈ r.rdeps, live t → t ∈ r'.rdeps
  ready : r.created = true → r'.deps = [] → r.deps = [] ∨ r'.runnable = true

namespace Step.Wakes

variable {live : StepRef → Prop} {r r' r'' : Step}

/-- A change of other fields. -/
theorem of_eq (halive : r'.alive = true → r.alive = true) (hdrv : r.drv ≠ none → r'.drv ≠ none)
    (hfailure : r.previousFailure = true → r'.previousFailure = true)
    (hcreated : r.created = true → r'.created = true)
    (hrunnable : r'.runnable = r.runnable) (hdeps : r'.deps = r.deps)
    (hrdeps : r'.rdeps = r.rdeps) : Wakes live r r' where
  alive := halive
  drv := hdrv
  previousFailure := hfailure
  created := hcreated
  runnable h := hrunnable.trans h
  rdeps _ ht _ := hrdeps ▸ ht
  ready _ h := Or.inl (hdeps ▸ h)

theorem refl (r : Step) : Wakes live r r := of_eq id id id id rfl rfl rfl

theorem trans (h : Wakes live r r') (h' : Wakes live r' r'') : Wakes live r r'' where
  alive hr := h.alive (h'.alive hr)
  drv hr := h'.drv (h.drv hr)
  previousFailure hr := h'.previousFailure (h.previousFailure hr)
  created hr := h'.created (h.created hr)
  runnable hr := h'.runnable (h.runnable hr)
  rdeps t ht hlive := h'.rdeps t (h.rdeps t ht hlive) hlive
  ready hr hnil := by
    rcases h'.ready (h.created hr) hnil with hnil' | hrun
    · exact (h.ready hr hnil').imp id h'.runnable
    · exact Or.inr hrun

/-- A step that loses no live `rdep` and becomes runnable with its last
dependency. -/
theorem of_runnable (halive : r'.alive = r.alive) (hdrv : r'.drv = r.drv)
    (hfailure : r'.previousFailure = r.previousFailure)
    (hcreated : r'.created = r.created) (hrunnable : r'.runnable = true)
    (hrdeps : r'.rdeps = r.rdeps) : Wakes live r r' where
  alive h := halive ▸ h
  drv h := hdrv ▸ h
  previousFailure h := hfailure.trans h
  created h := hcreated.trans h
  runnable _ := hrunnable
  rdeps _ ht _ := hrdeps ▸ ht
  ready _ _ := Or.inr hrunnable

end Step.Wakes

/-- The same for all steps that were there.  Steps that are freed leave
`rdeps`. -/
def Graph.Wakes (g g' : Graph) : Prop :=
  ∀ s, s.gen < g.fresh →
    Step.Wakes (fun t => (g'.step t).alive = true) (g.step s) (g'.step s)

namespace Graph.Wakes

variable {g g' : Graph} {live : StepRef → Prop} {now : Timestamp}

theorem of_keeps (h : Keeps (Step.Wakes (fun t => (g'.step t).alive = true)) g g') :
    g.Wakes g' := fun s _ => h s

theorem of_step (h : g'.step = g.step) : g.Wakes g' := of_keeps fun _ => h ▸ .refl _

theorem of_fades (h : g.Fades g') : g.Wakes g' := by
  refine of_keeps fun s => ?_
  rw [h.step s]
  exact .of_eq id id id id rfl rfl rfl

/-- A change of one step. -/
theorem modifyStep (g : Graph) (s : StepRef) {f : Step → Step}
    (hf : ∀ live, Step.Wakes live (g.step s) (f (g.step s))) : g.Wakes (g.modifyStep s f) :=
  of_keeps (Keeps.modifyStep Step.Wakes.refl (hf _))

theorem keeps_makeRunnable (g : Graph) (s : StepRef) :
    Keeps (Step.Wakes live) g (g.makeRunnable now s) :=
  Keeps.makeRunnable Step.Wakes.refl (fun _ _ => .of_runnable rfl rfl rfl rfl rfl rfl) g s

theorem makeAllRunnable (g : Graph) (l : List StepRef) :
    g.Wakes (l.foldl (fun g s => g.makeRunnable now s) g) :=
  of_keeps (Keeps.makeAllRunnable Step.Wakes.refl (fun _ _ _ => Step.Wakes.trans)
    (fun _ _ => .of_runnable rfl rfl rfl rfl rfl rfl) l g)

theorem keeps_releaseRdep (g : Graph) (s rdep : StepRef) :
    Keeps (Step.Wakes live) g (releaseRdep s now g rdep) := by
  unfold Graph.releaseRdep
  simp only
  split_ifs with halive hlast
  · intro t
    unfold Graph.makeRunnable
    split_ifs with hrun
    · rw [modifyStep_self] at hrun
      rw [modifyStep_step]
      split_ifs with ht
      · subst ht
        exact .of_runnable rfl rfl rfl rfl hrun rfl
      · exact .refl _
    · rw [modifyStep_step, modifyStep_step]
      split_ifs with ht
      · exact .of_runnable rfl rfl rfl rfl rfl rfl
      · exact .refl _
  · refine Keeps.modifyStep Step.Wakes.refl
      ⟨id, id, id, id, id, fun _ ht _ => ht, fun hcreated hnil => ?_⟩
    exact absurd ⟨hnil, by rw [modifyStep_self]; exact hcreated⟩ hlast
  · exact Keeps.refl Step.Wakes.refl g

/-- A live step stays in the list that is pruned. -/
theorem keeps_makeRdepsRunnable (hlive : ∀ t, live t → (g.step t).alive = true) (s : StepRef) :
    Keeps (Step.Wakes live) g (g.makeRdepsRunnable now s) := by
  have hsettles : Keeps Step.Settles g ((g.step s).rdeps.foldl (releaseRdep s now) g) :=
    Keeps.foldl Step.Settles.refl (fun _ _ _ => Step.Settles.trans)
      (Settles.keeps_releaseRdep s now) _ g
  have hwalk : Keeps (Step.Wakes live) g ((g.step s).rdeps.foldl (releaseRdep s now) g) :=
    Keeps.foldl Step.Wakes.refl (fun _ _ _ => Step.Wakes.trans)
      (fun g r => keeps_releaseRdep g s r) _ g
  unfold Graph.makeRdepsRunnable
  split_ifs
  · refine Keeps.trans (fun _ _ _ => Step.Wakes.trans) hwalk ?_
    refine Keeps.modifyStep Step.Wakes.refl
      ⟨id, id, id, id, id, fun t ht ha => ?_, fun _ h => Or.inl h⟩
    rw [List.mem_filter]
    exact ⟨ht, (hsettles t).alive.trans (hlive t ha)⟩
  · exact Keeps.refl Step.Wakes.refl g

theorem makeRdepsRunnable (g : Graph) (s : StepRef) : g.Wakes (g.makeRdepsRunnable now s) :=
  of_keeps (keeps_makeRdepsRunnable
    (fun t ht => ((Settles.keeps_makeRdepsRunnable g now s t).alive).symm.trans ht) s)

theorem keeps_sweepSteps (order : List StepRef)
    (hlive : ∀ t, live t → (g.step t).alive = true) :
    Keeps (Step.Wakes live) g (g.sweepSteps now order) := by
  induction order generalizing g with
  | nil => exact Keeps.refl Step.Wakes.refl g
  | cons s order ih =>
    have hone : Keeps (Step.Wakes live) g (Graph.sweepStep now g s) := by
      unfold Graph.sweepStep
      split_ifs
      · exact keeps_makeRdepsRunnable hlive s
      · exact Keeps.refl Step.Wakes.refl g
    refine Keeps.trans (fun _ _ _ => Step.Wakes.trans) hone (ih fun t ht => ?_)
    exact ((Settles.sweepStep g now s) t).alive.trans (hlive t ht)

theorem sweepSteps (g : Graph) (order : List StepRef) : g.Wakes (g.sweepSteps now order) :=
  of_keeps (keeps_sweepSteps order
    (fun t ht => (((Settles.sweepSteps g now order).step t).alive).symm.trans ht))

/-- A new step is none of those that were there, and a step that is found
gets one more `rdep`. -/
theorem of_created {drvPath : StorePath} {build : Option BuildRef} {parent : Option StepRef}
    {s : StepRef} {isNew : Bool} (h : Created g drvPath build parent g' s isNew) : g.Wakes g' := by
  intro t ht
  rw [h.step]
  split_ifs with hts hnew
  · obtain ⟨hgen, -⟩ := h.isNew hnew
    rw [hts, hgen] at ht
    exact absurd ht (lt_irrefl _)
  · subst hts
    exact ⟨id, id, id, id, id, fun _ hu _ => List.mem_append_left _ hu, fun _ hnil => Or.inl hnil⟩
  · exact .refl _

end Graph.Wakes

theorem CreateGraph.wakes {c : CreateState} {a : CreateAction} {g : Graph}
    (h : CreateGraph c a g) : c.graph.Wakes g := by
  cases h with
  | same => exact .of_step rfl
  | startPass rows => exact .of_step (c.startPass_grows rows).2.1
  | makeRunnable now steps => exact .makeAllRunnable _ _
  | sweep now order => exact .sweepSteps _ _
  | finishInDb hcall => exact .of_step rfl
  | attach hcall hpc =>
    simp only [CreateState.finishBuild]
    split_ifs <;> exact .of_step rfl
  | created h => exact .of_created h
  | setDrv step drv => exact .modifyStep _ _ fun _ => .of_eq id (by simp) id id rfl rfl rfl
  | setPreviousFailure step =>
    exact .modifyStep _ _ fun _ => .of_eq id id (fun _ => rfl) id rfl rfl rfl
  | setFinished step => exact .modifyStep _ _ fun _ => .of_eq id id id id rfl rfl rfl
  | addDep step dep =>
    unfold Graph.addDep
    refine .modifyStep _ _ fun _ => ⟨id, id, id, id, id, fun _ ht _ => ht, fun _ hnil => ?_⟩
    simp only [insertStep] at hnil
    split_ifs at hnil
    · exact Or.inl hnil
    · simp at hnil
  | setCreated step => exact .modifyStep _ _ fun _ => .of_eq id id id (fun _ => rfl) rfl rfl rfl

theorem CallGraph.wakes {s : Shared} {t : CallTask} {g : Graph} (h : CallGraph s t g) :
    s.graph.Wakes g := by
  cases h with
  | fades h => exact .of_fades h
  | succeeds a report item ht hitem hg =>
    rw [hg]
    exact .modifyStep _ _ fun _ => .of_eq id id id id rfl rfl rfl
  | fails a state report caller item tries after ht hitem hg =>
    rw [hg]
    exact .modifyStep _ _ fun _ => .of_eq id id id id rfl rfl rfl
  | releases a report item now ht hg =>
    rw [hg]
    exact .makeRdepsRunnable _ _

theorem RunnerGraph.wakes {r : Runner} {a : Action} {g : Graph} (h : RunnerGraph r a g) :
    r.shared.graph.Wakes g := by
  cases h with
  | fades h => exact .of_fades h
  | call ht h => exact h.wakes
  | create h => exact h.wakes
  | dropStep s => exact .modifyStep _ _ fun _ => .of_eq (by simp) id id id rfl rfl rfl
  | dropBuild b => exact .of_step rfl

/-! ## Where a dependency comes from -/

theorem mem_of_mem_insertStep {l : List StepRef} {s t : StepRef} (h : t ∈ insertStep l s) :
    t ∈ l ∨ t = s := by
  simp only [insertStep] at h
  split_ifs at h
  · exact Or.inl h
  · exact (List.mem_append.mp h).imp id List.mem_singleton.mp

@[simp] theorem Graph.deps_setPreviousFailure (g : Graph) (s t : StepRef) (v : Bool) :
    (g.setPreviousFailure s v).deps t = g.deps t := by
  rw [Graph.deps, Graph.setPreviousFailure, Graph.modifyStep_step]
  split_ifs <;> rfl

@[simp] theorem Graph.deps_setCreated (g : Graph) (s t : StepRef) :
    (g.setCreated s).deps t = g.deps t := by
  rw [Graph.deps, Graph.setCreated, Graph.modifyStep_step]
  split_ifs <;> rfl

/-- A step gets no dependency, and it is neither completed nor taken for one
that has failed before. -/
structure Step.Quiet (r r' : Step) : Prop where
  deps : r'.deps ⊆ r.deps
  created : r'.created = true → r.created = true
  previousFailure : r'.previousFailure = true → r.previousFailure = true

namespace Step.Quiet

variable {r r' r'' : Step}

theorem refl (r : Step) : Quiet r r := ⟨List.Subset.refl _, id, id⟩

theorem trans (h : Quiet r r') (h' : Quiet r' r'') : Quiet r r'' where
  deps := List.Subset.trans h'.deps h.deps
  created := h.created ∘ h'.created
  previousFailure := h.previousFailure ∘ h'.previousFailure

theorem of_sameBase (h : Step.SameBase r r') (hdeps : r'.deps ⊆ r.deps) : Quiet r r' where
  deps := hdeps
  created hr := h.created ▸ hr
  previousFailure hr := h.previousFailure ▸ hr

end Step.Quiet

namespace Graph

variable {g g' : Graph}

/-- The same for all steps. -/
def Quiet (g g' : Graph) : Prop := Keeps Step.Quiet g g'

namespace Quiet

theorem of_step (h : g'.step = g.step) : g.Quiet g' := fun _ => h ▸ .refl _

theorem of_settles (h : Keeps Step.Settles g g') (hbase : g.SameBase g') : g.Quiet g' :=
  fun s => .of_sameBase (hbase s) (h s).deps.subset

theorem of_fades (h : g.Fades g') : g.Quiet g' := of_settles (Settles.of_fades h).step h.sameBase

theorem modifyStep (g : Graph) (s : StepRef) {f : Step → Step}
    (hf : Step.Quiet (g.step s) (f (g.step s))) : g.Quiet (g.modifyStep s f) :=
  Keeps.modifyStep Step.Quiet.refl hf

theorem of_created {drvPath : StorePath} {build : Option BuildRef} {parent : Option StepRef}
    {s : StepRef} {isNew : Bool} (h : Created g drvPath build parent g' s isNew) :
    g.Quiet g' := fun t => by
  rw [h.step]
  split_ifs with hts hnew
  · exact ⟨List.nil_subset _, by simp [referred], by simp [referred]⟩
  · rw [hts]
    exact ⟨List.Subset.refl _, id, id⟩
  · exact .refl _

theorem makeAllRunnable (now : Timestamp) (l : List StepRef) (g : Graph) :
    g.Quiet (l.foldl (fun g s => g.makeRunnable now s) g) :=
  Keeps.makeAllRunnable Step.Quiet.refl (fun _ _ _ => Step.Quiet.trans)
    (fun _ _ => ⟨List.Subset.refl _, id, id⟩) l g

end Quiet

end Graph

/-- A call that works on `t` takes its input `d`, which is not finished. -/
inductive CreateState.TakesInput (c : CreateState) (t d : StepRef) : Prop where
  | intro {k k' : CallId} {call child : StepCall} {drvPath : StorePath} {todo : List StorePath}
      {calls : List (StorePath × CallId)} (hcall : c.creation.steps.lookup k = some call)
      (hpc : call.pc = .inputs t todo ((drvPath, k') :: calls))
      (hchild : c.creation.steps.lookup k' = some child)
      (hresult : child.pc = .returned (.valid d)) (hfinished : (c.graph.step d).finished = false)

/-- What a step of the creation does to the dependencies and to the steps that
are complete or have failed before. -/
inductive WaitsStep (c c' : CreateState) : Prop where
  | quiet (hg : c.graph.Quiet c'.graph)
  | takes {t d : StepRef} (h : c.TakesInput t d) (hg : c'.graph = c.graph.addDep t d)
  /-- The last input was taken. -/
  | completes {k : CallId} {call : StepCall} {t : StepRef}
      (hcall : c.creation.steps.lookup k = some call) (hpc : call.pc = .inputs t [] [])
      (hc : c' = c.finishStep k call t)
  /-- The step has failed before, and its call returns. -/
  | fails {k : CallId} {call : StepCall} {t : StepRef}
      (hk : c.creation.making k = some t)
      (hc : c' = ({ c with graph := c.graph.setPreviousFailure t true } : CreateState).returnStep
        k call (.previousFailure t))

theorem CreateState.Started.quiet {c c' : CreateState} {pass build : CallId}
    {callers : List CallId} {drvPath : StorePath} {rb : Option BuildRef} {rs : Option StepRef}
    {pc : StepPc} (h : Started c pass build callers drvPath rb rs c' pc) :
    c.graph.Quiet c'.graph := by
  rcases h.result with ⟨-, hg, -⟩ | ⟨s, isNew, hcreated, -⟩
  · rw [hg]
    exact .of_step rfl
  · exact .of_created hcreated

theorem CreateStep.waitsStep {cfg : Config} {c c' : CreateState} {ans : Answer}
    {a : CreateAction} (h : CreateStep cfg c ans a c') : WaitsStep c c' := by
  cases h with
  | startPass rows => exact .quiet (.of_step (c.startPass_grows rows).2.1)
  | makeRunnable now todo hpass hwaiting hcall hpc => exact .quiet (.makeAllRunnable _ _ _)
  | sweep now order hpass hwaiting htodo horder =>
    exact .quiet (.of_settles (Graph.Settles.sweepSteps c.graph now order).step
      (Graph.sameBase_sweepSteps c.graph now order))
  | @startToplevel k call hcall hpc hok =>
    obtain ⟨pc, hstart⟩ := c.started_startStep call.pass k [] call.build.drvPath
      (some call.build) none
    exact .quiet hstart.quiet
  | @attach k call step hcall hpc =>
    refine .quiet (.of_step ?_)
    simp only [CreateState.finishBuild]
    split_ifs <;> rfl
  | @startInput k call step drvPath todo calls hcall hpc hlength =>
    obtain ⟨pc, hstart⟩ := c.started_startStep call.pass call.build
      (k :: call.callers) drvPath none (some step)
    exact .quiet hstart.quiet
  | @setDrv k call step drv hcall hpc =>
    have hg : c.graph.Quiet (c.graph.setDrv step drv) :=
      .modifyStep _ _ ⟨List.Subset.refl _, id, id⟩
    exact .quiet hg
  | @cachedFailure k call step drv missing hcall hpc hcached =>
    refine .fails ?_ rfl
    rw [Creation.making_of_lookup hcall, hpc]
    rfl
  | decide finished hcall hpc =>
    refine .quiet ?_
    rw [CreateState.decideStep_graph]
    split_ifs
    · exact .modifyStep _ _ ⟨List.Subset.refl _, id, id⟩
    · exact .of_step rfl
  | @takeInput k k' call child step drvPath todo calls r hcall hpc hchild hresult =>
    cases r with
    | none => exact .quiet (.of_step rfl)
    | previousFailure failed => exact .quiet (.of_step rfl)
    | valid dep =>
      simp only [CreateState.takeInput]
      split_ifs with hopen
      · exact .takes (.intro hcall hpc hchild hresult hopen.1) rfl
      · exact .quiet (.of_step rfl)
  | finish hcall hpc => exact .completes hcall hpc rfl
  | _ => exact .quiet (.of_step rfl)

/-- Outside of the creation nobody gets a dependency or is completed. -/
theorem RunnerStep.quiet {cfg : Config} {r r' : Runner} {a : Action}
    (h : RunnerStep cfg r a r') (ha : ∀ ca ans, a ≠ .create ca ans) :
    r.shared.graph.Quiet r'.shared.graph := by
  generalize hg : r'.shared.graph = g
  have hgraph := hg ▸ h.runnerGraph
  cases hgraph with
  | fades hfades => exact .of_fades hfades
  | call ht hcall =>
    cases hcall with
    | fades hfades => exact .of_fades hfades
    | succeeds a report item ht hitem hg =>
      rw [hg]
      exact .modifyStep _ _ ⟨List.Subset.refl _, id, id⟩
    | fails a state report caller item tries after ht hitem hg =>
      rw [hg]
      exact .modifyStep _ _ ⟨List.Subset.refl _, id, id⟩
    | releases a report item now ht hg =>
      rw [hg]
      exact .of_settles (Graph.Settles.keeps_makeRdepsRunnable _ now _)
        (Graph.sameBase_makeRdepsRunnable _ _ now)
  | create hcreate => exact absurd rfl (ha _ _)
  | dropStep s => exact .modifyStep _ _ ⟨List.Subset.refl _, id, id⟩
  | dropBuild b => exact .of_step rfl

/-- A step of the runner is one of the creation, or it leaves the calls of the
creation alone. -/
theorem RunnerStep.create_or_quiet {cfg : Config} {r r' : Runner} {a : Action}
    (h : RunnerStep cfg r a r') :
    (∃ ca ans, CreateStep cfg r.createState ans ca r'.createState) ∨
      r.shared.graph.Quiet r'.shared.graph ∧ r'.creation = r.creation := by
  by_cases ha : ∃ ca ans, a = .create ca ans
  · obtain ⟨ca, ans, rfl⟩ := ha
    cases h with
    | create hnext => exact Or.inl ⟨ca, ans, CreateState.createStep_of_next hnext⟩
  · right
    have hne : ∀ ca ans, a ≠ .create ca ans := fun ca ans he => ha ⟨ca, ans, he⟩
    exact ⟨h.quiet hne, h.creation_eq hne⟩

theorem RunnerStep.waitsStep {cfg : Config} {r r' : Runner} {a : Action}
    (h : RunnerStep cfg r a r') : WaitsStep r.createState r'.createState := by
  rcases h.create_or_quiet with ⟨ca, ans, hs⟩ | ⟨hg, -⟩
  · exact hs.waitsStep
  · exact .quiet hg

/-- Only a call of `create_step` adds a dependency. -/
theorem WaitsStep.deps_cases {c c' : CreateState} (h : WaitsStep c c') {t d : StepRef}
    (hd : d ∈ c'.graph.deps t) :
    d ∈ c.graph.deps t ∨ c.TakesInput t d ∧ c'.graph = c.graph.addDep t d := by
  cases h with
  | quiet hg => exact Or.inl ((hg t).deps hd)
  | @takes t' d' htakes hg =>
    rw [hg, Graph.deps_addDep] at hd
    split_ifs at hd with hts
    · refine (mem_of_mem_insertStep hd).imp (fun hold => hts ▸ hold) fun he => ?_
      rw [he, hts]
      exact ⟨htakes, hg⟩
    · exact Or.inl hd
  | completes hcall hpc hc =>
    rw [hc, CreateState.finishStep_graph, Graph.deps_setCreated] at hd
    exact Or.inl hd
  | fails hk hc =>
    rw [hc, CreateState.returnStep, CreateState.setStepCall_graph,
      Graph.deps_setPreviousFailure] at hd
    exact Or.inl hd

/-- Only a call of `create_step` that is through with its inputs completes a
step. -/
theorem WaitsStep.created_cases {c c' : CreateState} (h : WaitsStep c c') {s : StepRef}
    (hs : (c'.graph.step s).created = true) : (c.graph.step s).created = true ∨
      ∃ k call, c.creation.steps.lookup k = some call ∧ call.pc = .inputs s [] [] ∧
        c' = c.finishStep k call s := by
  cases h with
  | quiet hg => exact Or.inl ((hg s).created hs)
  | takes htakes hg =>
    rw [hg, Graph.addDep, Graph.modifyStep_step] at hs
    split_ifs at hs with heq
    · exact Or.inl (heq ▸ hs)
    · exact Or.inl hs
  | @completes k call t hcall hpc hc =>
    by_cases heq : s = t
    · subst heq
      exact Or.inr ⟨k, call, hcall, hpc, hc⟩
    · rw [hc, CreateState.finishStep_graph, Graph.setCreated, Graph.modifyStep_step,
        if_neg heq] at hs
      exact Or.inl hs
  | fails hk hc =>
    rw [hc, CreateState.returnStep, CreateState.setStepCall_graph,
      Graph.setPreviousFailure, Graph.modifyStep_step] at hs
    split_ifs at hs with heq
    · exact Or.inl (heq ▸ hs)
    · exact Or.inl hs

/-- Only a call of `create_step` takes a step for one that has failed
before, and it returns. -/
theorem WaitsStep.previousFailure_cases {c c' : CreateState} (h : WaitsStep c c') {s : StepRef}
    (hs : (c'.graph.step s).previousFailure = true) :
    (c.graph.step s).previousFailure = true ∨ ∃ k call, c.creation.making k = some s ∧
      c' = ({ c with graph := c.graph.setPreviousFailure s true } : CreateState).returnStep
        k call (.previousFailure s) := by
  cases h with
  | quiet hg => exact Or.inl ((hg s).previousFailure hs)
  | takes htakes hg =>
    rw [hg, Graph.addDep, Graph.modifyStep_step] at hs
    split_ifs at hs with heq
    · exact Or.inl (heq ▸ hs)
    · exact Or.inl hs
  | completes hcall hpc hc =>
    rw [hc, CreateState.finishStep_graph, Graph.setCreated, Graph.modifyStep_step] at hs
    split_ifs at hs with heq
    · exact Or.inl (heq ▸ hs)
    · exact Or.inl hs
  | @fails k call t hk hc =>
    by_cases heq : s = t
    · subst heq
      exact Or.inr ⟨k, call, hk, hc⟩
    · rw [hc, CreateState.returnStep, CreateState.setStepCall_graph,
        Graph.setPreviousFailure, Graph.modifyStep_step, if_neg heq] at hs
      exact Or.inl hs

/-! ## The steps of the calls -/

/-- The calls work on the steps that they worked on, for the same steps. -/
def KeepsPlaces (m m' : Map CallId StepCall) : Prop :=
  ∀ k call' s, m'.lookup k = some call' → call'.pc.step? = some s →
    ∃ call, m.lookup k = some call ∧ call.pc.step? = some s ∧
      call'.referringStep = call.referringStep

namespace KeepsPlaces

variable {m m' m'' : Map CallId StepCall}

/-- Calls go away. -/
theorem of_subset (h : ∀ k call, m'.lookup k = some call → m.lookup k = some call) :
    KeepsPlaces m m' := fun k call _ hk hs => ⟨call, h k call hk, hs, rfl⟩

theorem refl (m : Map CallId StepCall) : KeepsPlaces m m := of_subset fun _ _ => id

theorem trans (h : KeepsPlaces m m') (h' : KeepsPlaces m' m'') : KeepsPlaces m m'' := by
  intro k call'' s hk hs
  obtain ⟨call', hk', hs', hparent'⟩ := h' k call'' s hk hs
  obtain ⟨call, hk₀, hs₀, hparent⟩ := h k call' s hk' hs'
  exact ⟨call, hk₀, hs₀, hparent'.trans hparent⟩

theorem erase (m : Map CallId StepCall) (k : CallId) : KeepsPlaces m (m.erase k) := by
  apply of_subset
  intro j call hj
  rw [Map.lookup_erase_eq] at hj
  split_ifs at hj
  exact hj

theorem retain (m : Map CallId StepCall) (p : CallId → StepCall → Bool) :
    KeepsPlaces m (m.retain p) := by
  apply of_subset
  intro j call hj
  rw [Map.lookup_retain, Option.filter_eq_some_iff] at hj
  exact hj.1

/-- A call moves on with its step, or returns without one. -/
theorem insert {k : CallId} {call : StepCall} (hcall : m.lookup k = some call) (pc : StepPc)
    (hpc : ∀ s, pc.step? = some s → call.pc.step? = some s) :
    KeepsPlaces m (m.insert k { call with pc := pc }) := by
  intro j call' s hj hs
  rw [Map.lookup_insert_eq] at hj
  split_ifs at hj with he
  · cases hj
    exact ⟨call, he ▸ hcall, hpc s hs, rfl⟩
  · exact ⟨call', hj, hs, rfl⟩

end KeepsPlaces

/-- The call `k` has got its step from `Steps::create`. -/
theorem CreateState.Started.place_cases {c c' : CreateState} {pass build : CallId}
    {callers : List CallId} {drvPath : StorePath} {rb : Option BuildRef} {rs : Option StepRef}
    {pc : StepPc} (h : Started c pass build callers drvPath rb rs c' pc) {k : CallId}
    {call : StepCall} {s : StepRef} (hk : c'.creation.steps.lookup k = some call)
    (hs : call.pc.step? = some s) : c.creation.steps.lookup k = some call ∨
      (∃ drvPath rb isNew,
        Graph.Created c.graph drvPath rb call.referringStep c'.graph s isNew) ∧
      call.referringStep = rs := by
  rw [h.steps, Map.lookup_insert_eq] at hk
  split_ifs at hk
  · cases hk
    right
    rcases h.result with ⟨hpc, -, -⟩ | ⟨s', isNew, hcreated, hpc⟩
    · rw [hpc] at hs
      cases hs
    · have hs' : s' = s := by
        rw [hpc] at hs
        cases isNew <;> exact Option.some.inj hs
      exact ⟨⟨drvPath, rb, isNew, hs' ▸ hcreated⟩, rfl⟩
  · exact Or.inl hk

/-- A call works on the step that it worked on, or it starts. -/
theorem CreateStep.place_cases {cfg : Config} {c c' : CreateState} {ans : Answer}
    {a : CreateAction} (h : CreateStep cfg c ans a c') {k : CallId} {call' : StepCall}
    {s : StepRef} (hk : c'.creation.steps.lookup k = some call')
    (hs : call'.pc.step? = some s) :
    (∃ call, c.creation.steps.lookup k = some call ∧ call.pc.step? = some s ∧
        call'.referringStep = call.referringStep) ∨
      (∃ drvPath rb isNew,
        Graph.Created c.graph drvPath rb call'.referringStep c'.graph s isNew) ∧
      ∀ t ∈ call'.referringStep, ∃ j, c.creation.making j = some t := by
  have hkeeps : KeepsPlaces c.creation.steps c'.creation.steps →
      ∃ call, c.creation.steps.lookup k = some call ∧ call.pc.step? = some s ∧
        call'.referringStep = call.referringStep := fun hkeeps => hkeeps k call' s hk hs
  cases h with
  | @startToplevel j call hcall hpc hok =>
    obtain ⟨pc, hstart⟩ := c.started_startStep call.pass j [] call.build.drvPath
      (some call.build) none
    refine (hstart.place_cases hk hs).imp (fun hk => ⟨call', hk, hs, rfl⟩) (And.imp id ?_)
    intro hparent t ht
    rw [hparent] at ht
    cases ht
  | @startInput j call step drvPath todo calls hcall hpc hlength =>
    obtain ⟨pc, hstart⟩ := c.started_startStep call.pass call.build
      (j :: call.callers) drvPath none (some step)
    rw [CreateState.setStepCall_steps, Map.lookup_insert_eq] at hk
    split_ifs at hk with he
    · cases hk
      exact Or.inl ⟨call, he ▸ hcall, by rw [hpc]; exact hs, rfl⟩
    · refine (hstart.place_cases hk hs).imp (fun hk => ⟨call', hk, hs, rfl⟩) (And.imp id ?_)
      intro hparent t ht
      rw [hparent] at ht
      cases ht
      refine ⟨j, ?_⟩
      rw [Creation.making_of_lookup hcall, hpc]
      rfl
  | takeToplevel r hcall hpc hchild hresult hmove => exact Or.inl (hkeeps (.erase _ _))
  | readDrv hcall hpc hok =>
    exact Or.inl (hkeeps (.insert hcall _ (by rw [hpc]; exact fun _ => id)))
  | unreadable hcall hpc hok => exact Or.inl (hkeeps (.insert hcall _ (by simp [StepPc.step?])))
  | setDrv hcall hpc =>
    exact Or.inl (hkeeps (.insert hcall _ (by rw [hpc]; exact fun _ => id)))
  | cachedFailure hcall hpc hcached =>
    exact Or.inl (hkeeps (.insert hcall _ (by simp [StepPc.step?])))
  | substitute hcall hpc =>
    exact Or.inl (hkeeps (.insert hcall _ (by rw [hpc]; exact fun _ => id)))
  | @decide j call step drv missing finished hcall hpc =>
    left
    cases finished with
    | false =>
      refine hkeeps (.insert hcall _ ?_)
      rcases hpc with ⟨hpc, -⟩ | ⟨hpc, -⟩ <;> rw [hpc] <;> exact fun _ => id
    | true =>
      refine hkeeps ?_
      simp only [CreateState.decideStep, if_true, CreateState.returnStep,
        CreateState.setStepCall_steps, (c.insertFinishedDrv_frame call.pass call.drvPath).2.2.1]
      exact .insert hcall _ (by simp [StepPc.step?])
  | @takeInput j k' call child step drvPath todo calls r hcall hpc hchild hresult =>
    left
    have hcall' := CreateState.lookup_takeStepCall hcall hpc hchild hresult
    have htake : KeepsPlaces c.creation.steps (c.takeStepCall k').creation.steps := .erase _ _
    have hgoes : KeepsPlaces (c.takeStepCall k').creation.steps
        ((c.takeStepCall k').creation.steps.insert j
          { call with pc := .inputs step todo calls }) :=
      .insert hcall' _ (by rw [hpc]; exact fun _ => id)
    cases r with
    | none => exact hkeeps (htake.trans hgoes)
    | valid dep =>
      refine hkeeps (htake.trans ?_)
      simp only [CreateState.takeInput]
      split_ifs <;> exact hgoes
    | previousFailure failed =>
      refine hkeeps (fun i q s' hi hs' => ?_)
      simp only [CreateState.takeInput, CreateState.returnStep, CreateState.setStepCall_steps,
        Map.lookup_insert_eq] at hi
      split_ifs at hi
      · cases hi
        cases hs'
      · exact (htake.trans (.retain _ _)) i q s' hi hs'
  | @finish j call step hcall hpc =>
    left
    refine hkeeps ?_
    have hnew := CreateState.insertNewRunnable_frame
      { c with graph := c.graph.setCreated step } call.pass step
    simp only [CreateState.finishStep, CreateState.returnStep, CreateState.setStepCall_steps,
      (CreateState.insertNewStep_frame _ _ _).2.2.1]
    have hsteps : KeepsPlaces c.creation.steps
        (c.creation.steps.insert j { call with pc := .returned (.valid step) }) :=
      .insert hcall _ (by rw [hpc]; exact fun _ => id)
    split_ifs
    · rw [hnew.2.2.1]
      exact hsteps
    · exact hsteps
  | _ => exact Or.inl (hkeeps (.refl _))

/-! ## The calls for the inputs -/

/-- The inputs that a call has still to ask for. -/
def StepPc.todo : StepPc → List StorePath
  | .inputs _ todo _ => todo
  | _ => []

/-- The inputs that a call has asked for, each with its call. -/
def StepPc.asked : StepPc → List (StorePath × CallId)
  | .inputs _ _ calls => calls
  | _ => []

/-- The call decides about inputs of its derivation only. -/
theorem StepPc.Moves.asks {cfg : Config} {drvPath : StorePath} {pc pc' : StepPc}
    (h : pc.Moves cfg drvPath pc') (hdrv : ∀ d, pc.drv? = some d → d = cfg.drvOf drvPath) :
    pc'.asked = [] ∧ pc'.todo ⊆ (cfg.drvOf drvPath).inputDrvs := by
  cases h with
  | inputs hpc =>
    refine ⟨rfl, ?_⟩
    rcases hpc with rfl | rfl <;> rw [← hdrv _ rfl] <;> exact List.Subset.refl _
  | _ => exact ⟨rfl, List.nil_subset _⟩

/-- A call asks for the inputs of its derivation, and the call for an input
refers to the step of its caller. -/
structure CallInputs (cfg : Config) (m : Map CallId StepCall) : Prop where
  todo : ∀ j caller, m.lookup j = some caller →
    caller.pc.todo ⊆ (cfg.drvOf caller.drvPath).inputDrvs
  asked : ∀ j caller e, m.lookup j = some caller → e ∈ caller.pc.asked →
    e.1 ∈ (cfg.drvOf caller.drvPath).inputDrvs
  child : ∀ j caller e child, m.lookup j = some caller → e ∈ caller.pc.asked →
    m.lookup e.2 = some child →
      child.drvPath = e.1 ∧ child.referringStep = caller.pc.step?

namespace CallInputs

variable {cfg : Config} {ans : Answer} {c c' : Creation} {m m' : Map CallId StepCall}

theorem init : CallInputs cfg ∅ := by
  constructor <;> simp

/-- The calls ask for no more than they did, and a new call is none of those
that are waited for. -/
theorem of_frame (h : CallInputs cfg m)
    (hcaller : ∀ j caller', m'.lookup j = some caller' →
      caller'.pc.asked = [] ∧ caller'.pc.todo ⊆ (cfg.drvOf caller'.drvPath).inputDrvs ∨
      ∃ caller, m.lookup j = some caller ∧ caller'.drvPath = caller.drvPath ∧
        caller'.pc.todo ⊆ caller.pc.todo ∧ caller'.pc.asked ⊆ caller.pc.asked ∧
        caller'.pc.step? = caller.pc.step?)
    (hchild : ∀ k child', m'.lookup k = some child' →
      (∃ child, m.lookup k = some child ∧ child'.drvPath = child.drvPath ∧
          child'.referringStep = child.referringStep) ∨
        ∀ j caller e, m.lookup j = some caller → e ∈ caller.pc.asked → e.2 ≠ k) :
    CallInputs cfg m' := by
  refine ⟨fun j caller' hj => ?_, fun j caller' e hj he => ?_,
    fun j caller' e child' hj he hc => ?_⟩
  · rcases hcaller j caller' hj with ⟨-, htodo⟩ | ⟨caller, hj₀, hpath, htodo, -, -⟩
    · exact htodo
    · rw [hpath]
      exact List.Subset.trans htodo (h.todo j caller hj₀)
  · rcases hcaller j caller' hj with ⟨hnil, -⟩ | ⟨caller, hj₀, hpath, -, hasked, -⟩
    · rw [hnil] at he
      cases he
    · rw [hpath]
      exact h.asked j caller e hj₀ (hasked he)
  · rcases hcaller j caller' hj with ⟨hnil, -⟩ | ⟨caller, hj₀, -, -, hasked, hstep⟩
    · rw [hnil] at he
      cases he
    · rcases hchild e.2 child' hc with ⟨child, hc₀, hpath, hparent⟩ | hnone
      · rw [hpath, hparent, hstep]
        exact h.child j caller e child hj₀ (hasked he) hc₀
      · exact absurd rfl (hnone j caller e hj₀ (hasked he))

/-- A call is written back that asks for no more than it did, or that starts
to ask for the inputs. -/
theorem insert (h : CallInputs cfg m) {k : CallId} {call : StepCall}
    (hcall : m.lookup k = some call) (pc : StepPc)
    (hpc : pc.asked = [] ∧ pc.todo ⊆ (cfg.drvOf call.drvPath).inputDrvs ∨
      pc.todo ⊆ call.pc.todo ∧ pc.asked ⊆ call.pc.asked ∧ pc.step? = call.pc.step?) :
    CallInputs cfg (m.insert k { call with pc := pc }) := by
  refine h.of_frame (fun j caller' hj => ?_) (fun j child' hj => Or.inl ?_)
  · rw [Map.lookup_insert_eq] at hj
    split_ifs at hj with he
    · cases hj
      exact hpc.imp id fun hpc => ⟨call, he ▸ hcall, rfl, hpc⟩
    · exact Or.inr ⟨caller', hj, rfl, List.Subset.refl _, List.Subset.refl _, rfl⟩
  · rw [Map.lookup_insert_eq] at hj
    split_ifs at hj with he
    · cases hj
      exact ⟨call, he ▸ hcall, rfl, rfl⟩
    · exact ⟨child', hj, rfl, rfl⟩

/-- Calls go away. -/
theorem of_subset (h : CallInputs cfg m)
    (hsub : ∀ k call, m'.lookup k = some call → m.lookup k = some call) : CallInputs cfg m' :=
  h.of_frame (fun j caller hj => Or.inr ⟨caller, hsub j caller hj, rfl, List.Subset.refl _,
    List.Subset.refl _, rfl⟩) (fun k child hk => Or.inl ⟨child, hsub k child hk, rfl, rfl⟩)

theorem erase (h : CallInputs cfg m) (k : CallId) : CallInputs cfg (m.erase k) := by
  apply h.of_subset
  intro j call hj
  rw [Map.lookup_erase_eq] at hj
  split_ifs at hj
  exact hj

/-- A call starts that asks for nothing. -/
theorem start (h : CallInputs cfg c.steps) (hw : Awaiting c) (child : StepCall)
    (hpc : child.pc.asked = [] ∧ child.pc.todo = []) :
    CallInputs cfg (c.steps.insert c.fresh child) := by
  refine h.of_frame (fun j caller' hj => ?_) (fun k child' hk => ?_)
  · rw [Map.lookup_insert_eq] at hj
    split_ifs at hj
    · cases hj
      exact Or.inl ⟨hpc.1, by rw [hpc.2]; exact List.nil_subset _⟩
    · exact Or.inr ⟨caller', hj, rfl, List.Subset.refl _, List.Subset.refl _, rfl⟩
  · rw [Map.lookup_insert_eq] at hk
    split_ifs at hk with heq
    · refine Or.inr fun j caller e hj he hk => ?_
      have hmem : e.2 ∈ caller.pc.calls := by
        generalize caller.pc = pc at he
        cases pc with
        | inputs step todo calls => exact List.mem_map_of_mem he
        | _ => cases he
      obtain ⟨-, old, hold, -⟩ := hw.steps.inputs j caller e.2 hj hmem
      have hlt := hw.steps.bound e.2 old hold
      rw [hk, heq] at hlt
      exact lt_irrefl _ hlt
    · exact Or.inl ⟨child', hk, rfl, rfl⟩

/-- A call gets the call for its next input. -/
theorem startInput (h : CallInputs cfg c.steps) (hw : Awaiting c) {k : CallId} {call : StepCall}
    {step : StepRef} {drvPath : StorePath} {todo : List StorePath}
    {calls : List (StorePath × CallId)} (hcall : c.steps.lookup k = some call)
    (hpc : call.pc = .inputs step (drvPath :: todo) calls) (child : StepCall)
    (hpath : child.drvPath = drvPath) (hparent : child.referringStep = some step)
    (hchild : child.pc.asked = [] ∧ child.pc.todo = []) :
    CallInputs cfg ((c.steps.insert c.fresh child).insert k
      { call with pc := .inputs step todo (calls ++ [(drvPath, c.fresh)]) }) := by
  have hstart := h.start hw child hchild
  have hlt : k < c.fresh := hw.steps.bound k call hcall
  have hcall' : (c.steps.insert c.fresh child).lookup k = some call := by
    rw [Map.lookup_insert_eq, if_neg hlt.ne, hcall]
  have htodo := hstart.todo k call hcall'
  rw [hpc] at htodo
  refine ⟨fun j caller' hj => ?_, fun j caller' e hj he => ?_,
    fun j caller' e child' hj he hc => ?_⟩
  · rw [Map.lookup_insert_eq] at hj
    split_ifs at hj with hjk
    · cases hj
      exact List.Subset.trans (List.subset_cons_self _ _) htodo
    · exact hstart.todo j caller' hj
  · rw [Map.lookup_insert_eq] at hj
    split_ifs at hj with hjk
    · cases hj
      rcases List.mem_append.mp he with he | he
      · exact hstart.asked k call e hcall' (by rw [hpc]; exact he)
      · rw [List.mem_singleton.mp he]
        exact htodo List.mem_cons_self
    · exact hstart.asked j caller' e hj he
  · rw [Map.lookup_insert_eq] at hj hc
    -- what the other calls were waiting for stays
    have hold : ∀ caller, (c.steps.insert c.fresh child).lookup j = some caller →
        e ∈ caller.pc.asked →
          child'.drvPath = e.1 ∧ child'.referringStep = caller.pc.step? := by
      intro caller hcaller hmem
      split_ifs at hc with heq
      · cases hc
        exact hstart.child j caller e call hcaller hmem (heq ▸ hcall')
      · exact hstart.child j caller e child' hcaller hmem hc
    split_ifs at hj with hjk
    · cases hj
      rcases List.mem_append.mp he with he | he
      · have hkept := hold call (hjk ▸ hcall') (by rw [hpc]; exact he)
        rw [hkept.2, hpc]
        exact ⟨hkept.1, rfl⟩
      · obtain rfl := List.mem_singleton.mp he
        rw [if_neg hlt.ne', Map.lookup_insert_eq, if_pos rfl, Option.some.injEq] at hc
        rw [← hc]
        exact ⟨hpath, hparent⟩
    · exact hold caller' hj he

/-- Every step of the creation. -/
theorem step {c : CreateState} {a : CreateAction} (h : CallInputs cfg c.creation.steps)
    (hok : CreateOk cfg c) (hw : Awaiting c.creation) (hs : PoolStep cfg ans c.creation a c') :
    CallInputs cfg c'.steps := by
  cases hs with
  | startToplevel hcall hpc hstart =>
    apply h.start hw
    rcases hstart with ⟨s, rfl⟩ | ⟨r, rfl⟩ <;> exact ⟨rfl, rfl⟩
  | takeToplevel hcall hpc hchild hmove => exact h.erase _
  | startInput hcall hpc hstart =>
    refine h.startInput hw hcall hpc _ rfl rfl ?_
    rcases hstart with ⟨s, rfl⟩ | ⟨r, rfl⟩ <;> exact ⟨rfl, rfl⟩
  | @moveStep k call pc passes builds hcall hmove hpasses hbuilds =>
    exact h.insert hcall _ (Or.inl (hmove.asks (hok.steps k call hcall).2.drv))
  | @takeInput k k' call child step drvPath todo calls hcall hpc hchild hne =>
    refine (h.erase k').insert ?_ _ (Or.inr ?_)
    · rw [Map.lookup_erase_eq, if_neg hne, hcall]
    · rw [hpc]
      exact ⟨List.Subset.refl _, List.subset_cons_self _ _, rfl⟩
  | @dropInputs k k' call child step drvPath todo calls r hcall hpc hchild hne =>
    have hsub : ∀ j q, (Map.retain (fun _ call => !call.callers.contains k)
        (c.creation.steps.erase k')).lookup j = some q → c.creation.steps.lookup j = some q := by
      intro j q hj
      rw [Map.lookup_retain, Option.filter_eq_some_iff] at hj
      obtain ⟨hj, -⟩ := hj
      rw [Map.lookup_erase_eq] at hj
      split_ifs at hj
      exact hj
    refine h.of_frame (fun j caller' hj => ?_) (fun j child' hj => Or.inl ?_)
    · rw [Map.lookup_insert_eq] at hj
      split_ifs at hj
      · cases hj
        exact Or.inl ⟨rfl, List.nil_subset _⟩
      · exact Or.inr ⟨caller', hsub j caller' hj, rfl, List.Subset.refl _, List.Subset.refl _,
          rfl⟩
    · rw [Map.lookup_insert_eq] at hj
      split_ifs at hj with heq
      · cases hj
        exact ⟨call, heq ▸ hcall, rfl, rfl⟩
      · exact ⟨child', hsub j child' hj, rfl, rfl⟩
  | _ => exact h

end CallInputs

/-! ## The invariant -/

/-- The two directions agree, and a call has entered its referring step. -/
structure Edges (cfg : Config) (c : CreateState) : Prop where
  inputs : CallInputs cfg c.creation.steps
  allocated : ∀ t d, d ∈ c.graph.deps t → t ∈ c.graph.allocated
  drv : ∀ t d, d ∈ c.graph.deps t → d.drvPath ∈ (cfg.drvOf t.drvPath).inputDrvs
  deps : ∀ t d, d ∈ c.graph.deps t → (c.graph.step t).alive = true →
    (c.graph.step d).alive = true ∧ t ∈ (c.graph.step d).rdeps
  calls : ∀ k call s, c.creation.steps.lookup k = some call → call.pc.step? = some s →
    (c.graph.step s).alive = true ∧ ∀ t ∈ call.referringStep, t ∈ c.graph.allocated ∧
      ((c.graph.step t).alive = true → t ∈ (c.graph.step s).rdeps)

namespace Edges

variable {cfg : Config} {r r' : Runner}

theorem init : Edges cfg ⟨{}, [], {}⟩ := by
  refine ⟨.init, ?_, ?_, ?_, ?_⟩ <;> simp [Graph.deps]

/-- The step of a call is held. -/
theorem stepHeld_of_call {k : CallId} {call : StepCall} {s : StepRef}
    (hk : r.creation.steps.lookup k = some call) (hs : call.pc.step? = some s) :
    r.stepHeld s = true := by
  have hmem : s ∈ call.refs := by
    unfold StepCall.refs
    generalize call.pc = pc at hs
    cases pc with
    | returned res => cases res <;> simp_all [StepPc.step?]
    | _ => simp_all [StepPc.step?]
  have hsteps : s ∈ r.creation.steps' := by
    unfold Creation.steps'
    simp only [List.mem_append, List.mem_flatMap]
    exact Or.inl (Or.inl ⟨call, Map.mem_values_iff.mpr ⟨k, hk⟩, hmem⟩)
  unfold Runner.stepHeld
  simp [hsteps]

/-- A dependency of a live step is held. -/
theorem stepHeld_of_deps {t d : StepRef} (ht : t ∈ r.shared.graph.allocated)
    (hlive : (r.shared.graph.step t).alive = true) (hd : d ∈ r.shared.graph.deps t) :
    r.stepHeld d = true := by
  have hdeps : ∃ t ∈ r.shared.graph.allocated, (r.shared.graph.step t).alive = true ∧
      d ∈ (r.shared.graph.step t).deps := ⟨t, ht, hlive, hd⟩
  unfold Runner.stepHeld
  simp [hdeps]

/-- The step that a call works on is its step. -/
theorem step?_of_making {pc : StepPc} {s : StepRef} (h : pc.making = some s) :
    pc.step? = some s := by
  cases pc with
  | returned res => cases h
  | _ => exact h

/-- It was allocated. -/
theorem mem_allocated_of_making {c : CreateState} (halloc : Allocated c) {k : CallId}
    {s : StepRef} (hk : c.creation.making k = some s) : s ∈ c.graph.allocated := by
  obtain ⟨call, hcall, hs⟩ := Creation.making_eq_some.mp hk
  exact halloc.steps k call s hcall (step?_of_making hs)

/-- The step that a new call has got from `Steps::create`. -/
theorem of_created {g g' : Graph} {drvPath : StorePath} {build : Option BuildRef}
    {parent : Option StepRef} {s : StepRef} {isNew : Bool}
    (h : Graph.Created g drvPath build parent g' s isNew) :
    (g'.step s).alive = true ∧ ∀ t ∈ parent, t ∈ (g'.step s).rdeps := by
  rw [h.step, if_pos rfl]
  refine ⟨?_, fun t ht => ?_⟩
  · cases hnew : isNew with
    | true => rfl
    | false => exact (Graph.findStep_eq_some.mp (h.found hnew)).2
  · obtain rfl := Option.mem_def.mp ht
    exact List.mem_append_right _ List.mem_cons_self

/-- Every step of the runner. -/
theorem step (h : Edges cfg r.createState) (hok : CreateOk cfg r.createState)
    (hlinked : r.shared.graph.Linked) (halloc : Allocated r.createState)
    (hw : Awaiting r.creation) {a : Action} (hs : RunnerStep cfg r a r') :
    Edges cfg r'.createState := by
  have hwakes := hs.runnerGraph.wakes
  have hgen : ∀ {x}, x ∈ r.shared.graph.allocated → x.gen < r.shared.graph.fresh :=
    fun hx => hlinked.gen _ hx
  have hsub : r.shared.graph.allocated ⊆ r'.shared.graph.allocated :=
    halloc.subset_of_runnerGraph hs.runnerGraph
  -- a step that is held stays alive
  have hheld : ∀ {x}, (r.shared.graph.step x).alive = true → r.stepHeld x = true →
      (r'.shared.graph.step x).alive = true := by
    intro x hx hxheld
    rcases hs.stepsStep.alive hx with hx' | hnot
    · exact hx'
    · rw [hxheld] at hnot
      cases hnot
  have hplaces : ∀ {k call' s}, r'.creation.steps.lookup k = some call' →
      call'.pc.step? = some s →
      (∃ call, r.creation.steps.lookup k = some call ∧ call.pc.step? = some s ∧
          call'.referringStep = call.referringStep) ∨
        (∃ drvPath rb isNew, Graph.Created r.shared.graph drvPath rb call'.referringStep
          r'.shared.graph s isNew) ∧
        ∀ t ∈ call'.referringStep, ∃ j, r.creation.making j = some t := by
    intro k call' s hk hs'
    rcases hs.create_or_quiet with ⟨ca, ans, hstep⟩ | ⟨-, hcreation⟩
    · exact hstep.place_cases hk hs'
    · rw [hcreation] at hk
      exact Or.inl ⟨call', hk, hs', rfl⟩
  refine
    { inputs := ?_, allocated := fun t d hd => ?_, drv := fun t d hd => ?_
      deps := fun t d hd hlive => ?_
      calls := fun k call' s hk hs' => ?_ }
  · show CallInputs cfg r'.creation.steps
    rcases hs.create_or_quiet with ⟨ca, ans, hstep⟩ | ⟨-, hcreation⟩
    · exact h.inputs.step hok hw hstep.poolStep
    · rw [hcreation]
      exact h.inputs
  · rcases hs.waitsStep.deps_cases hd with hold | ⟨⟨hcall, hpc, hchild, hresult, -⟩, -⟩
    · exact hsub (h.allocated t d hold)
    · exact hsub (halloc.steps _ _ t hcall (by rw [hpc]; rfl))
  · rcases hs.waitsStep.deps_cases hd with hold | ⟨@⟨k, k', call, child, drvPath, todo, calls,
      hcall, hpc, hchild, hresult, hfinished⟩, -⟩
    · exact h.drv t d hold
    · have hasked : (drvPath, k') ∈ call.pc.asked := by
        rw [hpc]
        exact List.mem_cons_self
      have hd' := (hok.steps k' child hchild).2.path d (by rw [hresult]; rfl)
      have ht' := (hok.steps k call hcall).2.path t (by rw [hpc]; rfl)
      rw [ht', hd', (h.inputs.child k call _ child hcall hasked hchild).1]
      exact h.inputs.asked k call _ hcall hasked
  · rcases hs.waitsStep.deps_cases hd with hold | ⟨@⟨k, k', call, child, drvPath, todo, calls,
      hcall, hpc, hchild, hresult, hfinished⟩, -⟩
    · have ht := h.allocated t d hold
      have halive := (hwakes t (hgen ht)).alive hlive
      obtain ⟨hdlive, hmem⟩ := h.deps t d hold halive
      exact ⟨hheld hdlive (stepHeld_of_deps ht halive hold),
        (hwakes d (hgen (hlinked.deps t hold))).rdeps t hmem hlive⟩
    · have hstep : child.pc.step? = some d := by rw [hresult]; rfl
      have hparent : child.referringStep = some t := by
        rw [(h.inputs.child k call (drvPath, k') child hcall
          (by rw [hpc]; exact List.mem_cons_self) hchild).2, hpc]
        rfl
      obtain ⟨hdlive, hmem⟩ := h.calls k' child d hchild hstep
      obtain ⟨ht, hmem⟩ := hmem t hparent
      exact ⟨hheld hdlive (stepHeld_of_call hchild hstep),
        (hwakes d (hgen (halloc.steps k' child d hchild hstep))).rdeps t
          (hmem ((hwakes t (hgen ht)).alive hlive)) hlive⟩
  · rcases hplaces hk hs' with ⟨call, hcall, hstep, hparent⟩ | ⟨hcreated, hmaking⟩
    · obtain ⟨hslive, hmem⟩ := h.calls k call s hcall hstep
      have hsgen := hgen (halloc.steps k call s hcall hstep)
      refine ⟨hheld hslive (stepHeld_of_call hcall hstep), fun t ht => ?_⟩
      obtain ⟨htalloc, hmem⟩ := hmem t (hparent ▸ ht)
      refine ⟨hsub htalloc, fun hlive => (hwakes s hsgen).rdeps t (hmem ?_) hlive⟩
      exact (hwakes t (hgen htalloc)).alive hlive
    · obtain ⟨drvPath, rb, isNew, hcreated⟩ := hcreated
      obtain ⟨hslive, hmem⟩ := of_created hcreated
      refine ⟨hslive, fun t ht => ?_⟩
      obtain ⟨j, hj⟩ := hmaking t ht
      exact ⟨hsub (mem_allocated_of_making halloc hj), fun _ => hmem t ht⟩

theorem reach {ok : Runner → Action → Prop} (h : Lts.Reach (Runner.next cfg) ok {} r) :
    Edges cfg r.createState := by
  have hany := h.mono fun _ _ _ => trivial
  refine hany.invariant_of_reach (I := fun r => Edges cfg r.createState) init ?_
  intro r a r' hreach hr _ hnext
  exact hr.step (RunnerOk.reach hreach).create (Prioritised.linked_reach hreach)
    (Allocated.reach hreach) (Awaiting.reach hreach) (runnerStep_of_next hnext)

end Edges

/-- In every run a live step depends on live steps of the inputs of its
derivation only, and it is one of the steps that each of them will
release. -/
theorem dependencies_refer_back (cfg : Config) (r : Runner)
    (h : Lts.Reach (Runner.next cfg) Lts.anyStep {} r) (t d : StepRef)
    (hlive : (r.shared.graph.step t).alive = true) (hd : d ∈ (r.shared.graph.step t).deps) :
    d.drvPath ∈ (cfg.drvOf t.drvPath).inputDrvs ∧
      (r.shared.graph.step d).alive = true ∧ t ∈ (r.shared.graph.step d).rdeps :=
  ⟨(Edges.reach h).drv t d hd, (Edges.reach h).deps t d hd hlive⟩

theorem dependencies_refer_back_chain : ∃ r : Runner,
    Chain.inputStep ∈ (r.shared.graph.step Chain.topStep).deps ∧
      Chain.input ∈ (Chain.config.drvOf Chain.top).inputDrvs ∧
      (r.shared.graph.step Chain.inputStep).alive = true ∧
      Chain.topStep ∈ (r.shared.graph.step Chain.inputStep).rdeps := by
  have hrun : (Lts.run (Runner.next Chain.config) {} Chain.inputMissing).map
      (fun r => ((r.shared.graph.step Chain.topStep).alive,
        (r.shared.graph.step Chain.topStep).deps)) = some (true, [Chain.inputStep]) := by
    decide +kernel
  obtain ⟨r, hr, hvalues⟩ := Option.map_eq_some_iff.mp hrun
  obtain ⟨hlive, hdeps⟩ := Prod.mk.inj hvalues
  have hd : Chain.inputStep ∈ (r.shared.graph.step Chain.topStep).deps := by
    rw [hdeps]
    exact List.mem_cons_self
  exact ⟨r, hd, dependencies_refer_back Chain.config r (Lts.reach_of_run hr) Chain.topStep
    Chain.inputStep hlive hd⟩

end QueueRunner
