import QueueRunner.Allocation
import QueueRunner.Lib.Worklist
import QueueRunner.Making

/-!
# The priorities of the steps

A step is queued by the highest priorities, the lowest id and the jobsets
of the builds that depend on it.  `Build::propagate_priorities` walks from
the top-level step of a build through `deps` and raises every step that it
meets.  The walk happens when `create_build` attaches the build, and when
`Builds::update_priorities` raises its global priority; a dependency that
is added later starts no walk.

`Prioritised` is the runner together with these fields.
`prioritiesReach_runs` says that the steps of a build have its priorities
in every run in which a build is attached only when no call of
`create_step` still works on a step below it.
-/

namespace QueueRunner

/-- `state::Jobset`, the fields that its equality compares. -/
structure Jobset where
  id : Int := 0
  projectName : String := ""
  name : String := ""
deriving DecidableEq

/-- The fields of a step that order the queues.  The initial build id is
`i32::MAX`. -/
structure StepPriorities where
  highestGlobalPriority : Int := 0
  highestLocalPriority : Int := 0
  lowestBuildId : BuildID := 2 ^ 31 - 1
  jobsets : List Jobset := []

/-- The fields of a build that its steps get. -/
structure BuildPriorities where
  globalPriority : Int := 0
  localPriority : Int := 0
  jobset : Jobset := {}

/-- The body of the loop of `propagate_priorities`, for a build `id`. -/
def StepPriorities.raise (id : BuildID) (b : BuildPriorities) (p : StepPriorities) :
    StepPriorities where
  highestGlobalPriority := max p.highestGlobalPriority b.globalPriority
  highestLocalPriority := max p.highestLocalPriority b.localPriority
  lowestBuildId := min p.lowestBuildId id
  jobsets := p.jobsets.insert b.jobset

namespace Graph

/-- The dependencies of a step. -/
def deps (g : Graph) (s : StepRef) : List StepRef := (g.step s).deps

/-- The steps that `propagate_priorities` takes from its queue.  The set
`queued` compares steps by their path. -/
def priorityWalk (g : Graph) (toplevel : StepRef) : List StepRef :=
  Worklist.visits StepRef.drvPath g.deps (g.allocated.length + 1) [] [toplevel]

/-- The steps that a step depends on, and the step itself. -/
def reachable (g : Graph) (s : StepRef) : List StepRef :=
  Worklist.visits id g.deps (g.allocated.length + 1) [] [s]

end Graph

/-- The build and the step of a call of `create_build` that is about to
attach the one to the other. -/
def Creation.attaching (c : Creation) (k : CallId) : Option (BuildRef × StepRef) :=
  match c.builds.lookup k with
  | some ⟨_, build, _, .nested (some step) [] []⟩ => some (build, step)
  | _ => none

/-- The runner with the fields that order the queues. -/
structure Prioritised where
  runner : Runner := {}
  step : StepRef → StepPriorities := fun _ => {}
  build : BuildRef → BuildPriorities := fun _ => {}

/-- An action of the runner, with the columns that a pass reads for its
builds and the priorities that `process_queue_change` reads. -/
structure PriorityAction where
  action : Action
  rows : BuildID → BuildPriorities := fun _ => {}
  priorities : BuildID → Int := fun _ => 0

namespace Prioritised

/-- `Build::propagate_priorities`. -/
def propagatePriorities (w : Prioritised) (b : BuildRef) : Prioritised :=
  match (w.runner.shared.graph.build b).toplevel with
  | none => w
  | some toplevel => { w with
      step := (w.runner.shared.graph.priorityWalk toplevel).foldl (fun p s =>
        Function.update p s ((p s).raise b.id (w.build b))) w.step }

/-- One turn of the loop of `Builds::update_priorities`. -/
def updatePriority (priorities : BuildID → Int) (w : Prioritised)
    (entry : Sigma fun _ : BuildID => BuildRef) : Prioritised :=
  if (w.build entry.2).globalPriority < priorities entry.1 then
    let b := { w.build entry.2 with globalPriority := priorities entry.1 }
    { w with build := Function.update w.build entry.2 b }.propagatePriorities entry.2
  else w

/-- What an action does to the priorities, after the runner went on to
`r`.  Each build that a pass loads is a new object. -/
def advance (w : Prioritised) (a : PriorityAction) (r : Runner) : Prioritised :=
  match a.action with
  | .create (.startPass _) _ => { w with
      runner := r
      build := fun b => if w.runner.shared.graph.fresh ≤ b.gen then a.rows b.id
        else w.build b }
  | .create (.resumeBuild k) _ =>
    match w.runner.creation.attaching k with
    | some (b, _) => { w with runner := r }.propagatePriorities b
    | none => { w with runner := r }
  | .queueChange _ =>
    r.shared.graph.builds.entries.foldl (updatePriority a.priorities) { w with runner := r }
  | _ => { w with runner := r }

/-- One step of the runner, with its effect on the priorities. -/
def next (cfg : Config) (w : Prioritised) (a : PriorityAction) : Option Prioritised :=
  (w.runner.next cfg a.action).map (w.advance a)

end Prioritised

/-- The step has the priorities of the build `id`. -/
structure StepPriorities.Covers (p : StepPriorities) (id : BuildID) (b : BuildPriorities) :
    Prop where
  globalPriority : b.globalPriority ≤ p.highestGlobalPriority
  localPriority : b.localPriority ≤ p.highestLocalPriority
  buildId : p.lowestBuildId ≤ id
  jobset : b.jobset ∈ p.jobsets

/-- While no `create_build` is in progress, the steps below the builds in
`Builds` have the priorities of these builds. -/
def PrioritiesReach (w : Prioritised) : Prop :=
  (∀ call ∈ w.runner.creation.builds.values, call.pc = .returned) →
    ∀ b ∈ w.runner.shared.graph.builds.values, ∀ toplevel,
      (w.runner.shared.graph.build b).toplevel = some toplevel →
      ∀ s, Worklist.Reaches w.runner.shared.graph.deps toplevel s →
        (w.step s).Covers b.id (w.build b)

/-- The steps below `toplevel` are all made, and they are told apart by
their paths. -/
def Runner.Made (r : Runner) (toplevel : StepRef) : Prop :=
  ∀ s ∈ r.shared.graph.reachable toplevel,
    (∀ call ∈ r.creation.steps.values, call.pc.making ≠ some s) ∧
    ∀ t ∈ r.shared.graph.reachable toplevel, t.drvPath = s.drvPath → t = s

instance (r : Runner) (toplevel : StepRef) : Decidable (r.Made toplevel) :=
  inferInstanceAs (Decidable (∀ s ∈ r.shared.graph.reachable toplevel,
    (∀ call ∈ r.creation.steps.values, call.pc.making ≠ some s) ∧
    ∀ t ∈ r.shared.graph.reachable toplevel, t.drvPath = s.drvPath → t = s))

/-- The step that `create_build` attaches an unfinished build to. -/
def Runner.attaches (r : Runner) : Action → Option StepRef
  | .create (.resumeBuild k) _ =>
    match r.creation.attaching k with
    | some (b, step) =>
      if (r.shared.graph.build b).finishedInDb = false ∨ b ∈ r.shared.graph.builds.values
      then some step else none
    | none => none
  | _ => none

/-- A build is attached when the steps below it are made. -/
def AttachedWhenMade (w : Prioritised) (a : PriorityAction) : Prop :=
  ∀ toplevel ∈ w.runner.attaches a.action, w.runner.Made toplevel

instance (w : Prioritised) (a : PriorityAction) : Decidable (AttachedWhenMade w a) :=
  inferInstanceAs (Decidable (∀ toplevel ∈ w.runner.attaches a.action, w.runner.Made toplevel))

/-! ## The fields of a step -/

/-- The step has the priorities of every build that it had before. -/
structure StepPriorities.Rises (p p' : StepPriorities) : Prop where
  globalPriority : p.highestGlobalPriority ≤ p'.highestGlobalPriority
  localPriority : p.highestLocalPriority ≤ p'.highestLocalPriority
  buildId : p'.lowestBuildId ≤ p.lowestBuildId
  jobsets : p.jobsets ⊆ p'.jobsets

namespace StepPriorities

variable {p p' p'' : StepPriorities} {id : BuildID} {b : BuildPriorities}

theorem Rises.refl (p : StepPriorities) : Rises p p :=
  ⟨le_refl _, le_refl _, le_refl _, List.Subset.refl _⟩

theorem Rises.trans (h : Rises p p') (h' : Rises p' p'') : Rises p p'' :=
  ⟨h.globalPriority.trans h'.globalPriority, h.localPriority.trans h'.localPriority,
    h'.buildId.trans h.buildId, List.Subset.trans h.jobsets h'.jobsets⟩

theorem rises_raise (p : StepPriorities) (id : BuildID) (b : BuildPriorities) :
    Rises p (p.raise id b) :=
  ⟨le_max_left _ _, le_max_left _ _, min_le_left _ _, fun _ => List.mem_insert_of_mem⟩

theorem covers_raise (p : StepPriorities) (id : BuildID) (b : BuildPriorities) :
    (p.raise id b).Covers id b :=
  ⟨le_max_right _ _, le_max_right _ _, min_le_right _ _, List.mem_insert_self⟩

theorem Covers.mono (h : p.Covers id b) (hp : Rises p p') : p'.Covers id b :=
  ⟨h.globalPriority.trans hp.globalPriority, h.localPriority.trans hp.localPriority,
    hp.buildId.trans h.buildId, hp.jobsets h.jobset⟩

/-- A walk raises the steps that it visits and lowers none. -/
theorem foldl_raise (id : BuildID) (b : BuildPriorities) (l : List StepRef)
    (heap : StepRef → StepPriorities) (s : StepRef) :
    Rises (heap s) (l.foldl (fun p s => Function.update p s ((p s).raise id b)) heap s) ∧
      (s ∈ l → (l.foldl (fun p s => Function.update p s ((p s).raise id b)) heap s).Covers
        id b) := by
  induction l generalizing heap with
  | nil => exact ⟨.refl _, by simp⟩
  | cons t l ih =>
    obtain ⟨hrises, hcovers⟩ := ih (Function.update heap t ((heap t).raise id b))
    rw [List.foldl_cons]
    by_cases hs : s = t
    · subst hs
      rw [Function.update_self] at hrises
      exact ⟨(rises_raise _ id b).trans hrises, fun _ => (covers_raise _ id b).mono hrises⟩
    · rw [Function.update_of_ne hs] at hrises
      exact ⟨hrises, fun hmem => hcovers ((List.mem_cons.mp hmem).resolve_left hs)⟩

end StepPriorities

/-! ## The graph of the dependencies -/

/-- The dependencies of a step were allocated, and their paths differ. -/
structure Graph.Linked (g : Graph) : Prop where
  gen : ∀ s ∈ g.allocated, s.gen < g.fresh
  deps : ∀ s, g.deps s ⊆ g.allocated
  paths : ∀ s, ((g.deps s).map StepRef.drvPath).Nodup

namespace Graph

variable {g g' : Graph}

theorem Linked.init : ({} : Graph).Linked := by
  constructor <;> simp [Graph.deps]

/-- Dependencies go away. -/
theorem Linked.of_sublist (h : g.Linked) (hdeps : ∀ s, (g'.deps s).Sublist (g.deps s))
    (hallocated : g.allocated ⊆ g'.allocated)
    (hgen : ∀ s ∈ g'.allocated, s.gen < g'.fresh) : g'.Linked where
  gen := hgen
  deps s := List.Subset.trans (List.Subset.trans (hdeps s).subset (h.deps s)) hallocated
  paths s := (h.paths s).sublist ((hdeps s).map _)

theorem insertStep_paths {l : List StepRef} (h : (l.map StepRef.drvPath).Nodup) (s : StepRef) :
    ((insertStep l s).map StepRef.drvPath).Nodup := by
  unfold insertStep
  split_ifs with hs
  · exact h
  · simp only [List.any_eq_true, beq_iff_eq, not_exists, not_and] at hs
    exact Map.nodup_map_concat h hs

theorem insertStep_subset {l m : List StepRef} (h : l ⊆ m) {s : StepRef} (hs : s ∈ m) :
    insertStep l s ⊆ m := by
  unfold insertStep
  split_ifs
  · exact h
  · exact List.append_subset.mpr ⟨h, by simpa using hs⟩

theorem deps_addDep (g : Graph) (s dep t : StepRef) :
    (g.addDep s dep).deps t = if t = s then insertStep (g.deps s) dep else g.deps t := by
  unfold Graph.deps addDep
  rw [modifyStep_step]
  split_ifs <;> rfl

theorem Linked.addDep (h : g.Linked) (s : StepRef) {dep : StepRef} (hdep : dep ∈ g.allocated) :
    (g.addDep s dep).Linked where
  gen := h.gen
  deps t := by
    rw [deps_addDep]
    split_ifs
    · exact insertStep_subset (h.deps s) hdep
    · exact h.deps t
  paths t := by
    rw [deps_addDep]
    split_ifs
    · exact insertStep_paths (h.paths s) dep
    · exact h.paths t

/-- What can be reached was allocated. -/
theorem Linked.mem_allocated (h : g.Linked) {s t : StepRef} (ht : Worklist.Reaches g.deps s t) :
    t = s ∨ t ∈ g.allocated := by
  cases ht with
  | refl => exact Or.inl rfl
  | tail _ hstep => exact Or.inr (h.deps _ hstep)

/-- `reachable` is what can be reached. -/
theorem Linked.mem_reachable (h : g.Linked) {s t : StepRef} (ht : Worklist.Reaches g.deps s t) :
    t ∈ g.reachable s := by
  refine Worklist.mem_visits (U := g.allocated.toFinset) (fun _ _ _ _ => id) (fun x _ => ?_)
    (fun x _ y hy => List.mem_toFinset.mpr (h.deps x hy))
    (Nat.succ_le_succ g.allocated.toFinset_card_le) ht
  simpa using (h.paths x).of_map

/-- `propagate_priorities` meets what can be reached, when the paths
differ. -/
theorem Linked.mem_priorityWalk (h : g.Linked) {s t : StepRef}
    (hpath : ∀ x y, Worklist.Reaches g.deps s x → Worklist.Reaches g.deps s y →
      x.drvPath = y.drvPath → x = y)
    (ht : Worklist.Reaches g.deps s t) : t ∈ g.priorityWalk s := by
  have hcard : (g.allocated.map StepRef.drvPath).toFinset.card ≤ g.allocated.length := by
    rw [← List.length_map StepRef.drvPath]
    exact List.toFinset_card_le _
  exact Worklist.mem_visits (U := (g.allocated.map StepRef.drvPath).toFinset) hpath
    (fun x _ => h.paths x)
    (fun x _ y hy => List.mem_toFinset.mpr (List.mem_map_of_mem (h.deps x hy)))
    (Nat.succ_le_succ hcard) ht

/-- With fewer dependencies less can be reached. -/
theorem reaches_of_subset {s t : StepRef}
    (hdeps : ∀ x, Worklist.Reaches g.deps s x → g'.deps x ⊆ g.deps x)
    (ht : Worklist.Reaches g'.deps s t) : Worklist.Reaches g.deps s t := by
  induction ht with
  | refl => exact .refl
  | tail _ hstep ih => exact ih.tail (hdeps _ ih hstep)

end Graph

/-! ## The steps of the runner -/

/-- What a step of the runner does to the dependencies. -/
inductive DepsStep (r r' : Runner) : Prop where
  | shrink (hdeps : ∀ s, (r'.shared.graph.deps s).Sublist (r.shared.graph.deps s))
      (hallocated : r'.shared.graph.allocated = r.shared.graph.allocated)
      (hfresh : r.shared.graph.fresh ≤ r'.shared.graph.fresh)
      (hmaking : r.creation.KeepsMaking r'.creation)
  /-- `Steps::create` makes a step. -/
  | create {s : StepRef} (hs : s.gen = r.shared.graph.fresh)
      (hdeps : ∀ s, (r'.shared.graph.deps s).Sublist (r.shared.graph.deps s))
      (hallocated : r'.shared.graph.allocated = s :: r.shared.graph.allocated)
      (hfresh : r'.shared.graph.fresh = r.shared.graph.fresh + 1)
      (hmaking : ∀ k t, r'.creation.making k = some t → r.creation.making k = some t ∨ t = s)
  /-- A step under construction gets a dependency. -/
  | addDep {k : CallId} {s dep : StepRef} (hk : r.creation.making k = some s)
      (hdep : dep ∈ r.shared.graph.allocated)
      (hg : r'.shared.graph = r.shared.graph.addDep s dep)
      (hmaking : r.creation.KeepsMaking r'.creation)

namespace DepsStep

variable {r r' : Runner}

/-- A step is marked. -/
theorem of_modifyStep {s : StepRef} {f : Step → Step}
    (hg : r'.shared.graph = r.shared.graph.modifyStep s f) (hf : ∀ x, (f x).deps = x.deps)
    (hmaking : r.creation.KeepsMaking r'.creation) : DepsStep r r' := by
  refine .shrink (fun t => ?_) (by rw [hg]; rfl) (Nat.le_of_eq (by rw [hg]; rfl)) hmaking
  rw [Graph.deps, hg, Graph.modifyStep_step]
  split_ifs with ht
  · rw [hf, ht]
    exact List.Sublist.refl _
  · exact List.Sublist.refl _

theorem of_settles (hg : r.shared.graph.Settles r'.shared.graph)
    (hmaking : r.creation.KeepsMaking r'.creation) : DepsStep r r' :=
  .shrink (fun s => (hg.step s).deps) hg.allocated hg.fresh hmaking

theorem of_create {drvPath : StorePath} {build : Option BuildRef} {parent : Option StepRef}
    {s : StepRef} {isNew : Bool}
    (hg : Graph.Created r.shared.graph drvPath build parent r'.shared.graph s isNew)
    (hmaking : ∀ k t, r'.creation.making k = some t → r.creation.making k = some t ∨
      k = r.creation.fresh ∧ t = s ∧ isNew = true) : DepsStep r r' := by
  have hdeps : ∀ t, (r'.shared.graph.deps t).Sublist (r.shared.graph.deps t) := by
    intro t
    rcases hg.stays_or_isNew t with hstays | ⟨-, -, hnew⟩
    · exact hstays.deps
    · rw [Graph.deps, hnew.deps]
      exact List.nil_sublist _
  cases hnew : isNew with
  | true =>
    obtain ⟨hgen, hfresh, -⟩ := hg.isNew hnew
    refine .create hgen hdeps (by rw [hg.allocated, if_pos hnew]) hfresh fun k t hk => ?_
    exact (hmaking k t hk).imp id fun h => h.2.1
  | false =>
    refine .shrink hdeps (by rw [hg.allocated, hnew]; rfl) (Graph.Grows.of_created hg).fresh
      fun k t hk => (hmaking k t hk).resolve_right ?_
    rw [hnew]
    simp

/-- Every step of the runner. -/
theorem of_stepsStep {a : Action} (hok : Allocated r.createState) (hmade : Making r.createState)
    (hs : StepsStep r a r') : DepsStep r r' := by
  have hkeeps : r'.creation = r.creation → r.creation.KeepsMaking r'.creation := fun h =>
    .of_steps (congrArg Creation.steps h)
  cases hs with
  | make hm =>
    cases hm with
    | settles hg hmaking hcollects => exact of_settles hg hmaking
    | release l now hl hg hmaking hcollects =>
      refine of_settles ?_ hmaking
      have hsettles := Graph.Settles.makeAllRunnable
        (fun s hs => (hmade.collects s (hl s hs)).2.1) now
      rwa [← hg] at hsettles
    | create hg hparent hmaking hcollects => exact of_create hg hmaking
    | finish hk hg hmaking hcollects =>
      exact of_modifyStep hg (fun _ => rfl) fun k t hk => (hmaking k t hk).1
    | @addDep k k' s dep child hk hchild hdep hg hmaking hcollects =>
      exact .addDep hk (hok.steps k' child dep hchild hdep) hg hmaking
    | complete hk hg hmaking hcollects =>
      exact of_modifyStep hg (fun _ => rfl) fun k t hk => (hmaking k t hk).1
  | succeed ha ht hitem hg hcreation =>
    exact of_modifyStep hg (fun _ => rfl) (hkeeps hcreation)
  | fail tries after hitem hg hcreation =>
    exact of_modifyStep hg (fun _ => rfl) (hkeeps hcreation)
  | drop hheld hg hcreation => exact of_modifyStep hg (fun _ => rfl) (hkeeps hcreation)

theorem fresh (h : DepsStep r r') : r.shared.graph.fresh ≤ r'.shared.graph.fresh := by
  cases h with
  | shrink hdeps hallocated hfresh hmaking => exact hfresh
  | create hgen hdeps hallocated hfresh hmaking =>
    rw [hfresh]
    exact Nat.le_succ _
  | addDep hk hdep hg hmaking =>
    rw [hg]
    exact le_refl _

theorem linked (h : DepsStep r r') (hl : r.shared.graph.Linked) : r'.shared.graph.Linked := by
  cases h with
  | shrink hdeps hallocated hfresh hmaking =>
    refine hl.of_sublist hdeps (hallocated ▸ List.Subset.refl _) fun s hs => ?_
    exact lt_of_lt_of_le (hl.gen s (hallocated ▸ hs)) hfresh
  | @create s hs hdeps hallocated hfresh hmaking =>
    refine hl.of_sublist hdeps (hallocated ▸ List.subset_cons_self _ _) fun t ht => ?_
    rw [hfresh]
    rw [hallocated] at ht
    rcases List.mem_cons.mp ht with rfl | ht
    · rw [hs]
      exact Nat.lt_succ_self _
    · exact Nat.lt_succ_of_lt (hl.gen t ht)
  | addDep hk hdep hg hmaking =>
    rw [hg]
    exact hl.addDep _ hdep

/-- A step that no call works on gets no dependencies. -/
theorem deps_subset (h : DepsStep r r') {s : StepRef} (hs : ∀ k, r.creation.making k ≠ some s) :
    r'.shared.graph.deps s ⊆ r.shared.graph.deps s := by
  cases h with
  | shrink hdeps hallocated hfresh hmaking => exact (hdeps s).subset
  | create hgen hdeps hallocated hfresh hmaking => exact (hdeps s).subset
  | @addDep k t dep hk hdep hg hmaking =>
    have hne : s ≠ t := by
      rintro rfl
      exact hs k hk
    rw [hg, Graph.deps_addDep, if_neg hne]
    exact List.Subset.refl _

/-- No call turns to a step that exists. -/
theorem making (h : DepsStep r r') {k : CallId} {s : StepRef} (hs : s.gen < r.shared.graph.fresh)
    (hk : r'.creation.making k = some s) : r.creation.making k = some s := by
  cases h with
  | shrink hdeps hallocated hfresh hmaking => exact hmaking k s hk
  | create hgen hdeps hallocated hfresh hmaking =>
    refine (hmaking k s hk).resolve_right ?_
    rintro rfl
    exact absurd hs (Nat.not_lt.mpr (Nat.le_of_eq hgen.symm))
  | addDep hk' hdep hg hmaking => exact hmaking k s hk

end DepsStep

/-- No call works on a step below `toplevel`, and these steps are told
apart by their paths. -/
structure Runner.Below (r : Runner) (toplevel : StepRef) : Prop where
  gen : toplevel.gen < r.shared.graph.fresh
  made : ∀ s, Worklist.Reaches r.shared.graph.deps toplevel s →
    ∀ k, r.creation.making k ≠ some s
  paths : ∀ s t, Worklist.Reaches r.shared.graph.deps toplevel s →
    Worklist.Reaches r.shared.graph.deps toplevel t → s.drvPath = t.drvPath → s = t

namespace Runner.Below

variable {r r' : Runner} {toplevel s : StepRef}

theorem of_made (hl : r.shared.graph.Linked) (hgen : toplevel.gen < r.shared.graph.fresh)
    (h : r.Made toplevel) : r.Below toplevel where
  gen := hgen
  made s hs k hk := by
    obtain ⟨call, hcall, hmaking⟩ := Creation.making_eq_some.mp hk
    exact (h s (hl.mem_reachable hs)).1 call (Map.mem_values_iff.mpr ⟨k, hcall⟩) hmaking
  paths s t hs ht hpath := (h t (hl.mem_reachable ht)).2 s (hl.mem_reachable hs) hpath

/-- What can be reached after a step could be reached before. -/
theorem reaches (h : r.Below toplevel) (hd : DepsStep r r')
    (hs : Worklist.Reaches r'.shared.graph.deps toplevel s) :
    Worklist.Reaches r.shared.graph.deps toplevel s :=
  Graph.reaches_of_subset (fun _ hx => hd.deps_subset (h.made _ hx)) hs

theorem step (h : r.Below toplevel) (hl : r.shared.graph.Linked) (hd : DepsStep r r') :
    r'.Below toplevel where
  gen := lt_of_lt_of_le h.gen hd.fresh
  made s hs k hk := by
    have hs' := h.reaches hd hs
    refine h.made s hs' k (hd.making ?_ hk)
    rcases hl.mem_allocated hs' with rfl | hmem
    · exact h.gen
    · exact hl.gen s hmem
  paths s t hs ht := h.paths s t (h.reaches hd hs) (h.reaches hd ht)

end Runner.Below

/-! ## The top-level steps -/

/-- No build gets a top-level step or is entered into `Builds`. -/
structure Graph.KeepsToplevels (g g' : Graph) : Prop where
  toplevel : ∀ b s, (g'.build b).toplevel = some s → (g.build b).toplevel = some s
  builds : ∀ id b, g'.builds.lookup id = some b → g.builds.lookup id = some b

namespace Graph.KeepsToplevels

variable {g g' : Graph}

theorem of_eq (hbuild : g'.build = g.build) (hbuilds : g'.builds = g.builds) :
    g.KeepsToplevels g' :=
  ⟨fun _ _ hs => hbuild ▸ hs, fun _ _ hb => hbuilds ▸ hb⟩

theorem refl (g : Graph) : g.KeepsToplevels g := of_eq rfl rfl

theorem trans {g'' : Graph} (h : g.KeepsToplevels g') (h' : g'.KeepsToplevels g'') :
    g.KeepsToplevels g'' :=
  ⟨fun b s hs => h.toplevel b s (h'.toplevel b s hs),
    fun id b hb => h.builds id b (h'.builds id b hb)⟩

theorem of_sameMaps (h : g.SameMaps g') : g.KeepsToplevels g' := of_eq h.build h.builds

theorem of_fades (h : g.Fades g') : g.KeepsToplevels g' :=
  ⟨fun b _ hs => h.toplevel b ▸ hs, h.builds⟩

theorem modifyBuild (g : Graph) (b : BuildRef) {f : Build → Build}
    (hf : ∀ x, (f x).toplevel = x.toplevel) : g.KeepsToplevels (g.modifyBuild b f) := by
  refine ⟨fun b' s hs => ?_, fun _ _ => id⟩
  by_cases hb : b' = b
  · subst hb
    simpa [Graph.modifyBuild, hf] using hs
  · simpa [Graph.modifyBuild, hb] using hs

theorem setFinishedInDb (g : Graph) (b : BuildRef) :
    g.KeepsToplevels (g.setFinishedInDb b) :=
  modifyBuild (f := fun x => { x with finishedInDb := true }) g b fun _ => rfl

theorem dropBuild (g : Graph) (b : BuildRef) : g.KeepsToplevels (g.dropBuild b) :=
  modifyBuild (f := fun x => { x with alive := false }) g b fun _ => rfl

theorem newBuild (g : Graph) (i : BuildID) (drvPath : StorePath) :
    g.KeepsToplevels (g.newBuild i drvPath).1 := by
  refine ⟨fun b s hs => ?_, fun _ _ => id⟩
  by_cases hb : b = ⟨i, drvPath, g.fresh⟩
  · subst hb
    simp [Graph.newBuild] at hs
  · simpa [Graph.newBuild, hb] using hs

theorem startPass (c : CreateState) (rows : List (BuildID × StorePath)) :
    c.graph.KeepsToplevels (c.startPass rows).graph := by
  have hload : ∀ acc : Graph × Pass,
      acc.1.KeepsToplevels (rows.foldl CreateState.loadBuild acc).1 := by
    induction rows with
    | nil => exact fun acc => refl _
    | cons row rows ih =>
      intro acc
      exact (newBuild acc.1 row.1 row.2).trans (ih (CreateState.loadBuild acc row))
  exact hload (c.graph, ⟨∅, ∅, [], [], [], none⟩)

end Graph.KeepsToplevels

/-- Every step of the creation that attaches no build. -/
theorem CreateGraph.keepsToplevels {c : CreateState} {a : CreateAction} {g : Graph}
    (h : CreateGraph c a g)
    (ha : ∀ k, a = .resumeBuild k → c.creation.attaching k = none) :
    c.graph.KeepsToplevels g := by
  cases h with
  | same => exact .refl _
  | startPass rows => exact .startPass c rows
  | makeRunnable now steps =>
    exact .of_sameMaps (.foldl (fun g s => .makeRunnable g now s) _ _)
  | sweep now order => exact .of_sameMaps (.sweepSteps _ now order)
  | @finishInDb k call hcall => exact .setFinishedInDb c.graph call.build
  | @attach k call step hcall hpc =>
    have hattach := ha k rfl
    obtain ⟨pass, build, newSteps, pc⟩ := call
    obtain rfl := hpc
    simp [Creation.attaching, hcall] at hattach
  | created h => exact .of_eq h.build h.builds
  | setDrv step drv => exact .of_eq rfl rfl
  | setPreviousFailure step => exact .of_eq rfl rfl
  | setFinished step => exact .of_eq rfl rfl
  | addDep step dep => exact .of_eq rfl rfl
  | setCreated step => exact .of_eq rfl rfl

theorem CallGraph.keepsToplevels {s : Shared} {t : CallTask} {g : Graph}
    (h : CallGraph s t g) : s.graph.KeepsToplevels g := by
  cases h with
  | fades hg => exact .of_fades hg
  | succeeds a report item ht hitem hg =>
    rw [hg]
    exact .of_eq rfl rfl
  | fails a state report caller item tries after ht hitem hg =>
    rw [hg]
    exact .of_eq rfl rfl
  | releases a report item now ht hg =>
    rw [hg]
    exact .of_sameMaps (.makeRdepsRunnable _ _ _)

/-- Every step of the runner that attaches no build. -/
theorem RunnerGraph.keepsToplevels {r : Runner} {a : Action} {g : Graph}
    (h : RunnerGraph r a g)
    (ha : ∀ k ans, a = .create (.resumeBuild k) ans → r.creation.attaching k = none) :
    r.shared.graph.KeepsToplevels g := by
  cases h with
  | fades h => exact .of_fades h
  | call ht h => exact h.keepsToplevels
  | @create a ans g h =>
    exact h.keepsToplevels fun k hk => ha k ans (congrArg (Action.create · ans) hk)
  | dropStep s => exact .of_eq rfl rfl
  | dropBuild b => exact .dropBuild r.shared.graph b

/-- The step that attaches a build. -/
theorem Runner.next_attaching {cfg : Config} {r r' : Runner} {k : CallId} {ans : Answer}
    {b : BuildRef} {s : StepRef} (ha : r.creation.attaching k = some (b, s))
    (h : r.next cfg (.create (.resumeBuild k) ans) = some r') :
    r'.shared.graph = (if (r.shared.graph.build b).finishedInDb then r.shared.graph
      else r.shared.graph.insertNewBuild b).setToplevelStep b s := by
  unfold Creation.attaching at ha
  split at ha
  · rename_i pass build newSteps step hcall
    cases ha
    simp only [Runner.next, CreateState.next, CreateState.resumeBuild, Runner.createState,
      hcall, CreateState.finishBuild, Option.some.injEq] at h
    rw [← h]
    rfl
  · cases ha

/-! ## The invariant -/

/-- The steps below a build in `Builds` are made. -/
def Runner.BuildsMade (r : Runner) : Prop :=
  ∀ b ∈ r.shared.graph.builds.values, ∀ s, (r.shared.graph.build b).toplevel = some s →
    r.Below s

namespace Prioritised

/-- The steps below a build in `Builds` have its priorities. -/
def Covered (w : Prioritised) : Prop :=
  ∀ b ∈ w.runner.shared.graph.builds.values, ∀ t,
    (w.runner.shared.graph.build b).toplevel = some t →
    ∀ s, Worklist.Reaches w.runner.shared.graph.deps t s → (w.step s).Covers b.id (w.build b)

variable {cfg : Config} {w w' : Prioritised}

@[simp] theorem propagatePriorities_runner (w : Prioritised) (b : BuildRef) :
    (w.propagatePriorities b).runner = w.runner := by
  unfold propagatePriorities
  split <;> rfl

@[simp] theorem propagatePriorities_build (w : Prioritised) (b : BuildRef) :
    (w.propagatePriorities b).build = w.build := by
  unfold propagatePriorities
  split <;> rfl

theorem propagatePriorities_rises (w : Prioritised) (b : BuildRef) (s : StepRef) :
    StepPriorities.Rises (w.step s) ((w.propagatePriorities b).step s) := by
  unfold propagatePriorities
  split
  · exact .refl _
  · exact (StepPriorities.foldl_raise b.id (w.build b) _ w.step s).1

/-- The walk reaches the steps below the build. -/
theorem propagatePriorities_covers (hl : w.runner.shared.graph.Linked) {b : BuildRef}
    {t s : StepRef} (ht : (w.runner.shared.graph.build b).toplevel = some t)
    (hbelow : w.runner.Below t) (hs : Worklist.Reaches w.runner.shared.graph.deps t s) :
    ((w.propagatePriorities b).step s).Covers b.id (w.build b) := by
  simp only [propagatePriorities, ht]
  exact (StepPriorities.foldl_raise b.id (w.build b) _ w.step s).2
    (hl.mem_priorityWalk hbelow.paths hs)

@[simp] theorem updatePriority_runner (priorities : BuildID → Int) (w : Prioritised)
    (entry : Sigma fun _ : BuildID => BuildRef) :
    (w.updatePriority priorities entry).runner = w.runner := by
  unfold updatePriority
  split_ifs
  · exact propagatePriorities_runner _ _
  · rfl

/-- A build hands its priorities on. -/
theorem covered_propagatePriorities (hl : w.runner.shared.graph.Linked)
    (hmade : w.runner.BuildsMade) {b₀ : BuildRef}
    (h : ∀ b ∈ w.runner.shared.graph.builds.values, b ≠ b₀ → ∀ t,
      (w.runner.shared.graph.build b).toplevel = some t →
      ∀ s, Worklist.Reaches w.runner.shared.graph.deps t s → (w.step s).Covers b.id (w.build b)) :
    (w.propagatePriorities b₀).Covered := by
  intro b hb t ht s hs
  rw [propagatePriorities_runner] at hb ht hs
  rw [propagatePriorities_build]
  by_cases hbe : b = b₀
  · subst hbe
    exact propagatePriorities_covers hl ht (hmade b hb t ht) hs
  · exact (h b hb hbe t ht s hs).mono (propagatePriorities_rises w b₀ s)

/-- A build gets a higher priority and hands it on. -/
theorem Covered.updatePriority (h : w.Covered) (hl : w.runner.shared.graph.Linked)
    (hmade : w.runner.BuildsMade) (priorities : BuildID → Int)
    (entry : Sigma fun _ : BuildID => BuildRef) :
    (w.updatePriority priorities entry).Covered := by
  unfold Prioritised.updatePriority
  split_ifs
  · refine covered_propagatePriorities ?_ ?_ fun b hb hne t ht s hs => ?_
    · exact hl
    · exact hmade
    · simp only [Function.update_of_ne hne]
      exact h b hb t ht s hs
  · exact h

theorem Covered.foldl_updatePriority (priorities : BuildID → Int)
    (entries : List (Sigma fun _ : BuildID => BuildRef)) (h : w.Covered)
    (hl : w.runner.shared.graph.Linked) (hmade : w.runner.BuildsMade) :
    (entries.foldl (Prioritised.updatePriority priorities) w).Covered ∧
      (entries.foldl (Prioritised.updatePriority priorities) w).runner = w.runner := by
  induction entries generalizing w with
  | nil => exact ⟨h, rfl⟩
  | cons entry entries ih =>
    have hrunner := updatePriority_runner priorities w entry
    obtain ⟨hcovered, hr⟩ := ih (h.updatePriority hl hmade priorities entry)
      (hrunner ▸ hl) (hrunner ▸ hmade)
    exact ⟨hcovered, hr.trans hrunner⟩

@[simp] theorem advance_runner (w : Prioritised) (a : PriorityAction) (r : Runner) :
    (w.advance a r).runner = r := by
  have hfold : ∀ (entries : List (Sigma fun _ : BuildID => BuildRef)) (w : Prioritised),
      (entries.foldl (Prioritised.updatePriority a.priorities) w).runner = w.runner := by
    intro entries
    induction entries with
    | nil => exact fun _ => rfl
    | cons entry entries ih => exact fun w => (ih _).trans (updatePriority_runner ..)
  unfold advance
  split
  · rfl
  · split
    · exact propagatePriorities_runner _ _
    · rfl
  · exact hfold _ _
  · rfl

/-- A run of the runner with its priorities is a run of the runner. -/
theorem reach_runner {ok : Prioritised → PriorityAction → Prop}
    (h : Lts.Reach (Prioritised.next cfg) ok {} w) :
    Lts.Reach (Runner.next cfg) Lts.anyStep {} w.runner := by
  induction h with
  | refl => exact .refl
  | step a _ _ hnext ih =>
    obtain ⟨r, hr, rfl⟩ := Option.map_eq_some_iff.mp hnext
    rw [advance_runner]
    exact .step a.action ih trivial hr

end Prioritised

/-- The object of a build that has a top-level step exists. -/
theorem RunnerOk.gen_lt {cfg : Config} {r : Runner} (h : RunnerOk cfg r)
    (hok : Allocated r.createState) {b : BuildRef} {s : StepRef}
    (hs : (r.shared.graph.build b).toplevel = some s) :
    b.gen < r.shared.graph.fresh ∧ s.gen < r.shared.graph.fresh := by
  have hb := h.create.graph.toplevel b s hs
  refine ⟨hok.graph.gen b (hok.graph.attached s b hb), ?_⟩
  by_contra hgen
  rw [h.create.graph.fresh s (Nat.not_lt.mp hgen)] at hb
  cases hb

namespace Prioritised

variable {cfg : Config} {w w' : Prioritised}

/-- The dependencies in every state of the runner. -/
theorem linked_reach {r : Runner} (h : Lts.Reach (Runner.next cfg) Lts.anyStep {} r) :
    r.shared.graph.Linked := by
  refine h.invariant_of_reach (I := fun r => r.shared.graph.Linked) .init ?_
  intro r a r' hreach hr _ hnext
  exact (DepsStep.of_stepsStep (Allocated.reach hreach) (Making.reach hreach)
    (runnerStep_of_next hnext).stepsStep).linked hr

end Prioritised

/-! ## The steps that keep the invariant -/

theorem Graph.KeepsToplevels.mem_builds {g g' : Graph} (h : g.KeepsToplevels g') {b : BuildRef}
    (hb : b ∈ g'.builds.values) : b ∈ g.builds.values := by
  obtain ⟨id, hid⟩ := Map.mem_values_iff.mp hb
  exact Map.mem_values_iff.mpr ⟨id, h.builds id b hid⟩

/-- A step that attaches no build. -/
theorem Runner.BuildsMade.of_keeps {r r' : Runner} (h : r.BuildsMade)
    (hl : r.shared.graph.Linked) (hd : DepsStep r r')
    (hk : r.shared.graph.KeepsToplevels r'.shared.graph) : r'.BuildsMade := fun b hb t ht =>
  (h b (hk.mem_builds hb) t (hk.toplevel b t ht)).step hl hd

/-- The builds and their top-level steps after one of them was attached. -/
theorem Graph.attached_cases {g g' : Graph} {b₀ b : BuildRef} {s t : StepRef}
    (hg : g' = (if (g.build b₀).finishedInDb then g else g.insertNewBuild b₀).setToplevelStep b₀ s)
    (hb : b ∈ g'.builds.values) (ht : (g'.build b).toplevel = some t) :
    (b ≠ b₀ ∧ b ∈ g.builds.values ∧ (g.build b).toplevel = some t) ∨
      (b = b₀ ∧ t = s ∧ ((g.build b₀).finishedInDb = false ∨ b₀ ∈ g.builds.values)) := by
  have hbuilds : b ∈ g.builds.values ∨ b = b₀ ∧ (g.build b₀).finishedInDb = false := by
    rw [hg, Graph.setToplevelStep, Graph.modifyBuild] at hb
    split_ifs at hb with hf
    · exact Or.inl hb
    · obtain ⟨id, hid⟩ := Map.mem_values_iff.mp hb
      rw [Graph.insertNewBuild, Map.lookup_insert_eq] at hid
      split_ifs at hid
      · cases hid
        exact Or.inr ⟨rfl, by simpa using hf⟩
      · exact Or.inl (Map.mem_values_iff.mpr ⟨id, hid⟩)
  by_cases hbe : b = b₀
  · subst hbe
    refine Or.inr ⟨rfl, ?_, hbuilds.symm.imp And.right id⟩
    rw [hg] at ht
    simpa [Graph.setToplevelStep, Graph.modifyBuild] using ht.symm
  · refine Or.inl ⟨hbe, hbuilds.resolve_right fun h => hbe h.1, ?_⟩
    rw [hg] at ht
    simp only [Graph.setToplevelStep, Graph.modifyBuild, Function.update_of_ne hbe] at ht
    split_ifs at ht <;> exact ht

/-- The step that attaches a build to a step with everything below made. -/
theorem Runner.BuildsMade.attach {r r' : Runner} (h : r.BuildsMade)
    (hl : r.shared.graph.Linked) (hd : DepsStep r r') {b₀ : BuildRef} {s : StepRef}
    (hg : r'.shared.graph = (if (r.shared.graph.build b₀).finishedInDb then r.shared.graph
      else r.shared.graph.insertNewBuild b₀).setToplevelStep b₀ s)
    (hs : s.gen < r.shared.graph.fresh)
    (hmade : (r.shared.graph.build b₀).finishedInDb = false ∨
      b₀ ∈ r.shared.graph.builds.values → r.Made s) : r'.BuildsMade := by
  intro b hb t ht
  rcases Graph.attached_cases hg hb ht with ⟨-, hb, ht⟩ | ⟨-, rfl, hcases⟩
  · exact (h b hb t ht).step hl hd
  · exact (Runner.Below.of_made hl hs (hmade hcases)).step hl hd

namespace Prioritised

variable {cfg : Config} {w w' : Prioritised}

/-- A step that attaches no build and raises no priority. -/
theorem Covered.of_keeps {r : Runner} {build : BuildRef → BuildPriorities} (h : w.Covered)
    (hmade : w.runner.BuildsMade) (hd : DepsStep w.runner r)
    (hk : w.runner.shared.graph.KeepsToplevels r.shared.graph)
    (hbuild : ∀ b t, (w.runner.shared.graph.build b).toplevel = some t → build b = w.build b) :
    Covered { w with runner := r, build := build } := by
  intro b hb t ht s hs
  have hb' := hk.mem_builds hb
  have ht' := hk.toplevel b t ht
  have hreaches := (hmade b hb' t ht').reaches hd hs
  simp only [hbuild b t ht']
  exact h b hb' t ht' s hreaches

/-- The step that attaches a build and hands its priorities on. -/
theorem Covered.attach {r : Runner} (h : w.Covered) (hmade : w.runner.BuildsMade)
    (hd : DepsStep w.runner r) (hl' : r.shared.graph.Linked) (hmade' : r.BuildsMade)
    {b₀ : BuildRef} {s₀ : StepRef}
    (hg : r.shared.graph = (if (w.runner.shared.graph.build b₀).finishedInDb
      then w.runner.shared.graph
      else w.runner.shared.graph.insertNewBuild b₀).setToplevelStep b₀ s₀) :
    Covered ({ w with runner := r }.propagatePriorities b₀) := by
  refine covered_propagatePriorities ?_ ?_ fun b hb hne t ht s hs => ?_
  · exact hl'
  · exact hmade'
  · rcases Graph.attached_cases hg hb ht with ⟨-, hb, ht⟩ | ⟨hbe, -⟩
    · exact h b hb t ht s ((hmade b hb t ht).reaches hd hs)
    · exact absurd hbe hne

/-- Every step that attaches a build only when the steps below it are
made. -/
theorem step_covered {r : Runner} {a : PriorityAction}
    (hreach : Lts.Reach (Runner.next cfg) Lts.anyStep {} w.runner)
    (hmade : w.runner.BuildsMade) (h : w.Covered) (hok : AttachedWhenMade w a)
    (hnext : w.runner.next cfg a.action = some r) :
    r.BuildsMade ∧ (w.advance a r).Covered := by
  have hreach' : Lts.Reach (Runner.next cfg) Lts.anyStep {} r := .step _ hreach trivial hnext
  have hstep := runnerStep_of_next hnext
  have hl := linked_reach hreach
  have hd : DepsStep w.runner r :=
    DepsStep.of_stepsStep (Allocated.reach hreach) (Making.reach hreach) hstep.stepsStep
  -- a step that attaches no build
  have hother : (∀ k ans, a.action = .create (.resumeBuild k) ans →
      w.runner.creation.attaching k = none) →
      ∀ build : BuildRef → BuildPriorities,
      (∀ b t, (w.runner.shared.graph.build b).toplevel = some t → build b = w.build b) →
      r.BuildsMade ∧ Covered { w with runner := r, build := build } := by
    intro ha build hbuild
    have hk := hstep.runnerGraph.keepsToplevels ha
    exact ⟨hmade.of_keeps hl hd hk, h.of_keeps hmade hd hk hbuild⟩
  unfold advance
  split
  next rows ans ha =>
    refine hother (by simp [ha]) _ fun b t ht => ?_
    exact if_neg (Nat.not_le.mpr ((RunnerOk.reach hreach).gen_lt (Allocated.reach hreach) ht).1)
  next k ans ha =>
    cases hattach : w.runner.creation.attaching k with
    | none =>
      refine hother (fun k' ans' ha' => ?_) _ fun _ _ _ => rfl
      rw [ha] at ha'
      cases ha'
      exact hattach
    | some bs =>
      obtain ⟨b, s⟩ := bs
      rw [ha] at hnext
      have hg := Runner.next_attaching hattach hnext
      have htop : (r.shared.graph.build b).toplevel = some s := by
        simp [hg, Graph.setToplevelStep, Graph.modifyBuild]
      have hfresh : r.shared.graph.fresh = w.runner.shared.graph.fresh := by
        rw [hg]
        split_ifs <;> rfl
      have hgen := ((RunnerOk.reach hreach').gen_lt (Allocated.reach hreach') htop).2
      have hmade' := hmade.attach hl hd hg (hfresh ▸ hgen) fun hcases => hok s (by
        simp [Runner.attaches, ha, hattach, hcases])
      exact ⟨hmade', h.attach hmade hd (linked_reach hreach') hmade' hg⟩
  next curIds ha =>
    obtain ⟨hmade', hcovered⟩ := hother (by simp [ha]) w.build fun _ _ _ => rfl
    exact ⟨hmade', (hcovered.foldl_updatePriority a.priorities _ (linked_reach hreach') hmade').1⟩
  next a' hstart hresume hqueue =>
    refine hother (fun k ans ha => ?_) _ fun _ _ _ => rfl
    exact absurd ha (hresume k ans)

end Prioritised

/-- In every run in which a build is attached only when no call of
`create_step` works on a step below it, and the steps below it have
different paths, the steps below the builds in `Builds` have their
priorities. -/
theorem prioritiesReach_runs {cfg : Config} {w : Prioritised}
    (h : Lts.Reach (Prioritised.next cfg) AttachedWhenMade {} w) : PrioritiesReach w := by
  have hinv : w.runner.BuildsMade ∧ w.Covered := by
    refine h.invariant_of_reach (I := fun w => w.runner.BuildsMade ∧ w.Covered) ?_ ?_
    · constructor <;> intro b hb <;> cases hb
    · intro w a w' hreach ⟨hmade, hcovered⟩ hok hnext
      obtain ⟨r, hr, rfl⟩ := Option.map_eq_some_iff.mp hnext
      rw [Prioritised.advance_runner]
      exact Prioritised.step_covered (Prioritised.reach_runner hreach) hmade hcovered hok hr
  exact fun _ => hinv.2

namespace Chain

/-- A build of `top` is created while no other pass runs, and the output of
the input is in no store. -/
def inputMissing : List Action :=
  toInput ++ [Action.create (.resumeStep 3) {},
    .create (.resumeStep 3) { store := fun _ => false },
    .create (.resumeStep 3) {},
    .create (.resumeStep 3) {}] ++ created

/-- Then its priority is raised to seven. -/
def prioritised : List PriorityAction :=
  inputMissing.map (fun a => { action := a }) ++
    [{ action := .queueChange [1], priorities := fun _ => 7 }]

end Chain

/-- A build with one step below its own. -/
theorem prioritiesReach_runs_chain :
    ∃ w, Lts.Reach (Prioritised.next Chain.config) AttachedWhenMade {} w ∧
      w.runner.shared.graph.deps Chain.topStep = [Chain.inputStep] ∧
      (w.step Chain.inputStep).highestGlobalPriority = 7 ∧ PrioritiesReach w := by
  have hrun : (Lts.runWith (Prioritised.next Chain.config) AttachedWhenMade {}
      Chain.prioritised).map (fun w => (w.runner.shared.graph.deps Chain.topStep,
        (w.step Chain.inputStep).highestGlobalPriority)) = some ([Chain.inputStep], 7) := by
    decide +kernel
  obtain ⟨w, hw, hvalues⟩ := Option.map_eq_some_iff.mp hrun
  obtain ⟨hdeps, hpriority⟩ := Prod.mk.inj hvalues
  have hreach := Lts.reach_of_runWith hw
  exact ⟨w, hreach, hdeps, hpriority, prioritiesReach_runs hreach⟩

/-! ## A build that is attached too early

A pass has entered the step of `top` and waits for its derivation.
Another pass loads a build of `top` with a higher priority, gets the step
as it is, and walks over a step without dependencies.  Then the first
pass adds the input, and hands on only the priority of its own build. -/

namespace Early

def input : StepRef := ⟨Chain.input, 3⟩

def slow : BuildRef := ⟨1, Chain.top, 0⟩

/-- The second build, with the priority ten. -/
def urgent : BuildRef := ⟨2, Chain.top, 2⟩

def rows : BuildID → BuildPriorities
  | 2 => { globalPriority := 10 }
  | _ => {}

/-- The second pass, while the first one waits. -/
def attached : List Action :=
  [.create (.startPass [(1, Chain.top)]) {},
    .create (.resumePass 0) {},
    .create (.resumeBuild 1) {},
    .create (.startPass [(2, Chain.top)]) {},
    .create (.resumePass 3) {},
    .create (.resumeBuild 4) {},
    .create (.resumeBuild 4) {},
    .create (.resumeBuild 4) {},
    .create (.resumePass 3) {},
    .create (.resumePass 3) { steps := [Chain.topStep] }]

/-- The first pass goes on, up to its last await. -/
def inputAdded : List Action :=
  [.create (.resumeStep 2) {},
    .create (.resumeStep 2) { store := fun _ => false },
    .create (.resumeStep 2) {},
    .create (.startInput 2) {},
    .create (.resumeStep 6) {},
    .create (.resumeStep 6) { store := fun _ => false },
    .create (.resumeStep 6) {},
    .create (.resumeStep 6) {},
    .create (.resumeStep 2) {},
    .create (.resumeStep 2) {},
    .create (.resumeBuild 1) { ids := [1] },
    .create (.startNested 1) {},
    .create (.resumeBuild 1) {},
    .create (.resumePass 0) {}]

def actions : List PriorityAction :=
  (attached ++ inputAdded).map (fun a => { action := a, rows := rows })

end Early

/-- The steps below a build in `Builds` do not get its priorities in every
run. -/
theorem prioritiesReach_fails : ¬ ∀ (cfg : Config) (w : Prioritised),
    Lts.Reach (Prioritised.next cfg) Lts.anyStep {} w → PrioritiesReach w := by
  intro hall
  have hrun : (Lts.run (Prioritised.next Chain.config) {} Early.actions).map (fun w =>
      (w.runner.creation.builds.keys, w.runner.shared.graph.builds.values,
        [(w.runner.shared.graph.build Early.urgent).toplevel,
          (w.runner.shared.graph.deps Chain.topStep).head?],
        [(w.build Early.urgent).globalPriority, (w.step Early.input).highestGlobalPriority])) =
      some ([], [Early.slow, Early.urgent], [some Chain.topStep, some Early.input], [10, 0]) := by
    decide +kernel
  obtain ⟨w, hw, hvalues⟩ := Option.map_eq_some_iff.mp hrun
  simp only [Prod.mk.injEq, List.cons.injEq] at hvalues
  obtain ⟨hcalls, hbuilds, ⟨htop, hdeps, -⟩, hurgent, hinput, -⟩ := hvalues
  have hidle : ∀ call ∈ w.runner.creation.builds.values, call.pc = .returned := by
    have hentries : w.runner.creation.builds.entries = [] := List.map_eq_nil_iff.mp hcalls
    simp [Map.values, hentries]
  have hreaches : Worklist.Reaches w.runner.shared.graph.deps Chain.topStep Early.input :=
    Relation.ReflTransGen.single (List.mem_of_mem_head? hdeps)
  have hcovers := hall Chain.config w (Lts.reach_of_run hw) hidle Early.urgent
    (by simp [hbuilds]) Chain.topStep htop Early.input hreaches
  have hpriority := hcovers.globalPriority
  rw [hurgent, hinput] at hpriority
  omega

end QueueRunner
