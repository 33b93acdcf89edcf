import QueueRunner.Graph

/-!
# What the graph operations leave alone

Most operations on the step graph change a few fields of a few steps.
`Step.SameBase` collects the fields that only the creation of a step
changes, and the lemmas here show that every other operation keeps them
for all steps.  The operations that walk over many steps are handled
through `Graph.Keeps`: a relation between the old and the new record that
holds for each small change holds for the whole walk.
-/

namespace QueueRunner

/-- The fields of a step that stay as they are when steps become runnable. -/
structure Step.SameBase (r r' : Step) : Prop where
  drv : r'.drv = r.drv
  finished : r'.finished = r.finished
  previousFailure : r'.previousFailure = r.previousFailure
  created : r'.created = r.created
  tries : r'.tries = r.tries
  builds : r'.builds = r.builds
  alive : r'.alive = r.alive

namespace Step.SameBase

variable {r r' r'' : Step}

theorem refl (r : Step) : SameBase r r := ⟨rfl, rfl, rfl, rfl, rfl, rfl, rfl⟩

theorem trans (h : SameBase r r') (h' : SameBase r' r'') : SameBase r r'' :=
  ⟨h'.drv.trans h.drv, h'.finished.trans h.finished,
    h'.previousFailure.trans h.previousFailure, h'.created.trans h.created,
    h'.tries.trans h.tries, h'.builds.trans h.builds, h'.alive.trans h.alive⟩

end Step.SameBase

namespace Graph

variable (g : Graph) (s t : StepRef)

/-- One step after a change of one step. -/
theorem modifyStep_step (f : Step → Step) :
    (g.modifyStep s f).step t = if t = s then f (g.step t) else g.step t := by
  unfold modifyStep
  by_cases h : t = s
  · subst h
    simp
  · simp [h]

@[simp] theorem modifyStep_self (f : Step → Step) :
    (g.modifyStep s f).step s = f (g.step s) := by
  rw [modifyStep_step, if_pos rfl]

@[simp] theorem modifyStep_steps (f : Step → Step) :
    (g.modifyStep s f).steps = g.steps := rfl

@[simp] theorem modifyStep_builds (f : Step → Step) :
    (g.modifyStep s f).builds = g.builds := rfl

@[simp] theorem modifyStep_build (f : Step → Step) :
    (g.modifyStep s f).build = g.build := rfl

@[simp] theorem modifyStep_allocated (f : Step → Step) :
    (g.modifyStep s f).allocated = g.allocated := rfl

@[simp] theorem modifyStep_fresh (f : Step → Step) :
    (g.modifyStep s f).fresh = g.fresh := rfl

/-! ## Relations between the old and the new record -/

/-- Every step of `g'` is related to the same step of `g`. -/
def Keeps (R : Step → Step → Prop) (g g' : Graph) : Prop :=
  ∀ t, R (g.step t) (g'.step t)

namespace Keeps

variable {g s} {R : Step → Step → Prop} {g' g'' : Graph}

theorem refl (hR : ∀ r, R r r) (g : Graph) : Keeps R g g := fun t => hR (g.step t)

theorem trans (hR : ∀ r r' r'', R r r' → R r' r'' → R r r'')
    (h : Keeps R g g') (h' : Keeps R g' g'') : Keeps R g g'' :=
  fun t => hR _ _ _ (h t) (h' t)

/-- A change of one step that is allowed for its record. -/
theorem modifyStep (hR : ∀ r, R r r) {f : Step → Step}
    (hf : R (g.step s) (f (g.step s))) : Keeps R g (g.modifyStep s f) := by
  intro t
  rw [modifyStep_step]
  split_ifs with h
  · rw [h]
    exact hf
  · exact hR _

/-- A walk over a list. -/
theorem foldl {α : Type} (hR : ∀ r, R r r)
    (htrans : ∀ r r' r'', R r r' → R r' r'' → R r r'') {op : Graph → α → Graph}
    (hop : ∀ g a, Keeps R g (op g a)) (l : List α) (g : Graph) :
    Keeps R g (l.foldl op g) := by
  induction l generalizing g with
  | nil => exact refl hR g
  | cons a l ih => exact trans htrans (hop g a) (ih (op g a))

/-! A relation that allows the three changes of a release holds for all
walks that release steps. -/

section Release

variable {now : Timestamp} (hR : ∀ r, R r r)
  (htrans : ∀ r r' r'', R r r' → R r' r'' → R r r'')
  (hrunnable : ∀ r : Step, r.runnable = false →
    R r { r with runnable := true, runnableSince := now, lastSupported := now })
  (hdeps : ∀ (r : Step) (deps : List StepRef) (n : Nat),
    R r { r with deps := deps, depsLen := n })
  (hrdeps : ∀ (r : Step) (rdeps : List StepRef) (n : Nat),
    R r { r with rdeps := rdeps, rdepsLen := n })

include hR hrunnable

theorem makeRunnable (g : Graph) (s : StepRef) : Keeps R g (g.makeRunnable now s) := by
  unfold Graph.makeRunnable
  split_ifs with hs
  · exact refl hR g
  · exact modifyStep hR (hrunnable _ (Bool.eq_false_iff.mpr hs))

include htrans

theorem makeAllRunnable (l : List StepRef) (g : Graph) :
    Keeps R g (l.foldl (fun g s => g.makeRunnable now s) g) :=
  foldl hR htrans (makeRunnable hR hrunnable) l g

include hdeps

theorem releaseRdep (g : Graph) (s rdep : StepRef) :
    Keeps R g (releaseRdep s now g rdep) := by
  unfold Graph.releaseRdep
  simp only
  split_ifs
  · exact trans htrans (modifyStep hR (hdeps _ _ _)) (makeRunnable hR hrunnable _ rdep)
  · exact modifyStep hR (hdeps _ _ _)
  · exact refl hR g

include hrdeps

theorem makeRdepsRunnable (g : Graph) (s : StepRef) :
    Keeps R g (g.makeRdepsRunnable now s) := by
  unfold Graph.makeRdepsRunnable
  split_ifs
  · refine trans htrans ?_ (modifyStep hR (hrdeps _ _ _))
    exact foldl hR htrans (fun g r => releaseRdep hR htrans hrunnable hdeps g s r) _ g
  · exact refl hR g

theorem sweepSteps (order : List StepRef) (g : Graph) :
    Keeps R g (g.sweepSteps now order) := by
  refine foldl hR htrans (fun g s => ?_) order g
  unfold sweepStep
  split_ifs
  · exact makeRdepsRunnable hR htrans hrunnable hdeps hrdeps g s
  · exact refl hR g

end Release

end Keeps

/-- The graphs agree on these fields of every step. -/
def SameBase (g g' : Graph) : Prop := Keeps Step.SameBase g g'

theorem sameBase_makeRunnable (now : Timestamp) :
    SameBase g (g.makeRunnable now s) :=
  Keeps.makeRunnable Step.SameBase.refl (fun _ _ => ⟨rfl, rfl, rfl, rfl, rfl, rfl, rfl⟩) g s

theorem sameBase_makeRdepsRunnable (now : Timestamp) :
    SameBase g (g.makeRdepsRunnable now s) :=
  Keeps.makeRdepsRunnable Step.SameBase.refl (fun _ _ _ => Step.SameBase.trans)
    (fun _ _ => ⟨rfl, rfl, rfl, rfl, rfl, rfl, rfl⟩)
    (fun _ _ _ => ⟨rfl, rfl, rfl, rfl, rfl, rfl, rfl⟩)
    (fun _ _ _ => ⟨rfl, rfl, rfl, rfl, rfl, rfl, rfl⟩) g s

theorem sameBase_sweepSteps (now : Timestamp) (order : List StepRef) :
    SameBase g (g.sweepSteps now order) :=
  Keeps.sweepSteps Step.SameBase.refl (fun _ _ _ => Step.SameBase.trans)
    (fun _ _ => ⟨rfl, rfl, rfl, rfl, rfl, rfl, rfl⟩)
    (fun _ _ _ => ⟨rfl, rfl, rfl, rfl, rfl, rfl, rfl⟩)
    (fun _ _ _ => ⟨rfl, rfl, rfl, rfl, rfl, rfl, rfl⟩) order g

/-- The graphs differ in the records of the steps only. -/
structure SameMaps (g g' : Graph) : Prop where
  steps : g'.steps = g.steps
  build : g'.build = g.build
  builds : g'.builds = g.builds
  allocated : g'.allocated = g.allocated
  allocatedBuilds : g'.allocatedBuilds = g.allocatedBuilds
  fresh : g'.fresh = g.fresh

namespace SameMaps

theorem refl (g : Graph) : SameMaps g g := ⟨rfl, rfl, rfl, rfl, rfl, rfl⟩

theorem trans {g g' g'' : Graph} (h : SameMaps g g') (h' : SameMaps g' g'') :
    SameMaps g g'' :=
  ⟨h'.steps.trans h.steps, h'.build.trans h.build, h'.builds.trans h.builds,
    h'.allocated.trans h.allocated,
    h'.allocatedBuilds.trans h.allocatedBuilds, h'.fresh.trans h.fresh⟩

theorem foldl {α : Type} {op : Graph → α → Graph}
    (hop : ∀ g a, SameMaps g (op g a)) (l : List α) (g : Graph) :
    SameMaps g (l.foldl op g) := by
  induction l generalizing g with
  | nil => exact refl g
  | cons a l ih => exact (hop g a).trans (ih (op g a))

theorem modifyStep (g : Graph) (s : StepRef) (f : Step → Step) :
    SameMaps g (g.modifyStep s f) := ⟨rfl, rfl, rfl, rfl, rfl, rfl⟩

theorem makeRunnable (g : Graph) (now : Timestamp) (s : StepRef) :
    SameMaps g (g.makeRunnable now s) := by
  unfold Graph.makeRunnable
  split_ifs
  · exact refl g
  · exact modifyStep g s _

theorem releaseRdep (g : Graph) (s : StepRef) (now : Timestamp)
    (rdep : StepRef) : SameMaps g (releaseRdep s now g rdep) := by
  unfold Graph.releaseRdep
  simp only
  split_ifs
  · exact (modifyStep g rdep _).trans (makeRunnable _ now rdep)
  · exact modifyStep g rdep _
  · exact refl g

theorem makeRdepsRunnable (g : Graph) (now : Timestamp) (s : StepRef) :
    SameMaps g (g.makeRdepsRunnable now s) := by
  unfold Graph.makeRdepsRunnable
  split_ifs
  · exact (foldl (fun g r => releaseRdep g s now r) _ g).trans (modifyStep _ s _)
  · exact refl g

theorem sweepSteps (g : Graph) (now : Timestamp) (order : List StepRef) :
    SameMaps g (g.sweepSteps now order) := by
  refine foldl (fun g s => ?_) order g
  unfold sweepStep
  split_ifs
  · exact makeRdepsRunnable g now s
  · exact refl g

end SameMaps

/-! ## Operations that only finish builds and forget entries -/

/-- Nothing is created, and no step changes but for the time it was last
supported.  Builds may finish, and entries may leave the two maps. -/
structure Fades (g g' : Graph) : Prop where
  step : ∀ t, g'.step t =
    { g.step t with lastSupported := (g'.step t).lastSupported }
  steps : ∀ p t, g'.steps.lookup p = some t → g.steps.lookup p = some t
  toplevel : ∀ b, (g'.build b).toplevel = (g.build b).toplevel
  buildAlive : ∀ b, (g'.build b).alive = (g.build b).alive
  finished : ∀ b, (g.build b).finishedInDb = true →
    (g'.build b).finishedInDb = true
  builds : ∀ id b, g'.builds.lookup id = some b → g.builds.lookup id = some b
  allocated : g'.allocated = g.allocated
  allocatedBuilds : g'.allocatedBuilds = g.allocatedBuilds
  fresh : g'.fresh = g.fresh

namespace Fades

variable {g} {g' g'' : Graph}

theorem refl (g : Graph) : Fades g g :=
  ⟨fun _ => rfl, fun _ _ => id, fun _ => rfl, fun _ => rfl, fun _ => id,
    fun _ _ => id, rfl, rfl, rfl⟩

theorem trans (h : Fades g g') (h' : Fades g' g'') : Fades g g'' where
  step t := by rw [h'.step t, h.step t]
  steps p t ht := h.steps p t (h'.steps p t ht)
  toplevel b := (h'.toplevel b).trans (h.toplevel b)
  buildAlive b := (h'.buildAlive b).trans (h.buildAlive b)
  finished b hb := h'.finished b (h.finished b hb)
  builds id b hb := h.builds id b (h'.builds id b hb)
  allocated := h'.allocated.trans h.allocated
  allocatedBuilds := h'.allocatedBuilds.trans h.allocatedBuilds
  fresh := h'.fresh.trans h.fresh

theorem foldl {α : Type} {op : Graph → α → Graph} (hop : ∀ g a, Fades g (op g a))
    (l : List α) (g : Graph) : Fades g (l.foldl op g) := by
  induction l generalizing g with
  | nil => exact refl g
  | cons a l ih => exact (hop g a).trans (ih (op g a))

/-- The steps keep all fields that matter to the graph. -/
theorem sameBase (h : Fades g g') : SameBase g g' := by
  intro t
  rw [h.step t]
  exact ⟨rfl, rfl, rfl, rfl, rfl, rfl, rfl⟩

theorem removeStep (g : Graph) (p : StorePath) : Fades g (g.removeStep p) := by
  refine { refl g with steps := ?_ }
  intro p' t ht
  simp only [Graph.removeStep, Map.lookup_erase_eq] at ht
  split_ifs at ht
  exact ht

theorem finishBuilds (g : Graph) (bs : List BuildRef) :
    Fades g (g.finishBuilds bs) := by
  refine foldl (fun g b => ?_) bs g
  refine { refl g with toplevel := ?_, buildAlive := ?_, finished := ?_, builds := ?_ }
  · intro c
    by_cases h : c = b
    · subst h; simp [removeById, setFinishedInDb, modifyBuild]
    · simp [removeById, setFinishedInDb, modifyBuild, h]
  · intro c
    by_cases h : c = b
    · subst h; simp [removeById, setFinishedInDb, modifyBuild]
    · simp [removeById, setFinishedInDb, modifyBuild, h]
  · intro c hc
    by_cases h : c = b
    · subst h; simp [removeById, setFinishedInDb, modifyBuild]
    · simp [removeById, setFinishedInDb, modifyBuild, h, hc]
  · intro id c hc
    simp only [removeById, setFinishedInDb, modifyBuild, Map.lookup_erase_eq] at hc
    split_ifs at hc
    exact hc

theorem getAllIndirectBuilds (g : Graph) (s : StepRef) :
    Fades g (g.getAllIndirectBuilds s).1 := by
  unfold Graph.getAllIndirectBuilds
  simp only
  split_ifs
  · exact foldl (fun g (t : StepRef) => removeStep g t.drvPath) _ g
  · exact refl g

theorem cloneRunnable (g : Graph) : Fades g g.cloneRunnable.1 := by
  refine { refl g with steps := ?_ }
  intro p t ht
  simp only [Graph.cloneRunnable, Map.lookup_retain, Option.filter_eq_some_iff] at ht
  exact ht.1

theorem setLastSupportedNow (g : Graph) (s : StepRef) (now : Timestamp) :
    Fades g (g.setLastSupportedNow s now) := by
  refine { refl g with step := ?_ }
  intro t
  simp only [Graph.setLastSupportedNow, modifyStep_step]
  split_ifs <;> rfl

theorem retainBuilds (g : Graph) (ids : List BuildID) :
    Fades g (g.retainBuilds ids) := by
  refine { refl g with builds := ?_ }
  intro id b hb
  simp only [Graph.retainBuilds, Map.lookup_retain, Option.filter_eq_some_iff] at hb
  exact hb.1

end Fades

/-! ## `Steps::create` -/

/-- The record of a step that gets a referring build or step. -/
def referred (r : Step) (build : Option BuildRef) (step : Option StepRef) : Step :=
  { r with
    builds := r.builds ++ build.toList
    rdeps := r.rdeps ++ step.toList
    rdepsLen := match step with
      | some t => (r.rdeps ++ [t]).length
      | none => r.rdepsLen }

/-- A step after `add_referring_data`. -/
theorem addReferringData_step (build : Option BuildRef) (step : Option StepRef) :
    (g.addReferringData s build step).step t =
      if t = s then referred (g.step s) build step else g.step t := by
  unfold addReferringData
  cases build <;> cases step <;>
    simp only [modifyStep_step, referred, Option.toList, List.append_nil] <;>
    split_ifs with h <;> first | rfl | (subst h; rfl)

/-- The fields that `add_referring_data` leaves alone. -/
theorem addReferringData_frame (build : Option BuildRef) (step : Option StepRef) :
    (g.addReferringData s build step).steps = g.steps ∧
      (g.addReferringData s build step).build = g.build ∧
      (g.addReferringData s build step).builds = g.builds ∧
      (g.addReferringData s build step).allocated = g.allocated ∧
      (g.addReferringData s build step).allocatedBuilds = g.allocatedBuilds ∧
      (g.addReferringData s build step).fresh = g.fresh := by
  unfold addReferringData
  cases build <;> cases step <;> exact ⟨rfl, rfl, rfl, rfl, rfl, rfl⟩

/-- What `Steps::create` does: `s` is the step that is returned. -/
structure Created (g : Graph) (drvPath : StorePath) (build : Option BuildRef)
    (step : Option StepRef) (g' : Graph) (s : StepRef) (isNew : Bool) : Prop where
  found : isNew = false → g.findStep drvPath = some s
  notFound : isNew = true → g.findStep drvPath = none ∧ s = ⟨drvPath, g.fresh⟩
  step : ∀ t, g'.step t = if t = s then
      referred (if isNew then {} else g.step s) build step
    else g.step t
  steps : g'.steps = g.steps.insert drvPath s
  build : g'.build = g.build
  builds : g'.builds = g.builds
  allocated : g'.allocated = if isNew then s :: g.allocated else g.allocated
  allocatedBuilds : g'.allocatedBuilds = g.allocatedBuilds
  fresh : g'.fresh = if isNew then g.fresh + 1 else g.fresh

theorem created_createStep (drvPath : StorePath) (build : Option BuildRef)
    (step : Option StepRef) :
    Created g drvPath build step (g.createStep drvPath build step).1
      (g.createStep drvPath build step).2.1
      (g.createStep drvPath build step).2.2 := by
  unfold createStep
  cases hfind : g.findStep drvPath with
  | some s =>
    obtain ⟨h₁, h₂, h₃, h₄, h₅, h₆⟩ := addReferringData_frame g s build step
    exact
      { found := fun _ => hfind, notFound := by simp
        step := fun t => addReferringData_step g s t build step
        steps := by simp [h₁], build := h₂, builds := h₃, allocated := h₄
        allocatedBuilds := h₅, fresh := h₆ }
  | none =>
    simp only [newStep]
    obtain ⟨h₁, h₂, h₃, h₄, h₅, h₆⟩ := addReferringData_frame
      { g with
        step := Function.update g.step ⟨drvPath, g.fresh⟩ {}
        allocated := ⟨drvPath, g.fresh⟩ :: g.allocated
        fresh := g.fresh + 1 } ⟨drvPath, g.fresh⟩ build step
    refine
      { found := by simp, notFound := fun _ => ⟨hfind, rfl⟩
        step := fun t => ?_
        steps := by simp [h₁], build := h₂, builds := h₃, allocated := h₄
        allocatedBuilds := h₅, fresh := h₆ }
    simp only [addReferringData_step, if_true, Function.update_self]
    split_ifs with h
    · rfl
    · exact Function.update_of_ne h _ _

/-- The step that `Steps::create` finds is in the map and alive. -/
theorem findStep_eq_some {g : Graph} {drvPath : StorePath} {s : StepRef} :
    g.findStep drvPath = some s ↔
      g.steps.lookup drvPath = some s ∧ (g.step s).alive = true := by
  unfold findStep
  cases g.steps.lookup drvPath with
  | none => simp
  | some t =>
    simp only [Option.some.injEq]
    split_ifs with h
    · simp only [Option.some.injEq]
      exact ⟨fun he => ⟨he, he ▸ h⟩, fun he => he.1⟩
    · simp only [false_iff, not_and]
      rintro rfl
      exact h

end Graph

end QueueRunner
