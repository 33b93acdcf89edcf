import Mathlib.Logic.Relation
import QueueRunner.GraphFacts

/-!
# The walk of `get_dependents`

`get_dependents` collects the steps that refer to a step, and the unfinished
builds that are attached to one of them.  `Refers` says without the walk
which steps these are.

Both sets compare by derivation path.  Of two steps with one path only the
first is visited, so the walk is complete only for a graph in which the steps
that refer to the step have different paths, `CollapseFree`.  Of two builds
with one path only the first is collected, so what the walk decides for
certain is whether there is a build at all.
-/

namespace QueueRunner

namespace Graph

/-- A live step that waits for `t`. -/
def Rdep (g : Graph) (t u : StepRef) : Prop :=
  u ∈ (g.step t).rdeps ∧ (g.step u).alive = true

/-- The steps that refer to `s`, directly or not. -/
def Refers (g : Graph) (s t : StepRef) : Prop := Relation.ReflTransGen g.Rdep s t

/-- A build that can still be upgraded and is not finished. -/
def Pending (g : Graph) (b : BuildRef) : Prop :=
  (g.build b).alive = true ∧ (g.build b).finishedInDb = false

/-- The unfinished builds that depend on `s`. -/
def DependsOn (g : Graph) (s : StepRef) (b : BuildRef) : Prop :=
  g.Pending b ∧ ∃ t, g.Refers s t ∧ b ∈ (g.step t).builds

/-- The steps that refer to `s` have different derivation paths. -/
def CollapseFree (g : Graph) (s : StepRef) : Prop :=
  ∀ t u, g.Refers s t → g.Refers s u → t.drvPath = u.drvPath → t = u

/-- With fewer pointers, fewer builds depend on a step. -/
theorem DependsOn.mono {g g' : Graph} {s : StepRef} {b : BuildRef} (h : g'.DependsOn s b)
    (hrdep : ∀ t u, g'.Rdep t u → g.Rdep t u)
    (hbuilds : ∀ t, (g'.step t).builds ⊆ (g.step t).builds)
    (hpending : g'.Pending b → g.Pending b) : g.DependsOn s b := by
  obtain ⟨hb, t, ht, hmem⟩ := h
  exact ⟨hpending hb, t, Relation.ReflTransGen.mono hrdep s t ht, hbuilds t hmem⟩

/-! ## The builds that are collected -/

/-- Sets that `get_dependents` may hold: the builds are unfinished and attached
to one of the steps, and no two of them have one path. -/
structure Collected (g : Graph) (d : Dependents) : Prop where
  pending : ∀ b ∈ d.builds, g.Pending b
  attached : ∀ b ∈ d.builds, ∃ t ∈ d.steps, b ∈ (g.step t).builds
  paths : (d.builds.map BuildRef.drvPath).Nodup

namespace Collected

variable {g : Graph} {d : Dependents}

theorem nil (g : Graph) : g.Collected {} where
  pending := by simp
  attached := by simp
  paths := List.nodup_nil

theorem nodup (h : g.Collected d) : d.builds.Nodup := h.paths.of_map _

theorem visit (h : g.Collected d) (s : StepRef) :
    g.Collected { d with steps := d.steps ++ [s] } where
  pending := h.pending
  attached b hb := by
    obtain ⟨t, ht, hb⟩ := h.attached b hb
    exact ⟨t, List.mem_append_left _ ht, hb⟩
  paths := h.paths

theorem insertDependent {bs : List BuildRef} {steps : List StepRef} (h : g.Collected ⟨bs, steps⟩)
    {t : StepRef} {b : BuildRef} (ht : t ∈ steps) (hb : b ∈ (g.step t).builds) :
    g.Collected ⟨g.insertDependent bs b, steps⟩ := by
  unfold Graph.insertDependent
  split_ifs with hnew
  case neg => exact h
  obtain ⟨halive, hfinished, hpath⟩ := hnew
  refine ⟨fun c hc => ?_, fun c hc => ?_, ?_⟩
  · rcases List.mem_append.mp hc with hc | hc
    · exact h.pending c hc
    · obtain rfl := List.mem_singleton.mp hc
      exact ⟨halive, hfinished⟩
  · rcases List.mem_append.mp hc with hc | hc
    · exact h.attached c hc
    · obtain rfl := List.mem_singleton.mp hc
      exact ⟨t, ht, hb⟩
  · refine Map.nodup_map_concat h.paths (fun c hc he => ?_)
    exact absurd (List.any_eq_false.mp hpath c hc) (by simp [he])

theorem getDependentsFrom (fuel : Nat) (s : StepRef) (h : g.Collected d) :
    g.Collected (g.getDependentsFrom fuel d s) := by
  induction fuel generalizing d s with
  | zero => exact h
  | succ fuel ih =>
    simp only [Graph.getDependentsFrom]
    split_ifs
    · exact h
    · have hbuilds : g.Collected
          ⟨(g.step s).builds.foldl g.insertDependent d.builds, d.steps ++ [s]⟩ :=
        List.foldlRecOn (motive := fun bs => g.Collected ⟨bs, d.steps ++ [s]⟩) _ _ (h.visit s)
          (fun bs hbs b hb => hbs.insertDependent (by simp) hb)
      refine List.foldlRecOn (motive := fun d : Dependents => g.Collected d) _ _ hbuilds
        (fun d hd u hu => ?_)
      split_ifs
      · exact ih u hd
      · exact hd

end Collected

theorem collected_getDependents (g : Graph) (s : StepRef) : g.Collected (g.getDependents s) :=
  (Collected.nil g).getDependentsFrom _ s

/-! ## The steps that are visited -/

/-- A step with the path `p` was visited. -/
def Visited (d : Dependents) (p : StorePath) : Prop := ∃ t ∈ d.steps, t.drvPath = p

/-- What a walk from `s` adds to the sets `d`: it only visits steps that refer
to `s`, and the neighbours and builds of each of them are there when it
returns. -/
structure Walked (g : Graph) (s : StepRef) (d d' : Dependents) : Prop where
  steps : d.steps ⊆ d'.steps
  builds : d.builds ⊆ d'.builds
  refers : ∀ t ∈ d'.steps, t ∈ d.steps ∨ g.Refers s t
  rdeps : ∀ t ∈ d'.steps, t ∈ d.steps ∨ ∀ u, g.Rdep t u → Visited d' u.drvPath
  pending : ∀ t ∈ d'.steps, t ∈ d.steps ∨
    ∀ b ∈ (g.step t).builds, g.Pending b → ∃ c ∈ d'.builds, c.drvPath = b.drvPath

namespace Walked

variable {g : Graph} {s : StepRef} {d d' d'' : Dependents}

theorem refl (g : Graph) (s : StepRef) (d : Dependents) : g.Walked s d d where
  steps := List.Subset.refl _
  builds := List.Subset.refl _
  refers _ ht := .inl ht
  rdeps _ ht := .inl ht
  pending _ ht := .inl ht

theorem visited (h : g.Walked s d d') {p : StorePath} (hp : Visited d p) : Visited d' p := by
  obtain ⟨t, ht, hpath⟩ := hp
  exact ⟨t, h.steps ht, hpath⟩

theorem trans (h : g.Walked s d d') (h' : g.Walked s d' d'') : g.Walked s d d'' where
  steps := List.Subset.trans h.steps h'.steps
  builds := List.Subset.trans h.builds h'.builds
  refers t ht := by
    rcases h'.refers t ht with ht | ht
    · exact h.refers t ht
    · exact .inr ht
  rdeps t ht := by
    rcases h'.rdeps t ht with ht | ht
    · rcases h.rdeps t ht with ht | ht
      · exact .inl ht
      · exact .inr (fun u hu => h'.visited (ht u hu))
    · exact .inr ht
  pending t ht := by
    rcases h'.pending t ht with ht | ht
    · rcases h.pending t ht with ht | ht
      · exact .inl ht
      · refine .inr (fun b hb hpending => ?_)
        obtain ⟨c, hc, hpath⟩ := ht b hb hpending
        exact ⟨c, h'.builds hc, hpath⟩
    · exact .inr ht

theorem of_rdep {u : StepRef} (hu : g.Rdep s u) (h : g.Walked u d d') : g.Walked s d d' where
  steps := h.steps
  builds := h.builds
  refers t ht := (h.refers t ht).imp_right (fun hr => hr.head hu)
  rdeps := h.rdeps
  pending := h.pending

end Walked

/-- The builds of a step are in the set after it was visited, or a build with
the same path is. -/
theorem insertDependent_covers (g : Graph) (l acc : List BuildRef) :
    acc ⊆ l.foldl g.insertDependent acc ∧ ∀ b ∈ l, g.Pending b →
      ∃ c ∈ l.foldl g.insertDependent acc, c.drvPath = b.drvPath := by
  induction l generalizing acc with
  | nil => exact ⟨List.Subset.refl _, by simp⟩
  | cons b l ih =>
    obtain ⟨hsub, hcovers⟩ := ih (g.insertDependent acc b)
    have hacc : acc ⊆ g.insertDependent acc b := by
      unfold insertDependent
      split_ifs
      · exact List.subset_append_left _ _
      · exact List.Subset.refl _
    refine ⟨List.Subset.trans hacc hsub, fun c hc hpending => ?_⟩
    rcases List.mem_cons.mp hc with rfl | hc
    case inr => exact hcovers c hc hpending
    have hc : ∃ e ∈ g.insertDependent acc c, e.drvPath = c.drvPath := by
      unfold insertDependent
      by_cases hany : acc.any (fun e => e.drvPath == c.drvPath) = true
      · rw [if_neg (fun h => by simp [h.2.2] at hany)]
        obtain ⟨e, he, hpath⟩ := List.any_eq_true.mp hany
        exact ⟨e, he, by simpa using hpath⟩
      · rw [if_pos ⟨hpending.1, hpending.2, by simpa using hany⟩]
        exact ⟨c, by simp, rfl⟩
    obtain ⟨e, he, hpath⟩ := hc
    exact ⟨e, hsub he, hpath⟩

/-- The allocated steps whose path was not visited. -/
def unvisited (g : Graph) (d : Dependents) : List StepRef :=
  g.allocated.filter (fun t => !d.steps.any (fun u => u.drvPath == t.drvPath))

theorem any_iff_visited (d : Dependents) (p : StorePath) :
    d.steps.any (fun t => t.drvPath == p) = true ↔ Visited d p := by
  simp [Visited]

theorem mem_unvisited {g : Graph} {d : Dependents} {t : StepRef} :
    t ∈ g.unvisited d ↔ t ∈ g.allocated ∧ ¬Visited d t.drvPath := by
  rw [unvisited, List.mem_filter, ← any_iff_visited, Bool.not_eq_true']
  simp only [Bool.not_eq_true]

theorem unvisited_sublist {g : Graph} {d d' : Dependents} (h : d.steps ⊆ d'.steps) :
    (g.unvisited d').Sublist (g.unvisited d) := by
  refine List.monotone_filter_right _ (fun t ht => ?_)
  rw [Bool.not_eq_true', List.any_eq_false] at ht ⊢
  exact fun u hu => ht u (h hu)

/-- Visiting a step leaves fewer of them. -/
theorem length_unvisited_lt {g : Graph} {d d' : Dependents} {s : StepRef}
    (hs : s ∈ g.allocated) (hnew : ¬Visited d s.drvPath) (hold : d.steps ⊆ d'.steps)
    (hvisited : Visited d' s.drvPath) :
    (g.unvisited d').length < (g.unvisited d).length := by
  have hsub := unvisited_sublist (g := g) hold
  refine lt_of_le_of_ne hsub.length_le (fun heq => ?_)
  have hmem : s ∈ g.unvisited d := mem_unvisited.mpr ⟨hs, hnew⟩
  rw [← hsub.eq_of_length heq] at hmem
  exact (mem_unvisited.mp hmem).2 hvisited

section Walk

variable {g : Graph} (hrdeps : ∀ t u, g.Rdep t u → u ∈ g.allocated)
include hrdeps

/-- The loop over the steps `l` that wait for `s`, when a walk from each of
them is complete. -/
theorem walked_foldl {s : StepRef} {fuel : Nat}
    (ih : ∀ (d : Dependents) (u : StepRef), u ∈ g.allocated →
      (g.unvisited d).length ≤ fuel → g.Walked u d (g.getDependentsFrom fuel d u) ∧
        Visited (g.getDependentsFrom fuel d u) u.drvPath)
    (l : List StepRef) (hl : l ⊆ (g.step s).rdeps) (d : Dependents)
    (hfuel : (g.unvisited d).length ≤ fuel) :
    let d' := l.foldl (fun d u => if (g.step u).alive then g.getDependentsFrom fuel d u else d) d
    g.Walked s d d' ∧ ∀ u ∈ l, (g.step u).alive = true → Visited d' u.drvPath := by
  induction l generalizing d with
  | nil => exact ⟨.refl g s d, by simp⟩
  | cons u l ihl =>
    have hl' := List.cons_subset.mp hl
    simp only [List.foldl_cons]
    by_cases halive : (g.step u).alive = true
    case neg =>
      rw [if_neg halive]
      obtain ⟨hwalk, hvisited⟩ := ihl hl'.2 d hfuel
      refine ⟨hwalk, fun v hv hv' => ?_⟩
      rcases List.mem_cons.mp hv with rfl | hv
      · exact absurd hv' halive
      · exact hvisited v hv hv'
    rw [if_pos halive]
    have hu : g.Rdep s u := ⟨hl'.1, halive⟩
    obtain ⟨hfirst, hself⟩ := ih d u (hrdeps s u hu) hfuel
    obtain ⟨hrest, hvisited⟩ := ihl hl'.2 _
      (le_trans (unvisited_sublist hfirst.steps).length_le hfuel)
    refine ⟨(hfirst.of_rdep hu).trans hrest, fun v hv hv' => ?_⟩
    rcases List.mem_cons.mp hv with rfl | hv
    · exact hrest.visited hself
    · exact hvisited v hv hv'

/-- With as much fuel as there are steps to visit the walk is complete. -/
theorem walked_getDependentsFrom (fuel : Nat) (d : Dependents) (s : StepRef)
    (hs : s ∈ g.allocated) (hfuel : (g.unvisited d).length ≤ fuel) :
    g.Walked s d (g.getDependentsFrom fuel d s) ∧
      Visited (g.getDependentsFrom fuel d s) s.drvPath := by
  induction fuel generalizing d s with
  | zero =>
    refine ⟨.refl g s d, ?_⟩
    by_contra hnew
    have hmem : s ∈ g.unvisited d := mem_unvisited.mpr ⟨hs, hnew⟩
    have hempty := List.length_eq_zero_iff.mp (Nat.le_zero.mp hfuel)
    rw [hempty] at hmem
    cases hmem
  | succ fuel ih =>
    simp only [getDependentsFrom]
    by_cases hvisited : Visited d s.drvPath
    · rw [if_pos ((any_iff_visited d _).mpr hvisited)]
      exact ⟨.refl g s d, hvisited⟩
    rw [if_neg (fun h => hvisited ((any_iff_visited d _).mp h))]
    -- the sets when the loop over the referring steps starts
    generalize hstart : (⟨(g.step s).builds.foldl g.insertDependent d.builds,
      d.steps ++ [s]⟩ : Dependents) = start
    have hsteps : start.steps = d.steps ++ [s] := by rw [← hstart]
    have hself : Visited start s.drvPath := ⟨s, by simp [hsteps], rfl⟩
    obtain ⟨hold, hcovers⟩ := g.insertDependent_covers (g.step s).builds d.builds
    have hlt := length_unvisited_lt hs hvisited
      (by rw [hsteps]; exact List.subset_append_left _ _) hself
    obtain ⟨hwalk, hrefs⟩ := walked_foldl hrdeps ih (g.step s).rdeps (List.Subset.refl _)
      start (by omega)
    refine ⟨⟨fun t ht => hwalk.steps (by simp [hsteps, ht]),
      List.Subset.trans (by rw [← hstart]; exact hold) hwalk.builds,
      fun t ht => ?_, fun t ht => ?_, fun t ht => ?_⟩, hwalk.visited hself⟩
    · rcases hwalk.refers t ht with ht | ht
      · rw [hsteps, List.mem_append, List.mem_singleton] at ht
        refine ht.imp_right ?_
        rintro rfl
        exact .refl
      · exact .inr ht
    · rcases hwalk.rdeps t ht with ht | ht
      · rw [hsteps, List.mem_append, List.mem_singleton] at ht
        refine ht.imp_right ?_
        rintro rfl u hu
        exact hrefs u hu.1 hu.2
      · exact .inr ht
    · rcases hwalk.pending t ht with ht | ht
      · rw [hsteps, List.mem_append, List.mem_singleton] at ht
        refine ht.imp_right ?_
        rintro rfl b hb hpending
        obtain ⟨c, hc, hpath⟩ := hcovers b hb hpending
        exact ⟨c, hwalk.builds (by rw [← hstart]; exact hc), hpath⟩
      · exact .inr ht

theorem walked_getDependents {s : StepRef} (hs : s ∈ g.allocated) :
    g.Walked s {} (g.getDependents s) ∧ Visited (g.getDependents s) s.drvPath :=
  walked_getDependentsFrom hrdeps (g.allocated.length + 1) {} s hs
    (le_trans (List.length_filter_le _ _) (Nat.le_succ _))

/-- When the steps that refer to `s` have different paths, each of them is
visited. -/
theorem refers_iff_mem_getDependents {s : StepRef} (hs : s ∈ g.allocated)
    (hfree : g.CollapseFree s) (t : StepRef) :
    t ∈ (g.getDependents s).steps ↔ g.Refers s t := by
  obtain ⟨hwalk, t₀, ht₀, hpath₀⟩ := walked_getDependents hrdeps hs
  have hrefers : ∀ u ∈ (g.getDependents s).steps, g.Refers s u := fun u hu =>
    (hwalk.refers u hu).resolve_left (by simp)
  refine ⟨hrefers t, fun ht => ?_⟩
  induction ht with
  | refl => exact hfree t₀ s (hrefers t₀ ht₀) .refl hpath₀ ▸ ht₀
  | @tail u v hu huv ihu =>
    obtain ⟨w, hw, hpath⟩ := ((hwalk.rdeps u ihu).resolve_left (by simp)) v huv
    exact hfree w v (hrefers w hw) (hu.tail huv) hpath ▸ hw

/-- When nothing is collected, no build depends on the step. -/
theorem not_dependsOn_of_getDependents {s : StepRef} (hs : s ∈ g.allocated)
    (hfree : g.CollapseFree s) (hnone : (g.getDependents s).builds = []) (b : BuildRef) :
    ¬g.DependsOn s b := by
  rintro ⟨hpending, t, ht, hb⟩
  obtain ⟨hwalk, -⟩ := walked_getDependents hrdeps hs
  have hmem := (refers_iff_mem_getDependents hrdeps hs hfree t).mpr ht
  obtain ⟨c, hc, -⟩ := ((hwalk.pending t hmem).resolve_left (by simp)) b hb hpending
  rw [hnone] at hc
  cases hc

end Walk

/-! ## Graphs with the same pointers -/

/-- The graphs agree on who points to whom. -/
structure SameEdges (g g' : Graph) : Prop where
  deps : ∀ t, (g'.step t).deps = (g.step t).deps
  rdeps : ∀ t, (g'.step t).rdeps = (g.step t).rdeps
  builds : ∀ t, (g'.step t).builds = (g.step t).builds
  alive : ∀ t, (g'.step t).alive = (g.step t).alive
  allocated : g'.allocated = g.allocated

namespace SameEdges

variable {g g' g'' : Graph}

theorem refl (g : Graph) : g.SameEdges g :=
  ⟨fun _ => rfl, fun _ => rfl, fun _ => rfl, fun _ => rfl, rfl⟩

theorem trans (h : g.SameEdges g') (h' : g'.SameEdges g'') : g.SameEdges g'' where
  deps t := (h'.deps t).trans (h.deps t)
  rdeps t := (h'.rdeps t).trans (h.rdeps t)
  builds t := (h'.builds t).trans (h.builds t)
  alive t := (h'.alive t).trans (h.alive t)
  allocated := h'.allocated.trans h.allocated

theorem of_fades (h : g.Fades g') : g.SameEdges g' := by
  refine ⟨fun t => ?_, fun t => ?_, fun t => ?_, fun t => ?_, h.allocated⟩ <;> rw [h.step t]

theorem modifyStep (g : Graph) (s : StepRef) {f : Step → Step}
    (hf : ∀ r, (f r).deps = r.deps ∧ (f r).rdeps = r.rdeps ∧ (f r).builds = r.builds ∧
      (f r).alive = r.alive) : g.SameEdges (g.modifyStep s f) := by
  have hstep : ∀ t, (g.modifyStep s f).step t = if t = s then f (g.step t) else g.step t :=
    fun t => g.modifyStep_step s t f
  refine ⟨fun t => ?_, fun t => ?_, fun t => ?_, fun t => ?_, rfl⟩ <;> rw [hstep t] <;> split_ifs
  · exact (hf _).1
  · rfl
  · exact (hf _).2.1
  · rfl
  · exact (hf _).2.2.1
  · rfl
  · exact (hf _).2.2.2
  · rfl

theorem rdep (h : g.SameEdges g') {t u : StepRef} : g'.Rdep t u ↔ g.Rdep t u := by
  rw [Rdep, Rdep, h.rdeps, h.alive]

theorem refers (h : g.SameEdges g') {s t : StepRef} : g'.Refers s t ↔ g.Refers s t := by
  have hrdep : g'.Rdep = g.Rdep := by
    funext t u
    exact propext h.rdep
  rw [Refers, Refers, hrdep]

theorem dependsOn (h : g.SameEdges g') {s : StepRef} {b : BuildRef} (hb : g'.DependsOn s b)
    (hpending : g'.Pending b → g.Pending b) : g.DependsOn s b :=
  hb.mono (fun _ _ => h.rdep.mp) (fun t => by rw [h.builds t]; exact List.Subset.refl _) hpending

/-- The walk visits the same steps. -/
theorem steps_getDependents (h : g.SameEdges g') (s : StepRef) :
    (g'.getDependents s).steps = (g.getDependents s).steps := by
  have hwalk : ∀ (fuel : Nat) (d d' : Dependents) (s : StepRef), d'.steps = d.steps →
      (g'.getDependentsFrom fuel d' s).steps = (g.getDependentsFrom fuel d s).steps := by
    intro fuel
    induction fuel with
    | zero => exact fun d d' s hd => hd
    | succ fuel ih =>
      intro d d' s hd
      simp only [getDependentsFrom, hd]
      split_ifs
      · exact hd
      · rw [h.rdeps]
        have hfold : ∀ (l : List StepRef) (d d' : Dependents), d'.steps = d.steps →
            (l.foldl (fun d r => if (g'.step r).alive then g'.getDependentsFrom fuel d r else d)
              d').steps =
            (l.foldl (fun d r => if (g.step r).alive then g.getDependentsFrom fuel d r else d)
              d).steps := by
          intro l
          induction l with
          | nil => exact fun d d' hd => hd
          | cons u l ihl =>
            intro d d' hd
            refine ihl _ _ ?_
            simp only [h.alive u]
            split_ifs
            · exact ih d d' u hd
            · exact hd
        exact hfold _ _ _ rfl
  rw [getDependents, getDependents, h.allocated]
  exact hwalk _ _ _ s rfl

end SameEdges

/-- The walk reads the records of the steps and builds only. -/
theorem getDependents_congr {g g' : Graph} (hstep : g'.step = g.step) (hbuild : g'.build = g.build)
    (hallocated : g'.allocated = g.allocated) (s : StepRef) :
    g'.getDependents s = g.getDependents s := by
  have hinsert : g'.insertDependent = g.insertDependent := by
    funext acc b
    simp only [insertDependent, hbuild]
  have hwalk : ∀ fuel, g'.getDependentsFrom fuel = g.getDependentsFrom fuel := by
    intro fuel
    induction fuel with
    | zero => rfl
    | succ fuel ih =>
      funext d s
      simp only [getDependentsFrom, ih, hstep, hinsert]
  rw [getDependents, getDependents, hallocated, hwalk]

/-! ## The end of a round -/

theorem sameEdges_finishBuilds (g : Graph) (bs : List BuildRef) :
    g.SameEdges (g.finishBuilds bs) :=
  .of_fades (.finishBuilds g bs)

/-- The builds of a round are finished, and their ids leave the map. -/
structure FinishedBy (g : Graph) (bs : List BuildRef) (g' : Graph) : Prop where
  alive : ∀ b, (g'.build b).alive = (g.build b).alive
  finished : ∀ b, (g'.build b).finishedInDb = true ↔ (g.build b).finishedInDb = true ∨ b ∈ bs
  removed : ∀ b ∈ bs, g'.builds.lookup b.id = none
  builds : ∀ id, g.builds.lookup id = none → g'.builds.lookup id = none
  allocatedBuilds : g'.allocatedBuilds = g.allocatedBuilds

theorem finishedBy_finishBuilds (g : Graph) (bs : List BuildRef) :
    g.FinishedBy bs (g.finishBuilds bs) := by
  induction bs generalizing g with
  | nil => exact ⟨fun _ => rfl, by simp [finishBuilds], by simp, fun _ h => h, rfl⟩
  | cons b bs ih =>
    have h := ih ((g.setFinishedInDb b).removeById b.id)
    have hrecord : ∀ c, ((g.setFinishedInDb b).removeById b.id).build c =
        if c = b then { g.build b with finishedInDb := true } else g.build c := by
      intro c
      by_cases hc : c = b <;> simp [removeById, setFinishedInDb, modifyBuild, hc]
    have hlookup : ∀ id, ((g.setFinishedInDb b).removeById b.id).builds.lookup id =
        if id = b.id then none else g.builds.lookup id := fun id => by
      simp only [removeById, setFinishedInDb, modifyBuild, Map.lookup_erase_eq]
    refine ⟨fun c => ?_, fun c => ?_, fun c hc => ?_, fun id hid => ?_, h.allocatedBuilds⟩
    · refine (h.alive c).trans ?_
      rw [hrecord]
      split_ifs with hcb
      · rw [hcb]
      · rfl
    · refine (h.finished c).trans ?_
      rw [hrecord, List.mem_cons]
      split_ifs with hcb
      · simp [hcb]
      · simp [hcb]
    · rcases List.mem_cons.mp hc with rfl | hc
      · exact h.builds c.id (by rw [hlookup, if_pos rfl])
      · exact h.removed c hc
    · refine h.builds id ?_
      rw [hlookup, hid, ite_self]

/-- `get_all_indirect_builds` only takes steps from their map. -/
theorem getAllIndirectBuilds_spec (g : Graph) (s : StepRef) :
    (g.getAllIndirectBuilds s).2 = (g.getDependents s).builds ∧
      (g.getAllIndirectBuilds s).1.build = g.build ∧
      (g.getAllIndirectBuilds s).1.builds = g.builds ∧
      (g.getAllIndirectBuilds s).1.step = g.step := by
  have hremove : ∀ l : List StepRef,
      let g' := l.foldl (fun g t => g.removeStep t.drvPath) g
      g'.build = g.build ∧ g'.builds = g.builds ∧ g'.step = g.step := fun l =>
    List.foldlRecOn (motive := fun g' : Graph => g'.build = g.build ∧ g'.builds = g.builds ∧
      g'.step = g.step) l _ ⟨rfl, rfl, rfl⟩ (fun _ hg _ _ => hg)
  unfold getAllIndirectBuilds
  simp only
  split_ifs with hnone
  · exact ⟨hnone.symm, hremove _⟩
  · exact ⟨rfl, rfl, rfl, rfl⟩

end Graph

end QueueRunner
