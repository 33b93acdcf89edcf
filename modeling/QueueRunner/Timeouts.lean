import Mathlib.Data.List.MinMax
import Mathlib.Order.Bounds.Basic
import QueueRunner.Dependents
import QueueRunner.Dispatch

/-!
# The limits of a build

`realise_drv_on_valid_machine` of `queue-runner/src/state/mod.rs` sends a
step to a machine with two limits: the largest `max_silent_time` and the
largest `timeout` of the builds that depend on the step.

The builds are those that `get_dependents` collects.  It walks the
referring steps depth first and puts the builds in a set that compares
them by derivation path, so of two builds with one path the one that is
met first stays, whatever its limits are.  `timeoutsCover_iff` says when the
limits are the largest ones nevertheless.  `DepthFirst` is the order of the
walk, without the walk.
-/

namespace QueueRunner

/-- `Build`, the two limits.  They do not change. -/
structure BuildLimits where
  maxSilentTime : Int := 3600
  timeout : Int := 36000

/-- `nix_utils::BuildOptions`, the two limits. -/
structure BuildOptions where
  maxSilentTime : Int := 0
  buildTimeout : Int := 0
deriving DecidableEq

namespace Graph

/-- The start of `realise_drv_on_valid_machine`: the limits that go into the
`BuildMessage`, nothing when no build depends on the step. -/
def buildOptions (g : Graph) (limits : BuildRef → BuildLimits) (s : StepRef)
    (choice : BuildRef) : Option BuildOptions :=
  let dependents := (g.getDependents s).builds
  match pickBuild dependents s.drvPath choice with
  | none => none
  | some build => some
    { maxSilentTime := ((dependents.map (fun b => (limits b).maxSilentTime)).max?).getD
        (limits build).maxSilentTime
      buildTimeout := ((dependents.map (fun b => (limits b).timeout)).max?).getD
        (limits build).timeout }

/-! ## The order of the walk -/

/-- `DepthFirst g seen todo order`: `order` are the live steps that a walk
from the steps `todo` meets, depth first along `rdeps`.  It does not meet
a step with the path of an earlier one or of one in `seen`. -/
inductive DepthFirst (g : Graph) : List StepRef → List StepRef → List StepRef → Prop where
  | nil {seen : List StepRef} : DepthFirst g seen [] []
  | skip {seen todo order : List StepRef} {u : StepRef}
      (hskip : (g.step u).alive = false ∨ ∃ t ∈ seen, t.drvPath = u.drvPath)
      (hrest : DepthFirst g seen todo order) : DepthFirst g seen (u :: todo) order
  | visit {seen todo below order : List StepRef} {u : StepRef}
      (halive : (g.step u).alive = true) (hnew : ∀ t ∈ seen, t.drvPath ≠ u.drvPath)
      (hbelow : DepthFirst g (seen ++ [u]) (g.step u).rdeps below)
      (hrest : DepthFirst g (seen ++ u :: below) todo order) :
      DepthFirst g seen (u :: todo) (u :: (below ++ order))

/-- The order in which a walk meets the builds of the steps. -/
def buildsOf (g : Graph) (order : List StepRef) : List BuildRef :=
  order.flatMap (fun t => (g.step t).builds)

/-- The first unfinished build of its path in a list. -/
def FirstOfPath (g : Graph) (l : List BuildRef) (b : BuildRef) : Prop :=
  ∃ earlier later, l = earlier ++ b :: later ∧ g.Pending b ∧
    ∀ c ∈ earlier, g.Pending c → c.drvPath ≠ b.drvPath

/-- A build that a depth first walk from `s` meets before any other
unfinished build of its path. -/
def MetFirst (g : Graph) (s : StepRef) (b : BuildRef) : Prop :=
  ∃ order, g.DepthFirst [s] (g.step s).rdeps order ∧ g.FirstOfPath (g.buildsOf (s :: order)) b

/-! ## The property -/

/-- `get_dependents` returns and visits the steps that refer to `s`, each
once, and the limits of the `BuildMessage` are the largest ones. -/
structure TimeoutsCover (g : Graph) (limits : BuildRef → BuildLimits) (s : StepRef) : Prop where
  terminates : ∀ fuel, g.allocated.length + 1 ≤ fuel →
    g.getDependentsFrom fuel {} s = g.getDependents s
  visits : ∀ t, t ∈ (g.getDependents s).steps ↔ g.Refers s t
  once : (g.getDependents s).steps.Nodup
  maxima : ∀ choice opts, g.buildOptions limits s choice = some opts →
    IsGreatest {v | ∃ b, g.DependsOn s b ∧ v = (limits b).maxSilentTime} opts.maxSilentTime ∧
    IsGreatest {v | ∃ b, g.DependsOn s b ∧ v = (limits b).timeout} opts.buildTimeout

/-- No build that depends on `s` has a larger value than all builds that
are met first. -/
def LargestMetFirst (g : Graph) (s : StepRef) (value : BuildRef → Int) : Prop :=
  ∀ b, g.DependsOn s b → ∃ c, g.MetFirst s c ∧ value b ≤ value c

/-! ## The walk is depth first -/

namespace DepthFirst

variable {g : Graph} {seen todo order order' : List StepRef}

/-- There is one order. -/
theorem unique (h : g.DepthFirst seen todo order) (h' : g.DepthFirst seen todo order') :
    order = order' := by
  induction h generalizing order' with
  | nil =>
    cases h'
    rfl
  | skip hskip _ ih =>
    cases h' with
    | skip _ hrest => exact ih hrest
    | visit halive hnew =>
      rcases hskip with hdead | ⟨t, ht, hpath⟩
      · exact absurd (hdead.symm.trans halive) (by simp)
      · exact absurd hpath (hnew t ht)
  | visit halive hnew _ _ ihbelow ihrest =>
    cases h' with
    | skip hskip =>
      rcases hskip with hdead | ⟨t, ht, hpath⟩
      · exact absurd (hdead.symm.trans halive) (by simp)
      · exact absurd hpath (hnew t ht)
    | visit _ _ hbelow hrest =>
      obtain rfl := ihbelow hbelow
      rw [ihrest hrest]

/-- No two steps that are met have one path. -/
theorem nodup (h : g.DepthFirst seen todo order) (hseen : (seen.map StepRef.drvPath).Nodup) :
    ((seen ++ order).map StepRef.drvPath).Nodup := by
  induction h with
  | nil => rwa [List.append_nil]
  | skip _ _ ih => exact ih hseen
  | @visit seen todo below order u _ hnew _ _ ihbelow ihrest =>
    have hself : ((seen ++ [u]).map StepRef.drvPath).Nodup := Map.nodup_map_concat hseen hnew
    have hbelow := ihbelow hself
    rw [List.append_assoc, List.singleton_append] at hbelow
    have hrest := ihrest hbelow
    rwa [List.append_assoc, List.cons_append] at hrest

end DepthFirst

theorem buildsOf_append (g : Graph) (l l' : List StepRef) :
    g.buildsOf (l ++ l') = g.buildsOf l ++ g.buildsOf l' :=
  List.flatMap_append

/-- What a walk from `u` makes of the sets `d`. -/
inductive WalkOf (g : Graph) (d : Dependents) (u : StepRef) : Dependents → Prop where
  | seen (hseen : Visited d u.drvPath) : WalkOf g d u d
  | visit {below : List StepRef} (hnew : ¬ Visited d u.drvPath)
      (hbelow : g.DepthFirst (d.steps ++ [u]) (g.step u).rdeps below) :
      WalkOf g d u
        { builds := (g.buildsOf (u :: below)).foldl g.insertDependent d.builds
          steps := d.steps ++ u :: below }

section Walk

variable {g : Graph} (hrdeps : ∀ t u, g.Rdep t u → u ∈ g.allocated)
include hrdeps

/-- The loop over the steps `l`, when the walk from each of them is depth
first. -/
theorem depthFirst_foldl {s : StepRef} {fuel : Nat}
    (ih : ∀ (d : Dependents) (u : StepRef), u ∈ g.allocated → (g.unvisited d).length ≤ fuel →
      g.WalkOf d u (g.getDependentsFrom fuel d u))
    (l : List StepRef) (hl : l ⊆ (g.step s).rdeps) (d : Dependents)
    (hfuel : (g.unvisited d).length ≤ fuel) :
    ∃ order, g.DepthFirst d.steps l order ∧
      l.foldl (fun d u => if (g.step u).alive then g.getDependentsFrom fuel d u else d) d =
        { builds := (g.buildsOf order).foldl g.insertDependent d.builds
          steps := d.steps ++ order } := by
  induction l generalizing d with
  | nil => exact ⟨[], .nil, by simp [buildsOf]⟩
  | cons u l ihl =>
    have hl' := List.cons_subset.mp hl
    rw [List.foldl_cons]
    by_cases halive : (g.step u).alive = true
    case neg =>
      rw [if_neg halive]
      obtain ⟨order, horder, heq⟩ := ihl hl'.2 d hfuel
      exact ⟨order, .skip (Or.inl (by simpa using halive)) horder, heq⟩
    rw [if_pos halive]
    have hwalk := ih d u (hrdeps s u ⟨hl'.1, halive⟩) hfuel
    generalize g.getDependentsFrom fuel d u = d' at hwalk
    cases hwalk with
    | seen hseen =>
      obtain ⟨order, horder, heq⟩ := ihl hl'.2 d hfuel
      exact ⟨order, .skip (Or.inr hseen) horder, heq⟩
    | @visit below hnew hbelow =>
      have hsub : d.steps ⊆ d.steps ++ u :: below := List.subset_append_left _ _
      obtain ⟨order, horder, heq⟩ := ihl hl'.2
        { builds := (g.buildsOf (u :: below)).foldl g.insertDependent d.builds
          steps := d.steps ++ u :: below }
        ((unvisited_sublist hsub).length_le.trans hfuel)
      refine ⟨u :: (below ++ order), .visit halive (fun t ht hpath => hnew ⟨t, ht, hpath⟩)
        hbelow horder, heq.trans ?_⟩
      rw [← List.cons_append, buildsOf_append, List.foldl_append, List.append_assoc]

/-- With enough fuel the walk of `get_dependents` is depth first. -/
theorem walkOf_getDependentsFrom (fuel : Nat) (d : Dependents) (s : StepRef)
    (hs : s ∈ g.allocated) (hfuel : (g.unvisited d).length ≤ fuel) :
    g.WalkOf d s (g.getDependentsFrom fuel d s) := by
  induction fuel generalizing d s with
  | zero =>
    refine .seen ?_
    by_contra hnew
    have hmem : s ∈ g.unvisited d := mem_unvisited.mpr ⟨hs, hnew⟩
    rw [List.length_eq_zero_iff.mp (Nat.le_zero.mp hfuel)] at hmem
    cases hmem
  | succ fuel ih =>
    unfold getDependentsFrom
    by_cases hvisited : Visited d s.drvPath
    · rw [if_pos ((any_iff_visited d _).mpr hvisited)]
      exact .seen hvisited
    · rw [if_neg (fun h => hvisited ((any_iff_visited d _).mp h))]
      have hlt : (g.unvisited ⟨(g.step s).builds.foldl g.insertDependent d.builds,
          d.steps ++ [s]⟩).length < (g.unvisited d).length :=
        length_unvisited_lt hs hvisited (List.subset_append_left _ _) ⟨s, by simp, rfl⟩
      obtain ⟨below, hbelow, heq⟩ := depthFirst_foldl hrdeps ih (g.step s).rdeps
        (List.Subset.refl _) _ (Nat.le_of_lt_succ (lt_of_lt_of_le hlt hfuel))
      rw [heq, List.append_assoc, ← List.foldl_append]
      exact .visit hvisited hbelow

/-- The sets of `get_dependents`, whatever the fuel. -/
theorem getDependentsFrom_eq {s : StepRef} (hs : s ∈ g.allocated) {fuel : Nat}
    (hfuel : g.allocated.length ≤ fuel) :
    ∃ order, g.DepthFirst [s] (g.step s).rdeps order ∧
      g.getDependentsFrom fuel {} s =
        { builds := (g.buildsOf (s :: order)).foldl g.insertDependent []
          steps := s :: order } := by
  have hwalk := walkOf_getDependentsFrom hrdeps fuel {} s hs
    ((List.length_filter_le _ _).trans hfuel)
  generalize g.getDependentsFrom fuel {} s = d at hwalk
  cases hwalk with
  | seen hseen =>
    obtain ⟨t, ht, -⟩ := hseen
    cases ht
  | @visit below _ hbelow => exact ⟨below, hbelow, rfl⟩

theorem getDependents_eq {s : StepRef} (hs : s ∈ g.allocated) :
    ∃ order, g.DepthFirst [s] (g.step s).rdeps order ∧
      g.getDependents s =
        { builds := (g.buildsOf (s :: order)).foldl g.insertDependent []
          steps := s :: order } :=
  getDependentsFrom_eq hrdeps hs (Nat.le_succ _)

/-- More fuel changes nothing. -/
theorem getDependents_terminates {s : StepRef} (hs : s ∈ g.allocated) {fuel : Nat}
    (hfuel : g.allocated.length + 1 ≤ fuel) :
    g.getDependentsFrom fuel {} s = g.getDependents s := by
  obtain ⟨order, horder, heq⟩ := getDependents_eq hrdeps hs
  obtain ⟨order', horder', heq'⟩ := getDependentsFrom_eq hrdeps hs (Nat.le_of_succ_le hfuel)
  rw [heq, heq', horder.unique horder']

/-- No two steps that are visited have one path. -/
theorem nodup_getDependents {s : StepRef} (hs : s ∈ g.allocated) :
    ((g.getDependents s).steps.map StepRef.drvPath).Nodup := by
  obtain ⟨order, horder, heq⟩ := getDependents_eq hrdeps hs
  rw [heq]
  exact horder.nodup (List.nodup_singleton _)

end Walk

/-! ## The builds that are collected -/

theorem mem_insertDependent {g : Graph} {acc : List BuildRef} {b c : BuildRef} :
    c ∈ g.insertDependent acc b ↔
      c ∈ acc ∨ (c = b ∧ g.Pending b ∧ ∀ e ∈ acc, e.drvPath ≠ b.drvPath) := by
  unfold insertDependent
  split_ifs with hnew
  · obtain ⟨halive, hfinished, hpaths⟩ := hnew
    rw [List.mem_append, List.mem_singleton]
    refine or_congr_right ⟨fun hc => ⟨hc, ⟨halive, hfinished⟩, fun e he hpath => ?_⟩,
      fun hc => hc.1⟩
    exact absurd (List.any_eq_false.mp hpaths e he) (by simp [hpath])
  · refine ⟨Or.inl, fun hc => hc.resolve_right (fun ⟨_, hpending, hpaths⟩ => hnew ?_)⟩
    refine ⟨hpending.1, hpending.2, List.any_eq_false.mpr (fun e he => ?_)⟩
    simpa using hpaths e he

/-- The set has the first build of each path. -/
theorem mem_foldl_insertDependent (g : Graph) (l : List BuildRef) (b : BuildRef) :
    b ∈ l.foldl g.insertDependent [] ↔ g.FirstOfPath l b := by
  induction l using List.reverseRecOn generalizing b with
  | nil =>
    refine ⟨fun hb => (List.not_mem_nil hb).elim, ?_⟩
    rintro ⟨earlier, later, heq, -⟩
    exact absurd heq (by simp)
  | append_singleton l x ih =>
    rw [List.foldl_append, List.foldl_cons, List.foldl_nil, mem_insertDependent, ih]
    constructor
    · rintro (⟨earlier, later, rfl, hpending, hfirst⟩ | ⟨rfl, hpending, hpaths⟩)
      · exact ⟨earlier, later ++ [x], by simp, hpending, hfirst⟩
      · refine ⟨l, [], rfl, hpending, fun c hc hc' hpath => ?_⟩
        obtain ⟨e, he, hepath⟩ := (g.insertDependent_covers l []).2 c hc hc'
        exact hpaths e he (hepath.trans hpath)
    · rintro ⟨earlier, later, heq, hpending, hfirst⟩
      rcases List.eq_nil_or_concat later with rfl | ⟨later', y, rfl⟩
      · obtain ⟨rfl, hx⟩ := List.append_inj' heq rfl
        cases hx
        refine Or.inr ⟨rfl, hpending, fun e he => ?_⟩
        obtain ⟨earlier', later', rfl, hpending', -⟩ := (ih e).mp he
        exact hfirst e (by simp) hpending'
      · rw [List.concat_eq_append, ← List.cons_append, ← List.append_assoc] at heq
        obtain ⟨rfl, -⟩ := List.append_inj' heq rfl
        exact Or.inl ⟨earlier, later', rfl, hpending, hfirst⟩

section Limits

variable {g : Graph} {s : StepRef} (hrdeps : ∀ t u, g.Rdep t u → u ∈ g.allocated)
  (hs : s ∈ g.allocated)
include hrdeps hs

/-- The collected builds are those that are met first. -/
theorem mem_builds_iff_metFirst (b : BuildRef) :
    b ∈ (g.getDependents s).builds ↔ g.MetFirst s b := by
  obtain ⟨order, horder, heq⟩ := getDependents_eq hrdeps hs
  rw [heq]
  refine (mem_foldl_insertDependent g _ b).trans ⟨fun h => ⟨order, horder, h⟩, ?_⟩
  rintro ⟨order', horder', h⟩
  rwa [horder.unique horder']

/-- A build that is met first depends on the step. -/
theorem dependsOn_of_metFirst {b : BuildRef} (hb : g.MetFirst s b) : g.DependsOn s b := by
  have hmem := (mem_builds_iff_metFirst hrdeps hs b).mpr hb
  have hcollected := collected_getDependents g s
  obtain ⟨t, ht, hattached⟩ := hcollected.attached b hmem
  obtain ⟨hwalk, -⟩ := walked_getDependents hrdeps hs
  exact ⟨hcollected.pending b hmem, t, (hwalk.refers t ht).resolve_left (by simp), hattached⟩

omit hrdeps hs in
/-- The largest value of the collected builds. -/
theorem max?_getD_of_ne_nil {l : List BuildRef} (hl : l ≠ []) (value : BuildRef → Int)
    (other : Int) :
    (∃ c ∈ l, value c = ((l.map value).max?).getD other) ∧
      ∀ c ∈ l, value c ≤ ((l.map value).max?).getD other := by
  cases hmax : (l.map value).max? with
  | none => exact absurd (List.max?_eq_none_iff.mp hmax) (by simpa using hl)
  | some v =>
    obtain ⟨hmem, hle⟩ := List.max?_eq_some_iff.mp hmax
    obtain ⟨c, hc, rfl⟩ := List.mem_map.mp hmem
    exact ⟨⟨c, hc, rfl⟩, fun e he => hle _ (List.mem_map_of_mem he)⟩

/-- The value that is computed is the largest one exactly when no build
exceeds those that are met first. -/
theorem isGreatest_iff (value : BuildRef → Int) {v : Int}
    (hattained : ∃ c, g.MetFirst s c ∧ value c = v)
    (hbound : ∀ c, g.MetFirst s c → value c ≤ v) :
    IsGreatest {x | ∃ b, g.DependsOn s b ∧ x = value b} v ↔ g.LargestMetFirst s value := by
  obtain ⟨c, hc, rfl⟩ := hattained
  constructor
  · intro h b hb
    exact ⟨c, hc, h.2 ⟨b, hb, rfl⟩⟩
  · intro h
    refine ⟨⟨c, dependsOn_of_metFirst hrdeps hs hc, rfl⟩, ?_⟩
    rintro x ⟨b, hb, rfl⟩
    obtain ⟨e, he, hle⟩ := h b hb
    exact hle.trans (hbound e he)

omit hrdeps hs in
theorem pickBuild_eq_none {builds : List BuildRef} {drv : StorePath} {choice : BuildRef}
    (h : pickBuild builds drv choice = none) : builds = [] := by
  unfold pickBuild at h
  split at h
  · cases h
  · split_ifs at h
    exact List.head?_eq_none_iff.mp h

omit hrdeps hs in
/-- The message has the largest values of the collected builds. -/
theorem buildOptions_eq (limits : BuildRef → BuildLimits) (choice : BuildRef) :
    ((g.getDependents s).builds = [] ∧ g.buildOptions limits s choice = none) ∨
    ((g.getDependents s).builds ≠ [] ∧ ∃ other : BuildLimits,
      g.buildOptions limits s choice = some
      { maxSilentTime := (((g.getDependents s).builds.map
          (fun b => (limits b).maxSilentTime)).max?).getD other.maxSilentTime
        buildTimeout := (((g.getDependents s).builds.map
          (fun b => (limits b).timeout)).max?).getD other.timeout }) := by
  unfold buildOptions
  dsimp only
  cases hpick : pickBuild (g.getDependents s).builds s.drvPath choice with
  | none => exact Or.inl ⟨pickBuild_eq_none hpick, rfl⟩
  | some build =>
    refine Or.inr ⟨fun hnil => ?_, limits build, rfl⟩
    rw [hnil] at hpick
    simp [pickBuild] at hpick

/-- What the limits of a message are, for the two kinds at once. -/
theorem maxima_iff (limits : BuildRef → BuildLimits) (hfree : g.CollapseFree s) :
    (∀ choice opts, g.buildOptions limits s choice = some opts →
      IsGreatest {v | ∃ b, g.DependsOn s b ∧ v = (limits b).maxSilentTime} opts.maxSilentTime ∧
      IsGreatest {v | ∃ b, g.DependsOn s b ∧ v = (limits b).timeout} opts.buildTimeout) ↔
    g.LargestMetFirst s (fun b => (limits b).maxSilentTime) ∧
      g.LargestMetFirst s (fun b => (limits b).timeout) := by
  have hmet := mem_builds_iff_metFirst hrdeps hs
  by_cases hnil : (g.getDependents s).builds = []
  · have hnone : ∀ b, ¬ g.DependsOn s b := not_dependsOn_of_getDependents hrdeps hs hfree hnil
    refine ⟨fun _ => ⟨fun b hb => absurd hb (hnone b), fun b hb => absurd hb (hnone b)⟩,
      fun _ choice opts hopts => ?_⟩
    rcases buildOptions_eq (g := g) (s := s) limits choice with ⟨-, heq⟩ | ⟨hne, -⟩
    · rw [heq] at hopts
      cases hopts
    · exact absurd hnil hne
  · have hone : ∀ (value : BuildRef → Int) (other : Int),
        IsGreatest {v | ∃ b, g.DependsOn s b ∧ v = value b}
          ((((g.getDependents s).builds.map value).max?).getD other) ↔
        g.LargestMetFirst s value := by
      intro value other
      obtain ⟨⟨c, hc, hvalue⟩, hle⟩ := max?_getD_of_ne_nil hnil value other
      exact isGreatest_iff hrdeps hs value ⟨c, (hmet c).mp hc, hvalue⟩
        (fun e he => hle e ((hmet e).mpr he))
    constructor
    · intro h
      -- any choice of the build will do
      rcases buildOptions_eq (g := g) (s := s) limits ⟨0, ⟨""⟩, 0⟩ with ⟨hnil', -⟩ | ⟨-, other, heq⟩
      · exact absurd hnil' hnil
      · obtain ⟨hsilent, htimeout⟩ := h _ _ heq
        exact ⟨(hone _ _).mp hsilent, (hone _ _).mp htimeout⟩
    · rintro ⟨hsilent, htimeout⟩ choice opts hopts
      rcases buildOptions_eq (g := g) (s := s) limits choice with ⟨hnil', -⟩ | ⟨-, other, heq⟩
      · exact absurd hnil' hnil
      · rw [heq] at hopts
        cases hopts
        exact ⟨(hone _ _).mpr hsilent, (hone _ _).mpr htimeout⟩

/-- The steps that refer to `s` are all visited exactly when they have
different paths. -/
theorem visits_iff : (∀ t, t ∈ (g.getDependents s).steps ↔ g.Refers s t) ↔ g.CollapseFree s := by
  refine ⟨fun h t u ht hu hpath => ?_, fun hfree => refers_iff_mem_getDependents hrdeps hs hfree⟩
  exact List.inj_on_of_nodup_map (nodup_getDependents hrdeps hs) ((h t).mpr ht) ((h u).mpr hu)
    hpath

end Limits

end Graph

/-- The limits of a message cover all builds that depend on the step exactly
when the referring steps have different paths, and no build exceeds those
that a depth first walk meets first of their path. -/
theorem timeoutsCover_iff {g : Graph} {s : StepRef} (limits : BuildRef → BuildLimits)
    (hrdeps : ∀ t u, g.Rdep t u → u ∈ g.allocated) (hs : s ∈ g.allocated) :
    g.TimeoutsCover limits s ↔ g.CollapseFree s ∧
      g.LargestMetFirst s (fun b => (limits b).maxSilentTime) ∧
      g.LargestMetFirst s (fun b => (limits b).timeout) := by
  constructor
  · intro h
    have hfree := (Graph.visits_iff hrdeps hs).mp h.visits
    exact ⟨hfree, (Graph.maxima_iff hrdeps hs limits hfree).mp h.maxima⟩
  · rintro ⟨hfree, hlargest⟩
    exact ⟨fun fuel hfuel => Graph.getDependents_terminates hrdeps hs hfuel,
      (Graph.visits_iff hrdeps hs).mpr hfree, (Graph.nodup_getDependents hrdeps hs).of_map _,
      (Graph.maxima_iff hrdeps hs limits hfree).mpr hlargest⟩

namespace Timeouts

/-- A step, and a step that waits for it. -/
def lib : StepRef := ⟨⟨"lib.drv"⟩, 0⟩

def app : StepRef := ⟨⟨"app.drv"⟩, 1⟩

/-- Two builds of the library and one of the application. -/
def libBuild : BuildRef := ⟨1, ⟨"lib.drv"⟩, 0⟩

def libBuild₂ : BuildRef := ⟨2, ⟨"lib.drv"⟩, 1⟩

def appBuild : BuildRef := ⟨3, ⟨"app.drv"⟩, 2⟩

/-- The application waits for the library; the pointer is there twice. -/
def graph (builds : List BuildRef) : Graph where
  step s :=
    if s = lib then { rdeps := [app, app], builds := builds }
    else if s = app then { builds := [appBuild] }
    else { alive := false }
  allocated := [lib, app]

/-- The second build of the library may take longer than the others. -/
def limits (b : BuildRef) : BuildLimits :=
  if b = libBuild₂ then { maxSilentTime := 7200, timeout := 72000 }
  else { maxSilentTime := 60, timeout := 600 }

theorem limits_le (b : BuildRef) :
    (limits b).maxSilentTime ≤ (limits libBuild₂).maxSilentTime ∧
      (limits b).timeout ≤ (limits libBuild₂).timeout := by
  by_cases hb : b = libBuild₂
  · rw [hb]
    exact ⟨le_refl _, le_refl _⟩
  · have hlimits : limits b = { maxSilentTime := 60, timeout := 600 } := if_neg hb
    rw [hlimits]
    decide

theorem rdep_graph {builds : List BuildRef} {t u : StepRef} (h : (graph builds).Rdep t u) :
    u ∈ (graph builds).allocated := by
  obtain ⟨-, halive⟩ := h
  unfold graph at halive ⊢
  dsimp only at halive ⊢
  split_ifs at halive with hlib happ
  · simp [hlib]
  · simp [happ]

theorem refers_graph {builds : List BuildRef} {t : StepRef} (h : (graph builds).Refers lib t) :
    t = lib ∨ t = app := by
  rcases h.cases_tail with rfl | ⟨u, -, hrdep⟩
  · exact Or.inl rfl
  · simpa [graph] using rdep_graph hrdep

theorem collapseFree_graph (builds : List BuildRef) : (graph builds).CollapseFree lib := by
  intro t u ht hu hpath
  rcases refers_graph ht with rfl | rfl <;> rcases refers_graph hu with rfl | rfl
  · rfl
  · exact absurd hpath (by decide)
  · exact absurd hpath (by decide)
  · rfl

theorem metFirst_graph : (graph [libBuild₂]).MetFirst lib libBuild₂ := by
  refine (Graph.mem_builds_iff_metFirst (fun _ _ => rdep_graph) (by decide) _).mp ?_
  decide +kernel

end Timeouts

open Timeouts in
/-- With one build of the library, the limits cover it and the build of the
application. -/
theorem timeoutsCover_iff_distinct :
    (∃ opts, (graph [libBuild₂]).buildOptions limits lib appBuild = some opts ∧
      opts.buildTimeout = 72000) ∧ (graph [libBuild₂]).TimeoutsCover limits lib := by
  have hopts : (graph [libBuild₂]).buildOptions limits lib appBuild =
    some ⟨7200, 72000⟩ := by decide +kernel
  refine ⟨⟨_, hopts, rfl⟩, (timeoutsCover_iff limits (fun _ _ => rdep_graph) (by decide)).mpr
    ⟨collapseFree_graph _, ?_, ?_⟩⟩
  · exact fun b _ => ⟨libBuild₂, metFirst_graph, (limits_le b).1⟩
  · exact fun b _ => ⟨libBuild₂, metFirst_graph, (limits_le b).2⟩

open Timeouts in
/-- With two builds of the library, the one with the smaller limits is met
first and the other one is not collected. -/
theorem timeoutsCover_fails_same_path :
    (graph [libBuild, libBuild₂]).buildOptions limits lib appBuild = some ⟨60, 600⟩ ∧
      (limits libBuild₂).timeout = 72000 ∧
      ¬ (graph [libBuild, libBuild₂]).TimeoutsCover limits lib := by
  have hopts : (graph [libBuild, libBuild₂]).buildOptions limits lib appBuild =
    some ⟨60, 600⟩ := by decide +kernel
  refine ⟨hopts, by decide, fun h => ?_⟩
  have hdepends : (graph [libBuild, libBuild₂]).DependsOn lib libBuild₂ :=
    ⟨⟨rfl, rfl⟩, lib, .refl, by decide⟩
  have hle := (h.maxima _ _ hopts).2.2 ⟨libBuild₂, hdepends, rfl⟩
  exact absurd hle (by decide)

end QueueRunner
