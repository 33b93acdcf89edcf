import Mathlib.Data.Prod.Lex
import QueueRunner.Lib.StableSort
import QueueRunner.Reload

/-!
# The order of the steps in a queue

`legacy_compare` and `compare_with_rdeps` of
`queue-runner/src/state/step_info.rs` are the lexicographic orders on the
keys of a step, where the priorities and the number of the dependents
count downwards.  `sort_jobs` of `queue.rs` first stores the share that a
step has now in each live `StepInfo` of the queue, and then sorts the weak
pointers: the dead ones come first.

A share is a floating point number.  `total_cmp` makes a signed integer of
the bits of each number and compares these integers, so the integers stand
for the shares.
-/

namespace QueueRunner

open Std (TransCmp OrientedCmp)

/-- A comparator that is a total preorder. -/
structure TotalPreorder {α : Type} (cmp : α → α → Ordering) : Prop where
  refl : ∀ a, cmp a a = .eq
  swap : ∀ a b, cmp b a = (cmp a b).swap
  antisymm : ∀ a b, cmp a b ≠ .gt → cmp b a ≠ .gt → cmp a b = .eq
  trans : ∀ a b c, cmp a b ≠ .gt → cmp b c ≠ .gt → cmp a c ≠ .gt

theorem totalPreorder {α : Type} (cmp : α → α → Ordering) [TransCmp cmp] :
    TotalPreorder cmp where
  refl _ := Std.ReflCmp.compare_self
  swap _ _ := OrientedCmp.eq_swap
  antisymm a b hab hba := by
    have hswap : cmp b a = (cmp a b).swap := OrientedCmp.eq_swap
    cases h : cmp a b with
    | lt => exact absurd (by rw [hswap, h]; rfl) hba
    | eq => rfl
    | gt => exact absurd h hab
  trans a b c hab hbc :=
    Ordering.isLE_iff_ne_gt.mp
      (TransCmp.isLE_trans (Ordering.isLE_iff_ne_gt.mpr hab) (Ordering.isLE_iff_ne_gt.mpr hbc))

/-! ## The comparators -/

namespace SortKeys

/-- The keys of `legacy_compare`, in the order in which they count. -/
def legacyRank (a : SortKeys) : Intᵒᵈ ×ₗ Int ×ₗ Intᵒᵈ ×ₗ BuildID :=
  toLex (OrderDual.toDual a.highestGlobalPriority, toLex (a.lowestShareUsed,
    toLex (OrderDual.toDual a.highestLocalPriority, a.lowestBuildId)))

/-- The keys of `compare_with_rdeps`, in the order in which they count. -/
def rdepsRank (a : SortKeys) : Intᵒᵈ ×ₗ Int ×ₗ Natᵒᵈ ×ₗ Intᵒᵈ ×ₗ BuildID :=
  toLex (OrderDual.toDual a.highestGlobalPriority, toLex (a.lowestShareUsed,
    toLex (OrderDual.toDual a.rdepsLen,
      toLex (OrderDual.toDual a.highestLocalPriority, a.lowestBuildId))))

theorem compare_toLex {α β : Type} [Ord α] [Ord β] (a c : α) (b d : β) :
    compare (toLex (a, b)) (toLex (c, d)) = (compare a c).then (compare b d) := by
  rw [Prod.Lex.compare_def]
  rfl

theorem compare_toDual {α : Type} [LinearOrder α] (a b : α) :
    compare (OrderDual.toDual a) (OrderDual.toDual b) = (compare a b).swap := by
  show compare b a = (compare a b).swap
  exact OrientedCmp.eq_swap

/-- `legacy_compare` is the lexicographic order. -/
theorem legacyCompare_eq (a b : SortKeys) :
    legacyCompare a b = compare a.legacyRank b.legacyRank := by
  unfold legacyRank legacyCompare
  rw [compare_toLex, compare_toLex, compare_toLex, compare_toDual, compare_toDual,
    Ordering.swap_then, Ordering.swap_then, Ordering.swap_then,
    ← OrientedCmp.eq_swap (a := a.lowestShareUsed), ← OrientedCmp.eq_swap (a := a.lowestBuildId)]

/-- `compare_with_rdeps` is the lexicographic order. -/
theorem compareWithRdeps_eq (a b : SortKeys) :
    compareWithRdeps a b = compare a.rdepsRank b.rdepsRank := by
  unfold rdepsRank compareWithRdeps
  rw [compare_toLex, compare_toLex, compare_toLex, compare_toLex, compare_toDual, compare_toDual,
    compare_toDual, Ordering.swap_then, Ordering.swap_then, Ordering.swap_then,
    Ordering.swap_then, ← OrientedCmp.eq_swap (a := a.lowestShareUsed),
    ← OrientedCmp.eq_swap (a := a.lowestBuildId)]

end SortKeys

/-! ## Sorting a queue -/

namespace BuildQueue

/-- The closure that `sort_jobs` gives to `sort_by`. -/
def sortCmp (live : InfoRef → Bool) (cmp : InfoRef → InfoRef → Ordering)
    (a b : InfoRef) : Ordering :=
  match live a, live b with
  | true, true => cmp a b
  | true, false => .gt
  | false, true => .lt
  | false, false => .eq

/-- `update_internal_stats` of every live job, at the start of
`sort_jobs`. -/
def updateStats (live : InfoRef → Bool) (share : InfoRef → Int) (jobs : List InfoRef)
    (keys : InfoRef → SortKeys) : InfoRef → SortKeys :=
  jobs.foldl (fun keys j =>
    if live j then Function.update keys j { keys j with lowestShareUsed := share j }
    else keys) keys

/-- The comparator of a sort function, on what it reads of the step infos. -/
def cmpOn (sortFn : StepSortFn) (keys : InfoRef → SortKeys) (a b : InfoRef) : Ordering :=
  sortFn.cmpFn (keys a) (keys b)

/-- `sort_jobs` with the share that it stores in the step infos. -/
def sortJobsNow (live : InfoRef → Bool) (share : InfoRef → Int) (sortFn : StepSortFn)
    (keys : InfoRef → SortKeys) (q : BuildQueue) : (InfoRef → SortKeys) × BuildQueue :=
  let keys := updateStats live share q.jobs keys
  (keys, q.sortJobs live (cmpOn sortFn keys))

instance (sortFn : StepSortFn) (keys : InfoRef → SortKeys) : TransCmp (cmpOn sortFn keys) :=
  transCmp_comap (c := sortFn.cmpFn) keys

section

variable {live : InfoRef → Bool} {cmp : InfoRef → InfoRef → Ordering}

/-- The live jobs get the share that their step has now. -/
theorem updateStats_apply (share : InfoRef → Int) (jobs : List InfoRef)
    (keys : InfoRef → SortKeys) (j : InfoRef) :
    updateStats live share jobs keys j =
      if j ∈ jobs ∧ live j = true then { keys j with lowestShareUsed := share j }
      else keys j := by
  induction jobs generalizing keys with
  | nil => simp [updateStats]
  | cons i jobs ih =>
    show updateStats live share jobs (if live i = true then _ else keys) j = _
    rw [ih]
    by_cases hji : j = i
    · subst hji
      by_cases hlive : live j = true
      · simp [hlive]
      · simp [hlive]
    · have hkeys : (if live i = true then
          Function.update keys i { keys i with lowestShareUsed := share i } else keys) j =
          keys j := by
        split_ifs
        · exact Function.update_of_ne hji _ _
        · rfl
      rw [hkeys]
      simp [hji]

theorem sortLe_iff_sortCmp {a b : InfoRef} :
    sortLe live cmp a b = true ↔ sortCmp live cmp a b ≠ .gt := by
  cases ha : live a <;> cases hb : live b <;> simp [sortLe, sortCmp, ha, hb]

/-- Dead and live pointers together are in a total preorder. -/
theorem totalPreorder_sortCmp (h : TotalPreorder cmp) : TotalPreorder (sortCmp live cmp) where
  refl a := by
    cases ha : live a
    · simp [sortCmp, ha]
    · simp [sortCmp, ha, h.refl]
  swap a b := by
    cases ha : live a <;> cases hb : live b <;> simp [sortCmp, ha, hb]
    exact h.swap a b
  antisymm a b := by
    cases ha : live a <;> cases hb : live b <;> simp [sortCmp, ha, hb]
    exact h.antisymm a b
  trans a b c := by
    cases ha : live a <;> cases hb : live b <;> cases hc : live c <;>
      simp [sortCmp, ha, hb, hc]
    exact h.trans a b c

/-- What `sort_jobs` makes of a list of pointers. -/
structure JobsSorted (live : InfoRef → Bool) (cmp : InfoRef → InfoRef → Ordering)
    (jobs sorted : List InfoRef) : Prop where
  perm : sorted.Perm jobs
  stable : ∀ x, sorted.filter (fun y => sortCmp live cmp x y = .eq) =
    jobs.filter (fun y => sortCmp live cmp x y = .eq)
  deadFirst : sorted = jobs.filter (fun j => !live j) ++ sorted.filter live
  inOrder : (sorted.filter live).Pairwise (fun a b => cmp a b ≠ .gt)
  first : ∀ j, sorted.find? live = some j → ∀ k ∈ jobs, live k = true → cmp j k ≠ .gt

/-- Two jobs that a third one does not tell from itself are equal, too. -/
theorem sortLe_of_eq (h : TotalPreorder cmp) {x a b : InfoRef}
    (ha : sortCmp live cmp x a = .eq) (hb : sortCmp live cmp x b = .eq) :
    sortLe live cmp a b = true := by
  have hpre : TotalPreorder (sortCmp live cmp) := totalPreorder_sortCmp h
  have hax : sortCmp live cmp a x = .eq := by
    rw [hpre.swap x a, ha]
    rfl
  exact sortLe_iff_sortCmp.mpr
    (hpre.trans a x b (by rw [hax]; decide) (by rw [hb]; decide))

theorem jobsSorted_sortJobs [TransCmp cmp] (q : BuildQueue) :
    JobsSorted live cmp q.jobs (q.sortJobs live cmp).jobs := by
  have hpre := totalPreorder cmp
  have hsorted := pairwise_sortJobs live cmp q
  have hperm := InnerQueues.sortJobs_perm live cmp q
  have hdead : (q.sortJobs live cmp).jobs.filter (fun j => !live j) =
      q.jobs.filter (fun j => !live j) :=
    Sorting.filter_insertionSort _ _
      (fun a b ha hb => by simp_all [sortLe]) q.jobs
  have hsplit : (q.sortJobs live cmp).jobs =
      (q.sortJobs live cmp).jobs.filter (fun j => !live j) ++
        (q.sortJobs live cmp).jobs.filter live :=
    Sorting.eq_filter_append_filter hsorted
      (fun a b ha hb => by simp [sortLe, ha, hb])
  have hinOrder : ((q.sortJobs live cmp).jobs.filter live).Pairwise
      (fun a b => cmp a b ≠ .gt) := by
    refine (hsorted.filter live).imp_of_mem (fun ha hb hle => ?_)
    have hlivea := (List.mem_filter.mp ha).2
    have hliveb := (List.mem_filter.mp hb).2
    simpa [sortLe, hlivea, hliveb] using hle
  refine ⟨hperm, fun x => ?_, hsplit.trans (by rw [hdead]), hinOrder, fun j hj k hk hlive => ?_⟩
  · refine Sorting.filter_insertionSort _ (fun y => sortCmp live cmp x y = .eq) ?_ q.jobs
    intro a b ha hb
    exact sortLe_of_eq hpre (of_decide_eq_true ha) (of_decide_eq_true hb)
  · have hfound : live j = true := List.find?_some hj
    rcases Sorting.rel_of_find? hsorted hj (hperm.mem_iff.mpr hk) hlive with rfl | hle
    · rw [hpre.refl]
      decide
    · simpa [sortLe, hfound, hlive] using hle

end

end BuildQueue

/-- The two comparators are the lexicographic orders on the keys, and
`sort_jobs` sorts every queue by them. -/
theorem sortJobsNow_correct :
    TotalPreorder SortKeys.legacyCompare ∧ TotalPreorder SortKeys.compareWithRdeps ∧
    (∀ a b, SortKeys.legacyCompare a b = compare a.legacyRank b.legacyRank) ∧
    (∀ a b, SortKeys.compareWithRdeps a b = compare a.rdepsRank b.rdepsRank) ∧
    ∀ (live : InfoRef → Bool) (share : InfoRef → Int) (sortFn : StepSortFn)
      (keys : InfoRef → SortKeys) (q : BuildQueue),
      let (keys', q') := q.sortJobsNow live share sortFn keys
      (∀ j ∈ q.jobs, live j = true → keys' j = { keys j with lowestShareUsed := share j }) ∧
      TotalPreorder (BuildQueue.sortCmp live (BuildQueue.cmpOn sortFn keys')) ∧
      BuildQueue.JobsSorted live (BuildQueue.cmpOn sortFn keys') q.jobs q'.jobs := by
  refine ⟨totalPreorder _, totalPreorder _, SortKeys.legacyCompare_eq,
    SortKeys.compareWithRdeps_eq, fun live share sortFn keys q => ⟨?_, ?_, ?_⟩⟩
  · intro j hj hlive
    show BuildQueue.updateStats live share q.jobs keys j = _
    rw [BuildQueue.updateStats_apply, if_pos ⟨hj, hlive⟩]
  · exact BuildQueue.totalPreorder_sortCmp (totalPreorder _)
  · exact BuildQueue.jobsSorted_sortJobs q

end QueueRunner
