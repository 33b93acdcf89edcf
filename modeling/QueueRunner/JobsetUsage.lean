import Mathlib.Algebra.BigOperators.Group.List.Lemmas
import Mathlib.Algebra.Order.BigOperators.Group.List
import Mathlib.Algebra.Ring.Int.Defs
import QueueRunner.Lib.Run
import QueueRunner.Lib.SortedMap

/-!
# The time that a jobset has used

`Jobset` of `queue-runner/src/state/jobset.rs` keeps the steps of the last
day in a map from start time to duration, and the sum of the durations in
a counter of its own.  `share_used` divides the counter by the shares of
the jobset, and the queues are sorted by it.

Two steps of a jobset can start in the same second.  The second
`insert` then replaces the duration of the first step in the map, and the
counter keeps both.  When the entry is pruned, the counter loses the
second duration only, and the first one stays for ever.
`secondsAccounted_runs` says that nothing else goes wrong.
-/

namespace QueueRunner

/-- `SCHEDULING_WINDOW`. -/
def schedulingWindow : Int := 24 * 60 * 60

/-- `fetch_add` and `fetch_sub` on an `AtomicI64` wrap around. -/
def wrapI64 (x : Int) : Int := x.bmod (2 ^ 64)

theorem wrapI64_eq_self {x : Int} (h₀ : 0 ≤ x) (h₁ : x < 2 ^ 63) : wrapI64 x = x := by
  unfold wrapI64
  rw [Int.bmod_eq_of_le] <;> omega

/-- `Jobset`, the fields that account for its steps. -/
structure JobsetUsage where
  seconds : Int := 0
  steps : SortedMap Int Int := .empty

namespace JobsetUsage

/-- `add_step`. -/
def addStep (j : JobsetUsage) (startTime duration : Int) : JobsetUsage where
  steps := j.steps.insert startTime duration
  seconds := wrapI64 (j.seconds + duration)

/-- The loop of `prune_steps` over the entries of the map. -/
def pruneLoop (bound : Int) : Int → List (Int × Int) → Int
  | seconds, [] => seconds
  | seconds, (startTime, duration) :: l =>
    if startTime > bound then seconds
    else pruneLoop bound (wrapI64 (seconds - duration)) l

/-- `prune_steps`. -/
def pruneSteps (j : JobsetUsage) (now : Int) : JobsetUsage where
  seconds := pruneLoop (now - schedulingWindow) j.seconds j.steps.entries
  steps :=
    { entries := j.steps.entries.dropWhile (fun e => e.1 ≤ now - schedulingWindow)
      sorted := j.steps.sorted.sublist (List.dropWhile_sublist _) }

/-- The loop of `Jobsets::create` over the rows of the database.  The
difference of the two times is one of `i32`. -/
def addRows (j : JobsetUsage) (rows : List (Option Int × Option Int)) : JobsetUsage :=
  rows.foldl (fun j row =>
    match row with
    | (some startTime, some stopTime) =>
      j.addStep startTime ((stopTime - startTime).bmod (2 ^ 32))
    | _ => j) j

end JobsetUsage

/-! ## Runs -/

/-- A call on a jobset. -/
inductive JobsetAction where
  | addStep (startTime duration : Int)
  | pruneSteps (now : Int)
deriving DecidableEq

/-- A jobset, with the steps that were added and not pruned since, and the
durations of all steps. -/
structure JobsetLog where
  jobset : JobsetUsage := {}
  pending : List (Int × Int) := []
  total : Int := 0

/-- The sum of the durations of some steps. -/
def sumDurations (steps : List (Int × Int)) : Int := (steps.map Prod.snd).sum

/-- The steps that are in the window at a time. -/
def inWindow (now : Int) (steps : List (Int × Int)) : List (Int × Int) :=
  steps.filter (fun e => now - schedulingWindow < e.1)

namespace JobsetLog

/-- One call. -/
def next (w : JobsetLog) : JobsetAction → Option JobsetLog
  | .addStep startTime duration => some
    { jobset := w.jobset.addStep startTime duration
      pending := (startTime, duration) :: w.pending
      total := w.total + duration }
  | .pruneSteps now => some
    { w with jobset := w.jobset.pruneSteps now, pending := inWindow now w.pending }

/-- The durations are not negative, and their sum fits. -/
def Fits (w : JobsetLog) : JobsetAction → Prop
  | .addStep _ duration => 0 ≤ duration ∧ w.total + duration < 2 ^ 63
  | .pruneSteps _ => True

/-- A new step replaces no time: the map has no entry for its start time,
or one of no duration. -/
def NoneReplaced (w : JobsetLog) : JobsetAction → Prop
  | .addStep startTime _ => ∀ e ∈ w.jobset.steps.entries, e.1 = startTime → e.2 = 0
  | .pruneSteps _ => True

instance (w : JobsetLog) (a : JobsetAction) : Decidable (w.Fits a) :=
  match a with
  | .addStep _ duration => inferInstanceAs (Decidable (0 ≤ duration ∧ w.total + duration < 2 ^ 63))
  | .pruneSteps _ => .isTrue trivial

instance (w : JobsetLog) (a : JobsetAction) : Decidable (w.NoneReplaced a) :=
  match a with
  | .addStep startTime _ => inferInstanceAs (Decidable
      (∀ e ∈ w.jobset.steps.entries, e.1 = startTime → e.2 = 0))
  | .pruneSteps _ => .isTrue trivial

/-- The counter is the sum of the durations that were not pruned, and a
prune leaves the steps in the window. -/
structure SecondsAccounted (w : JobsetLog) : Prop where
  seconds : w.jobset.seconds = sumDurations w.pending
  nonneg : 0 ≤ w.jobset.seconds
  pruned : ∀ now, (w.jobset.pruneSteps now).seconds = sumDurations (inWindow now w.pending)
  idle : ∀ now, (∀ e ∈ w.pending, e.1 ≤ now - schedulingWindow) →
    (w.jobset.pruneSteps now).seconds = 0

/-! ## The invariant -/

/-- The steps that count for something. -/
def timed (steps : List (Int × Int)) : List (Int × Int) := steps.filter (fun e => e.2 ≠ 0)

/-- The map has the steps that were not pruned. -/
structure Booked (w : JobsetLog) : Prop where
  seconds : w.jobset.seconds = sumDurations w.jobset.steps.entries
  entries : (timed w.jobset.steps.entries).Perm (timed w.pending)
  nonneg : ∀ e ∈ w.pending, 0 ≤ e.2
  total : sumDurations w.pending ≤ w.total
  bound : w.total < 2 ^ 63

theorem sumDurations_perm {l l' : List (Int × Int)} (h : l.Perm l') :
    sumDurations l = sumDurations l' :=
  (h.map Prod.snd).sum_eq

theorem sumDurations_cons (e : Int × Int) (l : List (Int × Int)) :
    sumDurations (e :: l) = e.2 + sumDurations l := by
  simp [sumDurations]

/-- The steps without a duration do not count. -/
theorem sumDurations_filter_of_zero (p : Int × Int → Bool) {l : List (Int × Int)}
    (h : ∀ e ∈ l, p e = false → e.2 = 0) : sumDurations (l.filter p) = sumDurations l := by
  induction l with
  | nil => rfl
  | cons e l ih =>
    have htail := ih (fun e' he' => h e' (List.mem_cons_of_mem _ he'))
    cases hp : p e with
    | true => rw [List.filter_cons_of_pos hp, sumDurations_cons, sumDurations_cons, htail]
    | false =>
      rw [List.filter_cons_of_neg (by simp [hp]), sumDurations_cons, htail,
        h e List.mem_cons_self hp, zero_add]

theorem sumDurations_timed (l : List (Int × Int)) : sumDurations (timed l) = sumDurations l :=
  sumDurations_filter_of_zero _ (fun _ _ hp => by simpa using hp)

theorem sumDurations_nonneg {l : List (Int × Int)} (h : ∀ e ∈ l, 0 ≤ e.2) :
    0 ≤ sumDurations l := by
  apply List.sum_nonneg
  intro d hd
  obtain ⟨e, he, rfl⟩ := List.mem_map.mp hd
  exact h e he

theorem sumDurations_filter_le (p : Int × Int → Bool) {l : List (Int × Int)}
    (h : ∀ e ∈ l, 0 ≤ e.2) : sumDurations (l.filter p) ≤ sumDurations l := by
  induction l with
  | nil => exact le_refl _
  | cons e l ih =>
    have htail := ih (fun e' he' => h e' (List.mem_cons_of_mem _ he'))
    have hhead : 0 ≤ e.2 := h e List.mem_cons_self
    cases hp : p e with
    | true =>
      rw [List.filter_cons_of_pos hp, sumDurations_cons, sumDurations_cons]
      omega
    | false =>
      rw [List.filter_cons_of_neg (by simp [hp]), sumDurations_cons]
      omega

theorem timed_perm {l l' : List (Int × Int)} (h : l.Perm l') : (timed l).Perm (timed l') :=
  h.filter _

theorem timed_filter (p : Int × Int → Bool) (l : List (Int × Int)) :
    timed (l.filter p) = (timed l).filter p := by
  unfold timed
  rw [List.filter_filter, List.filter_filter]
  exact List.filter_congr (fun e _ => Bool.and_comm _ _)

/-- An entry without a duration is not missed. -/
theorem timed_filter_of_zero (p : Int × Int → Bool) {l : List (Int × Int)}
    (h : ∀ e ∈ l, p e = false → e.2 = 0) : timed (l.filter p) = timed l := by
  rw [timed_filter, List.filter_eq_self]
  intro e he
  obtain ⟨hmem, hne⟩ := List.mem_filter.mp he
  cases hp : p e with
  | true => rfl
  | false => exact absurd (h e hmem hp) (by simpa using hne)

theorem timed_cons_perm (e : Int × Int) {l l' : List (Int × Int)}
    (h : (timed l).Perm (timed l')) : (timed (e :: l)).Perm (timed (e :: l')) := by
  show (timed ([e] ++ l)).Perm (timed ([e] ++ l'))
  unfold timed at h ⊢
  rw [List.filter_append, List.filter_append]
  exact h.append_left _

/-- The loop takes from the counter what leaves the map. -/
theorem pruneLoop_eq (bound : Int) {l : List (Int × Int)} (hnonneg : ∀ e ∈ l, 0 ≤ e.2)
    (hfits : sumDurations l < 2 ^ 63) :
    JobsetUsage.pruneLoop bound (sumDurations l) l =
      sumDurations (l.dropWhile (fun e => e.1 ≤ bound)) := by
  induction l with
  | nil => rfl
  | cons e l ih =>
    have htail : ∀ e' ∈ l, 0 ≤ e'.2 := fun e' he' => hnonneg e' (List.mem_cons_of_mem _ he')
    have hhead : 0 ≤ e.2 := hnonneg e List.mem_cons_self
    have hsum : 0 ≤ sumDurations l := sumDurations_nonneg htail
    rw [sumDurations_cons] at hfits
    unfold JobsetUsage.pruneLoop
    split_ifs with hgt
    · rw [List.dropWhile_cons_of_neg (by simpa using hgt)]
    · have hrest : e.2 + sumDurations l - e.2 = sumDurations l := by omega
      rw [List.dropWhile_cons_of_pos (by simpa using hgt), sumDurations_cons, hrest,
        wrapI64_eq_self hsum (by omega)]
      exact ih htail (by omega)

namespace Booked

variable {w w' : JobsetLog}

theorem start : Booked {} where
  seconds := rfl
  entries := .refl _
  nonneg := fun _ he => absurd he List.not_mem_nil
  total := le_refl _
  bound := by decide

/-- The map and the log agree on the sum. -/
theorem sum_entries (h : w.Booked) :
    sumDurations w.jobset.steps.entries = sumDurations w.pending := by
  rw [← sumDurations_timed, ← sumDurations_timed w.pending]
  exact sumDurations_perm h.entries

theorem entries_nonneg (h : w.Booked) : ∀ e ∈ w.jobset.steps.entries, 0 ≤ e.2 := by
  intro e he
  by_cases hzero : e.2 = 0
  · exact hzero.ge
  · have htimed : e ∈ timed w.jobset.steps.entries :=
      List.mem_filter.mpr ⟨he, decide_eq_true hzero⟩
    exact h.nonneg e (List.mem_filter.mp (h.entries.subset htimed)).1

/-- What is left after a prune is what is in the window. -/
theorem prune_perm (h : w.Booked) (now : Int) :
    (timed (w.jobset.pruneSteps now).steps.entries).Perm (timed (inWindow now w.pending)) := by
  show (timed (w.jobset.steps.entries.dropWhile _)).Perm _
  rw [SortedMap.dropWhile_eq_filter w.jobset.steps.sorted]
  unfold inWindow
  rw [timed_filter, timed_filter]
  exact h.entries.filter _

theorem prune_seconds (h : w.Booked) (now : Int) :
    (w.jobset.pruneSteps now).seconds =
      sumDurations (w.jobset.pruneSteps now).steps.entries := by
  show JobsetUsage.pruneLoop _ w.jobset.seconds _ = _
  have hbound : sumDurations w.jobset.steps.entries < 2 ^ 63 := by
    rw [h.sum_entries]
    exact lt_of_le_of_lt h.total h.bound
  rw [h.seconds]
  exact pruneLoop_eq _ h.entries_nonneg hbound

theorem addStep (h : w.Booked) {startTime duration : Int}
    (hfits : w.Fits (.addStep startTime duration))
    (hnone : w.NoneReplaced (.addStep startTime duration)) :
    Booked { jobset := w.jobset.addStep startTime duration
             pending := (startTime, duration) :: w.pending
             total := w.total + duration } := by
  obtain ⟨hduration, htotal⟩ := hfits
  have hperm := SortedMap.perm_insert w.jobset.steps startTime duration
  have hzero : ∀ e ∈ w.jobset.steps.entries, decide (e.1 ≠ startTime) = false → e.2 = 0 :=
    fun e he hkey => hnone e he (by simpa using hkey)
  have hsum : 0 ≤ sumDurations w.pending := sumDurations_nonneg h.nonneg
  have hle : sumDurations w.pending ≤ w.total := h.total
  refine ⟨?_, ?_, ?_, ?_, htotal⟩
  · show wrapI64 (w.jobset.seconds + duration) = sumDurations (w.jobset.steps.insert _ _).entries
    rw [sumDurations_perm hperm, sumDurations_cons, sumDurations_filter_of_zero _ hzero,
      h.seconds, h.sum_entries, wrapI64_eq_self (by omega) (by omega), add_comm]
  · have hkept : timed (w.jobset.steps.entries.filter (fun e => e.1 ≠ startTime)) =
        timed w.jobset.steps.entries := timed_filter_of_zero _ hzero
    exact (timed_perm hperm).trans (timed_cons_perm _ (hkept ▸ h.entries))
  · intro e he
    rcases List.mem_cons.mp he with rfl | he
    · exact hduration
    · exact h.nonneg e he
  · rw [sumDurations_cons]
    show duration + sumDurations w.pending ≤ w.total + duration
    omega

theorem pruneSteps (h : w.Booked) (now : Int) :
    Booked { w with jobset := w.jobset.pruneSteps now, pending := inWindow now w.pending } where
  seconds := h.prune_seconds now
  entries := h.prune_perm now
  nonneg := fun e he => h.nonneg e (List.mem_filter.mp he).1
  total := (sumDurations_filter_le _ h.nonneg).trans h.total
  bound := h.bound

theorem step (h : w.Booked) {a : JobsetAction} (hok : w.Fits a ∧ w.NoneReplaced a)
    (hnext : w.next a = some w') : w'.Booked := by
  cases a with
  | addStep startTime duration =>
    cases hnext
    exact h.addStep hok.1 hok.2
  | pruneSteps now =>
    cases hnext
    exact h.pruneSteps now

theorem reach (h : Lts.Reach next (fun w a => w.Fits a ∧ w.NoneReplaced a) {} w) : w.Booked :=
  h.invariant start (fun _ _ _ hw hok hnext => hw.step hok hnext)

theorem secondsAccounted (h : w.Booked) : w.SecondsAccounted := by
  have hpruned : ∀ now, (w.jobset.pruneSteps now).seconds =
      sumDurations (inWindow now w.pending) := fun now =>
    (h.prune_seconds now).trans (h.pruneSteps now).sum_entries
  refine ⟨h.seconds.trans h.sum_entries, ?_, hpruned, fun now hold => ?_⟩
  · rw [h.seconds, h.sum_entries]
    exact sumDurations_nonneg h.nonneg
  · have hnone : inWindow now w.pending = [] := by
      unfold inWindow
      rw [List.filter_eq_nil_iff]
      intro e he
      simpa using hold e he
    rw [hpruned, hnone]
    rfl

end Booked

/-- While no step replaces the time of another one in the map, the counter
of a jobset is the sum of the durations that were not pruned. -/
theorem secondsAccounted_runs {w : JobsetLog}
    (h : Lts.Reach next (fun w a => w.Fits a ∧ w.NoneReplaced a) {} w) : w.SecondsAccounted :=
  (Booked.reach h).secondsAccounted

/-- Two steps that start in different seconds, one of them pruned. -/
theorem secondsAccounted_runs_prunes :
    ∃ w, Lts.Reach next (fun w a => w.Fits a ∧ w.NoneReplaced a) {} w ∧
      w.pending = [(100, 7)] ∧ w.SecondsAccounted := by
  have hrun : (Lts.runWith next (fun w a => w.Fits a ∧ w.NoneReplaced a) {}
      [.addStep 10 5, .addStep 100 7, .pruneSteps (24 * 60 * 60 + 10)]).map
      (fun w => w.pending) = some [(100, 7)] := by decide +kernel
  obtain ⟨w, hw, hpending⟩ := Option.map_eq_some_iff.mp hrun
  exact ⟨w, Lts.reach_of_runWith hw, hpending, secondsAccounted_runs (Lts.reach_of_runWith hw)⟩

/-- Two steps start in second 10, and a day later the time of the first
one still counts. -/
theorem secondsAccounted_fails_same_second :
    ∃ w, Lts.Reach next Fits {} w ∧ w.pending = [] ∧ w.jobset.seconds = 5 ∧
      ¬ w.SecondsAccounted := by
  have hrun : (Lts.runWith next Fits {}
      [.addStep 10 5, .addStep 10 7, .pruneSteps (24 * 60 * 60 + 10)]).map
      (fun w => (w.pending, w.jobset.seconds)) = some ([], 5) := by decide +kernel
  obtain ⟨w, hw, hend⟩ := Option.map_eq_some_iff.mp hrun
  obtain ⟨hpending, hseconds⟩ := Prod.mk.inj hend
  refine ⟨w, Lts.reach_of_runWith hw, hpending, hseconds, fun h => ?_⟩
  have hsum := h.seconds
  rw [hpending, hseconds] at hsum
  exact absurd hsum (by decide)

/-! ## The rows of the database -/

/-- The calls that `addRows` makes. -/
def rowActions (rows : List (Option Int × Option Int)) : List JobsetAction :=
  rows.filterMap (fun row =>
    match row with
    | (some startTime, some stopTime) =>
      some (.addStep startTime ((stopTime - startTime).bmod (2 ^ 32)))
    | _ => none)

/-- The jobset that is made from the rows is one of a run. -/
theorem run_rowActions (w : JobsetLog) (rows : List (Option Int × Option Int)) :
    (Lts.run next w (rowActions rows)).map (fun w => w.jobset) = some (w.jobset.addRows rows) := by
  induction rows generalizing w with
  | nil => rfl
  | cons row rows ih =>
    obtain ⟨startTime | startTime, stopTime | stopTime⟩ := row
    case some.some => exact ih _
    all_goals exact ih w

end JobsetLog

end QueueRunner
