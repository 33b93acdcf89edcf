import Mathlib.Data.List.Basic
import QueueRunner.Lib.Run
import QueueRunner.Machines

/-!
# The counters of a machine

A machine counts its jobs, the jobs it has done, and the jobs that it was
given in the last 30 seconds.  Each count is kept apart from the list of the
jobs, and this module says when the two agree, in runs of the calls on one
machine.

The 30 second window is a start time and a counter.  `has_capacity` opens
a new window when the old one is over, and forgets what the old one
counted.  `remove_job` takes one from the counter of the window that is
open, whenever the removed job was started (`counterSound_runs`), and a new
window can open one second after the last jobs of the old one
(`rateLimited_runs`).

The number of finished steps counts the calls of `remove_job`, and
`idle_since` is set or cleared on each of them (`jobStats_runs`).
-/

namespace QueueRunner

/-! ## What the calls do to the counters -/

namespace Machine

variable (m : Machine) (now : Int)

theorem buildDrvSent_start (job : Job) :
    (m.buildDrvSent now job).stats.jobsInLast30sStart =
      if m.stats.jobsInLast30sCount = 0 then now else m.stats.jobsInLast30sStart := by
  unfold buildDrvSent
  split_ifs <;> rfl

theorem buildDrvSent_count (job : Job) :
    (m.buildDrvSent now job).stats.jobsInLast30sCount = m.stats.jobsInLast30sCount + 1 := by
  unfold buildDrvSent
  split_ifs <;> rfl

theorem buildDrvSent_currentJobs (job : Job) :
    (m.buildDrvSent now job).stats.currentJobs = m.jobs.length + 1 := by
  unfold buildDrvSent
  split_ifs <;> simp [insertJob, Stats.storeCurrentJobs]

theorem buildDrvSent_jobs (job : Job) : (m.buildDrvSent now job).jobs = m.jobs ++ [job] := by
  unfold buildDrvSent
  split_ifs <;> rfl

theorem removeJob_start (drv : StorePath) :
    (m.removeJob now drv).1.stats.jobsInLast30sStart = m.stats.jobsInLast30sStart := by
  unfold removeJob
  dsimp only
  split_ifs <;> rfl

theorem removeJob_count (drv : StorePath) :
    (m.removeJob now drv).1.stats.jobsInLast30sCount =
      if now ≤ m.stats.jobsInLast30sStart + 30 then m.stats.jobsInLast30sCount - 1
      else m.stats.jobsInLast30sCount := by
  show Stats.jobsInLast30sCount (if now ≤ m.stats.jobsInLast30sStart + 30 then _ else _) = _
  split_ifs <;> rfl

/-- `has_capacity` changes a machine only to close a window. -/
theorem hasCapacity_fst (freeFn : MachineFreeFn) (disk dyn : Bool) :
    (m.hasCapacity now freeFn disk dyn).1 =
      if m.stats.jobsInLast30sStart + 30 < now then
        { m with stats := { m.stats with jobsInLast30sStart := 0, jobsInLast30sCount := 0 } }
      else m := by
  unfold hasCapacity
  dsimp only
  split_ifs with hlimit hover
  · exact absurd hlimit.1 (not_le.mpr hover)
  · rfl
  · rfl
  · rfl

theorem hasCapacity_start (freeFn : MachineFreeFn) (disk dyn : Bool) :
    (m.hasCapacity now freeFn disk dyn).1.stats.jobsInLast30sStart =
      if m.stats.jobsInLast30sStart + 30 < now then 0 else m.stats.jobsInLast30sStart := by
  rw [hasCapacity_fst]
  split_ifs <;> rfl

theorem hasCapacity_count (freeFn : MachineFreeFn) (disk dyn : Bool) :
    (m.hasCapacity now freeFn disk dyn).1.stats.jobsInLast30sCount =
      if m.stats.jobsInLast30sStart + 30 < now then 0 else m.stats.jobsInLast30sCount := by
  rw [hasCapacity_fst]
  split_ifs <;> rfl

theorem hasCapacity_currentJobs (freeFn : MachineFreeFn) (disk dyn : Bool) :
    (m.hasCapacity now freeFn disk dyn).1.stats.currentJobs = m.stats.currentJobs := by
  rw [hasCapacity_fst]
  split_ifs <;> rfl

/-- The limit: a machine that has four jobs gets no fifth one in the
window. -/
theorem hasCapacity_limit {freeFn : MachineFreeFn} {disk dyn : Bool}
    (h : (m.hasCapacity now freeFn disk dyn).2 = true) :
    ¬ (now ≤ m.stats.jobsInLast30sStart + 30 ∧ 4 ≤ m.stats.jobsInLast30sCount ∧
      4 ≤ m.stats.currentJobs) := by
  intro hlimit
  unfold hasCapacity at h
  rw [if_pos hlimit] at h
  cases h

end Machine

/-! ## Runs with a clock -/

/-- A call on a machine, with the time at which it reads the clock. -/
inductive MachineAction where
  | buildDrv (now : Int) (job : Job)
  | hasCapacity (now : Int) (freeFn : MachineFreeFn) (disk dyn : Bool)
  | removeJob (now : Int) (drv : StorePath)

/-- The time of a call. -/
def MachineAction.time : MachineAction → Int
  | .buildDrv now _ | .hasCapacity now _ _ _ | .removeJob now _ => now

/-- A machine and what happened to it.  `ready` says that the last call was
`has_capacity` and that it returned true; `started` are the times of all
jobs; `counted` are the jobs that were started since the counter was last
at 0, and that are not removed; `underflow` says that the counter was
decremented at 0. -/
structure MachineLog where
  machine : Machine
  now : Int
  ready : Bool := false
  started : List Int := []
  counted : List (Int × StorePath) := []
  underflow : Bool := false

namespace MachineLog

/-- `jobs_in_last_30s_start`. -/
def start30 (w : MachineLog) : Int := w.machine.stats.jobsInLast30sStart

/-- `jobs_in_last_30s_count`. -/
def count30 (w : MachineLog) : UInt64 := w.machine.stats.jobsInLast30sCount

/-- A machine that has just registered. -/
def new (m : Machine) (now : Int) : MachineLog where
  machine := { m with jobs := [], stats := .new now }
  now := now

/-- `build_drv`, when the message was sent. -/
def sent (w : MachineLog) (now : Int) (job : Job) : MachineLog where
  machine := w.machine.buildDrvSent now job
  now := now
  started := now :: w.started
  counted := (now, job.path) :: (if w.count30 = 0 then [] else w.counted)
  underflow := w.underflow

/-- `build_drv`: nothing happens when the message cannot be sent. -/
def afterBuildDrv (w : MachineLog) (now : Int) (job : Job) : MachineLog :=
  if w.machine.receiverOpen then w.sent now job else { w with now := now, ready := false }

/-- `has_capacity`. -/
def afterHasCapacity (w : MachineLog) (now : Int) (freeFn : MachineFreeFn)
    (disk dyn : Bool) : MachineLog :=
  { w with
    machine := (w.machine.hasCapacity now freeFn disk dyn).1
    now := now
    ready := (w.machine.hasCapacity now freeFn disk dyn).2
    counted := if w.start30 + 30 < now then [] else w.counted }

/-- `remove_job`. -/
def afterRemoveJob (w : MachineLog) (now : Int) (drv : StorePath) : MachineLog :=
  { w with
    machine := (w.machine.removeJob now drv).1
    now := now
    ready := false
    counted := w.counted.filter (fun c => c.2 != drv)
    underflow := w.underflow || decide (now ≤ w.start30 + 30 ∧ w.count30 = 0) }

theorem sent_start30 (w : MachineLog) (now : Int) (job : Job) :
    (w.sent now job).start30 = if w.count30 = 0 then now else w.start30 :=
  Machine.buildDrvSent_start w.machine now job

theorem sent_count30 (w : MachineLog) (now : Int) (job : Job) :
    (w.sent now job).count30 = w.count30 + 1 :=
  Machine.buildDrvSent_count w.machine now job

theorem afterHasCapacity_start30 (w : MachineLog) (now : Int) (freeFn : MachineFreeFn)
    (disk dyn : Bool) :
    (w.afterHasCapacity now freeFn disk dyn).start30 =
      if w.start30 + 30 < now then 0 else w.start30 :=
  Machine.hasCapacity_start w.machine now freeFn disk dyn

theorem afterHasCapacity_count30 (w : MachineLog) (now : Int) (freeFn : MachineFreeFn)
    (disk dyn : Bool) :
    (w.afterHasCapacity now freeFn disk dyn).count30 =
      if w.start30 + 30 < now then 0 else w.count30 :=
  Machine.hasCapacity_count w.machine now freeFn disk dyn

theorem afterRemoveJob_start30 (w : MachineLog) (now : Int) (drv : StorePath) :
    (w.afterRemoveJob now drv).start30 = w.start30 :=
  Machine.removeJob_start w.machine now drv

theorem afterRemoveJob_count30 (w : MachineLog) (now : Int) (drv : StorePath) :
    (w.afterRemoveJob now drv).count30 =
      if now ≤ w.start30 + 30 then w.count30 - 1 else w.count30 :=
  Machine.removeJob_count w.machine now drv

/-- One call, at the time of the last one or later.  A job is only removed
when the machine has one of the derivation. -/
def next (w : MachineLog) (a : MachineAction) : Option MachineLog :=
  if a.time < w.now then none
  else match a with
    | .buildDrv now job => some (w.afterBuildDrv now job)
    | .hasCapacity now freeFn disk dyn => some (w.afterHasCapacity now freeFn disk dyn)
    | .removeJob now drv =>
      if drv ∈ w.machine.jobs.map Job.path then some (w.afterRemoveJob now drv) else none

/-- What one call does. -/
theorem next_cases {w w' : MachineLog} {a : MachineAction} (h : w.next a = some w') :
    w.now ≤ a.time ∧
    ((∃ now job, a = .buildDrv now job ∧ w' = w.afterBuildDrv now job) ∨
      (∃ now freeFn disk dyn, a = .hasCapacity now freeFn disk dyn ∧
        w' = w.afterHasCapacity now freeFn disk dyn) ∨
      (∃ now drv, a = .removeJob now drv ∧ drv ∈ w.machine.jobs.map Job.path ∧
        w' = w.afterRemoveJob now drv)) := by
  unfold next at h
  split at h
  case isTrue => cases h
  case isFalse htime =>
    refine ⟨not_lt.mp htime, ?_⟩
    cases a with
    | buildDrv now job => exact Or.inl ⟨now, job, rfl, (Option.some.inj h).symm⟩
    | hasCapacity now freeFn disk dyn =>
      exact Or.inr (Or.inl ⟨now, freeFn, disk, dyn, rfl, (Option.some.inj h).symm⟩)
    | removeJob now drv =>
      simp only at h
      split at h
      case isTrue hmem => exact Or.inr (Or.inr ⟨now, drv, rfl, hmem, (Option.some.inj h).symm⟩)
      case isFalse => cases h

/-! ## The counter -/

/-- The counter was never decremented at 0, and counts at most the jobs that
were started since the start of the window. -/
structure CounterSound (w : MachineLog) : Prop where
  noUnderflow : w.underflow = false
  atMost : w.count30.toNat ≤ (w.started.filter (fun t => w.start30 ≤ t)).length

/-- A job that is removed in the window was counted in it, and the counter
does not overflow. -/
def CountedOnly (w : MachineLog) : MachineAction → Prop
  | .buildDrv _ _ => w.count30.toNat + 1 < 2 ^ 64
  | .hasCapacity _ _ _ _ => True
  | .removeJob now drv => now ≤ w.start30 + 30 → drv ∈ w.counted.map Prod.snd

instance (w : MachineLog) (a : MachineAction) : Decidable (w.CountedOnly a) :=
  match a with
  | .buildDrv _ _ => inferInstanceAs (Decidable (w.count30.toNat + 1 < 2 ^ 64))
  | .hasCapacity _ _ _ _ => .isTrue trivial
  | .removeJob now drv =>
    inferInstanceAs (Decidable (now ≤ w.start30 + 30 → drv ∈ w.counted.map Prod.snd))

/-- The counter covers the jobs that it has counted. -/
structure Covered (w : MachineLog) : Prop where
  sound : w.CounterSound
  counted : w.counted.length ≤ w.count30.toNat
  opened : w.count30 ≠ 0 → w.start30 ≤ w.now

namespace Covered

variable {w w' : MachineLog}

theorem new (m : Machine) (now : Int) : Covered (MachineLog.new m now) where
  sound := ⟨rfl, Nat.zero_le _⟩
  counted := Nat.zero_le _
  opened := fun h => absurd rfl h

theorem sent (h : w.Covered) {now : Int} {job : Job} (htime : w.now ≤ now)
    (hfits : w.count30.toNat + 1 < 2 ^ 64) : (w.sent now job).Covered := by
  have hcount : (w.sent now job).count30.toNat = w.count30.toNat + 1 := by
    rw [sent_count30, UInt64.toNat_add]
    exact Nat.mod_eq_of_lt hfits
  have hstart := w.sent_start30 now job
  have hcovered := h.counted
  have hbound := h.sound.atMost
  by_cases hzero : w.count30 = 0
  · rw [if_pos hzero] at hstart
    have hnat : w.count30.toNat = 0 := by rw [hzero]; rfl
    refine ⟨⟨h.sound.noUnderflow, ?_⟩, ?_, fun _ => hstart.le⟩
    · rw [hcount, hstart, hnat]
      show 0 + 1 ≤ (List.filter (fun t => decide (now ≤ t)) (now :: w.started)).length
      rw [List.filter_cons_of_pos (by simp), List.length_cons]
      omega
    · show (List.length (_ :: if w.count30 = 0 then [] else w.counted)) ≤ _
      rw [hcount, if_pos hzero, List.length_singleton]
      omega
  · rw [if_neg hzero] at hstart
    have hle : w.start30 ≤ now := (h.opened hzero).trans htime
    refine ⟨⟨h.sound.noUnderflow, ?_⟩, ?_, fun _ => hstart.le.trans hle⟩
    · rw [hcount, hstart]
      show _ ≤ (List.filter (fun t => decide (w.start30 ≤ t)) (now :: w.started)).length
      rw [List.filter_cons_of_pos (by simpa using hle), List.length_cons]
      omega
    · show (List.length (_ :: if w.count30 = 0 then [] else w.counted)) ≤ _
      rw [hcount, if_neg hzero, List.length_cons]
      omega

theorem afterBuildDrv (h : w.Covered) {now : Int} {job : Job} (htime : w.now ≤ now)
    (hfits : w.count30.toNat + 1 < 2 ^ 64) : (w.afterBuildDrv now job).Covered := by
  unfold MachineLog.afterBuildDrv
  split
  case isTrue => exact h.sent htime hfits
  case isFalse =>
    exact ⟨⟨h.sound.noUnderflow, h.sound.atMost⟩, h.counted,
      fun hne => (h.opened hne).trans htime⟩

theorem afterHasCapacity (h : w.Covered) {now : Int} (freeFn : MachineFreeFn)
    (disk dyn : Bool) (htime : w.now ≤ now) :
    (w.afterHasCapacity now freeFn disk dyn).Covered := by
  have hstart := w.afterHasCapacity_start30 now freeFn disk dyn
  have hcount := w.afterHasCapacity_count30 now freeFn disk dyn
  have hcounted : (w.afterHasCapacity now freeFn disk dyn).counted =
    if w.start30 + 30 < now then [] else w.counted := rfl
  by_cases hover : w.start30 + 30 < now
  · rw [if_pos hover] at hcount hcounted
    refine ⟨⟨h.sound.noUnderflow, ?_⟩, ?_, fun hne => absurd hcount hne⟩
    · rw [hcount]
      exact Nat.zero_le _
    · rw [hcounted]
      exact Nat.zero_le _
  · rw [if_neg hover] at hstart hcount hcounted
    refine ⟨⟨h.sound.noUnderflow, ?_⟩, ?_, fun hne => ?_⟩
    · rw [hcount, hstart]
      exact h.sound.atMost
    · rw [hcount, hcounted]
      exact h.counted
    · rw [hcount] at hne
      rw [hstart]
      exact (h.opened hne).trans htime

/-- A job that was counted leaves one less to cover. -/
theorem afterRemoveJob (h : w.Covered) {now : Int} {drv : StorePath} (htime : w.now ≤ now)
    (hcountedOnly : now ≤ w.start30 + 30 → drv ∈ w.counted.map Prod.snd) :
    (w.afterRemoveJob now drv).Covered := by
  have hstart := w.afterRemoveJob_start30 now drv
  have hcount := w.afterRemoveJob_count30 now drv
  have hbound := h.sound.atMost
  have hcovered := h.counted
  by_cases hwindow : now ≤ w.start30 + 30
  · rw [if_pos hwindow] at hcount
    obtain ⟨c, hc, rfl⟩ := List.mem_map.mp (hcountedOnly hwindow)
    have hless : (w.counted.filter (fun c' => c'.2 != c.2)).length < w.counted.length :=
      List.length_filter_lt_length_iff_exists.mpr ⟨c, hc, by simp⟩
    have hpos : 1 ≤ w.count30.toNat := by omega
    have hne : w.count30 ≠ 0 := fun hzero => by simp [hzero] at hpos
    have hminus : (w.afterRemoveJob now c.2).count30.toNat = w.count30.toNat - 1 := by
      rw [hcount]
      exact UInt64.toNat_sub_of_le _ _ hpos
    refine ⟨⟨?_, ?_⟩, ?_, fun _ => ?_⟩
    · show (w.underflow || decide (now ≤ w.start30 + 30 ∧ w.count30 = 0)) = false
      rw [h.sound.noUnderflow, Bool.false_or]
      exact decide_eq_false (fun hboth => hne hboth.2)
    · rw [hminus, hstart]
      show _ ≤ (w.started.filter (fun t => w.start30 ≤ t)).length
      omega
    · rw [hminus]
      show (w.counted.filter (fun c' => c'.2 != c.2)).length ≤ _
      omega
    · rw [hstart]
      exact (h.opened hne).trans htime
  · rw [if_neg hwindow] at hcount
    refine ⟨⟨?_, ?_⟩, ?_, fun hne => ?_⟩
    · show (w.underflow || decide (now ≤ w.start30 + 30 ∧ w.count30 = 0)) = false
      rw [h.sound.noUnderflow, Bool.false_or]
      exact decide_eq_false (fun hboth => hwindow hboth.1)
    · rw [hcount, hstart]
      exact hbound
    · rw [hcount]
      exact (List.length_filter_le _ _).trans hcovered
    · rw [hcount] at hne
      rw [hstart]
      exact (h.opened hne).trans htime

theorem step (h : w.Covered) {a : MachineAction} (hok : w.CountedOnly a)
    (hnext : w.next a = some w') : w'.Covered := by
  obtain ⟨htime, hcases⟩ := next_cases hnext
  obtain ⟨now, job, rfl, rfl⟩ | ⟨now, freeFn, disk, dyn, rfl, rfl⟩ | ⟨now, drv, rfl, _, rfl⟩ :=
    hcases
  · exact h.afterBuildDrv htime hok
  · exact h.afterHasCapacity freeFn disk dyn htime
  · exact h.afterRemoveJob htime hok

end Covered

/-- While a job that is removed in a window was counted in this window, the
counter does not wrap around. -/
theorem counterSound_runs {m : Machine} {now : Int} {w : MachineLog}
    (h : Lts.Reach next CountedOnly (new m now) w) : w.CounterSound :=
  (h.invariant (Covered.new m now) (fun _ _ _ hw hok hnext => hw.step hok hnext)).sound

/-- A machine for the runs below. -/
def sampleMachine : Machine := { systems := ["x86_64-linux"], maxJobs := 10 }

/-- A job for the runs below. -/
def sampleJob (drv : StorePath) : Job where
  internalBuildId := 1
  path := drv
  resolvedDrv := none
  buildId := 1

/-- A job that is started and removed within a window. -/
theorem counterSound_runs_window :
    ∃ w, Lts.Reach next CountedOnly (new sampleMachine 100) w ∧ w.started = [140, 100] ∧
      w.count30 = 0 ∧ w.CounterSound := by
  have hrun : (Lts.runWith next CountedOnly (new sampleMachine 100)
      [.buildDrv 100 (sampleJob ⟨"a.drv"⟩), .hasCapacity 131 .static true true,
       .buildDrv 140 (sampleJob ⟨"b.drv"⟩), .removeJob 141 ⟨"b.drv"⟩]).map
      (fun w => (w.started, w.count30)) = some ([140, 100], 0) := by decide +kernel
  obtain ⟨w, hw, hend⟩ := Option.map_eq_some_iff.mp hrun
  obtain ⟨hstarted, hcount⟩ := Prod.mk.inj hend
  exact ⟨w, Lts.reach_of_runWith hw, hstarted, hcount,
    counterSound_runs (Lts.reach_of_runWith hw)⟩

/-- The job of the first window is removed in the second one, and then the
job of the second window. -/
theorem counterSound_fails_second_window :
    ∃ w, Lts.Reach next Lts.anyStep (new sampleMachine 100) w ∧ w.underflow = true ∧
      w.count30 = 18446744073709551615 ∧ ¬ w.CounterSound := by
  have hrun : (Lts.run next (new sampleMachine 100)
      [.buildDrv 100 (sampleJob ⟨"a.drv"⟩), .hasCapacity 131 .static true true,
       .buildDrv 131 (sampleJob ⟨"b.drv"⟩), .removeJob 140 ⟨"a.drv"⟩, .removeJob 150 ⟨"b.drv"⟩]).map
      (fun w => (w.underflow, w.count30)) = some (true, 18446744073709551615) := by decide +kernel
  obtain ⟨w, hw, hend⟩ := Option.map_eq_some_iff.mp hrun
  obtain ⟨hunderflow, hcount⟩ := Prod.mk.inj hend
  refine ⟨w, Lts.reach_of_run hw, hunderflow, hcount, fun h => ?_⟩
  rw [h.noUnderflow] at hunderflow
  cases hunderflow

/-! ## The rate -/

/-- At most four jobs are started in 30 seconds. -/
def RateLimited (w : MachineLog) : Prop :=
  ∀ t, (w.started.filter (fun x => t ≤ x ∧ x ≤ t + 30)).length ≤ 4

/-- A job is started in the second in which `has_capacity` has returned
true, and none is removed. -/
def AfterCheck (w : MachineLog) : MachineAction → Prop
  | .buildDrv now _ => w.ready = true ∧ now = w.now
  | .hasCapacity _ _ _ _ => True
  | .removeJob _ _ => False

/-- A window that is closed has no job of the last 30 seconds. -/
def ClosedLate (w : MachineLog) : MachineAction → Prop
  | .buildDrv _ _ => True
  | .hasCapacity now _ _ _ => w.start30 + 30 < now → ∀ c ∈ w.counted, c.1 + 30 < now
  | .removeJob _ _ => True

instance (w : MachineLog) (a : MachineAction) : Decidable (w.AfterCheck a) :=
  match a with
  | .buildDrv now _ => inferInstanceAs (Decidable (w.ready = true ∧ now = w.now))
  | .hasCapacity _ _ _ _ => .isTrue trivial
  | .removeJob _ _ => .isFalse id

instance (w : MachineLog) (a : MachineAction) : Decidable (w.ClosedLate a) :=
  match a with
  | .buildDrv _ _ => .isTrue trivial
  | .hasCapacity now _ _ _ =>
    inferInstanceAs (Decidable (w.start30 + 30 < now → ∀ c ∈ w.counted, c.1 + 30 < now))
  | .removeJob _ _ => .isTrue trivial

/-- The jobs of the last 30 seconds are those that the open window counts. -/
structure Windowed (w : MachineLog) : Prop where
  limited : w.RateLimited
  recent : ∃ old, w.started = w.counted.map Prod.fst ++ old ∧ ∀ x ∈ old, x + 30 < w.now
  counted : w.counted.length = w.count30.toNat
  small : w.count30.toNat ≤ 4
  ready : w.ready = true → w.count30.toNat < 4
  jobs : w.machine.jobs.length = w.started.length
  currentJobs : w.machine.stats.currentJobs = w.machine.jobs.length

namespace Windowed

variable {w w' : MachineLog}

theorem new (m : Machine) (now : Int) : Windowed (MachineLog.new m now) where
  limited := fun _ => Nat.zero_le _
  recent := ⟨[], rfl, fun _ hx => absurd hx List.not_mem_nil⟩
  counted := rfl
  small := Nat.zero_le _
  ready := fun h => Bool.noConfusion h
  jobs := rfl
  currentJobs := rfl

/-- A job in an interval with the present second is one of the window. -/
theorem length_recent_le (h : w.Windowed) {t : Int} (ht : w.now ≤ t + 30) :
    (w.started.filter (fun x => t ≤ x ∧ x ≤ t + 30)).length ≤ w.count30.toNat := by
  obtain ⟨old, hstarted, hold⟩ := h.recent
  have hnone : old.filter (fun x => t ≤ x ∧ x ≤ t + 30) = [] := by
    rw [List.filter_eq_nil_iff]
    intro x hx
    have hlate := hold x hx
    simp only [decide_eq_true_eq, not_and, not_le]
    omega
  rw [hstarted, List.filter_append, hnone, List.append_nil, ← h.counted]
  exact (List.length_filter_le _ _).trans_eq (List.length_map _)

theorem sent (h : w.Windowed) {job : Job} (hready : w.ready = true) :
    (w.sent w.now job).Windowed := by
  have hless := h.ready hready
  have hcount : (w.sent w.now job).count30.toNat = w.count30.toNat + 1 := by
    rw [sent_count30, UInt64.toNat_add]
    exact Nat.mod_eq_of_lt (by show _ + 1 < 2 ^ 64; omega)
  -- with the counter at 0, the window has no job to forget
  have hcounted : (if w.count30 = 0 then [] else w.counted) = w.counted := by
    split_ifs with hzero
    · have hlength := h.counted
      rw [hzero] at hlength
      exact (List.eq_nil_of_length_eq_zero hlength).symm
    · rfl
  obtain ⟨old, hstarted, hold⟩ := h.recent
  refine ⟨fun t => ?_, ⟨old, ?_, hold⟩, ?_, ?_, fun hready' => Bool.noConfusion hready', ?_, ?_⟩
  · show (List.filter _ (w.now :: w.started)).length ≤ 4
    by_cases hin : t ≤ w.now ∧ w.now ≤ t + 30
    · rw [List.filter_cons_of_pos (by simpa using hin), List.length_cons]
      have hrecent := h.length_recent_le hin.2
      omega
    · rw [List.filter_cons_of_neg (by simpa using hin)]
      exact h.limited t
  · show w.now :: w.started =
      List.map Prod.fst (_ :: if w.count30 = 0 then [] else w.counted) ++ old
    rw [hcounted, hstarted]
    rfl
  · show List.length (_ :: if w.count30 = 0 then [] else w.counted) = _
    rw [hcounted, hcount, List.length_cons, h.counted]
  · rw [hcount]
    omega
  · show (w.machine.buildDrvSent w.now job).jobs.length = (w.now :: w.started).length
    rw [Machine.buildDrvSent_jobs, List.length_append, h.jobs, List.length_singleton,
      List.length_cons]
  · show (w.machine.buildDrvSent w.now job).stats.currentJobs =
      (w.machine.buildDrvSent w.now job).jobs.length
    rw [Machine.buildDrvSent_currentJobs, Machine.buildDrvSent_jobs, List.length_append,
      List.length_singleton]

theorem afterHasCapacity (h : w.Windowed) {now : Int} {freeFn : MachineFreeFn}
    {disk dyn : Bool} (htime : w.now ≤ now)
    (hlate : w.ClosedLate (.hasCapacity now freeFn disk dyn)) :
    (w.afterHasCapacity now freeFn disk dyn).Windowed := by
  have hcount := w.afterHasCapacity_count30 now freeFn disk dyn
  have hjobs : (w.afterHasCapacity now freeFn disk dyn).machine.jobs = w.machine.jobs :=
    Machine.hasCapacity_jobs w.machine now freeFn disk dyn
  have hcurrent : (w.afterHasCapacity now freeFn disk dyn).machine.stats.currentJobs =
      w.machine.stats.currentJobs :=
    Machine.hasCapacity_currentJobs w.machine now freeFn disk dyn
  have hcounted : (w.afterHasCapacity now freeFn disk dyn).counted =
    if w.start30 + 30 < now then [] else w.counted := rfl
  obtain ⟨old, hstarted, hold⟩ := h.recent
  by_cases hover : w.start30 + 30 < now
  · rw [if_pos hover] at hcount hcounted
    have hzero : (w.afterHasCapacity now freeFn disk dyn).count30.toNat = 0 := by
      rw [hcount]
      rfl
    refine ⟨h.limited, ⟨w.started, by rw [hcounted]; rfl, fun x hx => ?_⟩, ?_, ?_, ?_, ?_, ?_⟩
    · rw [hstarted] at hx
      rcases List.mem_append.mp hx with hx | hx
      · obtain ⟨c, hc, rfl⟩ := List.mem_map.mp hx
        exact hlate hover c hc
      · exact lt_of_lt_of_le (hold x hx) htime
    · rw [hcounted, hzero, List.length_nil]
    · omega
    · intro _
      omega
    · rw [hjobs]
      exact h.jobs
    · rw [hjobs, hcurrent]
      exact h.currentJobs
  · rw [if_neg hover] at hcount hcounted
    refine ⟨h.limited, ⟨old, by rw [hcounted]; exact hstarted, fun x hx => ?_⟩, ?_, ?_, ?_, ?_, ?_⟩
    · exact lt_of_lt_of_le (hold x hx) htime
    · rw [hcounted, hcount, h.counted]
    · rw [hcount]
      exact h.small
    · intro hfree
      have hlimit := Machine.hasCapacity_limit w.machine now hfree
      rw [hcount]
      by_contra hfour
      refine hlimit ⟨not_lt.mp hover, ?_, ?_⟩
      · exact UInt64.le_iff_toNat_le.mpr (not_lt.mp hfour)
      · rw [h.currentJobs, h.jobs, hstarted, List.length_append, List.length_map, h.counted]
        omega
    · rw [hjobs]
      exact h.jobs
    · rw [hjobs, hcurrent]
      exact h.currentJobs

theorem step (h : w.Windowed) {a : MachineAction} (hok : w.AfterCheck a ∧ w.ClosedLate a)
    (hnext : w.next a = some w') : w'.Windowed := by
  obtain ⟨htime, hcases⟩ := next_cases hnext
  obtain ⟨now, job, rfl, rfl⟩ | ⟨now, freeFn, disk, dyn, rfl, rfl⟩ | ⟨now, drv, rfl, _, rfl⟩ :=
    hcases
  · obtain ⟨hready, rfl⟩ := hok.1
    unfold MachineLog.afterBuildDrv
    split
    case isTrue => exact h.sent hready
    case isFalse =>
      exact ⟨h.limited, h.recent, h.counted, h.small, fun h => Bool.noConfusion h, h.jobs,
        h.currentJobs⟩
  · exact h.afterHasCapacity htime hok.2
  · exact hok.1.elim

end Windowed

/-- While a window is closed only when its jobs are 30 seconds old, the
limit holds for any 30 seconds. -/
theorem rateLimited_runs {m : Machine} {now : Int} {w : MachineLog}
    (h : Lts.Reach next (fun w a => w.AfterCheck a ∧ w.ClosedLate a) (new m now) w) :
    w.RateLimited :=
  (h.invariant (Windowed.new m now) (fun _ _ _ hw hok hnext => hw.step hok hnext)).limited

/-- A `has_capacity` that returns true and the start of a job. -/
def startJob (now : Int) (drv : StorePath) : List MachineAction :=
  [.hasCapacity now .static true true, .buildDrv now (sampleJob drv)]

/-- Four jobs at once, and one of the next window. -/
theorem rateLimited_runs_two_windows :
    ∃ w, Lts.Reach next (fun w a => w.AfterCheck a ∧ w.ClosedLate a) (new sampleMachine 100) w ∧
      w.started = [131, 100, 100, 100, 100] ∧ w.RateLimited := by
  have hrun : (Lts.runWith next (fun w a => w.AfterCheck a ∧ w.ClosedLate a)
      (new sampleMachine 100)
      (startJob 100 ⟨"a.drv"⟩ ++ startJob 100 ⟨"b.drv"⟩ ++ startJob 100 ⟨"c.drv"⟩ ++
        startJob 100 ⟨"d.drv"⟩ ++ startJob 131 ⟨"e.drv"⟩)).map (fun w => w.started) =
      some [131, 100, 100, 100, 100] := by decide +kernel
  obtain ⟨w, hw, hstarted⟩ := Option.map_eq_some_iff.mp hrun
  exact ⟨w, Lts.reach_of_runWith hw, hstarted, rateLimited_runs (Lts.reach_of_runWith hw)⟩

/-- A window is opened by one job and gets three more in its last second.
The next window opens a second later with two jobs. -/
theorem rateLimited_fails_next_window :
    ∃ w, Lts.Reach next AfterCheck (new sampleMachine 100) w ∧
      w.started = [131, 131, 130, 130, 130, 100] ∧ ¬ w.RateLimited := by
  have hrun : (Lts.runWith next AfterCheck (new sampleMachine 100)
      (startJob 100 ⟨"a.drv"⟩ ++ startJob 130 ⟨"b.drv"⟩ ++ startJob 130 ⟨"c.drv"⟩ ++
        startJob 130 ⟨"d.drv"⟩ ++ startJob 131 ⟨"e.drv"⟩ ++ startJob 131 ⟨"f.drv"⟩)).map
      (fun w => w.started) = some [131, 131, 130, 130, 130, 100] := by decide +kernel
  obtain ⟨w, hw, hstarted⟩ := Option.map_eq_some_iff.mp hrun
  refine ⟨w, Lts.reach_of_runWith hw, hstarted, fun h => ?_⟩
  have hfive := h 101
  rw [hstarted] at hfive
  exact absurd hfive (by decide)

end MachineLog

/-! ## The jobs of a machine -/

/-- A call that changes the list of the jobs. -/
inductive JobsAction where
  | insertJob (now : Int) (job : Job)
  | removeJob (now : Int) (drv : StorePath)

/-- A machine, with the time at which its list of jobs last became empty and
the number of the jobs that left it. -/
structure JobsLog where
  machine : Machine
  emptied : Int := 0
  removed : Nat := 0

namespace JobsLog

/-- The jobs that `remove_job` removes. -/
def matching (w : JobsLog) (drv : StorePath) : List Job :=
  w.machine.jobs.filter (fun j => j.path == drv)

/-- The first job of a machine. -/
def first (m : Machine) (now : Int) (job : Job) : JobsLog where
  machine := ({ m with jobs := [], stats := .new now } : Machine).insertJob now job

/-- `remove_job`. -/
def afterRemoveJob (w : JobsLog) (now : Int) (drv : StorePath) : JobsLog where
  machine := (w.machine.removeJob now drv).1
  emptied :=
    if w.machine.jobs ≠ [] ∧ (w.machine.removeJob now drv).1.jobs = [] then now else w.emptied
  removed := w.removed + (w.matching drv).length

/-- One call. -/
def next (w : JobsLog) : JobsAction → Option JobsLog
  | .insertJob now job => some { w with machine := w.machine.insertJob now job }
  | .removeJob now drv => some (w.afterRemoveJob now drv)

/-- The counters agree with the list of the jobs. -/
structure JobStats (w : JobsLog) : Prop where
  currentJobs : w.machine.stats.currentJobs = w.machine.jobs.length
  idle : w.machine.stats.idleSince ≠ 0 ↔ w.machine.jobs = []
  idleSince : w.machine.jobs = [] → w.machine.stats.idleSince = w.emptied
  nrStepsDone : w.machine.stats.nrStepsDone = w.removed

/-- `remove_job` finds one job, and the clock is not at second 0. -/
def OneJob (w : JobsLog) : JobsAction → Prop
  | .insertJob _ _ => True
  | .removeJob now drv => (w.matching drv).length = 1 ∧ now ≠ 0

instance (w : JobsLog) (a : JobsAction) : Decidable (w.OneJob a) :=
  match a with
  | .insertJob _ _ => .isTrue trivial
  | .removeJob now drv => inferInstanceAs (Decidable ((w.matching drv).length = 1 ∧ now ≠ 0))

/-- A call of `remove_job` stores the number of the jobs that are left, and
counts as one step. -/
theorem removeJob_stats (w : JobsLog) (now : Int) (drv : StorePath) :
    let stats := (w.afterRemoveJob now drv).machine.stats
    stats.currentJobs = (w.afterRemoveJob now drv).machine.jobs.length ∧
      stats.nrStepsDone = w.machine.stats.nrStepsDone + 1 ∧
      stats.idleSince = if (w.afterRemoveJob now drv).machine.jobs = [] ∧
        w.machine.stats.idleSince = 0 then now else 0 := by
  unfold afterRemoveJob Machine.removeJob
  dsimp only
  split_ifs <;> simp_all [Stats.storeCurrentJobs]

namespace JobStats

variable {w w' : JobsLog}

theorem insertJob (h : w.JobStats) (now : Int) (job : Job) :
    JobStats { w with machine := w.machine.insertJob now job } := by
  have hne : w.machine.jobs ++ [job] ≠ [] := by simp
  have hidle : (w.machine.insertJob now job).stats.idleSince = 0 := by
    show (if (w.machine.jobs ++ [job]).length = 0 ∧ w.machine.stats.idleSince = 0 then now
      else 0) = 0
    rw [if_neg (by simp)]
  exact ⟨rfl, ⟨fun hzero => absurd hidle hzero, fun hnil => absurd hnil hne⟩,
    fun hnil => absurd hnil hne, h.nrStepsDone⟩

theorem afterRemoveJob (h : w.JobStats) {now : Int} {drv : StorePath}
    (hone : w.OneJob (.removeJob now drv)) : (w.afterRemoveJob now drv).JobStats := by
  obtain ⟨hlength, hnow⟩ := hone
  obtain ⟨hcurrent, hdone, hidle⟩ := w.removeJob_stats now drv
  -- a machine with a job is not idle
  have hjobs : w.machine.jobs ≠ [] := by
    intro hnil
    unfold matching at hlength
    rw [hnil] at hlength
    cases hlength
  have hbusy : w.machine.stats.idleSince = 0 := not_ne_iff.mp (mt h.idle.mp hjobs)
  have hemptied : (w.afterRemoveJob now drv).emptied =
    if w.machine.jobs ≠ [] ∧ (w.afterRemoveJob now drv).machine.jobs = [] then now
    else w.emptied := rfl
  refine ⟨hcurrent, ?_, fun hnil => ?_, ?_⟩
  · rw [hidle]
    by_cases hnil : (w.afterRemoveJob now drv).machine.jobs = []
    · rw [if_pos ⟨hnil, hbusy⟩]
      exact ⟨fun _ => hnil, fun _ => hnow⟩
    · rw [if_neg (fun hboth => hnil hboth.1)]
      exact ⟨fun hne => absurd rfl hne, fun hnil' => absurd hnil' hnil⟩
  · rw [hidle, if_pos ⟨hnil, hbusy⟩, hemptied, if_pos ⟨hjobs, hnil⟩]
  · rw [hdone, h.nrStepsDone]
    show w.removed + 1 = w.removed + (w.matching drv).length
    rw [hlength]

theorem first (m : Machine) (now : Int) (job : Job) : JobStats (JobsLog.first m now job) where
  currentJobs := rfl
  idle := ⟨fun h => absurd rfl h, fun h => nomatch h⟩
  idleSince := fun h => nomatch h
  nrStepsDone := rfl

theorem step (h : w.JobStats) {a : JobsAction} (hok : w.OneJob a)
    (hnext : w.next a = some w') : w'.JobStats := by
  cases a with
  | insertJob now job =>
    cases hnext
    exact h.insertJob now job
  | removeJob now drv =>
    cases hnext
    exact h.afterRemoveJob hok

end JobStats

/-- While each call of `remove_job` removes one job, the counters follow the
list of the jobs. -/
theorem jobStats_runs {m : Machine} {now : Int} {job : Job} {w : JobsLog}
    (h : Lts.Reach next OneJob (first m now job) w) : w.JobStats :=
  h.invariant (JobStats.first m now job) (fun _ _ _ hw hok hnext => hw.step hok hnext)

/-- Two jobs of two derivations are removed. -/
theorem jobStats_runs_two :
    ∃ w, Lts.Reach next OneJob
        (first MachineLog.sampleMachine 10 (MachineLog.sampleJob ⟨"a.drv"⟩)) w ∧
      w.machine.jobs = [] ∧ w.machine.stats.idleSince = 30 ∧ w.removed = 2 ∧ w.JobStats := by
  have hrun : (Lts.runWith next OneJob
      (first MachineLog.sampleMachine 10 (MachineLog.sampleJob ⟨"a.drv"⟩))
      [.insertJob 11 (MachineLog.sampleJob ⟨"b.drv"⟩), .removeJob 20 ⟨"a.drv"⟩,
       .removeJob 30 ⟨"b.drv"⟩]).map
      (fun w => (w.machine.jobs, w.machine.stats.idleSince, w.removed)) = some ([], 30, 2) := by
    decide +kernel
  obtain ⟨w, hw, hend⟩ := Option.map_eq_some_iff.mp hrun
  simp only [Prod.mk.injEq] at hend
  obtain ⟨hjobs, hidle, hremoved⟩ := hend
  exact ⟨w, Lts.reach_of_runWith hw, hjobs, hidle, hremoved,
    jobStats_runs (Lts.reach_of_runWith hw)⟩

/-- The job of a machine is removed twice. -/
theorem jobStats_fails_removed_twice :
    ∃ w, Lts.Reach next Lts.anyStep
        (first MachineLog.sampleMachine 10 (MachineLog.sampleJob ⟨"a.drv"⟩)) w ∧
      w.machine.jobs = [] ∧ w.machine.stats.idleSince = 0 ∧ w.machine.stats.nrStepsDone = 2 ∧
      w.removed = 1 ∧ ¬ w.JobStats := by
  have hrun : (Lts.run next (first MachineLog.sampleMachine 10 (MachineLog.sampleJob ⟨"a.drv"⟩))
      [.removeJob 20 ⟨"a.drv"⟩, .removeJob 30 ⟨"a.drv"⟩]).map
      (fun w => (w.machine.jobs, w.machine.stats.idleSince, w.machine.stats.nrStepsDone,
        w.removed)) = some ([], 0, 2, 1) := by decide +kernel
  obtain ⟨w, hw, hend⟩ := Option.map_eq_some_iff.mp hrun
  simp only [Prod.mk.injEq] at hend
  obtain ⟨hjobs, hidle, hdone, hremoved⟩ := hend
  refine ⟨w, Lts.reach_of_run hw, hjobs, hidle, hdone, hremoved, fun h => ?_⟩
  exact h.idle.mpr hjobs hidle

end JobsLog

end QueueRunner
