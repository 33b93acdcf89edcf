import QueueRunner.Lib.StableSort
import QueueRunner.MachineStats
import QueueRunner.Registration
import QueueRunner.Reload

/-!
# The choice of a machine

`get_machine_for_system` of `queue-runner/src/state/machine.rs` takes the
first machine in the list of the system that has capacity and fits the
features.  The lists are sorted by score and, for machines of the same
score, by the number of their jobs.  They are sorted when a machine
registers, and the scores do not change afterwards, so the machine that is
found has the best score in every run.

The number of jobs changes with every job that is started or finished.
The lists are not sorted again then, and a machine with more jobs can stay
in front of one with fewer jobs.  `bestMachine_runs` says that this is the
only way to a choice that is not the best one.
-/

namespace QueueRunner

/-! ## The search -/

namespace Machine

theorem hasCapacity_acceptsFeatures (m : Machine) (now : Int) (freeFn : MachineFreeFn)
    (disk dyn : Bool) (required : List String) :
    (m.hasCapacity now freeFn disk dyn).1.acceptsFeatures required =
      m.acceptsFeatures required := by
  rw [hasCapacity_fst]
  split_ifs <;> rfl

/-- What `has_capacity` answers does not change with its own reset of the
window. -/
theorem hasCapacity_again (m : Machine) (now : Int) (freeFn : MachineFreeFn)
    (disk dyn : Bool) :
    ((m.hasCapacity now freeFn disk dyn).1.hasCapacity now freeFn disk dyn).2 =
      (m.hasCapacity now freeFn disk dyn).2 := by
  rw [hasCapacity_fst]
  split_ifs with hover
  · have hlimit : ¬ (now ≤ m.stats.jobsInLast30sStart + 30 ∧
        4 ≤ m.stats.jobsInLast30sCount ∧ 4 ≤ m.stats.currentJobs) :=
      fun h => absurd h.1 (not_le.mpr hover)
    have hzero : ¬ (now ≤ (0 : Int) + 30 ∧ (4 : UInt64) ≤ 0 ∧ 4 ≤ m.stats.currentJobs) :=
      fun h => absurd h.2.1 (by decide)
    unfold hasCapacity
    dsimp only
    rw [if_neg hzero, if_neg hlimit, if_pos hover]
    cases freeFn <;> split_ifs <;> rfl
  · rfl

end Machine

namespace Machines

/-- The test of `get_machine_for_system` for one machine.  Without a
`free_fn` there is no test of the capacity. -/
def eligible (ms : Machines) (now : Int) (freeFn : Option MachineFreeFn)
    (disk dyn : MachineRef → Bool) (required : List String) (m : MachineRef) : Bool :=
  (match freeFn with
    | some freeFn => ((ms.machine m).hasCapacity now freeFn (disk m) (dyn m)).2
    | none => true) &&
  (ms.machine m).acceptsFeatures required

/-- `get_machine_for_system`. -/
def getMachineForSystem (ms : Machines) (now : Int) (freeFn : Option MachineFreeFn)
    (disk dyn : MachineRef → Bool) (system : System) (required : List String)
    (order : List MachineRef) : Machines × Option MachineRef :=
  match freeFn with
  | some freeFn => ms.findFree now freeFn disk dyn required (ms.candidates system order)
  | none => (ms, (ms.candidates system order).find? (fun m =>
      (ms.machine m).acceptsFeatures required))

/-- The test of a machine does not change with the windows that the search
has closed. -/
theorem eligible_modifyMachine (ms : Machines) (now : Int) (freeFn : MachineFreeFn)
    (disk dyn : MachineRef → Bool) (required : List String) (m o : MachineRef) :
    (ms.modifyMachine m (fun _ =>
      ((ms.machine m).hasCapacity now freeFn (disk m) (dyn m)).1)).eligible now (some freeFn)
        disk dyn required o = ms.eligible now (some freeFn) disk dyn required o := by
  unfold eligible modifyMachine
  dsimp only
  by_cases ho : o = m
  · subst ho
    rw [Function.update_self, Machine.hasCapacity_again, Machine.hasCapacity_acceptsFeatures]
  · rw [Function.update_of_ne ho]

/-- The search finds the first machine that passes the test. -/
theorem findFree_snd (ms : Machines) (now : Int) (freeFn : MachineFreeFn)
    (disk dyn : MachineRef → Bool) (required : List String) (l : List MachineRef) :
    (ms.findFree now freeFn disk dyn required l).2 =
      l.find? (ms.eligible now (some freeFn) disk dyn required) := by
  induction l generalizing ms with
  | nil => rfl
  | cons m l ih =>
    unfold findFree
    dsimp only
    rw [Machine.hasCapacity_acceptsFeatures]
    cases helig : ms.eligible now (some freeFn) disk dyn required m with
    | true =>
      rw [List.find?_cons_of_pos helig]
      exact congrArg Prod.snd (if_pos helig)
    | false =>
      rw [List.find?_cons_of_neg (by simp [helig])]
      have hnot : ¬ ms.eligible now (some freeFn) disk dyn required m = true := by simp [helig]
      refine (congrArg Prod.snd (if_neg hnot)).trans ?_
      rw [ih]
      congr 1
      funext o
      exact eligible_modifyMachine ms now freeFn disk dyn required m o

theorem getMachineForSystem_snd (ms : Machines) (now : Int) (freeFn : Option MachineFreeFn)
    (disk dyn : MachineRef → Bool) {system : System} (hsystem : system ≠ "builtin")
    (required : List String) (order : List MachineRef) :
    (ms.getMachineForSystem now freeFn disk dyn system required order).2 =
      (ms.listOf system).find? (ms.eligible now freeFn disk dyn required) := by
  have hcandidates : ms.candidates system order = ms.listOf system := if_neg hsystem
  unfold getMachineForSystem
  cases freeFn with
  | some freeFn =>
    dsimp only
    rw [findFree_snd, hcandidates]
  | none =>
    dsimp only
    rw [hcandidates]
    rfl

end Machines

/-! ## Runs -/

/-- The calls that change the machines. -/
inductive ChoiceAction where
  | insertMachine (id : Uuid) (record : Machine)
  | removeMachine (id : Uuid)
  | buildDrv (m : MachineRef) (now : Int) (job : Job)
  | removeJob (m : MachineRef) (now : Int) (drv : StorePath)
  | getMachineForSystem (now : Int) (freeFn : Option MachineFreeFn)
      (disk dyn : MachineRef → Bool) (system : System) (required : List String)
      (order : List MachineRef)

namespace MachineTable

variable {sortFn : MachineSortFn} {t t' : MachineTable}

/-- One call, with a fixed sort function.  A machine registers without
jobs, and under an id that no other machine has. -/
def choose (sortFn : MachineSortFn) (t : MachineTable) : ChoiceAction → Option MachineTable
  | .insertMachine id record =>
    if t.inner.byUuid.lookup id = none then
      some (t.insertMachine id
        { record with jobs := [], stats := .new record.stats.idleSince } sortFn)
    else none
  | .removeMachine id => some (t.removeMachine id)
  | .buildDrv m now job =>
    some { t with inner := t.inner.modifyMachine m (fun r => r.buildDrvSent now job) }
  | .removeJob m now drv => some { t with inner := (t.inner.removeJob m now drv).1 }
  | .getMachineForSystem now freeFn disk dyn system required order => some { t with
      inner := (t.inner.getMachineForSystem now freeFn disk dyn system required order).1 }

/-- The number of the jobs of a machine. -/
def nrJobs (t : MachineTable) (m : MachineRef) : Nat := (t.inner.machine m).jobs.length

/-- The score of a machine. -/
def score (t : MachineTable) (sortFn : MachineSortFn) (m : MachineRef) : Int :=
  (t.inner.machine m).score sortFn

/-- A registered machine that a request for a system can go to. -/
structure Eligible (t : MachineTable) (now : Int) (freeFn : Option MachineFreeFn)
    (disk dyn : MachineRef → Bool) (system : System) (required : List String)
    (m : MachineRef) : Prop where
  registered : m ∈ t.inner.byUuid.values
  system : system ∈ (t.inner.machine m).systems
  eligible : t.inner.eligible now freeFn disk dyn required m = true

/-- Every search for a system finds an eligible machine when there is one,
and then one of the best score and, among these, with the fewest jobs. -/
structure BestMachine (sortFn : MachineSortFn) (t : MachineTable) : Prop where
  none_iff : ∀ now freeFn disk dyn system required order, system ≠ "builtin" →
    ((t.inner.getMachineForSystem now freeFn disk dyn system required order).2 = none ↔
      ∀ m, ¬ t.Eligible now freeFn disk dyn system required m)
  found : ∀ now freeFn disk dyn system required order m, system ≠ "builtin" →
    (t.inner.getMachineForSystem now freeFn disk dyn system required order).2 = some m →
    t.Eligible now freeFn disk dyn system required m ∧
      ∀ o, t.Eligible now freeFn disk dyn system required o →
        t.score sortFn o ≤ t.score sortFn m ∧
        (t.score sortFn o = t.score sortFn m → t.nrJobs m ≤ t.nrJobs o)

/-- A job that is started or removed leaves its machine at its place among
the machines of the same score. -/
def KeepsPlace (sortFn : MachineSortFn) (t : MachineTable) : ChoiceAction → Prop
  | .buildDrv m _ _ => ∀ l ∈ t.inner.bySystem.values, l.Pairwise (fun a b =>
      a = m → b ≠ m → t.score sortFn a = t.score sortFn b → t.nrJobs a < t.nrJobs b)
  | .removeJob m _ drv => ∀ l ∈ t.inner.bySystem.values, l.Pairwise (fun a b =>
      b = m → a ≠ m → t.score sortFn a = t.score sortFn b →
        t.nrJobs a ≤ ((t.inner.machine m).jobs.filter (fun j => j.path != drv)).length)
  | .insertMachine _ _ => True
  | .removeMachine _ => True
  | .getMachineForSystem _ _ _ _ _ _ _ => True

instance (sortFn : MachineSortFn) (t : MachineTable) (a : ChoiceAction) :
    Decidable (KeepsPlace sortFn t a) :=
  match a with
  | .buildDrv m _ _ => inferInstanceAs (Decidable (∀ l ∈ t.inner.bySystem.values,
      l.Pairwise (fun a b =>
        a = m → b ≠ m → t.score sortFn a = t.score sortFn b → t.nrJobs a < t.nrJobs b)))
  | .removeJob m _ drv => inferInstanceAs (Decidable (∀ l ∈ t.inner.bySystem.values,
      l.Pairwise (fun a b => b = m → a ≠ m → t.score sortFn a = t.score sortFn b →
        t.nrJobs a ≤ ((t.inner.machine m).jobs.filter (fun j => j.path != drv)).length)))
  | .insertMachine _ _ => .isTrue trivial
  | .removeMachine _ => .isTrue trivial
  | .getMachineForSystem _ _ _ _ _ _ _ => .isTrue trivial

/-! ## What holds in every run -/

/-- The lists hold the registered machines, by score, and each machine
counts its jobs. -/
structure Scored (sortFn : MachineSortFn) (t : MachineTable) : Prop where
  numbered : t.Numbered
  listed : t.Listed
  currentJobs : ∀ m, (t.inner.machine m).stats.currentJobs = t.nrJobs m
  scored : ∀ system, (t.inner.listOf system).Pairwise (fun a b =>
    t.score sortFn b ≤ t.score sortFn a)

/-- Machines of the same score are listed by the number of their jobs. -/
def InOrder (sortFn : MachineSortFn) (t : MachineTable) : Prop :=
  ∀ system, (t.inner.listOf system).Pairwise (fun a b =>
    t.score sortFn a = t.score sortFn b → t.nrJobs a ≤ t.nrJobs b)

/-- What a job and a search leave as it is. -/
structure KeepsLists (t t' : MachineTable) : Prop where
  registry : Machines.SameRegistry t.inner t'.inner
  score : ∀ m, (t'.inner.machine m).score = (t.inner.machine m).score

namespace KeepsLists

theorem listOf (h : KeepsLists t t') (system : System) :
    t'.inner.listOf system = t.inner.listOf system := by
  unfold Machines.listOf
  rw [h.registry.bySystem]

theorem score_eq (h : KeepsLists t t') (m : MachineRef) :
    t'.score sortFn m = t.score sortFn m :=
  congrFun (h.score m) sortFn

theorem scored (h : KeepsLists t t') (hscored : t.Scored sortFn)
    (hcurrent : ∀ m, (t'.inner.machine m).stats.currentJobs = t'.nrJobs m) :
    t'.Scored sortFn where
  numbered :=
    { byUuid := by
        rw [h.registry.byUuid, h.registry.fresh]
        exact hscored.numbered.byUuid
      listed := fun system m hm => by
        rw [h.listOf] at hm
        rw [h.registry.fresh]
        exact hscored.numbered.listed system m hm }
  listed system m := by
    rw [h.listOf, h.registry.byUuid, h.registry.systems]
    exact hscored.listed system m
  currentJobs := hcurrent
  scored system := by
    rw [h.listOf]
    refine (hscored.scored system).imp (fun hle => ?_)
    rw [h.score_eq, h.score_eq]
    exact hle

end KeepsLists

/-- The list of a system is one of the lists, or empty. -/
theorem pairwise_listOf {r : MachineRef → MachineRef → Prop}
    (h : ∀ l ∈ t.inner.bySystem.values, l.Pairwise r) (system : System) :
    (t.inner.listOf system).Pairwise r := by
  unfold Machines.listOf
  cases hl : t.inner.bySystem.lookup system with
  | none => exact List.Pairwise.nil
  | some l => exact h l (Map.mem_values_iff.mpr ⟨system, hl⟩)

/-! ### Machines -/

/-- After a registration every list is sorted. -/
theorem pairwise_insertMachine (id : Uuid) (record : Machine) (system : System) :
    ((t.insertMachine id record sortFn).inner.listOf system).Pairwise (fun a b =>
      ((t.insertMachine id record sortFn).inner.machine a).sortLe sortFn
        ((t.insertMachine id record sortFn).inner.machine b) = true) := by
  apply pairwise_listOf
  intro l hl
  obtain ⟨system, hlookup⟩ := Map.mem_values_iff.mp hl
  exact (Machines.pairwise_sort _ _ hlookup).imp (fun hle => hle)

theorem Scored.insertMachine (h : t.Scored sortFn) {id : Uuid} (record : Machine)
    (hid : t.inner.byUuid.lookup id = none) :
    (t.insertMachine id { record with
      jobs := [], stats := .new record.stats.idleSince } sortFn).Scored sortFn := by
  refine ⟨h.numbered.insertMachine id _ sortFn,
    h.listed.insertMachine h.numbered _ sortFn (fun m hm => ?_), fun m => ?_, fun system => ?_⟩
  · rw [hid] at hm
    cases hm
  · unfold nrJobs
    rw [machine_insertMachine]
    split_ifs
    · rfl
    · exact h.currentJobs m
  · refine (pairwise_insertMachine id _ system).imp (fun hle => ?_)
    rcases Machine.sortLe_iff.mp hle with hlt | ⟨heq, -⟩
    · exact hlt.le
    · exact heq.ge

theorem Scored.inOrder_insertMachine {id : Uuid} {record : Machine}
    (h : (t.insertMachine id record sortFn).Scored sortFn) :
    (t.insertMachine id record sortFn).InOrder sortFn := by
  intro system
  refine (pairwise_insertMachine id record system).imp (fun {a b} hle heq => ?_)
  rcases Machine.sortLe_iff.mp hle with hlt | ⟨-, hjobs⟩
  · exact absurd heq hlt.ne'
  · rw [h.currentJobs, h.currentJobs] at hjobs
    exact hjobs

/-- A removal takes machines from the lists and changes none. -/
theorem sublist_removeMachine (id : Uuid) (system : System) :
    ((t.removeMachine id).inner.listOf system).Sublist (t.inner.listOf system) ∧
      (t.removeMachine id).inner.machine = t.inner.machine := by
  cases hm : t.inner.byUuid.lookup id with
  | none =>
    rw [removeMachine_none hm]
    exact ⟨List.Sublist.refl _, rfl⟩
  | some m =>
    rw [removeMachine_eq hm]
    refine ⟨?_, rfl⟩
    unfold Machines.listOf
    dsimp only
    rw [Machines.getD_foldl_retainSystem]
    split_ifs
    · exact List.filter_sublist
    · exact List.Sublist.refl _

theorem Scored.removeMachine (h : t.Scored sortFn) (id : Uuid) :
    (t.removeMachine id).Scored sortFn := by
  refine ⟨h.numbered.removeMachine id, h.listed.removeMachine h.numbered id, fun m => ?_,
    fun system => ?_⟩
  · obtain ⟨-, hmachine⟩ := t.sublist_removeMachine id ""
    unfold nrJobs
    rw [hmachine]
    exact h.currentJobs m
  · obtain ⟨hsub, hmachine⟩ := t.sublist_removeMachine id system
    unfold score
    rw [hmachine]
    exact (h.scored system).sublist hsub

theorem InOrder.removeMachine (h : t.InOrder sortFn) (id : Uuid) :
    (t.removeMachine id).InOrder sortFn := by
  intro system
  obtain ⟨hsub, hmachine⟩ := t.sublist_removeMachine id system
  unfold score nrJobs
  rw [hmachine]
  exact (h system).sublist hsub

/-! ### Jobs -/

/-- One machine gets or loses jobs. -/
theorem keepsLists_modifyMachine (m : MachineRef) {f : Machine → Machine}
    (hf : (f (t.inner.machine m)).systems = (t.inner.machine m).systems ∧
      (f (t.inner.machine m)).acceptsFeatures = (t.inner.machine m).acceptsFeatures ∧
      (f (t.inner.machine m)).score = (t.inner.machine m).score) :
    KeepsLists t { t with inner := t.inner.modifyMachine m f } := by
  refine ⟨.modifyMachine t.inner m ⟨hf.1, hf.2.1⟩, fun o => ?_⟩
  by_cases ho : o = m
  · subst ho
    simpa [Machines.modifyMachine] using hf.2.2
  · simp [Machines.modifyMachine, ho]

theorem nrJobs_modifyMachine (m : MachineRef) (f : Machine → Machine) (o : MachineRef) :
    nrJobs { t with inner := t.inner.modifyMachine m f } o =
      if o = m then (f (t.inner.machine m)).jobs.length else t.nrJobs o := by
  unfold nrJobs Machines.modifyMachine
  dsimp only
  rw [Function.update_apply]
  split_ifs <;> rfl

theorem Scored.modifyMachine (h : t.Scored sortFn) (m : MachineRef) {f : Machine → Machine}
    (hlists : KeepsLists t { t with inner := t.inner.modifyMachine m f })
    (hf : (f (t.inner.machine m)).stats.currentJobs = (f (t.inner.machine m)).jobs.length) :
    Scored sortFn { t with inner := t.inner.modifyMachine m f } := by
  refine hlists.scored h (fun o => ?_)
  by_cases ho : o = m
  · subst ho
    rw [nrJobs_modifyMachine, if_pos rfl]
    simpa [Machines.modifyMachine] using hf
  · rw [nrJobs_modifyMachine, if_neg ho]
    simpa [Machines.modifyMachine, ho] using h.currentJobs o

/-- A machine that gets a job stays in front of machines with more jobs. -/
theorem InOrder.more_jobs (h : t.InOrder sortFn) {m : MachineRef} {f : Machine → Machine}
    (hlists : KeepsLists t { t with inner := t.inner.modifyMachine m f })
    (hjobs : (f (t.inner.machine m)).jobs.length = t.nrJobs m + 1)
    (hplace : ∀ l ∈ t.inner.bySystem.values, l.Pairwise (fun a b =>
      a = m → b ≠ m → t.score sortFn a = t.score sortFn b → t.nrJobs a < t.nrJobs b)) :
    InOrder sortFn { t with inner := t.inner.modifyMachine m f } := by
  intro system
  rw [hlists.listOf]
  refine ((h system).and (pairwise_listOf hplace system)).imp (fun {a b} hab heq => ?_)
  rw [hlists.score_eq, hlists.score_eq] at heq
  rw [nrJobs_modifyMachine, nrJobs_modifyMachine, hjobs]
  have hle := hab.1 heq
  split_ifs with ha hb hb
  · exact le_refl _
  · subst ha
    exact hab.2 rfl hb heq
  · subst hb
    exact Nat.le_succ_of_le hle
  · exact hle

/-- A machine that loses jobs stays behind machines with fewer jobs. -/
theorem InOrder.fewer_jobs (h : t.InOrder sortFn) {m : MachineRef} {f : Machine → Machine}
    (hlists : KeepsLists t { t with inner := t.inner.modifyMachine m f })
    (hjobs : (f (t.inner.machine m)).jobs.length ≤ t.nrJobs m)
    (hplace : ∀ l ∈ t.inner.bySystem.values, l.Pairwise (fun a b =>
      b = m → a ≠ m → t.score sortFn a = t.score sortFn b →
        t.nrJobs a ≤ (f (t.inner.machine m)).jobs.length)) :
    InOrder sortFn { t with inner := t.inner.modifyMachine m f } := by
  intro system
  rw [hlists.listOf]
  refine ((h system).and (pairwise_listOf hplace system)).imp (fun {a b} hab heq => ?_)
  rw [hlists.score_eq, hlists.score_eq] at heq
  rw [nrJobs_modifyMachine, nrJobs_modifyMachine]
  have hle := hab.1 heq
  split_ifs with ha hb hb
  · exact le_refl _
  · subst ha
    exact hjobs.trans hle
  · exact hab.2 hb ha heq
  · exact hle

/-- A search changes the windows only. -/
theorem findFree_machine (ms : Machines) (now : Int) (freeFn : MachineFreeFn)
    (disk dyn : MachineRef → Bool) (required : List String) (l : List MachineRef)
    (o : MachineRef) :
    ((ms.findFree now freeFn disk dyn required l).1.machine o).score = (ms.machine o).score ∧
    ((ms.findFree now freeFn disk dyn required l).1.machine o).jobs = (ms.machine o).jobs ∧
    ((ms.findFree now freeFn disk dyn required l).1.machine o).stats.currentJobs =
      (ms.machine o).stats.currentJobs := by
  induction l generalizing ms with
  | nil => exact ⟨rfl, rfl, rfl⟩
  | cons m l ih =>
    have hone : ∀ o, let o' := (ms.modifyMachine m (fun _ =>
        ((ms.machine m).hasCapacity now freeFn (disk m) (dyn m)).1)).machine o
        o'.score = (ms.machine o).score ∧ o'.jobs = (ms.machine o).jobs ∧
          o'.stats.currentJobs = (ms.machine o).stats.currentJobs := by
      intro o
      unfold Machines.modifyMachine
      dsimp only
      rw [Function.update_apply]
      split_ifs with ho
      · subst ho
        rw [Machine.hasCapacity_fst]
        split_ifs <;> exact ⟨rfl, rfl, rfl⟩
      · exact ⟨rfl, rfl, rfl⟩
    unfold Machines.findFree
    dsimp only
    split_ifs
    · exact hone o
    · obtain ⟨hscore, hjobs, hcurrent⟩ := ih (ms.modifyMachine m _)
      obtain ⟨hscore₁, hjobs₁, hcurrent₁⟩ := hone o
      exact ⟨hscore.trans hscore₁, hjobs.trans hjobs₁, hcurrent.trans hcurrent₁⟩

/-- A search changes neither the lists nor the jobs. -/
theorem getMachineForSystem_frame (now : Int) (freeFn : Option MachineFreeFn)
    (disk dyn : MachineRef → Bool) (system : System) (required : List String)
    (order : List MachineRef) {t' : MachineTable}
    (ht' : t' = { t with
      inner := (t.inner.getMachineForSystem now freeFn disk dyn system required order).1 }) :
    KeepsLists t t' ∧ (∀ m, t'.nrJobs m = t.nrJobs m) ∧
      ∀ m, (t'.inner.machine m).stats.currentJobs = (t.inner.machine m).stats.currentJobs := by
  subst ht'
  cases freeFn with
  | none => exact ⟨⟨.refl _, fun _ => rfl⟩, fun _ => rfl, fun _ => rfl⟩
  | some freeFn =>
    have hsame := findFree_machine t.inner now freeFn disk dyn required
      (t.inner.candidates system order)
    exact ⟨⟨.findFree .., fun m => (hsame m).1⟩, fun m => congrArg List.length (hsame m).2.1,
      fun m => (hsame m).2.2⟩

/-! ### Whole runs -/

theorem Scored.init : Scored sortFn {} :=
  ⟨.init, Consistent.init.mem_listOf, fun _ => rfl, fun _ => List.Pairwise.nil⟩

theorem keepsLists_buildDrv (m : MachineRef) (now : Int) (job : Job) :
    KeepsLists t { t with inner := t.inner.modifyMachine m (fun r => r.buildDrvSent now job) } := by
  apply keepsLists_modifyMachine
  unfold Machine.buildDrvSent Machine.insertJob
  split_ifs <;> exact ⟨rfl, rfl, rfl⟩

theorem keepsLists_removeJob (m : MachineRef) (now : Int) (drv : StorePath) :
    KeepsLists t { t with inner := (t.inner.removeJob m now drv).1 } :=
  keepsLists_modifyMachine (f := fun _ => ((t.inner.machine m).removeJob now drv).1) m
    ⟨rfl, rfl, rfl⟩

theorem buildDrvSent_counts (m : Machine) (now : Int) (job : Job) :
    (m.buildDrvSent now job).jobs.length = m.jobs.length + 1 ∧
      (m.buildDrvSent now job).stats.currentJobs = (m.buildDrvSent now job).jobs.length := by
  rw [Machine.buildDrvSent_currentJobs, Machine.buildDrvSent_jobs, List.length_append,
    List.length_singleton]
  exact ⟨rfl, rfl⟩

theorem removeJob_counts (m : Machine) (now : Int) (drv : StorePath) :
    (m.removeJob now drv).1.stats.currentJobs = (m.removeJob now drv).1.jobs.length := by
  unfold Machine.removeJob
  dsimp only
  split_ifs <;> rfl

/-- Every call keeps the lists sorted by score. -/
theorem Scored.step (h : t.Scored sortFn) {a : ChoiceAction}
    (hnext : t.choose sortFn a = some t') : t'.Scored sortFn := by
  cases a with
  | insertMachine id record =>
    dsimp only [choose] at hnext
    split_ifs at hnext with hid
    cases hnext
    exact h.insertMachine record hid
  | removeMachine id =>
    cases hnext
    exact h.removeMachine id
  | buildDrv m now job =>
    cases hnext
    exact h.modifyMachine m (keepsLists_buildDrv m now job) (buildDrvSent_counts _ now job).2
  | removeJob m now drv =>
    cases hnext
    exact h.modifyMachine (f := fun _ => ((t.inner.machine m).removeJob now drv).1) m
      (keepsLists_removeJob m now drv) (removeJob_counts _ now drv)
  | getMachineForSystem now freeFn disk dyn system required order =>
    cases hnext
    obtain ⟨hlists, hjobs, hcurrent⟩ :=
      getMachineForSystem_frame now freeFn disk dyn system required order rfl
    exact hlists.scored h (fun m => by rw [hcurrent, hjobs, h.currentJobs])

/-- A call that keeps the place of its machine keeps the lists in order. -/
theorem InOrder.step (h : t.InOrder sortFn) (hscored : t.Scored sortFn) {a : ChoiceAction}
    (hplace : t.KeepsPlace sortFn a) (hnext : t.choose sortFn a = some t') :
    t'.InOrder sortFn := by
  cases a with
  | insertMachine id record =>
    dsimp only [choose] at hnext
    split_ifs at hnext with hid
    cases hnext
    exact (hscored.insertMachine record hid).inOrder_insertMachine
  | removeMachine id =>
    cases hnext
    exact h.removeMachine id
  | buildDrv m now job =>
    cases hnext
    exact h.more_jobs (keepsLists_buildDrv m now job) (buildDrvSent_counts _ now job).1 hplace
  | removeJob m now drv =>
    cases hnext
    exact h.fewer_jobs (f := fun _ => ((t.inner.machine m).removeJob now drv).1)
      (keepsLists_removeJob m now drv) (List.length_filter_le _ _) hplace
  | getMachineForSystem now freeFn disk dyn system required order =>
    cases hnext
    obtain ⟨hlists, hjobs, -⟩ :=
      getMachineForSystem_frame now freeFn disk dyn system required order rfl
    intro system'
    rw [hlists.listOf]
    refine (h system').imp (fun {a b} hab heq => ?_)
    rw [hlists.score_eq, hlists.score_eq] at heq
    rw [hjobs, hjobs]
    exact hab heq

/-! ## The choice -/

/-- The machines of a list that pass the test are the eligible ones. -/
theorem Scored.eligible_iff (h : t.Scored sortFn) {now : Int} {freeFn : Option MachineFreeFn}
    {disk dyn : MachineRef → Bool} {system : System} {required : List String} {m : MachineRef} :
    t.Eligible now freeFn disk dyn system required m ↔
      m ∈ t.inner.listOf system ∧ t.inner.eligible now freeFn disk dyn required m = true := by
  rw [h.listed system m]
  exact ⟨fun he => ⟨⟨he.registered, he.system⟩, he.eligible⟩,
    fun hm => ⟨hm.1.1, hm.1.2, hm.2⟩⟩

theorem Scored.none_iff (h : t.Scored sortFn) (now : Int) (freeFn : Option MachineFreeFn)
    (disk dyn : MachineRef → Bool) {system : System} (required : List String)
    (order : List MachineRef) (hsystem : system ≠ "builtin") :
    (t.inner.getMachineForSystem now freeFn disk dyn system required order).2 = none ↔
      ∀ m, ¬ t.Eligible now freeFn disk dyn system required m := by
  rw [Machines.getMachineForSystem_snd _ _ _ _ _ hsystem, List.find?_eq_none]
  constructor
  · intro hnone m hm
    obtain ⟨hmem, helig⟩ := h.eligible_iff.mp hm
    exact hnone m hmem helig
  · intro hnone m hmem helig
    exact hnone m (h.eligible_iff.mpr ⟨hmem, helig⟩)

/-- In every run the machine that is found has the best score. -/
theorem Scored.best_score (h : t.Scored sortFn) {now : Int} {freeFn : Option MachineFreeFn}
    {disk dyn : MachineRef → Bool} {system : System} {required : List String}
    {order : List MachineRef} {m o : MachineRef} (hsystem : system ≠ "builtin")
    (hfound : (t.inner.getMachineForSystem now freeFn disk dyn system required order).2 = some m)
    (ho : t.Eligible now freeFn disk dyn system required o) :
    t.score sortFn o ≤ t.score sortFn m := by
  rw [Machines.getMachineForSystem_snd _ _ _ _ _ hsystem] at hfound
  obtain ⟨hmem, helig⟩ := h.eligible_iff.mp ho
  rcases Sorting.rel_of_find? (h.scored system) hfound hmem helig with rfl | hle
  · exact le_refl _
  · exact hle

theorem Scored.bestMachine (h : t.Scored sortFn) (horder : t.InOrder sortFn) :
    t.BestMachine sortFn where
  none_iff := fun now freeFn disk dyn _ required order hsystem =>
    h.none_iff now freeFn disk dyn required order hsystem
  found := by
    intro now freeFn disk dyn system required order m hsystem hfound
    refine ⟨?_, fun o ho => ⟨h.best_score hsystem hfound ho, fun heq => ?_⟩⟩
    · rw [Machines.getMachineForSystem_snd _ _ _ _ _ hsystem] at hfound
      exact h.eligible_iff.mpr ⟨List.mem_of_find?_eq_some hfound, List.find?_some hfound⟩
    · rw [Machines.getMachineForSystem_snd _ _ _ _ _ hsystem] at hfound
      obtain ⟨hmem, helig⟩ := h.eligible_iff.mp ho
      rcases Sorting.rel_of_find? (horder system) hfound hmem helig with rfl | hle
      · exact le_refl _
      · exact hle heq.symm

theorem scored_reach {ok : MachineTable → ChoiceAction → Prop}
    (h : Lts.Reach (choose sortFn) ok {} t) : t.Scored sortFn :=
  h.invariant Scored.init (fun _ _ _ ht _ hnext => ht.step hnext)

/-- While each job leaves its machine at its place among the machines of
the same score, the best machine is chosen. -/
theorem bestMachine_runs (sortFn : MachineSortFn) {t : MachineTable}
    (h : Lts.Reach (choose sortFn) (KeepsPlace sortFn) {} t) : t.BestMachine sortFn := by
  have horder : t.InOrder sortFn :=
    h.invariant_of_reach (I := InOrder sortFn) (fun _ => List.Pairwise.nil)
      (fun _ _ _ hreach ht hok hnext => ht.step (scored_reach hreach) hok hnext)
  exact (scored_reach h).bestMachine horder

/-- A machine for the runs below. -/
def sampleRecord : Machine := { systems := ["x86_64-linux"], maxJobs := 4 }

/-- Two machines of the same score register, and a job goes to the second
one. -/
theorem bestMachine_runs_second : ∃ t,
    Lts.Reach (choose .speedFactorOnly) (KeepsPlace .speedFactorOnly) {} t ∧
      t.inner.listOf "x86_64-linux" = [⟨0, 0⟩, ⟨1, 1⟩] ∧
      (t.nrJobs ⟨0, 0⟩, t.nrJobs ⟨1, 1⟩) = (0, 1) ∧ t.BestMachine .speedFactorOnly := by
  have hrun : (Lts.runWith (choose .speedFactorOnly) (KeepsPlace .speedFactorOnly) {}
      [.insertMachine 0 sampleRecord, .insertMachine 1 sampleRecord,
       .buildDrv ⟨1, 1⟩ 100 (MachineLog.sampleJob ⟨"a.drv"⟩)]).map
      (fun t => (t.inner.listOf "x86_64-linux", t.nrJobs ⟨0, 0⟩, t.nrJobs ⟨1, 1⟩)) =
      some ([⟨0, 0⟩, ⟨1, 1⟩], 0, 1) := by decide +kernel
  obtain ⟨t, ht, hend⟩ := Option.map_eq_some_iff.mp hrun
  obtain ⟨hlist, hjobs⟩ := Prod.mk.inj hend
  exact ⟨t, Lts.reach_of_runWith ht, hlist, hjobs,
    bestMachine_runs _ (Lts.reach_of_runWith ht)⟩

/-- The job goes to the first machine instead, which stays the first one:
the next job goes there as well. -/
theorem bestMachine_fails_first : ∃ t,
    Lts.Reach (choose .speedFactorOnly) Lts.anyStep {} t ∧
      (t.inner.getMachineForSystem 100 (some .static) (fun _ => true) (fun _ => true)
        "x86_64-linux" [] []).2 = some ⟨0, 0⟩ ∧
      (t.nrJobs ⟨0, 0⟩, t.nrJobs ⟨1, 1⟩) = (1, 0) ∧ ¬ t.BestMachine .speedFactorOnly := by
  have hrun : (Lts.run (choose .speedFactorOnly) {}
      [.insertMachine 0 sampleRecord, .insertMachine 1 sampleRecord,
       .buildDrv ⟨0, 0⟩ 100 (MachineLog.sampleJob ⟨"a.drv"⟩)]).map
      (fun t => ((t.inner.getMachineForSystem 100 (some .static) (fun _ => true) (fun _ => true)
        "x86_64-linux" [] []).2, (t.nrJobs ⟨0, 0⟩, t.nrJobs ⟨1, 1⟩),
        decide (⟨1, 1⟩ ∈ t.inner.byUuid.values ∧
          "x86_64-linux" ∈ (t.inner.machine ⟨1, 1⟩).systems ∧
          t.inner.eligible 100 (some .static) (fun _ => true) (fun _ => true) [] ⟨1, 1⟩ = true ∧
          t.score .speedFactorOnly ⟨1, 1⟩ = t.score .speedFactorOnly ⟨0, 0⟩))) =
      some (some ⟨0, 0⟩, (1, 0), true) := by decide +kernel
  obtain ⟨t, ht, hend⟩ := Option.map_eq_some_iff.mp hrun
  simp only [Prod.mk.injEq, decide_eq_true_eq] at hend
  obtain ⟨hfound, ⟨hfirst, hsecond⟩, hregistered, hsystem, helig, hscore⟩ := hend
  refine ⟨t, Lts.reach_of_run ht, hfound, Prod.ext hfirst hsecond, fun h => ?_⟩
  obtain ⟨-, hbest⟩ := h.found _ _ _ _ _ _ _ _ (by decide) hfound
  have hle := (hbest ⟨1, 1⟩ ⟨hregistered, hsystem, helig⟩).2 hscore
  rw [hfirst, hsecond] at hle
  exact absurd hle (by decide)

end MachineTable

end QueueRunner
