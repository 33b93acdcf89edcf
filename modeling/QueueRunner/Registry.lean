import QueueRunner.Attempts

/-!
# The registered machines

Machines are numbered in the order of their registration.  A number that
has not been given yet names no machine: no map points to it, no attempt
is on its way to it, and it has no job.
-/

namespace QueueRunner

/-- The machines that the state refers to have been registered. -/
structure Registry (r : Runner) : Prop where
  byUuid : ∀ id m, r.shared.machines.byUuid.lookup id = some m →
    m.id = id ∧ m.gen < r.shared.machines.fresh
  bySystem : ∀ system l, r.shared.machines.bySystem.lookup system = some l →
    ∀ m ∈ l, m.gen < r.shared.machines.fresh
  attempt : ∀ i m job, r.dispatcher.attempt = some (i, m, job) →
    m.gen < r.shared.machines.fresh
  fresh : ∀ m : MachineRef, r.shared.machines.fresh ≤ m.gen →
    r.shared.jobsOf m = []

namespace Registry

variable {r r' : Runner}

theorem init : Registry {} := by
  constructor <;> simp [Shared.jobsOf, DispatchPc.attempt]

/-- A step that registers no machine and starts no attempt. -/
theorem of_same (h : Registry r)
    (hsame : r.shared.machines.SameRegistry r'.shared.machines)
    (hattempt : ∀ i m job, r'.dispatcher.attempt = some (i, m, job) →
      ∃ job', r.dispatcher.attempt = some (i, m, job'))
    (hjobs : ∀ m, ∀ j ∈ r'.shared.jobsOf m, j ∈ r.shared.jobsOf m ∨
      ∃ i, r.dispatcher.attempt = some (i, m, j)) : Registry r' where
  byUuid id m hm := by
    rw [hsame.byUuid] at hm
    rw [hsame.fresh]
    exact h.byUuid id m hm
  bySystem system l hl m hm := by
    rw [hsame.bySystem] at hl
    rw [hsame.fresh]
    exact h.bySystem system l hl m hm
  attempt i m job ha := by
    obtain ⟨job', ha'⟩ := hattempt i m job ha
    rw [hsame.fresh]
    exact h.attempt i m job' ha'
  fresh m hm := by
    rw [hsame.fresh] at hm
    refine List.eq_nil_iff_forall_not_mem.mpr fun j hj => ?_
    rcases hjobs m j hj with hj | ⟨i, ha⟩
    · rw [h.fresh m hm] at hj
      cases hj
    · exact absurd (h.attempt i m j ha) (Nat.not_lt.mpr hm)

/-- A step that leaves the attempts and the dispatch loop alone. -/
theorem of_same_loop (h : Registry r)
    (hsame : r.shared.machines.SameRegistry r'.shared.machines)
    (hd : r'.dispatcher = r.dispatcher)
    (hjobs : ∀ m, ∀ j ∈ r'.shared.jobsOf m, j ∈ r.shared.jobsOf m) : Registry r' :=
  h.of_same hsame (fun _ _ job ha => ⟨job, hd ▸ ha⟩)
    (fun m j hj => Or.inl (hjobs m j hj))

/-- A step of the dispatch loop. -/
theorem dispatch (h : Registry r) {s' : Shared} {d' : DispatchPc}
    (hs : DispatchStep r.shared r.held r.dispatcher s' d') :
    Registry { r with shared := s', dispatcher := d' } := by
  have hbase : Registry { r with shared := s', dispatcher := .idle } :=
    h.of_same hs.sameRegistry (fun i m job ha => by cases ha)
      (fun m j hj => hs.jobsOf_cases hj)
  refine ⟨hbase.byUuid, hbase.bySystem, ?_, hbase.fresh⟩
  intro i m job ha
  rw [hs.sameRegistry.fresh]
  rcases hs.attempt_cases ha with ⟨job', ha', -, -⟩ | ⟨-, -, -, system, order, hm⟩
  · exact h.attempt i m job' ha'
  · rcases Machines.mem_of_mem_candidates hm with ⟨id, hid⟩ | ⟨l, hl, hmem⟩
    · exact (h.byUuid id m hid).2
    · exact h.bySystem _ l hl m hmem

/-- A step of a call that ends attempts. -/
theorem call (h : Registry r)
    (hjob : ∀ drv item, r.item drv = some item →
      (r.shared.jobsOf item.machine).find? (fun j => j.path == drv) ≠ none)
    {t : TaskId} {task : CallTask} {res : Shared × Option CallTask}
    (hs : CallStep r.shared r.held task res.1 res.2) : Registry (r.setCall t res) := by
  obtain ⟨s', t'⟩ := res
  cases hs with
  | quiet hstart hsame hinfos hpending hkeeps =>
    exact h.of_same_loop hsame.registry rfl (fun m j hj => by rwa [← hsame.jobsOf])
  | missing a rest hstart ht hlookup hinfos hpending hlast =>
    exact h.of_same_loop (.refl _) rfl (fun _ _ => id)
  | ends a rest item job hstart ht hends hinfos hpending hlast =>
    refine h.of_same_loop hends.registry rfl (fun m j hj => ?_)
    have hj' : j ∈ s'.jobsOf m := hj
    rw [hends.jobsOf] at hj'
    split_ifs at hj'
    · exact List.mem_of_mem_filter hj'
    · exact hj'
  | jobMissing a rest item hstart ht hitem hnone => exact absurd hnone (hjob _ _ hitem)
  | removeJob i system hstart hi hremoved hinfos hpending hlast =>
    refine h.of_same_loop hremoved.registry rfl (fun m j hj => ?_)
    have hj' : j ∈ s'.jobsOf m := hj
    rwa [hremoved.jobsOf] at hj'

end Registry

/-! ## The lists by system -/

/-- The lists by system only hold registered machines, and only under
their systems. -/
def Machines.Listed (ms : Machines) : Prop :=
  ∀ system l, ms.bySystem.lookup system = some l → ∀ m ∈ l,
    ms.byUuid.lookup m.id = some m ∧ system ∈ (ms.machine m).systems

namespace Machines.Listed

variable {ms ms' : Machines}

theorem of_same (h : ms.Listed) (hsame : ms.SameRegistry ms') : ms'.Listed := by
  intro system l hl m hm
  rw [hsame.bySystem] at hl
  rw [hsame.byUuid, hsame.systems]
  exact h system l hl m hm

/-- A machine that a search finds is registered. -/
theorem candidates (h : ms.Listed)
    (hbyUuid : ∀ id m, ms.byUuid.lookup id = some m → m.id = id)
    {system : System} {order : List MachineRef} {m : MachineRef}
    (hm : m ∈ ms.candidates system order) : ms.byUuid.lookup m.id = some m := by
  rcases mem_of_mem_candidates hm with ⟨id, hid⟩ | ⟨l, hl, hmem⟩
  · rwa [hbyUuid id m hid]
  · exact (h system l hl m hmem).1

/-- A machine registers under an id that is not in use. -/
theorem insertMachine (h : ms.Listed) {id : Uuid} (record : Machine)
    (sortFn : MachineSortFn) (hid : ms.byUuid.lookup id = none) :
    (ms.insertMachine id record sortFn).1.Listed := by
  intro system l hl m hm
  simp only [Machines.insertMachine, sort, Map.lookup_insert_eq]
  rcases insertMachine_bySystem hl hm with ⟨rfl, hsystem⟩ | ⟨l', hl', hm'⟩
  · simp [hsystem]
  · obtain ⟨hreg, hsystem⟩ := h system l' hl' m hm'
    have hne : m.id ≠ id := by
      intro he
      rw [he, hid] at hreg
      cases hreg
    have hne' : m ≠ ⟨id, ms.fresh⟩ := fun he => hne (by rw [he])
    rw [if_neg hne, Function.update_of_ne hne']
    exact ⟨hreg, hsystem⟩

end Machines.Listed

end QueueRunner
