import Mathlib.Data.List.Dedup
import QueueRunner.Lib.Run
import QueueRunner.Registry

/-!
# The registration of machines

`Machines` of `queue-runner/src/state/machine.rs` with both of its locks:
the two maps, and the set of the features that some machine supports.
`insert_machine` and `remove_machine` keep the maps by hand and rebuild the
set.  A registration that replaces a machine leaves the old one in the
lists by system, and a system that a machine names twice gets the machine
twice; apart from that the maps agree.
-/

namespace QueueRunner

/-- `Machines`: the maps, and `supported_features`. -/
structure MachineTable where
  inner : Machines := {}
  supportedFeatures : List String := []

namespace MachineTable

/-- `reconstruct_supported_features`. -/
def reconstructSupportedFeatures (t : MachineTable) : MachineTable :=
  { t with supportedFeatures :=
      (t.inner.byUuid.values.flatMap (fun m =>
        (t.inner.machine m).supportedFeatures)).dedup }

/-- `Machines::insert_machine`. -/
def insertMachine (t : MachineTable) (id : Uuid) (record : Machine)
    (sortFn : MachineSortFn) : MachineTable :=
  { t with inner := (t.inner.insertMachine id record sortFn).1 }.reconstructSupportedFeatures

/-- `Machines::remove_machine`. -/
def removeMachine (t : MachineTable) (id : Uuid) : MachineTable :=
  match t.inner.removeMachine id with
  | none => t.reconstructSupportedFeatures
  | some (_, inner) => { t with inner := inner }.reconstructSupportedFeatures

end MachineTable

/-- The operations on the registry. -/
inductive RegistryOp where
  | insertMachine (id : Uuid) (record : Machine) (sortFn : MachineSortFn)
  | removeMachine (id : Uuid)

/-- One operation. -/
def MachineTable.next (t : MachineTable) : RegistryOp → Option MachineTable
  | .insertMachine id record sortFn => some (t.insertMachine id record sortFn)
  | .removeMachine id => some (t.removeMachine id)

/-- The list of a system. -/
def Machines.listOf (ms : Machines) (system : System) : List MachineRef :=
  (ms.bySystem.lookup system).getD []

/-- The maps agree: the list of a system holds exactly the registered
machines for the system, each once, and the set of features is the union
of the features of the registered machines. -/
structure MachineTable.Consistent (t : MachineTable) : Prop where
  mem_listOf : ∀ system m, m ∈ t.inner.listOf system ↔
    m ∈ t.inner.byUuid.values ∧ system ∈ (t.inner.machine m).systems
  nodup : ∀ system, (t.inner.listOf system).Nodup
  features : ∀ f, f ∈ t.supportedFeatures ↔
    ∃ m ∈ t.inner.byUuid.values, f ∈ (t.inner.machine m).supportedFeatures

/-- A machine that is registered names no system twice, and replaces no
machine that is in a list. -/
def RegistersOnce (t : MachineTable) : RegistryOp → Prop
  | .insertMachine id record _ => record.systems.Nodup ∧
    ∀ m ∈ t.inner.byUuid.lookup id, (t.inner.machine m).systems = []
  | .removeMachine _ => True

instance (t : MachineTable) (op : RegistryOp) : Decidable (RegistersOnce t op) :=
  match op with
  | .insertMachine id record _ => inferInstanceAs (Decidable (record.systems.Nodup ∧
      ∀ m ∈ t.inner.byUuid.lookup id, (t.inner.machine m).systems = []))
  | .removeMachine _ => inferInstanceAs (Decidable True)

/-! ## The lists by system -/

namespace Machines

/-- `insert_machine` appends the machine once for each time that it names
the system. -/
theorem getD_foldl_pushSystem (m : MachineRef) (systems : List System)
    (bySystem : Map System (List MachineRef)) (system : System) :
    ((systems.foldl (pushSystem m) bySystem).lookup system).getD [] =
      (bySystem.lookup system).getD [] ++ List.replicate (systems.count system) m := by
  induction systems generalizing bySystem with
  | nil => simp
  | cons s systems ih =>
    rw [List.foldl_cons, ih, pushSystem, Map.lookup_insert_eq, List.count_cons]
    by_cases hs : system = s
    · subst hs
      simp [List.replicate_succ]
    · simp [hs, Ne.symm hs]

theorem perm_listOf_insertMachine (ms : Machines) (id : Uuid) (record : Machine)
    (sortFn : MachineSortFn) (system : System) :
    ((ms.insertMachine id record sortFn).1.listOf system).Perm
      (ms.listOf system ++ List.replicate (record.systems.count system) ⟨id, ms.fresh⟩) := by
  rw [listOf, listOf, ← getD_foldl_pushSystem]
  simp only [insertMachine, sort, Map.lookup_mapValues]
  cases (record.systems.foldl (pushSystem ⟨id, ms.fresh⟩) ms.bySystem).lookup system with
  | none => exact List.Perm.refl _
  | some l => exact List.perm_insertionSort _ l

/-- `remove_machine` filters the lists of the systems of the machine. -/
theorem getD_foldl_retainSystem (id : Uuid) (systems : List System)
    (bySystem : Map System (List MachineRef)) (system : System) :
    ((systems.foldl (retainSystem id) bySystem).lookup system).getD [] =
      if system ∈ systems then
        ((bySystem.lookup system).getD []).filter (fun o => o.id != id)
      else (bySystem.lookup system).getD [] := by
  induction systems generalizing bySystem with
  | nil => simp
  | cons s systems ih =>
    have hone : ((retainSystem id bySystem s).lookup system).getD [] =
        if system = s then ((bySystem.lookup system).getD []).filter (fun o => o.id != id)
        else (bySystem.lookup system).getD [] := by
      unfold retainSystem
      split
      · rename_i l hl
        rw [Map.lookup_insert_eq]
        split_ifs with hs
        · rw [hs, hl]
          rfl
        · rfl
      · rename_i hl
        split_ifs with hs
        · rw [hs, hl]
          rfl
        · rfl
    rw [List.foldl_cons, ih, hone]
    by_cases hs : system = s
    · simp [hs, List.filter_filter]
    · simp [hs]

end Machines

/-! ## One operation -/

/-- The machines are numbered, and registered under their ids. -/
structure MachineTable.Numbered (t : MachineTable) : Prop where
  byUuid : ∀ id m, t.inner.byUuid.lookup id = some m →
    m.id = id ∧ m.gen < t.inner.fresh
  listed : ∀ system, ∀ m ∈ t.inner.listOf system, m.gen < t.inner.fresh

namespace MachineTable

variable {t t' : MachineTable}

theorem mem_supportedFeatures (f : String) : f ∈ t.reconstructSupportedFeatures.supportedFeatures ↔
    ∃ m ∈ t.inner.byUuid.values, f ∈ (t.inner.machine m).supportedFeatures := by
  rw [reconstructSupportedFeatures, List.mem_dedup, List.mem_flatMap]

/-- The machines that are registered after a registration. -/
theorem mem_values_insertMachine (id : Uuid) (record : Machine) (sortFn : MachineSortFn)
    (o : MachineRef) : o ∈ (t.insertMachine id record sortFn).inner.byUuid.values ↔
      o = ⟨id, t.inner.fresh⟩ ∨ ∃ k, k ≠ id ∧ t.inner.byUuid.lookup k = some o := by
  have hmap : (t.insertMachine id record sortFn).inner.byUuid =
      t.inner.byUuid.insert id ⟨id, t.inner.fresh⟩ := rfl
  rw [hmap, Map.mem_values_iff]
  constructor
  · rintro ⟨k, hk⟩
    rw [Map.lookup_insert_eq] at hk
    split_ifs at hk with he
    · exact Or.inl (Option.some.inj hk).symm
    · exact Or.inr ⟨k, he, hk⟩
  · rintro (rfl | ⟨k, he, hk⟩)
    · exact ⟨id, AList.lookup_insert _⟩
    · exact ⟨k, by rw [Map.lookup_insert_eq, if_neg he, hk]⟩

/-- The new machine has its record, and the others keep theirs. -/
theorem machine_insertMachine (id : Uuid) (record : Machine) (sortFn : MachineSortFn)
    (o : MachineRef) : (t.insertMachine id record sortFn).inner.machine o =
      if o = ⟨id, t.inner.fresh⟩ then record else t.inner.machine o := by
  change Function.update t.inner.machine ⟨id, t.inner.fresh⟩ record o = _
  rw [Function.update_apply]

theorem mem_listOf_insertMachine (id : Uuid) (record : Machine) (sortFn : MachineSortFn)
    (system : System) (o : MachineRef) :
    o ∈ (t.insertMachine id record sortFn).inner.listOf system ↔
      o ∈ t.inner.listOf system ∨ (o = ⟨id, t.inner.fresh⟩ ∧ system ∈ record.systems) := by
  have hperm := t.inner.perm_listOf_insertMachine id record sortFn system
  change o ∈ (t.inner.insertMachine id record sortFn).1.listOf system ↔ _
  rw [hperm.mem_iff, List.mem_append, List.mem_replicate, and_comm,
    ← List.count_pos_iff (a := system), Nat.pos_iff_ne_zero]

namespace Numbered

theorem init : Numbered {} := by
  constructor <;> simp [Machines.listOf]

theorem insertMachine (h : t.Numbered) (id : Uuid) (record : Machine)
    (sortFn : MachineSortFn) : (t.insertMachine id record sortFn).Numbered where
  byUuid k m hk := by
    change (t.inner.byUuid.insert id ⟨id, t.inner.fresh⟩).lookup k = some m at hk
    rw [Map.lookup_insert_eq] at hk
    split_ifs at hk with he
    · cases hk
      exact ⟨he.symm, Nat.lt_succ_self _⟩
    · exact ⟨(h.byUuid k m hk).1, Nat.lt_succ_of_lt (h.byUuid k m hk).2⟩
  listed system m hm := by
    rcases (mem_listOf_insertMachine id record sortFn system m).mp hm with hm | ⟨rfl, -⟩
    · exact Nat.lt_succ_of_lt (h.listed system m hm)
    · exact Nat.lt_succ_self _

end Numbered

/-- The state after the removal of a registered machine. -/
theorem removeMachine_eq {id : Uuid} {m : MachineRef}
    (hm : t.inner.byUuid.lookup id = some m) :
    (t.removeMachine id).inner = { t.inner with
      byUuid := t.inner.byUuid.erase id
      bySystem := (t.inner.machine m).systems.foldl (Machines.retainSystem id)
        t.inner.bySystem } := by
  simp only [removeMachine, Machines.removeMachine, hm]
  rfl

theorem removeMachine_none {id : Uuid} (hm : t.inner.byUuid.lookup id = none) :
    (t.removeMachine id).inner = t.inner := by
  simp only [removeMachine, Machines.removeMachine, hm]
  rfl

theorem mem_listOf_removeMachine {id : Uuid} {m : MachineRef}
    (hm : t.inner.byUuid.lookup id = some m) (system : System) (o : MachineRef) :
    o ∈ (t.removeMachine id).inner.listOf system ↔ o ∈ t.inner.listOf system ∧
      (system ∈ (t.inner.machine m).systems → o.id ≠ id) := by
  rw [removeMachine_eq hm, Machines.listOf, Machines.getD_foldl_retainSystem]
  split_ifs with hs
  · simp [hs, List.mem_filter, Machines.listOf]
  · simp [hs, Machines.listOf]

theorem Numbered.removeMachine (h : t.Numbered) (id : Uuid) : (t.removeMachine id).Numbered := by
  cases hm : t.inner.byUuid.lookup id with
  | none =>
    constructor <;> rw [removeMachine_none hm]
    · exact h.byUuid
    · exact h.listed
  | some m =>
    refine ⟨fun k o hk => ?_, fun system o ho => ?_⟩
    · rw [removeMachine_eq hm] at hk ⊢
      simp only [Map.lookup_erase_eq] at hk
      split_ifs at hk
      exact h.byUuid k o hk
    · have ho' := ((mem_listOf_removeMachine hm system o).mp ho).1
      rw [removeMachine_eq hm]
      exact h.listed system o ho'

/-- The list of a system holds exactly the registered machines for the
system. -/
def Listed (t : MachineTable) : Prop :=
  ∀ system m, m ∈ t.inner.listOf system ↔
    m ∈ t.inner.byUuid.values ∧ system ∈ (t.inner.machine m).systems

/-- A registration that replaces no listed machine. -/
theorem Listed.insertMachine (h : t.Listed) (hn : t.Numbered) {id : Uuid}
    (record : Machine) (sortFn : MachineSortFn)
    (hreplaced : ∀ m ∈ t.inner.byUuid.lookup id, (t.inner.machine m).systems = []) :
    (t.insertMachine id record sortFn).Listed := by
  intro system o
  rw [mem_listOf_insertMachine, mem_values_insertMachine, machine_insertMachine,
    h system o, Map.mem_values_iff]
  constructor
  · rintro (⟨⟨k, hk⟩, hs⟩ | ⟨rfl, hs⟩)
    · have hne : o ≠ ⟨id, t.inner.fresh⟩ := by
        rintro rfl
        exact Nat.lt_irrefl _ (hn.byUuid k _ hk).2
      rw [if_neg hne]
      refine ⟨Or.inr ⟨k, ?_, hk⟩, hs⟩
      rintro rfl
      rw [hreplaced o hk] at hs
      cases hs
    · exact ⟨Or.inl rfl, by rwa [if_pos rfl]⟩
  · rintro ⟨rfl | ⟨k, hk, hlookup⟩, hs⟩
    · exact Or.inr ⟨rfl, by rwa [if_pos rfl] at hs⟩
    · have hne : o ≠ ⟨id, t.inner.fresh⟩ := by
        rintro rfl
        exact Nat.lt_irrefl _ (hn.byUuid k _ hlookup).2
      rw [if_neg hne] at hs
      exact Or.inl ⟨⟨k, hlookup⟩, hs⟩

theorem Listed.removeMachine (h : t.Listed) (hn : t.Numbered) (id : Uuid) :
    (t.removeMachine id).Listed := by
  cases hm : t.inner.byUuid.lookup id with
  | none =>
    unfold Listed
    rw [removeMachine_none hm]
    exact h
  | some m =>
    intro system o
    rw [mem_listOf_removeMachine hm, h system o, removeMachine_eq hm, Map.mem_values_iff,
      Map.mem_values_iff]
    simp only
    constructor
    · rintro ⟨⟨⟨k, hk⟩, hs⟩, hne⟩
      refine ⟨⟨k, ?_⟩, hs⟩
      have hkid : k ≠ id := by
        rintro rfl
        have ho : o = m := Option.some.inj (hk.symm.trans hm)
        exact hne (ho ▸ hs) (hn.byUuid k o hk).1
      rw [Map.lookup_erase_eq, if_neg hkid, hk]
    · rintro ⟨⟨k, hk⟩, hs⟩
      rw [Map.lookup_erase_eq] at hk
      split_ifs at hk with hkid
      exact ⟨⟨⟨k, hk⟩, hs⟩, fun _ he => hkid ((hn.byUuid k o hk).1.symm.trans he)⟩

namespace Consistent

theorem init : Consistent {} := by
  constructor <;> simp [Machines.listOf, Map.values]

theorem features_of_reconstruct {t₀ : MachineTable}
    (ht : t = t₀.reconstructSupportedFeatures) (f : String) : f ∈ t.supportedFeatures ↔
      ∃ m ∈ t.inner.byUuid.values, f ∈ (t.inner.machine m).supportedFeatures := by
  rw [ht]
  exact mem_supportedFeatures f

/-- A registration keeps the maps in agreement when it replaces no listed
machine and names no system twice. -/
theorem insertMachine (h : t.Consistent) (hn : t.Numbered) {id : Uuid} {record : Machine}
    (sortFn : MachineSortFn) (honce : RegistersOnce t (.insertMachine id record sortFn)) :
    (t.insertMachine id record sortFn).Consistent := by
  obtain ⟨hnodup, hreplaced⟩ := honce
  refine ⟨Listed.insertMachine h.mem_listOf hn record sortFn hreplaced, fun system => ?_,
    features_of_reconstruct rfl⟩
  refine (t.inner.perm_listOf_insertMachine id record sortFn system).nodup_iff.mpr ?_
  refine List.nodup_append.mpr ⟨h.nodup system, ?_, fun o ho o' ho' he => ?_⟩
  · exact List.nodup_replicate.mpr (List.nodup_iff_count_le_one.mp hnodup system)
  · have hlt := hn.listed system o ho
    rw [he, List.eq_of_mem_replicate ho'] at hlt
    exact Nat.lt_irrefl _ hlt

/-- A registration that breaks the condition leaves the maps in
disagreement. -/
theorem registersOnce_of_insertMachine (h : t.Consistent) (hn : t.Numbered) {id : Uuid}
    {record : Machine} {sortFn : MachineSortFn}
    (h' : (t.insertMachine id record sortFn).Consistent) :
    RegistersOnce t (.insertMachine id record sortFn) := by
  refine ⟨List.nodup_iff_count_le_one.mpr fun system => ?_, fun m hm => ?_⟩
  · have hnodup := (t.inner.perm_listOf_insertMachine id record sortFn system).nodup_iff.mp
      (h'.nodup system)
    exact List.nodup_replicate.mp (List.nodup_append.mp hnodup).2.1
  · refine List.eq_nil_iff_forall_not_mem.mpr fun system hs => ?_
    -- the old machine is still in the list, and no longer registered
    have hlisted : m ∈ t.inner.listOf system :=
      (h.mem_listOf system m).mpr ⟨Map.mem_values_iff.mpr ⟨id, hm⟩, hs⟩
    have hreg := ((h'.mem_listOf system m).mp
      ((mem_listOf_insertMachine id record sortFn system m).mpr (Or.inl hlisted))).1
    rcases (mem_values_insertMachine id record sortFn m).mp hreg with rfl | ⟨k, hk, hlookup⟩
    · exact Nat.lt_irrefl _ (hn.byUuid id _ hm).2
    · exact hk ((hn.byUuid k m hlookup).1.symm.trans (hn.byUuid id m hm).1)

/-- The removal of a machine keeps the maps in agreement. -/
theorem removeMachine (h : t.Consistent) (hn : t.Numbered) (id : Uuid) :
    (t.removeMachine id).Consistent := by
  have hfeatures : ∀ f, f ∈ (t.removeMachine id).supportedFeatures ↔
      ∃ m ∈ (t.removeMachine id).inner.byUuid.values,
        f ∈ ((t.removeMachine id).inner.machine m).supportedFeatures := by
    unfold MachineTable.removeMachine
    split <;> exact features_of_reconstruct rfl
  refine ⟨Listed.removeMachine h.mem_listOf hn id, fun system => ?_, hfeatures⟩
  cases hm : t.inner.byUuid.lookup id with
  | none =>
    rw [removeMachine_none hm]
    exact h.nodup system
  | some m =>
    rw [removeMachine_eq hm, Machines.listOf, Machines.getD_foldl_retainSystem]
    split_ifs
    · exact (h.nodup system).filter _
    · exact h.nodup system

end Consistent

/-- A machine that a search for a system finds is registered. -/
theorem Consistent.mem_candidates (h : t.Consistent) {system : System}
    {order : List MachineRef} {m : MachineRef} (hm : m ∈ t.inner.candidates system order) :
    m ∈ t.inner.byUuid.values := by
  rcases Machines.mem_of_mem_candidates hm with ⟨id, hid⟩ | ⟨l, hl, hmem⟩
  · exact Map.mem_values_iff.mpr ⟨id, hid⟩
  · exact ((h.mem_listOf system m).mp (by rwa [Machines.listOf, hl])).1

/-- Every operation that meets the condition keeps the maps in agreement. -/
theorem Consistent.step (h : t.Consistent) (hn : t.Numbered) {op : RegistryOp}
    (honce : RegistersOnce t op) (hnext : t.next op = some t') :
    t'.Consistent ∧ t'.Numbered := by
  cases op with
  | insertMachine id record sortFn =>
    cases hnext
    exact ⟨h.insertMachine hn sortFn honce, hn.insertMachine id record sortFn⟩
  | removeMachine id =>
    cases hnext
    exact ⟨h.removeMachine hn id, hn.removeMachine id⟩

end MachineTable

/-! ## Whole runs -/

/-- In every sequence of operations in which each registration meets the
condition, the maps agree after every operation and a search only finds
registered machines; and after such a sequence an operation keeps the
agreement exactly when it meets the condition. -/
theorem machinesConsistent_runs (t : MachineTable)
    (hrun : Lts.Reach MachineTable.next RegistersOnce {} t) :
    t.Consistent ∧
      (∀ system order, ∀ m ∈ t.inner.candidates system order, m ∈ t.inner.byUuid.values) ∧
      ∀ op t', t.next op = some t' → (t'.Consistent ↔ RegistersOnce t op) := by
  have hinv : t.Consistent ∧ t.Numbered :=
    hrun.invariant (I := fun t => t.Consistent ∧ t.Numbered)
      ⟨.init, .init⟩ (fun _ _ _ h honce hnext => h.1.step h.2 honce hnext)
  obtain ⟨h, hn⟩ := hinv
  refine ⟨h, fun _ _ _ hm => h.mem_candidates hm, fun op t' hnext => ⟨fun h' => ?_, fun honce =>
    (h.step hn honce hnext).1⟩⟩
  cases op with
  | insertMachine id record sortFn =>
    cases hnext
    exact h.registersOnce_of_insertMachine hn h'
  | removeMachine id => trivial

/-- Two machines register, and the first one leaves. -/
theorem machinesConsistent_runs_leave : ∃ t,
    Lts.Reach MachineTable.next RegistersOnce {} t ∧
      t.inner.listOf "x86_64-linux" = [⟨1, 1⟩] ∧ t.Consistent := by
  have hend : (Lts.runWith MachineTable.next RegistersOnce {}
      [.insertMachine 0 { systems := ["x86_64-linux"] } .speedFactorOnly,
        .insertMachine 1 { systems := ["x86_64-linux", "i686-linux"] } .speedFactorOnly,
        .removeMachine 0]).map (fun t => t.inner.listOf "x86_64-linux") =
      some [⟨1, 1⟩] := by decide +kernel
  obtain ⟨t, ht, he⟩ := Option.map_eq_some_iff.mp hend
  have hrun := Lts.reach_of_runWith ht
  exact ⟨t, hrun, he, (machinesConsistent_runs t hrun).1⟩

/-- A machine registers again under its id: the list of its system holds
the replaced machine as well. -/
theorem machinesConsistent_fails :
    ¬∀ t, Lts.Reach MachineTable.next Lts.anyStep {} t → t.Consistent := by
  intro h
  have hend : (Lts.run MachineTable.next {}
      [.insertMachine 0 { systems := ["x86_64-linux"] } .speedFactorOnly,
        .insertMachine 0 { systems := ["x86_64-linux"] } .speedFactorOnly]).map
      (fun t => (t.inner.listOf "x86_64-linux", t.inner.byUuid.values)) =
      some ([⟨0, 0⟩, ⟨0, 1⟩], [⟨0, 1⟩]) := by decide +kernel
  obtain ⟨t, ht, he⟩ := Option.map_eq_some_iff.mp hend
  simp only [Prod.mk.injEq] at he
  have hreg := ((h t (Lts.reach_of_run ht)).mem_listOf "x86_64-linux" ⟨0, 0⟩).mp
    (by simp [he.1])
  simp [he.2] at hreg

end QueueRunner
