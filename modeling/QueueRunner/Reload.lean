import QueueRunner.AppConfig
import QueueRunner.Lib.Run
import QueueRunner.Queue

/-!
# Reloading the configuration

`config::reload` of `queue-runner/src/config.rs` hands a new configuration
to `State::reload_config_callback` and swaps it in when the callback has
returned without an error.  The callback changes the pool, the machine
lists, the queues and the remote stores one after another.  It waits for
every S3 client, for the lock of the queues and for the machines to which
it publishes.  `insert_machine` and `insert_new_jobs` run in between: they
wait for the lock of the queues, too.

Nothing can fail after the pool has been changed, so a failed reload
changes nothing.  A successful one does not always take effect: the
callback sorts the queues by the function that is being replaced, jobs
that wait for the lock are sorted by the function that was active when
they were called, and a machine that comes before the swap is sorted by
the old function after the lists have been sorted by the new one.
`reloadEffective_runs` says that nothing else goes wrong.

What the two comparators read of a step and of a machine does not change
in these runs.  Shares are floating point numbers that are compared by
`total_cmp`; they are read as integers, like the scores of the machines.
-/

namespace QueueRunner

/-! ## The comparators -/

/-- What `legacy_compare` and `compare_with_rdeps` read of a `StepInfo`. -/
structure SortKeys where
  highestGlobalPriority : Int := 0
  lowestShareUsed : Int := 0
  rdepsLen : Nat := 0
  highestLocalPriority : Int := 0
  lowestBuildId : BuildID := 0

namespace SortKeys

/-- `StepInfo::legacy_compare`. -/
def legacyCompare (a b : SortKeys) : Ordering :=
  ((compare a.highestGlobalPriority b.highestGlobalPriority).then
    ((compare b.lowestShareUsed a.lowestShareUsed).then
      ((compare a.highestLocalPriority b.highestLocalPriority).then
        (compare b.lowestBuildId a.lowestBuildId)))).swap

/-- `StepInfo::compare_with_rdeps`. -/
def compareWithRdeps (a b : SortKeys) : Ordering :=
  ((compare a.highestGlobalPriority b.highestGlobalPriority).then
    ((compare b.lowestShareUsed a.lowestShareUsed).then
      ((compare a.rdepsLen b.rdepsLen).then
        ((compare a.highestLocalPriority b.highestLocalPriority).then
          (compare b.lowestBuildId a.lowestBuildId))))).swap

end SortKeys

/-- `cmp_fn` of `sort_jobs`. -/
def StepSortFn.cmpFn : StepSortFn → SortKeys → SortKeys → Ordering
  | .legacy => SortKeys.legacyCompare
  | .withRdeps => SortKeys.compareWithRdeps

/-- The comparison of `MachinesInner::sort`, on the machines themselves. -/
def Machine.sortLe (sortFn : MachineSortFn) (a b : Machine) : Bool :=
  if a.score sortFn = b.score sortFn then a.stats.currentJobs ≤ b.stats.currentJobs
  else b.score sortFn < a.score sortFn

/-! ## Sorting

Both comparisons are total and transitive, so a sorted list is in order. -/

open Std (TransCmp OrientedCmp)

theorem transCmp_swap {α : Type} {c : α → α → Ordering} [TransCmp c] :
    TransCmp (fun a b => (c a b).swap) := by
  have heq : (fun a b => (c a b).swap) = fun a b => c b a := by
    funext a b
    exact OrientedCmp.eq_swap.symm
  rw [heq]
  exact TransCmp.opposite

theorem transCmp_comap {α β : Type} {c : α → α → Ordering} [h : TransCmp c] (f : β → α) :
    TransCmp (fun a b => c (f a) (f b)) where
  eq_swap := h.eq_swap
  isLE_trans := h.isLE_trans

namespace SortKeys

instance : TransCmp legacyCompare :=
  transCmp_swap (c := compareLex (compareOn highestGlobalPriority)
    (compareLex (fun a b => compareOn lowestShareUsed b a)
      (compareLex (compareOn highestLocalPriority)
        (fun a b => compareOn lowestBuildId b a))))

instance : TransCmp compareWithRdeps :=
  transCmp_swap (c := compareLex (compareOn highestGlobalPriority)
    (compareLex (fun a b => compareOn lowestShareUsed b a)
      (compareLex (compareOn rdepsLen)
        (compareLex (compareOn highestLocalPriority)
          (fun a b => compareOn lowestBuildId b a)))))

end SortKeys

instance (sortFn : StepSortFn) : TransCmp sortFn.cmpFn :=
  match sortFn with
  | .legacy => inferInstanceAs (TransCmp SortKeys.legacyCompare)
  | .withRdeps => inferInstanceAs (TransCmp SortKeys.compareWithRdeps)

namespace BuildQueue

variable (live : InfoRef → Bool) (cmp : InfoRef → InfoRef → Ordering) [TransCmp cmp]

instance : Std.Total (fun a b => sortLe live cmp a b = true) where
  total a b := by
    cases ha : live a <;> cases hb : live b <;> simp only [sortLe, ha, hb] <;> try simp
    by_cases hgt : cmp a b = .gt
    · exact Or.inr (by simp [OrientedCmp.gt_iff_lt.mp hgt])
    · exact Or.inl hgt

instance : IsTrans InfoRef (fun a b => sortLe live cmp a b = true) where
  trans a b c := by
    cases ha : live a <;> cases hb : live b <;> cases hc : live c <;>
      simp only [sortLe, ha, hb, hc] <;> try simp
    rw [← Ordering.isLE_iff_ne_gt, ← Ordering.isLE_iff_ne_gt, ← Ordering.isLE_iff_ne_gt]
    exact TransCmp.isLE_trans

/-- After `sort_jobs` the queue is in the order of the comparison. -/
theorem pairwise_sortJobs (q : BuildQueue) :
    (q.sortJobs live cmp).jobs.Pairwise (fun a b => sortLe live cmp a b = true) :=
  List.pairwise_insertionSort _ _

omit [TransCmp cmp] in
/-- A sorted queue whose pointers are live is in the order of the
comparator. -/
theorem pairwise_cmp {cmp} {l : List InfoRef} (hlive : ∀ i ∈ l, live i = true)
    (hl : l.Pairwise (fun a b => sortLe live cmp a b = true)) :
    l.Pairwise (fun a b => cmp a b ≠ .gt) := by
  refine hl.imp_of_mem fun ha hb hle => ?_
  simpa [sortLe, hlive _ ha, hlive _ hb] using hle

end BuildQueue

/-- After `insert_new_jobs` the queue of the system is in the order of the
comparator: `scrube_jobs` has left live pointers only. -/
theorem InnerQueues.pairwise_insertNewJobs (q : InnerQueues) (held : InfoRef → Bool)
    (finished : StepRef → Bool) (cmp : InfoRef → InfoRef → Ordering) [TransCmp cmp]
    (system : System) (jobs : List (StepRef × StepInfo)) (now : Timestamp) :
    ((q.insertNewJobs held finished cmp system jobs now).queueJobs system).Pairwise
      (fun a b => cmp a b ≠ .gt) := by
  have hmem := queueJobs_insertNewJobs_perm q held finished cmp system jobs now
  refine BuildQueue.pairwise_cmp ((q.submitJobs finished jobs).1.live held) (fun i hi => ?_) ?_
  · exact (List.mem_filter.mp (hmem.mem_iff.mp hi)).2
  · have hlive : ((q.submitJobs finished jobs).1.ensureQueue system).live held =
        (q.submitJobs finished jobs).1.live held :=
      live_congr (by simp) (by simp) _
    rw [insertNewJobs, queueJobs_modifyQueue, if_pos rfl, hlive]
    split
    · exact BuildQueue.pairwise_sortJobs _ _ _
    · exact List.Pairwise.nil

namespace Machine

theorem sortLe_iff {f : MachineSortFn} {a b : Machine} :
    a.sortLe f b = true ↔ b.score f < a.score f ∨
      (a.score f = b.score f ∧ a.stats.currentJobs ≤ b.stats.currentJobs) := by
  unfold sortLe
  split_ifs with h
  · simp [h]
  · simp [h]

end Machine

namespace Machines

variable (ms : Machines) (sortFn : MachineSortFn)

theorem sortLe_eq (a b : MachineRef) :
    ms.sortLe sortFn a b = (ms.machine a).sortLe sortFn (ms.machine b) := rfl

instance : Std.Total (fun a b => ms.sortLe sortFn a b = true) where
  total a b := by
    simp only [sortLe_eq, Machine.sortLe_iff]
    omega

instance : IsTrans MachineRef (fun a b => ms.sortLe sortFn a b = true) where
  trans a b c := by
    simp only [sortLe_eq, Machine.sortLe_iff]
    omega

/-- After `sort` every list is in the order of the comparison. -/
theorem pairwise_sort {system : System} {l : List MachineRef}
    (hl : (ms.sort sortFn).bySystem.lookup system = some l) :
    l.Pairwise (fun a b => (ms.machine a).sortLe sortFn (ms.machine b) = true) := by
  simp only [sort, Map.lookup_mapValues, Option.map_eq_some_iff] at hl
  obtain ⟨l₀, -, rfl⟩ := hl
  exact List.pairwise_insertionSort (fun a b => ms.sortLe sortFn a b = true) l₀

/-- `sort` keeps the members of every list. -/
theorem mem_sort {system : System} {l : List MachineRef}
    (hl : (ms.sort sortFn).bySystem.lookup system = some l) :
    ∃ l₀, ms.bySystem.lookup system = some l₀ ∧ ∀ m, m ∈ l ↔ m ∈ l₀ := by
  simp only [sort, Map.lookup_mapValues, Option.map_eq_some_iff] at hl
  obtain ⟨l₀, hl₀, rfl⟩ := hl
  exact ⟨l₀, hl₀, fun m => List.mem_insertionSort _⟩

end Machines

/-! ## The callback -/

/-- What lies outside: whether the address of a store can be parsed, what
`PgConnectOptions::from_str` makes of a url, and what the comparators read
of a step. -/
structure ReloadEnv (Options : Type) where
  parse : String → Bool
  fromStr : String → Option Options
  keys : StepRef → SortKeys

/-- The part of `State` that a reload changes. -/
structure ReloadState (Client Options : Type) where
  config : PreparedApp
  remoteStores : List Client
  connectOptions : Options
  machines : Machines
  queues : InnerQueues

/-- Where `reload_config_callback` waits: for the client of the address
that it has parsed, with the addresses that are left and the clients that
it has made; for the lock of the queues; in `publish_new_config`. -/
inductive ReloadPc (Client : Type) where
  | connect (todo : List String) (made : List Client)
  | sortQueues (made : List Client)
  | publish

/-- The callback has come to its last await. -/
def ReloadPc.isPublish {Client : Type} : ReloadPc Client → Bool
  | .publish => true
  | .connect _ _ | .sortQueues _ => false

/-- How a turn of the callback ends. -/
inductive ReloadTurn (Client : Type) where
  | wait (pc : ReloadPc Client)
  | err
  | ok

section Callback

variable {Client Options : Type} (env : ReloadEnv Options)

/-- The comparator of a queue for a sort function. -/
def ReloadEnv.cmp (sortFn : StepSortFn) (a b : InfoRef) : Ordering :=
  sortFn.cmpFn (env.keys a.step) (env.keys b.step)

instance (sortFn : StepSortFn) : TransCmp (env.cmp sortFn) :=
  transCmp_comap (c := sortFn.cmpFn) (fun i : InfoRef => env.keys i.step)

namespace ReloadState

/-- The end of the callback up to `publish_new_config`. -/
def writeRemoteStores (s : ReloadState Client Options) (curr new : PreparedApp)
    (made : List Client) : ReloadState Client Options × ReloadTurn Client :=
  (if curr.remoteStoreAddr ≠ new.remoteStoreAddr then { s with remoteStores := made } else s,
    .wait .publish)

/-- The callback from the sorting of the machines on. -/
def sortMachines (s : ReloadState Client Options) (curr new : PreparedApp)
    (made : List Client) : ReloadState Client Options × ReloadTurn Client :=
  let s := if curr.machineSortFn ≠ new.machineSortFn then
      { s with machines := s.machines.sort new.machineSortFn }
    else s
  if curr.stepSortFn ≠ new.stepSortFn then (s, .wait (.sortQueues made))
  else s.writeRemoteStores curr new made

/-- The callback from `reconfigure_pool` on. -/
def reconfigurePool (s : ReloadState Client Options) (curr new : PreparedApp)
    (made : List Client) : ReloadState Client Options × ReloadTurn Client :=
  if curr.dbUrl ≠ new.dbUrl then
    match env.fromStr new.dbUrl with
    | none => (s, .err)
    | some o => { s with connectOptions := o }.sortMachines curr new made
  else s.sortMachines curr new made

/-- The loop over the addresses of the stores. -/
def makeClients (s : ReloadState Client Options) (curr new : PreparedApp) :
    List String → List Client → ReloadState Client Options × ReloadTurn Client
  | [], made => s.reconfigurePool env curr new made
  | uri :: todo, made =>
    if env.parse uri then (s, .wait (.connect todo made)) else (s, .err)

/-- `reload_config_callback` up to its first await. -/
def callback (s : ReloadState Client Options) (new : PreparedApp) :
    ReloadState Client Options × ReloadTurn Client :=
  s.makeClients env s.config new
    (if s.config.remoteStoreAddr ≠ new.remoteStoreAddr then new.remoteStoreAddr else []) []

/-- `reload_config_callback` from one await to the next one.  `answer` is
the client, when it could be made.  The last turn belongs to `reload`:
`swap_inner`.  The queues are sorted by the function of `curr`. -/
def resume (s : ReloadState Client Options) (curr new : PreparedApp)
    (answer : Option Client) : ReloadPc Client → ReloadState Client Options × ReloadTurn Client
  | .connect todo made =>
    match answer with
    | none => (s, .err)
    | some c => s.makeClients env curr new todo (made ++ [c])
  | .sortQueues made =>
    { s with queues := s.queues.sortQueues (fun _ => false) (env.cmp curr.stepSortFn)
      }.writeRemoteStores curr new made
  | .publish => ({ s with config := new }, .ok)

end ReloadState

/-! ## The runs -/

/-- A call of `config::reload` in progress: the settings that it has read
at its start, and, for every turn it has taken, the state before and after
the turn. -/
structure Reload (Client Options : Type) where
  new : PreparedApp
  curr : PreparedApp
  pc : ReloadPc Client
  own : List (ReloadState Client Options × ReloadState Client Options)

/-- A call of `reload` that has returned. -/
structure Reloaded (Client Options : Type) where
  isOk : Bool
  own : List (ReloadState Client Options × ReloadState Client Options)

/-- A call of `insert_new_jobs` that waits for the lock.  The sort function
is an argument of the call. -/
structure NewJobs where
  system : System
  jobs : List (StepRef × StepInfo)
  now : Timestamp
  sortFn : StepSortFn

/-- The state and the calls in progress.  There is one task that reloads,
so at most one reload is in progress. -/
structure ReloadWorld (Client Options : Type) where
  state : ReloadState Client Options
  reload : Option (Reload Client Options) := none
  newMachines : List (Uuid × Machine) := []
  newJobs : List NewJobs := []
  ended : List (Reloaded Client Options) := []

/-- The actions.  `startReload` carries the configuration that was read
from the file, and `finished` answers `get_finished` of the steps. -/
inductive ReloadAction (Client : Type) where
  | startReload (new : PreparedApp)
  | resumeReload (answer : Option Client)
  | startInsertMachine (id : Uuid) (machine : Machine)
  | insertMachine (k : Nat)
  | startInsertNewJobs (system : System) (jobs : List (StepRef × StepInfo)) (now : Timestamp)
  | insertNewJobs (k : Nat) (finished : StepRef → Bool)

namespace ReloadWorld

/-- The runner after its start: no machines and no jobs. -/
def init (config : PreparedApp) (remoteStores : List Client) (connectOptions : Options) :
    ReloadWorld Client Options :=
  { state := ⟨config, remoteStores, connectOptions, {}, {}⟩ }

/-- The end of a turn of the reload. -/
def endTurn (w : ReloadWorld Client Options) (new curr : PreparedApp)
    (own : List (ReloadState Client Options × ReloadState Client Options))
    (r : ReloadState Client Options × ReloadTurn Client) : ReloadWorld Client Options :=
  let own := own ++ [(w.state, r.1)]
  match r.2 with
  | .wait pc => { w with state := r.1, reload := some ⟨new, curr, pc, own⟩ }
  | .err => { w with state := r.1, reload := none, ended := w.ended ++ [⟨false, own⟩] }
  | .ok => { w with state := r.1, reload := none, ended := w.ended ++ [⟨true, own⟩] }

/-- `ensure_queues_for_systems` and `Machines::insert_machine`, with the
sort function that is active now. -/
def doInsertMachine (w : ReloadWorld Client Options) (id : Uuid) (machine : Machine) :
    ReloadWorld Client Options :=
  { w with state :=
    { w.state with
      queues := w.state.queues.ensureQueuesForSystems machine.systems
      machines := (w.state.machines.insertMachine id machine w.state.config.machineSortFn).1 } }

/-- `InnerQueues::insert_new_jobs`, once the lock has been taken. -/
def doInsertNewJobs (w : ReloadWorld Client Options) (finished : StepRef → Bool)
    (call : NewJobs) : ReloadWorld Client Options :=
  { w with state :=
    { w.state with
      queues := w.state.queues.insertNewJobs (fun _ => false) finished
        (env.cmp call.sortFn) call.system call.jobs call.now } }

/-- One turn of one of the calls. -/
def next (w : ReloadWorld Client Options) :
    ReloadAction Client → Option (ReloadWorld Client Options)
  | .startReload new =>
    match w.reload with
    | some _ => none
    | none => some (w.endTurn new w.state.config [] (w.state.callback env new))
  | .resumeReload answer =>
    match w.reload with
    | none => none
    | some r =>
      some (w.endTurn r.new r.curr r.own (w.state.resume env r.curr r.new answer r.pc))
  | .startInsertMachine id machine =>
    -- without systems there is nothing to wait for
    if machine.systems = [] then some (w.doInsertMachine id machine)
    else some { w with newMachines := w.newMachines ++ [(id, machine)] }
  | .insertMachine k =>
    match w.newMachines[k]? with
    | none => none
    | some (id, machine) =>
      some { w.doInsertMachine id machine with newMachines := w.newMachines.eraseIdx k }
  | .startInsertNewJobs system jobs now =>
    some { w with newJobs := w.newJobs ++ [⟨system, jobs, now, w.state.config.stepSortFn⟩] }
  | .insertNewJobs k finished =>
    match w.newJobs[k]? with
    | none => none
    | some call =>
      some { w.doInsertNewJobs env finished call with newJobs := w.newJobs.eraseIdx k }

/-! ## The property -/

/-- A reload that has returned an error changed nothing in any of its
turns. -/
def AllOrNothing (w : ReloadWorld Client Options) : Prop :=
  ∀ r ∈ w.ended, r.isOk = false → ∀ p ∈ r.own, p.2 = p.1

/-- Every queue is sorted by the comparator of `sortFn`. -/
def QueuesSorted (s : ReloadState Client Options) (sortFn : StepSortFn) : Prop :=
  ∀ system, (s.queues.queueJobs system).Pairwise (fun a b => env.cmp sortFn a b ≠ .gt)

/-- Every list of machines is sorted by `sortFn`. -/
def MachinesSorted (s : ReloadState Client Options) (sortFn : MachineSortFn) : Prop :=
  ∀ system l, s.machines.bySystem.lookup system = some l →
    l.Pairwise (fun a b => (s.machines.machine a).sortLe sortFn (s.machines.machine b) = true)

/-- No call is in progress. -/
def Idle (w : ReloadWorld Client Options) : Prop :=
  w.reload = none ∧ w.newMachines = [] ∧ w.newJobs = []

/-- Once all calls are done, the queues and the machines are in the order
of the active configuration. -/
def Effective (w : ReloadWorld Client Options) : Prop :=
  w.Idle → QueuesSorted env w.state w.state.config.stepSortFn ∧
    MachinesSorted w.state w.state.config.machineSortFn

/-! ## The condition -/

/-- Two sort functions compare all of these steps in the same way. -/
def StepsAlike (f g : StepSortFn) (steps : List StepRef) : Prop :=
  ∀ a ∈ steps, ∀ b ∈ steps, f.cmpFn (env.keys a) (env.keys b) = g.cmpFn (env.keys a) (env.keys b)

/-- Two sort functions compare all of these machines in the same way. -/
def MachinesAlike (f g : MachineSortFn) (machines : List Machine) : Prop :=
  ∀ a ∈ machines, ∀ b ∈ machines, a.sortLe f b = a.sortLe g b

/-- The function by which the machines should be sorted: that of the new
configuration as soon as the callback has sorted them. -/
def listedBy (w : ReloadWorld Client Options) : MachineSortFn :=
  match w.reload with
  | none => w.state.config.machineSortFn
  | some r =>
    match r.pc with
    | .connect _ _ => w.state.config.machineSortFn
    | .sortQueues _ | .publish => r.new.machineSortFn

/-- The machines of the lists. -/
def listed (s : ReloadState Client Options) : List Machine :=
  s.machines.bySystem.values.flatten.map s.machines.machine

/-- Wherever the code sorts by a function that is not the one in force, or
swaps in a function by which it has not sorted, both functions compare the
jobs or the machines in question in the same way. -/
def SortsAlike (w : ReloadWorld Client Options) : ReloadAction Client → Prop
  | .startReload _ => True
  | .resumeReload _ => ∀ r ∈ w.reload, r.pc.isPublish = true →
      ∀ bq ∈ w.state.queues.inner.values,
        StepsAlike env w.state.config.stepSortFn r.new.stepSortFn (bq.jobs.map InfoRef.step)
  | .startInsertMachine _ machine => machine.systems = [] →
      MachinesAlike w.state.config.machineSortFn w.listedBy (machine :: listed w.state)
  | .insertMachine k => ∀ call ∈ w.newMachines[k]?,
      MachinesAlike w.state.config.machineSortFn w.listedBy (call.2 :: listed w.state)
  | .startInsertNewJobs _ _ _ => True
  | .insertNewJobs k _ => ∀ call ∈ w.newJobs[k]?,
      StepsAlike env call.sortFn w.state.config.stepSortFn
        ((w.state.queues.queueJobs call.system).map InfoRef.step ++ call.jobs.map Prod.fst)

instance (f g : StepSortFn) (steps : List StepRef) : Decidable (StepsAlike env f g steps) :=
  inferInstanceAs (Decidable (∀ a ∈ steps, ∀ b ∈ steps,
    f.cmpFn (env.keys a) (env.keys b) = g.cmpFn (env.keys a) (env.keys b)))

instance (f g : MachineSortFn) (machines : List Machine) :
    Decidable (MachinesAlike f g machines) :=
  inferInstanceAs (Decidable (∀ a ∈ machines, ∀ b ∈ machines, a.sortLe f b = a.sortLe g b))

instance (w : ReloadWorld Client Options) (a : ReloadAction Client) :
    Decidable (SortsAlike env w a) :=
  match a with
  | .startReload _ | .startInsertNewJobs .. => inferInstanceAs (Decidable True)
  | .resumeReload _ => inferInstanceAs (Decidable (∀ r ∈ w.reload, r.pc.isPublish = true →
      ∀ bq ∈ w.state.queues.inner.values,
        StepsAlike env w.state.config.stepSortFn r.new.stepSortFn (bq.jobs.map InfoRef.step)))
  | .startInsertMachine _ machine => inferInstanceAs (Decidable (machine.systems = [] →
      MachinesAlike w.state.config.machineSortFn w.listedBy (machine :: listed w.state)))
  | .insertMachine k => inferInstanceAs (Decidable (∀ call ∈ w.newMachines[k]?,
      MachinesAlike w.state.config.machineSortFn w.listedBy (call.2 :: listed w.state)))
  | .insertNewJobs k _ => inferInstanceAs (Decidable (∀ call ∈ w.newJobs[k]?,
      StepsAlike env call.sortFn w.state.config.stepSortFn
        ((w.state.queues.queueJobs call.system).map InfoRef.step ++ call.jobs.map Prod.fst)))

end ReloadWorld

end Callback

section Runs

variable {Client Options : Type} {env : ReloadEnv Options}

/-! ## One turn of the callback -/

/-- What the callback has done when it fails or waits: nothing as long as
it makes clients, and as far as the machines and the queues are concerned
at most the sorting of the machines when it is past the pool. -/
inductive CallbackStep (s : ReloadState Client Options) (curr new : PreparedApp) :
    ReloadState Client Options × ReloadTurn Client → Prop where
  | err : CallbackStep s curr new (s, .err)
  | connect (todo : List String) (made : List Client) :
      CallbackStep s curr new (s, .wait (.connect todo made))
  | sorted (s' : ReloadState Client Options) (pc : ReloadPc Client)
      (hpc : ∀ todo made, pc ≠ .connect todo made)
      (hconfig : s'.config = s.config) (hqueues : s'.queues = s.queues)
      (hmachines : s'.machines = if curr.machineSortFn ≠ new.machineSortFn then
        s.machines.sort new.machineSortFn else s.machines) :
      CallbackStep s curr new (s', .wait pc)

namespace ReloadState

variable {s₀ s : ReloadState Client Options} {curr new : PreparedApp}

theorem callbackStep_sortMachines (hconfig : s.config = s₀.config)
    (hqueues : s.queues = s₀.queues) (hmachines : s.machines = s₀.machines)
    (made : List Client) :
    CallbackStep s₀ curr new (s.sortMachines curr new made) := by
  rw [sortMachines]
  by_cases hm : curr.machineSortFn = new.machineSortFn <;>
    by_cases hs : curr.stepSortFn = new.stepSortFn <;>
    by_cases hr : curr.remoteStoreAddr = new.remoteStoreAddr <;>
    simp only [writeRemoteStores, hm, hs, hr, ne_eq, not_true_eq_false, not_false_eq_true,
      if_true, if_false] <;>
    exact .sorted _ _ (by simp) hconfig hqueues (by simp [hm, hmachines])

theorem callbackStep_makeClients (s : ReloadState Client Options) (curr new : PreparedApp)
    (todo : List String) (made : List Client) :
    CallbackStep s curr new (s.makeClients env curr new todo made) := by
  cases todo with
  | cons uri todo =>
    rw [makeClients]
    split_ifs
    · exact .connect todo made
    · exact .err
  | nil =>
    rw [makeClients, reconfigurePool]
    split_ifs
    · split
      · exact .err
      · refine callbackStep_sortMachines ?_ ?_ ?_ made <;> rfl
    · exact callbackStep_sortMachines rfl rfl rfl made

end ReloadState

theorem ReloadState.resume_sortQueues (env : ReloadEnv Options)
    (s : ReloadState Client Options) (curr new : PreparedApp) (answer : Option Client)
    (made : List Client) : ∃ stores, s.resume env curr new answer (.sortQueues made) =
      ({ s with
          queues := s.queues.sortQueues (fun _ => false) (env.cmp curr.stepSortFn)
          remoteStores := stores }, .wait .publish) := by
  rw [resume, writeRemoteStores]
  split_ifs
  · exact ⟨made, rfl⟩
  · exact ⟨s.remoteStores, rfl⟩

namespace ReloadWorld

variable {w w' : ReloadWorld Client Options}

/-! ## The invariant -/

variable (env) in
/-- What holds between any two turns.  The queues are always sorted by the
active function, the machines by that of `listedBy`. -/
structure ReloadInv (w : ReloadWorld Client Options) : Prop where
  allOrNothing : w.AllOrNothing
  curr : ∀ r, w.reload = some r → r.curr = w.state.config
  connect : ∀ r todo made, w.reload = some r → r.pc = .connect todo made →
    ∀ p ∈ r.own, p.2 = p.1
  queued : ∀ system, ∀ i ∈ w.state.queues.queueJobs system,
    ∃ drv, w.state.queues.jobs.lookup drv = some i
  queues : QueuesSorted env w.state w.state.config.stepSortFn
  registered : ∀ system l, w.state.machines.bySystem.lookup system = some l →
    ∀ m ∈ l, m.gen < w.state.machines.fresh
  machines : MachinesSorted w.state w.listedBy

namespace ReloadInv

theorem init (config : PreparedApp) (remoteStores : List Client) (connectOptions : Options) :
    ReloadInv env (init config remoteStores connectOptions) := by
  refine ⟨?_, ?_, ?_, ?_, ?_, ?_, ?_⟩ <;>
    simp [ReloadWorld.init, AllOrNothing, QueuesSorted, MachinesSorted, InnerQueues.queueJobs]

/-! ### Queues -/

/-- A queue that is in the order of one function is in the order of every
function that compares its jobs in the same way. -/
theorem pairwise_of_alike {f g : StepSortFn} {steps : List StepRef} {l : List InfoRef}
    (halike : StepsAlike env f g steps) (hsub : ∀ i ∈ l, i.step ∈ steps)
    (hl : l.Pairwise (fun a b => env.cmp f a b ≠ .gt)) :
    l.Pairwise (fun a b => env.cmp g a b ≠ .gt) := by
  refine hl.imp_of_mem fun ha hb hle => ?_
  rw [ReloadEnv.cmp, ← halike _ (hsub _ ha) _ (hsub _ hb)]
  exact hle

/-- The queues after `sort_queues`. -/
theorem pairwise_sortQueues {q : InnerQueues} (sortFn : StepSortFn)
    (hqueued : ∀ system, ∀ i ∈ q.queueJobs system, ∃ drv, q.jobs.lookup drv = some i)
    (system : System) :
    ((q.sortQueues (fun _ => false) (env.cmp sortFn)).queueJobs system).Pairwise
      (fun a b => env.cmp sortFn a b ≠ .gt) := by
  have hmem := InnerQueues.queueJobs_sortQueues_perm (env.cmp sortFn) q (fun _ => false) system
  refine BuildQueue.pairwise_cmp (q.live (fun _ => false)) (fun i hi => ?_) ?_
  · exact (InnerQueues.live_iff _ _ _).mpr (Or.inr (Or.inl (hqueued system i (hmem.mem_iff.mp hi))))
  · rw [InnerQueues.sortQueues, InnerQueues.queueJobs_mapValues]
    cases q.inner.lookup system with
    | none => exact List.Pairwise.nil
    | some bq => exact BuildQueue.pairwise_sortJobs _ _ bq

/-- Jobs that are in the map stay there. -/
theorem queued_insertNewJobs {q : InnerQueues} (finished : StepRef → Bool) (call : NewJobs)
    (hqueued : ∀ system, ∀ i ∈ q.queueJobs system, ∃ drv, q.jobs.lookup drv = some i)
    (system : System) : ∀ i ∈ (q.insertNewJobs (fun _ => false) finished
      (env.cmp call.sortFn) call.system call.jobs call.now).queueJobs system,
    ∃ drv, (q.insertNewJobs (fun _ => false) finished (env.cmp call.sortFn) call.system
      call.jobs call.now).jobs.lookup drv = some i := by
  intro i hi
  have hsub := InnerQueues.submitted_submitJobs q finished call.jobs
  rw [InnerQueues.insertNewJobs_jobs]
  rcases InnerQueues.mem_queueJobs_insertNewJobs _ _ _ _ _ _ _ hi with hold | ⟨-, hnew⟩
  · obtain ⟨drv, hdrv⟩ := hqueued system i hold
    exact ⟨drv, (hsub.lookup drv i).mpr (Or.inl hdrv)⟩
  · exact ⟨i.drvPath, (hsub.lookup _ i).mpr (Or.inr ⟨hnew, rfl⟩)⟩

/-- `insert_new_jobs` keeps the queues sorted when its function and the
active one compare the jobs of the queue in the same way. -/
theorem doInsertNewJobs (h : ReloadInv env w) (finished : StepRef → Bool) (call : NewJobs)
    (calls : List NewJobs)
    (halike : StepsAlike env call.sortFn w.state.config.stepSortFn
      ((w.state.queues.queueJobs call.system).map InfoRef.step ++ call.jobs.map Prod.fst)) :
    ReloadInv env { w.doInsertNewJobs env finished call with newJobs := calls } := by
  refine { h with queued := queued_insertNewJobs finished call h.queued, queues := ?_ }
  intro system
  by_cases hs : system = call.system
  · subst hs
    refine pairwise_of_alike halike (fun i hi => ?_) 
      (InnerQueues.pairwise_insertNewJobs _ _ finished _ _ _ _)
    rcases InnerQueues.mem_queueJobs_insertNewJobs _ _ _ _ _ _ _ hi with hold | ⟨-, hnew⟩
    · exact List.mem_append_left _ (List.mem_map_of_mem hold)
    · obtain ⟨-, info, hjob, -⟩ :=
        (InnerQueues.submitted_submitJobs _ finished call.jobs).origin i hnew
      exact List.mem_append_right _ (List.mem_map_of_mem (f := Prod.fst) hjob)
  · have hq := h.queues system
    rw [← InnerQueues.queueJobs_insertNewJobs_of_ne _ _ _ _ _ _ _ hs] at hq
    exact hq

/-! ### Machines -/

/-- The records of the listed machines after `insert_machine`. -/
theorem mem_listed_insertMachine {s : ReloadState Client Options} {id : Uuid}
    {machine : Machine} {sortFn : MachineSortFn} {system : System} {l : List MachineRef}
    (hreg : ∀ system l, s.machines.bySystem.lookup system = some l →
      ∀ m ∈ l, m.gen < s.machines.fresh)
    (hl : (s.machines.insertMachine id machine sortFn).1.bySystem.lookup system = some l)
    {m : MachineRef} (hm : m ∈ l) :
    (s.machines.insertMachine id machine sortFn).1.machine m ∈ machine :: listed s := by
  rcases Machines.insertMachine_bySystem hl hm with ⟨rfl, -⟩ | ⟨l', hl', hm'⟩
  · simp [Machines.insertMachine, Machines.sort]
  · have hne : m ≠ ⟨id, s.machines.fresh⟩ := by
      rintro rfl
      exact absurd (hreg system l' hl' _ hm') (Nat.lt_irrefl _)
    have hsame : (s.machines.insertMachine id machine sortFn).1.machine m =
        s.machines.machine m := Function.update_of_ne hne _ _
    rw [hsame]
    refine List.mem_cons_of_mem _ (List.mem_map_of_mem (List.mem_flatten.mpr ⟨l', ?_, hm'⟩))
    exact Map.mem_values_iff.mpr ⟨system, hl'⟩

/-- `insert_machine` keeps the machines sorted when the active function and
the one by which they should be sorted compare them in the same way. -/
theorem doInsertMachine (h : ReloadInv env w) (id : Uuid) (machine : Machine)
    (calls : List (Uuid × Machine))
    (halike : MachinesAlike w.state.config.machineSortFn w.listedBy
      (machine :: listed w.state)) :
    ReloadInv env { w.doInsertMachine id machine with newMachines := calls } := by
  obtain ⟨hjobs, -, -, -, hqueue⟩ :=
    InnerQueues.ensureQueuesForSystems_frame w.state.queues machine.systems
  refine { h with queued := ?_, queues := ?_, registered := ?_, machines := ?_ }
  · intro system i hi
    simp only [ReloadWorld.doInsertMachine, hqueue, hjobs] at hi ⊢
    exact h.queued system i hi
  · intro system
    simp only [ReloadWorld.doInsertMachine, hqueue]
    exact h.queues system
  · intro system l hl m hm
    rcases Machines.insertMachine_bySystem hl hm with ⟨rfl, -⟩ | ⟨l', hl', hm'⟩
    · exact Nat.lt_succ_self _
    · exact Nat.lt_succ_of_lt (h.registered system l' hl' m hm')
  · intro system l hl
    refine (Machines.pairwise_sort _ _ hl).imp_of_mem fun ha hb hle => ?_
    have hrec := halike _ (mem_listed_insertMachine h.registered hl ha) _
      (mem_listed_insertMachine h.registered hl hb)
    exact hrec.symm.trans hle

/-! ### The reload -/

/-- A turn of the callback before the lock of the queues. -/
theorem endTurn_callback (h : ReloadInv env w) {new : PreparedApp}
    {own : List (ReloadState Client Options × ReloadState Client Options)}
    {r : ReloadState Client Options × ReloadTurn Client}
    (hown : ∀ p ∈ own, p.2 = p.1)
    (hfn : w.listedBy = w.state.config.machineSortFn)
    (hstep : CallbackStep w.state w.state.config new r) :
    ReloadInv env (w.endTurn new w.state.config own r) := by
  have hown' : ∀ p ∈ own ++ [(w.state, w.state)], p.2 = p.1 := by
    intro p hp
    rcases List.mem_append.mp hp with hp | hp
    · exact hown p hp
    · rw [List.mem_singleton.mp hp]
  have hmachines := h.machines
  rw [hfn] at hmachines
  cases hstep with
  | err =>
    refine { h with allOrNothing := ?_, curr := ?_, connect := ?_, machines := ?_ }
    · intro e he hok
      rcases List.mem_append.mp he with he | he
      · exact h.allOrNothing e he hok
      · rw [List.mem_singleton.mp he]
        exact hown'
    · rintro r ⟨⟩
    · rintro r todo made ⟨⟩
    · exact hmachines
  | connect todo made =>
    refine { h with curr := ?_, connect := ?_, machines := ?_ }
    · rintro r ⟨⟩
      rfl
    · rintro r todo' made' ⟨⟩ -
      exact hown'
    · exact hmachines
  | sorted s' pc hpc hconfig hqueues hsorted =>
    have hfn' : (w.endTurn new w.state.config own (s', .wait pc)).listedBy =
        new.machineSortFn := by
      cases pc with
      | connect todo made => exact absurd rfl (hpc todo made)
      | sortQueues made => rfl
      | publish => rfl
    refine ⟨h.allOrNothing, ?_, ?_, ?_, ?_, ?_, ?_⟩
    · rintro r ⟨⟩
      exact hconfig.symm
    · rintro r todo made ⟨⟩ heq
      exact absurd heq (hpc todo made)
    · simpa only [endTurn, hqueues] using h.queued
    · simpa only [endTurn, QueuesSorted, hconfig, hqueues] using h.queues
    · intro system l hl m hm
      simp only [endTurn, hsorted] at hl ⊢
      split_ifs at hl ⊢
      · obtain ⟨l₀, hl₀, hmem⟩ := Machines.mem_sort _ _ hl
        exact h.registered system l₀ hl₀ m ((hmem m).mp hm)
      · exact h.registered system l hl m hm
    · rw [hfn']
      intro system l hl
      simp only [endTurn, hsorted] at hl ⊢
      split_ifs at hl ⊢ with heq
      · exact Machines.pairwise_sort w.state.machines _ hl
      · rw [← not_not.mp heq]
        exact hmachines system l hl

/-- The turn that sorts the queues, by the function that is still active. -/
theorem endTurn_sortQueues (h : ReloadInv env w) {r : Reload Client Options}
    {made : List Client} {answer : Option Client} (hr : w.reload = some r)
    (hpc : r.pc = .sortQueues made) :
    ReloadInv env
      (w.endTurn r.new r.curr r.own (w.state.resume env r.curr r.new answer r.pc)) := by
  have hfn : w.listedBy = r.new.machineSortFn := by simp only [listedBy, hr, hpc]
  have hcurr := h.curr r hr
  obtain ⟨stores, heq⟩ := w.state.resume_sortQueues env r.curr r.new answer made
  rw [hpc, heq]
  refine ⟨h.allOrNothing, ?_, ?_, ?_, ?_, h.registered, ?_⟩
  · rintro r' ⟨⟩
    exact hcurr
  · rintro r' todo made' ⟨⟩ hne
    cases hne
  · intro system i hi
    exact h.queued system i ((InnerQueues.queueJobs_sortQueues_perm _ _ _ system).mem_iff.mp hi)
  · intro system
    have hsorted : ((w.state.queues.sortQueues _ (env.cmp _)).queueJobs system).Pairwise _ :=
      pairwise_sortQueues r.curr.stepSortFn h.queued system
    rw [hcurr] at hsorted ⊢
    exact hsorted
  · intro system l hl
    have hlist := h.machines system l hl
    rw [hfn] at hlist
    exact hlist

/-- The swap: both functions compare the jobs of every queue in the same
way. -/
theorem endTurn_publish (h : ReloadInv env w) {r : Reload Client Options}
    {answer : Option Client} (hr : w.reload = some r) (hpc : r.pc = .publish)
    (halike : ∀ bq ∈ w.state.queues.inner.values,
      StepsAlike env w.state.config.stepSortFn r.new.stepSortFn (bq.jobs.map InfoRef.step)) :
    ReloadInv env
      (w.endTurn r.new r.curr r.own (w.state.resume env r.curr r.new answer r.pc)) := by
  have hfn : w.listedBy = r.new.machineSortFn := by simp only [listedBy, hr, hpc]
  rw [hpc]
  refine ⟨?_, ?_, ?_, h.queued, ?_, h.registered, ?_⟩
  · intro e he hok
    rcases List.mem_append.mp he with he | he
    · exact h.allOrNothing e he hok
    · rw [List.mem_singleton.mp he] at hok
      cases hok
  · rintro r' ⟨⟩
  · rintro r' todo made ⟨⟩
  · intro system
    have hsorted := h.queues system
    simp only [endTurn, ReloadState.resume]
    unfold InnerQueues.queueJobs at hsorted ⊢
    cases hl : w.state.queues.inner.lookup system with
    | none => exact List.Pairwise.nil
    | some bq =>
      simp only [hl] at hsorted
      exact pairwise_of_alike (halike bq (Map.mem_values_iff.mpr ⟨system, hl⟩))
        (fun i hi => List.mem_map_of_mem hi) hsorted
  · intro system l hl
    have hlist := h.machines system l hl
    rw [hfn] at hlist
    exact hlist

/-- The calls in progress other than the reload do not matter. -/
theorem of_calls (h : ReloadInv env w) (machines : List (Uuid × Machine)) (jobs : List NewJobs) :
    ReloadInv env { w with newMachines := machines, newJobs := jobs } :=
  { h with }

/-- One turn of any call. -/
theorem step {a : ReloadAction Client} (h : ReloadInv env w) (hok : SortsAlike env w a)
    (hnext : next env w a = some w') : ReloadInv env w' := by
  cases a with
  | startReload new =>
    cases hr : w.reload with
    | some r => simp [next, hr] at hnext
    | none =>
      simp only [next, hr, Option.some.injEq] at hnext
      subst hnext
      exact h.endTurn_callback (by simp) (by simp [listedBy, hr])
        (ReloadState.callbackStep_makeClients _ _ _ _ _)
  | resumeReload answer =>
    cases hr : w.reload with
    | none => simp [next, hr] at hnext
    | some r =>
      simp only [next, hr, Option.some.injEq] at hnext
      subst hnext
      cases hpc : r.pc with
      | connect todo made =>
        have hfn : w.listedBy = w.state.config.machineSortFn := by simp only [listedBy, hr, hpc]
        rw [h.curr r hr]
        refine h.endTurn_callback (h.connect r todo made hr hpc) hfn ?_
        cases answer with
        | none => exact .err
        | some c => exact ReloadState.callbackStep_makeClients _ _ _ _ _
      | sortQueues made =>
        rw [← hpc]
        exact h.endTurn_sortQueues hr hpc
      | publish =>
        rw [← hpc]
        exact h.endTurn_publish hr hpc (hok r hr (by rw [hpc]; rfl))
  | startInsertMachine id machine =>
    simp only [next] at hnext
    split_ifs at hnext with hs <;> cases hnext
    · exact h.doInsertMachine id machine w.newMachines (hok hs)
    · exact h.of_calls _ _
  | insertMachine k =>
    cases hk : w.newMachines[k]? with
    | none => simp [next, hk] at hnext
    | some call =>
      obtain ⟨id, machine⟩ := call
      simp only [next, hk, Option.some.injEq] at hnext
      subst hnext
      exact h.doInsertMachine id machine _ (hok _ hk)
  | startInsertNewJobs system jobs now =>
    cases hnext
    exact h.of_calls _ _
  | insertNewJobs k finished =>
    cases hk : w.newJobs[k]? with
    | none => simp [next, hk] at hnext
    | some call =>
      simp only [next, hk, Option.some.injEq] at hnext
      subst hnext
      exact h.doInsertNewJobs finished call _ (hok call hk)

end ReloadInv

end ReloadWorld

/-- In a run that sorts by a function that is not in force only where the
two functions compare alike, a failed reload changes nothing, and whenever
no call is in progress the queues and the lists of machines are in the
order of the active configuration. -/
theorem reloadEffective_runs {config : PreparedApp} {remoteStores : List Client}
    {connectOptions : Options} {w : ReloadWorld Client Options}
    (hrun : Lts.Reach (ReloadWorld.next env) (ReloadWorld.SortsAlike env)
      (ReloadWorld.init config remoteStores connectOptions) w) :
    w.AllOrNothing ∧ w.Effective env := by
  have hinv : ReloadWorld.ReloadInv env w :=
    hrun.invariant (.init config remoteStores connectOptions)
      fun _ _ _ h hok hnext => h.step hok hnext
  refine ⟨hinv.allOrNothing, fun hidle => ⟨hinv.queues, ?_⟩⟩
  have hmachines := hinv.machines
  simpa only [ReloadWorld.listedBy, hidle.1] using hmachines

end Runs

namespace ReloadSample

/-- The step with number `n`. -/
def step (n : Nat) : StepRef := ⟨⟨s!"{n}.drv"⟩, n⟩

/-- Step 0 has reverse dependencies, step 1 has a local priority and step 2
has a global one. -/
def env : ReloadEnv Unit where
  parse _ := true
  fromStr _ := some ()
  keys s := match s.gen with
    | 0 => { rdepsLen := 5 }
    | 1 => { highestLocalPriority := 1 }
    | _ => { highestGlobalPriority := 1 }

/-- A configuration with these two sort functions. -/
def app (machineSortFn : MachineSortFn) (stepSortFn : StepSortFn) : PreparedApp :=
  .prepare (fun _ => none) { machineSortFn := machineSortFn, stepSortFn := stepSortFn }

/-- The configuration at the start. -/
def start : ReloadWorld Unit Unit := .init (app .speedFactorOnly .withRdeps) [] ()

/-- A machine with a speed factor and a score by its cores. -/
def machine (speed cores : Int) : Machine where
  systems := ["x86_64-linux"]
  score
    | .speedFactorOnly => speed
    | .cpuCoreCountWithSpeedFactor | .bogomipsWithSpeedFactor => speed * cores

/-- Two jobs enter the queue. -/
def insertJobs (a b : Nat) : List (ReloadAction Unit) :=
  [.startInsertNewJobs "x86_64-linux" [(step a, {}), (step b, {})] 0,
    .insertNewJobs 0 (fun _ => false)]

/-- Two machines join, the faster one has fewer cores. -/
def insertMachines : List (ReloadAction Unit) :=
  [.startInsertMachine 1 (machine 1 8), .startInsertMachine 2 (machine 2 1),
    .insertMachine 1, .insertMachine 0]

/-- A reload that changes both functions. -/
def reload : List (ReloadAction Unit) :=
  [.startReload (app .cpuCoreCountWithSpeedFactor .legacy), .resumeReload none,
    .resumeReload none]

/-- What is left of a run: the calls in progress, the active function, the
queue and the machines. -/
def view (w : ReloadWorld Unit Unit) : Bool × StepSortFn × List Nat × Option (List Uuid) :=
  (w.reload.isNone && w.newMachines.isEmpty && w.newJobs.isEmpty, w.state.config.stepSortFn,
    (w.state.queues.queueJobs "x86_64-linux").map (fun i => i.step.gen),
    (w.state.machines.bySystem.lookup "x86_64-linux").map (fun l => l.map MachineRef.id))

theorem idle_of_view {w : ReloadWorld Unit Unit} (h : (view w).1 = true) : w.Idle := by
  simpa [view, ReloadWorld.Idle, and_assoc] using h

end ReloadSample

theorem reloadEffective_runs_reload : ∃ w : ReloadWorld Unit Unit,
    Lts.Reach (ReloadWorld.next ReloadSample.env) (ReloadWorld.SortsAlike ReloadSample.env)
      ReloadSample.start w ∧
    ReloadSample.view w = (true, .legacy, [2, 0], some [1, 2]) ∧
    w.AllOrNothing ∧ w.Effective ReloadSample.env := by
  have hend : (Lts.runWith (ReloadWorld.next ReloadSample.env)
      (ReloadWorld.SortsAlike ReloadSample.env) ReloadSample.start
      (ReloadSample.insertJobs 0 2 ++ ReloadSample.insertMachines ++ ReloadSample.reload)).map
        ReloadSample.view = some (true, .legacy, [2, 0], some [1, 2]) := by
    decide +kernel
  obtain ⟨w, hw, hview⟩ := Option.map_eq_some_iff.mp hend
  have hrun := Lts.reach_of_runWith hw
  exact ⟨w, hrun, hview, reloadEffective_runs hrun⟩

/-- The queue holds a step with reverse dependencies before one with a local
priority.  After the reload the legacy comparator is active, which orders
them the other way round. -/
theorem reloadEffective_fails : ∃ w : ReloadWorld Unit Unit,
    Lts.Reach (ReloadWorld.next ReloadSample.env) Lts.anyStep ReloadSample.start w ∧
      ¬ (w.AllOrNothing ∧ w.Effective ReloadSample.env) := by
  have hend : (Lts.run (ReloadWorld.next ReloadSample.env) ReloadSample.start
      (ReloadSample.insertJobs 0 1 ++ ReloadSample.reload)).map ReloadSample.view =
        some (true, .legacy, [0, 1], none) := by
    decide +kernel
  obtain ⟨w, hw, hview⟩ := Option.map_eq_some_iff.mp hend
  refine ⟨w, Lts.reach_of_run hw, fun ⟨_, heff⟩ => ?_⟩
  have hidle : w.Idle := ReloadSample.idle_of_view (by rw [hview])
  have hsorted := (heff hidle).1 "x86_64-linux"
  simp only [ReloadSample.view, Prod.mk.injEq] at hview
  obtain ⟨-, hfn, hjobs, -⟩ := hview
  have hgen : ((w.state.queues.queueJobs "x86_64-linux").map (fun i => i.step.gen)).Pairwise
      (fun a b => StepSortFn.legacy.cmpFn (ReloadSample.env.keys (ReloadSample.step a))
        (ReloadSample.env.keys (ReloadSample.step b)) ≠ .gt) := by
    rw [List.pairwise_map]
    rw [hfn] at hsorted
    exact hsorted
  rw [hjobs] at hgen
  exact absurd hgen (by decide)

end QueueRunner
