import QueueRunner.Builder

/-!
# The entries of the active builds

`schedule_build` of `builder/src/state.rs` spawns the task of a build and
then inserts the entry of the build in `active_builds`.  The task removes
the entry before it reports, and `abort_build` removes it before it aborts
the task.  The threads interleave at each access to `active_builds`: here
`abort_build` takes two steps, where `Builder.next` takes one.  The tasks
end with a success, with an error or by an abort; a panic is not among their
steps.

A task can come to its removal before `schedule_build` comes to the
insertion.  The entry then stays when the task has ended, and no build of
the derivation is accepted any more.  `entriesKept_runs` says that the
entries follow the tasks in all other runs.
-/

namespace QueueRunner

/-- The builder, with the entry that `abort_build` has removed and whose
task it aborts next. -/
structure BuilderThreads where
  builder : Builder := {}
  aborting : Option BuildInfo := none

/-- The steps of the threads. -/
inductive ThreadAction where
  | build (m : BuildMessage)
  /-- The end of `schedule_build`. -/
  | insert
  | abort (m : AbortMessage)
  /-- The end of `abort_build`. -/
  | abortTask
  | task (t : Nat) (ok : Bool)
  | cancel (t : Nat)

/-- Whether the removal of the entry is still to come. -/
def BuildTaskPc.pending : BuildTaskPc → Bool
  | .processing | .submitting | .succeeded | .failed | .removing => true
  | .removed | .reporting => false

/-- Whether the next step is the removal of the entry. -/
def BuildTaskPc.removes : BuildTaskPc → Bool
  | .succeeded | .removing => true
  | .processing | .submitting | .failed | .removed | .reporting => false

namespace BuilderThreads

/-- One step of the builder, while no `abort_build` is under way. -/
def handle (w : BuilderThreads) (a : BuilderAction) : Option BuilderThreads :=
  match w.aborting with
  | some _ => none
  | none => (w.builder.next a).map (fun b => { w with builder := b })

/-- `abort_build` up to the removal of the entry. -/
def abort (w : BuilderThreads) (m : AbortMessage) : BuilderThreads :=
  match m.buildId with
  | none => w
  | some id =>
    { builder := { (w.builder.removeBuild id).1 with aborts := id :: w.builder.aborts }
      aborting := (w.builder.removeBuild id).2 }

/-- One step.  The messages are handled one after the other. -/
def next (w : BuilderThreads) : ThreadAction → Option BuilderThreads
  | .build m => w.handle (.build m)
  | .insert => w.handle .insert
  | .abort m =>
    match w.aborting, w.builder.inserting with
    | none, none => some (w.abort m)
    | _, _ => none
  | .abortTask =>
    match w.aborting with
    | some info => some { builder := w.builder.abortTask info, aborting := none }
    | none => none
  | .task t ok => (w.builder.next (.task t ok)).map (fun b => { w with builder := b })
  | .cancel t => (w.builder.next (.cancel t)).map (fun b => { w with builder := b })

/-- The two steps of `abort_build` are the one step of the builder. -/
theorem abort_abortTask {w : BuilderThreads} {id : Uuid} {info : BuildInfo}
    (h : w.builder.activeBuilds.lookup id = some info) :
    (w.abort ⟨some id⟩).next .abortTask = some
      { builder := { w.builder.abortBuild ⟨some id⟩ with aborts := id :: w.builder.aborts }
        aborting := none } := by
  unfold next abort Builder.abortBuild Builder.removeBuild
  simp only [h, Option.some.injEq, mk.injEq, and_true]
  unfold Builder.abortTask
  cases w.builder.tasks.lookup info.handle with
  | none => rfl
  | some task => rfl

/-! ## The property -/

/-- `schedule_build` for the id is not between its two parts. -/
def Returned (w : BuilderThreads) (id : Uuid) : Prop :=
  ∀ e, w.builder.inserting = some e → e.1 ≠ id

/-- `abort_build` has not taken the entry of the task. -/
def NotAborted (w : BuilderThreads) (t : Nat) (task : BuildTask) : Prop :=
  task.aborted = false ∧ ∀ info, w.aborting = some info → info.handle ≠ t

/-- A build whose task has ended has no entry; a task has an entry from the
end of `schedule_build` to its removal. -/
structure EntriesKept (w : BuilderThreads) : Prop where
  gone : ∀ id ∈ w.builder.delivered, (∀ task ∈ w.builder.tasks.values, task.buildId ≠ id) →
    w.Returned id → w.builder.activeBuilds.lookup id = none
  present : ∀ t task, w.builder.tasks.lookup t = some task → w.Returned task.buildId →
    w.NotAborted t task → task.pc.pending = true →
    ∃ info, w.builder.activeBuilds.lookup task.buildId = some info ∧ info.handle = t

/-- The ids of the builds are distinct. -/
def DistinctIds (w : BuilderThreads) : ThreadAction → Prop
  | .build m => ∀ id ∈ m.buildId, id ∉ w.builder.delivered
  | _ => True

/-- A task does not remove the entry of its build before `schedule_build`
has inserted it. -/
def InsertedFirst (w : BuilderThreads) : ThreadAction → Prop
  | .task t _ => ∀ task ∈ w.builder.tasks.lookup t, task.pc.removes = true →
    ∀ e ∈ w.builder.inserting, e.1 ≠ task.buildId
  | _ => True

instance (w : BuilderThreads) (a : ThreadAction) : Decidable (w.DistinctIds a) :=
  match a with
  | .build m => inferInstanceAs (Decidable (∀ id ∈ m.buildId, id ∉ w.builder.delivered))
  | .insert | .abort _ | .abortTask | .task _ _ | .cancel _ => .isTrue trivial

instance (w : BuilderThreads) (a : ThreadAction) : Decidable (w.InsertedFirst a) :=
  match a with
  | .task t _ => inferInstanceAs (Decidable (∀ task ∈ w.builder.tasks.lookup t,
      task.pc.removes = true → ∀ e ∈ w.builder.inserting, e.1 ≠ task.buildId))
  | .build _ | .insert | .abort _ | .abortTask | .cancel _ => .isTrue trivial

/-! ## The invariant -/

/-- The entry of the task is due. -/
def Live (w : BuilderThreads) (t : Nat) (task : BuildTask) : Prop :=
  task.pc.pending = true ∧ w.NotAborted t task

/-- An entry is the one of a task that works on the build. -/
def Works (w : BuilderThreads) (id : Uuid) (info : BuildInfo) : Prop :=
  ∃ task, w.builder.tasks.lookup info.handle = some task ∧ task.buildId = id ∧
    w.Live info.handle task

/-- The entries are those of the tasks. -/
structure Entries (w : BuilderThreads) : Prop where
  tasks : ∀ t task, w.builder.tasks.lookup t = some task →
    t < w.builder.fresh ∧ task.buildId ∈ w.builder.delivered
  unique : ∀ t t' task task', w.builder.tasks.lookup t = some task →
    w.builder.tasks.lookup t' = some task' → task.buildId = task'.buildId → t = t'
  cancelled : ∀ t task, w.builder.tasks.lookup t = some task →
    task.wasCancelled = true → task.aborted = true
  active : ∀ id info, w.builder.activeBuilds.lookup id = some info → w.Works id info
  inserting : ∀ id info, w.builder.inserting = some (id, info) →
    w.Works id info ∧ w.builder.activeBuilds.lookup id = none
  live : ∀ t task, w.builder.tasks.lookup t = some task → w.Live t task →
    ∃ info, info.handle = t ∧ (w.builder.activeBuilds.lookup task.buildId = some info ∨
      w.builder.inserting = some (task.buildId, info))

namespace Entries

variable {w w' : BuilderThreads}

theorem init : Entries {} := by
  constructor <;> simp

/-- A task that works on no build any more has no entry. -/
theorem no_entry (h : w.Entries) {t : Nat} {task : BuildTask}
    (ht : w.builder.tasks.lookup t = some task) (hdead : ¬ w.Live t task) :
    w.builder.activeBuilds.lookup task.buildId = none ∧ w.Returned task.buildId := by
  have hworks : ∀ info, ¬ w.Works task.buildId info := by
    rintro info ⟨task', ht', hid, hlive⟩
    have heq := h.unique _ _ _ _ ht' ht hid
    subst heq
    rw [ht, Option.some.injEq] at ht'
    exact hdead (ht' ▸ hlive)
  refine ⟨?_, fun e he heq => ?_⟩
  · cases hinfo : w.builder.activeBuilds.lookup task.buildId with
    | none => rfl
    | some info => exact absurd (h.active _ info hinfo) (hworks info)
  · obtain ⟨id, info⟩ := e
    subst heq
    exact hworks info (h.inserting _ info he).1

/-- The property follows from the invariant. -/
theorem entriesKept (h : w.Entries) : w.EntriesKept where
  gone id _ hnone _ := by
    cases hinfo : w.builder.activeBuilds.lookup id with
    | none => rfl
    | some info =>
      obtain ⟨task, ht, hid, -⟩ := h.active id info hinfo
      exact absurd hid (hnone task (Map.mem_values_iff.mpr ⟨_, ht⟩))
  present t task ht hreturned hnot hpending := by
    obtain ⟨info, hhandle, hinfo | hinserting⟩ := h.live t task ht ⟨hpending, hnot⟩
    · exact ⟨info, hinfo, hhandle⟩
    · exact absurd rfl (hreturned _ hinserting)

/-- What the steps of a task leave as it is. -/
structure OneTask (w w' : BuilderThreads) (t : Nat) (task' : Option BuildTask) : Prop where
  lookup : ∀ t', w'.builder.tasks.lookup t' =
    if t' = t then task' else w.builder.tasks.lookup t'
  inserting : w'.builder.inserting = w.builder.inserting
  fresh : w'.builder.fresh = w.builder.fresh
  delivered : w'.builder.delivered = w.builder.delivered
  others : ∀ t' task, t' ≠ t → (w'.Live t' task ↔ w.Live t' task)

theorem OneTask.works {t : Nat} {task' : Option BuildTask} (hone : OneTask w w' t task')
    {id : Uuid} {info : BuildInfo} (hne : info.handle ≠ t) (h : w.Works id info) :
    w'.Works id info := by
  obtain ⟨task, ht, hid, hlive⟩ := h
  refine ⟨task, ?_, hid, (hone.others _ task hne).mpr hlive⟩
  rw [hone.lookup, if_neg hne, ht]

/-- What a step of one task keeps, whatever becomes of its entry. -/
theorem of_oneTask (h : w.Entries) {t : Nat} {task : BuildTask} {task' : Option BuildTask}
    (ht : w.builder.tasks.lookup t = some task) (hone : OneTask w w' t task')
    (hid : ∀ x ∈ task', x.buildId = task.buildId ∧ (x.wasCancelled = true → x.aborted = true))
    (hactive : ∀ id info, w'.builder.activeBuilds.lookup id = some info → w'.Works id info)
    (hinserting : ∀ id info, w'.builder.inserting = some (id, info) →
      w'.Works id info ∧ w'.builder.activeBuilds.lookup id = none)
    (hlive : ∀ t' x, w'.builder.tasks.lookup t' = some x → w'.Live t' x →
      ∃ info, info.handle = t' ∧ (w'.builder.activeBuilds.lookup x.buildId = some info ∨
        w'.builder.inserting = some (x.buildId, info))) : w'.Entries := by
  -- every task of the new state is one of the old state under the same id
  have hold : ∀ t' x, w'.builder.tasks.lookup t' = some x →
      ∃ y, w.builder.tasks.lookup t' = some y ∧ x.buildId = y.buildId ∧
        (x.wasCancelled = true → x.aborted = true) := by
    intro t' x hx
    rw [hone.lookup] at hx
    split_ifs at hx with he
    · exact ⟨task, he ▸ ht, hid x hx⟩
    · exact ⟨x, hx, rfl, h.cancelled t' x hx⟩
  refine ⟨fun t' x hx => ?_, fun t₁ t₂ x₁ x₂ hx₁ hx₂ heq => ?_, fun t' x hx => ?_, hactive,
    hinserting, hlive⟩
  · obtain ⟨y, hy, heq, -⟩ := hold t' x hx
    rw [hone.fresh, hone.delivered, heq]
    exact h.tasks t' y hy
  · obtain ⟨y₁, hy₁, heq₁, -⟩ := hold t₁ x₁ hx₁
    obtain ⟨y₂, hy₂, heq₂, -⟩ := hold t₂ x₂ hx₂
    exact h.unique t₁ t₂ y₁ y₂ hy₁ hy₂ (heq₁.symm.trans (heq.trans heq₂))
  · obtain ⟨-, -, -, hcancelled⟩ := hold t' x hx
    exact hcancelled

/-- A task moves on, and its entry stays due or stays gone. -/
theorem move (h : w.Entries) {t : Nat} {task task' : BuildTask}
    (ht : w.builder.tasks.lookup t = some task) (hone : OneTask w w' t (some task'))
    (hid : task'.buildId = task.buildId)
    (hcancelled : task'.wasCancelled = true → task'.aborted = true)
    (hsame : w'.builder.activeBuilds = w.builder.activeBuilds)
    (hlive : w'.Live t task' ↔ w.Live t task) : w'.Entries := by
  have hworks : ∀ id info, w.Works id info → w'.Works id info := by
    intro id info hw
    by_cases hne : info.handle = t
    · obtain ⟨x, hx, hxid, hxlive⟩ := hw
      rw [hne, ht, Option.some.injEq] at hx
      subst hx
      rw [hne] at hxlive
      refine ⟨task', ?_, hid.trans hxid, ?_⟩
      · rw [hone.lookup, if_pos hne]
      · rw [hne]
        exact hlive.mpr hxlive
    · exact hone.works hne hw
  refine h.of_oneTask ht hone (fun x hx => ?_) (fun id info hinfo => ?_)
    (fun id info hinfo => ?_) (fun t' x hx hx' => ?_)
  · cases hx
    exact ⟨hid, hcancelled⟩
  · exact hworks id info (h.active id info (hsame ▸ hinfo))
  · rw [hone.inserting] at hinfo
    rw [hsame]
    exact ⟨hworks id info (h.inserting id info hinfo).1, (h.inserting id info hinfo).2⟩
  · rw [hsame, hone.inserting]
    rw [hone.lookup] at hx
    split_ifs at hx with he
    · cases hx
      subst he
      rw [hid]
      exact h.live t' task ht (hlive.mp hx')
    · exact h.live t' x hx ((hone.others t' x he).mp hx')

/-- The entry of a task is removed and not due any more. -/
theorem settle (h : w.Entries) {t : Nat} {task : BuildTask} {task' : Option BuildTask}
    (ht : w.builder.tasks.lookup t = some task) (hone : OneTask w w' t task')
    (hid : ∀ x ∈ task', x.buildId = task.buildId ∧ (x.wasCancelled = true → x.aborted = true))
    (hdead : ∀ x ∈ task', ¬ w'.Live t x)
    (hactive : ∀ id, w'.builder.activeBuilds.lookup id =
      if id = task.buildId then none else w.builder.activeBuilds.lookup id)
    (hreturned : w.Returned task.buildId) : w'.Entries := by
  -- an entry of another id belongs to another task
  have hother : ∀ id info, id ≠ task.buildId → w.Works id info → w'.Works id info := by
    intro id info hne hw
    refine hone.works (fun he => ?_) hw
    obtain ⟨x, hx, hxid, -⟩ := hw
    rw [he, ht, Option.some.injEq] at hx
    exact hne (hxid ▸ congrArg BuildTask.buildId hx.symm)
  refine h.of_oneTask ht hone hid (fun id info hinfo => ?_) (fun id info hinfo => ?_)
    (fun t' x hx hx' => ?_)
  · rw [hactive] at hinfo
    split_ifs at hinfo with he
    exact hother id info he (h.active id info hinfo)
  · rw [hone.inserting] at hinfo
    have hne : id ≠ task.buildId := hreturned _ hinfo
    obtain ⟨hworks, hnone⟩ := h.inserting id info hinfo
    refine ⟨hother id info hne hworks, ?_⟩
    rw [hactive, if_neg hne, hnone]
  · rw [hone.lookup] at hx
    split_ifs at hx with he
    · exact absurd (he ▸ hx') (hdead x hx)
    · have hne : x.buildId ≠ task.buildId := fun heq => he (h.unique t' t x task hx ht heq)
      rw [hactive, if_neg hne, hone.inserting]
      exact h.live t' x hx ((hone.others t' x he).mp hx')

/-- A task ends, or is marked, whose entry is not due. -/
theorem settle_dead (h : w.Entries) {t : Nat} {task : BuildTask} {task' : Option BuildTask}
    (ht : w.builder.tasks.lookup t = some task) (hone : OneTask w w' t task')
    (hid : ∀ x ∈ task', x.buildId = task.buildId ∧ (x.wasCancelled = true → x.aborted = true))
    (hdead : ¬ w.Live t task) (hdead' : ∀ x ∈ task', ¬ w'.Live t x)
    (hsame : w'.builder.activeBuilds = w.builder.activeBuilds) : w'.Entries := by
  obtain ⟨hnone, hreturned⟩ := h.no_entry ht hdead
  refine h.settle ht hone hid hdead' (fun id => ?_) hreturned
  rw [hsame]
  split_ifs with he
  · rw [he, hnone]
  · rfl

/-! ### Steps of a task -/

theorem live_iff_of_aborting (haborting : w'.aborting = w.aborting) (t : Nat)
    (task : BuildTask) : w'.Live t task ↔ w.Live t task := by
  unfold Live NotAborted
  rw [haborting]

theorem oneTask_setTask (w : BuilderThreads) (b : Builder) (t : Nat) (x : BuildTask)
    (hb : b.tasks = w.builder.tasks ∧ b.inserting = w.builder.inserting ∧
      b.fresh = w.builder.fresh ∧ b.delivered = w.builder.delivered) :
    OneTask w { w with builder := b.setTask t x } t (some x) where
  lookup t' := by
    show (b.tasks.insert t x).lookup t' = _
    rw [Map.lookup_insert_eq, hb.1]
  inserting := hb.2.1
  fresh := hb.2.2.1
  delivered := hb.2.2.2
  others t' task _ := live_iff_of_aborting rfl t' task

theorem oneTask_endTask (w : BuilderThreads) (b : Builder) (t : Nat)
    (hb : b.tasks = w.builder.tasks ∧ b.inserting = w.builder.inserting ∧
      b.fresh = w.builder.fresh ∧ b.delivered = w.builder.delivered) :
    OneTask w { w with builder := b.endTask t } t none where
  lookup t' := by
    show (b.tasks.erase t).lookup t' = _
    rw [Map.lookup_erase_eq, hb.1]
  inserting := hb.2.1
  fresh := hb.2.2.1
  delivered := hb.2.2.2
  others t' task _ := live_iff_of_aborting rfl t' task

/-- A task moves to a place at which its entry is due as before. -/
theorem setTask (h : w.Entries) {t : Nat} {task : BuildTask}
    (ht : w.builder.tasks.lookup t = some task) (b : Builder) (pc : BuildTaskPc)
    (hb : b.tasks = w.builder.tasks ∧ b.inserting = w.builder.inserting ∧
      b.fresh = w.builder.fresh ∧ b.delivered = w.builder.delivered)
    (hactive : b.activeBuilds = w.builder.activeBuilds)
    (hpc : pc.pending = task.pc.pending) :
    Entries { w with builder := b.setTask t { task with pc := pc } } := by
  refine h.move ht (oneTask_setTask w b t _ hb) rfl (h.cancelled t task ht) hactive ?_
  show pc.pending = true ∧ w.NotAborted t task ↔ task.pc.pending = true ∧ w.NotAborted t task
  rw [hpc]

theorem lookup_removeBuild (b : Builder) (id id' : Uuid) :
    (b.removeBuild id).1.activeBuilds.lookup id' =
      if id' = id then none else b.activeBuilds.lookup id' := by
  show (b.activeBuilds.erase id).lookup id' = _
  rw [Map.lookup_erase_eq]

/-- A task takes a step.  The entry is inserted when the task removes it. -/
theorem runTask (h : w.Entries) {t : Nat} {task : BuildTask}
    (ht : w.builder.tasks.lookup t = some task) (ok : Bool)
    (hfirst : task.pc.removes = true → w.Returned task.buildId) :
    Entries { w with builder := w.builder.runTask t task ok } := by
  have hsame : w.builder.tasks = w.builder.tasks ∧ w.builder.inserting = w.builder.inserting ∧
    w.builder.fresh = w.builder.fresh ∧ w.builder.delivered = w.builder.delivered :=
    ⟨rfl, rfl, rfl, rfl⟩
  unfold Builder.runTask
  cases hpc : task.pc with
  | processing =>
    cases ok with
    | true =>
      exact h.setTask ht (w.builder.send task.buildId) .submitting hsame rfl (by rw [hpc]; rfl)
    | false => exact h.setTask ht w.builder .failed hsame rfl (by rw [hpc]; rfl)
  | submitting =>
    cases ok with
    | true => exact h.setTask ht w.builder .succeeded hsame rfl (by rw [hpc]; rfl)
    | false => exact h.setTask ht w.builder .failed hsame rfl (by rw [hpc]; rfl)
  | succeeded =>
    exact h.settle ht (oneTask_endTask w (w.builder.removeBuild task.buildId).1 t hsame)
      (fun x hx => nomatch hx) (fun x hx => nomatch hx)
      (fun id => lookup_removeBuild w.builder task.buildId id) (hfirst (by rw [hpc]; rfl))
  | failed =>
    dsimp only
    split_ifs with hcancelled
    · -- only an abort sets the flag, and it has removed the entry
      have hdead : ¬ w.Live t task := fun hlive =>
        Bool.noConfusion (hlive.2.1.symm.trans (h.cancelled t task ht hcancelled))
      exact h.settle_dead ht (oneTask_endTask w w.builder t hsame) (fun x hx => nomatch hx) hdead
        (fun x hx => nomatch hx) rfl
    · exact h.setTask ht w.builder .removing hsame rfl (by rw [hpc]; rfl)
  | removing =>
    refine h.settle ht (oneTask_setTask w (w.builder.removeBuild task.buildId).1 t _ hsame)
      (fun x hx => ?_) (fun x hx hlive => ?_)
      (fun id => lookup_removeBuild w.builder task.buildId id) (hfirst (by rw [hpc]; rfl))
    · cases hx
      exact ⟨rfl, h.cancelled t task ht⟩
    · cases hx
      exact Bool.noConfusion hlive.1
  | removed =>
    exact h.setTask ht (w.builder.send task.buildId) .reporting hsame rfl (by rw [hpc]; rfl)
  | reporting =>
    have hdead : ¬ w.Live t task := fun hlive => by
      have hpending := hlive.1
      rw [hpc] at hpending
      exact Bool.noConfusion hpending
    exact h.settle_dead ht (oneTask_endTask w w.builder t hsame) (fun x hx => nomatch hx) hdead
      (fun x hx => nomatch hx) rfl

/-- An aborted task ends. -/
theorem cancel (h : w.Entries) {t : Nat} {task : BuildTask}
    (ht : w.builder.tasks.lookup t = some task) (haborted : task.aborted = true) :
    Entries { w with builder := w.builder.endTask t } := by
  have hdead : ¬ w.Live t task := fun hlive =>
    Bool.noConfusion (hlive.2.1.symm.trans haborted)
  exact h.settle_dead ht (oneTask_endTask w w.builder t ⟨rfl, rfl, rfl, rfl⟩)
    (fun x hx => nomatch hx) hdead (fun x hx => nomatch hx) rfl

/-! ### Steps of the messages -/

/-- A task is spawned for a new id. -/
theorem spawn (h : w.Entries) (haborting : w.aborting = none) {id : Uuid} (drv : StorePath)
    (hnew : id ∉ w.builder.delivered) (hinserting : w.builder.inserting = none) :
    Entries { w with builder := { w.builder with
      tasks := w.builder.tasks.insert w.builder.fresh { buildId := id }
      inserting := some (id, ⟨drv, w.builder.fresh⟩)
      fresh := w.builder.fresh + 1
      delivered := id :: w.builder.delivered } } := by
  have hlookup : ∀ t, (w.builder.tasks.insert w.builder.fresh { buildId := id }).lookup t =
      if t = w.builder.fresh then some { buildId := id } else w.builder.tasks.lookup t :=
    fun t => Map.lookup_insert_eq _ _ _ _
  have hne : ∀ t task, w.builder.tasks.lookup t = some task →
      t ≠ w.builder.fresh ∧ task.buildId ≠ id := by
    intro t task ht
    obtain ⟨hlt, hmem⟩ := h.tasks t task ht
    exact ⟨Nat.ne_of_lt hlt, fun he => hnew (he ▸ hmem)⟩
  have hworks : ∀ id' info, w.Works id' info → Works { w with builder := { w.builder with
      tasks := w.builder.tasks.insert w.builder.fresh { buildId := id }
      inserting := some (id, ⟨drv, w.builder.fresh⟩)
      fresh := w.builder.fresh + 1
      delivered := id :: w.builder.delivered } } id' info := by
    rintro id' info ⟨task, ht, hid, hlive⟩
    refine ⟨task, ?_, hid, hlive⟩
    show (w.builder.tasks.insert _ _).lookup _ = _
    rw [hlookup, if_neg (hne _ task ht).1, ht]
  have hnone : w.builder.activeBuilds.lookup id = none := by
    cases hinfo : w.builder.activeBuilds.lookup id with
    | none => rfl
    | some info =>
      obtain ⟨task, ht, hid, -⟩ := h.active id info hinfo
      exact absurd hid (hne _ task ht).2
  refine ⟨fun t task ht => ?_, fun t t' task task' ht ht' heq => ?_, fun t task ht => ?_,
    fun id' info hinfo => hworks id' info (h.active id' info hinfo), fun id' info hinfo => ?_,
    fun t task ht hlive => ?_⟩
  · rw [hlookup] at ht
    split_ifs at ht with he
    · cases ht
      exact ⟨he ▸ Nat.lt_succ_self _, List.mem_cons_self⟩
    · obtain ⟨hlt, hmem⟩ := h.tasks t task ht
      exact ⟨Nat.lt_succ_of_lt hlt, List.mem_cons_of_mem _ hmem⟩
  · rw [hlookup] at ht ht'
    split_ifs at ht ht' with he he' he'
    · exact he.trans he'.symm
    · cases ht
      exact absurd heq.symm (hne t' task' ht').2
    · cases ht'
      exact absurd heq (hne t task ht).2
    · exact h.unique t t' task task' ht ht' heq
  · rw [hlookup] at ht
    split_ifs at ht with he
    · cases ht
      exact fun hfalse => Bool.noConfusion hfalse
    · exact h.cancelled t task ht
  · obtain ⟨rfl, rfl⟩ := Prod.mk.inj (Option.some.inj hinfo)
    refine ⟨⟨{ buildId := id }, ?_, rfl, rfl, rfl, fun info hinfo => ?_⟩, hnone⟩
    · exact (hlookup _).trans (if_pos rfl)
    · exact absurd (haborting.symm.trans hinfo) (by simp)
  · rw [hlookup] at ht
    split_ifs at ht with he
    · cases ht
      exact ⟨⟨drv, w.builder.fresh⟩, he.symm, Or.inr rfl⟩
    · obtain ⟨info, hhandle, hactive | hinfo⟩ := h.live t task ht hlive
      · exact ⟨info, hhandle, Or.inl hactive⟩
      · exact absurd (hinserting.symm.trans hinfo) (by simp)

/-- `insert_new_build`. -/
theorem insert (h : w.Entries) {id : Uuid} {info : BuildInfo}
    (hinfo : w.builder.inserting = some (id, info)) :
    Entries { w with builder := w.builder.insertNewBuild id info } := by
  have hlookup : ∀ id', (w.builder.activeBuilds.insert id info).lookup id' =
      if id' = id then some info else w.builder.activeBuilds.lookup id' :=
    fun id' => Map.lookup_insert_eq _ _ _ _
  refine ⟨h.tasks, h.unique, h.cancelled, fun id' info' hinfo' => ?_,
    (fun id' info' hinfo' => nomatch hinfo'), fun t task ht hlive => ?_⟩
  · rw [show (w.builder.insertNewBuild id info).activeBuilds =
      w.builder.activeBuilds.insert id info from rfl, hlookup] at hinfo'
    split_ifs at hinfo' with he
    · cases hinfo'
      exact he ▸ (h.inserting id info hinfo).1
    · exact h.active id' info' hinfo'
  · obtain ⟨info', hhandle, hactive | hinserting⟩ := h.live t task ht hlive
    · refine ⟨info', hhandle, Or.inl ?_⟩
      have hne : task.buildId ≠ id := fun he => by
        rw [he, (h.inserting id info hinfo).2] at hactive
        cases hactive
      exact (hlookup _).trans ((if_neg hne).trans hactive)
    · rw [hinfo, Option.some.injEq, Prod.mk.injEq] at hinserting
      obtain ⟨rfl, rfl⟩ := hinserting
      exact ⟨info, hhandle, Or.inl ((hlookup _).trans (if_pos rfl))⟩

/-- No task and no entry changes. -/
theorem of_same (h : w.Entries) (htasks : w'.builder.tasks = w.builder.tasks)
    (hactive : ∀ id, w'.builder.activeBuilds.lookup id = w.builder.activeBuilds.lookup id)
    (hinserting : w'.builder.inserting = w.builder.inserting)
    (hfresh : w'.builder.fresh = w.builder.fresh)
    (hdelivered : w.builder.delivered ⊆ w'.builder.delivered)
    (hlive : ∀ t task, w.builder.tasks.lookup t = some task →
      (w'.Live t task ↔ w.Live t task)) : w'.Entries := by
  have hworks : ∀ id info, w.Works id info → w'.Works id info := by
    rintro id info ⟨task, ht, hid, hl⟩
    exact ⟨task, by rw [htasks, ht], hid, (hlive _ task ht).mpr hl⟩
  refine ⟨fun t task ht => ?_, fun t t' task task' ht ht' => ?_, fun t task ht => ?_,
    fun id info hinfo => ?_, fun id info hinfo => ?_, fun t task ht hl => ?_⟩
  · rw [htasks] at ht
    rw [hfresh]
    exact ⟨(h.tasks t task ht).1, hdelivered (h.tasks t task ht).2⟩
  · rw [htasks] at ht ht'
    exact h.unique t t' task task' ht ht'
  · rw [htasks] at ht
    exact h.cancelled t task ht
  · rw [hactive] at hinfo
    exact hworks id info (h.active id info hinfo)
  · rw [hinserting] at hinfo
    rw [hactive]
    exact ⟨hworks id info (h.inserting id info hinfo).1, (h.inserting id info hinfo).2⟩
  · rw [htasks] at ht
    rw [hactive, hinserting]
    exact h.live t task ht ((hlive t task ht).mp hl)

/-- `abort_build` removes the entry. -/
theorem abort (h : w.Entries) (haborting : w.aborting = none)
    (hinserting : w.builder.inserting = none) (m : AbortMessage) : (w.abort m).Entries := by
  obtain ⟨buildId⟩ := m
  cases buildId with
  | none => exact h
  | some id =>
    cases hinfo : w.builder.activeBuilds.lookup id with
    | none =>
      have hnone : (w.abort ⟨some id⟩).aborting = w.aborting := hinfo.trans haborting.symm
      refine h.of_same rfl (fun id' => ?_) rfl rfl (List.Subset.refl _)
        (fun t task _ => live_iff_of_aborting hnone t task)
      refine (lookup_removeBuild w.builder id id').trans ?_
      split_ifs with he
      · rw [he, hinfo]
      · rfl
    | some info =>
      have hsome : (w.abort ⟨some id⟩).aborting = some info := hinfo
      obtain ⟨task, ht, hid, -⟩ := h.active id info hinfo
      have hone : OneTask w (w.abort ⟨some id⟩) info.handle (some task) := by
        refine ⟨fun t' => ?_, rfl, rfl, rfl, fun t' x hne => ?_⟩
        · show w.builder.tasks.lookup t' = _
          split_ifs with he
          · rw [he, ht]
          · rfl
        · unfold Live NotAborted
          rw [hsome, haborting]
          simp [Ne.symm hne]
      refine h.settle ht hone (fun x hx => ?_) (fun x _ hlive => ?_) (fun id' => ?_)
        (fun e he => ?_)
      · cases hx
        exact ⟨rfl, h.cancelled _ task ht⟩
      · exact hlive.2.2 info hsome rfl
      · rw [hid]
        exact lookup_removeBuild w.builder id id'
      · rw [hinserting] at he
        cases he

/-- `abort_build` aborts the task of the entry that it has removed. -/
theorem abortTask (h : w.Entries) {info : BuildInfo} (haborting : w.aborting = some info) :
    Entries { builder := w.builder.abortTask info, aborting := none } := by
  have hothers : ∀ t' x, t' ≠ info.handle → ∀ b,
      (Live { builder := b, aborting := none } t' x ↔ w.Live t' x) := by
    intro t' x hne b
    unfold Live NotAborted
    rw [haborting]
    simp [Ne.symm hne]
  unfold Builder.abortTask
  cases ht : w.builder.tasks.lookup info.handle with
  | none =>
    refine h.of_same rfl (fun _ => rfl) rfl rfl (List.Subset.refl _) (fun t task ht' => ?_)
    refine hothers t task (fun he => ?_) _
    rw [he, ht] at ht'
    cases ht'
  | some task =>
    have hdead : ¬ w.Live info.handle task := fun hlive => hlive.2.2 info haborting rfl
    have hone : OneTask w
        { builder := w.builder.setTask info.handle
            { task with wasCancelled := true, aborted := true }
          aborting := none } info.handle
        (some { task with wasCancelled := true, aborted := true }) :=
      ⟨fun t' => Map.lookup_insert_eq _ _ _ _, rfl, rfl, rfl,
        fun t' x hne => hothers t' x hne _⟩
    refine h.settle_dead ht hone (fun x hx => ?_) hdead (fun x hx hlive => ?_) rfl
    · cases hx
      exact ⟨rfl, fun _ => rfl⟩
    · cases hx
      exact Bool.noConfusion hlive.2.1

/-! ### Runs -/

/-- `schedule_build` up to the spawned task. -/
theorem build (h : w.Entries) (haborting : w.aborting = none) {m : BuildMessage} {b : Builder}
    (hnew : ∀ id ∈ m.buildId, id ∉ w.builder.delivered)
    (hnext : w.builder.next (.build m) = some b) : Entries { w with builder := b } := by
  obtain ⟨buildId, drv⟩ := m
  simp only [Builder.next] at hnext
  split at hnext
  · cases hnext
  · rename_i hinserting
    simp only [Option.some.injEq] at hnext
    subst hnext
    -- a request that is not accepted leaves only its id
    have hdrop : ∀ ids : List Uuid, Entries { w with builder :=
        { w.builder with delivered := ids ++ w.builder.delivered } } := fun ids =>
      h.of_same rfl (fun _ => rfl) rfl rfl (List.subset_append_right _ _)
        (fun t task _ => live_iff_of_aborting rfl t task)
    unfold Builder.scheduleBuild
    split_ifs
    · exact hdrop _
    · exact hdrop _
    · cases buildId with
      | none => exact hdrop _
      | some id => exact h.spawn haborting drv (hnew id rfl) hinserting

theorem handle_eq {a : BuilderAction} (h : w.handle a = some w') :
    w.aborting = none ∧ ∃ b, w.builder.next a = some b ∧ w' = { w with builder := b } := by
  unfold handle at h
  split at h
  · cases h
  · rename_i haborting
    obtain ⟨b, hb, rfl⟩ := Option.map_eq_some_iff.mp h
    exact ⟨haborting, b, hb, rfl⟩

/-- Every step that meets the condition keeps the invariant. -/
theorem step (h : w.Entries) {a : ThreadAction} (hok : w.DistinctIds a ∧ w.InsertedFirst a)
    (hnext : w.next a = some w') : w'.Entries := by
  cases a with
  | build m =>
    obtain ⟨haborting, b, hb, rfl⟩ := handle_eq hnext
    exact h.build haborting hok.1 hb
  | insert =>
    obtain ⟨-, b, hb, rfl⟩ := handle_eq hnext
    simp only [Builder.next] at hb
    split at hb
    · rename_i id info hinfo
      cases hb
      exact h.insert hinfo
    · cases hb
  | abort m =>
    simp only [next] at hnext
    split at hnext
    · rename_i haborting hinserting
      cases hnext
      exact h.abort haborting hinserting m
    · cases hnext
  | abortTask =>
    simp only [next] at hnext
    split at hnext
    · rename_i info haborting
      cases hnext
      exact h.abortTask haborting
    · cases hnext
  | task t ok =>
    obtain ⟨b, hb, rfl⟩ := Option.map_eq_some_iff.mp hnext
    simp only [Builder.next] at hb
    split at hb
    · rename_i task ht
      cases hb
      exact h.runTask ht ok (fun hremoves e he => hok.2 task ht hremoves e he)
    · cases hb
  | cancel t =>
    obtain ⟨b, hb, rfl⟩ := Option.map_eq_some_iff.mp hnext
    simp only [Builder.next] at hb
    split at hb
    · rename_i task ht
      split_ifs at hb with hc
      cases hb
      exact h.cancel ht hc.1
    · cases hb

end Entries

/-- While no task removes the entry of its build before it is inserted, the
entries follow the tasks. -/
theorem entriesKept_runs {w : BuilderThreads}
    (h : Lts.Reach next (fun w a => w.DistinctIds a ∧ w.InsertedFirst a) {} w) :
    w.EntriesKept :=
  (h.invariant Entries.init (fun _ _ _ hw hok hnext => hw.step hok hnext)).entriesKept

/-- One build succeeds, one fails, and one is aborted. -/
theorem entriesKept_runs_three : ∃ w,
    Lts.Reach next (fun w a => w.DistinctIds a ∧ w.InsertedFirst a) {} w ∧
      w.builder.delivered = [2, 1, 0] ∧ w.builder.tasks.keys = [] ∧
      w.builder.activeBuilds.keys = [] ∧ w.EntriesKept := by
  have hrun : (Lts.runWith next (fun w a => w.DistinctIds a ∧ w.InsertedFirst a) {}
      [.build ⟨some 0, ⟨"a.drv"⟩⟩, .task 0 true, .insert, .task 0 true, .task 0 true,
       .build ⟨some 1, ⟨"b.drv"⟩⟩, .task 1 false, .insert, .task 1 true, .task 1 true,
       .build ⟨some 2, ⟨"c.drv"⟩⟩, .insert, .abort ⟨some 2⟩, .task 1 true, .abortTask,
       .task 1 true, .cancel 2]).map
      (fun w => (w.builder.delivered, w.builder.tasks.keys, w.builder.activeBuilds.keys)) =
      some ([2, 1, 0], [], []) := by decide +kernel
  obtain ⟨w, hw, hend⟩ := Option.map_eq_some_iff.mp hrun
  simp only [Prod.mk.injEq] at hend
  obtain ⟨hdelivered, htasks, hactive⟩ := hend
  exact ⟨w, Lts.reach_of_runWith hw, hdelivered, htasks, hactive,
    entriesKept_runs (Lts.reach_of_runWith hw)⟩

/-- The task of a build is done before `schedule_build` inserts the entry. -/
theorem entriesKept_fails_fast_task : ∃ w, Lts.Reach next DistinctIds {} w ∧
    w.builder.tasks.keys = [] ∧ w.builder.inserting = none ∧
    w.builder.activeBuilds.lookup 0 = some ⟨⟨"a.drv"⟩, 0⟩ ∧ ¬ w.EntriesKept := by
  have hrun : (Lts.runWith next DistinctIds {}
      [.build ⟨some 0, ⟨"a.drv"⟩⟩, .task 0 false, .task 0 true, .task 0 true, .task 0 true,
       .task 0 true, .insert]).map
      (fun w => decide (w.builder.delivered = [0] ∧ w.builder.tasks.values = [] ∧
        w.builder.tasks.keys = [] ∧ w.builder.inserting = none ∧
        w.builder.activeBuilds.lookup 0 = some ⟨⟨"a.drv"⟩, 0⟩)) = some true := by decide +kernel
  obtain ⟨w, hw, hend⟩ := Option.map_eq_some_iff.mp hrun
  obtain ⟨hdelivered, hvalues, hkeys, hinserting, hactive⟩ := of_decide_eq_true hend
  refine ⟨w, Lts.reach_of_runWith hw, hkeys, hinserting, hactive, fun h => ?_⟩
  have hnone := h.gone 0 (by simp [hdelivered]) (by simp [hvalues])
    (fun e he => by rw [hinserting] at he; cases he)
  rw [hactive] at hnone
  cases hnone

end BuilderThreads

end QueueRunner
