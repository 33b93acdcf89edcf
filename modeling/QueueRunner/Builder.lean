import QueueRunner.Lib.Map
import QueueRunner.Lib.Run
import QueueRunner.Basic

/-!
# The builder

`State` of `builder/src/state.rs`: the messages that arrive over the
tunnel and the tasks that `schedule_build` spawns.  The messages are
handled one after the other (`start_bidirectional_stream`).  The tasks run
on other threads, so a task can take steps while `schedule_build` is
between `tokio::spawn` and `insert_new_build`.

What `process_build` does is left out, except for its end: it fails, or it
sends `complete_build` and returns when that has succeeded, or it panics.
An aborted task ends at an await.
-/

namespace QueueRunner

/-- `BuildMessage`, the fields that `schedule_build` reads.  `buildId` is
what `Uuid::parse_str` makes of the field. -/
structure BuildMessage where
  buildId : Option Uuid
  drv : StorePath
deriving DecidableEq

/-- `AbortMessage`. -/
structure AbortMessage where
  buildId : Option Uuid
deriving DecidableEq

/-- `BuildInfo`.  `was_cancelled` is shared with the task and kept there. -/
structure BuildInfo where
  drvPath : StorePath
  handle : Nat
deriving DecidableEq

/-- Where a task of `schedule_build` is. -/
inductive BuildTaskPc where
  /-- In `process_build`. -/
  | processing
  /-- In `process_build`, with `complete_build` of a success under way. -/
  | submitting
  /-- `process_build` has returned `Ok`. -/
  | succeeded
  /-- `process_build` has returned an error. -/
  | failed
  /-- The build was not cancelled, `remove_build` comes next. -/
  | removing
  /-- `complete_build` of the failure comes next. -/
  | removed
  /-- `complete_build` of the failure is under way. -/
  | reporting
deriving DecidableEq

/-- Whether the task waits, so that an abort can end it. -/
def BuildTaskPc.waits : BuildTaskPc → Bool
  | .processing | .submitting | .reporting => true
  | .succeeded | .failed | .removing | .removed => false

/-- Whether `complete_build` was sent. -/
def BuildTaskPc.sent : BuildTaskPc → Bool
  | .submitting | .succeeded | .reporting => true
  | .processing | .failed | .removing | .removed => false

/-- Whether the task is in `process_build`. -/
def BuildTaskPc.builds : BuildTaskPc → Bool
  | .processing | .submitting => true
  | .succeeded | .failed | .removing | .removed | .reporting => false

/-- A task of `schedule_build`. -/
structure BuildTask where
  buildId : Uuid
  pc : BuildTaskPc := .processing
  wasCancelled : Bool := false
  /-- `JoinHandle::abort` was called. -/
  aborted : Bool := false
deriving DecidableEq

/-- The builder, with the history of its messages. -/
structure Builder where
  halt : Bool := false
  activeBuilds : Map Uuid BuildInfo := ∅
  tasks : Map Nat BuildTask := ∅
  /-- `schedule_build` has spawned its task and inserts this entry next. -/
  inserting : Option (Uuid × BuildInfo) := none
  fresh : Nat := 0
  /-- The ids of the `BuildMessage`s that were delivered. -/
  delivered : List Uuid := []
  /-- The ids of the `AbortMessage`s that were delivered. -/
  aborts : List Uuid := []
  /-- The ids for which `complete_build` was sent. -/
  sent : List Uuid := []

/-- The steps of the builder. -/
inductive BuilderAction where
  | build (m : BuildMessage)
  | abort (m : AbortMessage)
  /-- The end of `schedule_build`. -/
  | insert
  /-- A task takes a step; `ok` is the outcome of what it waits for. -/
  | task (t : Nat) (ok : Bool)
  /-- A task ends because it was aborted. -/
  | cancel (t : Nat)
  /-- A task ends because `process_build` panics, as `import_requisites` does
  when `max_concurrent_downloads` is zero. -/
  | panic (t : Nat)
  /-- The two calls of `stop_application`. -/
  | enableHalt
  | abortAllActiveBuilds
deriving DecidableEq

namespace Builder

/-- `contains_build`. -/
def containsBuild (b : Builder) (drv : StorePath) : Bool :=
  b.activeBuilds.values.any (fun info => info.drvPath == drv)

/-- `schedule_build` up to the spawned task. -/
def scheduleBuild (b : Builder) (m : BuildMessage) : Builder :=
  if b.halt then b
  else if b.containsBuild m.drv then b
  else
    match m.buildId with
    | none => b
    | some id => { b with
        tasks := b.tasks.insert b.fresh { buildId := id }
        inserting := some (id, ⟨m.drv, b.fresh⟩)
        fresh := b.fresh + 1 }

/-- `insert_new_build`. -/
def insertNewBuild (b : Builder) (id : Uuid) (info : BuildInfo) : Builder :=
  { b with activeBuilds := b.activeBuilds.insert id info, inserting := none }

/-- `remove_build`. -/
def removeBuild (b : Builder) (id : Uuid) : Builder × Option BuildInfo :=
  ({ b with activeBuilds := b.activeBuilds.erase id }, b.activeBuilds.lookup id)

/-- `BuildInfo::abort`.  A task that has ended is not found. -/
def abortTask (b : Builder) (info : BuildInfo) : Builder :=
  match b.tasks.lookup info.handle with
  | none => b
  | some task => { b with
      tasks := b.tasks.insert info.handle
        { task with wasCancelled := true, aborted := true } }

/-- `abort_build`. -/
def abortBuild (b : Builder) (m : AbortMessage) : Builder :=
  match m.buildId with
  | none => b
  | some id =>
    match b.removeBuild id with
    | (b, some info) => b.abortTask info
    | (b, none) => b

/-- `abort_all_active_builds`. -/
def abortAllActiveBuilds (b : Builder) : Builder :=
  { b.activeBuilds.values.foldl abortTask b with activeBuilds := ∅ }

/-- Write back a task. -/
def setTask (b : Builder) (t : Nat) (task : BuildTask) : Builder :=
  { b with tasks := b.tasks.insert t task }

/-- A task has ended. -/
def endTask (b : Builder) (t : Nat) : Builder :=
  { b with tasks := b.tasks.erase t }

/-- `complete_build` is sent. -/
def send (b : Builder) (id : Uuid) : Builder := { b with sent := id :: b.sent }

/-- The body of the task of `schedule_build`. -/
def runTask (b : Builder) (t : Nat) (task : BuildTask) (ok : Bool) : Builder :=
  match task.pc with
  | .processing =>
    if ok then (b.send task.buildId).setTask t { task with pc := .submitting }
    else b.setTask t { task with pc := .failed }
  | .submitting =>
    if ok then b.setTask t { task with pc := .succeeded }
    else b.setTask t { task with pc := .failed }
  | .succeeded => (b.removeBuild task.buildId).1.endTask t
  | .failed =>
    if task.wasCancelled then b.endTask t
    else b.setTask t { task with pc := .removing }
  | .removing =>
    (b.removeBuild task.buildId).1.setTask t { task with pc := .removed }
  | .removed => (b.send task.buildId).setTask t { task with pc := .reporting }
  | .reporting => b.endTask t

/-- One step; nothing when the action is not enabled. -/
def next (b : Builder) : BuilderAction → Option Builder
  | .build m =>
    match b.inserting with
    | some _ => none
    | none => some { b.scheduleBuild m with
        delivered := m.buildId.toList ++ b.delivered }
  | .abort m =>
    match b.inserting with
    | some _ => none
    | none => some { b.abortBuild m with aborts := m.buildId.toList ++ b.aborts }
  | .insert =>
    match b.inserting with
    | some (id, info) => some (b.insertNewBuild id info)
    | none => none
  | .task t ok =>
    match b.tasks.lookup t with
    | some task => some (b.runTask t task ok)
    | none => none
  | .cancel t =>
    match b.tasks.lookup t with
    | some task =>
      if task.aborted = true ∧ task.pc.waits = true then some (b.endTask t) else none
    | none => none
  | .panic t =>
    match b.tasks.lookup t with
    | some task => if task.pc.builds = true then some (b.endTask t) else none
    | none => none
  | .enableHalt => some { b with halt := true }
  | .abortAllActiveBuilds => some b.abortAllActiveBuilds

end Builder

/-! ## The property -/

/-- A request is being worked on, or it was aborted, or it was answered. -/
def Builder.Answered (b : Builder) (id : Uuid) : Prop :=
  (∃ task ∈ b.tasks.values, task.buildId = id) ∨ id ∈ b.aborts ∨ id ∈ b.sent

/-- The builder swallows no request. -/
def NothingSwallowed (b : Builder) : Prop := ∀ id ∈ b.delivered, b.Answered id

/-- The builder is in use: it does not shut down, and the ids of the
messages can be parsed. -/
def InUse (_ : Builder) : BuilderAction → Prop
  | .build m => m.buildId ≠ none
  | .abort m => m.buildId ≠ none
  | .enableHalt | .abortAllActiveBuilds => False
  | _ => True

/-- A request for a new id arrives when no entry of `active_builds` is for
the same derivation, and a task panics only when its request was aborted or
answered or has another task. -/
def KeepsRequest (b : Builder) : BuilderAction → Prop
  | .build m => b.containsBuild m.drv = true →
    ∀ id ∈ m.buildId, id ∈ b.delivered ∨ id ∈ b.aborts
  | .panic t => ∀ task ∈ b.tasks.lookup t, task.buildId ∈ b.aborts ∨ task.buildId ∈ b.sent ∨
    ∃ other ∈ Map.values (b.tasks.erase t), other.buildId = task.buildId
  | _ => True

instance (b : Builder) (a : BuilderAction) : Decidable (InUse b a) :=
  match a with
  | .build m => inferInstanceAs (Decidable (m.buildId ≠ none))
  | .abort m => inferInstanceAs (Decidable (m.buildId ≠ none))
  | .enableHalt | .abortAllActiveBuilds => inferInstanceAs (Decidable False)
  | .insert | .task _ _ | .cancel _ | .panic _ => inferInstanceAs (Decidable True)

instance (b : Builder) (a : BuilderAction) : Decidable (KeepsRequest b a) :=
  match a with
  | .build m => inferInstanceAs (Decidable (b.containsBuild m.drv = true →
      ∀ id ∈ m.buildId, id ∈ b.delivered ∨ id ∈ b.aborts))
  | .panic t => inferInstanceAs (Decidable (∀ task ∈ b.tasks.lookup t, _))
  | .abort _ | .enableHalt | .abortAllActiveBuilds | .insert | .task _ _ | .cancel _ =>
    inferInstanceAs (Decidable True)

/-! ## The invariant -/

/-- The marks of a task are backed by the history. -/
structure BuildTask.Backed (b : Builder) (task : BuildTask) : Prop where
  delivered : task.buildId ∈ b.delivered
  sent : task.pc.sent = true → task.buildId ∈ b.sent
  cancelled : task.wasCancelled = true → task.buildId ∈ b.aborts
  aborted : task.aborted = true → task.buildId ∈ b.aborts

/-- An entry of `active_builds` belongs to the task that it names. -/
def Builder.Owns (b : Builder) (id : Uuid) (info : BuildInfo) : Prop :=
  info.handle < b.fresh ∧
    ∀ task, b.tasks.lookup info.handle = some task → task.buildId = id

/-- What holds while the builder is in use. -/
structure Ledger (b : Builder) : Prop where
  running : b.halt = false
  answered : NothingSwallowed b
  tasks : ∀ t task, b.tasks.lookup t = some task → t < b.fresh ∧ task.Backed b
  active : ∀ id info, b.activeBuilds.lookup id = some info → b.Owns id info
  inserting : ∀ id info, b.inserting = some (id, info) → b.Owns id info
  sent : ∀ id ∈ b.sent, id ∈ b.delivered

theorem BuildTask.Backed.mono {b b' : Builder} {task : BuildTask} (h : task.Backed b)
    (hdelivered : b.delivered ⊆ b'.delivered) (haborts : b.aborts ⊆ b'.aborts)
    (hsent : b.sent ⊆ b'.sent) : task.Backed b' :=
  ⟨hdelivered h.delivered, fun hs => hsent (h.sent hs), fun hc => haborts (h.cancelled hc),
    fun ha => haborts (h.aborted ha)⟩

namespace Ledger

variable {b b' : Builder}

theorem init : Ledger {} := by
  constructor <;> simp [NothingSwallowed]

/-- The ids of the tasks that run. -/
theorem answered_of_task {t : Nat} {task : BuildTask} (ht : b.tasks.lookup t = some task) :
    b.Answered task.buildId :=
  Or.inl ⟨task, Map.mem_values_iff.mpr ⟨t, ht⟩, rfl⟩

/-- A task moves on, and may send `complete_build` or drop entries. -/
theorem setTask (h : Ledger b) {t : Nat} {task task' : BuildTask}
    (ht : b.tasks.lookup t = some task) (htasks : b'.tasks = b.tasks.insert t task')
    (hid : task'.buildId = task.buildId) (hhalt : b'.halt = b.halt)
    (hactive : ∀ id info, b'.activeBuilds.lookup id = some info →
      b.activeBuilds.lookup id = some info)
    (hinserting : b'.inserting = b.inserting) (hfresh : b'.fresh = b.fresh)
    (hdelivered : b'.delivered = b.delivered) (haborts : b.aborts ⊆ b'.aborts)
    (hsent : b'.sent = b.sent ∨ b'.sent = task.buildId :: b.sent)
    (hbacked : task'.Backed b') : Ledger b' := by
  have hsent' : b.sent ⊆ b'.sent := by
    rcases hsent with hs | hs <;> rw [hs]
    · exact List.Subset.refl _
    · exact List.subset_cons_self _ _
  have howns : ∀ id info, b.Owns id info → b'.Owns id info := by
    rintro id info ⟨hlt, htask⟩
    refine ⟨hfresh ▸ hlt, fun task₁ ht₁ => ?_⟩
    rw [htasks, Map.lookup_insert_eq] at ht₁
    split_ifs at ht₁ with he
    · cases ht₁
      rw [hid]
      exact htask task (he ▸ ht)
    · exact htask task₁ ht₁
  refine ⟨hhalt ▸ h.running, fun id hmem => ?_, fun t₁ task₁ ht₁ => ?_,
    fun id info hi => howns id info (h.active id info (hactive id info hi)),
    fun id info hi => howns id info (h.inserting id info (hinserting ▸ hi)), fun id hmem => ?_⟩
  · rcases h.answered id (hdelivered ▸ hmem) with ⟨task₁, hmem₁, hid₁⟩ | ha | hs
    · obtain ⟨t₁, ht₁⟩ := Map.mem_values_iff.mp hmem₁
      by_cases he : t₁ = t
      · rw [he, ht, Option.some.injEq] at ht₁
        have hlookup : b'.tasks.lookup t = some task' := by rw [htasks, AList.lookup_insert]
        have hself := answered_of_task hlookup
        rwa [hid, ht₁, hid₁] at hself
      · refine Or.inl ⟨task₁, Map.mem_values_iff.mpr ⟨t₁, ?_⟩, hid₁⟩
        rw [htasks, Map.lookup_insert_eq, if_neg he, ht₁]
    · exact Or.inr (Or.inl (haborts ha))
    · exact Or.inr (Or.inr (hsent' hs))
  · rw [htasks, Map.lookup_insert_eq] at ht₁
    rw [hfresh]
    split_ifs at ht₁ with he
    · cases ht₁
      exact ⟨he ▸ (h.tasks t task ht).1, hbacked⟩
    · obtain ⟨hlt, hb⟩ := h.tasks t₁ task₁ ht₁
      exact ⟨hlt, hb.mono (hdelivered ▸ List.Subset.refl _) haborts hsent'⟩
  · rw [hdelivered]
    rcases hsent with hs | hs <;> rw [hs] at hmem
    · exact h.sent id hmem
    · rcases List.mem_cons.mp hmem with rfl | hmem
      · exact (h.tasks t task ht).2.delivered
      · exact h.sent id hmem

/-- A task ends whose request was aborted or answered or has another task. -/
theorem endTask (h : Ledger b) {t : Nat} {task : BuildTask}
    (ht : b.tasks.lookup t = some task)
    (hdone : task.buildId ∈ b.aborts ∨ task.buildId ∈ b.sent ∨
      ∃ other ∈ Map.values (b.tasks.erase t), other.buildId = task.buildId)
    (hactive : ∀ id info, b'.activeBuilds.lookup id = some info →
      b.activeBuilds.lookup id = some info)
    (hb' : b' = { b with tasks := b.tasks.erase t, activeBuilds := b'.activeBuilds }) :
    Ledger b' := by
  have herase : ∀ t₁ task₁, b'.tasks.lookup t₁ = some task₁ →
      b.tasks.lookup t₁ = some task₁ := by
    intro t₁ task₁ ht₁
    rw [hb', Map.lookup_erase_eq] at ht₁
    split_ifs at ht₁
    exact ht₁
  have howns : ∀ id info, b.Owns id info → b'.Owns id info := by
    rintro id info ⟨hlt, htask⟩
    rw [hb']
    exact ⟨hlt, fun task₁ ht₁ => htask task₁ (herase _ task₁ (hb' ▸ ht₁))⟩
  have hinserting : b'.inserting = b.inserting := by rw [hb']
  refine ⟨hb' ▸ h.running, fun id hmem => ?_, fun t₁ task₁ ht₁ => ?_,
    fun id info hi => howns id info (h.active id info (hactive id info hi)),
    fun id info hi => howns id info (h.inserting id info (hinserting ▸ hi)), ?_⟩
  · rw [hb'] at hmem
    rcases h.answered id hmem with ⟨task₁, hmem₁, rfl⟩ | ha | hs
    · obtain ⟨t₁, ht₁⟩ := Map.mem_values_iff.mp hmem₁
      by_cases he : t₁ = t
      · rw [he, ht, Option.some.injEq] at ht₁
        rw [← ht₁, hb']
        rcases hdone with ha | hs | hother
        · exact Or.inr (Or.inl ha)
        · exact Or.inr (Or.inr hs)
        · exact Or.inl hother
      · refine Or.inl ⟨task₁, Map.mem_values_iff.mpr ⟨t₁, ?_⟩, rfl⟩
        rw [hb', Map.lookup_erase_eq, if_neg he, ht₁]
    · rw [hb']
      exact Or.inr (Or.inl ha)
    · rw [hb']
      exact Or.inr (Or.inr hs)
  · obtain ⟨hlt, hb⟩ := h.tasks t₁ task₁ (herase t₁ task₁ ht₁)
    rw [hb']
    exact ⟨hlt, ⟨hb.delivered, hb.sent, hb.cancelled, hb.aborted⟩⟩
  · rw [hb']
    exact h.sent

theorem lookup_of_lookup_erase {m : Map Uuid BuildInfo} {k id : Uuid} {info : BuildInfo}
    (h : (m.erase k).lookup id = some info) : m.lookup id = some info := by
  rw [Map.lookup_erase_eq] at h
  split_ifs at h
  exact h

/-- A task takes a step. -/
theorem runTask (h : Ledger b) {t : Nat} {task : BuildTask}
    (ht : b.tasks.lookup t = some task) (ok : Bool) : Ledger (b.runTask t task ok) := by
  have hb := (h.tasks t task ht).2
  have hmove : ∀ pc : BuildTaskPc, (pc.sent = true → task.pc.sent = true) →
      Ledger (b.setTask t { task with pc := pc }) := by
    intro pc hpc
    exact h.setTask ht rfl rfl rfl (fun _ _ => id) rfl rfl rfl (List.Subset.refl _)
      (Or.inl rfl) ⟨hb.delivered, fun hs => hb.sent (hpc hs), hb.cancelled, hb.aborted⟩
  have hsend : ∀ pc : BuildTaskPc,
      Ledger ((b.send task.buildId).setTask t { task with pc := pc }) := by
    intro pc
    exact h.setTask ht rfl rfl rfl (fun _ _ => id) rfl rfl rfl (List.Subset.refl _)
      (Or.inr rfl) ⟨hb.delivered, fun _ => List.mem_cons_self, hb.cancelled, hb.aborted⟩
  unfold Builder.runTask
  cases hpc : task.pc with
  | processing =>
    cases ok with
    | false => exact hmove .failed (by simp [BuildTaskPc.sent])
    | true => exact hsend .submitting
  | submitting =>
    cases ok with
    | false => exact hmove .failed (by simp [BuildTaskPc.sent])
    | true => exact hmove .succeeded (by simp [BuildTaskPc.sent, hpc])
  | succeeded =>
    exact h.endTask ht (Or.inr (Or.inl (hb.sent (by rw [hpc]; rfl))))
      (fun _ _ => lookup_of_lookup_erase) rfl
  | failed =>
    simp only
    split_ifs with hc
    · exact h.endTask ht (Or.inl (hb.cancelled hc)) (fun _ _ => id) rfl
    · exact hmove .removing (by simp [BuildTaskPc.sent])
  | removing =>
    exact h.setTask ht rfl rfl rfl (fun _ _ => lookup_of_lookup_erase) rfl rfl rfl
      (List.Subset.refl _) (Or.inl rfl)
      ⟨hb.delivered, by simp [BuildTaskPc.sent], hb.cancelled, hb.aborted⟩
  | removed => exact hsend .reporting
  | reporting =>
    exact h.endTask ht (Or.inr (Or.inl (hb.sent (by rw [hpc]; rfl)))) (fun _ _ => id) rfl

/-- A new task is spawned. -/
theorem spawn (h : Ledger b) (id : Uuid) (drv : StorePath) : Ledger { b with
    tasks := b.tasks.insert b.fresh { buildId := id }
    inserting := some (id, ⟨drv, b.fresh⟩)
    fresh := b.fresh + 1
    delivered := id :: b.delivered } := by
  have hsub : b.delivered ⊆ id :: b.delivered := List.subset_cons_self _ _
  have hne : ∀ t task, b.tasks.lookup t = some task → t ≠ b.fresh :=
    fun t task ht => Nat.ne_of_lt (h.tasks t task ht).1
  refine ⟨h.running, fun id' hmem => ?_, fun t task ht => ?_, fun id' info hi => ?_,
    fun id' info hi => ?_, fun id' hs => hsub (h.sent id' hs)⟩
  · rcases List.mem_cons.mp hmem with rfl | hmem
    · exact Or.inl ⟨_, Map.mem_values_iff.mpr ⟨b.fresh, AList.lookup_insert _⟩, rfl⟩
    · rcases h.answered id' hmem with ⟨task, htask, hid⟩ | hrest
      · obtain ⟨t, ht⟩ := Map.mem_values_iff.mp htask
        refine Or.inl ⟨task, Map.mem_values_iff.mpr ⟨t, ?_⟩, hid⟩
        rw [Map.lookup_insert_eq, if_neg (hne t task ht), ht]
      · exact Or.inr hrest
  · rw [Map.lookup_insert_eq] at ht
    split_ifs at ht with he
    · cases ht
      exact ⟨he ▸ Nat.lt_succ_self _,
        ⟨List.mem_cons_self, by simp [BuildTaskPc.sent], by simp, by simp⟩⟩
    · obtain ⟨hlt, hb⟩ := h.tasks t task ht
      exact ⟨Nat.lt_succ_of_lt hlt, ⟨hsub hb.delivered, hb.sent, hb.cancelled, hb.aborted⟩⟩
  · obtain ⟨hlt, htask⟩ := h.active id' info hi
    refine ⟨Nat.lt_succ_of_lt hlt, fun task ht => ?_⟩
    rw [Map.lookup_insert_eq, if_neg (Nat.ne_of_lt hlt)] at ht
    exact htask task ht
  · simp only [Option.some.injEq, Prod.mk.injEq] at hi
    obtain ⟨rfl, rfl⟩ := hi
    refine ⟨Nat.lt_succ_self _, fun task ht => ?_⟩
    rw [AList.lookup_insert, Option.some.injEq] at ht
    rw [← ht]

/-- A request is dropped whose id is known. -/
theorem drop (h : Ledger b) {id : Uuid} (hid : id ∈ b.delivered ∨ id ∈ b.aborts) :
    Ledger { b with delivered := id :: b.delivered } := by
  have hsub : b.delivered ⊆ id :: b.delivered := List.subset_cons_self _ _
  refine ⟨h.running, fun id' hmem => ?_, fun t task ht => ?_, h.active, h.inserting,
    fun id' hs => hsub (h.sent id' hs)⟩
  · rcases List.mem_cons.mp hmem with rfl | hmem
    · rcases hid with hd | ha
      · exact h.answered id' hd
      · exact Or.inr (Or.inl ha)
    · exact h.answered id' hmem
  · obtain ⟨hlt, hb⟩ := h.tasks t task ht
    exact ⟨hlt, ⟨hsub hb.delivered, hb.sent, hb.cancelled, hb.aborted⟩⟩

/-- A build is aborted. -/
theorem abort (h : Ledger b) (id : Uuid) :
    Ledger { b.abortBuild ⟨some id⟩ with aborts := id :: b.aborts } := by
  have hsub : b.aborts ⊆ id :: b.aborts := List.subset_cons_self _ _
  have hnone : Ledger { b with
      activeBuilds := b.activeBuilds.erase id, aborts := id :: b.aborts } := by
    refine ⟨h.running, fun id' hmem => ?_, fun t task ht => ?_,
      fun id' info hi => h.active id' info (lookup_of_lookup_erase hi), h.inserting, h.sent⟩
    · rcases h.answered id' hmem with htask | ha | hs
      · exact Or.inl htask
      · exact Or.inr (Or.inl (hsub ha))
      · exact Or.inr (Or.inr hs)
    · obtain ⟨hlt, hb⟩ := h.tasks t task ht
      exact ⟨hlt, hb.mono (List.Subset.refl _) hsub (List.Subset.refl _)⟩
  simp only [Builder.abortBuild, Builder.removeBuild]
  cases hinfo : b.activeBuilds.lookup id with
  | none => exact hnone
  | some info =>
    simp only [Builder.abortTask]
    cases ht : b.tasks.lookup info.handle with
    | none => exact hnone
    | some task =>
      have hb := (h.tasks _ task ht).2
      have hid := (h.active id info hinfo).2 task ht
      exact h.setTask ht rfl rfl rfl (fun _ _ => lookup_of_lookup_erase) rfl rfl rfl hsub
        (Or.inl rfl) ⟨hb.delivered, hb.sent, fun _ => hid ▸ List.mem_cons_self,
          fun _ => hid ▸ List.mem_cons_self⟩

/-- Every step that meets the condition keeps the invariant. -/
theorem step (h : Ledger b) {a : BuilderAction} (huse : InUse b a) (hkeeps : KeepsRequest b a)
    (hnext : b.next a = some b') : Ledger b' := by
  cases a with
  | build m =>
    obtain ⟨buildId, drv⟩ := m
    cases buildId with
    | none => exact absurd rfl huse
    | some id =>
      simp only [Builder.next] at hnext
      split at hnext
      · cases hnext
      · simp only [Option.some.injEq] at hnext
        subst hnext
        rw [Builder.scheduleBuild, if_neg (by simp [h.running])]
        cases hc : b.containsBuild drv with
        | true => exact h.drop (hkeeps hc id rfl)
        | false => exact h.spawn id drv
  | abort m =>
    obtain ⟨buildId⟩ := m
    cases buildId with
    | none => exact absurd rfl huse
    | some id =>
      simp only [Builder.next] at hnext
      split at hnext
      · cases hnext
      · simp only [Option.some.injEq] at hnext
        subst hnext
        exact h.abort id
  | insert =>
    simp only [Builder.next] at hnext
    split at hnext
    · rename_i id info hinfo
      simp only [Option.some.injEq] at hnext
      subst hnext
      refine ⟨h.running, h.answered, fun t task ht => ?_, fun id' info' hi => ?_, by simp
        [Builder.insertNewBuild], h.sent⟩
      · obtain ⟨hlt, hb⟩ := h.tasks t task ht
        exact ⟨hlt, ⟨hb.delivered, hb.sent, hb.cancelled, hb.aborted⟩⟩
      simp only [Builder.insertNewBuild, Map.lookup_insert_eq] at hi
      split_ifs at hi with he
      · cases hi
        exact he ▸ h.inserting id info hinfo
      · exact h.active id' info' hi
    · cases hnext
  | task t ok =>
    simp only [Builder.next] at hnext
    split at hnext
    · rename_i task ht
      simp only [Option.some.injEq] at hnext
      exact hnext ▸ h.runTask ht ok
    · cases hnext
  | cancel t =>
    simp only [Builder.next] at hnext
    split at hnext
    · rename_i task ht
      split_ifs at hnext with hc
      simp only [Option.some.injEq] at hnext
      subst hnext
      exact h.endTask ht (Or.inl ((h.tasks t task ht).2.aborted hc.1)) (fun _ _ => id) rfl
    · cases hnext
  | panic t =>
    simp only [Builder.next] at hnext
    split at hnext
    · rename_i task ht
      split_ifs at hnext with hc
      simp only [Option.some.injEq] at hnext
      subst hnext
      exact h.endTask ht (hkeeps task ht) (fun _ _ => id) rfl
    · cases hnext
  | enableHalt => exact absurd huse id
  | abortAllActiveBuilds => exact absurd huse id

theorem reach (h : Lts.Reach Builder.next (fun b a => InUse b a ∧ KeepsRequest b a) {} b) :
    Ledger b :=
  h.invariant init (fun _ _ _ hb hok hnext => hb.step hok.1 hok.2 hnext)

/-- The request of a task that panics is swallowed. -/
theorem swallows_panic (h : Ledger b) {t : Nat} (hlast : ¬KeepsRequest b (.panic t))
    (hnext : b.next (.panic t) = some b') : ¬NothingSwallowed b' := by
  simp only [KeepsRequest, Option.mem_def, Classical.not_imp, not_forall, not_or] at hlast
  obtain ⟨task, ht, haborts, hsent, hother⟩ := hlast
  simp only [Builder.next, ht] at hnext
  split_ifs at hnext
  simp only [Option.some.injEq] at hnext
  subst hnext
  intro hall
  rcases hall task.buildId (h.tasks t task ht).2.delivered with hrunning | ha | hs
  · exact hother hrunning
  · exact haborts ha
  · exact hsent hs

/-- A new request for a derivation with an entry is swallowed. -/
theorem swallows (h : Ledger b) {m : BuildMessage} (hentry : ¬KeepsRequest b (.build m))
    (hnext : b.next (.build m) = some b') : ¬NothingSwallowed b' := by
  obtain ⟨buildId, drv⟩ := m
  simp only [KeepsRequest, Option.mem_def, Classical.not_imp, not_forall, not_or] at hentry
  obtain ⟨hc, id, rfl, hdelivered, haborts⟩ := hentry
  simp only [Builder.next] at hnext
  split at hnext
  · cases hnext
  · simp only [Option.some.injEq, Builder.scheduleBuild, h.running, hc, if_true,
      Bool.false_eq_true, if_false] at hnext
    subst hnext
    intro hall
    rcases hall id List.mem_cons_self with ⟨task, htask, hid⟩ | ha | hs
    · obtain ⟨t, ht⟩ := Map.mem_values_iff.mp htask
      exact hdelivered (hid ▸ (h.tasks t task ht).2.delivered)
    · exact haborts ha
    · exact hdelivered (h.sent id hs)

end Ledger

/-! ## Whole runs -/

/-- In every run in which each new request finds no entry for its
derivation, and no task panics that is the last hope of its request, nothing
is swallowed; and a step from a state of such a run keeps it so exactly when
it meets the condition. -/
theorem nothingSwallowed_runs (b : Builder)
    (hrun : Lts.Reach Builder.next (fun b a => InUse b a ∧ KeepsRequest b a) {} b) :
    NothingSwallowed b ∧ ∀ a b', InUse b a → b.next a = some b' →
      (NothingSwallowed b' ↔ KeepsRequest b a) := by
  have h := Ledger.reach hrun
  refine ⟨h.answered, fun a b' huse hnext => ⟨fun hall => ?_, fun hkeeps => ?_⟩⟩
  · by_contra hkeeps
    cases a with
    | build m => exact h.swallows hkeeps hnext hall
    | panic t => exact h.swallows_panic hkeeps hnext hall
    | _ => exact hkeeps trivial
  · exact (h.step huse hkeeps hnext).answered

namespace Builder

def sampleDrv : StorePath := ⟨"a.drv"⟩

/-- A build that succeeds, up to `complete_build`. -/
def sampleReported : List BuilderAction :=
  [.build ⟨some 0, sampleDrv⟩, .insert, .task 0 true]

end Builder

/-- Two builds of one derivation, one after the other, and a third that
panics after it was aborted. -/
theorem nothingSwallowed_runs_twice : ∃ b, Lts.Reach Builder.next
    (fun b a => InUse b a ∧ KeepsRequest b a) {} b ∧ b.sent = [1, 0] ∧ b.aborts = [2] ∧
      b.tasks.keys = [] ∧ NothingSwallowed b := by
  have hend : (Lts.runWith Builder.next (fun b a => InUse b a ∧ KeepsRequest b a) {}
      (Builder.sampleReported ++ [.task 0 true, .task 0 true,
        .build ⟨some 1, Builder.sampleDrv⟩, .insert, .task 1 false, .task 1 true,
        .task 1 true, .task 1 true, .task 1 true, .build ⟨some 2, Builder.sampleDrv⟩, .insert,
        .abort ⟨some 2⟩, .panic 2])).map
      (fun b => (b.sent, b.aborts, b.tasks.keys)) = some ([1, 0], [2], []) := by decide +kernel
  obtain ⟨b, hb, he⟩ := Option.map_eq_some_iff.mp hend
  simp only [Prod.mk.injEq] at he
  have hrun := Lts.reach_of_runWith hb
  exact ⟨b, hrun, he.1, he.2.1, he.2.2, (nothingSwallowed_runs b hrun).1⟩

/-- The first build was reported, and its entry is still there: the second
request is dropped.  And the only task of a request panics. -/
theorem nothingSwallowed_fails :
    (∃ b, Lts.Reach Builder.next InUse {} b ∧ b.delivered = [1, 0] ∧ b.sent = [0] ∧
      ¬NothingSwallowed b) ∧
    ∃ b, Lts.Reach Builder.next InUse {} b ∧ b.delivered = [0] ∧ ¬NothingSwallowed b := by
  constructor
  · have hend : (Lts.runWith Builder.next InUse {}
        (Builder.sampleReported ++ [.build ⟨some 1, Builder.sampleDrv⟩, .task 0 true,
          .task 0 true])).map
        (fun b => (b.delivered, b.aborts, b.sent, b.tasks.values)) =
        some ([1, 0], [], [0], []) := by decide +kernel
    obtain ⟨b, hb, he⟩ := Option.map_eq_some_iff.mp hend
    simp only [Prod.mk.injEq] at he
    obtain ⟨hdelivered, haborts, hsent, htasks⟩ := he
    refine ⟨b, Lts.reach_of_runWith hb, hdelivered, hsent, fun h => ?_⟩
    have hanswered := h 1 (by simp [hdelivered])
    simp [Builder.Answered, haborts, hsent, htasks] at hanswered
  · have hend : (Lts.runWith Builder.next InUse {}
        [.build ⟨some 0, Builder.sampleDrv⟩, .insert, .panic 0]).map
        (fun b => (b.delivered, b.aborts, b.sent, b.tasks.values)) =
        some ([0], [], [], []) := by decide +kernel
    obtain ⟨b, hb, he⟩ := Option.map_eq_some_iff.mp hend
    simp only [Prod.mk.injEq] at he
    obtain ⟨hdelivered, haborts, hsent, htasks⟩ := he
    refine ⟨b, Lts.reach_of_runWith hb, hdelivered, fun h => ?_⟩
    have hanswered := h 0 (by simp [hdelivered])
    simp [Builder.Answered, haborts, hsent, htasks] at hanswered

end QueueRunner
