import Mathlib.Data.List.Nodup
import Mathlib.Data.List.Perm.Basic
import Mathlib.Data.List.Permutation
import QueueRunner.Lib.Map
import QueueRunner.Lib.Run
import QueueRunner.Uploader

/-!
# The bookkeeping of the uploader

Any number of `schedule_upload` calls and one consumer, which calls
`upload_once` or `upload_many` again and again, run interleaved at their
await points.  A message is in the queue until the consumer receives it,
and then in `current_tasks` until its call removes it.  Every call ends
with `save_state`: the snapshot is taken at once, and the write of the file
is awaited.  A thread of its own opens the file, which empties it, and
writes the text in one or more pieces, each where its last one ended.

`upload_many` keeps the messages that it has processed and drops the
others.  Writes of the file overlap: an older snapshot can land last, and
two texts can mix.  Apart from these, the books are right in every state.
-/

namespace QueueRunner

/-- The bytes of the state file, if there is one. -/
abbrev StateFile := Option (List UInt8)

/-- The content of a file after a write of `bytes` at an offset: what stands
behind them stays, and a gap before them reads as zeros. -/
def overwrite (content : List UInt8) (offset : Nat) (bytes : List UInt8) : List UInt8 :=
  content.take offset ++ List.replicate (offset - content.length) 0 ++ bytes ++
    content.drop (offset + bytes.length)

/-- Where the consumer is. -/
inductive Consumer where
  /-- Between two calls. -/
  | idle
  /-- `upload_once` waits in `recv`. -/
  | recv
  /-- `upload_many` waits in `recv_many`. -/
  | recvMany (limit : Nat)
  /-- `upload_once` waits in `upload_msg`. -/
  | once (msg : Message)
  /-- `upload_many` waits in `join_all`; `left` are the messages whose
  `upload_msg` has not returned. -/
  | many (messages left : List Message)
  /-- The call has processed `messages` and waits in `save_state`. -/
  | saving (messages : List Message)
deriving DecidableEq

/-- A `save_state` that waits for its write. -/
structure Save where
  json : List UInt8
  /-- How much is written; `none` before the file is open. -/
  offset : Option Nat := none
  ofConsumer : Bool
deriving DecidableEq

/-- Everything is written. -/
def Save.Done (save : Save) : Prop := save.offset = some save.json.length

instance (save : Save) : Decidable save.Done := inferInstanceAs (Decidable (_ = _))

/-- The uploader with its calls and its file.  The saves are in the order
of their snapshots.  `scheduled` and `returned` record which messages were
scheduled and whose `upload_msg` has returned. -/
structure Uploads where
  uploader : Uploader := {}
  consumer : Consumer := .idle
  saves : List Save := []
  file : StateFile := none
  nextId : Uuid := 0
  scheduled : List Message := []
  returned : List Uuid := []

section Writing

/-! `render` gives the bytes of `serde_json::to_string`. -/

variable (render : Json → List UInt8)

namespace Uploads

/-- The messages that were scheduled and whose `upload_msg` has not
returned. -/
def pending (w : Uploads) : List Message :=
  w.scheduled.filter (fun m => m.id ∉ w.returned)

/-- `save_state` takes its snapshot and starts to write. -/
def startSave (w : Uploads) (ofConsumer : Bool) : Uploads :=
  { w with saves := w.saves ++
      [{ json := render (serializeMessages w.uploader.snapshot), ofConsumer := ofConsumer }] }

/-- `schedule_upload` up to its await point. -/
def scheduleUpload (w : Uploads) (storePaths : List StorePath)
    (logRemotePath logLocalPath : String) : Uploads :=
  let m : Message := ⟨w.nextId, storePaths, logRemotePath, logLocalPath⟩
  { w with
    uploader := { w.uploader with queue := w.uploader.queue ++ [m] }
    nextId := w.nextId + 1
    scheduled := w.scheduled ++ [m] }.startSave render false

/-- `recv`, and `upload_once` up to the call of `upload_msg`. -/
def recv (w : Uploads) : Uploads :=
  match w.uploader.queue with
  | [] => { w with consumer := .recv }
  | msg :: queue =>
    { w with
      uploader := ⟨queue, w.uploader.currentTasks ++ [msg]⟩
      consumer := .once msg }

/-- `recv_many`, and `upload_many` up to `join_all`.  `recv_many` returns
at least one message, so the branch for none is not reached. -/
def recvMany (w : Uploads) (limit : Nat) : Uploads :=
  match w.uploader.queue.take limit with
  | [] => { w with consumer := .recvMany limit }
  | messages =>
    { w with
      uploader := ⟨w.uploader.queue.drop limit, w.uploader.currentTasks ++ messages⟩
      consumer := .many messages messages }

/-- The end of `upload_once`, after `upload_msg`. -/
def finishOnce (w : Uploads) (msg : Message) : Uploads :=
  { w with
    uploader := { w.uploader with
      currentTasks := w.uploader.currentTasks.filter (fun v => v.id != msg.id) }
    consumer := .saving [msg] }.startSave render true

/-- The end of `upload_many`, after `join_all`. -/
def finishMany (w : Uploads) (messages : List Message) : Uploads :=
  let messageIds := messages.map Message.id
  { w with
    uploader := { w.uploader with
      currentTasks := w.uploader.currentTasks.filter (fun v => messageIds.contains v.id) }
    consumer := .saving messages }.startSave render true

/-- An `upload_msg` returns. -/
def markReturned (w : Uploads) (msg : Message) : Uploads :=
  { w with returned := msg.id :: w.returned }

/-- The `i`-th `upload_msg` of the call returns.  The last one ends the
wait. -/
def uploaded (w : Uploads) (i : Nat) : Option Uploads :=
  match w.consumer with
  | .once msg => some ((w.markReturned msg).finishOnce render msg)
  | .many messages left =>
    match left[i]? with
    | none => none
    | some msg =>
      match left.eraseIdx i with
      | [] => some ((w.markReturned msg).finishMany render messages)
      | left' => some { w.markReturned msg with consumer := .many messages left' }
  | _ => none

/-- `fs::write` of the `i`-th save opens the file: it is created, or
emptied. -/
def opened (w : Uploads) (i : Nat) : Option Uploads :=
  match w.saves[i]? with
  | some ⟨json, none, ofConsumer⟩ =>
    some { w with
      file := some []
      saves := w.saves.set i ⟨json, some 0, ofConsumer⟩ }
  | _ => none

/-- It writes the next `n` bytes, whatever stands there. -/
def wrote (w : Uploads) (i n : Nat) : Option Uploads :=
  match w.saves[i]? with
  | some ⟨json, some offset, ofConsumer⟩ =>
    if 0 < n ∧ offset + n ≤ json.length then
      some { w with
        file := some (overwrite (w.file.getD []) offset ((json.drop offset).take n))
        saves := w.saves.set i ⟨json, some (offset + n), ofConsumer⟩ }
    else none
  | _ => none

/-- The call of the `i`-th save returns; it drops an error. -/
def endSave (w : Uploads) (i : Nat) (save : Save) : Uploads :=
  { w with
    saves := w.saves.eraseIdx i
    consumer := if save.ofConsumer then .idle else w.consumer }

/-- The `i`-th write has succeeded. -/
def written (w : Uploads) (i : Nat) : Option Uploads :=
  match w.saves[i]? with
  | some save => if save.Done then some (w.endSave i save) else none
  | none => none

/-- The `i`-th write fails, wherever it is. -/
def failed (w : Uploads) (i : Nat) : Option Uploads :=
  match w.saves[i]? with
  | some save => some (w.endSave i save)
  | none => none

end Uploads

/-- What can happen at an await point. -/
inductive UploadAction where
  | scheduleUpload (storePaths : List StorePath) (logRemotePath logLocalPath : String)
  | uploadOnce
  | uploadMany (limit : Nat)
  /-- The consumer that waits for a message is woken. -/
  | notified
  | uploaded (i : Nat)
  | opened (i : Nat)
  | wrote (i n : Nat)
  | written (i : Nat)
  | failed (i : Nat)
deriving DecidableEq

/-- One step.  A consumer calls with a limit of at least one. -/
def Uploads.next (w : Uploads) : UploadAction → Option Uploads
  | .scheduleUpload storePaths logRemotePath logLocalPath =>
    some (w.scheduleUpload render storePaths logRemotePath logLocalPath)
  | .uploadOnce => if w.consumer = .idle then some w.recv else none
  | .uploadMany limit =>
    if w.consumer = .idle ∧ 1 ≤ limit then some (w.recvMany limit) else none
  | .notified =>
    match w.consumer with
    | .recv => some w.recv
    | .recvMany limit => some (w.recvMany limit)
    | _ => none
  | .uploaded i => w.uploaded render i
  | .opened i => w.opened i
  | .wrote i n => w.wrote i n
  | .written i => w.written i
  | .failed i => w.failed i

/-- The file holds exactly these messages, in some order. -/
def StateFile.Holds (file : StateFile) (messages : List Message) : Prop :=
  match file with
  | none => messages = []
  | some bytes => ∃ l, l.Perm messages ∧ bytes = render (serializeMessages l)

/-- The books are right. -/
structure Uploads.Bookkeeping (w : Uploads) : Prop where
  /-- A pending message is in exactly one place, once. -/
  one_place : ∀ m ∈ w.pending, (w.uploader.queue ++ w.uploader.currentTasks).count m = 1
  /-- When a call of the consumer returns, what it processed has left
  `current_tasks`, and everything else in progress is there. -/
  returns : ∀ a w' messages, w.consumer = .saving messages → w.next render a = some w' →
    w'.consumer = .idle →
      (∀ m ∈ messages, m ∉ w'.uploader.currentTasks) ∧
      (∀ m ∈ w'.pending, m ∉ w'.uploader.queue → m ∈ w'.uploader.currentTasks)
  /-- With no call in progress the file holds the pending messages. -/
  saved : w.consumer = .idle → w.saves = [] → w.file.Holds render w.pending

end Writing

/-- `upload_many` waits for its last `upload_msg`; its `retain` comes next. -/
def Uploads.retainsNext (w : Uploads) : Bool :=
  match w.consumer with
  | .many _ left => left.length = 1
  | _ => false

/-- No `upload_many` comes to its `retain`, a write opens the file only when
the texts of all older snapshots are written, and no write fails. -/
def SavesInOrder (w : Uploads) : UploadAction → Prop
  | .uploaded _ => w.retainsNext = false
  | .opened i => ∀ save ∈ w.saves.take i, save.Done
  | .failed _ => False
  | _ => True

instance (w : Uploads) (a : UploadAction) : Decidable (SavesInOrder w a) :=
  match a with
  | .uploaded _ => inferInstanceAs (Decidable (w.retainsNext = false))
  | .opened i => inferInstanceAs (Decidable (∀ save ∈ w.saves.take i, save.Done))
  | .failed _ => inferInstanceAs (Decidable False)
  | .scheduleUpload _ _ _ | .uploadOnce | .uploadMany _ | .notified | .wrote _ _ | .written _ =>
    inferInstanceAs (Decidable True)

section Facts

variable {render : Json → List UInt8}

theorem StateFile.Holds.perm {file : StateFile} {l l' : List Message}
    (h : file.Holds render l) (hperm : l.Perm l') : file.Holds render l' := by
  cases file with
  | none =>
    obtain rfl : l = [] := h
    exact List.nil_perm.mp hperm
  | some bytes =>
    obtain ⟨k, hk, hv⟩ := h
    exact ⟨k, hk.trans hperm, hv⟩

/-- A writer that goes on where it has ended. -/
theorem overwrite_take (json : List UInt8) {offset n : Nat} (hle : offset + n ≤ json.length) :
    overwrite (json.take offset) offset ((json.drop offset).take n) = json.take (offset + n) := by
  have hlen : (json.take offset).length = offset := by
    rw [List.length_take]
    omega
  have hrest : (json.take offset).drop (offset + ((json.drop offset).take n).length) = [] :=
    List.drop_eq_nil_of_le (by omega)
  rw [overwrite, hrest, List.take_take, min_self, hlen, Nat.sub_self, List.replicate_zero,
    List.append_nil, List.append_nil, ← List.take_add]

namespace Uploads

/-! ## Where the messages are -/

/-- The messages whose `upload_msg` is running. -/
def inProgress (w : Uploads) : List Message :=
  match w.consumer with
  | .once msg => [msg]
  | .many _ left => left
  | _ => []

/-- The messages that the running call has received. -/
def received (w : Uploads) : List Message :=
  match w.consumer with
  | .once msg => [msg]
  | .many messages _ => messages
  | _ => []

/-- Whether the consumer waits for its write. -/
def isSaving (w : Uploads) : Bool :=
  match w.consumer with
  | .saving _ => true
  | _ => false

/-- The places of the messages.  Every step keeps this but the `retain` of
`upload_many`. -/
structure Places (w : Uploads) : Prop where
  ids : (w.scheduled.map Message.id).Nodup
  scheduled_lt : ∀ m ∈ w.scheduled, m.id < w.nextId
  returned_lt : ∀ id ∈ w.returned, id < w.nextId
  nodup : (w.uploader.queue ++ w.uploader.currentTasks).Nodup
  subset : ∀ m ∈ w.uploader.queue ++ w.uploader.currentTasks, m ∈ w.scheduled
  currentTasks : w.uploader.currentTasks = w.received
  inProgress_subset : w.inProgress ⊆ w.received
  pending : (w.uploader.queue ++ w.inProgress).Perm w.pending
  consumerSaves : w.saves.countP Save.ofConsumer = w.isSaving.toNat

/-- The newest snapshot holds the messages of the queue and the current
tasks.  Its write is the last one to open the file, and the file is its
own from then on. -/
inductive Newest (render : Json → List UInt8) (w : Uploads) : Prop where
  /-- The newest save waits for the file. -/
  | waiting (older : List Save) (save : Save) (hsaves : w.saves = older ++ [save])
      (hoffset : save.offset = none)
      (hjson : StateFile.Holds render (some save.json) w.uploader.snapshot)
  | writing (older : List Save) (save : Save) (n : Nat) (hsaves : w.saves = older ++ [save])
      (hoffset : save.offset = some n)
      (hjson : StateFile.Holds render (some save.json) w.uploader.snapshot)
      (hfile : w.file = some (save.json.take n)) (hdone : ∀ s ∈ older, s.Done)
  /-- The newest save has returned. -/
  | written (hdone : ∀ s ∈ w.saves, s.Done) (hfile : w.file.Holds render w.uploader.snapshot)

theorem nodup_ids_pending {w : Uploads} (hids : (w.scheduled.map Message.id).Nodup) :
    (w.pending.map Message.id).Nodup :=
  hids.sublist (List.filter_sublist.map _)

/-- A message whose `upload_msg` returns is not pending any more. -/
theorem perm_pending_markReturned {w : Uploads} {msg : Message} {rest : List Message}
    (hids : (w.scheduled.map Message.id).Nodup) (h : (msg :: rest).Perm w.pending) :
    rest.Perm (w.markReturned msg).pending := by
  have hnodup : ((msg :: rest).map Message.id).Nodup :=
    (h.map Message.id).nodup_iff.mpr (nodup_ids_pending hids)
  have hrest : (msg :: rest).filter (fun m => m.id ≠ msg.id) = rest := by
    rw [List.filter_cons_of_neg (by simp), List.filter_eq_self]
    intro m hm
    have hne : m.id ≠ msg.id := by
      rintro he
      rw [List.map_cons, List.nodup_cons, ← he] at hnodup
      exact hnodup.1 (List.mem_map_of_mem hm)
    simpa using hne
  have hpending : (w.markReturned msg).pending = w.pending.filter (fun m => m.id ≠ msg.id) := by
    simp only [pending, markReturned, List.filter_filter]
    apply List.filter_congr
    intro m _
    simp
  rw [hpending, ← hrest]
  exact h.filter _

theorem Places.fresh {w : Uploads} (h : w.Places) {m : Message} (hm : m.id = w.nextId) :
    m ∉ w.scheduled := by
  intro hmem
  have hlt := h.scheduled_lt m hmem
  rw [hm] at hlt
  exact Nat.lt_irrefl _ hlt

theorem Places.scheduleUpload {w : Uploads} (h : w.Places) (storePaths : List StorePath)
    (logRemotePath logLocalPath : String) :
    (w.scheduleUpload render storePaths logRemotePath logLocalPath).Places := by
  set m : Message := ⟨w.nextId, storePaths, logRemotePath, logLocalPath⟩ with hm
  have hfresh : m ∉ w.scheduled := h.fresh rfl
  have hpending : (w.scheduleUpload render storePaths logRemotePath logLocalPath).pending =
      w.pending ++ [m] := by
    have hret : w.nextId ∉ w.returned := fun hmem => Nat.lt_irrefl _ (h.returned_lt _ hmem)
    have hone : [m].filter (fun m => decide (m.id ∉ w.returned)) = [m] := by
      simp [hm, hret]
    rw [Uploads.pending, Uploads.pending, ← hone]
    exact List.filter_append w.scheduled [m]
  constructor
  case ids =>
    exact Map.nodup_map_concat h.ids (fun o ho => Nat.ne_of_lt (h.scheduled_lt o ho))
  case scheduled_lt =>
    intro o ho
    simp only [Uploads.scheduleUpload, startSave, List.mem_append, List.mem_singleton] at ho ⊢
    rcases ho with ho | rfl
    · exact Nat.lt_succ_of_lt (h.scheduled_lt o ho)
    · exact Nat.lt_succ_self _
  case returned_lt => exact fun id hid => Nat.lt_succ_of_lt (h.returned_lt id hid)
  case nodup =>
    have hnot : m ∉ w.uploader.queue ++ w.uploader.currentTasks := fun hmem =>
      hfresh (h.subset m hmem)
    have hperm : (m :: (w.uploader.queue ++ w.uploader.currentTasks)).Perm
        (w.uploader.queue ++ [m] ++ w.uploader.currentTasks) := by
      rw [List.append_assoc]
      exact List.perm_middle.symm
    exact hperm.nodup_iff.mp (List.nodup_cons.mpr ⟨hnot, h.nodup⟩)
  case subset =>
    intro o ho
    simp only [Uploads.scheduleUpload, startSave, List.mem_append, List.mem_singleton] at ho ⊢
    rcases ho with (ho | rfl) | ho
    · exact .inl (h.subset o (List.mem_append_left _ ho))
    · exact .inr rfl
    · exact .inl (h.subset o (List.mem_append_right _ ho))
  case currentTasks => exact h.currentTasks
  case inProgress_subset => exact h.inProgress_subset
  case pending =>
    rw [hpending]
    have hperm : (w.uploader.queue ++ [m] ++ w.inProgress).Perm
        (w.uploader.queue ++ w.inProgress ++ [m]) := by
      rw [List.append_assoc, List.append_assoc]
      exact List.Perm.append_left _ List.perm_append_comm
    exact hperm.trans (h.pending.append_right _)
  case consumerSaves =>
    have hcount : (w.scheduleUpload render storePaths logRemotePath logLocalPath).saves.countP
        Save.ofConsumer = w.saves.countP Save.ofConsumer := by
      simp [Uploads.scheduleUpload, startSave]
    rw [hcount]
    exact h.consumerSaves

/-- The consumer receives `batch` and goes to `consumer`. -/
def receive (w : Uploads) (queue batch : List Message) (consumer : Consumer) : Uploads :=
  { w with
    uploader := ⟨queue, w.uploader.currentTasks ++ batch⟩
    consumer := consumer }

theorem recv_eq (w : Uploads) :
    w.recv = w.receive w.uploader.queue [] .recv ∨
    ∃ msg queue, w.uploader.queue = msg :: queue ∧ w.recv = w.receive queue [msg] (.once msg) := by
  unfold recv
  split
  case h_1 hqueue =>
    refine .inl ?_
    simp only [receive, List.append_nil]
  case h_2 msg queue hqueue => exact .inr ⟨msg, queue, hqueue, rfl⟩

theorem recvMany_eq (w : Uploads) (limit : Nat) :
    w.recvMany limit = w.receive w.uploader.queue [] (.recvMany limit) ∨
    w.recvMany limit = w.receive (w.uploader.queue.drop limit) (w.uploader.queue.take limit)
      (.many (w.uploader.queue.take limit) (w.uploader.queue.take limit)) := by
  unfold recvMany
  split
  case h_1 hqueue =>
    refine .inl ?_
    simp only [receive, List.append_nil]
  case h_2 => exact .inr rfl

/-- A consumer that receives moves messages of the queue. -/
theorem Places.receive {w : Uploads} (h : w.Places) (hreceived : w.received = [])
    (hprogress : w.inProgress = []) (hsaving : w.isSaving = false)
    {queue batch : List Message} {consumer : Consumer}
    (hperm : (queue ++ batch).Perm w.uploader.queue)
    (hreceived' : (w.receive queue batch consumer).received = batch)
    (hprogress' : (w.receive queue batch consumer).inProgress = batch)
    (hsaving' : (w.receive queue batch consumer).isSaving = false) :
    (w.receive queue batch consumer).Places := by
  have htasks : w.uploader.currentTasks = [] := h.currentTasks.trans hreceived
  have htasks' : (w.receive queue batch consumer).uploader.currentTasks = batch := by
    simp [Uploads.receive, htasks]
  have hpending := h.pending
  have hnodup := h.nodup
  have hsubset := h.subset
  rw [hprogress, List.append_nil] at hpending
  rw [htasks, List.append_nil] at hnodup hsubset
  refine ⟨h.ids, h.scheduled_lt, h.returned_lt, ?_, ?_, ?_, ?_, ?_, ?_⟩
  · rw [htasks']
    exact hperm.nodup_iff.mpr hnodup
  · intro m hm
    rw [htasks'] at hm
    exact hsubset m (hperm.subset hm)
  · rw [htasks', hreceived']
  · rw [hprogress', hreceived']
    exact List.Subset.refl _
  · rw [hprogress']
    exact hperm.trans hpending
  · rw [hsaving', ← hsaving]
    exact h.consumerSaves

theorem Places.recv {w : Uploads} (h : w.Places) (hreceived : w.received = [])
    (hprogress : w.inProgress = []) (hsaving : w.isSaving = false) : w.recv.Places := by
  rcases w.recv_eq with heq | ⟨msg, queue, hqueue, heq⟩
  · rw [heq]
    exact h.receive hreceived hprogress hsaving (by simp) rfl rfl rfl
  · rw [heq]
    refine h.receive hreceived hprogress hsaving ?_ rfl rfl rfl
    rw [hqueue]
    exact List.perm_append_singleton msg queue

theorem Places.recvMany {w : Uploads} (h : w.Places) (hreceived : w.received = [])
    (hprogress : w.inProgress = []) (hsaving : w.isSaving = false) (limit : Nat) :
    (w.recvMany limit).Places := by
  rcases w.recvMany_eq limit with heq | heq
  · rw [heq]
    exact h.receive hreceived hprogress hsaving (by simp) rfl rfl rfl
  · rw [heq]
    refine h.receive hreceived hprogress hsaving ?_ rfl rfl rfl
    exact List.perm_append_comm.trans (List.Perm.of_eq (List.take_append_drop limit _))

/-- What an `upload_msg` that returns can lead to. -/
theorem uploaded_cases {w w' : Uploads} {i : Nat} (hnext : w.uploaded render i = some w') :
    (∃ msg, w.consumer = .once msg ∧ w' = (w.markReturned msg).finishOnce render msg) ∨
    (∃ messages left msg, w.consumer = .many messages left ∧ left[i]? = some msg ∧
      w' = { w.markReturned msg with consumer := .many messages (left.eraseIdx i) }) ∨
    w.retainsNext = true := by
  unfold uploaded at hnext
  split at hnext
  case h_1 msg hc => exact .inl ⟨msg, hc, (Option.some.inj hnext).symm⟩
  case h_2 messages left hc =>
    split at hnext
    · cases hnext
    rename_i msg hmsg
    have hlt : i < left.length := (List.getElem?_eq_some_iff.mp hmsg).1
    by_cases hlen : left.length = 1
    · exact .inr (.inr (by simp [retainsNext, hc, hlen]))
    · refine .inr (.inl ⟨messages, left, msg, hc, hmsg, ?_⟩)
      split at hnext
      · rename_i hnil
        have hlen' : (left.eraseIdx i).length = 0 := by rw [hnil]; rfl
        rw [List.length_eraseIdx_of_lt hlt] at hlen'
        omega
      · exact (Option.some.inj hnext).symm
  case h_3 => cases hnext

theorem Places.finishOnce {w : Uploads} {msg : Message} (h : w.Places)
    (hc : w.consumer = .once msg) : ((w.markReturned msg).finishOnce render msg).Places := by
  have htasks : w.uploader.currentTasks = [msg] := by
    rw [h.currentTasks, received, hc]
  have hpending : (msg :: w.uploader.queue).Perm w.pending := by
    have hp := h.pending
    rw [inProgress, hc] at hp
    exact (List.perm_append_singleton msg _).symm.trans hp
  have hmem : msg ∈ w.scheduled := h.subset msg (by simp [htasks])
  have htasks' : ((w.markReturned msg).finishOnce render msg).uploader.currentTasks = [] := by
    simp [Uploads.finishOnce, markReturned, startSave, htasks]
  have hqueue : ((w.markReturned msg).finishOnce render msg).uploader.queue =
      w.uploader.queue := rfl
  refine ⟨h.ids, h.scheduled_lt, ?_, ?_, ?_, htasks', List.Subset.refl _, ?_, ?_⟩
  · intro id hid
    rcases List.mem_cons.mp hid with rfl | hid
    · exact h.scheduled_lt msg hmem
    · exact h.returned_lt id hid
  · rw [htasks', hqueue, List.append_nil]
    exact (List.nodup_append.mp h.nodup).1
  · intro m hm
    rw [htasks', hqueue, List.append_nil] at hm
    exact h.subset m (List.mem_append_left _ hm)
  · change (w.uploader.queue ++ []).Perm (w.markReturned msg).pending
    rw [List.append_nil]
    exact perm_pending_markReturned h.ids hpending
  · have hsaves := h.consumerSaves
    rw [isSaving, hc] at hsaves
    have hcount : ((w.markReturned msg).finishOnce render msg).saves.countP Save.ofConsumer =
        w.saves.countP Save.ofConsumer + 1 := by
      simp [Uploads.finishOnce, markReturned, startSave]
    rw [hcount, hsaves]
    rfl

theorem Places.returnOne {w : Uploads} {messages left : List Message} {i : Nat} {msg : Message}
    (h : w.Places) (hc : w.consumer = .many messages left) (hmsg : left[i]? = some msg) :
    { w.markReturned msg with consumer := .many messages (left.eraseIdx i) }.Places := by
  obtain ⟨hlt, hget⟩ := List.getElem?_eq_some_iff.mp hmsg
  have hsub := h.inProgress_subset
  have htasks := h.currentTasks
  have hp := h.pending
  rw [inProgress, received, hc] at hsub
  rw [received, hc] at htasks
  rw [inProgress, hc] at hp
  have hmem : msg ∈ left := hget ▸ List.getElem_mem hlt
  have hscheduled : msg ∈ w.scheduled :=
    h.subset msg (List.mem_append_right _ (htasks ▸ hsub hmem))
  have hperm : (msg :: (w.uploader.queue ++ left.eraseIdx i)).Perm w.pending := by
    refine List.Perm.trans ?_ hp
    refine List.perm_middle.symm.trans (List.Perm.append_left _ ?_)
    rw [← hget]
    exact List.getElem_cons_eraseIdx_perm hlt
  refine ⟨h.ids, h.scheduled_lt, ?_, h.nodup, h.subset, htasks, ?_, ?_, ?_⟩
  · intro id hid
    rcases List.mem_cons.mp hid with rfl | hid
    · exact h.scheduled_lt msg hscheduled
    · exact h.returned_lt id hid
  · exact fun m hm => hsub (List.mem_of_mem_eraseIdx hm)
  · exact perm_pending_markReturned h.ids hperm
  · have hsaves := h.consumerSaves
    rw [isSaving, hc] at hsaves
    exact hsaves

/-- What happens to the file before a save ends is no matter of the
messages. -/
theorem Places.set {w : Uploads} (h : w.Places) {i : Nat} {save : Save} (save' : Save)
    (hsave : w.saves[i]? = some save) (hof : save'.ofConsumer = save.ofConsumer)
    (file : StateFile) :
    ({ w with file := file, saves := w.saves.set i save' } : Uploads).Places := by
  have hmap : (w.saves.set i save').map Save.ofConsumer = w.saves.map Save.ofConsumer := by
    obtain ⟨hlt, hget⟩ := List.getElem?_eq_some_iff.mp hsave
    rw [List.map_set, hof, ← hget, ← List.getElem_map Save.ofConsumer (h := by simpa using hlt),
      List.set_getElem_self]
  have hcount : (w.saves.set i save').countP Save.ofConsumer = w.saves.countP Save.ofConsumer := by
    simpa only [List.countP_map, Function.id_comp] using congrArg (List.countP id) hmap
  exact { h with consumerSaves := hcount.trans h.consumerSaves }

theorem Places.opened {w w' : Uploads} {i : Nat} (h : w.Places) (hnext : w.opened i = some w') :
    w'.Places := by
  unfold Uploads.opened at hnext
  split at hnext
  · rename_i json ofConsumer hsave
    obtain rfl := Option.some.inj hnext
    exact h.set ⟨json, some 0, ofConsumer⟩ hsave rfl _
  · cases hnext

theorem Places.wrote {w w' : Uploads} {i n : Nat} (h : w.Places)
    (hnext : w.wrote i n = some w') : w'.Places := by
  unfold Uploads.wrote at hnext
  split at hnext
  · rename_i json offset ofConsumer hsave
    rw [Option.ite_none_right_eq_some] at hnext
    obtain rfl := Option.some.inj hnext.2
    exact h.set ⟨json, some (offset + n), ofConsumer⟩ hsave rfl _
  · cases hnext

/-- What `written` and `failed` have in common. -/
theorem Places.endSave {w : Uploads} {i : Nat} {save : Save} (h : w.Places)
    (hsave : w.saves[i]? = some save) : (w.endSave i save).Places := by
  obtain ⟨hlt, hget⟩ := List.getElem?_eq_some_iff.mp hsave
  have hcount : w.saves.countP Save.ofConsumer =
      (w.saves.eraseIdx i).countP Save.ofConsumer + save.ofConsumer.toNat := by
    rw [← (List.getElem_cons_eraseIdx_perm hlt).countP_eq, List.countP_cons, hget]
    cases save.ofConsumer <;> rfl
  have hsaves := h.consumerSaves
  rw [hcount] at hsaves
  cases hof : save.ofConsumer with
  | false =>
    rw [Uploads.endSave, hof]
    rw [hof] at hsaves
    exact ⟨h.ids, h.scheduled_lt, h.returned_lt, h.nodup, h.subset, h.currentTasks,
      h.inProgress_subset, h.pending, hsaves⟩
  | true =>
    rw [Uploads.endSave, hof]
    rw [hof] at hsaves
    have hsaving : w.isSaving = true := by
      cases hs : w.isSaving with
      | true => rfl
      | false =>
        rw [hs] at hsaves
        simp at hsaves
    obtain ⟨messages, hc⟩ : ∃ messages, w.consumer = .saving messages := by
      unfold isSaving at hsaving
      split at hsaving
      · exact ⟨_, by assumption⟩
      · cases hsaving
    have htasks := h.currentTasks
    have hp := h.pending
    rw [received, hc] at htasks
    rw [inProgress, hc] at hp
    rw [hsaving] at hsaves
    refine ⟨h.ids, h.scheduled_lt, h.returned_lt, h.nodup, h.subset, htasks,
      List.Subset.refl _, hp, ?_⟩
    simpa [isSaving] using hsaves

theorem written_eq {w w' : Uploads} {i : Nat} (hnext : w.written i = some w') :
    ∃ save, w.saves[i]? = some save ∧ save.Done ∧ w' = w.endSave i save := by
  unfold Uploads.written at hnext
  split at hnext
  · rename_i save hsave
    rw [Option.ite_none_right_eq_some] at hnext
    exact ⟨save, hsave, hnext.1, (Option.some.inj hnext.2).symm⟩
  · cases hnext

/-- Every step but the `retain` of `upload_many` keeps the places. -/
theorem Places.step {w w' : Uploads} {a : UploadAction} (h : w.Places)
    (hok : ∀ i, a = .uploaded i → w.retainsNext = false)
    (hnext : w.next render a = some w') : w'.Places := by
  cases a with
  | scheduleUpload storePaths logRemotePath logLocalPath =>
    obtain rfl := Option.some.inj hnext
    exact h.scheduleUpload storePaths logRemotePath logLocalPath
  | uploadOnce =>
    simp only [next, Option.ite_none_right_eq_some] at hnext
    obtain ⟨hc, hw⟩ := hnext
    obtain rfl := Option.some.inj hw
    exact h.recv (by simp [received, hc]) (by simp [inProgress, hc]) (by simp [isSaving, hc])
  | uploadMany limit =>
    simp only [next, Option.ite_none_right_eq_some] at hnext
    obtain ⟨⟨hc, -⟩, hw⟩ := hnext
    obtain rfl := Option.some.inj hw
    exact h.recvMany (by simp [received, hc]) (by simp [inProgress, hc])
      (by simp [isSaving, hc]) limit
  | notified =>
    simp only [next] at hnext
    split at hnext
    · rename_i hc
      obtain rfl := Option.some.inj hnext
      exact h.recv (by simp [received, hc]) (by simp [inProgress, hc]) (by simp [isSaving, hc])
    · rename_i limit hc
      obtain rfl := Option.some.inj hnext
      exact h.recvMany (by simp [received, hc]) (by simp [inProgress, hc])
        (by simp [isSaving, hc]) limit
    · cases hnext
  | uploaded i =>
    rcases uploaded_cases hnext with ⟨msg, hc, rfl⟩ | ⟨messages, left, msg, hc, hmsg, rfl⟩ |
      hretains
    · exact h.finishOnce hc
    · exact h.returnOne hc hmsg
    · rw [hok i rfl] at hretains
      cases hretains
  | opened i => exact h.opened hnext
  | wrote i n => exact h.wrote hnext
  | written i =>
    obtain ⟨save, hsave, -, rfl⟩ := written_eq hnext
    exact h.endSave hsave
  | failed i =>
    simp only [next, failed] at hnext
    split at hnext
    · rename_i hsave
      obtain rfl := Option.some.inj hnext
      exact h.endSave hsave
    · cases hnext

/-! ## What the file holds -/

theorem newest_startSave (w : Uploads) (ofConsumer : Bool) :
    (w.startSave render ofConsumer).Newest render :=
  .waiting _ _ rfl rfl ⟨_, List.Perm.refl _, rfl⟩

theorem Newest.of_eq {w w' : Uploads} (h : w.Newest render) (hsaves : w'.saves = w.saves)
    (hfile : w'.file = w.file) (huploader : w'.uploader = w.uploader) : w'.Newest render := by
  cases h with
  | waiting older save hlast hoffset hjson =>
    exact .waiting older save (hsaves.trans hlast) hoffset (huploader ▸ hjson)
  | writing older save n hlast hoffset hjson hcontent hdone =>
    exact .writing older save n (hsaves.trans hlast) hoffset (huploader ▸ hjson)
      (hfile.trans hcontent) hdone
  | written hdone hcontent =>
    refine .written (hsaves ▸ hdone) ?_
    rw [hfile, huploader]
    exact hcontent

theorem Newest.receive {w : Uploads} (h : w.Newest render) {queue batch : List Message}
    (consumer : Consumer) (hperm : (queue ++ batch).Perm w.uploader.queue) :
    (w.receive queue batch consumer).Newest render := by
  have hsnapshot : w.uploader.snapshot.Perm (w.receive queue batch consumer).uploader.snapshot := by
    simp only [Uploader.snapshot, Uploads.receive]
    refine (hperm.symm.append_right _).trans ?_
    rw [List.append_assoc]
    exact List.Perm.append_left _ List.perm_append_comm
  cases h with
  | waiting older save hsaves hoffset hjson =>
    exact .waiting older save hsaves hoffset (hjson.perm hsnapshot)
  | writing older save n hsaves hoffset hjson hfile hdone =>
    exact .writing older save n hsaves hoffset (hjson.perm hsnapshot) hfile hdone
  | written hdone hfile => exact .written hdone (hfile.perm hsnapshot)

theorem Newest.recv {w : Uploads} (h : w.Newest render) : w.recv.Newest render := by
  rcases w.recv_eq with heq | ⟨msg, queue, hqueue, heq⟩
  · rw [heq]
    exact h.receive _ (by simp)
  · rw [heq]
    refine h.receive _ ?_
    rw [hqueue]
    exact List.perm_append_singleton msg queue

theorem Newest.recvMany {w : Uploads} (h : w.Newest render) (limit : Nat) :
    (w.recvMany limit).Newest render := by
  rcases w.recvMany_eq limit with heq | heq
  · rw [heq]
    exact h.receive _ (by simp)
  · rw [heq]
    refine h.receive _ ?_
    exact List.perm_append_comm.trans (List.Perm.of_eq (List.take_append_drop limit _))

/-- A save is one of the older ones or the last. -/
theorem getElem?_concat_cases {older : List Save} {save s : Save} {i : Nat}
    (h : (older ++ [save])[i]? = some s) :
    (i < older.length ∧ s ∈ older) ∨ (i = older.length ∧ s = save) := by
  rcases Nat.lt_trichotomy i older.length with hlt | heq | hgt
  · rw [List.getElem?_append_left hlt] at h
    exact .inl ⟨hlt, List.mem_of_getElem? h⟩
  · subst heq
    rw [List.getElem?_concat_length] at h
    exact .inr ⟨rfl, (Option.some.inj h).symm⟩
  · rw [List.getElem?_eq_none (by simp; omega)] at h
    cases h

/-- With the older texts written, the one that opens the file is the last:
the file is its own from here on. -/
theorem Newest.opened {w w' : Uploads} {i : Nat} (h : w.Newest render)
    (hok : ∀ save ∈ w.saves.take i, save.Done) (hnext : w.opened i = some w') :
    w'.Newest render := by
  unfold Uploads.opened at hnext
  split at hnext
  case h_2 => cases hnext
  rename_i json ofConsumer hsave
  obtain rfl := Option.some.inj hnext
  have hundone : ¬ (⟨json, none, ofConsumer⟩ : Save).Done := by simp [Save.Done]
  cases h with
  | waiting older save hsaves hoffset hjson =>
    rw [hsaves] at hsave
    rcases getElem?_concat_cases hsave with ⟨hlt, -⟩ | ⟨rfl, rfl⟩
    · refine .waiting (older.set i ⟨json, some 0, ofConsumer⟩) _ ?_ hoffset hjson
      simp only [hsaves, List.set_append_left _ _ hlt]
    · have holder : ∀ s ∈ older, s.Done := by
        rw [hsaves, List.take_left] at hok
        exact hok
      refine .writing older ⟨json, some 0, ofConsumer⟩ 0 ?_ rfl hjson rfl holder
      simp [hsaves]
  | writing older save n hsaves hoffset hjson hfile hdone =>
    rw [hsaves] at hsave
    rcases getElem?_concat_cases hsave with ⟨-, hmem⟩ | ⟨rfl, rfl⟩
    · exact absurd (hdone _ hmem) hundone
    · cases hoffset
  | written hdone hfile => exact absurd (hdone _ (List.mem_of_getElem? hsave)) hundone

theorem Newest.wrote {w w' : Uploads} {i n : Nat} (h : w.Newest render)
    (hnext : w.wrote i n = some w') : w'.Newest render := by
  unfold Uploads.wrote at hnext
  split at hnext
  case h_2 => cases hnext
  rename_i json offset ofConsumer hsave
  rw [Option.ite_none_right_eq_some] at hnext
  obtain ⟨⟨hpos, hle⟩, hw⟩ := hnext
  obtain rfl := Option.some.inj hw
  have hundone : ¬ (⟨json, some offset, ofConsumer⟩ : Save).Done := by
    simp only [Save.Done, Option.some.injEq]
    omega
  cases h with
  | waiting older save hsaves hoffset hjson =>
    rw [hsaves] at hsave
    rcases getElem?_concat_cases hsave with ⟨hlt, -⟩ | ⟨rfl, rfl⟩
    · refine .waiting (older.set i ⟨json, some (offset + n), ofConsumer⟩) _ ?_ hoffset hjson
      simp only [hsaves, List.set_append_left _ _ hlt]
    · cases hoffset
  | writing older save n' hsaves hoffset hjson hfile hdone =>
    rw [hsaves] at hsave
    rcases getElem?_concat_cases hsave with ⟨-, hmem⟩ | ⟨rfl, rfl⟩
    · exact absurd (hdone _ hmem) hundone
    · obtain rfl : offset = n' := Option.some.inj hoffset
      refine .writing older ⟨json, some (offset + n), ofConsumer⟩ _ ?_ rfl hjson ?_ hdone
      · simp [hsaves]
      · simp only [hfile, Option.getD_some]
        rw [overwrite_take json hle]
  | written hdone hfile => exact absurd (hdone _ (List.mem_of_getElem? hsave)) hundone

/-- When the newest save ends, the file holds its text. -/
theorem Newest.written_step {w : Uploads} {i : Nat} {save : Save} (h : w.Newest render)
    (hsave : w.saves[i]? = some save) (hend : save.Done) : (w.endSave i save).Newest render := by
  cases h with
  | waiting older last hsaves hoffset hjson =>
    rw [hsaves] at hsave
    rcases getElem?_concat_cases hsave with ⟨hlt, -⟩ | ⟨rfl, rfl⟩
    · refine .waiting (older.eraseIdx i) _ ?_ hoffset hjson
      simp only [endSave, hsaves, List.eraseIdx_append_of_lt_length hlt]
    · rw [Save.Done, hoffset] at hend
      cases hend
  | writing older last n hsaves hoffset hjson hfile hdone =>
    rw [hsaves] at hsave
    rcases getElem?_concat_cases hsave with ⟨hlt, -⟩ | ⟨rfl, rfl⟩
    · refine .writing (older.eraseIdx i) _ _ ?_ hoffset hjson hfile ?_
      · simp only [endSave, hsaves, List.eraseIdx_append_of_lt_length hlt]
      · exact fun s hs => hdone s (List.mem_of_mem_eraseIdx hs)
    · obtain rfl : n = save.json.length := Option.some.inj (hoffset.symm.trans hend)
      rw [List.take_length] at hfile
      refine .written ?_ ?_
      · intro s hs
        simp only [endSave, hsaves, List.eraseIdx_append_of_length_le (le_refl _)] at hs
        simp only [Nat.sub_self, List.eraseIdx_cons_zero, List.append_nil] at hs
        exact hdone s hs
      · simp only [endSave, hfile]
        exact hjson
  | written hdone hfile =>
    exact .written (fun s hs => hdone s (List.mem_of_mem_eraseIdx hs)) hfile

theorem Newest.step {w w' : Uploads} {a : UploadAction} (h : w.Newest render)
    (hok : SavesInOrder w a) (hnext : w.next render a = some w') : w'.Newest render := by
  cases a with
  | scheduleUpload storePaths logRemotePath logLocalPath =>
    obtain rfl := Option.some.inj hnext
    exact newest_startSave _ _
  | uploadOnce =>
    simp only [next, Option.ite_none_right_eq_some] at hnext
    obtain rfl := Option.some.inj hnext.2
    exact h.recv
  | uploadMany limit =>
    simp only [next, Option.ite_none_right_eq_some] at hnext
    obtain rfl := Option.some.inj hnext.2
    exact h.recvMany limit
  | notified =>
    simp only [next] at hnext
    split at hnext
    · obtain rfl := Option.some.inj hnext
      exact h.recv
    · obtain rfl := Option.some.inj hnext
      exact h.recvMany _
    · cases hnext
  | uploaded i =>
    rcases uploaded_cases hnext with ⟨msg, -, rfl⟩ | ⟨messages, left, msg, -, -, rfl⟩ | hretains
    · exact newest_startSave _ _
    · exact h.of_eq rfl rfl rfl
    · rw [show w.retainsNext = false from hok] at hretains
      cases hretains
  | opened i => exact h.opened hok hnext
  | wrote i n => exact h.wrote hnext
  | written i =>
    obtain ⟨save, hsave, hend, rfl⟩ := written_eq hnext
    exact h.written_step hsave hend
  | failed i => cases hok

/-! ## The books -/

theorem Places.one_place {w : Uploads} (h : w.Places) {m : Message} (hm : m ∈ w.pending) :
    (w.uploader.queue ++ w.uploader.currentTasks).count m = 1 := by
  apply List.count_eq_one_of_mem h.nodup
  rcases List.mem_append.mp (h.pending.mem_iff.mpr hm) with hqueue | hprogress
  · exact List.mem_append_left _ hqueue
  · rw [h.currentTasks]
    exact List.mem_append_right _ (h.inProgress_subset hprogress)

end Uploads

end Facts

/-! ## The texts of the samples -/

mutual

/-- `serde_json::to_string` of a value without characters to escape. -/
def Json.compact : Json → List Char
  | .null => "null".toList
  | .bool b => (toString b).toList
  | .number n => (toString n).toList
  | .str s => '"' :: (s.toList ++ ['"'])
  | .arr items => '[' :: (Json.compactItems items ++ [']'])
  | .obj fields => '\x7b' :: (Json.compactFields fields ++ ['\x7d'])

def Json.compactItems : List Json → List Char
  | [] => []
  | [v] => v.compact
  | v :: items => v.compact ++ ',' :: Json.compactItems items

def Json.compactFields : List (String × Json) → List Char
  | [] => []
  | [(key, v)] => '"' :: (key.toList ++ '"' :: ':' :: v.compact)
  | (key, v) :: fields =>
    '"' :: (key.toList ++ '"' :: ':' :: (v.compact ++ ',' :: Json.compactFields fields))

end

end QueueRunner
