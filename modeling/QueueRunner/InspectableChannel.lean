import QueueRunner.UploaderRuns

/-!
# The inspectable channel

`InspectableChannel` of `queue-runner/src/state/inspectable_channel.rs` is a
queue behind a lock and a `Notify`.  The senders put messages into the queue
and call `notify_one` before they give the lock back.  The receiver looks
into the queue under the lock, gives the lock back and waits in `notified()`
when there was nothing.

Here every sender and the receiver take one step at a time, and the lock,
the queue and the `Notify` are touched in separate steps.  So a message can
come between the look into the queue and the wait, and several messages can
leave a single permit behind.  `Inv.wake` says why this loses no wake-up:
when the receiver is on its way into the wait and the queue has a message,
there is a permit, or the sender of a message has not notified yet.

`enqueued` records the messages in the order in which they came into the
queue, and `returned` what the calls of the receiver have returned.
-/

namespace QueueRunner

namespace InspectableChannel

/-! ## `tokio::sync::Notify` -/

/-- A `Notify` with at most one waiter. -/
inductive Notify where
  | empty
  /-- A waiter is registered. -/
  | waiting
  /-- A permit is stored. -/
  | notified
deriving DecidableEq, Repr

namespace Notify

/-- `notify_one`, and whether it wakes the waiter.  A second permit is not
stored. -/
def notifyOne : Notify → Notify × Bool
  | .waiting => (.empty, true)
  | .empty | .notified => (.notified, false)

/-- The first poll of `notified()`, and whether it is ready. -/
def poll : Notify → Notify × Bool
  | .notified => (.empty, true)
  | .empty | .waiting => (.waiting, false)

end Notify

/-! ## The calls -/

variable {α : Type}

/-- A call of a sender. -/
inductive Send (α : Type) where
  | send (msg : α)
  | loadVecInto (data : List α)
deriving DecidableEq, Repr

/-- What the call puts into the queue. -/
def Send.data : Send α → List α
  | .send msg => [msg]
  | .loadVecInto data => data

/-- A call of the receiver. -/
inductive Receive where
  | recv
  | recvMany (count : Nat)
deriving DecidableEq, Repr

/-- What a call of the receiver returns. -/
inductive Received (α : Type) where
  | one (msg : Option α)
  | many (messages : List α)
deriving DecidableEq, Repr

def Received.messages : Received α → List α
  | .one msg => msg.toList
  | .many messages => messages

/-- The loop `for _ in 0..available` of `recv_many`. -/
def popMany : Nat → List α → List α → List α × List α
  | 0, messages, queue => (messages, queue)
  | n + 1, messages, [] => popMany n messages []
  | n + 1, messages, msg :: queue => popMany n (messages ++ [msg]) queue

/-- What the receiver does under the lock: its messages and the queue
afterwards. -/
def Receive.take (messages queue : List α) : Receive → List α × List α
  | .recv =>
    match queue with
    | [] => (messages, [])
    | msg :: queue => (messages ++ [msg], queue)
  | .recvMany count => popMany (min (count - messages.length) queue.length) messages queue

/-- The value that is returned with these messages. -/
def Receive.result (messages : List α) : Receive → Received α
  | .recv => .one messages.head?
  | .recvMany _ => .many messages

/-- Where a sender is. -/
inductive SenderPc (α : Type) where
  | idle
  /-- Waits for the lock. -/
  | lock (op : Send α)
  /-- Has the lock. -/
  | update (op : Send α)
  /-- Has changed the queue, and has the lock. -/
  | notify
  /-- Has notified, and has the lock. -/
  | unlock
deriving DecidableEq, Repr

/-- Where the receiver is; `messages` is the vector of `recv_many`. -/
inductive ReceiverPc (α : Type) where
  | idle
  /-- At the head of the loop. -/
  | lock (call : Receive) (messages : List α)
  /-- Has the lock. -/
  | take (call : Receive) (messages : List α)
  /-- Has looked into the queue, and has the lock. -/
  | unlock (call : Receive) (messages : List α)
  /-- Before the first poll of `notified()`. -/
  | await (call : Receive) (messages : List α)
  /-- In `notified()`. -/
  | parked (call : Receive) (messages : List α)
  /-- Woken, and not polled yet. -/
  | woken (call : Receive) (messages : List α)
deriving DecidableEq, Repr

/-- Who has the write lock. -/
inductive Holder where
  | sender (i : Nat)
  | receiver
deriving DecidableEq, Repr

/-- The channel with its senders and its receiver. -/
structure Channel (α : Type) where
  queue : List α := []
  notify : Notify := .empty
  lock : Option Holder := none
  sender : Nat → SenderPc α := fun _ => .idle
  receiver : ReceiverPc α := .idle
  enqueued : List α := []
  returned : List (Receive × Received α) := []

inductive Action (α : Type) where
  /-- Sender `i` calls `send` or `load_vec_into`. -/
  | call (i : Nat) (op : Send α)
  /-- The next step of sender `i`. -/
  | sender (i : Nat)
  /-- The receiver calls `recv` or `recv_many`. -/
  | receive (call : Receive)
  /-- The next step of the receiver. -/
  | receiver
deriving DecidableEq, Repr

namespace Channel

def setSender (s : Channel α) (i : Nat) (pc : SenderPc α) : Channel α :=
  { s with sender := Function.update s.sender i pc }

/-- `notify_one`. -/
def notifyOne (s : Channel α) : Channel α :=
  match s.notify.notifyOne with
  | (notify, false) => { s with notify := notify }
  | (notify, true) =>
    match s.receiver with
    | .parked call messages => { s with notify := notify, receiver := .woken call messages }
    | _ => { s with notify := notify }

/-- The next step of a sender: `load_vec_into` and `send`. -/
def senderNext (s : Channel α) (i : Nat) : Option (Channel α) :=
  match s.sender i with
  | .idle => none
  | .lock op =>
    if s.lock = none then some ({ s with lock := some (.sender i) }.setSender i (.update op))
    else none
  | .update op =>
    some ({ s with
      queue := s.queue ++ op.data
      enqueued := s.enqueued ++ op.data }.setSender i .notify)
  | .notify => some (s.notifyOne.setSender i .unlock)
  | .unlock => some ({ s with lock := none }.setSender i .idle)

/-- The next step of the receiver: `recv` and `recv_many`. -/
def receiverNext (s : Channel α) : Option (Channel α) :=
  match s.receiver with
  | .idle => none
  | .lock call messages =>
    if s.lock = none then
      some { s with lock := some .receiver, receiver := .take call messages }
    else none
  | .take call messages =>
    let (messages, queue) := call.take messages s.queue
    some { s with queue := queue, receiver := .unlock call messages }
  | .unlock call [] => some { s with lock := none, receiver := .await call [] }
  | .unlock call messages =>
    some { s with
      lock := none
      receiver := .idle
      returned := s.returned ++ [(call, call.result messages)] }
  | .await call messages =>
    match s.notify.poll with
    | (notify, true) => some { s with notify := notify, receiver := .lock call messages }
    | (notify, false) => some { s with notify := notify, receiver := .parked call messages }
  | .parked _ _ => none
  | .woken call messages => some { s with receiver := .lock call messages }

def next (s : Channel α) : Action α → Option (Channel α)
  | .call i op =>
    match s.sender i with
    | .idle => some (s.setSender i (.lock op))
    | _ => none
  | .sender i => s.senderNext i
  | .receive call =>
    match s.receiver with
    | .idle => some { s with receiver := .lock call [] }
    | _ => none
  | .receiver => s.receiverNext

end Channel

/-! ## What a call takes -/

theorem popMany_eq (n : Nat) (messages queue : List α) :
    popMany n messages queue = (messages ++ queue.take n, queue.drop n) := by
  induction n generalizing messages queue with
  | zero => simp [popMany]
  | succ n ih =>
    cases queue with
    | nil => simp [popMany, ih]
    | cons msg queue => simp [popMany, ih]

/-- A call of `recv_many` asks for a message. -/
def Receive.Asks : Receive → Prop
  | .recv => True
  | .recvMany count => 1 ≤ count

/-- The number of messages that the call may return. -/
def Receive.limit : Receive → Nat
  | .recv => 1
  | .recvMany count => count

theorem Receive.Asks.limit_pos {call : Receive} (h : call.Asks) : 1 ≤ call.limit := by
  cases call with
  | recv => exact Nat.le_refl 1
  | recvMany count => exact h

/-- A call takes what it asks for, as far as the queue goes. -/
theorem Receive.take_nil (call : Receive) (queue : List α) :
    call.take [] queue = (queue.take call.limit, queue.drop call.limit) := by
  cases call with
  | recv =>
    cases queue with
    | nil => rfl
    | cons msg queue => simp [Receive.take, Receive.limit]
  | recvMany count =>
    have hmin : min count queue.length = count ∨ queue.length ≤ count ∧
        min count queue.length = queue.length := by omega
    simp only [Receive.take, Receive.limit, popMany_eq, List.length_nil, Nat.sub_zero,
      List.nil_append]
    rcases hmin with hmin | ⟨hle, hmin⟩
    · rw [hmin]
    · rw [hmin, List.take_length, List.drop_length, List.take_of_length_le hle,
        List.drop_eq_nil_of_le hle]

/-- What a call may return: `recv` a message, and `recv_many` between one
and `count` of them. -/
def Receive.Returns (result : Received α) : Receive → Prop
  | .recv => ∃ msg, result = .one (some msg)
  | .recvMany count => ∃ messages, result = .many messages ∧ 1 ≤ messages.length ∧
      messages.length ≤ count

theorem Receive.returns_result {call : Receive} {messages : List α} (hne : messages ≠ [])
    (hlimit : messages.length ≤ call.limit) : call.Returns (call.result messages) := by
  cases call with
  | recv =>
    cases messages with
    | nil => exact absurd rfl hne
    | cons msg messages => exact ⟨msg, rfl⟩
  | recvMany count => exact ⟨messages, rfl, List.length_pos_iff.mpr hne, hlimit⟩

theorem Receive.messages_result {call : Receive} {messages : List α}
    (hlimit : messages.length ≤ call.limit) : (call.result messages).messages = messages := by
  cases call with
  | recv =>
    cases messages with
    | nil => rfl
    | cons msg messages =>
      have hlength : messages.length = 0 := by
        simp only [List.length_cons, Receive.limit] at hlimit
        omega
      rw [List.length_eq_zero_iff.mp hlength]
      rfl
  | recvMany count => rfl

/-! ## The invariant -/

/-- The sender has the lock. -/
def SenderPc.HasLock : SenderPc α → Prop
  | .update _ | .notify | .unlock => True
  | .idle | .lock _ => False

namespace ReceiverPc

def HasLock : ReceiverPc α → Prop
  | .take _ _ | .unlock _ _ => True
  | _ => False

def Parked : ReceiverPc α → Prop
  | .parked _ _ => True
  | _ => False

/-- On the way into the wait, or in it. -/
def Waits : ReceiverPc α → Prop
  | .await _ _ | .parked _ _ => True
  | _ => False

/-- The messages that the call has taken and not returned yet. -/
def inHand : ReceiverPc α → List α
  | .idle => []
  | .lock _ messages | .take _ messages | .unlock _ messages | .await _ messages
  | .parked _ messages | .woken _ messages => messages

/-- A call has a limit, and has messages only before it returns. -/
def CallOk (queue : List α) : ReceiverPc α → Prop
  | .idle => True
  | .unlock call messages => call.Asks ∧ messages.length ≤ call.limit ∧
      (messages = [] → queue = [])
  | .lock call messages | .take call messages | .await call messages | .parked call messages
  | .woken call messages => call.Asks ∧ messages = []

end ReceiverPc

namespace Channel

/-- The messages that were returned, in their order. -/
def delivered (s : Channel α) : List α := s.returned.flatMap (fun r => r.2.messages)

/-- What holds in every state. -/
structure Inv (s : Channel α) : Prop where
  senderLock : ∀ i, (s.sender i).HasLock ↔ s.lock = some (.sender i)
  receiverLock : s.receiver.HasLock ↔ s.lock = some .receiver
  waiting : s.notify = .waiting ↔ s.receiver.Parked
  order : s.enqueued = s.delivered ++ s.receiver.inHand ++ s.queue
  callOk : s.receiver.CallOk s.queue
  returns : ∀ r ∈ s.returned, r.1.Returns r.2
  /-- A message in the queue is known to a receiver that is about to wait. -/
  wake : s.receiver.Waits → s.queue ≠ [] → s.notify = .notified ∨ ∃ i, s.sender i = .notify

namespace Inv

variable {s s' : Channel α}

theorem init : Inv ({} : Channel α) where
  senderLock _ := ⟨False.elim, fun h => by cases h⟩
  receiverLock := ⟨False.elim, fun h => by cases h⟩
  waiting := by simp [ReceiverPc.Parked]
  order := rfl
  callOk := trivial
  returns _ h := absurd h List.not_mem_nil
  wake h := h.elim

/-- The lock after a step of sender `i` that keeps what it has of the lock. -/
theorem senderLock_set (h : s.Inv) {i : Nat} {pc : SenderPc α}
    (hpc : pc.HasLock ↔ (s.sender i).HasLock) (j : Nat) :
    (Function.update s.sender i pc j).HasLock ↔ s.lock = some (.sender j) := by
  by_cases hj : j = i
  · subst hj
    rw [Function.update_self, hpc]
    exact h.senderLock j
  · rw [Function.update_of_ne hj]
    exact h.senderLock j

/-- The lock after sender `i` has taken it or given it back, while no other
sender has it. -/
theorem senderLock_alone (h : s.Inv) {i : Nat} {pc : SenderPc α} {lock : Option Holder}
    (hbefore : ∀ j ≠ i, s.lock ≠ some (.sender j)) (hafter : ∀ j ≠ i, lock ≠ some (.sender j))
    (hpc : pc.HasLock ↔ lock = some (.sender i)) (j : Nat) :
    (Function.update s.sender i pc j).HasLock ↔ lock = some (.sender j) := by
  by_cases hj : j = i
  · subst hj
    rwa [Function.update_self]
  · rw [Function.update_of_ne hj, h.senderLock j]
    exact iff_of_false (hbefore j hj) (hafter j hj)

/-- A step of sender `i` that is not its `notify_one` keeps the others that
are about to notify. -/
theorem wake_set (h : s.Inv) {i : Nat} {pc : SenderPc α} (hi : s.sender i ≠ .notify)
    (hwaits : s.receiver.Waits) (hne : s.queue ≠ []) :
    s.notify = .notified ∨ ∃ j, Function.update s.sender i pc j = .notify := by
  rcases h.wake hwaits hne with hnotified | ⟨j, hj⟩
  · exact .inl hnotified
  · have hji : j ≠ i := fun he => hi (he ▸ hj)
    exact .inr ⟨j, by rw [Function.update_of_ne hji, hj]⟩

theorem call (h : s.Inv) {i : Nat} {op : Send α} (hi : s.sender i = .idle) :
    (s.setSender i (.lock op)).Inv :=
  { h with
    senderLock := h.senderLock_set (by simp [hi, SenderPc.HasLock])
    wake := h.wake_set (by simp [hi]) }

theorem senderLocks (h : s.Inv) {i : Nat} {op : Send α} (hi : s.sender i = .lock op)
    (hfree : s.lock = none) :
    ({ s with lock := some (.sender i) }.setSender i (.update op)).Inv :=
  { h with
    senderLock := h.senderLock_alone (by simp [hfree])
      (fun j hj => by simp [setSender, Ne.symm hj]) (by simp [setSender, SenderPc.HasLock])
    receiverLock := by
      have hno := h.receiverLock
      rw [hfree] at hno
      simp [setSender, hno]
    wake := h.wake_set (by simp [hi]) }

/-- A receiver that has seen an empty queue has the lock until the next step,
so no sender changes the queue there. -/
theorem callOk_append (h : s.Inv) (data : List α) (hlock : ¬ s.receiver.HasLock) :
    s.receiver.CallOk (s.queue ++ data) := by
  have hok := h.callOk
  cases hr : s.receiver with
  | unlock call messages =>
    rw [hr] at hlock
    exact absurd trivial hlock
  | idle => trivial
  | lock | take | await | parked | woken =>
    rw [hr] at hok
    exact hok

theorem senderUpdates (h : s.Inv) {i : Nat} {op : Send α} (hi : s.sender i = .update op) :
    ({ s with
      queue := s.queue ++ op.data
      enqueued := s.enqueued ++ op.data }.setSender i .notify).Inv := by
  have hlock : s.lock = some (.sender i) := (h.senderLock i).mp (by rw [hi]; trivial)
  refine { h with
    senderLock := h.senderLock_set (by simp [hi, SenderPc.HasLock])
    order := ?_
    callOk := h.callOk_append _ (fun hr => ?_)
    wake := fun _ _ => .inr ⟨i, Function.update_self _ _ _⟩ }
  · have horder := h.order
    simp only [setSender, delivered] at horder ⊢
    rw [horder, List.append_assoc]
  · rw [h.receiverLock, hlock] at hr
    cases hr

theorem senderNotifies (h : s.Inv) {i : Nat} (hi : s.sender i = .notify) :
    (s.notifyOne.setSender i .unlock).Inv := by
  have hpc : (.unlock : SenderPc α).HasLock ↔ (s.sender i).HasLock := by simp [hi, SenderPc.HasLock]
  have hset := h.senderLock_set hpc
  have hwaiting := h.waiting
  cases hn : s.notify with
  | waiting =>
    cases hr : s.receiver with
    | parked call messages =>
      have hcall := h.callOk
      have horder := h.order
      have hlock := h.receiverLock
      rw [hr] at hcall horder hlock
      simp only [notifyOne, hn, Notify.notifyOne, hr]
      exact
        { senderLock := hset
          receiverLock := hlock
          waiting := by simp [setSender, ReceiverPc.Parked]
          order := horder
          callOk := hcall
          returns := h.returns
          wake := False.elim }
    | idle | lock | take | unlock | await | woken =>
      -- a registered waiter is parked
      rw [hr, hn] at hwaiting
      exact (hwaiting.mp rfl).elim
  | empty | notified =>
    rw [hn] at hwaiting
    simp only [notifyOne, hn, Notify.notifyOne]
    exact { h with
      senderLock := hset
      waiting := by simpa [setSender] using hwaiting
      wake := fun _ _ => .inl rfl }

theorem senderUnlocks (h : s.Inv) {i : Nat} (hi : s.sender i = .unlock) :
    ({ s with lock := none }.setSender i .idle).Inv := by
  have hlock : s.lock = some (.sender i) := (h.senderLock i).mp (by rw [hi]; trivial)
  exact { h with
    senderLock := h.senderLock_alone (fun j hj => by simp [hlock, Ne.symm hj])
      (by simp [setSender]) (by simp [setSender, SenderPc.HasLock])
    receiverLock := by
      have hno := h.receiverLock
      rw [hlock] at hno
      simp [setSender, hno]
    wake := h.wake_set (by simp [hi]) }

/-- The receiver moves without touching the lock or the `Notify`. -/
theorem move (h : s.Inv) {pc : ReceiverPc α} (hlock : pc.HasLock ↔ s.receiver.HasLock)
    (hparked : pc.Parked ↔ s.receiver.Parked) (hhand : pc.inHand = s.receiver.inHand)
    (hcall : pc.CallOk s.queue) (hwaits : ¬ pc.Waits) :
    ({ s with receiver := pc } : Channel α).Inv :=
  { h with
    receiverLock := hlock.trans h.receiverLock
    waiting := h.waiting.trans hparked.symm
    order := by
      rw [hhand]
      exact h.order
    callOk := hcall
    wake := fun hw => absurd hw hwaits }

theorem receive (h : s.Inv) {call : Receive} (hcall : call.Asks) (hr : s.receiver = .idle) :
    ({ s with receiver := .lock call [] } : Channel α).Inv :=
  h.move (by rw [hr]; rfl) (by rw [hr]; rfl) (by rw [hr]; rfl) ⟨hcall, rfl⟩ id

theorem receiverWakes (h : s.Inv) {call : Receive} {messages : List α}
    (hr : s.receiver = .woken call messages) :
    ({ s with receiver := .lock call messages } : Channel α).Inv := by
  have hcall := h.callOk
  rw [hr] at hcall
  exact h.move (by rw [hr]; rfl) (by rw [hr]; rfl) (by rw [hr]; rfl) hcall id

theorem receiverLocks (h : s.Inv) {call : Receive} {messages : List α}
    (hr : s.receiver = .lock call messages) (hfree : s.lock = none) :
    ({ s with lock := some .receiver, receiver := .take call messages } : Channel α).Inv := by
  have hwaiting := h.waiting
  have horder := h.order
  have hcall := h.callOk
  have hsender := h.senderLock
  rw [hr] at hwaiting horder hcall
  exact { h with
    senderLock := fun i => by simpa [hfree] using hsender i
    receiverLock := by simp [ReceiverPc.HasLock]
    waiting := hwaiting
    order := horder
    callOk := hcall
    wake := False.elim }

theorem receiverTakes (h : s.Inv) {call : Receive} {messages : List α}
    (hr : s.receiver = .take call messages) :
    ({ s with
      queue := (call.take messages s.queue).2
      receiver := .unlock call (call.take messages s.queue).1 } : Channel α).Inv := by
  have hlock := h.receiverLock
  have hwaiting := h.waiting
  have horder := h.order
  have hcall := h.callOk
  rw [hr] at hlock hwaiting horder hcall
  obtain ⟨hasks, rfl⟩ := hcall
  rw [call.take_nil]
  have hpos := hasks.limit_pos
  refine { h with
    receiverLock := hlock
    waiting := hwaiting
    order := ?_
    callOk := ⟨hasks, List.length_take_le _ _, fun hnil => ?_⟩
    wake := False.elim }
  · rw [horder]
    simp [ReceiverPc.inHand, delivered]
  · rcases List.take_eq_nil_iff.mp hnil with hzero | hempty
    · omega
    · rw [hempty, List.drop_nil]

theorem receiverAwaits (h : s.Inv) {call : Receive} (hr : s.receiver = .unlock call []) :
    ({ s with lock := none, receiver := .await call [] } : Channel α).Inv := by
  have hlock := h.receiverLock
  have hwaiting := h.waiting
  have horder := h.order
  have hcall := h.callOk
  have hsender := h.senderLock
  rw [hr] at hlock hwaiting horder hcall
  have hheld := hlock.mp trivial
  exact { h with
    senderLock := fun i => by simpa [hheld] using hsender i
    receiverLock := by simp [ReceiverPc.HasLock]
    waiting := hwaiting
    order := horder
    callOk := ⟨hcall.1, rfl⟩
    wake := fun _ hne => absurd (hcall.2.2 rfl) hne }

theorem receiverReturns (h : s.Inv) {call : Receive} {messages : List α}
    (hr : s.receiver = .unlock call messages) (hne : messages ≠ []) :
    ({ s with
      lock := none
      receiver := .idle
      returned := s.returned ++ [(call, call.result messages)] } : Channel α).Inv := by
  have hlock := h.receiverLock
  have hwaiting := h.waiting
  have horder := h.order
  have hcall := h.callOk
  have hsender := h.senderLock
  rw [hr] at hlock hwaiting horder hcall
  obtain ⟨-, hlimit, -⟩ := hcall
  have hheld := hlock.mp trivial
  refine { h with
    senderLock := fun i => by simpa [hheld] using hsender i
    receiverLock := by simp [ReceiverPc.HasLock]
    waiting := hwaiting
    order := ?_
    callOk := trivial
    returns := fun r hmem => ?_
    wake := False.elim }
  · rw [horder]
    simp [delivered, ReceiverPc.inHand, Receive.messages_result hlimit]
  · rcases List.mem_append.mp hmem with hmem | hmem
    · exact h.returns r hmem
    · rw [List.mem_singleton.mp hmem]
      exact Receive.returns_result hne hlimit

theorem receiverPolls (h : s.Inv) {call : Receive} {messages : List α}
    (hr : s.receiver = .await call messages) (hs : s.receiverNext = some s') : s'.Inv := by
  have hlock := h.receiverLock
  have horder := h.order
  have hcall := h.callOk
  have hwake := h.wake
  rw [hr] at hlock horder hcall hwake
  have hparks : s.notify ≠ .notified → ({ s with
      notify := .waiting, receiver := .parked call messages } : Channel α).Inv := fun hn =>
    { h with
      receiverLock := hlock
      waiting := by simp [ReceiverPc.Parked]
      order := horder
      callOk := hcall
      wake := fun _ hne => .inr ((hwake trivial hne).resolve_left hn) }
  cases hn : s.notify with
  | notified =>
    simp only [receiverNext, hr, hn, Notify.poll, Option.some.injEq] at hs
    subst hs
    exact { h with
      receiverLock := hlock
      waiting := by simp [ReceiverPc.Parked]
      order := horder
      callOk := hcall
      wake := False.elim }
  | empty | waiting =>
    simp only [receiverNext, hr, hn, Notify.poll, Option.some.injEq] at hs
    subst hs
    exact hparks (by simp [hn])

theorem senderNext (h : s.Inv) {i : Nat} (hs : s.senderNext i = some s') : s'.Inv := by
  unfold Channel.senderNext at hs
  cases hi : s.sender i with
  | idle => simp [hi] at hs
  | lock op =>
    simp only [hi] at hs
    split_ifs at hs with hfree
    exact Option.some.inj hs ▸ h.senderLocks hi hfree
  | update op =>
    simp only [hi, Option.some.injEq] at hs
    exact hs ▸ h.senderUpdates hi
  | notify =>
    simp only [hi, Option.some.injEq] at hs
    exact hs ▸ h.senderNotifies hi
  | unlock =>
    simp only [hi, Option.some.injEq] at hs
    exact hs ▸ h.senderUnlocks hi

theorem receiverNext (h : s.Inv) (hs : s.receiverNext = some s') : s'.Inv := by
  cases hr : s.receiver with
  | idle => simp [Channel.receiverNext, hr] at hs
  | lock call messages =>
    simp only [Channel.receiverNext, hr] at hs
    split_ifs at hs with hfree
    exact Option.some.inj hs ▸ h.receiverLocks hr hfree
  | take call messages =>
    simp only [Channel.receiverNext, hr, Option.some.injEq] at hs
    exact hs ▸ h.receiverTakes hr
  | unlock call messages =>
    cases messages with
    | nil =>
      simp only [Channel.receiverNext, hr, Option.some.injEq] at hs
      exact hs ▸ h.receiverAwaits hr
    | cons msg messages =>
      simp only [Channel.receiverNext, hr, Option.some.injEq] at hs
      exact hs ▸ h.receiverReturns hr (List.cons_ne_nil _ _)
  | await call messages => exact h.receiverPolls hr hs
  | parked call messages => simp [Channel.receiverNext, hr] at hs
  | woken call messages =>
    simp only [Channel.receiverNext, hr, Option.some.injEq] at hs
    exact hs ▸ h.receiverWakes hr

end Inv

end Channel

/-- The receiver asks for a message in every call. -/
def ReceiverAsks (_ : Channel α) : Action α → Prop
  | .receive call => call.Asks
  | _ => True

instance (call : Receive) : Decidable call.Asks :=
  match call with
  | .recv => .isTrue trivial
  | .recvMany count => inferInstanceAs (Decidable (1 ≤ count))

instance (s : Channel α) (a : Action α) : Decidable (ReceiverAsks s a) :=
  match a with
  | .receive call => inferInstanceAs (Decidable call.Asks)
  | .call _ _ | .sender _ | .receiver => .isTrue trivial

namespace Channel

variable {s s' : Channel α}

theorem Inv.next (h : s.Inv) {a : Action α} (hok : ReceiverAsks s a)
    (hs : s.next a = some s') : s'.Inv := by
  cases a with
  | call i op =>
    cases hi : s.sender i <;> simp only [Channel.next, hi, Option.some.injEq, reduceCtorEq] at hs
    exact hs ▸ h.call hi
  | sender i => exact h.senderNext hs
  | receive call =>
    cases hr : s.receiver <;> simp only [Channel.next, hr, Option.some.injEq, reduceCtorEq] at hs
    exact hs ▸ h.receive hok hr
  | receiver => exact h.receiverNext hs

/-- No `send` and no `load_vec_into` is in progress. -/
def Quiet (s : Channel α) : Prop := ∀ i, s.sender i = .idle

/-- After `n` steps of the receiver alone its call has returned. -/
def ReturnsIn (n : Nat) (s : Channel α) : Prop :=
  ∃ s', Lts.run Channel.next s (List.replicate n .receiver) = some s' ∧ s'.receiver = .idle ∧
    ∃ r, s'.returned = s.returned ++ [r]

theorem ReturnsIn.step {n : Nat} (hs : s.receiverNext = some s')
    (hreturned : s'.returned = s.returned) (h : s'.ReturnsIn n) : s.ReturnsIn (n + 1) := by
  obtain ⟨t, hrun, hidle, r, hr⟩ := h
  refine ⟨t, ?_, hidle, r, hreturned ▸ hr⟩
  rw [List.replicate_succ, Lts.run, Channel.next, hs]
  exact hrun

end Channel

/-- The consumer of the uploader receives what `recv` takes. -/
theorem recv_uploads (w : Uploads) :
    w.recv =
      match Receive.take [] w.uploader.queue .recv with
      | (msg :: _, queue) =>
        { w with
          uploader := ⟨queue, w.uploader.currentTasks ++ [msg]⟩
          consumer := .once msg }
      | ([], _) => { w with consumer := .recv } := by
  unfold Uploads.recv
  cases w.uploader.queue <;> rfl

/-- The consumer of the uploader receives what `recv_many` takes. -/
theorem recvMany_uploads (w : Uploads) (limit : Nat) :
    w.recvMany limit =
      match Receive.take [] w.uploader.queue (.recvMany limit) with
      | ([], _) => { w with consumer := .recvMany limit }
      | (messages, queue) =>
        { w with
          uploader := ⟨queue, w.uploader.currentTasks ++ messages⟩
          consumer := .many messages messages } := by
  rw [Receive.take_nil, Uploads.recvMany, Receive.limit]
  cases w.uploader.queue.take limit <;> rfl

end InspectableChannel

end QueueRunner
