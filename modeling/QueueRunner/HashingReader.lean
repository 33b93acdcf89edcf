import QueueRunner.BinaryCache

/-!
# The hashing reader

`HashingReader` of `crates/binary-cache/src/streaming_hash.rs` hashes the
bytes that go through it.  It takes a poll that is ready and adds no bytes for
the end of the stream.  Then it finalizes the hash, and what comes later is
passed on without being hashed.

A poll adds no bytes at the end of the stream, and also when the buffer has no
room.  `hashesExactly_iff` says for which polls the hash is the one of the
stream.  `Reader` of `Upload.lean` is this reader over a stream that is read
with room in the buffer (`Reader.Tracks.pollRead`).

The inner reader is any machine that fills buffers, and the hash is any hash
that takes its input in pieces.
-/

namespace QueueRunner

/-- A hash that takes its input in pieces. -/
structure StreamingHash (H D : Type) where
  new : H
  update : H → Bytes → H
  finalize : H → D
  update_nil : ∀ h, update h [] = h
  update_append : ∀ h a b, update (update h a) b = update h (a ++ b)

/-- The hash of a whole stream. -/
def StreamingHash.digest {H D : Type} (sha : StreamingHash H D) (data : Bytes) : D :=
  sha.finalize (sha.update sha.new data)

/-! ## Readers -/

/-- `tokio::io::ReadBuf`. -/
structure ReadBuf where
  filled : Bytes
  capacity : Nat
  fits : filled.length ≤ capacity

/-- `ReadBuf::remaining`. -/
def ReadBuf.remaining (buf : ReadBuf) : Nat := buf.capacity - buf.filled.length

/-- `Poll<io::Result<()>>` with the bytes that were added to the buffer. -/
inductive PollResult where
  | pending
  | error
  | ready (newData : Bytes)
deriving DecidableEq

/-- The bytes that a poll hands out. -/
def PollResult.data : PollResult → Bytes
  | .ready newData => newData
  | _ => []

/-- `AsyncRead`: a poll adds at most as many bytes as there is room for, and
none when it is pending or fails. -/
structure AsyncRead (σ : Type) where
  pollRead : σ → ReadBuf → PollResult × σ
  fits : ∀ s buf, (pollRead s buf).1.data.length ≤ buf.remaining

/-- What one poll after the other returns, each with its buffer. -/
def AsyncRead.trace {σ : Type} (inner : AsyncRead σ) :
    σ → List ReadBuf → List (ReadBuf × PollResult)
  | _, [] => []
  | s, buf :: bufs =>
    (buf, (inner.pollRead s buf).1) :: inner.trace (inner.pollRead s buf).2 bufs

/-- The bytes that were handed out, one poll after the other. -/
def handedOut (trace : List (ReadBuf × PollResult)) : Bytes := trace.flatMap (fun e => e.2.data)

@[simp] theorem handedOut_nil : handedOut [] = [] := rfl

@[simp] theorem handedOut_cons (e : ReadBuf × PollResult) (trace : List (ReadBuf × PollResult)) :
    handedOut (e :: trace) = e.2.data ++ handedOut trace := rfl

/-- The poll adds nothing. -/
def IsEmptyPoll (e : ReadBuf × PollResult) : Prop := e.2 = .ready []

instance (e : ReadBuf × PollResult) : Decidable (IsEmptyPoll e) :=
  inferInstanceAs (Decidable (e.2 = .ready []))

/-- The inner reader reports the end of the file: it adds nothing where there
is room. -/
def ReportsEof (e : ReadBuf × PollResult) : Prop := IsEmptyPoll e ∧ 0 < e.1.remaining

/-! ## The hashing reader -/

/-- `HashingReader`.  The result is a cell that is written once. -/
structure HashingReader (σ H D : Type) where
  inner : σ
  hasher : Option H
  size : Nat
  hashResult : Option (D × Nat)

/-- `streaming_hash::Error`. -/
inductive HashError where
  | notCompleted

namespace HashingReader

variable {σ H D : Type} (sha : StreamingHash H D) (inner : AsyncRead σ)

/-- `HashingReader::new`. -/
def new (s : σ) : HashingReader σ H D where
  inner := s
  hasher := some sha.new
  size := 0
  hashResult := none

/-- `HashingReader::finalize`. -/
def finalize (h : HashingReader σ H D) : Except HashError (D × Nat) :=
  match h.hashResult with
  | some result => .ok result
  | none => .error .notCompleted

/-- New data goes to the hasher, while there is one, and to the size. -/
def hashData (h : HashingReader σ H D) (newData : Bytes) : HashingReader σ H D :=
  if newData ≠ [] then
    { h with
      hasher := h.hasher.map (fun hasher => sha.update hasher newData)
      size := (h.size + newData.length) % 2 ^ 64 }
  else h

/-- A poll without new data takes the hasher and sets the result. -/
def finish (h : HashingReader σ H D) (newData : Bytes) : HashingReader σ H D :=
  if newData = [] then
    match h.hasher with
    | some hasher =>
      { h with
        hasher := none
        hashResult := h.hashResult.or (some (sha.finalize hasher, h.size)) }
    | none => h
  else h

/-- `poll_read`. -/
def pollRead (h : HashingReader σ H D) (buf : ReadBuf) : PollResult × HashingReader σ H D :=
  match inner.pollRead h.inner buf with
  | (.ready newData, s) =>
    (.ready newData, finish sha (hashData sha { h with inner := s } newData) newData)
  | (.error, s) => (.error, { h with inner := s })
  | (.pending, s) => (.pending, { h with inner := s })

/-- The reader is itself a reader. -/
def asyncRead : AsyncRead (HashingReader σ H D) where
  pollRead h buf := pollRead sha inner h buf
  fits h buf := by
    have hfits := inner.fits h.inner buf
    unfold pollRead
    split <;> next heq => simpa [heq] using hfits

/-- The reader after the polls. -/
def run (h : HashingReader σ H D) : List ReadBuf → HashingReader σ H D
  | [] => h
  | buf :: bufs => run (pollRead sha inner h buf).2 bufs

end HashingReader

/-- The reader hashes the stream: it hands out what the inner reader does, it
can be finalized exactly when the inner reader has reported the end, and then
it has the hash and the length of what it has handed out. -/
structure HashesExactly {σ H D : Type} (sha : StreamingHash H D) (inner : AsyncRead σ) (s : σ)
    (bufs : List ReadBuf) : Prop where
  unchanged : (HashingReader.asyncRead sha inner).trace (.new sha s) bufs = inner.trace s bufs
  ended : (∃ result, ((HashingReader.new sha s).run sha inner bufs).finalize = .ok result) ↔
    ∃ e ∈ inner.trace s bufs, ReportsEof e
  result : ∀ result, ((HashingReader.new sha s).run sha inner bufs).finalize = .ok result →
    result = (sha.digest (handedOut (inner.trace s bufs)),
      (handedOut (inner.trace s bufs)).length)

/-- The first poll that adds nothing is behind all the bytes, and one such
poll had room; or there is none. -/
def WholeStream (trace : List (ReadBuf × PollResult)) : Prop :=
  (∀ e ∈ trace, ¬ IsEmptyPoll e) ∨
    (∃ e ∈ trace, ReportsEof e) ∧
      handedOut (trace.dropWhile (fun e => ¬ IsEmptyPoll e)) = [] ∧
        (handedOut trace).length < 2 ^ 64

namespace HashingReader

variable {σ H D : Type} {sha : StreamingHash H D} {inner : AsyncRead σ}

@[simp] theorem new_inner (s : σ) : (new sha s).inner = s := rfl

@[simp] theorem run_nil (h : HashingReader σ H D) : h.run sha inner [] = h := rfl

@[simp] theorem run_cons (h : HashingReader σ H D) (buf : ReadBuf) (bufs : List ReadBuf) :
    h.run sha inner (buf :: bufs) = (pollRead sha inner h buf).2.run sha inner bufs := rfl

/-! ## One poll -/

theorem pollRead_fst (h : HashingReader σ H D) (buf : ReadBuf) :
    (pollRead sha inner h buf).1 = (inner.pollRead h.inner buf).1 := by
  unfold pollRead
  split <;> next heq => rw [heq]

theorem hashData_inner (h : HashingReader σ H D) (newData : Bytes) :
    (hashData sha h newData).inner = h.inner := by
  unfold hashData
  split_ifs <;> rfl

theorem finish_inner (h : HashingReader σ H D) (newData : Bytes) :
    (finish sha h newData).inner = h.inner := by
  unfold finish
  split_ifs
  · split <;> rfl
  · rfl

theorem pollRead_inner (h : HashingReader σ H D) (buf : ReadBuf) :
    (pollRead sha inner h buf).2.inner = (inner.pollRead h.inner buf).2 := by
  unfold pollRead
  split <;> next heq => simp [heq, finish_inner, hashData_inner]

/-- Only bytes have come so far. -/
structure Hashing (sha : StreamingHash H D) (h : HashingReader σ H D) (data : Bytes) : Prop where
  hasher : h.hasher = some (sha.update sha.new data)
  size : h.size = data.length % 2 ^ 64
  hashResult : h.hashResult = none

/-- A poll without new data has come behind these bytes. -/
structure Hashed (sha : StreamingHash H D) (h : HashingReader σ H D) (data : Bytes) : Prop where
  hasher : h.hasher = none
  hashResult : h.hashResult = some (sha.digest data, data.length % 2 ^ 64)

theorem Hashing.new (s : σ) : Hashing sha (.new sha s) [] :=
  ⟨congrArg some (sha.update_nil _).symm, rfl, rfl⟩

/-- A poll that is not empty adds its bytes. -/
theorem Hashing.pollRead {h : HashingReader σ H D} {data : Bytes} (hh : Hashing sha h data)
    {buf : ReadBuf} (hpoll : ¬ IsEmptyPoll (buf, (inner.pollRead h.inner buf).1)) :
    Hashing sha (HashingReader.pollRead sha inner h buf).2
      (data ++ (inner.pollRead h.inner buf).1.data) := by
  unfold HashingReader.pollRead
  cases hres : inner.pollRead h.inner buf with
  | mk res s =>
    rw [hres] at hpoll
    cases res with
    | pending => exact ⟨by simpa [PollResult.data] using hh.hasher,
        by simpa [PollResult.data] using hh.size, hh.hashResult⟩
    | error => exact ⟨by simpa [PollResult.data] using hh.hasher,
        by simpa [PollResult.data] using hh.size, hh.hashResult⟩
    | ready newData =>
      have hne : newData ≠ [] := fun hnil => hpoll (congrArg PollResult.ready hnil)
      simp only [finish, hashData, if_pos hne, if_neg hne, PollResult.data]
      refine ⟨?_, ?_, hh.hashResult⟩
      · simp only [hh.hasher, Option.map_some, sha.update_append]
      · simp only [hh.size, List.length_append, Nat.mod_add_mod]

/-- The first empty poll ends the hash. -/
theorem Hashing.pollRead_empty {h : HashingReader σ H D} {data : Bytes} (hh : Hashing sha h data)
    {buf : ReadBuf} (hpoll : IsEmptyPoll (buf, (inner.pollRead h.inner buf).1)) :
    Hashed sha (HashingReader.pollRead sha inner h buf).2 data := by
  unfold HashingReader.pollRead
  cases hres : inner.pollRead h.inner buf with
  | mk res s =>
    rw [hres] at hpoll
    obtain rfl : res = .ready [] := hpoll
    simp only [finish, hashData, ne_eq, not_true_eq_false, if_false, if_true, hh.hasher]
    exact ⟨rfl, by rw [hh.hashResult, hh.size]; rfl⟩

/-- The result stays. -/
theorem Hashed.pollRead {h : HashingReader σ H D} {data : Bytes} (hh : Hashed sha h data)
    (buf : ReadBuf) : Hashed sha (HashingReader.pollRead sha inner h buf).2 data := by
  unfold HashingReader.pollRead
  cases hres : inner.pollRead h.inner buf with
  | mk res s =>
    cases res with
    | pending => exact ⟨hh.hasher, hh.hashResult⟩
    | error => exact ⟨hh.hasher, hh.hashResult⟩
    | ready newData =>
      simp only [finish, hashData]
      split_ifs <;> exact ⟨by simp [hh.hasher], by simp [hh.hasher, hh.hashResult]⟩

/-! ## Any polls -/

theorem trace_asyncRead (h : HashingReader σ H D) (bufs : List ReadBuf) :
    (asyncRead sha inner).trace h bufs = inner.trace h.inner bufs := by
  induction bufs generalizing h with
  | nil => rfl
  | cons buf bufs ih =>
    have hpoll : (asyncRead sha inner).pollRead h buf =
        HashingReader.pollRead sha inner h buf := rfl
    rw [AsyncRead.trace, AsyncRead.trace, hpoll, pollRead_fst, ih, pollRead_inner]

theorem Hashed.run {h : HashingReader σ H D} {data : Bytes} (hh : Hashed sha h data)
    (bufs : List ReadBuf) : Hashed sha (h.run sha inner bufs) data := by
  induction bufs generalizing h with
  | nil => exact hh
  | cons buf bufs ih => exact ih (hh.pollRead buf)

/-- Without an empty poll everything is hashed and the result is open. -/
theorem Hashing.run {h : HashingReader σ H D} {data : Bytes} (hh : Hashing sha h data)
    {bufs : List ReadBuf} (hfull : ∀ e ∈ inner.trace h.inner bufs, ¬ IsEmptyPoll e) :
    Hashing sha (h.run sha inner bufs) (data ++ handedOut (inner.trace h.inner bufs)) := by
  induction bufs generalizing h data with
  | nil => simpa [AsyncRead.trace] using hh
  | cons buf bufs ih =>
    rw [AsyncRead.trace] at hfull ⊢
    have hstep := hh.pollRead (hfull _ List.mem_cons_self)
    rw [← @pollRead_inner _ _ _ sha] at hfull ⊢
    have hrun := ih hstep (fun e he => hfull e (List.mem_cons_of_mem _ he))
    rw [run_cons, handedOut_cons, ← List.append_assoc]
    exact hrun

/-- With an empty poll the result is the one of the bytes before it. -/
theorem Hashing.run_empty {h : HashingReader σ H D} {data : Bytes} (hh : Hashing sha h data)
    {bufs : List ReadBuf} (hempty : ∃ e ∈ inner.trace h.inner bufs, IsEmptyPoll e) :
    Hashed sha (h.run sha inner bufs)
      (data ++ handedOut ((inner.trace h.inner bufs).takeWhile (fun e => ¬ IsEmptyPoll e))) := by
  induction bufs generalizing h data with
  | nil =>
    obtain ⟨e, he, -⟩ := hempty
    cases he
  | cons buf bufs ih =>
    rw [AsyncRead.trace] at hempty ⊢
    by_cases hpoll : IsEmptyPoll (buf, (inner.pollRead h.inner buf).1)
    · rw [List.takeWhile_cons_of_neg (by simpa using hpoll)]
      rw [run_cons, handedOut_nil, List.append_nil]
      exact (hh.pollRead_empty hpoll).run bufs
    · rw [List.takeWhile_cons_of_pos (by simpa using hpoll)]
      have hstep := hh.pollRead hpoll
      rw [← @pollRead_inner _ _ _ sha] at hempty ⊢
      have hrest : ∃ e ∈ inner.trace (HashingReader.pollRead sha inner h buf).2.inner bufs,
          IsEmptyPoll e := by
        obtain ⟨e, he, heq⟩ := hempty
        rcases List.mem_cons.mp he with rfl | he
        · exact absurd heq hpoll
        · exact ⟨e, he, heq⟩
      rw [run_cons, handedOut_cons, ← List.append_assoc]
      exact ih hstep hrest

/-- A reader that is hashing cannot be finalized. -/
theorem Hashing.finalize_ne_ok {h : HashingReader σ H D} {data : Bytes} (hh : Hashing sha h data)
    (result : D × Nat) : h.finalize ≠ .ok result := by
  intro heq
  rw [finalize, hh.hashResult] at heq
  cases heq

theorem Hashed.finalize_eq {h : HashingReader σ H D} {data : Bytes} (hh : Hashed sha h data) :
    h.finalize = .ok (sha.digest data, data.length % 2 ^ 64) := by
  rw [finalize, hh.hashResult]

end HashingReader

section

variable {σ H D : Type} (sha : StreamingHash H D) (inner : AsyncRead σ) (s : σ)
  (bufs : List ReadBuf)

theorem handedOut_split (trace : List (ReadBuf × PollResult)) :
    handedOut trace = handedOut (trace.takeWhile (fun e => ¬ IsEmptyPoll e)) ++
      handedOut (trace.dropWhile (fun e => ¬ IsEmptyPoll e)) := by
  conv =>
    lhs
    rw [← @List.takeWhile_append_dropWhile _ (fun e => ¬ IsEmptyPoll e) trace]
  exact List.flatMap_append

/-- The reader over polls as they should be. -/
theorem WholeStream.hashesExactly (h : WholeStream (inner.trace s bufs)) :
    HashesExactly sha inner s bufs := by
  have hnew := @HashingReader.Hashing.new _ _ _ sha s
  by_cases hfull : ∀ e ∈ inner.trace s bufs, ¬ IsEmptyPoll e
  · have hrun := hnew.run hfull
    refine ⟨HashingReader.trace_asyncRead _ bufs, ⟨?_, ?_⟩, ?_⟩
    · rintro ⟨result, hresult⟩
      exact absurd hresult (hrun.finalize_ne_ok result)
    · rintro ⟨e, he, hempty, -⟩
      exact absurd hempty (hfull e he)
    · intro result hresult
      exact absurd hresult (hrun.finalize_ne_ok result)
  · obtain hfull' | ⟨heof, hrest, hlength⟩ := h
    · exact absurd hfull' hfull
    have hempty : ∃ e ∈ inner.trace s bufs, IsEmptyPoll e := by
      obtain ⟨e, he, hreport⟩ := heof
      exact ⟨e, he, hreport.1⟩
    have hrun := (hnew.run_empty hempty).finalize_eq
    have hall := handedOut_split (inner.trace s bufs)
    rw [hrest, List.append_nil] at hall
    rw [List.nil_append, HashingReader.new_inner, ← hall, Nat.mod_eq_of_lt hlength] at hrun
    refine ⟨HashingReader.trace_asyncRead _ bufs, ⟨fun _ => heof, fun _ => ⟨_, hrun⟩⟩, ?_⟩
    intro result hresult
    exact Except.ok.inj (hresult.symm.trans hrun)

theorem HashesExactly.wholeStream (h : HashesExactly sha inner s bufs) :
    WholeStream (inner.trace s bufs) := by
  by_cases hfull : ∀ e ∈ inner.trace s bufs, ¬ IsEmptyPoll e
  · exact .inl hfull
  simp only [not_forall, not_not] at hfull
  obtain ⟨e, he, hpoll⟩ := hfull
  have hrun := ((@HashingReader.Hashing.new _ _ _ sha s).run_empty ⟨e, he, hpoll⟩).finalize_eq
  have hlength := congrArg Prod.snd (h.result _ hrun)
  have hall := congrArg List.length (handedOut_split (inner.trace s bufs))
  have hmod := Nat.mod_lt
    (handedOut ((inner.trace s bufs).takeWhile (fun e => ¬ IsEmptyPoll e))).length
    (show 0 < 2 ^ 64 by decide)
  have hle := Nat.mod_le
    (handedOut ((inner.trace s bufs).takeWhile (fun e => ¬ IsEmptyPoll e))).length (2 ^ 64)
  simp only [List.nil_append, HashingReader.new_inner] at hlength
  rw [List.length_append] at hall
  refine .inr ⟨h.ended.mp ⟨_, hrun⟩, List.eq_nil_iff_length_eq_zero.mpr ?_, ?_⟩
  · omega
  · omega

theorem map_fst_trace : (inner.trace s bufs).map Prod.fst = bufs := by
  induction bufs generalizing s with
  | nil => rfl
  | cons buf bufs ih => rw [AsyncRead.trace, List.map_cons, ih]

/-- A stream of which nothing comes behind an empty poll is hashed exactly
when every buffer has room. -/
theorem hashesExactly_of_room (hroom : ∀ buf ∈ bufs, 0 < buf.remaining)
    (hend : handedOut ((inner.trace s bufs).dropWhile (fun e => ¬ IsEmptyPoll e)) = [])
    (hlength : (handedOut (inner.trace s bufs)).length < 2 ^ 64) :
    HashesExactly sha inner s bufs := by
  apply WholeStream.hashesExactly
  by_cases hfull : ∀ e ∈ inner.trace s bufs, ¬ IsEmptyPoll e
  · exact .inl hfull
  simp only [not_forall, not_not] at hfull
  obtain ⟨e, he, hpoll⟩ := hfull
  have hbuf : e.1 ∈ bufs := by
    rw [← map_fst_trace inner s bufs]
    exact List.mem_map_of_mem he
  exact .inr ⟨⟨e, he, hpoll, hroom e.1 hbuf⟩, hend, hlength⟩

end

/-- The hash is the one of the stream exactly when no poll is empty, or the
inner reader reports its end and all bytes come before the first empty poll. -/
theorem hashesExactly_iff {σ H D : Type} (sha : StreamingHash H D) (inner : AsyncRead σ) (s : σ)
    (bufs : List ReadBuf) :
    HashesExactly sha inner s bufs ↔ WholeStream (inner.trace s bufs) :=
  ⟨HashesExactly.wholeStream sha inner s bufs, WholeStream.hashesExactly sha inner s bufs⟩

/-! ## The reader of the uploads -/

/-- A stream that gives at most `sizes n` bytes at the read `n`, and at least
one where it can. -/
def streamReader (sizes : Nat → Nat) : AsyncRead (Bytes × Nat) where
  pollRead s buf :=
    let n := min buf.remaining (max 1 (sizes s.2))
    (.ready (s.1.take n), (s.1.drop n, s.2 + 1))
  fits s buf := by
    simp only [PollResult.data, List.length_take]
    omega

/-- A poll of a full buffer ends the hash of a stream that has a byte. -/
theorem hashesExactly_fails :
    ¬ ∀ (sha : StreamingHash Bytes Bytes) (inner : AsyncRead (Bytes × Nat)) (s : Bytes × Nat)
      (bufs : List ReadBuf), HashesExactly sha inner s bufs := by
  intro h
  have hexact := h ⟨[], (· ++ ·), id, List.append_nil, fun h a b => List.append_assoc h a b⟩
    (streamReader (fun _ => 1)) ([1], 0) [⟨[], 0, Nat.le_refl 0⟩]
  obtain ⟨e, he, -, hroom⟩ := hexact.ended.mp ⟨_, rfl⟩
  obtain rfl := List.mem_singleton.mp he
  exact absurd hroom (by decide)

namespace Reader

variable {H D : Type}

/-- The reader of `Upload.lean` has the state of the hashing reader over its
stream: it keeps the bytes in the place of their hash. -/
structure Tracks (sha : StreamingHash H D) (r : Reader) (h : HashingReader (Bytes × Nat) H D) :
    Prop where
  inner : h.inner = (r.rest, r.reads)
  hashing : r.done = false → HashingReader.Hashing sha h r.hashed
  hashed : r.done = true → r.rest = [] ∧ HashingReader.Hashed sha h r.hashed

theorem tracks_new (sha : StreamingHash H D) (data : Bytes) :
    Tracks sha { rest := data } (.new sha (data, 0)) :=
  ⟨rfl, fun _ => .new (data, 0), fun h => by cases h⟩

/-- A poll of a buffer with room does the same to both. -/
theorem Tracks.pollRead {sha : StreamingHash H D} {r : Reader}
    {h : HashingReader (Bytes × Nat) H D} (ht : Tracks sha r h) (sizes : Nat → Nat)
    {buf : ReadBuf} (hroom : 0 < buf.remaining) :
    (HashingReader.pollRead sha (streamReader sizes) h buf).1 =
        .ready (r.pollRead sizes buf.remaining).1 ∧
      Tracks sha (r.pollRead sizes buf.remaining).2
        (HashingReader.pollRead sha (streamReader sizes) h buf).2 := by
  have hn : max 1 (min (sizes r.reads) buf.remaining) =
      min buf.remaining (max 1 (sizes r.reads)) := by omega
  have hpoll : (streamReader sizes).pollRead h.inner buf =
      (.ready (r.pollRead sizes buf.remaining).1,
        ((r.pollRead sizes buf.remaining).2.rest, (r.pollRead sizes buf.remaining).2.reads)) := by
    simp only [ht.inner, streamReader, Reader.pollRead, hn]
  have hinner := @HashingReader.pollRead_inner _ _ _ sha (streamReader sizes) h buf
  have hfst := @HashingReader.pollRead_fst _ _ _ sha (streamReader sizes) h buf
  rw [hpoll] at hinner hfst
  refine ⟨hfst, hinner, fun hdone => ?_, fun hdone => ?_⟩
  · -- not done, so bytes have come
    have hparts : r.done = false ∧ (r.pollRead sizes buf.remaining).1 ≠ [] := by
      simpa [Reader.pollRead] using hdone
    have hpollNe : ¬ IsEmptyPoll (buf, ((streamReader sizes).pollRead h.inner buf).1) := by
      rw [hpoll]
      exact fun heq => hparts.2 (PollResult.ready.inj heq)
    have hstep := (ht.hashing hparts.1).pollRead hpollNe
    rw [hpoll] at hstep
    exact hstep
  · by_cases hold : r.done = true
    · obtain ⟨hrest, hh⟩ := ht.hashed hold
      rw [pollRead_nil sizes _ r hrest]
      exact ⟨hrest, hh.pollRead buf⟩
    · rw [Bool.not_eq_true] at hold
      -- the empty poll: the stream has ended
      have hempty : (r.pollRead sizes buf.remaining).1 = [] := by
        simpa [Reader.pollRead, hold] using hdone
      have hrest : r.rest = [] := by
        by_contra hne
        obtain ⟨n, hn, -, hlen, hpoll⟩ := pollRead_eq sizes buf.remaining r hroom hne
        rw [hpoll] at hempty
        have := congrArg List.length hempty
        rw [List.length_take, List.length_nil] at this
        omega
      have hpollEmpty : IsEmptyPoll (buf, ((streamReader sizes).pollRead h.inner buf).1) := by
        rw [hpoll]
        exact congrArg PollResult.ready hempty
      have hstep := (ht.hashing hold).pollRead_empty hpollEmpty
      rw [pollRead_nil sizes _ r hrest]
      exact ⟨hrest, hstep⟩

/-- The two are finalized together. -/
theorem Tracks.finalize {sha : StreamingHash H D} {r : Reader}
    {h : HashingReader (Bytes × Nat) H D} (ht : Tracks sha r h) :
    h.finalize.toOption =
      r.finalize.toOption.map (fun data => (sha.digest data, data.length % 2 ^ 64)) := by
  unfold Reader.finalize
  cases hdone : r.done with
  | true => rw [(ht.hashed hdone).2.finalize_eq]; rfl
  | false =>
    rw [HashingReader.finalize, (ht.hashing hdone).hashResult]
    rfl

end Reader

end QueueRunner
