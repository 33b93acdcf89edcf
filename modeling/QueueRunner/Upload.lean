import QueueRunner.Basic
import QueueRunner.Lib.Map

/-!
# Uploads to the binary cache

`upload_file` of `crates/binary-cache/src/lib.rs` and the reader it reads
from.  A file that fills the first buffer is uploaded in parts, and an error
of the parts is logged and dropped: `upload_file` returns `Ok` and the
object is not there.

The reader is the `HashingReader` of `streaming_hash.rs`.  It knows the hash
of the stream only when it has seen its end.  `read_chunk_async` stops
reading when the buffer is full, so the end is seen with a chunk that is
shorter than the buffer, and not before.
-/

namespace QueueRunner

/-- Bytes of a stream or an object. -/
abbrev Bytes := List UInt8

/-- The names of the objects: `nar/HASH.EXT`, `HASH.narinfo`, `HASH.ls`,
`debuginfo/ID` and `realisations/ID.doi`.  They differ in their first or
their last character, so no two kinds share a name. -/
inductive ObjectKey where
  | nar (hash ext : String)
  | narinfo (hash : String)
  | ls (hash : String)
  | debugInfo (id : String)
  | realisation (id : String)
deriving DecidableEq, Repr

/-- The bucket: its objects, and the names under which objects were made. -/
structure Bucket where
  objects : Map ObjectKey Bytes
  made : List ObjectKey := []

/-- An object appears, or replaces the one of its name. -/
def Bucket.put (b : Bucket) (name : ObjectKey) (content : Bytes) : Bucket where
  objects := b.objects.insert name content
  made := name :: b.made

/-- `CacheError`, the kinds that `copy_path` returns. -/
inductive CacheError where
  | objectStore
  | io
  | serde
  | narInfoParse
  | nixStore
  | pathNotFound (path : StorePath)
  | referenceVerify (path ref : StorePath)
  | hashing
deriving DecidableEq, Repr

/-- What S3 answers to the calls of one upload.  The parts are counted from
one on. -/
structure S3Answers where
  put : Bool := true
  putMultipart : Bool := true
  putPart : Nat → Bool := fun _ => true
  complete : Bool := true

/-! ## Reading -/

/-- A `HashingReader`: what its stream still holds, what it has hashed, and
whether it has seen the end of the stream.  `reads` counts the reads. -/
structure Reader where
  rest : Bytes
  hashed : Bytes := []
  done : Bool := false
  reads : Nat := 0

namespace Reader

/-- `poll_read` with room for `room` bytes, of which there is at least one.
The stream gives as many bytes as it likes, and none only at its end. -/
def pollRead (sizes : Nat → Nat) (room : Nat) (r : Reader) : Bytes × Reader :=
  let n := max 1 (min (sizes r.reads) room)
  let data := r.rest.take n
  (data,
    { rest := r.rest.drop n
      hashed := r.hashed ++ data
      done := r.done || data.isEmpty
      reads := r.reads + 1 })

/-- The loop of `read_chunk_async`.  Every turn but the last one reads at
least one byte, so `capacity + 1` turns are enough. -/
def readLoop (sizes : Nat → Nat) (capacity : Nat) : Nat → Bytes → Reader → Bytes × Reader
  | 0, chunk, r => (chunk, r)
  | turns + 1, chunk, r =>
    if chunk.length < capacity then
      match r.pollRead sizes (capacity - chunk.length) with
      | ([], r) => (chunk, r)
      | (data, r) => readLoop sizes capacity turns (chunk ++ data) r
    else (chunk, r)

/-- `read_chunk_async` into an empty buffer. -/
def readChunk (sizes : Nat → Nat) (capacity : Nat) (r : Reader) : Bytes × Reader :=
  readLoop sizes capacity (capacity + 1) [] r

end Reader

/-! ## Writing -/

/-- The loop of `run_multipart_upload`.  It returns the bytes that
`complete` makes an object.  A chunk that is not the last one is not empty,
so as many turns as there are bytes, and one, are enough. -/
def multipartLoop (sizes : Nat → Nat) (ans : S3Answers) (bufferSize : Nat) :
    Nat → Nat → Bytes → Bytes → Reader → Except CacheError Bytes × Reader
  | 0, _, _, _, r => (.error .objectStore, r)
  | turns + 1, partNumber, chunk, uploaded, r =>
    if chunk = [] then
      (if ans.complete then .ok uploaded else .error .objectStore, r)
    else if ans.putPart partNumber then
      let (chunk', r) := r.readChunk sizes bufferSize
      multipartLoop sizes ans bufferSize turns (partNumber + 1) chunk' (uploaded ++ chunk) r
    else (.error .objectStore, r)

/-- `run_multipart_upload`. -/
def runMultipartUpload (sizes : Nat → Nat) (ans : S3Answers) (bufferSize : Nat)
    (firstChunk : Bytes) (r : Reader) : Except CacheError Bytes × Reader :=
  multipartLoop sizes ans bufferSize (firstChunk.length + r.rest.length + 1) 1 firstChunk [] r

/-- `upload_file`.  An error of the multipart upload is dropped, whether the
abort succeeds or not. -/
def uploadFile (sizes : Nat → Nat) (ans : S3Answers) (bufferSize : Nat) (name : ObjectKey)
    (r : Reader) (bucket : Bucket) : Except CacheError Unit × Reader × Bucket :=
  let (firstChunk, r) := r.readChunk sizes bufferSize
  if firstChunk.length < bufferSize then
    if ans.put then (.ok (), r, bucket.put name firstChunk)
    else (.error .objectStore, r, bucket)
  else if ans.putMultipart then
    match runMultipartUpload sizes ans bufferSize firstChunk r with
    | (.ok content, r) => (.ok (), r, bucket.put name content)
    | (.error _, r) => (.ok (), r, bucket)
  else (.error .objectStore, r, bucket)

/-! ## What an upload of a stream comes to -/

/-- The `n` parts from the number `first` on are taken. -/
def S3Answers.parts (ans : S3Answers) (first n : Nat) : Bool :=
  (List.range n).all (fun i => ans.putPart (first + i))

/-- `upload_file` of `length` bytes returns `Ok`. -/
def S3Answers.returns (ans : S3Answers) (bufferSize length : Nat) : Bool :=
  if length < bufferSize then ans.put else ans.putMultipart

/-- `upload_file` of `length` bytes makes an object: the parts are all taken,
and so is the end. -/
def S3Answers.stores (ans : S3Answers) (bufferSize length : Nat) : Bool :=
  if length < bufferSize then ans.put
  else ans.putMultipart && ans.parts 1 ((length + (bufferSize - 1)) / bufferSize) && ans.complete

/-- `upload_file` of `length` bytes reads to the end of the stream: the
parts that fill a buffer are taken. -/
def S3Answers.readsToEnd (ans : S3Answers) (bufferSize length : Nat) : Bool :=
  if length < bufferSize then true
  else ans.putMultipart && ans.parts 1 (length / bufferSize)

namespace Reader

theorem pollRead_nil (sizes : Nat → Nat) (room : Nat) (r : Reader) (hrest : r.rest = []) :
    r.pollRead sizes room = ([], { r with done := true, reads := r.reads + 1 }) := by
  simp [pollRead, hrest]

/-- A read of a stream that has not ended. -/
theorem pollRead_eq (sizes : Nat → Nat) (room : Nat) (r : Reader) (hroom : 1 ≤ room)
    (hrest : r.rest ≠ []) :
    ∃ n, 1 ≤ n ∧ n ≤ room ∧ n ≤ r.rest.length ∧ r.pollRead sizes room =
      (r.rest.take n,
        { rest := r.rest.drop n, hashed := r.hashed ++ r.rest.take n
          done := r.done, reads := r.reads + 1 }) := by
  have hlen : 0 < r.rest.length := List.length_pos_iff.mpr hrest
  set n := max 1 (min (sizes r.reads) room) with hn
  have htake : r.rest.take n = r.rest.take (min n r.rest.length) := by
    rw [List.take_eq_take_iff]
    omega
  have hdrop : r.rest.drop n = r.rest.drop (min n r.rest.length) := by
    rw [List.drop_eq_drop_iff]
    omega
  have hne : (r.rest.take n).isEmpty = false := by
    rw [List.isEmpty_eq_false_iff, ← List.length_pos_iff, List.length_take]
    omega
  refine ⟨min n r.rest.length, by omega, by omega, by omega, ?_⟩
  simp only [pollRead, ← hn, hne, Bool.or_false, ← htake, ← hdrop]

/-- The loop fills the buffer as far as the stream goes, and sees the end
when the stream does not fill it. -/
theorem readLoop_spec (sizes : Nat → Nat) (capacity turns : Nat) (chunk : Bytes) (r : Reader)
    (hturns : capacity < chunk.length + turns) (hchunk : chunk.length ≤ capacity) :
    ∃ reads, readLoop sizes capacity turns chunk r =
      (chunk ++ r.rest.take (capacity - chunk.length),
        { rest := r.rest.drop (capacity - chunk.length)
          hashed := r.hashed ++ r.rest.take (capacity - chunk.length)
          done := r.done || decide (r.rest.length < capacity - chunk.length)
          reads := reads }) := by
  induction turns generalizing chunk r with
  | zero => omega
  | succ turns ih =>
    simp only [readLoop]
    split_ifs with hlt
    · by_cases hrest : r.rest = []
      · rw [pollRead_nil sizes _ r hrest]
        refine ⟨r.reads + 1, ?_⟩
        simp only [hrest, List.take_nil, List.drop_nil, List.append_nil, List.length_nil,
          Prod.mk.injEq, true_and]
        have hroom : 0 < capacity - chunk.length := by omega
        simp [hroom]
      · obtain ⟨n, hn, hroom, hlen, hpoll⟩ :=
          pollRead_eq sizes (capacity - chunk.length) r (by omega) hrest
        have hdata : (r.rest.take n).length = n := by
          rw [List.length_take]
          omega
        have hcons : r.rest.take n ≠ [] := by
          rw [← List.length_pos_iff]
          omega
        -- one read of `n` bytes, and then the rest of the loop
        obtain ⟨room, hroom'⟩ : ∃ room, capacity - chunk.length = n + room :=
          ⟨capacity - chunk.length - n, by omega⟩
        obtain ⟨reads, hrec⟩ := ih (chunk ++ r.rest.take n)
          { rest := r.rest.drop n, hashed := r.hashed ++ r.rest.take n
            done := r.done, reads := r.reads + 1 }
          (by simp only [List.length_append, hdata]; omega)
          (by simp only [List.length_append, hdata]; omega)
        have hleft : capacity - (chunk ++ r.rest.take n).length = room := by
          simp only [List.length_append, hdata]
          omega
        rw [hleft] at hrec
        refine ⟨reads, ?_⟩
        rw [hpoll, hroom', List.take_add]
        have hshort : decide (r.rest.length < n + room) =
            decide ((r.rest.drop n).length < room) := by
          rw [List.length_drop, decide_eq_decide]
          omega
        split
        · rename_i heq
          exact absurd (congrArg Prod.fst heq) hcons
        · rename_i data r' heq
          obtain ⟨rfl, rfl⟩ := Prod.mk.inj heq
          rw [hrec, hshort]
          simp only [List.append_assoc, List.drop_drop]
    · have hroom : capacity - chunk.length = 0 := by omega
      refine ⟨r.reads, ?_⟩
      simp [hroom]

/-- What `read_chunk_async` returns does not depend on the sizes of the
reads. -/
theorem readChunk_spec (sizes : Nat → Nat) (capacity : Nat) (r : Reader) :
    ∃ reads, r.readChunk sizes capacity =
      (r.rest.take capacity,
        { rest := r.rest.drop capacity, hashed := r.hashed ++ r.rest.take capacity
          done := r.done || decide (r.rest.length < capacity), reads := reads }) := by
  simpa [readChunk] using readLoop_spec sizes capacity (capacity + 1) [] r (by simp) (by simp)

end Reader

theorem S3Answers.parts_succ (ans : S3Answers) (first n : Nat) :
    ans.parts first (n + 1) = (ans.putPart first && ans.parts (first + 1) n) := by
  simp only [parts, List.range_succ_eq_map, List.all_cons, List.all_map, Nat.add_zero]
  congr 2
  funext i
  simp only [Function.comp_apply]
  congr 1
  omega

/-- The loop over the parts.  `chunk` has been read: it fills the buffer or
is the last one.  The upload makes an object when all parts and the end are
taken, and the reader has seen the end of the stream when all the parts that
fill the buffer are taken. -/
theorem multipartLoop_spec (sizes : Nat → Nat) (ans : S3Answers) {bufferSize : Nat}
    (hbuffer : 0 < bufferSize) (turns partNumber : Nat) (chunk uploaded : Bytes) (r : Reader)
    (hturns : chunk.length + r.rest.length < turns) (hchunk : chunk.length ≤ bufferSize)
    (hlast : chunk.length < bufferSize → r.done = true) (hdone : r.done = true → r.rest = []) :
    let total := chunk.length + r.rest.length
    let res := multipartLoop sizes ans bufferSize turns partNumber chunk uploaded r
    res.1 = (if ans.parts partNumber ((total + (bufferSize - 1)) / bufferSize) && ans.complete
        then .ok (uploaded ++ chunk ++ r.rest) else .error .objectStore) ∧
      res.2.done = (r.done || ans.parts partNumber (total / bufferSize)) ∧
      (res.2.done = true → res.2.hashed = r.hashed ++ r.rest) := by
  induction turns generalizing partNumber chunk uploaded r with
  | zero => omega
  | succ turns ih =>
    simp only [multipartLoop]
    by_cases hnil : chunk = []
    · -- the stream has ended
      have hd : r.done = true := hlast (by simp [hnil, hbuffer])
      have hrest := hdone hd
      have hceil : (bufferSize - 1) / bufferSize = 0 := Nat.div_eq_of_lt (by omega)
      simp [hnil, hrest, hd, hceil, S3Answers.parts]
    · have hpos : 0 < chunk.length := List.length_pos_iff.mpr hnil
      rw [if_neg hnil]
      obtain ⟨reads, hread⟩ := Reader.readChunk_spec sizes bufferSize r
      obtain ⟨k, hk⟩ : ∃ k, (chunk.length + r.rest.length + (bufferSize - 1)) / bufferSize =
          k + 1 := by
        refine Nat.exists_eq_add_one.mpr (Nat.div_pos ?_ hbuffer)
        omega
      cases hput : ans.putPart partNumber with
      | false =>
        simp only [Bool.false_eq_true, if_false, hk, S3Answers.parts_succ, hput, Bool.false_and,
          true_and]
        refine ⟨?_, fun hd => by simp [hdone hd]⟩
        by_cases hfull : chunk.length < bufferSize
        · simp [hlast hfull]
        · obtain ⟨j, hj⟩ : ∃ j, (chunk.length + r.rest.length) / bufferSize = j + 1 :=
            Nat.exists_eq_add_one.mpr (Nat.div_pos (by omega) hbuffer)
          simp [hj, S3Answers.parts_succ, hput]
      | true =>
        simp only [if_true, hread]
        have hlen : (r.rest.take bufferSize).length + (r.rest.drop bufferSize).length =
            r.rest.length := by
          rw [← List.length_append, List.take_append_drop]
        obtain ⟨hres, hdone', hhashed⟩ := ih (partNumber + 1) (r.rest.take bufferSize)
          (uploaded ++ chunk)
          { rest := r.rest.drop bufferSize, hashed := r.hashed ++ r.rest.take bufferSize
            done := r.done || decide (r.rest.length < bufferSize), reads := reads }
          (by simp only; omega) (List.length_take_le _ _)
          (fun h => by
            rw [List.length_take] at h
            have hshort : r.rest.length < bufferSize := by omega
            simp [hshort])
          (fun h => by
            simp only [Bool.or_eq_true, decide_eq_true_eq] at h
            rcases h with h | h
            · simp [hdone h]
            · exact List.drop_eq_nil_of_le (by omega))
        simp only [hlen] at hres hdone'
        have hceil : (chunk.length + r.rest.length + (bufferSize - 1)) / bufferSize =
            (r.rest.length + (bufferSize - 1)) / bufferSize + 1 := by
          by_cases hfull : chunk.length < bufferSize
          · have hrest := hdone (hlast hfull)
            have hcarry : chunk.length + (bufferSize - 1) = chunk.length - 1 + bufferSize := by
              omega
            rw [hrest, List.length_nil, Nat.add_zero, Nat.zero_add,
              Nat.div_eq_of_lt (show bufferSize - 1 < bufferSize by omega), hcarry,
              Nat.add_div_right _ hbuffer, Nat.div_eq_of_lt (by omega)]
          · rw [← Nat.add_div_right _ hbuffer]
            congr 1
            omega
        refine ⟨?_, ?_, ?_⟩
        · rw [hres, hceil, S3Answers.parts_succ, hput, Bool.true_and,
            List.append_assoc _ (r.rest.take _), List.take_append_drop]
        · rw [hdone']
          by_cases hfull : chunk.length < bufferSize
          · simp [hlast hfull]
          · have hdiv : (chunk.length + r.rest.length) / bufferSize =
                r.rest.length / bufferSize + 1 := by
              rw [← Nat.add_div_right _ hbuffer]
              congr 1
              omega
            rw [hdiv, S3Answers.parts_succ, hput, Bool.true_and]
            by_cases hshort : r.rest.length < bufferSize
            · simp [hshort, Nat.div_eq_of_lt hshort, S3Answers.parts]
            · simp [hshort]
        · intro hd
          rw [hhashed hd, List.append_assoc, List.take_append_drop]

/-- What `upload_file` comes to.  It makes an object of the whole stream or
leaves the bucket alone, and it reads to the end of the stream even when the
last part or the end of the upload fails after that. -/
theorem uploadFile_spec (sizes : Nat → Nat) (ans : S3Answers) {bufferSize : Nat}
    (hbuffer : 0 < bufferSize) (name : ObjectKey) (data : Bytes) (bucket : Bucket) :
    ∃ r, uploadFile sizes ans bufferSize name { rest := data } bucket =
        (if ans.returns bufferSize data.length then .ok () else .error .objectStore, r,
          if ans.stores bufferSize data.length then bucket.put name data else bucket) ∧
      (ans.returns bufferSize data.length = true →
        r.done = ans.readsToEnd bufferSize data.length) ∧
      (r.done = true → r.hashed = data) := by
  obtain ⟨reads, hread⟩ := Reader.readChunk_spec sizes bufferSize { rest := data }
  simp only [uploadFile, hread, List.nil_append, Bool.false_or, List.length_take]
  by_cases hsmall : data.length < bufferSize
  · have hmin : min bufferSize data.length < bufferSize := by omega
    have htake : data.take bufferSize = data := List.take_of_length_le (by omega)
    simp only [if_pos hmin, htake, S3Answers.returns, S3Answers.stores, S3Answers.readsToEnd,
      if_pos hsmall, decide_eq_true hsmall]
    cases ans.put <;> exact ⟨_, rfl, by simp, by simp⟩
  · have hmin : ¬ min bufferSize data.length < bufferSize := by omega
    simp only [if_neg hmin, S3Answers.returns, S3Answers.stores, S3Answers.readsToEnd,
      if_neg hsmall, decide_eq_false hsmall]
    cases ans.putMultipart with
    | false => exact ⟨_, rfl, by simp, by simp⟩
    | true =>
      have hlen : (data.take bufferSize).length = bufferSize := by
        rw [List.length_take]
        omega
      have htotal : bufferSize + (data.drop bufferSize).length = data.length := by
        rw [List.length_drop]
        omega
      obtain ⟨hres, hdone, hhashed⟩ := multipartLoop_spec sizes ans hbuffer
        ((data.take bufferSize).length + (data.drop bufferSize).length + 1) 1
        (data.take bufferSize) []
        { rest := data.drop bufferSize, hashed := data.take bufferSize, done := false
          reads := reads } (by simp only; omega) (by omega) (by omega) (by simp)
      simp only [hlen, htotal, List.nil_append, List.take_append_drop, Bool.false_or]
        at hres hdone hhashed
      simp only [if_true, Bool.true_and, runMultipartUpload, hlen, htotal]
      cases hloop : multipartLoop sizes ans bufferSize (data.length + 1) 1
          (data.take bufferSize) []
          { rest := data.drop bufferSize, hashed := data.take bufferSize, done := false
            reads := reads } with
      | mk res r =>
        rw [hloop] at hres hdone hhashed
        refine ⟨r, ?_, fun _ => hdone, hhashed⟩
        cases hall : (ans.parts 1 ((data.length + (bufferSize - 1)) / bufferSize) &&
            ans.complete) with
        | true =>
          rw [hall, if_pos rfl] at hres
          simp only at hres
          rw [hres]
          rfl
        | false =>
          rw [hall, if_neg (by simp)] at hres
          simp only at hres
          rw [hres]
          rfl

/-- With an empty buffer the reader never reads. -/
theorem uploadFile_zero (sizes : Nat → Nat) (ans : S3Answers) (name : ObjectKey) (data : Bytes)
    (bucket : Bucket) :
    (uploadFile sizes ans 0 name { rest := data } bucket).2.1.done = false := by
  simp only [uploadFile, Reader.readChunk, Reader.readLoop, runMultipartUpload, multipartLoop]
  cases ans.putMultipart <;> cases ans.complete <;> simp

end QueueRunner
