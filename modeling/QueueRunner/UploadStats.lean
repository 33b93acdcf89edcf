import QueueRunner.S3Config

/-!
# What an upload stores and counts

`upload_file` of `crates/binary-cache/src/lib.rs` with its buffer and its
counters.  The buffer is made with the size of the configuration, which can
be any number of 64 bits.  A buffer of more than `isize::MAX` bytes cannot
be made.  A buffer of no bytes is full before anything is read: the first
chunk is empty and not shorter than the buffer, so an upload in parts begins,
takes the empty chunk for the end of the stream and completes without a part.

With every other size the object is the stream, whatever the sizes of the
reads are.
-/

namespace QueueRunner

/-- The counters of `AtomicS3Stats` that an upload changes. -/
structure S3Stats where
  put : UInt64 := 0
  putBytes : UInt64 := 0
deriving DecidableEq, Repr

/-- `isize::MAX`. -/
def isizeMax : Nat := 2 ^ 63 - 1

/-- `BytesMut::with_capacity`; the result is the capacity. -/
def bufferCapacity (bufferSize : Nat) : Except Panic Nat :=
  if bufferSize ≤ isizeMax then .ok bufferSize else .error .capacityOverflow

/-- The counters after an upload of `bytes` bytes; they wrap around. -/
def S3Stats.uploaded (stats : S3Stats) (bytes : Nat) : S3Stats where
  put := stats.put + 1
  putBytes := stats.putBytes + .ofNat bytes

/-- `upload_file`, with the buffer and the counters. -/
def uploadFileCounted (sizes : Nat → Nat) (ans : S3Answers) (bufferSize : Nat) (name : ObjectKey)
    (r : Reader) (bucket : Bucket) (stats : S3Stats) :
    Except Panic (Except CacheError Unit × Reader × Bucket × S3Stats) := do
  let capacity ← bufferCapacity bufferSize
  let (firstChunk, r) := r.readChunk sizes capacity
  if firstChunk.length < bufferSize then
    if ans.put then
      return (.ok (), r, bucket.put name firstChunk, stats.uploaded firstChunk.length)
    else return (.error .objectStore, r, bucket, stats)
  else if ans.putMultipart then
    match runMultipartUpload sizes ans bufferSize firstChunk r with
    | (.ok content, r) =>
      return (.ok (), r, bucket.put name content, stats.uploaded content.length)
    | (.error _, r) => return (.ok (), r, bucket, stats)
  else return (.error .objectStore, r, bucket, stats)

/-- The stream is read to its end, the object is the stream, and the counters
grow by one upload of its length. -/
def UploadFaithful (bufferSize : Nat) (data : Bytes) : Prop :=
  ∀ sizes name bucket stats, ∃ r,
    uploadFileCounted sizes {} bufferSize name { rest := data } bucket stats =
      .ok (.ok (), r, bucket.put name data, stats.uploaded data.length) ∧
    r.done = true ∧ r.hashed = data

/-- The object that an upload makes is known from the bucket. -/
theorem Bucket.put_inj {b : Bucket} {name : ObjectKey} {c c' : Bytes}
    (h : b.put name c = b.put name c') : c = c' := by
  have hlookup := congrArg (fun b : Bucket => b.objects.lookup name) h
  simpa [Bucket.put] using hlookup

theorem Bucket.ne_put (b : Bucket) (name : ObjectKey) (c : Bytes) : b ≠ b.put name c := by
  intro h
  have hlen := congrArg (fun b : Bucket => b.made.length) h
  simp [Bucket.put] at hlen

/-- The counters are all that is added to `uploadFile`, and they count the
object that was made. -/
theorem uploadFileCounted_eq {bufferSize : Nat} (hsize : bufferSize ≤ isizeMax)
    {sizes : Nat → Nat} {ans : S3Answers} {name : ObjectKey} {r r' : Reader}
    {bucket bucket' : Bucket} {res : Except CacheError Unit}
    (h : uploadFile sizes ans bufferSize name r bucket = (res, r', bucket')) (stats : S3Stats) :
    ∃ stats', uploadFileCounted sizes ans bufferSize name r bucket stats =
        .ok (res, r', bucket', stats') ∧
      ∀ content, bucket' = bucket.put name content → stats' = stats.uploaded content.length := by
  have hcapacity : bufferCapacity bufferSize = .ok bufferSize := if_pos hsize
  have hnone : ∀ content, bucket = bucket.put name content →
      stats = stats.uploaded content.length :=
    fun content hput => absurd hput (bucket.ne_put name content)
  simp only [uploadFileCounted, hcapacity]
  simp only [uploadFile] at h
  cases hread : r.readChunk sizes bufferSize with
  | mk firstChunk r₁ =>
    rw [hread] at h
    simp only at h
    simp only [bind, Except.bind, hread]
    split_ifs at h ⊢
    · obtain ⟨rfl, rfl, rfl⟩ := h
      exact ⟨_, rfl, fun content hput => by rw [Bucket.put_inj hput]⟩
    · obtain ⟨rfl, rfl, rfl⟩ := h
      exact ⟨_, rfl, hnone⟩
    · cases hrun : runMultipartUpload sizes ans bufferSize firstChunk r₁ with
      | mk out r₂ =>
        rw [hrun] at h
        cases out with
        | ok content =>
          obtain ⟨rfl, rfl, rfl⟩ := h
          exact ⟨_, rfl, fun content hput => by rw [Bucket.put_inj hput]⟩
        | error e =>
          obtain ⟨rfl, rfl, rfl⟩ := h
          exact ⟨_, rfl, hnone⟩
    · obtain ⟨rfl, rfl, rfl⟩ := h
      exact ⟨_, rfl, hnone⟩

/-- When every call succeeds the whole stream is stored and its end is seen. -/
theorem S3Answers.parts_default (first n : Nat) : S3Answers.parts {} first n = true := by
  simp [parts]

theorem uploadFile_default {bufferSize : Nat} (hbuffer : 0 < bufferSize) (sizes : Nat → Nat)
    (name : ObjectKey) (data : Bytes) (bucket : Bucket) :
    ∃ r, uploadFile sizes {} bufferSize name { rest := data } bucket =
        (.ok (), r, bucket.put name data) ∧ r.done = true ∧ r.hashed = data := by
  obtain ⟨r, heq, hdone, hhashed⟩ := uploadFile_spec sizes {} hbuffer name data bucket
  have hreturns : S3Answers.returns {} bufferSize data.length = true := by
    simp [S3Answers.returns]
  have hstores : S3Answers.stores {} bufferSize data.length = true := by
    simp [S3Answers.stores, S3Answers.parts_default]
  have hend : S3Answers.readsToEnd {} bufferSize data.length = true := by
    simp [S3Answers.readsToEnd, S3Answers.parts_default]
  rw [hreturns, hstores, if_pos rfl, if_pos rfl] at heq
  have hd : r.done = true := (hdone hreturns).trans hend
  exact ⟨r, heq, hd, hhashed hd⟩

/-- The object of an upload is the stream exactly when the buffer can be made
and is not empty. -/
theorem uploadFaithful_iff (cfg : S3CacheConfig) (data : Bytes) :
    UploadFaithful cfg.bufferSize data ↔ 0 < cfg.bufferSize ∧ cfg.bufferSize ≤ isizeMax := by
  constructor
  · intro h
    obtain ⟨r, heq, hdone, -⟩ := h (fun _ => 1) (.debugInfo "") { objects := ∅ } {}
    have hsize : cfg.bufferSize ≤ isizeMax := by
      by_contra hlarge
      rw [uploadFileCounted, bufferCapacity, if_neg hlarge] at heq
      cases heq
    refine ⟨Nat.pos_of_ne_zero fun hzero => ?_, hsize⟩
    -- the empty buffer: the end of the stream is never seen
    have hend := uploadFile_zero (fun _ => 1) {} (.debugInfo "") data { objects := ∅ }
    obtain ⟨⟨res, r', bucket'⟩, hup⟩ : ∃ out, uploadFile (fun _ => 1) {} cfg.bufferSize
        (.debugInfo "") { rest := data } { objects := ∅ } = out := ⟨_, rfl⟩
    obtain ⟨stats', heq', -⟩ := uploadFileCounted_eq hsize hup {}
    rw [heq'] at heq
    have hr : r' = r := congrArg (fun out => out.2.1) (Except.ok.inj heq)
    rw [hzero] at hup
    rw [hup, hr, hdone] at hend
    cases hend
  · rintro ⟨hbuffer, hsize⟩ sizes name bucket stats
    obtain ⟨r, heq, hdone, hhashed⟩ := uploadFile_default hbuffer sizes name data bucket
    obtain ⟨stats', heq', hstats⟩ := uploadFileCounted_eq hsize heq stats
    rw [hstats data rfl] at heq'
    exact ⟨r, heq', hdone, hhashed⟩

/-- With an empty buffer nothing of the stream is stored. -/
theorem uploadFaithful_fails :
    ¬ ∀ (parseUrl : String → Option Url) (s : String) (cfg : S3CacheConfig),
      S3CacheConfig.fromStr parseUrl s = .ok cfg → ∀ data, UploadFaithful cfg.bufferSize data := by
  intro h
  obtain ⟨cfg, hcfg, hzero⟩ := S3CacheConfig.fromStr_bufferSize (show 0 < 2 ^ 64 by decide)
  obtain ⟨r, heq, -⟩ := h _ _ cfg hcfg [1, 2, 3] (fun _ => 1) (.debugInfo "") { objects := ∅ } {}
  rw [hzero] at heq
  have hcount : (uploadFileCounted (fun _ => 1) {} 0 (.debugInfo "") { rest := [1, 2, 3] }
      { objects := ∅ } {}).toOption.map (fun out => out.2.2.2.putBytes) = some 0 := by
    decide +kernel
  rw [heq] at hcount
  have hthree : (({} : S3Stats).uploaded 3).putBytes ≠ 0 := by decide
  exact hthree (Option.some.inj hcount)

end QueueRunner
