import QueueRunner.Upload
import QueueRunner.Uploader

/-!
# Copying a path to the binary cache

`copy_path` of `crates/binary-cache/src/lib.rs` uploads the NAR of a path
and then its narinfo.  The NAR is dumped by a task of its own whose result is
dropped, so a dump that stops early looks like a shorter NAR.  `upload_file`
drops the errors of a multipart upload.  What stands between these errors and
the narinfo is `finalize`, which fails when the reader has not seen the end
of the stream; the last part and the end of the upload come after that.
-/

namespace QueueRunner

/-- `Compression`. -/
inductive Compression where
  | none
  | xz
  | bzip2
  | brotli
  | zstd
deriving DecidableEq, Repr

namespace Compression

/-- `Compression::ext`. -/
def ext : Compression → String
  | none => "nar"
  | xz => "nar.xz"
  | bzip2 => "nar.bz2"
  | brotli => "nar.br"
  | zstd => "nar.zst"

/-- `Compression::as_str`. -/
def asStr : Compression → String
  | none => "none"
  | xz => "xz"
  | bzip2 => "bz2"
  | brotli => "br"
  | zstd => "zstd"

end Compression

/-- `StorePath::hash_part`. -/
def StorePath.hashPart (p : StorePath) : String := String.ofList (p.baseName.toList.take 32)

/-- `nix_utils::PathInfo`. -/
structure PathInfo where
  deriver : Option StorePath := none
  narHash : String
  narSize : Nat
  refs : List StorePath := []
  sigs : List String := []
  ca : Option String := none

/-- `NarInfo`. -/
structure NarInfo where
  storePath : StorePath
  url : ObjectKey
  compression : Compression
  fileHash : Option String := none
  fileSize : Option Nat := none
  narHash : String
  narSize : Nat
  references : List StorePath
  deriver : Option StorePath
  ca : Option String
  sigs : List String

/-- What the client takes from other packages. -/
structure Codecs where
  /-- The encoders of `get_compression_fn`.  None of them loses data. -/
  encode : Compression → Bytes → Bytes
  encode_injective : ∀ c, Function.Injective (encode c)
  /-- The SHA-256 of the bytes in base 16. -/
  sha256 : Bytes → String
  /-- `convert_hash` from base 16 to Nix's base 32. -/
  convertHash : String → Option String
  /-- `clear_sigs_and_sign`: one signature for each key of the client. -/
  sign : NarInfo → List String
  /-- `print_store_path`. -/
  printStorePath : StorePath → String

/-- `Compression::get_compression_fn`. -/
def Codecs.compress (codecs : Codecs) : Compression → Bytes → Bytes
  | .none, data => data
  | c, data => codecs.encode c data

/-- The fields of `S3CacheConfig` that `copy_path` reads. -/
structure CacheConfig where
  compression : Compression := .xz
  writeNarListing : Bool := false
  writeDebugInfo : Bool := false
  writeRealisation : Bool := false
  narinfoCompression : Compression := .none
  lsCompression : Compression := .none
  bufferSize : Nat := 8 * 1024 * 1024

namespace NarInfo

/-- `NarInfo::new`. -/
def new (codecs : Codecs) (path : StorePath) (info : PathInfo) (compression : Compression) :
    NarInfo :=
  let narHash :=
    if info.narHash.utf8ByteSize = 71 then
      (codecs.convertHash (String.ofList (info.narHash.toList.drop 7))).getD info.narHash
    else info.narHash
  let narHashUrl := (stripPrefix "sha256:" narHash).getD path.hashPart
  let narinfo : NarInfo :=
    { storePath := path
      url := .nar narHashUrl compression.ext
      compression := compression
      narHash := narHash
      narSize := info.narSize
      references := info.refs
      deriver := info.deriver
      ca := info.ca
      sigs := [] }
  let sigs := codecs.sign narinfo
  { narinfo with sigs := if sigs = [] ∧ info.sigs ≠ [] then info.sigs else sigs }

/-- The text of an `ObjectKey` of a NAR. -/
def urlText : ObjectKey → String
  | .nar hash ext => "nar/" ++ hash ++ "." ++ ext
  | .narinfo hash => hash ++ ".narinfo"
  | .ls hash => hash ++ ".ls"
  | .debugInfo id => "debuginfo/" ++ id
  | .realisation id => "realisations/" ++ id ++ ".doi"

/-- `NarInfo::render`. -/
def render (codecs : Codecs) (n : NarInfo) : Bytes :=
  let line (name : String) (value : String) : String := name ++ ": " ++ value ++ "\n"
  let text :=
    line "StorePath" (codecs.printStorePath n.storePath) ++
    line "URL" (urlText n.url) ++
    line "Compression" n.compression.asStr ++
    (n.fileHash.map (line "FileHash")).getD "" ++
    (n.fileSize.map (fun s => line "FileSize" (toString s))).getD "" ++
    line "NarHash" n.narHash ++
    line "NarSize" (toString n.narSize) ++
    line "References" (String.intercalate " " (n.references.map (·.baseName))) ++
    (n.deriver.map (fun d => line "Deriver" d.baseName)).getD "" ++
    (n.ca.map (line "CA")).getD "" ++
    String.join (n.sigs.map (line "Sig"))
  text.toUTF8.toList

end NarInfo

/-! ## `copy_path` -/

/-- One upload: the sizes of the reads and what S3 answers. -/
structure Transfer where
  sizes : Nat → Nat := fun _ => 1
  answers : S3Answers := {}

/-- A debug info link or a realisation: whether its object is found, its
content, and its upload. -/
structure SmallObject where
  id : String
  found : Except CacheError Bool
  content : Except CacheError Bytes
  transfer : Transfer

/-- What the store and S3 answer during one call of `copy_path`. -/
structure CopyAnswers where
  /-- The answer of `has_narinfo`. -/
  hasNarinfo : Except CacheError Bool := .ok false
  /-- The answer of `query_path_info`. -/
  pathInfo : Option PathInfo
  /-- The paths that `query_path_infos` finds. -/
  valid : List StorePath := []
  /-- The answer of `list_nar_deep` and the upload of the listing. -/
  listing : Except CacheError Bytes := .ok []
  listingTransfer : Transfer := {}
  /-- The answer of `find_debug_files`, with what becomes of each link. -/
  debugInfo : Except CacheError (List SmallObject) := .ok []
  /-- The NAR of the path, and how many of its bytes `nar_from_path` passes to
  the closure.  It reports an error when these are not all. -/
  nar : Bytes
  sent : Nat
  narTransfer : Transfer := {}
  /-- The answer of `static_output_hashes`, with what becomes of each output. -/
  realisations : Option (List SmallObject) := none
  narinfoTransfer : Transfer := {}

/-- The bytes of the NAR that reach the channel. -/
def CopyAnswers.stream (ans : CopyAnswers) : Bytes := ans.nar.take ans.sent

/-- Calls of the client change the bucket and may fail. -/
abbrev CacheM := EStateM CacheError Bucket

/-- The operator `?` on an answer. -/
def answer {α : Type} (a : Except CacheError α) : CacheM α := fun b =>
  match a with
  | .ok v => .ok v b
  | .error e => .error e b

/-- `!repair && has(..).await?`: nothing is asked when `repair` is set. -/
def present (repair : Bool) (has : Except CacheError Bool) : CacheM Bool :=
  if repair then pure false else answer has

/-- `upload_file` as a call; it leaves the reader behind. -/
def uploadReader (bufferSize : Nat) (t : Transfer) (name : ObjectKey) (r : Reader) :
    CacheM Reader := fun b =>
  match uploadFile t.sizes t.answers bufferSize name r b with
  | (.ok (), r, b) => .ok r b
  | (.error e, _, b) => .error e b

/-- `HashingReader::finalize`, with the bytes in the place of their hash and
length. -/
def Reader.finalize (r : Reader) : Except CacheError Bytes :=
  if r.done then .ok r.hashed else .error .hashing

section Client

variable (codecs : Codecs) (cfg : CacheConfig)

/-- The compression that `upsert_file_stream` takes from the end of the name. -/
def CacheConfig.compressionOf : ObjectKey → Compression
  | .ls _ => cfg.lsCompression
  | .narinfo _ => cfg.narinfoCompression
  | _ => .none

/-- `upsert_file`. -/
def upsertFile (name : ObjectKey) (content : Bytes) (t : Transfer) : CacheM Unit := do
  let _ ← uploadReader cfg.bufferSize t name
    { rest := codecs.compress (cfg.compressionOf name) content }

/-- `create_debug_info_link` with `repair := false`, and `copy_realisation`:
an object that is there is left alone. -/
def upsertMissing (repair : Bool) (key : String → ObjectKey) (o : SmallObject) : CacheM Unit := do
  if ← present repair o.found then pure ()
  else
    let content ← answer o.content
    upsertFile codecs cfg (key o.id) content o.transfer

/-- A list of such objects.  The links run 25 at a time, and the first error
in the order of the list is the result. -/
def upsertAll (repair : Bool) (key : String → ObjectKey) : List SmallObject → CacheM Unit
  | [] => pure ()
  | o :: os => do
    upsertMissing codecs cfg repair key o
    upsertAll repair key os

/-- `path_to_narinfo`. -/
def pathToNarinfo (path : StorePath) (ans : CopyAnswers) : Except CacheError NarInfo :=
  match ans.pathInfo with
  | none => .error (.pathNotFound path)
  | some info =>
    let narinfo := NarInfo.new codecs path info cfg.compression
    match narinfo.references.find? (fun r => r ∉ ans.valid) with
    | some r => .error (.referenceVerify narinfo.storePath r)
    | none => .ok narinfo

/-- The listing, when the configuration asks for it. -/
def copyListing (narinfo : NarInfo) (ans : CopyAnswers) : CacheM Unit :=
  if cfg.writeNarListing then do
    let ls ← answer ans.listing
    upsertFile codecs cfg (.ls narinfo.storePath.hashPart) ls ans.listingTransfer
  else pure ()

/-- `process_debug_info`, when the configuration asks for it. -/
def copyDebugInfo (ans : CopyAnswers) : CacheM Unit :=
  if cfg.writeDebugInfo then do
    let links ← answer ans.debugInfo
    upsertAll codecs cfg false .debugInfo links
  else pure ()

/-- The narinfo with the hash and the size of the uploaded file, when the
hash is converted. -/
def NarInfo.withFile (narinfo : NarInfo) (file : Bytes) : NarInfo :=
  match codecs.convertHash (codecs.sha256 file) with
  | some hash =>
    { narinfo with fileHash := some ("sha256:" ++ hash), fileSize := some file.length }
  | none => narinfo

/-- The upload of the NAR, and `finalize`.  The task that dumps the NAR drops
the error of `nar_from_path`. -/
def copyNar (narinfo : NarInfo) (ans : CopyAnswers) : CacheM NarInfo := do
  let reader ← uploadReader cfg.bufferSize ans.narTransfer narinfo.url
    { rest := codecs.compress narinfo.compression ans.stream }
  let file ← answer reader.finalize
  return narinfo.withFile codecs file

/-- The realisations of the outputs of the deriver. -/
def copyRealisations (narinfo : NarInfo) (repair : Bool) (ans : CopyAnswers) : CacheM Unit :=
  if cfg.writeRealisation && narinfo.deriver.isSome then
    match ans.realisations with
    | some outputs => upsertAll codecs cfg repair .realisation outputs
    | none => pure ()
  else pure ()

/-- `copy_path`.  It returns the narinfo that it has handed to
`upload_narinfo`. -/
def copyPath (path : StorePath) (repair : Bool) (ans : CopyAnswers) : CacheM (Option NarInfo) := do
  if ← present repair ans.hasNarinfo then pure none
  else
    let narinfo ← answer (pathToNarinfo codecs cfg path ans)
    copyListing codecs cfg narinfo ans
    copyDebugInfo codecs cfg ans
    let narinfo ← copyNar codecs cfg narinfo ans
    copyRealisations codecs cfg narinfo repair ans
    upsertFile codecs cfg (.narinfo narinfo.storePath.hashPart) (narinfo.render codecs)
      ans.narinfoTransfer
    pure (some narinfo)

end Client

/-! ## What a published narinfo promises -/

section Published

variable (codecs : Codecs) (cfg : CacheConfig)

/-- The object is there, or its content is at hand and S3 takes it. -/
def SmallObject.passes (repair : Bool) (o : SmallObject) : Bool :=
  match (if repair then .ok false else o.found), o.content with
  | .error _, _ => false
  | .ok true, _ => true
  | .ok false, .error _ => false
  | .ok false, .ok content => o.transfer.answers.returns cfg.bufferSize content.length

/-- The answers let the call make the object of the narinfo. -/
structure Publishes (path : StorePath) (repair : Bool) (ans : CopyAnswers) (narinfo : NarInfo) :
    Prop where
  buffer : 0 < cfg.bufferSize
  missing : repair = true ∨ ans.hasNarinfo = .ok false
  valid : pathToNarinfo codecs cfg path ans = .ok narinfo
  listing : cfg.writeNarListing = true → ∃ ls, ans.listing = .ok ls ∧
    ans.listingTransfer.answers.returns cfg.bufferSize
      (codecs.compress cfg.lsCompression ls).length = true
  debugInfo : cfg.writeDebugInfo = true → ∃ links, ans.debugInfo = .ok links ∧
    ∀ o ∈ links, o.passes cfg false = true
  nar : ans.narTransfer.answers.returns cfg.bufferSize
    (codecs.compress narinfo.compression ans.stream).length = true
  narEnd : ans.narTransfer.answers.readsToEnd cfg.bufferSize
    (codecs.compress narinfo.compression ans.stream).length = true
  realisations : cfg.writeRealisation = true → narinfo.deriver.isSome = true →
    ∀ outputs, ans.realisations = some outputs → ∀ o ∈ outputs, o.passes cfg repair = true
  stored : ans.narinfoTransfer.answers.stores cfg.bufferSize
    (codecs.compress cfg.narinfoCompression ((narinfo.withFile codecs
      (codecs.compress narinfo.compression ans.stream)).render codecs)).length = true

end Published

/-! ## What the calls do -/

theorem CacheM.bind_ok_iff {α β : Type} {m : CacheM α} {f : α → CacheM β} {b b' : Bucket}
    {v : β} : (m >>= f) b = .ok v b' ↔ ∃ a b₁, m b = .ok a b₁ ∧ f a b₁ = .ok v b' := by
  simp only [bind, EStateM.bind]
  cases m b <;> simp

theorem CacheM.pure_ok_iff {α : Type} {a v : α} {b b' : Bucket} :
    (pure a : CacheM α) b = .ok v b' ↔ a = v ∧ b = b' := by
  simp [pure, EStateM.pure]

theorem answer_ok_iff {α : Type} {a : Except CacheError α} {v : α} {b b' : Bucket} :
    answer a b = .ok v b' ↔ a = .ok v ∧ b = b' := by
  cases a <;> simp [answer]

theorem present_ok_iff {repair v : Bool} {has : Except CacheError Bool} {b b' : Bucket} :
    present repair has b = .ok v b' ↔
      (if repair then v = false else has = .ok v) ∧ b = b' := by
  cases repair <;> simp [present, answer_ok_iff, CacheM.pure_ok_iff]

/-- What is known of the key is the same in both buckets. -/
def Bucket.SameAt (b b' : Bucket) (k : ObjectKey) : Prop :=
  b'.objects.lookup k = b.objects.lookup k ∧ (k ∈ b'.made ↔ k ∈ b.made)

theorem Bucket.SameAt.trans {b₁ b₂ b₃ : Bucket} {k : ObjectKey} (h₁ : b₁.SameAt b₂ k)
    (h₂ : b₂.SameAt b₃ k) : b₁.SameAt b₃ k :=
  ⟨h₂.1.trans h₁.1, h₂.2.trans h₁.2⟩

theorem Bucket.sameAt_put {b : Bucket} {k name : ObjectKey} {content : Bytes} (h : k ≠ name) :
    b.SameAt (b.put name content) k := by
  refine ⟨AList.lookup_insert_ne h, ?_⟩
  simp [put, h]

/-- What `upload_file` leaves in the bucket. -/
def Bucket.afterUpload (b : Bucket) (bufferSize : Nat) (t : Transfer) (name : ObjectKey)
    (data : Bytes) : Bucket :=
  if t.answers.stores bufferSize data.length then b.put name data else b

theorem Bucket.sameAt_afterUpload {b : Bucket} {bufferSize : Nat} {t : Transfer}
    {k name : ObjectKey} {data : Bytes} (h : k ≠ name) :
    b.SameAt (b.afterUpload bufferSize t name data) k := by
  unfold afterUpload
  split
  · exact sameAt_put h
  · exact ⟨rfl, Iff.rfl⟩

/-- `upload_file` returns `Ok` when S3 starts the upload.  The reader has the
hash of the data when the parts that fill a buffer are taken. -/
theorem uploadReader_ok_iff {bufferSize : Nat} (hbuffer : 0 < bufferSize) (t : Transfer)
    (name : ObjectKey) (data : Bytes) (b : Bucket) :
    ∃ r, (∀ r' b', uploadReader bufferSize t name { rest := data } b = .ok r' b' ↔
        t.answers.returns bufferSize data.length = true ∧ r' = r ∧
          b' = b.afterUpload bufferSize t name data) ∧
      (t.answers.returns bufferSize data.length = true → r.finalize =
        if t.answers.readsToEnd bufferSize data.length then .ok data else .error .hashing) := by
  obtain ⟨r, hup, hdone, hhashed⟩ := uploadFile_spec t.sizes t.answers hbuffer name data b
  refine ⟨r, fun r' b' => ?_, fun hret => ?_⟩
  · simp only [uploadReader, hup, Bucket.afterUpload]
    cases t.answers.returns bufferSize data.length with
    | true =>
      simp only [if_true, EStateM.Result.ok.injEq, true_and]
      exact and_congr eq_comm eq_comm
    | false => simp
  · have hend := hdone hret
    simp only [Reader.finalize]
    cases hd : r.done with
    | true => simp [← hend, hd, hhashed hd]
    | false => simp [← hend, hd]

section Calls

variable (codecs : Codecs) {cfg : CacheConfig}

theorem upsertFile_ok_iff (hbuffer : 0 < cfg.bufferSize) {name : ObjectKey} {content : Bytes}
    {t : Transfer} {b b' : Bucket} :
    upsertFile codecs cfg name content t b = .ok () b' ↔
      t.answers.returns cfg.bufferSize
          (codecs.compress (cfg.compressionOf name) content).length = true ∧
        b' = b.afterUpload cfg.bufferSize t name
          (codecs.compress (cfg.compressionOf name) content) := by
  obtain ⟨r, hr, -⟩ := uploadReader_ok_iff hbuffer t name
    (codecs.compress (cfg.compressionOf name) content) b
  simp only [upsertFile, CacheM.bind_ok_iff, hr, CacheM.pure_ok_iff]
  constructor
  · rintro ⟨r', b₁, ⟨hret, -, rfl⟩, -, rfl⟩
    exact ⟨hret, rfl⟩
  · rintro ⟨hret, rfl⟩
    exact ⟨r, _, ⟨hret, rfl, rfl⟩, trivial, rfl⟩

/-- A call that returns `Ok` exactly when `P`, whatever the bucket, and that
keeps what is known of the keys of `keep`. -/
structure Passes (m : CacheM Unit) (P : Prop) (keep : ObjectKey → Prop) : Prop where
  ok : ∀ b, P → ∃ b', m b = .ok () b'
  of_ok : ∀ {b b'}, m b = .ok () b' → P ∧ ∀ k, keep k → b.SameAt b' k

theorem passes_pure (keep : ObjectKey → Prop) : Passes (pure ()) True keep where
  ok b _ := ⟨b, rfl⟩
  of_ok h := by
    obtain ⟨-, rfl⟩ := CacheM.pure_ok_iff.mp h
    exact ⟨trivial, fun k _ => ⟨rfl, Iff.rfl⟩⟩

theorem Passes.seq {m m' : CacheM Unit} {P P' : Prop} {keep : ObjectKey → Prop}
    (h : Passes m P keep) (h' : Passes m' P' keep) :
    Passes (do m; m') (P ∧ P') keep where
  ok b hp := by
    obtain ⟨b₁, hm⟩ := h.ok b hp.1
    obtain ⟨b₂, hm'⟩ := h'.ok b₁ hp.2
    exact ⟨b₂, CacheM.bind_ok_iff.mpr ⟨(), b₁, hm, hm'⟩⟩
  of_ok hrun := by
    obtain ⟨⟨⟩, b₁, hm, hm'⟩ := CacheM.bind_ok_iff.mp hrun
    obtain ⟨hp, hsame⟩ := h.of_ok hm
    obtain ⟨hp', hsame'⟩ := h'.of_ok hm'
    exact ⟨⟨hp, hp'⟩, fun k hk => (hsame k hk).trans (hsame' k hk)⟩

theorem Passes.answer {α : Type} {a : Except CacheError α} {f : α → CacheM Unit}
    {P : α → Prop} {keep : ObjectKey → Prop} (h : ∀ v, Passes (f v) (P v) keep) :
    Passes (do f (← answer a)) (∃ v, a = .ok v ∧ P v) keep where
  ok b hp := by
    obtain ⟨v, hv, hp⟩ := hp
    obtain ⟨b', hf⟩ := (h v).ok b hp
    exact ⟨b', CacheM.bind_ok_iff.mpr ⟨v, b, answer_ok_iff.mpr ⟨hv, rfl⟩, hf⟩⟩
  of_ok hrun := by
    obtain ⟨v, b₁, ha, hf⟩ := CacheM.bind_ok_iff.mp hrun
    obtain ⟨hv, rfl⟩ := answer_ok_iff.mp ha
    exact ⟨⟨v, hv, ((h v).of_ok hf).1⟩, ((h v).of_ok hf).2⟩

theorem Passes.congr {m : CacheM Unit} {P Q : Prop} {keep : ObjectKey → Prop}
    (h : Passes m P keep) (hiff : P ↔ Q) : Passes m Q keep :=
  propext hiff ▸ h

theorem passes_upsertFile (hbuffer : 0 < cfg.bufferSize) (name : ObjectKey) (content : Bytes)
    (t : Transfer) (keep : ObjectKey → Prop) (hname : ∀ k, keep k → k ≠ name) :
    Passes (upsertFile codecs cfg name content t)
      (t.answers.returns cfg.bufferSize
        (codecs.compress (cfg.compressionOf name) content).length = true) keep where
  ok b hp := ⟨_, (upsertFile_ok_iff codecs hbuffer).mpr ⟨hp, rfl⟩⟩
  of_ok h := by
    obtain ⟨hp, rfl⟩ := (upsertFile_ok_iff codecs hbuffer).mp h
    exact ⟨hp, fun k hk => Bucket.sameAt_afterUpload (hname k hk)⟩

/-- The keys that no small object has. -/
def ObjectKey.large : ObjectKey → Prop
  | .nar _ _ => True
  | .narinfo _ => True
  | _ => False

theorem passes_upsertMissing (hbuffer : 0 < cfg.bufferSize) (repair : Bool)
    (key : String → ObjectKey) (hkey : ∀ id, ¬ (key id).large)
    (hplain : ∀ id, cfg.compressionOf (key id) = .none) (o : SmallObject) :
    Passes (upsertMissing codecs cfg repair key o) (o.passes cfg repair = true)
      ObjectKey.large := by
  have hput : ∀ content, Passes (upsertFile codecs cfg (key o.id) content o.transfer)
      (o.transfer.answers.returns cfg.bufferSize content.length = true) ObjectKey.large := by
    intro content
    have h := passes_upsertFile codecs hbuffer (key o.id) content o.transfer
      ObjectKey.large (fun k hk heq => hkey o.id (heq ▸ hk))
    rwa [hplain, Codecs.compress] at h
  have hmissing : Passes (do upsertFile codecs cfg (key o.id) (← answer o.content) o.transfer)
      (∃ content, o.content = .ok content ∧
        o.transfer.answers.returns cfg.bufferSize content.length = true) ObjectKey.large :=
    Passes.answer hput
  cases repair with
  | true =>
    refine Passes.congr hmissing ?_
    simp only [SmallObject.passes]
    cases o.content <;> simp
  | false =>
    have hfound : ∀ found, Passes
        (if found = true then pure ()
          else do upsertFile codecs cfg (key o.id) (← answer o.content) o.transfer)
        (found = true ∨ ∃ content, o.content = .ok content ∧
          o.transfer.answers.returns cfg.bufferSize content.length = true) ObjectKey.large := by
      intro found
      cases found with
      | true => exact (passes_pure _).congr (by simp)
      | false => exact hmissing.congr (by simp)
    refine (Passes.answer (a := o.found) hfound).congr ?_
    simp only [SmallObject.passes]
    cases o.found with
    | error e => simp
    | ok found => cases found <;> cases o.content <;> simp

theorem passes_upsertAll (hbuffer : 0 < cfg.bufferSize) (repair : Bool)
    (key : String → ObjectKey) (hkey : ∀ id, ¬ (key id).large)
    (hplain : ∀ id, cfg.compressionOf (key id) = .none) (os : List SmallObject) :
    Passes (upsertAll codecs cfg repair key os) (∀ o ∈ os, o.passes cfg repair = true)
      ObjectKey.large := by
  induction os with
  | nil => exact (passes_pure _).congr (by simp)
  | cons o os ih =>
    exact ((passes_upsertMissing codecs hbuffer repair key hkey hplain o).seq ih).congr (by simp)

theorem passes_copyListing (hbuffer : 0 < cfg.bufferSize) (narinfo : NarInfo)
    (ans : CopyAnswers) :
    Passes (copyListing codecs cfg narinfo ans)
      (cfg.writeNarListing = true → ∃ ls, ans.listing = .ok ls ∧
        ans.listingTransfer.answers.returns cfg.bufferSize
          (codecs.compress cfg.lsCompression ls).length = true) ObjectKey.large := by
  unfold copyListing
  split
  · rename_i hwrite
    refine (Passes.answer (fun ls => passes_upsertFile codecs hbuffer
      (.ls narinfo.storePath.hashPart) ls ans.listingTransfer ObjectKey.large ?_)).congr ?_
    · rintro k hk rfl
      exact hk
    · simp [hwrite, CacheConfig.compressionOf]
  · rename_i hwrite
    exact (passes_pure _).congr (by simp [hwrite])

theorem passes_copyDebugInfo (hbuffer : 0 < cfg.bufferSize) (ans : CopyAnswers) :
    Passes (copyDebugInfo codecs cfg ans)
      (cfg.writeDebugInfo = true → ∃ links, ans.debugInfo = .ok links ∧
        ∀ o ∈ links, o.passes cfg false = true) ObjectKey.large := by
  unfold copyDebugInfo
  split
  · rename_i hwrite
    exact (Passes.answer (fun links => passes_upsertAll codecs hbuffer false .debugInfo
      (fun _ h => h) (fun _ => rfl) links)).congr (by simp [hwrite])
  · rename_i hwrite
    exact (passes_pure _).congr (by simp [hwrite])

theorem passes_copyRealisations (hbuffer : 0 < cfg.bufferSize) (narinfo : NarInfo)
    (repair : Bool) (ans : CopyAnswers) :
    Passes (copyRealisations codecs cfg narinfo repair ans)
      (cfg.writeRealisation = true → narinfo.deriver.isSome = true →
        ∀ outputs, ans.realisations = some outputs →
          ∀ o ∈ outputs, o.passes cfg repair = true) ObjectKey.large := by
  unfold copyRealisations
  split
  · rename_i hwrite
    rw [Bool.and_eq_true] at hwrite
    cases hr : ans.realisations with
    | none => exact (passes_pure _).congr (by simp)
    | some outputs =>
      exact (passes_upsertAll codecs hbuffer repair .realisation (fun _ h => h) (fun _ => rfl)
        outputs).congr (by simp [hwrite.1, hwrite.2])
  · rename_i hwrite
    refine (passes_pure _).congr ?_
    simp only [Bool.and_eq_true, not_and] at hwrite
    simp only [true_iff]
    exact fun h h' => absurd h' (hwrite h)

theorem copyNar_ok_iff (hbuffer : 0 < cfg.bufferSize) {narinfo narinfo' : NarInfo}
    {ans : CopyAnswers} {b b' : Bucket} :
    copyNar codecs cfg narinfo ans b = .ok narinfo' b' ↔
      (ans.narTransfer.answers.returns cfg.bufferSize
          (codecs.compress narinfo.compression ans.stream).length = true ∧
        ans.narTransfer.answers.readsToEnd cfg.bufferSize
          (codecs.compress narinfo.compression ans.stream).length = true) ∧
      narinfo' = narinfo.withFile codecs (codecs.compress narinfo.compression ans.stream) ∧
      b' = b.afterUpload cfg.bufferSize ans.narTransfer narinfo.url
        (codecs.compress narinfo.compression ans.stream) := by
  obtain ⟨r, hr, hfin⟩ := uploadReader_ok_iff hbuffer ans.narTransfer narinfo.url
    (codecs.compress narinfo.compression ans.stream) b
  simp only [copyNar, CacheM.bind_ok_iff, hr, answer_ok_iff, CacheM.pure_ok_iff]
  constructor
  · rintro ⟨r', b₁, ⟨hret, rfl, rfl⟩, file, b₂, ⟨hfile, rfl⟩, rfl, rfl⟩
    rw [hfin hret] at hfile
    split at hfile
    · rename_i hend
      obtain rfl := Except.ok.inj hfile
      exact ⟨⟨hret, hend⟩, rfl, rfl⟩
    · cases hfile
  · rintro ⟨⟨hret, hend⟩, rfl, rfl⟩
    exact ⟨r, _, ⟨hret, rfl, rfl⟩, _, _, ⟨by rw [hfin hret, if_pos hend], rfl⟩, rfl, rfl⟩

theorem withFile_eq (narinfo : NarInfo) (file : Bytes) :
    (narinfo.withFile codecs file).storePath = narinfo.storePath ∧
      (narinfo.withFile codecs file).url = narinfo.url ∧
      (narinfo.withFile codecs file).compression = narinfo.compression ∧
      (narinfo.withFile codecs file).deriver = narinfo.deriver := by
  unfold NarInfo.withFile
  split <;> exact ⟨rfl, rfl, rfl, rfl⟩

/-- A narinfo before the upload. -/
theorem pathToNarinfo_ok {path : StorePath} {ans : CopyAnswers} {narinfo : NarInfo}
    (h : pathToNarinfo codecs cfg path ans = .ok narinfo) :
    narinfo.storePath = path ∧ narinfo.fileHash = none ∧ narinfo.fileSize = none ∧
      ∃ hash ext, narinfo.url = .nar hash ext := by
  simp only [pathToNarinfo] at h
  split at h
  · cases h
  · split at h
    · cases h
    · obtain rfl := Except.ok.inj h
      exact ⟨rfl, rfl, rfl, _, _, rfl⟩

theorem S3Answers.returns_of_stores {ans : S3Answers} {bufferSize length : Nat}
    (h : ans.stores bufferSize length = true) : ans.returns bufferSize length = true := by
  simp only [stores, returns] at h ⊢
  split_ifs at h ⊢ <;> simp_all

end Calls

section Main

variable {codecs : Codecs} {cfg : CacheConfig} {path : StorePath} {repair : Bool}
  {ans : CopyAnswers} {objects : Map ObjectKey Bytes}

theorem copyPath_of_publishes {narinfo : NarInfo}
    (h : Publishes codecs cfg path repair ans narinfo) :
    ∃ b', copyPath codecs cfg path repair ans { objects := objects } =
        .ok (some (narinfo.withFile codecs
          (codecs.compress narinfo.compression ans.stream))) b' ∧
      .narinfo path.hashPart ∈ b'.made := by
  obtain ⟨hpath, -⟩ := pathToNarinfo_ok codecs h.valid
  obtain ⟨hpath', -, -, hderiver⟩ := withFile_eq codecs narinfo
    (codecs.compress narinfo.compression ans.stream)
  obtain ⟨b₁, hlisting⟩ := (passes_copyListing codecs h.buffer narinfo ans).ok
    { objects := objects } h.listing
  obtain ⟨b₂, hdebug⟩ := (passes_copyDebugInfo codecs h.buffer ans).ok b₁ h.debugInfo
  obtain ⟨b₄, hreal⟩ := (passes_copyRealisations codecs h.buffer (narinfo.withFile codecs
      (codecs.compress narinfo.compression ans.stream)) repair ans).ok
    (b₂.afterUpload cfg.bufferSize ans.narTransfer narinfo.url
      (codecs.compress narinfo.compression ans.stream))
    (by rw [hderiver]; exact h.realisations)
  set narinfo' := narinfo.withFile codecs (codecs.compress narinfo.compression ans.stream)
  refine ⟨b₄.afterUpload cfg.bufferSize ans.narinfoTransfer (.narinfo narinfo'.storePath.hashPart)
    (codecs.compress cfg.narinfoCompression (narinfo'.render codecs)),
    CacheM.bind_ok_iff.mpr ⟨false, { objects := objects }, ?_, ?_⟩, ?_⟩
  · refine present_ok_iff.mpr ⟨?_, rfl⟩
    rcases h.missing with hrepair | hhas
    · simp [hrepair]
    · split
      · rfl
      · exact hhas
  · simp only [Bool.false_eq_true, if_false, CacheM.bind_ok_iff, answer_ok_iff]
    exact ⟨narinfo, _, ⟨h.valid, rfl⟩, (), b₁, hlisting, (), b₂, hdebug, _, _,
      (copyNar_ok_iff codecs h.buffer).mpr ⟨⟨h.nar, h.narEnd⟩, rfl, rfl⟩, (), b₄, hreal, (), _,
      (upsertFile_ok_iff codecs h.buffer).mpr ⟨S3Answers.returns_of_stores h.stored, rfl⟩, rfl⟩
  · rw [hpath', hpath, Bucket.afterUpload]
    rw [if_pos h.stored]
    exact List.mem_cons_self

end Main

namespace Sample

/-- Three bytes and two of them, with their hashes. -/
def hashes : List (Bytes × String × String) :=
  [([1, 2, 3], "039058c6f2c0cb492c533b0a4d14ef77cc0f78abccced5287d84a1a2011cfb81",
      "10gv3h0s58c4glldbkncmdw0zk3pxwa4s2ivacn4kjy0yb35i403"),
    ([1, 2], "a12871fee210fb8619291eaea194581cbd2531e4b23759d225f6806923f63222",
      "08ijyqink07n4p95jdxjwhqjbg8wb2aa3bhy54cqdyqhwbz72a51")]

/-- Encoders that change nothing, and the hashes of the sample. -/
def codecs : Codecs where
  encode _ data := data
  encode_injective _ := Function.injective_id
  sha256 data := ((hashes.find? (·.1 = data)).map (·.2.1)).getD ""
  convertHash hash := (hashes.find? (·.2.1 = hash)).map (·.2.2)
  sign _ := []
  printStorePath p := "/nix/store/" ++ p.baseName

/-- A path without references whose NAR has three bytes. -/
def cachedPath : StorePath := ⟨"abc123def45678901234567890123456-package"⟩

def cachedInfo : PathInfo where
  narHash := "sha256:10gv3h0s58c4glldbkncmdw0zk3pxwa4s2ivacn4kjy0yb35i403"
  narSize := 3

theorem stores_default (bufferSize length : Nat) :
    ({} : S3Answers).stores bufferSize length = true := by
  simp [S3Answers.stores, S3Answers.parts]

end Sample

end QueueRunner
