import Mathlib.Data.List.ReduceOption
import QueueRunner.UploadStats

/-!
# Presigned uploads on the wire

The queue runner describes the uploads of a path in a `PresignedUploadResponse`
of `crates/binary-cache`, sends it as a message of strings and numbers, and
the builder makes a `PresignedUploadResponse` from the message again.  The
parts are `generate_nar_upload_presigned_url` of `binary-cache/src/lib.rs`,
`request_presigned_url` of `server/grpc.rs`, `upload_single_nar_presigned` of
`builder/src/state.rs`, and the two functions on levels of
`binary-cache/src/presigned.rs`.

Here the messages have all their fields, and the slices of the strings can
panic.  `wireFaithful_iff` says which configurations survive the wire: the
level is a number there, 1 and 9 are read as `Fastest` and `Best`, and
everything that is not between 1 and 9 as the default.
-/

namespace QueueRunner.Wire

/-- `async_compression::Level`. -/
inductive Level where
  | fastest
  | best
  | default
  | precise (n : Int32)
deriving DecidableEq

/-- `binary_cache::PresignedUpload`. -/
structure PresignedUpload where
  path : String
  url : String
  compression : Compression
  compressionLevel : Level
deriving DecidableEq

namespace PresignedUpload

/-- `PresignedUpload::new`. -/
def new (path url : String) (compression : Compression) (compressionLevel : Int32) :
    PresignedUpload where
  path := path
  url := url
  compression := compression
  compressionLevel :=
    if compressionLevel = 1 then .fastest
    else if 2 ≤ compressionLevel ∧ compressionLevel ≤ 8 then .precise compressionLevel
    else if compressionLevel = 9 then .best
    else .default

/-- `PresignedUpload::get_compression_level_as_i32`. -/
def getCompressionLevelAsI32 (p : PresignedUpload) : Int32 :=
  match p.compressionLevel with
  | .fastest => 1
  | .precise n => n
  | .best => 9
  | .default => 0

end PresignedUpload

/-- `S3CacheConfig::get_compression_level`. -/
def getCompressionLevel (cfg : S3CacheConfig) : Level :=
  match cfg.compressionLevel with
  | some l => .precise l
  | none => .default

/-- `binary_cache::PresignedUploadResponse`. -/
structure PresignedUploadResponse where
  narUrl : String
  narUpload : PresignedUpload
  lsUpload : Option PresignedUpload
  debugInfoUpload : List PresignedUpload

/-! ## The messages -/

/-- `runner_v1::PresignedUpload`. -/
structure PresignedUploadMessage where
  path : String
  url : String
  compression : String
  compressionLevel : Int32

/-- `runner_v1::PresignedNarRequest`. -/
structure PresignedNarRequest where
  storePath : String
  narHash : String
  debugInfoBuildIds : List String

/-- `runner_v1::PresignedUrlRequest`. -/
structure PresignedUrlRequest where
  buildId : String
  machineId : String
  request : List PresignedNarRequest

/-- `runner_v1::PresignedNarResponse`. -/
structure PresignedNarResponse where
  storePath : String
  narUrl : String
  narUpload : Option PresignedUploadMessage
  lsUpload : Option PresignedUploadMessage
  debugInfoUpload : List PresignedUploadMessage

/-- The kinds of `CacheError` of the presigned route.  The reasons are
without the text of the error of the package. -/
inductive CacheFault where
  | presignedUrl (path reason : String)
  | objectStore
  | pathNotFound (path : String)
  | uploadError (path reason : String)
deriving DecidableEq, Repr

/-- How a call of the client fails. -/
inductive Fault where
  | panic (p : Panic)
  | error (e : CacheFault)
deriving DecidableEq, Repr

/-- `tonic::Status` with its code and its message. -/
inductive Status where
  | invalidArgument (message : String)
  | notFound (message : String)
  | failedPrecondition (message : String)
  | internal (message : String)
deriving DecidableEq, Repr

/-- How a handler fails. -/
inductive HandlerFault where
  | panic (p : Panic)
  | status (s : Status)
deriving DecidableEq, Repr

/-- What S3 answers: the signed URL of a key, and whether the object is
there.  Nothing stands for an error. -/
structure S3Client where
  signedUrl : String → Option String
  headObject : String → Option Bool

/-- `map_err` of the handlers.  A panic goes through. -/
def Fault.toHandler (message : String) : Fault → HandlerFault
  | .panic p => .panic p
  | .error _ => .status (.internal message)

/-! ## The queue runner -/

/-- `StorePath::hash_part` in a call of the client. -/
def hashPart (path : StorePath) : Except Fault String := path.hashPartChecked.mapError .panic

/-- A signed URL, with the error that the caller makes of a failure. -/
def S3Client.sign (s3 : S3Client) (key : String) (e : CacheFault) : Except Fault String :=
  match s3.signedUrl key with
  | some url => .ok url
  | none => .error (.error e)

/-- The upload of one debug info link; none when the object is there.  When
the question fails the object is taken for missing. -/
def debugInfoUpload (s3 : S3Client) (buildId : String) :
    Except Fault (Option PresignedUpload) :=
  let s3FilePath := "debuginfo/" ++ buildId
  if (s3.headObject s3FilePath).getD false then .ok none
  else do
    let url ← s3.sign s3FilePath .objectStore
    return some
      { path := s3FilePath, url := url, compression := .none, compressionLevel := .default }

/-- The hash in the URL of the NAR. -/
def narHashUrl (path : StorePath) (nix32NarHash : String) : Except Fault String :=
  match stripPrefix "sha256:" nix32NarHash with
  | some digest => .ok digest
  | none => hashPart path

/-- The upload of the listing, when the configuration asks for it. -/
def listingUpload (cfg : S3CacheConfig) (s3 : S3Client) (path : StorePath) :
    Except Fault (Option PresignedUpload) :=
  if cfg.writeNarListing then do
    let hash ← hashPart path
    let s3FilePath := hash ++ ".ls"
    let url ← s3.sign s3FilePath
      (.presignedUrl s3FilePath "Failed to generate presigned URL for listing")
    return some
      { path := s3FilePath, url := url, compression := cfg.lsCompression
        compressionLevel := getCompressionLevel cfg }
  else .ok none

/-- The uploads of the debug info links, when the configuration asks for
them. -/
def debugInfoUploads (cfg : S3CacheConfig) (s3 : S3Client) (buildIds : List String) :
    Except Fault (List PresignedUpload) :=
  if cfg.writeDebugInfo && !buildIds.isEmpty then do
    let uploads ← buildIds.mapM (debugInfoUpload s3)
    return uploads.reduceOption
  else .ok []

/-- `generate_nar_upload_presigned_url`. -/
def generateNarUploadPresignedUrl (cfg : S3CacheConfig) (s3 : S3Client) (path : StorePath)
    (nix32NarHash : String) (debugInfoBuildIds : List String) :
    Except Fault PresignedUploadResponse := do
  let hash ← narHashUrl path nix32NarHash
  let narUrl := "nar/" ++ hash ++ "." ++ cfg.compression.ext
  let url ← s3.sign narUrl (.presignedUrl path.baseName "Failed to generate presigned URL for NAR")
  let lsUpload ← listingUpload cfg s3 path
  let debugInfoUpload ← debugInfoUploads cfg s3 debugInfoBuildIds
  return {
    narUrl := narUrl
    narUpload :=
      { path := narUrl, url := url, compression := cfg.compression
        compressionLevel := getCompressionLevel cfg }
    lsUpload := lsUpload
    debugInfoUpload := debugInfoUpload }

/-- `runner_v1::PresignedUpload` of an upload. -/
def encodeUpload (p : PresignedUpload) : PresignedUploadMessage where
  path := p.path
  url := p.url
  compression := p.compression.asStr
  compressionLevel := p.getCompressionLevelAsI32

/-- The message that `request_presigned_url` pushes for one path. -/
def encodeResponse (storePath : StorePath) (r : PresignedUploadResponse) :
    PresignedNarResponse where
  storePath := storePath.baseName
  narUrl := r.narUrl
  narUpload := some (encodeUpload r.narUpload)
  lsUpload := r.lsUpload.map encodeUpload
  debugInfoUpload := r.debugInfoUpload.map encodeUpload

/-- What the handlers know: the store, the parser of UUIDs, the first of the
remote stores with its signer, and the machines with their jobs. -/
structure Server where
  env : NixEnv
  parseUuid : String → Option Uuid
  remoteStore : Option S3CacheConfig
  keys : List String
  signString : String → String → String
  machine : Uuid → Bool
  job : Uuid → Uuid → Bool

/-- `StorePath::new` in a handler. -/
def Server.storePath (server : Server) (p : String) : Except HandlerFault StorePath :=
  (server.env.newStorePath p).mapError .panic

/-- `Uuid::parse_str` of a field. -/
def Server.uuid (server : Server) (field value : String) : Except HandlerFault Uuid :=
  match server.parseUuid value with
  | some id => .ok id
  | none => .error (.status (.invalidArgument (field ++ " is not a valid uuid.")))

/-- The first remote store. -/
def Server.firstRemoteStore (server : Server) : Except HandlerFault S3CacheConfig :=
  match server.remoteStore with
  | some cfg => .ok cfg
  | none => .error (.status (.failedPrecondition "No remote store configured"))

/-- What the client describes for one request of `request_presigned_url`. -/
def describeUploads (server : Server) (cfg : S3CacheConfig) (s3 : S3Client)
    (r : PresignedNarRequest) : Except HandlerFault (StorePath × PresignedUploadResponse) := do
  let storePath ← server.storePath r.storePath
  let response ← (generateNarUploadPresignedUrl cfg s3 storePath r.narHash
    r.debugInfoBuildIds).mapError (Fault.toHandler "Failed to generate presigned URL")
  return (storePath, response)

/-- One turn of the loop of `request_presigned_url`. -/
def presignRequest (server : Server) (cfg : S3CacheConfig) (s3 : S3Client)
    (r : PresignedNarRequest) : Except HandlerFault PresignedNarResponse := do
  let (storePath, response) ← describeUploads server cfg s3 r
  return encodeResponse storePath response

/-- `request_presigned_url`. -/
def requestPresignedUrl (server : Server) (s3 : S3Client) (req : PresignedUrlRequest) :
    Except HandlerFault (List PresignedNarResponse) := do
  let _buildId ← server.uuid "build_id" req.buildId
  let _machineId ← server.uuid "machine_id" req.machineId
  let cfg ← server.firstRemoteStore
  req.request.mapM (presignRequest server cfg s3)

/-! ## The builder -/

/-- `PresignedUpload::new` of a message.  A compression that does not parse
becomes none. -/
def decodeUpload (m : PresignedUploadMessage) : PresignedUpload :=
  PresignedUpload.new m.path m.url ((Compression.fromStr m.compression).toOption.getD .none)
    m.compressionLevel

/-- The `PresignedUploadResponse` of `upload_single_nar_presigned`; nothing
when the upload of the NAR is missing. -/
def decodeResponse (m : PresignedNarResponse) : Option PresignedUploadResponse :=
  m.narUpload.map (fun narUpload =>
    { narUrl := m.narUrl
      narUpload := decodeUpload narUpload
      lsUpload := m.lsUpload.map decodeUpload
      debugInfoUpload := m.debugInfoUpload.map decodeUpload })

/-! ## What the builder reads -/

/-- What the builder reads is what the queue runner has described, path by
path. -/
def WireFaithful (cfg : S3CacheConfig) : Prop :=
  ∀ (server : Server) (s3 : S3Client) (req : PresignedUrlRequest)
    (messages : List PresignedNarResponse),
    server.remoteStore = some cfg → requestPresignedUrl server s3 req = .ok messages →
      ∃ described, req.request.mapM (describeUploads server cfg s3) = .ok described ∧
        messages.map PresignedNarResponse.storePath =
          described.map (fun d => d.1.baseName) ∧
        messages.map decodeResponse = described.map (fun d => some d.2)

/-- The level that the builder makes of a level. -/
def wireLevel (level : Level) : Level :=
  (decodeUpload (encodeUpload ⟨"", "", .none, level⟩)).compressionLevel

theorem decodeUpload_encodeUpload (p : PresignedUpload) :
    decodeUpload (encodeUpload p) =
      { p with compressionLevel := wireLevel p.compressionLevel } := by
  simp only [decodeUpload, encodeUpload, Compression.fromStr_asStr, Except.toOption,
    Option.getD_some, PresignedUpload.new, wireLevel]
  rfl

theorem wireLevel_default : wireLevel .default = .default := by decide

/-- The levels that are read as they were written. -/
theorem wireLevel_precise_iff {l : Int32} :
    wireLevel (.precise l) = .precise l ↔ 2 ≤ l ∧ l ≤ 8 := by
  have hlevel : wireLevel (.precise l) = if l = 1 then Level.fastest
      else if 2 ≤ l ∧ l ≤ 8 then .precise l else if l = 9 then .best else .default := rfl
  rw [hlevel]
  by_cases hone : l = 1
  · subst hone
    decide
  by_cases hmid : 2 ≤ l ∧ l ≤ 8
  · simp [hone, hmid]
  · by_cases hnine : l = 9
    · subst hnine
      decide
    · simp [hone, hmid, hnine]

/-- The configured level survives the wire. -/
def LevelSurvives (cfg : S3CacheConfig) : Prop :=
  cfg.compressionLevel = none ∨ ∃ l, cfg.compressionLevel = some l ∧ 2 ≤ l ∧ l ≤ 8

theorem levelSurvives_iff {cfg : S3CacheConfig} :
    wireLevel (getCompressionLevel cfg) = getCompressionLevel cfg ↔ LevelSurvives cfg := by
  unfold LevelSurvives getCompressionLevel
  cases cfg.compressionLevel with
  | none => simp [wireLevel_default]
  | some l => simp [wireLevel_precise_iff]

/-! ## What the client describes -/

/-- The links are not compressed. -/
theorem debugInfoUpload_level {s3 : S3Client} {id : String} {o : Option PresignedUpload}
    (h : debugInfoUpload s3 id = .ok o) : ∀ u ∈ o, u.compressionLevel = .default := by
  unfold debugInfoUpload at h
  simp only at h
  split_ifs at h
  · obtain rfl := Except.ok.inj h
    intro u hu
    cases hu
  · obtain ⟨url, -, h⟩ := Fallible.bind_ok_iff.mp h
    obtain rfl := Except.ok.inj h
    intro u hu
    obtain rfl := Option.some.inj hu
    rfl

/-- The levels of the uploads of a path. -/
theorem generate_levels {cfg : S3CacheConfig} {s3 : S3Client} {path : StorePath} {hash : String}
    {ids : List String} {r : PresignedUploadResponse}
    (h : generateNarUploadPresignedUrl cfg s3 path hash ids = .ok r) :
    r.narUpload.compressionLevel = getCompressionLevel cfg ∧
      (∀ u ∈ r.lsUpload, u.compressionLevel = getCompressionLevel cfg) ∧
      ∀ u ∈ r.debugInfoUpload, u.compressionLevel = .default := by
  obtain ⟨narHash, -, h⟩ := Fallible.bind_ok_iff.mp h
  obtain ⟨url, -, h⟩ := Fallible.bind_ok_iff.mp h
  obtain ⟨ls, hls, h⟩ := Fallible.bind_ok_iff.mp h
  obtain ⟨debugInfo, hdebug, h⟩ := Fallible.bind_ok_iff.mp h
  obtain rfl := Except.ok.inj h
  refine ⟨rfl, ?_, ?_⟩
  · intro u hu
    unfold listingUpload at hls
    split_ifs at hls
    · obtain ⟨hash, -, hls⟩ := Fallible.bind_ok_iff.mp hls
      obtain ⟨url, -, hls⟩ := Fallible.bind_ok_iff.mp hls
      obtain rfl := Except.ok.inj hls
      obtain rfl := Option.some.inj hu
      rfl
    · obtain rfl := Except.ok.inj hls
      cases hu
  · intro u hu
    unfold debugInfoUploads at hdebug
    split_ifs at hdebug
    · obtain ⟨uploads, huploads, hdebug⟩ := Fallible.bind_ok_iff.mp hdebug
      obtain rfl := Except.ok.inj hdebug
      have hmem : some u ∈ uploads := List.reduceOption_mem_iff.mp hu
      obtain ⟨id, -, hid⟩ := Fallible.mapM_ok_exists huploads _ hmem
      exact debugInfoUpload_level hid u rfl
    · obtain rfl := Except.ok.inj hdebug
      cases hu

/-! ## When the description survives -/

theorem decodeResponse_encodeResponse {path : StorePath} {r : PresignedUploadResponse} :
    decodeResponse (encodeResponse path r) = some
      { r with
        narUpload := decodeUpload (encodeUpload r.narUpload)
        lsUpload := r.lsUpload.map (fun u => decodeUpload (encodeUpload u))
        debugInfoUpload := r.debugInfoUpload.map (fun u => decodeUpload (encodeUpload u)) } := by
  simp [decodeResponse, encodeResponse, Function.comp_def]

/-- A level that survives is read back. -/
theorem decodeUpload_eq {p : PresignedUpload}
    (h : wireLevel p.compressionLevel = p.compressionLevel) :
    decodeUpload (encodeUpload p) = p := by
  rw [decodeUpload_encodeUpload, h]

/-- The description of one path survives with the configured level. -/
theorem LevelSurvives.decodeResponse_eq {cfg : S3CacheConfig} (hcfg : LevelSurvives cfg)
    {s3 : S3Client} {path : StorePath} {hash : String} {ids : List String}
    {r : PresignedUploadResponse}
    (h : generateNarUploadPresignedUrl cfg s3 path hash ids = .ok r) :
    decodeResponse (encodeResponse path r) = some r := by
  obtain ⟨hnar, hls, hdebug⟩ := generate_levels h
  have hlevel := levelSurvives_iff.mpr hcfg
  have hlsUpload : r.lsUpload.map (fun u => decodeUpload (encodeUpload u)) = r.lsUpload := by
    cases hu : r.lsUpload with
    | none => rfl
    | some u =>
      have hsome : u.compressionLevel = getCompressionLevel cfg := hls u hu
      exact congrArg some (decodeUpload_eq (by rw [hsome, hlevel]))
  have hdebugInfo : r.debugInfoUpload.map (fun u => decodeUpload (encodeUpload u)) =
      r.debugInfoUpload := by
    conv => rhs; rw [← List.map_id r.debugInfoUpload]
    exact List.map_congr_left
      (fun u hu => decodeUpload_eq (by rw [hdebug u hu, wireLevel_default]))
  rw [decodeResponse_encodeResponse, hlsUpload, hdebugInfo,
    decodeUpload_eq (by rw [hnar, hlevel])]

/-- The messages are the encoded descriptions, in the order of the
requests. -/
theorem mapM_presignRequest {server : Server} {cfg : S3CacheConfig} {s3 : S3Client}
    {reqs : List PresignedNarRequest} {messages : List PresignedNarResponse}
    (h : reqs.mapM (presignRequest server cfg s3) = .ok messages) :
    ∃ described, reqs.mapM (describeUploads server cfg s3) = .ok described ∧
      messages = described.map (fun d => encodeResponse d.1 d.2) := by
  induction reqs generalizing messages with
  | nil =>
    obtain rfl := Except.ok.inj h
    exact ⟨[], rfl, rfl⟩
  | cons r reqs ih =>
    obtain ⟨message, rest, hmessage, hrest, rfl⟩ := Fallible.mapM_cons_ok h
    obtain ⟨d, hd, hmessage⟩ := Fallible.bind_ok_iff.mp hmessage
    obtain rfl := Except.ok.inj hmessage
    obtain ⟨described, hdescribed, rfl⟩ := ih hrest
    refine ⟨d :: described, ?_, rfl⟩
    rw [List.mapM_cons, hd, hdescribed]
    rfl

theorem LevelSurvives.wireFaithful {cfg : S3CacheConfig} (hcfg : LevelSurvives cfg) :
    WireFaithful cfg := by
  intro server s3 req messages hstore h
  obtain ⟨_, -, h⟩ := Fallible.bind_ok_iff.mp h
  obtain ⟨_, -, h⟩ := Fallible.bind_ok_iff.mp h
  obtain ⟨cfg', hcfg', h⟩ := Fallible.bind_ok_iff.mp h
  rw [Server.firstRemoteStore, hstore] at hcfg'
  obtain rfl := Except.ok.inj hcfg'
  obtain ⟨described, hdescribed, rfl⟩ := mapM_presignRequest h
  refine ⟨described, hdescribed, by simp [encodeResponse, Function.comp_def], ?_⟩
  rw [List.map_map]
  refine List.map_congr_left (fun d hd => ?_)
  obtain ⟨r, -, hd⟩ := Fallible.mapM_ok_exists hdescribed d hd
  obtain ⟨path, -, hd⟩ := Fallible.bind_ok_iff.mp hd
  obtain ⟨response, hresponse, hd⟩ := Fallible.bind_ok_iff.mp hd
  obtain rfl := Except.ok.inj hd
  exact hcfg.decodeResponse_eq (Fallible.mapError_ok_iff.mp hresponse)

end QueueRunner.Wire

namespace QueueRunner.Sample

open Wire

/-- An S3 without objects that signs every URL. -/
def emptyS3 : S3Client where
  signedUrl key := some ("https://s3/" ++ key)
  headObject _ := some false

/-- A queue runner with one machine, one job and one remote store. -/
def server (cfg : S3CacheConfig) : Server where
  env := nixEnv
  parseUuid _ := some 0
  remoteStore := some cfg
  keys := []
  signString key fp := key ++ ":" ++ fp
  machine _ := true
  job _ _ := true

/-- The request of one path without debug info. -/
def helloRequest : PresignedUrlRequest where
  buildId := "0"
  machineId := "0"
  request := [⟨helloNarInfo.storePath.baseName, helloNarInfo.narHash, []⟩]

end QueueRunner.Sample

namespace QueueRunner.Wire

/-- One path is described whatever the configuration is. -/
theorem describeUploads_hello (cfg : S3CacheConfig) :
    ∃ d, describeUploads (Sample.server cfg) cfg Sample.emptyS3
        ⟨Sample.helloNarInfo.storePath.baseName, Sample.helloNarInfo.narHash, []⟩ = .ok d ∧
      d.2.narUpload.compressionLevel = getCompressionLevel cfg := by
  have hhash : Sample.helloNarInfo.storePath.hashPartChecked =
      .ok "26xbg1ndr7hbcncrlf9nhx5is2b25d13" := by decide
  have hpath : (Sample.server cfg).storePath Sample.helloNarInfo.storePath.baseName =
      .ok Sample.helloNarInfo.storePath := by
    have hnew : Sample.nixEnv.newStorePath Sample.helloNarInfo.storePath.baseName =
        .ok Sample.helloNarInfo.storePath := by decide
    simp only [Server.storePath, Sample.server, hnew]
    rfl
  obtain ⟨ls, hls⟩ : ∃ ls, listingUpload cfg Sample.emptyS3 Sample.helloNarInfo.storePath =
      .ok ls := by
    unfold listingUpload
    split_ifs
    · exact ⟨_, Fallible.bind_ok_iff.mpr ⟨_, by rw [hashPart, hhash]; rfl, rfl⟩⟩
    · exact ⟨_, rfl⟩
  have hdebug : debugInfoUploads cfg Sample.emptyS3 [] = .ok [] := by
    simp [debugInfoUploads]
  have hgenerate : ∃ r, generateNarUploadPresignedUrl cfg Sample.emptyS3
      Sample.helloNarInfo.storePath Sample.helloNarInfo.narHash [] = .ok r :=
    ⟨_, Fallible.bind_ok_iff.mpr ⟨_, rfl, Fallible.bind_ok_iff.mpr ⟨_, rfl,
      Fallible.bind_ok_iff.mpr ⟨_, hls, Fallible.bind_ok_iff.mpr ⟨_, hdebug, rfl⟩⟩⟩⟩⟩
  obtain ⟨r, hr⟩ := hgenerate
  refine ⟨_, Fallible.bind_ok_iff.mpr ⟨_, hpath, Fallible.bind_ok_iff.mpr
    ⟨r, Fallible.mapError_ok_iff.mpr hr, rfl⟩⟩, (generate_levels hr).1⟩

theorem WireFaithful.levelSurvives {cfg : S3CacheConfig} (h : WireFaithful cfg) :
    LevelSurvives cfg := by
  obtain ⟨d, hd, hlevel⟩ := describeUploads_hello cfg
  have hrequest : requestPresignedUrl (Sample.server cfg) Sample.emptyS3 Sample.helloRequest =
      .ok [encodeResponse d.1 d.2] := by
    refine Fallible.bind_ok_iff.mpr ⟨_, rfl, Fallible.bind_ok_iff.mpr ⟨_, rfl,
      Fallible.bind_ok_iff.mpr ⟨cfg, rfl, ?_⟩⟩⟩
    rw [Sample.helloRequest, List.mapM_cons, presignRequest, hd]
    rfl
  obtain ⟨described, hdescribed, -, hdecoded⟩ := h _ _ _ _ rfl hrequest
  rw [Sample.helloRequest, List.mapM_cons, hd] at hdescribed
  obtain rfl := Except.ok.inj hdescribed
  have hhead : decodeResponse (encodeResponse d.1 d.2) = some d.2 := (List.cons.inj hdecoded).1
  rw [decodeResponse_encodeResponse] at hhead
  have hnar := congrArg (fun r : PresignedUploadResponse => r.narUpload.compressionLevel)
    (Option.some.inj hhead)
  simp only [decodeUpload_encodeUpload, hlevel] at hnar
  exact levelSurvives_iff.mp hnar

/-- The description of the uploads survives the wire exactly when no level is
configured or it is between 2 and 8. -/
theorem wireFaithful_iff (cfg : S3CacheConfig) : WireFaithful cfg ↔ LevelSurvives cfg :=
  ⟨WireFaithful.levelSurvives, LevelSurvives.wireFaithful⟩

/-- The level 19 becomes the default. -/
theorem wireFaithful_fails : ¬ ∀ cfg : S3CacheConfig, WireFaithful cfg := by
  intro h
  have hlevel := (h { clientConfig := { bucket := "cache" }, compression := .zstd
                      compressionLevel := some 19 }).levelSurvives
  obtain hnone | ⟨l, hl, -, hle⟩ := hlevel
  · cases hnone
  · obtain rfl := Option.some.inj hl
    exact absurd hle (by decide)

end QueueRunner.Wire
