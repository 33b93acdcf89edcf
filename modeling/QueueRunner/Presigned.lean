import QueueRunner.AppConfig
import QueueRunner.BinaryCache
import QueueRunner.Lib.Fallible

/-!
# Uploads by presigned URLs

A builder can upload a path by itself.  It asks the queue runner for a
presigned URL, uploads the NAR, and sends back what the narinfo needs; the
queue runner signs the narinfo and uploads it.  The parts are
`upload_nars_presigned` of `builder/src/state.rs`, the two handlers of
`server/grpc.rs`, and `crates/binary-cache`.

The direct route is `copy_path`.  Both routes read the same path info, so
they should publish the same narinfo.  `sameNarinfo_iff` says when they do:
the hash of the path info must be in base 32 already, since a hash that is
converted loses its prefix, and without signing keys the path must have no
signatures of its own, since only the direct route keeps them.

`Signer` is what both routes need for the signatures: the store directory,
the keys of the client, and `sign_string`.
-/

namespace QueueRunner

/-- What the signatures depend on. -/
structure Signer where
  /-- `get_store_dir`, which is also the prefix of the local store. -/
  storeDir : String
  /-- `signing_keys`. -/
  keys : List String
  /-- `sign_string` on a key and a fingerprint. -/
  signString : String → String → String

namespace Signer

/-- `print_store_path`. -/
def printStorePath (signer : Signer) (p : StorePath) : String :=
  signer.storeDir ++ "/" ++ p.baseName

/-- `StorePath::new`.  `STORE_DIR` is the store directory with a slash at its
end. -/
def storePath (signer : Signer) (p : String) : StorePath :=
  StorePath.new
    (if signer.storeDir.toList.getLast? = some '/' then signer.storeDir
      else signer.storeDir ++ "/") p

end Signer

namespace NarInfo

/-- `NarInfo::fingerprint_path`. -/
def fingerprintPath (signer : Signer) (n : NarInfo) : Option String :=
  if startsWith signer.storeDir (signer.printStorePath n.storePath) = false ∨
      startsWith "sha256:" n.narHash = false then none
  else if n.narHash.utf8ByteSize ≠ 59 then none
  else
    let refs := n.references.map signer.printStorePath
    if refs.any (fun r => !startsWith signer.storeDir r) then none
    else some ("1;" ++ signer.printStorePath n.storePath ++ ";" ++ n.narHash ++ ";" ++
      toString n.narSize ++ ";" ++ String.intercalate "," refs)

/-- `NarInfo::clear_sigs_and_sign`. -/
def clearSigsAndSign (signer : Signer) (n : NarInfo) : NarInfo :=
  if signer.keys = [] then { n with sigs := [] }
  else
    match n.fingerprintPath signer with
    | some fp => { n with sigs := signer.keys.map (fun key => signer.signString key fp) }
    | none => { n with sigs := [] }

/-- `NarInfo::simple`. -/
def simple (codecs : Codecs) (path : StorePath) (info : PathInfo) (compression : Compression) :
    NarInfo :=
  let narHash :=
    if info.narHash.utf8ByteSize = 71 then
      (codecs.convertHash (String.ofList (info.narHash.toList.drop 7))).getD info.narHash
    else info.narHash
  let narHashUrl := (stripPrefix "sha256:" narHash).getD path.hashPart
  { storePath := path
    url := .nar narHashUrl compression.ext
    compression := compression
    narHash := narHash
    narSize := info.narSize
    references := info.refs
    deriver := info.deriver
    ca := info.ca
    sigs := [] }

end NarInfo

/-- The packages of the client with the signatures of `clear_sigs_and_sign`. -/
def Codecs.signed (codecs : Codecs) (signer : Signer) : Codecs :=
  { codecs with
    sign := fun n => (n.clearSigsAndSign signer).sigs
    printStorePath := signer.printStorePath }

/-! ## The messages -/

/-- `PresignedNarRequest`. -/
structure PresignedNarRequest where
  storePath : String
  narHash : String

/-- `PresignedNarResponse`: the URL and the compression of the NAR. -/
structure PresignedNarResponse where
  storePath : String
  narUrl : ObjectKey
  compression : Compression

/-- `PresignedUploadComplete`. -/
structure PresignedUploadComplete where
  storePath : String
  url : ObjectKey
  compression : Compression
  fileHash : String
  fileSize : Nat
  narHash : String
  narSize : Nat
  references : List String
  deriver : Option String
  ca : Option String

/-- How the route ends when it fails. -/
inductive PresignedError where
  | cache (e : CacheError)
  /-- `signed_url` fails. -/
  | presignedUrl
  /-- The builder does not know the path. -/
  | mismatch
  /-- The machine or the job is not known. -/
  | notFound
deriving DecidableEq, Repr

/-- What the stores, the clients and S3 answer along the route. -/
structure PresignedAnswers where
  /-- The store of the builder: the path info and the paths that
  `query_path_infos` finds. -/
  pathInfo : Option PathInfo
  valid : List StorePath
  signedUrl : Bool := true
  /-- The uploads of the builder: the listing, the debug info, and the NAR
  with its hash and its length. -/
  listing : Except CacheError Unit := .ok ()
  debugInfo : Except CacheError Unit := .ok ()
  upload : Except CacheError (String × Nat)
  /-- The machine and its job are known to the queue runner. -/
  job : Bool := true
  /-- What `head_object` finds. -/
  headLs : Except CacheError Bool := .ok true
  headNar : Except CacheError Bool := .ok true
  narinfoTransfer : Transfer := {}

/-! ## The queue runner and the builder -/

section Route

variable (codecs : Codecs) (signer : Signer) (cfg : CacheConfig)

/-- The operator `?` of the handlers. -/
def presigned {α : Type} (a : Except CacheError α) : Except PresignedError α :=
  a.mapError .cache

/-- An operation that depends on a setting. -/
def whenSet (setting : Bool) (a : Except CacheError Unit) : Except CacheError Unit :=
  if setting then a else .ok ()

/-- The URL of the NAR in `generate_nar_upload_presigned_url`. -/
def presignedNarUrl (path : StorePath) (nix32NarHash : String) : ObjectKey :=
  .nar ((stripPrefix "sha256:" nix32NarHash).getD path.hashPart) cfg.compression.ext

/-- `request_presigned_url` for one path. -/
def requestPresignedUrl (req : PresignedNarRequest) (ans : PresignedAnswers) :
    Except PresignedError PresignedNarResponse :=
  let storePath := signer.storePath req.storePath
  if ans.signedUrl then
    .ok
      { storePath := storePath.baseName
        narUrl := presignedNarUrl cfg storePath req.narHash
        compression := cfg.compression }
  else .error .presignedUrl

/-- `path_to_narinfo` of the builder. -/
def builderNarinfo (path : StorePath) (ans : PresignedAnswers) : Except CacheError NarInfo :=
  match ans.pathInfo with
  | none => .error (.pathNotFound path)
  | some info =>
    let narinfo := NarInfo.simple codecs path info .none
    match narinfo.references.find? (fun r => r ∉ ans.valid) with
    | some r => .error (.referenceVerify narinfo.storePath r)
    | none => .ok narinfo

/-- `process_presigned_request`. -/
def processPresignedRequest (narinfo : NarInfo) (res : PresignedNarResponse)
    (ans : PresignedAnswers) : Except CacheError NarInfo := do
  let narinfo := { narinfo with url := res.narUrl, compression := res.compression }
  whenSet cfg.writeNarListing ans.listing
  whenSet cfg.writeDebugInfo ans.debugInfo
  let (fileHash, fileSize) ← ans.upload
  return { narinfo with fileHash := some fileHash, fileSize := some fileSize }

/-- The completion message of `upload_single_nar_presigned`. -/
def completionMessage (narPath : StorePath) (n : NarInfo) : Option PresignedUploadComplete :=
  match n.fileHash, n.fileSize with
  | some fileHash, some fileSize => some
    { storePath := narPath.baseName
      url := n.url
      compression := n.compression
      fileHash := fileHash
      fileSize := fileSize
      narHash := n.narHash
      narSize := n.narSize
      references := n.references.map StorePath.baseName
      deriver := n.deriver.map StorePath.baseName
      ca := n.ca }
  | _, _ => none

/-- The narinfo that `notify_presigned_upload_complete` makes of a message. -/
def completedNarinfo (req : PresignedUploadComplete) : NarInfo :=
  { storePath := signer.storePath req.storePath
    url := req.url
    compression := cfg.compression
    fileHash := some req.fileHash
    fileSize := some req.fileSize
    narHash := req.narHash
    narSize := req.narSize
    references := req.references.map signer.storePath
    deriver := req.deriver.map signer.storePath
    ca := req.ca
    sigs := [] }

/-- One `head_object` of `upload_narinfo_after_presigned_upload`. -/
def requireObject (path : StorePath) (head : Except CacheError Bool) : Except CacheError Unit :=
  match head with
  | .error e => .error e
  | .ok true => .ok ()
  | .ok false => .error (.pathNotFound path)

/-- `upload_narinfo_after_presigned_upload` up to the upload: the narinfo
that it hands to `upload_narinfo`. -/
def signAfterPresignedUpload (n : NarInfo) (ans : PresignedAnswers) :
    Except CacheError NarInfo := do
  whenSet cfg.writeNarListing (requireObject n.storePath ans.headLs)
  requireObject n.storePath ans.headNar
  return n.clearSigsAndSign signer

/-- `notify_presigned_upload_complete` up to the upload of the narinfo. -/
def notifyPresignedUploadComplete (req : PresignedUploadComplete) (ans : PresignedAnswers) :
    Except PresignedError NarInfo :=
  if ans.job then
    presigned (signAfterPresignedUpload signer cfg (completedNarinfo signer cfg req) ans)
  else .error .notFound

/-- The route for one path, from `upload_nars_presigned` to the narinfo that
the queue runner uploads. -/
def presignedRoute (path : StorePath) (ans : PresignedAnswers) :
    Except PresignedError (Option NarInfo) := do
  match ans.pathInfo with
  | none => throw .mismatch
  | some info =>
    let res ← requestPresignedUrl signer cfg ⟨path.baseName, info.narHash⟩ ans
    let narPath := signer.storePath res.storePath
    let narinfo ← presigned (builderNarinfo codecs narPath ans)
    let updated ← presigned (processPresignedRequest cfg narinfo res ans)
    match completionMessage narPath updated with
    | none => return none
    | some req =>
      let published ← notifyPresignedUploadComplete signer cfg req ans
      return some published

end Route

/-! ## The narinfos of the two ways -/

/-- The two narinfos have the fields in common that a client reads. -/
structure NarInfo.Agrees (n n' : NarInfo) : Prop where
  url : n.url = n'.url
  narHash : n.narHash = n'.narHash
  narSize : n.narSize = n'.narSize
  references : n.references = n'.references
  deriver : n.deriver = n'.deriver
  ca : n.ca = n'.ca
  sigs : n.sigs = n'.sigs

/-- A hash in base 16 or in Nix's base 32, with its algorithm. -/
structure NarHashForm (hash : String) : Prop where
  algorithm : ∃ digest, hash = "sha256:" ++ digest
  size : hash.utf8ByteSize = 71 ∨ hash.utf8ByteSize = 59

section Narinfos

variable (codecs : Codecs) (signer : Signer)

/-- The digest of the path info in base 32. -/
def PathInfo.nix32Digest (info : PathInfo) : Option String :=
  if info.narHash.utf8ByteSize = 71 then
    codecs.convertHash (String.ofList (info.narHash.toList.drop 7))
  else stripPrefix "sha256:" info.narHash

/-- `copy_path` hands the narinfo to `upload_narinfo`. -/
def CopyUploads (cfg : CacheConfig) (path : StorePath) (info : PathInfo) (n : NarInfo) : Prop :=
  ∃ repair ans b b', ans.pathInfo = some info ∧
    copyPath (codecs.signed signer) cfg path repair ans b = .ok (some n) b'

/-- The presigned route hands the narinfo to `upload_narinfo`. -/
def PresignedUploads (cfg : CacheConfig) (path : StorePath) (info : PathInfo) (n : NarInfo) :
    Prop :=
  ∃ ans, ans.pathInfo = some info ∧ presignedRoute codecs signer cfg path ans = .ok (some n)

/-- The hash has the form `sha256:` and the digest in base 32, and there is
one signature for each key. -/
structure NarInfo.Signed (info : PathInfo) (n : NarInfo) : Prop where
  narHash : ∃ digest, info.nix32Digest codecs = some digest ∧ n.narHash = "sha256:" ++ digest
  sigs : ∃ fp, n.fingerprintPath signer = some fp ∧
    n.sigs = signer.keys.map (fun key => signer.signString key fp)

/-- Both routes upload the same narinfo, with its hash and its signatures. -/
def SameNarinfo (compression : Compression) (path : StorePath) (info : PathInfo) : Prop :=
  ∀ cfg : CacheConfig, cfg.compression = compression → ∀ n n',
    CopyUploads codecs signer cfg path info n → PresignedUploads codecs signer cfg path info n' →
      n.Agrees n' ∧ n.Signed codecs signer info

end Narinfos

/-! ## The direct route -/

section Direct

variable {codecs : Codecs} {signer : Signer} {cfg : CacheConfig} {path : StorePath}
  {info : PathInfo} {n : NarInfo}

/-- The hash and the size of the file change no other field. -/
theorem NarInfo.withFile_fields (codecs : Codecs) (n : NarInfo) (file : Bytes) :
    ∃ fileHash fileSize, n.withFile codecs file =
      { n with fileHash := fileHash, fileSize := fileSize } := by
  unfold NarInfo.withFile
  cases codecs.convertHash (codecs.sha256 file) with
  | none => exact ⟨n.fileHash, n.fileSize, rfl⟩
  | some hash => exact ⟨_, _, rfl⟩

/-- `copy_path` uploads the narinfo of the path info, with the hash and the
size of the file. -/
theorem CopyUploads.eq (h : CopyUploads codecs signer cfg path info n) :
    ∃ fileHash fileSize, n =
      { NarInfo.new (codecs.signed signer) path info cfg.compression with
        fileHash := fileHash, fileSize := fileSize } := by
  obtain ⟨repair, ans, b, b', hinfo, h⟩ := h
  rw [copyPath, CacheM.bind_ok_iff] at h
  obtain ⟨present, b₀, -, h⟩ := h
  cases present with
  | true =>
    simp only [if_true, CacheM.pure_ok_iff] at h
    exact absurd h.1 (by simp)
  | false =>
    simp only [Bool.false_eq_true, if_false, CacheM.bind_ok_iff, answer_ok_iff] at h
    obtain ⟨narinfo, _, ⟨hvalid, rfl⟩, ⟨⟩, b₁, -, ⟨⟩, b₂, -, n', b₃, hnar, ⟨⟩, b₄, -, ⟨⟩, b₅, -,
      hpure⟩ := h
    obtain ⟨heq, rfl⟩ := CacheM.pure_ok_iff.mp hpure
    obtain rfl := Option.some.inj heq
    have hnarinfo : narinfo = NarInfo.new (codecs.signed signer) path info cfg.compression := by
      simp only [pathToNarinfo, hinfo] at hvalid
      split at hvalid
      · cases hvalid
      · exact (Except.ok.inj hvalid).symm
    simp only [copyNar, CacheM.bind_ok_iff, answer_ok_iff, CacheM.pure_ok_iff] at hnar
    obtain ⟨reader, b₆, -, file, b₇, -, rfl, -⟩ := hnar
    rw [← hnarinfo]
    exact NarInfo.withFile_fields _ narinfo file

/-- With answers that all succeed `copy_path` uploads a narinfo. -/
theorem copyUploads_exists (codecs : Codecs) (signer : Signer) (compression : Compression)
    (path : StorePath) (info : PathInfo) :
    ∃ n, CopyUploads codecs signer { compression := compression } path info n := by
  let ans : CopyAnswers := { pathInfo := some info, valid := info.refs, nar := [], sent := 0 }
  let narinfo := NarInfo.new (codecs.signed signer) path info compression
  have hpublishes : Publishes (codecs.signed signer) { compression := compression } path false
      ans narinfo := by
    refine
      { buffer := Nat.zero_lt_succ _
        missing := .inr rfl
        valid := ?_
        listing := fun h => by cases h
        debugInfo := fun h => by cases h
        nar := S3Answers.returns_of_stores (Sample.stores_default _ _)
        narEnd := by simp [ans, S3Answers.readsToEnd, S3Answers.parts]
        realisations := fun h => by cases h
        stored := Sample.stores_default _ _ }
    have hrefs : narinfo.references.find? (fun r => r ∉ ans.valid) = none := by
      apply List.find?_eq_none.mpr
      intro r hr
      have hvalid : r ∈ ans.valid := hr
      simpa using hvalid
    simp only [pathToNarinfo, ans]
    split
    · rename_i r hr
      rw [hrefs] at hr
      cases hr
    · rfl
  obtain ⟨b', hcopy, -⟩ := @copyPath_of_publishes _ _ _ _ _ ∅ _ hpublishes
  exact ⟨_, false, ans, _, b', rfl, hcopy⟩

end Direct

/-! ## The presigned route -/

/-- The name of a store path is one component of a file path. -/
def StorePath.IsComponent (p : StorePath) : Prop := '/' ∉ p.baseName.toList

/-- The path of the path info and the paths it names are store paths. -/
structure PathInfo.WellFormed (path : StorePath) (info : PathInfo) : Prop where
  path : path.IsComponent
  refs : ∀ r ∈ info.refs, r.IsComponent
  deriver : ∀ d, info.deriver = some d → d.IsComponent

theorem stripPrefix_of_isComponent {p : StorePath} (hp : p.IsComponent) {dir : String}
    (hdir : '/' ∈ dir.toList) : stripPrefix dir p.baseName = none := by
  cases hstrip : stripPrefix dir p.baseName with
  | none => rfl
  | some rest =>
    rw [stripPrefix_eq_some_iff] at hstrip
    refine absurd ?_ hp
    rw [hstrip]
    simp [hdir]

section Presigned

variable {codecs : Codecs} {signer : Signer} {cfg : CacheConfig} {path : StorePath}
  {info : PathInfo} {n : NarInfo}

/-- A store path comes back from its name. -/
theorem Signer.storePath_baseName (signer : Signer) {p : StorePath} (hp : p.IsComponent) :
    signer.storePath p.baseName = p := by
  have hslash : '/' ∈ (if signer.storeDir.toList.getLast? = some '/' then signer.storeDir
      else signer.storeDir ++ "/").toList := by
    split_ifs with hlast
    · exact List.mem_of_getLast? hlast
    · simp
  have hroot : '/' ∈ "/".toList := by decide
  simp only [Signer.storePath, StorePath.new, stripPrefix_of_isComponent hp hslash,
    stripPrefix_of_isComponent hp hroot, Option.getD_none]

/-- What the queue runner uploads at the end of the route. -/
def presignedNarinfo (codecs : Codecs) (signer : Signer) (cfg : CacheConfig) (path : StorePath)
    (info : PathInfo) (fileHash : String) (fileSize : Nat) : NarInfo :=
  ({ NarInfo.simple codecs path info cfg.compression with
      url := presignedNarUrl cfg path info.narHash
      fileHash := some fileHash
      fileSize := some fileSize } : NarInfo).clearSigsAndSign signer

/-- The queue runner rebuilds the narinfo of the builder from its message. -/
theorem completedNarinfo_eq (hwf : info.WellFormed path) (fileHash : String) (fileSize : Nat) :
    completedNarinfo signer cfg
      { storePath := path.baseName
        url := presignedNarUrl cfg path info.narHash
        compression := cfg.compression
        fileHash := fileHash
        fileSize := fileSize
        narHash := (NarInfo.simple codecs path info .none).narHash
        narSize := info.narSize
        references := info.refs.map StorePath.baseName
        deriver := info.deriver.map StorePath.baseName
        ca := info.ca } =
      { NarInfo.simple codecs path info cfg.compression with
        url := presignedNarUrl cfg path info.narHash
        fileHash := some fileHash
        fileSize := some fileSize } := by
  have hrefs : (info.refs.map StorePath.baseName).map signer.storePath = info.refs := by
    rw [List.map_map]
    conv => rhs; rw [← List.map_id info.refs]
    exact List.map_congr_left (fun r hr => signer.storePath_baseName (hwf.refs r hr))
  have hderiver : (info.deriver.map StorePath.baseName).map signer.storePath = info.deriver := by
    cases hd : info.deriver with
    | none => rfl
    | some d => simp [signer.storePath_baseName (hwf.deriver d hd)]
  simp only [completedNarinfo, NarInfo.simple, hrefs, hderiver,
    signer.storePath_baseName hwf.path]

theorem presigned_ok_iff {α : Type} {a : Except CacheError α} {v : α} :
    presigned a = .ok v ↔ a = .ok v := by
  rw [presigned, Fallible.mapError_ok_iff]

/-- The request names the path, and the URL is made from its hash. -/
theorem requestPresignedUrl_ok (hpath : path.IsComponent) {narHash : String}
    {ans : PresignedAnswers} {res : PresignedNarResponse}
    (h : requestPresignedUrl signer cfg ⟨path.baseName, narHash⟩ ans = .ok res) :
    res = ⟨path.baseName, presignedNarUrl cfg path narHash, cfg.compression⟩ := by
  simp only [requestPresignedUrl, signer.storePath_baseName hpath] at h
  split_ifs at h
  exact (Except.ok.inj h).symm

/-- The builder changes the URL and the compression, and adds the file. -/
theorem processPresignedRequest_ok {narinfo : NarInfo} {res : PresignedNarResponse}
    {ans : PresignedAnswers} (h : processPresignedRequest cfg narinfo res ans = .ok n) :
    ∃ fileHash fileSize, n =
      { narinfo with
        url := res.narUrl
        compression := res.compression
        fileHash := some fileHash
        fileSize := some fileSize } := by
  simp only [processPresignedRequest, Fallible.bind_ok_iff] at h
  obtain ⟨_, -, _, -, ⟨fileHash, fileSize⟩, -, h⟩ := h
  exact ⟨fileHash, fileSize, (Except.ok.inj h).symm⟩

/-- The route uploads the narinfo of the path info under the URL that the
queue runner has given. -/
theorem PresignedUploads.eq (hwf : info.WellFormed path)
    (h : PresignedUploads codecs signer cfg path info n) :
    ∃ fileHash fileSize,
      n = presignedNarinfo codecs signer cfg path info fileHash fileSize := by
  obtain ⟨ans, hinfo, h⟩ := h
  simp only [presignedRoute, hinfo, Fallible.bind_ok_iff, presigned_ok_iff] at h
  obtain ⟨res, hres, narinfo, hnarinfo, updated, hupdated, h⟩ := h
  obtain rfl := requestPresignedUrl_ok hwf.path hres
  rw [signer.storePath_baseName hwf.path] at hnarinfo h
  have hsimple : narinfo = NarInfo.simple codecs path info .none := by
    simp only [builderNarinfo, hinfo] at hnarinfo
    split at hnarinfo
    · cases hnarinfo
    · exact (Except.ok.inj hnarinfo).symm
  obtain ⟨fileHash, fileSize, rfl⟩ := processPresignedRequest_ok hupdated
  simp only [completionMessage, hsimple, Fallible.bind_ok_iff] at h
  obtain ⟨published, hpublished, h⟩ := h
  obtain rfl := Option.some.inj (Except.ok.inj h)
  simp only [notifyPresignedUploadComplete] at hpublished
  split_ifs at hpublished
  rw [presigned_ok_iff] at hpublished
  simp only [signAfterPresignedUpload, Fallible.bind_ok_iff] at hpublished
  obtain ⟨_, -, _, -, hpublished⟩ := hpublished
  refine ⟨fileHash, fileSize, ?_⟩
  rw [presignedNarinfo, ← completedNarinfo_eq hwf]
  exact (Except.ok.inj hpublished).symm

/-- With answers that all succeed the route uploads a narinfo. -/
theorem presignedUploads_exists (codecs : Codecs) (signer : Signer) (compression : Compression)
    (hwf : info.WellFormed path) :
    ∃ n, PresignedUploads codecs signer { compression := compression } path info n := by
  let ans : PresignedAnswers :=
    { pathInfo := some info, valid := info.refs, upload := .ok ("sha256:", 0) }
  have hnarinfo : builderNarinfo codecs path ans = .ok (NarInfo.simple codecs path info .none) := by
    have hrefs : (NarInfo.simple codecs path info .none).references.find?
        (fun r => r ∉ ans.valid) = none := by
      apply List.find?_eq_none.mpr
      intro r hr
      have hvalid : r ∈ ans.valid := hr
      simpa using hvalid
    simp only [builderNarinfo, ans]
    split
    · rename_i r hr
      rw [hrefs] at hr
      cases hr
    · rfl
  have hinfo : ans.pathInfo = some info := rfl
  refine ⟨presignedNarinfo codecs signer { compression := compression } path info "sha256:" 0,
    ans, hinfo, ?_⟩
  simp only [presignedRoute, hinfo, Fallible.bind_ok_iff, presigned_ok_iff]
  refine ⟨⟨path.baseName, presignedNarUrl { compression := compression } path info.narHash,
    compression⟩, ?_, ?_⟩
  · simp [requestPresignedUrl, signer.storePath_baseName hwf.path, ans]
  · rw [signer.storePath_baseName hwf.path]
    refine ⟨_, hnarinfo, _, rfl, ?_⟩
    rw [presignedNarinfo, ← completedNarinfo_eq hwf]
    rfl

end Presigned

/-! ## When the routes agree -/

section Agreement

variable {codecs : Codecs} {signer : Signer} {cfg : CacheConfig} {path : StorePath}
  {info : PathInfo} {n n' : NarInfo}

theorem startsWith_append (p s : String) : startsWith p (p ++ s) = true := by
  simp [startsWith]

/-- A hash of the right form and length has a fingerprint. -/
theorem NarInfo.fingerprintPath_exists (hhash : ∃ digest, n.narHash = "sha256:" ++ digest)
    (hsize : n.narHash.utf8ByteSize = 59) : ∃ fp, n.fingerprintPath signer = some fp := by
  obtain ⟨digest, hdigest⟩ := hhash
  have hprint : ∀ p, startsWith signer.storeDir (signer.printStorePath p) = true := by
    intro p
    rw [Signer.printStorePath, String.append_assoc]
    exact startsWith_append _ _
  have hrefs : (n.references.map signer.printStorePath).any
      (fun r => !startsWith signer.storeDir r) = false := by
    simp [hprint]
  have hstarts : startsWith "sha256:" n.narHash = true := by
    rw [hdigest]
    exact startsWith_append _ _
  simp only [NarInfo.fingerprintPath, hprint, hstarts, hsize, hrefs]
  exact ⟨_, rfl⟩

/-- The fingerprint reads four fields. -/
theorem NarInfo.fingerprintPath_congr (hpath : n.storePath = n'.storePath)
    (hhash : n.narHash = n'.narHash) (hsize : n.narSize = n'.narSize)
    (hrefs : n.references = n'.references) :
    n.fingerprintPath signer = n'.fingerprintPath signer := by
  simp only [NarInfo.fingerprintPath, hpath, hhash, hsize, hrefs]

/-- A narinfo with a fingerprint gets one signature for each key. -/
theorem NarInfo.clearSigsAndSign_eq {fp : String} (hfp : n.fingerprintPath signer = some fp) :
    n.clearSigsAndSign signer =
      { n with sigs := signer.keys.map (fun key => signer.signString key fp) } := by
  unfold NarInfo.clearSigsAndSign
  split_ifs with hkeys
  · simp [hkeys]
  · simp [hfp]

/-- A hash in base 32 is taken over as it is. -/
theorem NarInfo.simple_narHash (codecs : Codecs) (path : StorePath) (compression : Compression)
    (hsize : info.narHash.utf8ByteSize = 59) :
    (NarInfo.simple codecs path info compression).narHash = info.narHash := by
  simp [NarInfo.simple, hsize]

/-- A hash in base 16 loses its prefix when it is converted. -/
theorem NarInfo.simple_narHash_of_base16 (path : StorePath) (compression : Compression)
    (hsize : info.narHash.utf8ByteSize = 71) {digest : String}
    (hdigest : info.nix32Digest codecs = some digest) :
    (NarInfo.simple codecs path info compression).narHash = digest := by
  simp only [PathInfo.nix32Digest, hsize, if_true] at hdigest
  simp [NarInfo.simple, hsize, hdigest]

/-- `NarInfo::new` is `NarInfo::simple` with the signatures of the client,
or those of the path when the client makes none. -/
theorem NarInfo.new_eq (codecs : Codecs) (signer : Signer) (path : StorePath) (info : PathInfo)
    (compression : Compression) :
    NarInfo.new (codecs.signed signer) path info compression =
      { NarInfo.simple codecs path info compression with
        sigs :=
          let sigs := ((NarInfo.simple codecs path info compression).clearSigsAndSign signer).sigs
          if sigs = [] ∧ info.sigs ≠ [] then info.sigs else sigs } :=
  rfl

/-- The narinfo of the direct route when the hash is in base 32. -/
theorem CopyUploads.signed (hsize : info.narHash.utf8ByteSize = 59)
    (hhash : ∃ digest, info.narHash = "sha256:" ++ digest)
    (h : CopyUploads codecs signer cfg path info n) :
    ∃ fp fileHash fileSize,
      (NarInfo.simple codecs path info cfg.compression).fingerprintPath signer = some fp ∧
      n = { NarInfo.simple codecs path info cfg.compression with
        fileHash := fileHash
        fileSize := fileSize
        sigs := if signer.keys = [] ∧ info.sigs ≠ [] then info.sigs
          else signer.keys.map (fun key => signer.signString key fp) } := by
  have hnarHash := NarInfo.simple_narHash codecs path cfg.compression hsize
  obtain ⟨fp, hfp⟩ : ∃ fp, (NarInfo.simple codecs path info cfg.compression).fingerprintPath
      signer = some fp :=
    NarInfo.fingerprintPath_exists (by rwa [hnarHash]) (by rwa [hnarHash])
  obtain ⟨fileHash, fileSize, rfl⟩ := h.eq
  refine ⟨fp, fileHash, fileSize, hfp, ?_⟩
  rw [NarInfo.new_eq, NarInfo.clearSigsAndSign_eq hfp]
  simp

/-- The narinfo of the presigned route when the hash is in base 32. -/
theorem PresignedUploads.signed (hwf : info.WellFormed path)
    (hsize : info.narHash.utf8ByteSize = 59) {fp : String}
    (hfp : (NarInfo.simple codecs path info cfg.compression).fingerprintPath signer = some fp)
    (h : PresignedUploads codecs signer cfg path info n) :
    ∃ fileHash fileSize,
      n = { NarInfo.simple codecs path info cfg.compression with
        fileHash := some fileHash
        fileSize := some fileSize
        sigs := signer.keys.map (fun key => signer.signString key fp) } := by
  obtain ⟨fileHash, fileSize, rfl⟩ := h.eq hwf
  refine ⟨fileHash, fileSize, ?_⟩
  have hurl : presignedNarUrl cfg path info.narHash =
      (NarInfo.simple codecs path info cfg.compression).url := by
    simp [presignedNarUrl, NarInfo.simple, hsize]
  have hfp' : (({ NarInfo.simple codecs path info cfg.compression with
      url := presignedNarUrl cfg path info.narHash
      fileHash := some fileHash
      fileSize := some fileSize } : NarInfo).fingerprintPath signer) = some fp :=
    (NarInfo.fingerprintPath_congr rfl rfl rfl rfl).trans hfp
  rw [presignedNarinfo, NarInfo.clearSigsAndSign_eq hfp', hurl]

/-- With a hash in base 16 the digest stands where the hash with its prefix
should be. -/
theorem SameNarinfo.not_base16 {compression : Compression}
    (h : SameNarinfo codecs signer compression path info) (hwf : info.WellFormed path) :
    info.narHash.utf8ByteSize ≠ 71 := by
  intro hsize
  obtain ⟨n, hn⟩ := copyUploads_exists codecs signer compression path info
  obtain ⟨n', hn'⟩ := presignedUploads_exists codecs signer compression hwf
  obtain ⟨digest, hdigest, hnarHash⟩ := (h _ rfl n n' hn hn').2.narHash
  obtain ⟨_, _, rfl⟩ := hn.eq
  have hbare : digest = "sha256:" ++ digest :=
    (NarInfo.simple_narHash_of_base16 path compression hsize hdigest).symm.trans hnarHash
  have hlength := congrArg String.length hbare
  simp at hlength

/-- Without keys the direct route keeps the signatures of the path. -/
theorem SameNarinfo.keys_or_sigs {compression : Compression}
    (h : SameNarinfo codecs signer compression path info) (hwf : info.WellFormed path)
    (hform : NarHashForm info.narHash) (hsize : info.narHash.utf8ByteSize = 59) :
    signer.keys ≠ [] ∨ info.sigs = [] := by
  by_contra hcontra
  obtain ⟨hkeys, hsigs⟩ := not_or.mp hcontra
  obtain ⟨n, hn⟩ := copyUploads_exists codecs signer compression path info
  obtain ⟨n', hn'⟩ := presignedUploads_exists codecs signer compression hwf
  have hsame := (h _ rfl n n' hn hn').1.sigs
  obtain ⟨fp, _, _, hfp, rfl⟩ := hn.signed hsize hform.algorithm
  obtain ⟨_, _, rfl⟩ := hn'.signed hwf hsize hfp
  simp only [not_not.mp hkeys, ne_eq, hsigs, not_false_eq_true, and_self, if_true,
    List.map_nil] at hsame

/-- Both routes upload the same narinfo, with its hash in base 32 and one
signature for each key, exactly when the path info has its hash in base 32
and no signatures that a client without keys would take over. -/
theorem sameNarinfo_iff (codecs : Codecs) (signer : Signer) (compression : Compression)
    (path : StorePath) (info : PathInfo) (hwf : info.WellFormed path)
    (hform : NarHashForm info.narHash) :
    SameNarinfo codecs signer compression path info ↔
      info.narHash.utf8ByteSize = 59 ∧ (signer.keys ≠ [] ∨ info.sigs = []) := by
  constructor
  · intro h
    have hsize := hform.size.resolve_left (h.not_base16 hwf)
    exact ⟨hsize, h.keys_or_sigs hwf hform hsize⟩
  · rintro ⟨hsize, hsigs⟩ cfg rfl n n' hn hn'
    obtain ⟨fp, _, _, hfp, rfl⟩ := hn.signed hsize hform.algorithm
    obtain ⟨_, _, rfl⟩ := hn'.signed hwf hsize hfp
    have hkept : (if signer.keys = [] ∧ info.sigs ≠ [] then info.sigs
        else signer.keys.map (fun key => signer.signString key fp)) =
        signer.keys.map (fun key => signer.signString key fp) :=
      if_neg (fun hboth => hsigs.elim (fun h => h hboth.1) hboth.2)
    rw [hkept]
    refine ⟨⟨rfl, rfl, rfl, rfl, rfl, rfl, rfl⟩, ⟨?_, fp, ?_, rfl⟩⟩
    · obtain ⟨digest, hdigest⟩ := hform.algorithm
      refine ⟨digest, ?_, ?_⟩
      · simp only [PathInfo.nix32Digest, hsize]
        exact stripPrefix_eq_some_iff.mpr hdigest
      · rw [← hdigest]
        exact NarInfo.simple_narHash codecs path cfg.compression hsize
    · exact (NarInfo.fingerprintPath_congr rfl rfl rfl rfl).trans hfp

end Agreement

namespace Sample

/-- One key, whose signatures show what was signed. -/
def signer : Signer where
  storeDir := "/nix/store"
  keys := ["key-1"]
  signString key fp := key ++ ":" ++ fp

/-- The same without a key. -/
def keyless : Signer := { signer with keys := [] }

def dependency : StorePath := ⟨"0123456789abcdef0123456789abcdef-dependency"⟩

/-- The path info of `cachedPath` with two references, a deriver, and a
signature of another cache. -/
def signedInfo : PathInfo :=
  { cachedInfo with
    refs := [dependency, cachedPath]
    deriver := some ⟨"fedcba9876543210fedcba9876543210-package.drv"⟩
    sigs := ["cache-1:sig"] }

/-- The path info of `cachedPath` with the hash in base 16. -/
def base16Info : PathInfo :=
  { cachedInfo with
    narHash := "sha256:039058c6f2c0cb492c533b0a4d14ef77cc0f78abccced5287d84a1a2011cfb81" }

theorem wellFormed_signedInfo : signedInfo.WellFormed cachedPath where
  path := by simp [StorePath.IsComponent, cachedPath]
  refs r hr := by
    simp only [signedInfo, List.mem_cons, List.not_mem_nil, or_false] at hr
    rcases hr with rfl | rfl <;> simp [StorePath.IsComponent, dependency, cachedPath]
  deriver d hd := by
    cases hd
    simp [StorePath.IsComponent]

theorem wellFormed_base16Info : base16Info.WellFormed cachedPath where
  path := by simp [StorePath.IsComponent, cachedPath]
  refs _ hr := by cases hr
  deriver _ hd := by cases hd

theorem narHashForm_signedInfo : NarHashForm signedInfo.narHash :=
  ⟨⟨"10gv3h0s58c4glldbkncmdw0zk3pxwa4s2ivacn4kjy0yb35i403", rfl⟩, .inr (by decide)⟩

theorem narHashForm_base16Info : NarHashForm base16Info.narHash :=
  ⟨⟨"039058c6f2c0cb492c533b0a4d14ef77cc0f78abccced5287d84a1a2011cfb81", rfl⟩, .inl (by decide)⟩

end Sample

/-- A hash in base 32 and one key, which signs the references as well. -/
theorem sameNarinfo_iff_signedInfo :
    SameNarinfo Sample.codecs Sample.signer .xz Sample.cachedPath Sample.signedInfo :=
  (sameNarinfo_iff Sample.codecs Sample.signer .xz Sample.cachedPath Sample.signedInfo
    Sample.wellFormed_signedInfo Sample.narHashForm_signedInfo).mpr ⟨by decide, .inl (by decide)⟩

/-- Without keys the signature of the other cache is published by one route
only.  A hash in base 16 is published without its prefix, and so without a
signature. -/
theorem sameNarinfo_fails :
    (Sample.signedInfo.WellFormed Sample.cachedPath ∧
      NarHashForm Sample.signedInfo.narHash ∧
      ¬ SameNarinfo Sample.codecs Sample.keyless .xz Sample.cachedPath Sample.signedInfo) ∧
    Sample.base16Info.WellFormed Sample.cachedPath ∧
      NarHashForm Sample.base16Info.narHash ∧
      ¬ SameNarinfo Sample.codecs Sample.signer .xz Sample.cachedPath Sample.base16Info := by
  refine ⟨⟨Sample.wellFormed_signedInfo, Sample.narHashForm_signedInfo, fun h => ?_⟩,
    Sample.wellFormed_base16Info, Sample.narHashForm_base16Info, fun h => ?_⟩
  · have hkept := h.keys_or_sigs Sample.wellFormed_signedInfo Sample.narHashForm_signedInfo
      (by decide)
    exact absurd hkept (by decide)
  · exact h.not_base16 Sample.wellFormed_base16Info (by decide)

end QueueRunner
