import QueueRunner.PresignedWire

/-!
# Messages that crash the presigned handlers

A builder sends strings, and the handlers of the queue runner cut them at
fixed offsets: `request_presigned_url` and `notify_presigned_upload_complete`
of `server/grpc.rs` with `upload_narinfo_after_presigned_upload` of
`crates/binary-cache`.  The hash part is cut behind byte 32 of the store
path, and the algorithm behind byte 7 of the NAR hash.  A string that is too
short panics, as does one with a longer character there, and a build with
debug assertions also panics on short store paths.

Which of the cuts are reached depends on the configuration, on the keys and
on the other fields.  `handlersSafe_iff` has the exact condition.
-/

namespace QueueRunner.Wire

/-- `runner_v1::PresignedUploadComplete`. -/
structure PresignedUploadComplete where
  buildId : String
  machineId : String
  storePath : String
  url : String
  compression : String
  fileHash : String
  fileSize : UInt64
  narHash : String
  narSize : UInt64
  references : List String
  deriver : Option String
  ca : Option String

/-- The messages of the two handlers. -/
inductive PresignedMessage where
  | url (req : PresignedUrlRequest)
  | complete (req : PresignedUploadComplete)

/-- What S3 answers to the handlers: `upsert` says whether the upload of a
text under a key succeeds. -/
structure HandlerAnswers where
  s3 : S3Client
  upsert : String → String → Bool

/-! ## `notify_presigned_upload_complete` -/

/-- `head_object(key)`, which must find the object. -/
def requireKey (s3 : S3Client) (key : String) : Except Fault Unit :=
  match s3.headObject key with
  | none => .error (.error .objectStore)
  | some true => .ok ()
  | some false => .error (.error (.pathNotFound key))

/-- `NarInfo::get_ls_path`. -/
def getLsPath (n : NarInfoText) : Except Fault String := do
  let hash ← hashPart n.storePath
  return hash ++ ".ls"

/-- `upload_narinfo`, which returns the key.  The buffer of the upload is
made with the configured size. -/
def uploadNarinfo (storeDir : String) (cfg : S3CacheConfig) (upsert : String → String → Bool)
    (n : NarInfoText) : Except Fault String := do
  let base ← hashPart n.storePath
  let infoKey := base ++ ".narinfo"
  let _ ← (bufferCapacity cfg.bufferSize).mapError .panic
  if upsert infoKey (n.render storeDir) then return infoKey else .error (.error .objectStore)

/-- The listing that must be there when the configuration asks for it. -/
def requireListing (cfg : S3CacheConfig) (s3 : S3Client) (n : NarInfoText) : Except Fault Unit :=
  if cfg.writeNarListing then do
    let key ← getLsPath n
    requireKey s3 key
  else .ok ()

/-- `upload_narinfo_after_presigned_upload`. -/
def uploadNarinfoAfterPresignedUpload (server : Server) (cfg : S3CacheConfig)
    (ans : HandlerAnswers) (n : NarInfoText) : Except Fault String := do
  requireListing cfg ans.s3 n
  requireKey ans.s3 n.url
  let signed ← (n.clearSigsAndSign ⟨server.env.storeDir, server.keys, server.signString⟩
    server.env.storeDir).mapError .panic
  uploadNarinfo server.env.storeDir cfg ans.upsert signed

/-- The narinfo of the message. -/
def completedNarInfo (server : Server) (cfg : S3CacheConfig) (req : PresignedUploadComplete) :
    Except HandlerFault NarInfoText := do
  let storePath ← server.storePath req.storePath
  let references ← req.references.mapM server.storePath
  let deriver ← req.deriver.mapM server.storePath
  return {
    storePath := storePath
    url := req.url
    compression := cfg.compression
    fileHash := some req.fileHash
    fileSize := some req.fileSize
    narHash := req.narHash
    narSize := req.narSize
    references := references
    deriver := deriver
    ca := req.ca
    sigs := [] }

/-- A lookup that answers with `not_found`. -/
def found (present : Bool) (message : String) : Except HandlerFault Unit :=
  if present then .ok () else .error (.status (.notFound message))

/-- `notify_presigned_upload_complete`. -/
def notifyPresignedUploadComplete (server : Server) (ans : HandlerAnswers)
    (req : PresignedUploadComplete) : Except HandlerFault Unit := do
  let buildId ← server.uuid "build_id" req.buildId
  let machineId ← server.uuid "machine_id" req.machineId
  found (server.machine machineId) "Machine not found"
  found (server.job machineId buildId) "Job not found for this build_id"
  let cfg ← server.firstRemoteStore
  let narinfo ← completedNarInfo server cfg req
  let _ ← (uploadNarinfoAfterPresignedUpload server cfg ans narinfo).mapError
    (Fault.toHandler "Failed to upload narinfo")
  return ()

/-- The handler of a message. -/
def handle (server : Server) (ans : HandlerAnswers) :
    PresignedMessage → Except HandlerFault Unit
  | .url req => do
    let _ ← requestPresignedUrl server ans.s3 req
    return ()
  | .complete req => notifyPresignedUploadComplete server ans req

/-! ## Requests that are answered -/

/-- The handler returns or answers with a status, whatever S3 answers. -/
def HandlerSafe (server : Server) (msg : PresignedMessage) : Prop :=
  ∀ ans p, handle server ans msg ≠ .error (.panic p)

/-- The assertion of `StorePath::new` holds, where it is compiled in. -/
def Asserted (env : NixEnv) (p : String) : Prop :=
  env.debugAssertions = true → 33 < (env.postfixOf p).utf8ByteSize

/-- Byte 32 of the name of the store path is the end of a character. -/
def HashCut (env : NixEnv) (p : String) : Prop :=
  Text.IsBoundary 32 (StorePath.new env.storeDirSlash p).baseName.toList

/-- The requested path can be cut where the configuration needs its hash
part. -/
structure RequestSafe (env : NixEnv) (cfg : S3CacheConfig) (r : PresignedNarRequest) : Prop where
  asserted : Asserted env r.storePath
  hash : stripPrefix "sha256:" r.narHash = none ∨ cfg.writeNarListing = true →
    HashCut env r.storePath

/-- The completed path can be cut, and so can its NAR hash when it is
signed. -/
structure CompleteSafe (server : Server) (cfg : S3CacheConfig) (req : PresignedUploadComplete) :
    Prop where
  storePath : Asserted server.env req.storePath
  references : ∀ r ∈ req.references, Asserted server.env r
  deriver : ∀ d ∈ req.deriver, Asserted server.env d
  hash : HashCut server.env req.storePath
  narHash : server.keys ≠ [] → Text.IsBoundary 7 req.narHash.toList
  buffer : cfg.bufferSize ≤ isizeMax

/-- The messages that do not crash the handlers.  What is answered with a
status before the strings are cut is safe. -/
def MessageSafe (server : Server) : PresignedMessage → Prop
  | .url req =>
    ∀ buildId machineId cfg, server.parseUuid req.buildId = some buildId →
      server.parseUuid req.machineId = some machineId → server.remoteStore = some cfg →
        ∀ r ∈ req.request, RequestSafe server.env cfg r
  | .complete req =>
    ∀ buildId machineId cfg, server.parseUuid req.buildId = some buildId →
      server.parseUuid req.machineId = some machineId → server.machine machineId = true →
        server.job machineId buildId = true → server.remoteStore = some cfg →
          CompleteSafe server cfg req

/-! ## Which steps panic -/

def Fault.IsPanic (e : Fault) : Prop := ∃ p, e = .panic p

def Fault.IsError (e : Fault) : Prop := ∃ e', e = .error e'

def HandlerFault.IsPanic (e : HandlerFault) : Prop := ∃ p, e = .panic p

def HandlerFault.IsStatus (e : HandlerFault) : Prop := ∃ s, e = .status s

theorem HandlerFault.panic_or_status (e : HandlerFault) : e.IsPanic ∨ e.IsStatus := by
  cases e with
  | panic p => exact .inl ⟨p, rfl⟩
  | status s => exact .inr ⟨s, rfl⟩

theorem Fault.isPanic_toHandler {message : String} {e : Fault} :
    (e.toHandler message).IsPanic ↔ e.IsPanic := by
  cases e <;> simp [Fault.toHandler, HandlerFault.IsPanic, Fault.IsPanic]

theorem Fault.isStatus_toHandler {message : String} {e : Fault} :
    (e.toHandler message).IsStatus ↔ e.IsError := by
  cases e <;> simp [Fault.toHandler, HandlerFault.IsStatus, Fault.IsError]

theorem handlerSafe_iff_avoids {server : Server} {msg : PresignedMessage} :
    HandlerSafe server msg ↔ ∀ ans, Fallible.Avoids HandlerFault.IsPanic (handle server ans msg) :=
  ⟨fun h ans _ he ⟨p, hp⟩ => h ans p (hp ▸ he), fun h ans p hp => h ans _ hp ⟨p, rfl⟩⟩

open Fallible (Avoids)

section

variable {bad : Fault → Prop} {cfg : S3CacheConfig} {s3 : S3Client} {path : StorePath}
  {narHash : String}

theorem avoids_narHashUrl
    (hhash : stripPrefix "sha256:" narHash = none → Avoids bad (hashPart path)) :
    Avoids bad (narHashUrl path narHash) := by
  unfold narHashUrl
  cases hstrip : stripPrefix "sha256:" narHash with
  | some digest => exact .ok digest
  | none => exact hhash hstrip

theorem avoids_listingUpload (hsign : ∀ key e, Avoids bad (s3.sign key e))
    (hhash : cfg.writeNarListing = true → Avoids bad (hashPart path)) :
    Avoids bad (listingUpload cfg s3 path) := by
  unfold listingUpload
  refine .ite (fun hwrite => ?_) (fun _ => .ok _)
  exact .bind (hhash hwrite) (fun _ _ => .bind (hsign _ _) (fun _ _ => .ok _))

theorem avoids_debugInfoUploads (hsign : ∀ key e, Avoids bad (s3.sign key e))
    (ids : List String) : Avoids bad (debugInfoUploads cfg s3 ids) := by
  have hone : ∀ id ∈ ids, Avoids bad (debugInfoUpload s3 id) := by
    intro id _
    unfold debugInfoUpload
    exact .ite (fun _ => .ok _) (fun _ => .bind (hsign _ _) (fun _ _ => .ok _))
  unfold debugInfoUploads
  exact .ite (fun _ => .bind (.mapM hone) (fun _ _ => .ok _)) (fun _ => .ok _)

/-- The errors of `generate_nar_upload_presigned_url` are those of signing and
of cutting the path. -/
theorem avoids_generate (hsign : ∀ key e, Avoids bad (s3.sign key e))
    (hhash : stripPrefix "sha256:" narHash = none ∨ cfg.writeNarListing = true →
      Avoids bad (hashPart path)) (ids : List String) :
    Avoids bad (generateNarUploadPresignedUrl cfg s3 path narHash ids) := by
  refine .bind (avoids_narHashUrl (fun h => hhash (.inl h))) (fun _ _ => ?_)
  refine .bind (hsign _ _) (fun _ _ => ?_)
  refine .bind (avoids_listingUpload hsign (fun h => hhash (.inr h))) (fun _ _ => ?_)
  exact .bind (avoids_debugInfoUploads hsign ids) (fun _ _ => .ok _)

theorem clearSigsAndSign_storePath {signer : Signer} {pathPrefix : String} {n n' : NarInfoText}
    (h : n.clearSigsAndSign signer pathPrefix = .ok n') : n'.storePath = n.storePath := by
  unfold NarInfoText.clearSigsAndSign at h
  split_ifs at h
  · obtain rfl := Except.ok.inj h
    rfl
  · obtain ⟨fp, -, h⟩ := Fallible.bind_ok_iff.mp h
    cases fp with
    | none =>
      obtain rfl := Except.ok.inj h
      rfl
    | some fp =>
      obtain rfl := Except.ok.inj h
      rfl

/-- The errors of `upload_narinfo_after_presigned_upload` are those of the
questions to S3, of cutting the path, of signing and of the upload. -/
theorem avoids_upload {server : Server} {ans : HandlerAnswers} {n : NarInfoText}
    (hkey : ∀ key, Avoids bad (requireKey ans.s3 key))
    (hhash : Avoids bad (hashPart n.storePath))
    (hsign : Avoids bad ((n.clearSigsAndSign ⟨server.env.storeDir, server.keys,
      server.signString⟩ server.env.storeDir).mapError .panic))
    (hbuffer : Avoids bad ((bufferCapacity cfg.bufferSize).mapError .panic))
    (hupsert : (∃ key text, ans.upsert key text = false) → ¬ bad (.error .objectStore)) :
    Avoids bad (uploadNarinfoAfterPresignedUpload server cfg ans n) := by
  have hlisting : Avoids bad (requireListing cfg ans.s3 n) := by
    unfold requireListing
    refine .ite (fun _ => .bind ?_ (fun _ _ => hkey _)) (fun _ => .ok _)
    exact .bind hhash (fun _ _ => .ok _)
  refine .bind hlisting (fun _ _ => .bind (hkey _) (fun _ _ => .bind hsign (fun signed hok => ?_)))
  rw [Fallible.mapError_ok_iff] at hok
  unfold uploadNarinfo
  rw [clearSigsAndSign_storePath hok]
  refine .bind hhash (fun _ _ => .bind hbuffer (fun _ _ => ?_))
  refine .ite (fun _ => .ok _) (fun hrefused => .error (hupsert ?_))
  exact ⟨_, _, Bool.not_eq_true _ ▸ hrefused⟩

end

/-! ## Which strings can be cut -/

theorem hashPart_ok_iff {env : NixEnv} {p : String} :
    (∃ v, hashPart (StorePath.new env.storeDirSlash p) = .ok v) ↔ HashCut env p := by
  unfold HashCut
  rw [← Text.isSome_splitAt_iff, hashPart, StorePath.hashPartChecked]
  cases Text.splitAt 32 (StorePath.new env.storeDirSlash p).baseName.toList <;>
    simp [Except.mapError]

theorem storePath_ok_iff {server : Server} {p : String} {path : StorePath} :
    server.storePath p = .ok path ↔
      Asserted server.env p ∧ path = StorePath.new server.env.storeDirSlash p := by
  rw [Server.storePath, Fallible.mapError_ok_iff, NixEnv.newStorePath_ok_iff, Asserted]

theorem sliceTo_append (dir rest : String) : sliceTo dir.utf8ByteSize (dir ++ rest) = .ok dir := by
  have hsplit : Text.splitAt dir.utf8ByteSize (dir ++ rest).toList =
      some (dir.toList, rest.toList) :=
    Text.splitAt_eq_some_iff.mpr ⟨String.toList_append, Text.size_toList dir⟩
  simp only [sliceTo, hsplit, String.ofList_toList]

theorem sliceTo_ok_iff {n : Nat} {s : String} :
    (∃ v, sliceTo n s = .ok v) ↔ Text.IsBoundary n s.toList := by
  rw [← Text.isSome_splitAt_iff, sliceTo]
  cases Text.splitAt n s.toList <;> simp

/-- The paths that a store prints begin with its directory. -/
theorem allBelow_print (dir : String) (refs : List StorePath) :
    allBelow dir (refs.map (printStorePath dir)) = .ok true := by
  induction refs with
  | nil => rfl
  | cons r refs ih =>
    rw [List.map_cons, allBelow, printStorePath, String.append_assoc, sliceTo_append]
    exact Fallible.bind_ok_iff.mpr ⟨dir, rfl, by rwa [if_neg (not_not.mpr rfl)]⟩

/-- The fingerprint of a path of the store panics only at the hash. -/
theorem fingerprintPath_ok_iff {dir : String} {n : NarInfoText} :
    (∃ fp, n.fingerprintPath dir dir = .ok fp) ↔ Text.IsBoundary 7 n.narHash.toList := by
  have hpath : sliceTo dir.utf8ByteSize (printStorePath dir n.storePath) = .ok dir := by
    rw [printStorePath, String.append_assoc, sliceTo_append]
  rw [← sliceTo_ok_iff]
  constructor
  · rintro ⟨fp, h⟩
    unfold NarInfoText.fingerprintPath at h
    obtain ⟨head, hhead, h⟩ := Fallible.bind_ok_iff.mp h
    obtain rfl : dir = head := Except.ok.inj (hpath.symm.trans hhead)
    rw [if_neg (not_not.mpr rfl)] at h
    obtain ⟨alg, halg, -⟩ := Fallible.bind_ok_iff.mp h
    exact ⟨alg, halg⟩
  · rintro ⟨alg, halg⟩
    simp only [NarInfoText.fingerprintPath, hpath, halg, allBelow_print, bind, Except.bind]
    split_ifs <;> exact ⟨_, rfl⟩

/-- A narinfo of the store can be signed unless its hash cannot be cut. -/
theorem clearSigsAndSign_ok_iff {signer : Signer} {n : NarInfoText} :
    (∃ n', n.clearSigsAndSign signer signer.storeDir = .ok n') ↔
      (signer.keys ≠ [] → Text.IsBoundary 7 n.narHash.toList) := by
  unfold NarInfoText.clearSigsAndSign
  split_ifs with hkeys
  · exact ⟨fun _ hne => absurd hkeys hne, fun _ => ⟨_, rfl⟩⟩
  · rw [← @fingerprintPath_ok_iff signer.storeDir]
    constructor
    · rintro ⟨n', h⟩ -
      obtain ⟨fp, hfp, -⟩ := Fallible.bind_ok_iff.mp h
      exact ⟨fp, hfp⟩
    · intro h
      obtain ⟨fp, hfp⟩ := h hkeys
      rw [hfp]
      cases fp <;> exact ⟨_, rfl⟩

/-! ## The lookups before the strings are cut -/

section

variable {server : Server}

theorem uuid_ok_iff {field value : String} {id : Uuid} :
    server.uuid field value = .ok id ↔ server.parseUuid value = some id := by
  unfold Server.uuid
  cases server.parseUuid value <;> simp

theorem firstRemoteStore_ok_iff {cfg : S3CacheConfig} :
    server.firstRemoteStore = .ok cfg ↔ server.remoteStore = some cfg := by
  unfold Server.firstRemoteStore
  cases server.remoteStore <;> simp

theorem found_ok_iff {present : Bool} {message : String} {u : Unit} :
    found present message = .ok u ↔ present = true := by
  unfold found
  split_ifs with h <;> simp [h]

theorem not_isPanic_status (s : Status) : ¬ (HandlerFault.status s).IsPanic := by
  rintro ⟨p, hp⟩
  cases hp

theorem avoids_uuid (field value : String) :
    Avoids HandlerFault.IsPanic (server.uuid field value) := by
  unfold Server.uuid
  cases server.parseUuid value with
  | some id => exact .ok id
  | none => exact .error (not_isPanic_status _)

theorem avoids_firstRemoteStore : Avoids HandlerFault.IsPanic server.firstRemoteStore := by
  unfold Server.firstRemoteStore
  cases server.remoteStore with
  | some cfg => exact .ok cfg
  | none => exact .error (not_isPanic_status _)

theorem avoids_found (present : Bool) (message : String) :
    Avoids HandlerFault.IsPanic (found present message) := by
  unfold found
  exact .ite (fun _ => .ok ()) (fun _ => .error (not_isPanic_status _))

/-- With both ids and the store the handler goes on to the requests. -/
theorem handle_url_eq {ans : HandlerAnswers} {req : PresignedUrlRequest}
    {buildId machineId : Uuid} {cfg : S3CacheConfig}
    (hbuild : server.parseUuid req.buildId = some buildId)
    (hmachine : server.parseUuid req.machineId = some machineId)
    (hcfg : server.remoteStore = some cfg) :
    handle server ans (.url req) = (do
      let _ ← req.request.mapM (presignRequest server cfg ans.s3)
      return ()) := by
  rw [handle, requestPresignedUrl, uuid_ok_iff.mpr hbuild, uuid_ok_iff.mpr hmachine,
    firstRemoteStore_ok_iff.mpr hcfg]
  rfl

/-- With the job of the machine and the store the handler goes on to the
narinfo. -/
theorem handle_complete_eq {ans : HandlerAnswers} {req : PresignedUploadComplete}
    {buildId machineId : Uuid} {cfg : S3CacheConfig}
    (hbuild : server.parseUuid req.buildId = some buildId)
    (hmachine : server.parseUuid req.machineId = some machineId)
    (hpresent : server.machine machineId = true) (hjob : server.job machineId buildId = true)
    (hcfg : server.remoteStore = some cfg) :
    handle server ans (.complete req) = (do
      let narinfo ← completedNarInfo server cfg req
      let _ ← (uploadNarinfoAfterPresignedUpload server cfg ans narinfo).mapError
        (Fault.toHandler "Failed to upload narinfo")
      return ()) := by
  rw [handle, notifyPresignedUploadComplete, uuid_ok_iff.mpr hbuild, uuid_ok_iff.mpr hmachine]
  simp only [bind, Except.bind, found, hpresent, hjob, if_true, firstRemoteStore_ok_iff.mpr hcfg]

/-! ## Safe messages -/

theorem avoids_storePath {p : String} (h : Asserted server.env p) :
    Avoids HandlerFault.IsPanic (server.storePath p) :=
  .of_ok (storePath_ok_iff.mpr ⟨h, rfl⟩)

theorem avoids_hashPart {env : NixEnv} {p : String} {bad : Fault → Prop} (h : HashCut env p) :
    Avoids bad (hashPart (StorePath.new env.storeDirSlash p)) := by
  obtain ⟨v, hv⟩ := hashPart_ok_iff.mpr h
  exact .of_ok hv

theorem not_isPanic_error (e : CacheFault) : ¬ (Fault.error e).IsPanic := by
  rintro ⟨p, hp⟩
  cases hp

theorem avoids_sign (s3 : S3Client) (key : String) (e : CacheFault) :
    Avoids Fault.IsPanic (s3.sign key e) := by
  unfold S3Client.sign
  cases s3.signedUrl key with
  | some url => exact .ok url
  | none => exact .error (not_isPanic_error e)

theorem avoids_requireKey (s3 : S3Client) (key : String) :
    Avoids Fault.IsPanic (requireKey s3 key) := by
  unfold requireKey
  cases s3.headObject key with
  | none => exact .error (not_isPanic_error _)
  | some present =>
    cases present with
    | true => exact .ok ()
    | false => exact .error (not_isPanic_error _)

theorem avoids_panic_toHandler {α : Type} {a : Except Fault α} {message : String}
    (h : Avoids Fault.IsPanic a) :
    Avoids HandlerFault.IsPanic (a.mapError (Fault.toHandler message)) :=
  .mapError (fun e he => fun hpanic => h e he (Fault.isPanic_toHandler.mp hpanic))

theorem RequestSafe.avoids {cfg : S3CacheConfig} {r : PresignedNarRequest}
    (h : RequestSafe server.env cfg r) (s3 : S3Client) :
    Avoids HandlerFault.IsPanic (presignRequest server cfg s3 r) := by
  refine .bind (.bind (avoids_storePath h.asserted) (fun path hpath => ?_)) (fun _ _ => .ok _)
  obtain ⟨-, rfl⟩ := storePath_ok_iff.mp hpath
  refine .bind (avoids_panic_toHandler ?_) (fun _ _ => .ok _)
  exact avoids_generate (avoids_sign s3) (fun hneeded => avoids_hashPart (h.hash hneeded)) _

/-- The narinfo of a message has its path and its hash. -/
theorem completedNarInfo_ok {cfg : S3CacheConfig} {req : PresignedUploadComplete}
    {n : NarInfoText} (h : completedNarInfo server cfg req = .ok n) :
    Asserted server.env req.storePath ∧ (∀ r ∈ req.references, Asserted server.env r) ∧
      (∀ d ∈ req.deriver, Asserted server.env d) ∧
        n.storePath = StorePath.new server.env.storeDirSlash req.storePath ∧
          n.narHash = req.narHash := by
  obtain ⟨path, hpath, h⟩ := Fallible.bind_ok_iff.mp h
  obtain ⟨refs, hrefs, h⟩ := Fallible.bind_ok_iff.mp h
  obtain ⟨deriver, hderiver, h⟩ := Fallible.bind_ok_iff.mp h
  obtain rfl := Except.ok.inj h
  obtain ⟨hassert, hnew⟩ := storePath_ok_iff.mp hpath
  refine ⟨hassert, ?_, ?_, hnew, rfl⟩
  · intro r hr
    obtain ⟨q, -, hq⟩ := Fallible.mapM_ok_forall hrefs r hr
    exact (storePath_ok_iff.mp hq).1
  · intro d hd
    obtain ⟨q, hq⟩ := Fallible.optionMapM_ok_forall hderiver d hd
    exact (storePath_ok_iff.mp hq).1

theorem CompleteSafe.avoids {cfg : S3CacheConfig} {req : PresignedUploadComplete}
    (h : CompleteSafe server cfg req) (ans : HandlerAnswers) :
    Avoids HandlerFault.IsPanic (do
      let narinfo ← completedNarInfo server cfg req
      let _ ← (uploadNarinfoAfterPresignedUpload server cfg ans narinfo).mapError
        (Fault.toHandler "Failed to upload narinfo")
      return ()) := by
  have hnarinfo : Avoids HandlerFault.IsPanic (completedNarInfo server cfg req) := by
    refine .bind (avoids_storePath h.storePath) (fun _ _ => ?_)
    refine .bind (.mapM (fun r hr => avoids_storePath (h.references r hr))) (fun _ _ => ?_)
    exact .bind (.optionMapM (fun d hd => avoids_storePath (h.deriver d hd))) (fun _ _ => .ok _)
  refine .bind hnarinfo (fun n hn => .bind (avoids_panic_toHandler ?_) (fun _ _ => .ok _))
  obtain ⟨-, -, -, hpath, hhash⟩ := completedNarInfo_ok hn
  refine avoids_upload (avoids_requireKey ans.s3) ?_ ?_ ?_ (fun _ => not_isPanic_error _)
  · rw [hpath]
    exact avoids_hashPart h.hash
  · obtain ⟨n', hn'⟩ := (@clearSigsAndSign_ok_iff
      ⟨server.env.storeDir, server.keys, server.signString⟩ n).mpr (by rw [hhash]; exact h.narHash)
    exact .of_ok (Fallible.mapError_ok_iff.mpr hn')
  · rw [bufferCapacity, if_pos h.buffer]
    exact .ok _

/-- A safe message is answered, whatever S3 says. -/
theorem MessageSafe.handlerSafe {msg : PresignedMessage} (h : MessageSafe server msg) :
    HandlerSafe server msg := by
  rw [handlerSafe_iff_avoids]
  intro ans
  cases msg with
  | url req =>
    refine .bind ?_ (fun _ _ => .ok _)
    refine .bind (avoids_uuid _ _) (fun buildId hbuild => ?_)
    refine .bind (avoids_uuid _ _) (fun machineId hmachine => ?_)
    refine .bind avoids_firstRemoteStore (fun cfg hcfg => ?_)
    have hsafe := h buildId machineId cfg (uuid_ok_iff.mp hbuild) (uuid_ok_iff.mp hmachine)
      (firstRemoteStore_ok_iff.mp hcfg)
    exact .mapM (fun r hr => (hsafe r hr).avoids ans.s3)
  | complete req =>
    refine .bind (avoids_uuid _ _) (fun buildId hbuild => ?_)
    refine .bind (avoids_uuid _ _) (fun machineId hmachine => ?_)
    refine .bind (avoids_found _ _) (fun _ hpresent => ?_)
    refine .bind (avoids_found _ _) (fun _ hjob => ?_)
    refine .bind avoids_firstRemoteStore (fun cfg hcfg => ?_)
    have hsafe := h buildId machineId cfg (uuid_ok_iff.mp hbuild) (uuid_ok_iff.mp hmachine)
      (found_ok_iff.mp hpresent) (found_ok_iff.mp hjob) (firstRemoteStore_ok_iff.mp hcfg)
    exact hsafe.avoids ans

/-! ## Messages that crash -/

/-- S3 has every object and refuses nothing. -/
def willing : HandlerAnswers where
  s3 :=
    { signedUrl := fun key => some key
      headObject := fun _ => some true }
  upsert _ _ := true

theorem avoids_status_toHandler {α : Type} {a : Except Fault α} {message : String}
    (h : Avoids Fault.IsError a) :
    Avoids HandlerFault.IsStatus (a.mapError (Fault.toHandler message)) :=
  .mapError (fun e he => fun hstatus => h e he (Fault.isStatus_toHandler.mp hstatus))

theorem avoids_error_mapError {α : Type} (a : Except Panic α) :
    Avoids Fault.IsError (a.mapError .panic) := by
  refine .mapError (fun e _ => ?_)
  rintro ⟨e', he'⟩
  cases he'

theorem avoids_status_storePath (p : String) :
    Avoids HandlerFault.IsStatus (server.storePath p) := by
  refine .mapError (fun e _ => ?_)
  rintro ⟨s, hs⟩
  cases hs

theorem presignRequest_willing (cfg : S3CacheConfig) (r : PresignedNarRequest) :
    Avoids HandlerFault.IsStatus (presignRequest server cfg willing.s3 r) := by
  refine .bind (.bind (avoids_status_storePath _) (fun _ _ => ?_)) (fun _ _ => .ok _)
  refine .bind (avoids_status_toHandler ?_) (fun _ _ => .ok _)
  exact avoids_generate (fun _ _ => .ok _) (fun _ => avoids_error_mapError _) _

theorem upload_willing (cfg : S3CacheConfig) (n : NarInfoText) :
    Avoids Fault.IsError (uploadNarinfoAfterPresignedUpload server cfg willing n) := by
  refine avoids_upload (fun _ => .ok _) (avoids_error_mapError _) (avoids_error_mapError _)
    (avoids_error_mapError _) ?_
  rintro ⟨key, text, h⟩
  cases h

theorem completedNarInfo_willing (cfg : S3CacheConfig) (req : PresignedUploadComplete) :
    Avoids HandlerFault.IsStatus (completedNarInfo server cfg req) := by
  refine .bind (avoids_status_storePath _) (fun _ _ => ?_)
  refine .bind (.mapM (fun _ _ => avoids_status_storePath _)) (fun _ _ => ?_)
  exact .bind (.optionMapM (fun _ _ => avoids_status_storePath _)) (fun _ _ => .ok _)

/-- A description was made, so the path could be cut. -/
theorem requestSafe_of_ok {cfg : S3CacheConfig} {s3 : S3Client} {r : PresignedNarRequest}
    {m : PresignedNarResponse} (h : presignRequest server cfg s3 r = .ok m) :
    RequestSafe server.env cfg r := by
  obtain ⟨d, hd, -⟩ := Fallible.bind_ok_iff.mp h
  obtain ⟨path, hpath, hd⟩ := Fallible.bind_ok_iff.mp hd
  obtain ⟨response, hresponse, -⟩ := Fallible.bind_ok_iff.mp hd
  rw [Fallible.mapError_ok_iff] at hresponse
  obtain ⟨hassert, rfl⟩ := storePath_ok_iff.mp hpath
  obtain ⟨hash, hhash, hresponse⟩ := Fallible.bind_ok_iff.mp hresponse
  obtain ⟨url, -, hresponse⟩ := Fallible.bind_ok_iff.mp hresponse
  obtain ⟨ls, hls, -⟩ := Fallible.bind_ok_iff.mp hresponse
  refine ⟨hassert, ?_⟩
  rintro (hnone | hwrite)
  · rw [narHashUrl, hnone] at hhash
    exact hashPart_ok_iff.mp ⟨hash, hhash⟩
  · rw [listingUpload, if_pos hwrite] at hls
    obtain ⟨v, hv, -⟩ := Fallible.bind_ok_iff.mp hls
    exact hashPart_ok_iff.mp ⟨v, hv⟩

/-- The narinfo was uploaded, so everything could be cut. -/
theorem completeSafe_of_ok {cfg : S3CacheConfig} {ans : HandlerAnswers}
    {req : PresignedUploadComplete} {n : NarInfoText} {key : String}
    (hn : completedNarInfo server cfg req = .ok n)
    (h : uploadNarinfoAfterPresignedUpload server cfg ans n = .ok key) :
    CompleteSafe server cfg req := by
  obtain ⟨hpath, hrefs, hderiver, hstorePath, hnarHash⟩ := completedNarInfo_ok hn
  obtain ⟨_, -, h⟩ := Fallible.bind_ok_iff.mp h
  obtain ⟨_, -, h⟩ := Fallible.bind_ok_iff.mp h
  obtain ⟨signed, hsigned, h⟩ := Fallible.bind_ok_iff.mp h
  rw [Fallible.mapError_ok_iff] at hsigned
  obtain ⟨base, hbase, h⟩ := Fallible.bind_ok_iff.mp h
  obtain ⟨capacity, hcapacity, -⟩ := Fallible.bind_ok_iff.mp h
  rw [clearSigsAndSign_storePath hsigned, hstorePath] at hbase
  rw [Fallible.mapError_ok_iff, bufferCapacity] at hcapacity
  refine ⟨hpath, hrefs, hderiver, hashPart_ok_iff.mp ⟨base, hbase⟩, ?_, ?_⟩
  · rw [← hnarHash]
    exact clearSigsAndSign_ok_iff.mp ⟨signed, hsigned⟩
  · by_contra hlarge
    rw [if_neg hlarge] at hcapacity
    cases hcapacity

/-- A message that never crashes a handler is safe: with a willing S3 every
cut is reached. -/
theorem HandlerSafe.messageSafe {msg : PresignedMessage} (h : HandlerSafe server msg) :
    MessageSafe server msg := by
  have hwilling := handlerSafe_iff_avoids.mp h willing
  cases msg with
  | url req =>
    intro buildId machineId cfg hbuild hmachine hcfg r hr
    rw [handle_url_eq hbuild hmachine hcfg] at hwilling
    have hstatus := Avoids.mapM (fun r (_ : r ∈ req.request) =>
      @presignRequest_willing server cfg r)
    obtain ⟨_, hok⟩ := hwilling.exists_ok (hstatus.bind (fun _ _ => .ok _))
      HandlerFault.panic_or_status
    obtain ⟨messages, hok, -⟩ := Fallible.bind_ok_iff.mp hok
    obtain ⟨m, -, hm⟩ := Fallible.mapM_ok_forall hok r hr
    exact requestSafe_of_ok hm
  | complete req =>
    intro buildId machineId cfg hbuild hmachine hpresent hjob hcfg
    rw [handle_complete_eq hbuild hmachine hpresent hjob hcfg] at hwilling
    have hupload := fun n => @avoids_status_toHandler _ _ "Failed to upload narinfo"
      (@upload_willing server cfg n)
    obtain ⟨_, hok⟩ := hwilling.exists_ok
      ((completedNarInfo_willing cfg req).bind
        (fun n _ => (hupload n).bind (fun _ _ => .ok _))) HandlerFault.panic_or_status
    obtain ⟨n, hn, hok⟩ := Fallible.bind_ok_iff.mp hok
    obtain ⟨key, hkey, -⟩ := Fallible.bind_ok_iff.mp hok
    exact completeSafe_of_ok hn (Fallible.mapError_ok_iff.mp hkey)

end

/-- The messages that never crash the handlers. -/
theorem handlersSafe_iff (server : Server) (msg : PresignedMessage) :
    HandlerSafe server msg ↔ MessageSafe server msg :=
  ⟨HandlerSafe.messageSafe, MessageSafe.handlerSafe⟩

/-- An upload of a path without a hash is reported. -/
theorem handlersSafe_fails : ¬ ∀ server msg, HandlerSafe server msg := by
  intro h
  have hsafe := h (Sample.server { clientConfig := { bucket := "cache" } })
    (.complete
      { buildId := "0", machineId := "0", storePath := "", url := "nar/x.nar", compression := "xz"
        fileHash := "", fileSize := 0, narHash := "", narSize := 0, references := []
        deriver := none, ca := none })
  have hcut := (hsafe.messageSafe 0 0 _ rfl rfl rfl rfl rfl).hash
  exact absurd (Text.isSome_splitAt_iff.mpr hcut) (by decide)

end QueueRunner.Wire
