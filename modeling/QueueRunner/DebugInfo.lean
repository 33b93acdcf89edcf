import QueueRunner.PresignedWire

/-!
# Debug info links

A path with debug symbols has files of the form
`lib/debug/.build-id/ab/cdef….debug`, and the cache holds one link for each
of them: the object `debuginfo/abcdef…` names the NAR and the file.
`find_debug_files` of `crates/binary-cache/src/debug_info.rs` finds the
files, and `process_debug_info` makes the links with one of two clients.  The
client of the queue runner asks S3 for each link whether it is there.  The
client of the builder looks the link up among the presigned URLs, and the
queue runner has signed none for a link that is there.

`linksAgree_iff` says when the two leave the same links: when all of them are
there already, or when none is and the buffer of the direct upload is usable.
-/

namespace QueueRunner

/-! ## The files -/

/-- A file in a directory of `.build-id`, by its name. -/
structure DebugEntry where
  name : String
  isFile : Bool

/-- A directory in `.build-id`, with what `read_dir` lists in it. -/
structure BuildIdEntry where
  name : String
  isDir : Bool
  entries : List DebugEntry

/-- `lib/debug/.build-id`.  The names in a directory differ.  A name that is
not UTF-8 is left out: it matches none of the patterns. -/
structure BuildIdDir where
  entries : List BuildIdEntry
  distinct : (entries.map BuildIdEntry.name).Nodup
  distinctFiles : ∀ e ∈ entries, (e.entries.map DebugEntry.name).Nodup

/-- `char::is_ascii_hexdigit`. -/
def isAsciiHexdigit (c : Char) : Bool :=
  c.isDigit || (decide ('a' ≤ c) && decide (c ≤ 'f')) || (decide ('A' ≤ c) && decide (c ≤ 'F'))

/-- A debug file: its build ID, and its path in the NAR. -/
structure DebugFile where
  buildId : String
  debugPath : String
deriving DecidableEq

/-- The inner loop of `find_debug_files` for one name.  A name of 44 bytes
that ends with `.debug` can be cut behind byte 38. -/
def debugFile (s1 : String) (s2 : DebugEntry) : Option DebugFile :=
  match Text.splitAt 38 s2.name.toList with
  | some (digits, _) =>
    if s2.name.utf8ByteSize = 44 ∧ ".debug".toList.isSuffixOf s2.name.toList ∧
        digits.all isAsciiHexdigit ∧ s2.isFile then
      some
        { buildId := s1 ++ String.ofList digits
          debugPath := "lib/debug/.build-id/" ++ s1 ++ "/" ++ s2.name }
    else none
  | none => none

/-- The outer loop of `find_debug_files` for one name. -/
def debugFilesIn (s1 : BuildIdEntry) : List DebugFile :=
  if s1.name.utf8ByteSize = 2 ∧ s1.name.toList.all isAsciiHexdigit ∧ s1.isDir then
    s1.entries.filterMap (debugFile s1.name)
  else []

/-- `find_debug_files`. -/
def findDebugFiles (dir : BuildIdDir) : List DebugFile := dir.entries.flatMap debugFilesIn

theorem buildId_of_debugFile {s1 : String} {s2 : DebugEntry} {f : DebugFile}
    (h : debugFile s1 s2 = some f) :
    ∃ digits, f.buildId.toList = s1.toList ++ digits ∧
      s2.name.toList = digits ++ ".debug".toList := by
  unfold debugFile at h
  cases hsplit : Text.splitAt 38 s2.name.toList with
  | none =>
    rw [hsplit] at h
    cases h
  | some parts =>
    obtain ⟨digits, rest⟩ := parts
    rw [hsplit] at h
    obtain ⟨hname, hdigits⟩ := Text.splitAt_eq_some_iff.mp hsplit
    simp only at h
    split_ifs at h with hmatch
    obtain ⟨hsize, hsuffix, -, -⟩ := hmatch
    obtain ⟨init, hinit⟩ := List.isSuffixOf_iff_suffix.mp hsuffix
    obtain rfl := Option.some.inj h
    -- both cuts leave 38 bytes
    have hinitSize : Text.size init = Text.size digits := by
      have hdebug : Text.size ".debug".toList = 6 := by decide
      have hsum := congrArg Text.size hinit
      rw [Text.size_append, hdebug, Text.size_toList, hsize] at hsum
      omega
    obtain ⟨rfl, -⟩ := Text.append_inj_of_size (hinit.trans hname) hinitSize
    exact ⟨init, by simp, hinit.symm⟩

theorem mem_debugFilesIn {s1 : BuildIdEntry} {f : DebugFile} (h : f ∈ debugFilesIn s1) :
    Text.size s1.name.toList = 2 ∧ ∃ s2 ∈ s1.entries, debugFile s1.name s2 = some f := by
  unfold debugFilesIn at h
  split_ifs at h with hmatch
  · exact ⟨(Text.size_toList _).trans hmatch.1, List.mem_filterMap.mp h⟩
  · cases h

/-- Different files have different build IDs. -/
theorem nodup_findDebugFiles (dir : BuildIdDir) :
    ((findDebugFiles dir).map DebugFile.buildId).Nodup := by
  have hfile : ∀ (s1 : String) (a b : DebugEntry), a.name ≠ b.name →
      ∀ f, debugFile s1 a = some f → ∀ g, debugFile s1 b = some g → f.buildId ≠ g.buildId := by
    intro s1 a b hne f hf g hg heq
    obtain ⟨digits, hid, hname⟩ := buildId_of_debugFile hf
    obtain ⟨digits', hid', hname'⟩ := buildId_of_debugFile hg
    rw [heq, hid', List.append_cancel_left_eq] at hid
    exact hne (String.toList_inj.mp (by rw [hname, hname', hid]))
  have hdir : ∀ a b : BuildIdEntry, a.name ≠ b.name → ∀ f ∈ debugFilesIn a,
      ∀ g ∈ debugFilesIn b, f.buildId ≠ g.buildId := by
    intro a b hne f hf g hg heq
    obtain ⟨hsize, s2, -, hf⟩ := mem_debugFilesIn hf
    obtain ⟨hsize', s2', -, hg⟩ := mem_debugFilesIn hg
    obtain ⟨digits, hid, -⟩ := buildId_of_debugFile hf
    obtain ⟨digits', hid', -⟩ := buildId_of_debugFile hg
    have hids : a.name.toList ++ digits = b.name.toList ++ digits' := by rw [← hid, heq, hid']
    obtain ⟨hname, -⟩ := Text.append_inj_of_size hids (hsize.trans hsize'.symm)
    exact hne (String.toList_inj.mp hname)
  rw [List.Nodup, List.pairwise_map, findDebugFiles, List.pairwise_flatMap]
  constructor
  · intro e he
    have hnames := List.pairwise_map.mp (dir.distinctFiles e he)
    unfold debugFilesIn
    split_ifs
    · exact hnames.filterMap _ (hfile e.name)
    · exact List.Pairwise.nil
  · exact (List.pairwise_map.mp dir.distinct).imp (fun hne => hdir _ _ hne)

/-! ## The links -/

/-- `DebugInfoLink`. -/
structure DebugInfoLink where
  archive : String
  member : String

/-- `serde_json::to_string` of a link; `quote` writes a string. -/
def DebugInfoLink.toJson (quote : String → String) (l : DebugInfoLink) : Bytes :=
  ("\x7b\"archive\":" ++ quote l.archive ++ ",\"member\":" ++ quote l.member ++
    "\x7d").toUTF8.data.toList

/-- The link from a debug file to its NAR. -/
def DebugFile.link (f : DebugFile) (narUrl : String) : DebugInfoLink where
  archive := "../" ++ narUrl
  member := f.debugPath

/-- The key of the link. -/
def DebugFile.key (f : DebugFile) : String := "debuginfo/" ++ f.buildId

/-- The object of a key of a link. -/
def linkObject (key : String) : Option ObjectKey := (stripPrefix "debuginfo/" key).map .debugInfo

/-- The object is in the bucket. -/
def Bucket.has (b : Bucket) (name : ObjectKey) : Bool := (b.objects.lookup name).isSome

theorem Bucket.lookup_of_not_has {b : Bucket} {name : ObjectKey} (h : b.has name = false) :
    b.objects.lookup name = none := by
  rw [← Option.not_isSome_iff_eq_none]
  exact Bool.eq_false_iff.mp h

/-- The presigned URLs: a request to the URL of a key writes its object. -/
structure PresignedUrls where
  url : String → String
  target : String → Option String
  target_url : ∀ key, target (url key) = some key

/-- S3 in front of the bucket, when no request fails. -/
def PresignedUrls.client (urls : PresignedUrls) (b : Bucket) : Wire.S3Client where
  signedUrl key := some (urls.url key)
  headObject key := some ((linkObject key).any b.has)

/-- `DebugInfoClient::create_debug_info_link` of a client. -/
abbrev LinkClient := DebugFile → Bucket → Except Wire.Fault Unit × Bucket

/-- `process_debug_info` on the files that were found.  The links are made 25
at a time, and the result is the first error in the order of the files. -/
def processDebugInfo (create : LinkClient) :
    List DebugFile → Bucket → Except Wire.Fault Unit × Bucket
  | [], b => (.ok (), b)
  | f :: files, b =>
    match create f b with
    | (.ok (), b) => processDebugInfo create files b
    | (.error e, b) => (.error e, b)

section Routes

variable (codecs : Codecs) (quote : String → String) (cfg : S3CacheConfig)

/-- `create_debug_info_link` of `S3BinaryCacheClient`. -/
def createDebugInfoLink (sizes : Nat → Nat) (narUrl : String) : LinkClient := fun f b =>
  if b.has (.debugInfo f.buildId) then (.ok (), b)
  else
    match uploadFileCounted sizes {} cfg.bufferSize (.debugInfo f.buildId)
        { rest := (f.link narUrl).toJson quote } b {} with
    | .error p => (.error (.panic p), b)
    | .ok (.ok (), _, b, _) => (.ok (), b)
    | .ok (.error _, _, b, _) => (.error (.error .objectStore), b)

/-- `upload_json` of `PresignedUploadClient`. -/
def uploadJson (urls : PresignedUrls) (upload : Wire.PresignedUpload) (content : Bytes)
    (b : Bucket) : Bucket :=
  match (urls.target upload.url).bind linkObject with
  | some name => b.put name (codecs.compress upload.compression content)
  | none => b

/-- `create_debug_info_link` of `PresignedDebugInfoUpload`. -/
def createPresignedDebugInfoLink (urls : PresignedUrls) (uploads : List Wire.PresignedUpload)
    (narUrl : String) : LinkClient := fun f b =>
  match uploads.find? (fun presigned => presigned.path = f.key) with
  | some upload => (.ok (), uploadJson codecs urls upload ((f.link narUrl).toJson quote) b)
  | none =>
    (.error (.error (.uploadError f.key
      ("Presigned URL not found for build ID: " ++ f.buildId))), b)

/-- A path with debug symbols.  Nix prints the hash of its NAR in base 32,
behind the name of the algorithm. -/
structure DebugOutput where
  path : StorePath
  wellFormed : path.WellFormed
  info : PathInfo
  narHash : ∃ digest, info.narHash = "sha256:" ++ digest ∧ digest.utf8ByteSize = 52
  dir : Option BuildIdDir

/-- The debug files of the path; none when there is no such directory. -/
def DebugOutput.files (out : DebugOutput) : List DebugFile :=
  (out.dir.map findDebugFiles).getD []

/-- The URL of the NAR in the narinfo that `copy_path` makes. -/
def DebugOutput.narUrl (codecs : Codecs) (compression : Compression) (out : DebugOutput) : String :=
  NarInfo.urlText (NarInfo.new codecs out.path out.info compression).url

/-- How the links of a path fail. -/
inductive LinkFault where
  /-- The queue runner does not describe the uploads. -/
  | queueRunner (e : Wire.Fault)
  /-- The message has no upload of the NAR. -/
  | narUploadMissing
  | client (e : Wire.Fault)

/-- The links of the queue runner, in `copy_path`.  The files are worked off
in the order `files`. -/
def directLinks (sizes : Nat → Nat) (out : DebugOutput) (files : List DebugFile) (b : Bucket) :
    Except LinkFault Unit × Bucket :=
  if cfg.writeDebugInfo then
    (processDebugInfo (createDebugInfoLink quote cfg sizes (out.narUrl codecs cfg.compression))
      files b).map (Except.mapError .client) id
  else (.ok (), b)

/-- The links in `process_presigned_request`. -/
def processPresignedLinks (urls : PresignedUrls) (req : Wire.PresignedUploadResponse)
    (files : List DebugFile) (b : Bucket) : Except LinkFault Unit × Bucket :=
  if req.debugInfoUpload = [] then (.ok (), b)
  else
    (processDebugInfo (createPresignedDebugInfoLink codecs quote urls req.debugInfoUpload
      req.narUrl) files b).map (Except.mapError .client) id

/-- The links of the builder: it asks for the uploads of the build IDs `ids`,
reads the answer of the queue runner and works off the files in the order
`files`. -/
def presignedLinks (urls : PresignedUrls) (out : DebugOutput) (ids : List String)
    (files : List DebugFile) (b : Bucket) : Except LinkFault Unit × Bucket :=
  match Wire.generateNarUploadPresignedUrl cfg (urls.client b) out.path out.info.narHash
      (if cfg.writeDebugInfo then ids else []) with
  | .error e => (.error (.queueRunner e), b)
  | .ok response =>
    match Wire.decodeResponse (Wire.encodeResponse out.path response) with
    | none => (.error .narUploadMissing, b)
    | some req => processPresignedLinks codecs quote urls req files b

/-- The two routes agree: the builder succeeds when the queue runner does,
and both leave the same links, one for every build ID, and keep those that
were there.  Each scan of the directory may have an order of its own. -/
structure LinksAgree (urls : PresignedUrls) (sizes : Nat → Nat) (out : DebugOutput) (b : Bucket)
    (ids : List String) (files files' : List DebugFile) : Prop where
  succeeds : (directLinks codecs quote cfg sizes out files b).1 = .ok () →
    (presignedLinks codecs quote cfg urls out ids files' b).1 = .ok ()
  same : ∀ id,
    (directLinks codecs quote cfg sizes out files b).2.objects.lookup (.debugInfo id) =
      (presignedLinks codecs quote cfg urls out ids files' b).2.objects.lookup (.debugInfo id)
  complete : ∀ f ∈ out.files,
    (directLinks codecs quote cfg sizes out files b).2.has (.debugInfo f.buildId) = true
  kept : ∀ id content, b.objects.lookup (.debugInfo id) = some content →
    (directLinks codecs quote cfg sizes out files b).2.objects.lookup (.debugInfo id) =
      some content

end Routes

/-! ## What a run over the files does -/

/-- The client makes the link of the file: its object becomes what `g` makes
of the old one, and no other object changes. -/
def Makes (create : LinkClient) (g : DebugFile → Option Bytes → Option Bytes) (f : DebugFile) :
    Prop :=
  ∀ b, ∃ b', create f b = (.ok (), b') ∧
    b'.objects.lookup (.debugInfo f.buildId) = g f (b.objects.lookup (.debugInfo f.buildId)) ∧
    ∀ name, name ≠ .debugInfo f.buildId → b'.objects.lookup name = b.objects.lookup name

theorem processDebugInfo_spec {create : LinkClient} {g : DebugFile → Option Bytes → Option Bytes}
    {files : List DebugFile} (hnodup : (files.map DebugFile.buildId).Nodup)
    (h : ∀ f ∈ files, Makes create g f) (b : Bucket) :
    ∃ b', processDebugInfo create files b = (.ok (), b') ∧
      (∀ f ∈ files, b'.objects.lookup (.debugInfo f.buildId) =
        g f (b.objects.lookup (.debugInfo f.buildId))) ∧
      ∀ id, id ∉ files.map DebugFile.buildId →
        b'.objects.lookup (.debugInfo id) = b.objects.lookup (.debugInfo id) := by
  induction files generalizing b with
  | nil => exact ⟨b, rfl, fun f hf => absurd hf List.not_mem_nil, fun id _ => rfl⟩
  | cons f files ih =>
    rw [List.map_cons, List.nodup_cons] at hnodup
    obtain ⟨hnew, hnodup⟩ := hnodup
    obtain ⟨b₁, hcreate, hlink, hframe⟩ := h f List.mem_cons_self b
    obtain ⟨b', hrun, hlinks, hrest⟩ :=
      ih hnodup (fun g hg => h g (List.mem_cons_of_mem _ hg)) b₁
    have hframe' : ∀ id, id ≠ f.buildId →
        b₁.objects.lookup (.debugInfo id) = b.objects.lookup (.debugInfo id) :=
      fun id hne => hframe _ (fun heq => hne (ObjectKey.debugInfo.inj heq))
    refine ⟨b', by rw [processDebugInfo, hcreate]; exact hrun, ?_, ?_⟩
    · intro f' hf'
      rcases List.mem_cons.mp hf' with rfl | hf'
      · rw [hrest _ hnew, hlink]
      · have hne : f'.buildId ≠ f.buildId :=
          fun heq => hnew (heq ▸ List.mem_map_of_mem hf')
        rw [hlinks f' hf', hframe' _ hne]
    · intro id hid
      rw [List.map_cons, List.mem_cons, not_or] at hid
      rw [hrest id hid.2, hframe' id hid.1]

/-- One link that always fails makes the run fail. -/
theorem processDebugInfo_fails {create : LinkClient} {files : List DebugFile} {f : DebugFile}
    (hf : f ∈ files) (h : ∀ b, (create f b).1 ≠ .ok ()) (b : Bucket) :
    (processDebugInfo create files b).1 ≠ .ok () := by
  induction files generalizing b with
  | nil => cases hf
  | cons f' files ih =>
    rw [processDebugInfo]
    cases hcreate : create f' b with
    | mk res b' =>
      cases res with
      | error e =>
        intro heq
        cases heq
      | ok u =>
        rcases List.mem_cons.mp hf with rfl | hf
        · exact absurd (congrArg Prod.fst hcreate) (h b)
        · exact ih hf b'

/-- A client that changes nothing leaves the bucket. -/
theorem processDebugInfo_unchanged {create : LinkClient} (h : ∀ f b, (create f b).2 = b)
    (files : List DebugFile) (b : Bucket) : (processDebugInfo create files b).2 = b := by
  induction files with
  | nil => rfl
  | cons f files ih =>
    have hsnd := h f b
    rw [processDebugInfo]
    cases hcreate : create f b with
    | mk res b' =>
      obtain rfl : b' = b := by rw [← hsnd, hcreate]
      cases res with
      | error e => rfl
      | ok u => exact ih

/-- A client that keeps every link leaves the bucket. -/
theorem processDebugInfo_kept {create : LinkClient} {files : List DebugFile} {b : Bucket}
    (h : ∀ f ∈ files, create f b = (.ok (), b)) :
    processDebugInfo create files b = (.ok (), b) := by
  induction files with
  | nil => rfl
  | cons f files ih =>
    rw [processDebugInfo, h f List.mem_cons_self]
    exact ih (fun g hg => h g (List.mem_cons_of_mem _ hg))

section Clients

variable (codecs : Codecs) (quote : String → String) (cfg : S3CacheConfig)

theorem toJson_ne_nil (l : DebugInfoLink) : l.toJson quote ≠ [] := by
  intro hnil
  have hsize : ("\x7b\"archive\":" ++ quote l.archive ++ ",\"member\":" ++ quote l.member ++
      "\x7d").utf8ByteSize = 0 := by
    rw [← String.size_toByteArray]
    exact congrArg List.length hnil
  rw [String.utf8ByteSize_append] at hsize
  exact absurd (Nat.eq_zero_of_add_eq_zero_left hsize) (by decide)

/-- What the direct upload makes of a link: an empty buffer takes nothing of
it. -/
def directContent (content : Bytes) : Bytes := if cfg.bufferSize = 0 then [] else content

theorem uploadFile_zero_default (sizes : Nat → Nat) (name : ObjectKey) (data : Bytes)
    (b : Bucket) :
    ∃ r, uploadFile sizes {} 0 name { rest := data } b = (.ok (), r, b.put name []) := by
  simp [uploadFile, Reader.readChunk, Reader.readLoop, runMultipartUpload, multipartLoop]

/-- The direct client keeps a link and makes a missing one. -/
theorem makes_createDebugInfoLink (hsize : cfg.bufferSize ≤ isizeMax) (sizes : Nat → Nat)
    (narUrl : String) (f : DebugFile) :
    Makes (createDebugInfoLink quote cfg sizes narUrl)
      (fun f old => some (old.getD (directContent cfg ((f.link narUrl).toJson quote)))) f := by
  intro b
  unfold createDebugInfoLink
  split_ifs with hhas
  · refine ⟨b, rfl, ?_, fun _ _ => rfl⟩
    obtain ⟨content, hcontent⟩ := Option.isSome_iff_exists.mp hhas
    rw [hcontent]
    rfl
  · have hnone := Bucket.lookup_of_not_has (Bool.eq_false_iff.mpr hhas)
    obtain ⟨r, hupload⟩ : ∃ r, uploadFile sizes {} cfg.bufferSize (.debugInfo f.buildId)
        { rest := (f.link narUrl).toJson quote } b = (.ok (), r, b.put (.debugInfo f.buildId)
          (directContent cfg ((f.link narUrl).toJson quote))) := by
      unfold directContent
      split_ifs with hzero
      · rw [hzero]
        exact uploadFile_zero_default sizes _ _ b
      · obtain ⟨r, hr, -⟩ := uploadFile_default (Nat.pos_of_ne_zero hzero) sizes
          (.debugInfo f.buildId) ((f.link narUrl).toJson quote) b
        exact ⟨r, hr⟩
    obtain ⟨stats, hcounted, -⟩ := uploadFileCounted_eq hsize hupload {}
    refine ⟨_, by rw [hcounted], ?_, ?_⟩
    · rw [hnone, Bucket.put, AList.lookup_insert]
      rfl
    · intro name hne
      rw [Bucket.put, AList.lookup_insert_ne hne]

/-- With a buffer that cannot be made the direct client makes nothing. -/
theorem createDebugInfoLink_panic (hsize : ¬ cfg.bufferSize ≤ isizeMax) (sizes : Nat → Nat)
    (narUrl : String) (f : DebugFile) (b : Bucket) :
    (createDebugInfoLink quote cfg sizes narUrl f b).2 = b := by
  unfold createDebugInfoLink
  split_ifs
  · rfl
  · rw [uploadFileCounted, bufferCapacity, if_neg hsize]
    rfl

/-- The presigned upload of one link. -/
def linkUpload (urls : PresignedUrls) (id : String) : Wire.PresignedUpload where
  path := "debuginfo/" ++ id
  url := urls.url ("debuginfo/" ++ id)
  compression := .none
  compressionLevel := .default

/-- The presigned uploads of the missing links. -/
def missingUploads (urls : PresignedUrls) (b : Bucket) (ids : List String) :
    List Wire.PresignedUpload :=
  (ids.filter (fun id => !b.has (.debugInfo id))).map (linkUpload urls)

theorem linkObject_key (id : String) : linkObject ("debuginfo/" ++ id) = some (.debugInfo id) := by
  have hstrip : stripPrefix "debuginfo/" ("debuginfo/" ++ id) = some id :=
    stripPrefix_eq_some_iff.mpr rfl
  rw [linkObject, hstrip, Option.map_some]

/-- The queue runner signs a URL for every missing link. -/
theorem debugInfoUploads_eq (hwrite : cfg.writeDebugInfo = true) (urls : PresignedUrls)
    (b : Bucket) (ids : List String) :
    Wire.debugInfoUploads cfg (urls.client b) ids = .ok (missingUploads urls b ids) := by
  have hone : ∀ id, Wire.debugInfoUpload (urls.client b) id =
      .ok (if b.has (.debugInfo id) then none else some (linkUpload urls id)) := by
    intro id
    simp only [Wire.debugInfoUpload, PresignedUrls.client, linkObject_key, Option.any_some,
      Option.getD_some]
    split_ifs <;> rfl
  have hmissing : (ids.map (fun id =>
      if b.has (.debugInfo id) then none else some (linkUpload urls id))).reduceOption =
      missingUploads urls b ids := by
    unfold missingUploads
    induction ids with
    | nil => rfl
    | cons id ids ih =>
      rw [List.map_cons, List.filter_cons]
      cases hhas : b.has (.debugInfo id) with
      | true => simpa [hhas] using ih
      | false => simpa [hhas] using ih
  have hall : ids.mapM (Wire.debugInfoUpload (urls.client b)) = .ok (ids.map (fun id =>
      if b.has (.debugInfo id) then none else some (linkUpload urls id))) := by
    rw [funext hone]
    exact List.mapM_pure
  unfold Wire.debugInfoUploads
  cases ids with
  | nil => rw [if_neg (by simp)]; rfl
  | cons id ids =>
    rw [if_pos (by simp [hwrite]), hall]
    exact congrArg Except.ok hmissing

/-- A link that is missing has its upload among them, and one that is there
has none. -/
theorem find_missingUploads (urls : PresignedUrls) (b : Bucket) {ids : List String}
    {f : DebugFile} (hf : f.buildId ∈ ids) :
    (missingUploads urls b ids).find? (fun presigned => presigned.path = f.key) =
      if b.has (.debugInfo f.buildId) then none else some (linkUpload urls f.buildId) := by
  have hkey : ∀ p ∈ missingUploads urls b ids, p.path = f.key →
      b.has (.debugInfo f.buildId) = false ∧ p = linkUpload urls f.buildId := by
    intro p hp heq
    obtain ⟨id, hid, rfl⟩ := List.mem_map.mp hp
    have hsame : id = f.buildId := by
      have hlist := congrArg String.toList heq
      rw [linkUpload, DebugFile.key, String.toList_append, String.toList_append,
        List.append_cancel_left_eq] at hlist
      exact String.toList_inj.mp hlist
    rw [hsame] at hid ⊢
    exact ⟨by simpa using (List.mem_filter.mp hid).2, rfl⟩
  split_ifs with hhas
  · rw [List.find?_eq_none]
    intro p hp heq
    rw [(hkey p hp (of_decide_eq_true heq)).1] at hhas
    cases hhas
  · have hmem : linkUpload urls f.buildId ∈ missingUploads urls b ids :=
      List.mem_map_of_mem (List.mem_filter.mpr ⟨hf, by simpa using hhas⟩)
    obtain ⟨p, hp⟩ : ∃ p, (missingUploads urls b ids).find?
        (fun presigned => presigned.path = f.key) = some p :=
      Option.isSome_iff_exists.mp (List.find?_isSome.mpr ⟨_, hmem, decide_eq_true rfl⟩)
    have hpath : p.path = f.key := by simpa using List.find?_some hp
    rw [hp, (hkey p (List.mem_of_find?_eq_some hp) hpath).2]

/-- The queue runner describes the uploads of a path.  The URL of the NAR is
the one of the direct route, since the hash is in base 32 already. -/
theorem generate_links (hwrite : cfg.writeDebugInfo = true) (urls : PresignedUrls)
    (out : DebugOutput) (b : Bucket) (ids : List String) :
    ∃ r, Wire.generateNarUploadPresignedUrl cfg (urls.client b) out.path out.info.narHash ids =
        .ok r ∧
      r.narUrl = out.narUrl codecs cfg.compression ∧
      r.debugInfoUpload = missingUploads urls b ids := by
  obtain ⟨digest, hnarHash, hdigest⟩ := out.narHash
  have hstrip : stripPrefix "sha256:" out.info.narHash = some digest :=
    stripPrefix_eq_some_iff.mpr hnarHash
  have hshort : ¬ out.info.narHash.utf8ByteSize = 71 := by
    have halg : "sha256:".utf8ByteSize = 7 := by decide
    rw [hnarHash, String.utf8ByteSize_append, halg]
    omega
  have hhash : Wire.narHashUrl out.path out.info.narHash = .ok digest := by
    rw [Wire.narHashUrl, hstrip]
  obtain ⟨ls, hls⟩ : ∃ ls, Wire.listingUpload cfg (urls.client b) out.path = .ok ls := by
    unfold Wire.listingUpload
    split_ifs
    · exact ⟨_, Fallible.bind_ok_iff.mpr
        ⟨_, by rw [Wire.hashPart, out.wellFormed.hashPartChecked]; rfl, rfl⟩⟩
    · exact ⟨_, rfl⟩
  refine ⟨_, Fallible.bind_ok_iff.mpr ⟨_, hhash, Fallible.bind_ok_iff.mpr ⟨_, rfl,
    Fallible.bind_ok_iff.mpr ⟨_, hls, Fallible.bind_ok_iff.mpr
      ⟨_, debugInfoUploads_eq cfg hwrite urls b ids, rfl⟩⟩⟩⟩, ?_, rfl⟩
  simp only [DebugOutput.narUrl, NarInfo.new, if_neg hshort, hstrip, Option.getD_some,
    NarInfo.urlText]

/-- The builder's client makes the link whose URL was signed. -/
theorem makes_createPresignedDebugInfoLink (urls : PresignedUrls)
    (uploads : List Wire.PresignedUpload) (narUrl : String) (f : DebugFile)
    (hfind : uploads.find? (fun presigned => presigned.path = f.key) =
      some (linkUpload urls f.buildId)) :
    Makes (createPresignedDebugInfoLink codecs quote urls uploads narUrl)
      (fun f _ => some ((f.link narUrl).toJson quote)) f := by
  intro b
  have hput : uploadJson codecs urls (linkUpload urls f.buildId) ((f.link narUrl).toJson quote) b =
      b.put (.debugInfo f.buildId) ((f.link narUrl).toJson quote) := by
    simp only [uploadJson, linkUpload, urls.target_url, Option.bind_some, linkObject_key,
      Codecs.compress]
  refine ⟨b.put (.debugInfo f.buildId) ((f.link narUrl).toJson quote), ?_, ?_, ?_⟩
  · simp only [createPresignedDebugInfoLink, hfind, hput]
  · rw [Bucket.put, AList.lookup_insert]
  · intro name hne
    rw [Bucket.put, AList.lookup_insert_ne hne]

/-- The links of the builder, with the URLs that it gets. -/
theorem presignedLinks_eq (hwrite : cfg.writeDebugInfo = true) (urls : PresignedUrls)
    (out : DebugOutput) (b : Bucket) (ids : List String) (files : List DebugFile) :
    presignedLinks codecs quote cfg urls out ids files b =
      if missingUploads urls b ids = [] then (.ok (), b)
      else
        (processDebugInfo (createPresignedDebugInfoLink codecs quote urls
          (missingUploads urls b ids) (out.narUrl codecs cfg.compression)) files b).map
            (Except.mapError .client) id := by
  obtain ⟨r, hr, hnarUrl, hdebug⟩ := generate_links codecs cfg hwrite urls out b ids
  have hsame : r.debugInfoUpload.map (fun u => Wire.decodeUpload (Wire.encodeUpload u)) =
      missingUploads urls b ids := by
    rw [hdebug]
    conv => rhs; rw [← List.map_id (missingUploads urls b ids)]
    refine List.map_congr_left (fun u hu => ?_)
    obtain ⟨id, -, rfl⟩ := List.mem_map.mp hu
    exact Wire.decodeUpload_eq Wire.wireLevel_default
  rw [presignedLinks, if_pos hwrite, hr]
  simp only [Wire.decodeResponse_encodeResponse, processPresignedLinks, hsame, hnarUrl]

/-- The links of the queue runner. -/
theorem directLinks_eq (hwrite : cfg.writeDebugInfo = true) (sizes : Nat → Nat)
    (out : DebugOutput) (b : Bucket) (files : List DebugFile) :
    directLinks codecs quote cfg sizes out files b =
      (processDebugInfo (createDebugInfoLink quote cfg sizes
        (out.narUrl codecs cfg.compression)) files b).map (Except.mapError .client) id := by
  rw [directLinks, if_pos hwrite]

/-- With a buffer that can be made the direct route makes the missing links. -/
theorem directLinks_spec (hwrite : cfg.writeDebugInfo = true) (hsize : cfg.bufferSize ≤ isizeMax)
    (sizes : Nat → Nat) (out : DebugOutput) (b : Bucket) {files : List DebugFile}
    (hnodup : (files.map DebugFile.buildId).Nodup) :
    ∃ b', directLinks codecs quote cfg sizes out files b = (.ok (), b') ∧
      (∀ f ∈ files, b'.objects.lookup (.debugInfo f.buildId) =
        some ((b.objects.lookup (.debugInfo f.buildId)).getD (directContent cfg
          ((f.link (out.narUrl codecs cfg.compression)).toJson quote)))) ∧
      ∀ id, id ∉ files.map DebugFile.buildId →
        b'.objects.lookup (.debugInfo id) = b.objects.lookup (.debugInfo id) := by
  obtain ⟨b', hrun, hlinks, hrest⟩ := processDebugInfo_spec hnodup
    (fun f _ => makes_createDebugInfoLink quote cfg hsize sizes
      (out.narUrl codecs cfg.compression) f) b
  exact ⟨b', by rw [directLinks_eq codecs quote cfg hwrite, hrun]; rfl, hlinks, hrest⟩

/-- When no link is there the builder makes them all. -/
theorem presignedLinks_spec (hwrite : cfg.writeDebugInfo = true) (urls : PresignedUrls)
    (out : DebugOutput) (b : Bucket) {ids : List String} {files : List DebugFile}
    (hnodup : (files.map DebugFile.buildId).Nodup)
    (hids : ∀ f ∈ files, f.buildId ∈ ids)
    (hnone : ∀ f ∈ files, b.has (.debugInfo f.buildId) = false) :
    ∃ b', presignedLinks codecs quote cfg urls out ids files b = (.ok (), b') ∧
      (∀ f ∈ files, b'.objects.lookup (.debugInfo f.buildId) =
        some ((f.link (out.narUrl codecs cfg.compression)).toJson quote)) ∧
      ∀ id, id ∉ files.map DebugFile.buildId →
        b'.objects.lookup (.debugInfo id) = b.objects.lookup (.debugInfo id) := by
  have hfind : ∀ f ∈ files, (missingUploads urls b ids).find?
      (fun presigned => presigned.path = f.key) = some (linkUpload urls f.buildId) := by
    intro f hf
    rw [find_missingUploads urls b (hids f hf), if_neg (by rw [hnone f hf]; decide)]
  rw [presignedLinks_eq codecs quote cfg hwrite]
  split_ifs with hmissing
  · -- nothing was signed, so there is no file
    have hfiles : ∀ f, f ∉ files := by
      intro f hf
      have hsigned := hfind f hf
      rw [hmissing] at hsigned
      cases hsigned
    exact ⟨b, rfl, fun f hf => absurd hf (hfiles f), fun id _ => rfl⟩
  · obtain ⟨b', hrun, hlinks, hrest⟩ := processDebugInfo_spec hnodup
      (fun f hf => makes_createPresignedDebugInfoLink codecs quote urls _
        (out.narUrl codecs cfg.compression) f (hfind f hf)) b
    exact ⟨b', by rw [hrun]; rfl, hlinks, hrest⟩

/-- A link that is there makes the builder fail when another one is missing. -/
theorem presignedLinks_fails (hwrite : cfg.writeDebugInfo = true) (urls : PresignedUrls)
    (out : DebugOutput) (b : Bucket) {ids : List String} {files : List DebugFile}
    (hids : ∀ f ∈ files, f.buildId ∈ ids) {f f' : DebugFile} (hf : f ∈ files) (hf' : f' ∈ files)
    (hmissing : b.has (.debugInfo f.buildId) = false)
    (hpresent : b.has (.debugInfo f'.buildId) = true) :
    (presignedLinks codecs quote cfg urls out ids files b).1 ≠ .ok () := by
  have hsigned := find_missingUploads urls b (hids f hf)
  rw [if_neg (by rw [hmissing]; decide)] at hsigned
  have hne : missingUploads urls b ids ≠ [] := by
    intro hnil
    rw [hnil] at hsigned
    cases hsigned
  have hunsigned := find_missingUploads urls b (hids f' hf')
  rw [if_pos hpresent] at hunsigned
  have hfails : ∀ b', (createPresignedDebugInfoLink codecs quote urls (missingUploads urls b ids)
      (out.narUrl codecs cfg.compression) f' b').1 ≠ .ok () := by
    intro b' heq
    simp only [createPresignedDebugInfoLink, hunsigned] at heq
    cases heq
  rw [presignedLinks_eq codecs quote cfg hwrite, if_neg hne]
  intro heq
  exact processDebugInfo_fails hf' hfails b (Fallible.mapError_ok_iff.mp heq)

/-- The two routes agree in whatever order the directory is read. -/
def LinksFaithful (urls : PresignedUrls) (out : DebugOutput) (b : Bucket) : Prop :=
  ∀ sizes ids files files', ids.Perm (out.files.map DebugFile.buildId) →
    files.Perm out.files → files'.Perm out.files →
      LinksAgree codecs quote cfg urls sizes out b ids files files'

theorem nodup_files (out : DebugOutput) : (out.files.map DebugFile.buildId).Nodup := by
  unfold DebugOutput.files
  cases out.dir with
  | none => exact List.nodup_nil
  | some dir => exact nodup_findDebugFiles dir

/-- When every link is there neither route does anything. -/
theorem linksFaithful_of_present (hwrite : cfg.writeDebugInfo = true) (urls : PresignedUrls)
    (out : DebugOutput) (b : Bucket)
    (hall : ∀ f ∈ out.files, b.has (.debugInfo f.buildId) = true) :
    LinksFaithful codecs quote cfg urls out b := by
  intro sizes ids files files' hids hfiles hfiles'
  have hdirect : directLinks codecs quote cfg sizes out files b = (.ok (), b) := by
    have hkept : ∀ f ∈ files, createDebugInfoLink quote cfg sizes
        (out.narUrl codecs cfg.compression) f b = (.ok (), b) :=
      fun f hf => if_pos (hall f (hfiles.mem_iff.mp hf))
    rw [directLinks_eq codecs quote cfg hwrite, processDebugInfo_kept hkept]
    rfl
  have hmissing : missingUploads urls b ids = [] := by
    rw [missingUploads, List.map_eq_nil_iff, List.filter_eq_nil_iff]
    intro id hid
    obtain ⟨f, hf, rfl⟩ := List.mem_map.mp (hids.mem_iff.mp hid)
    simp [hall f hf]
  have hpresigned : presignedLinks codecs quote cfg urls out ids files' b = (.ok (), b) := by
    rw [presignedLinks_eq codecs quote cfg hwrite, if_pos hmissing]
  refine ⟨fun _ => by rw [hpresigned], fun id => by rw [hdirect, hpresigned], ?_, ?_⟩
  · rw [hdirect]
    exact hall
  · rw [hdirect]
    exact fun id content hcontent => hcontent

/-- When no link is there both routes make them all. -/
theorem linksFaithful_of_missing (hwrite : cfg.writeDebugInfo = true) (urls : PresignedUrls)
    (out : DebugOutput) (b : Bucket)
    (hnone : ∀ f ∈ out.files, b.has (.debugInfo f.buildId) = false)
    (hpos : 0 < cfg.bufferSize) (hsize : cfg.bufferSize ≤ isizeMax) :
    LinksFaithful codecs quote cfg urls out b := by
  intro sizes ids files files' hids hfiles hfiles'
  have hlookup := fun f hf => Bucket.lookup_of_not_has (hnone f hf)
  have hnodup : ∀ l : List DebugFile, l.Perm out.files → (l.map DebugFile.buildId).Nodup :=
    fun l hl => (hl.map _).nodup_iff.mpr (nodup_files out)
  obtain ⟨b₁, hdirect, hlinks, hrest⟩ :=
    directLinks_spec codecs quote cfg hwrite hsize sizes out b (hnodup files hfiles)
  have hsigned : ∀ f ∈ files', f.buildId ∈ ids :=
    fun f hf => hids.mem_iff.mpr (List.mem_map_of_mem (hfiles'.mem_iff.mp hf))
  obtain ⟨b₂, hpresigned, hlinks', hrest'⟩ :=
    presignedLinks_spec codecs quote cfg hwrite urls out b (hnodup files' hfiles') hsigned
      (fun f hf => hnone f (hfiles'.mem_iff.mp hf))
  have hmade : ∀ f ∈ out.files, b₁.objects.lookup (.debugInfo f.buildId) =
      some ((f.link (out.narUrl codecs cfg.compression)).toJson quote) := by
    intro f hf
    rw [hlinks f (hfiles.mem_iff.mpr hf), hlookup f hf, Option.getD_none, directContent,
      if_neg (by omega)]
  have hframe : ∀ id, id ∉ out.files.map DebugFile.buildId →
      b₁.objects.lookup (.debugInfo id) = b.objects.lookup (.debugInfo id) :=
    fun id hid => hrest id (fun hmem => hid ((hfiles.map _).mem_iff.mp hmem))
  refine ⟨fun _ => by rw [hpresigned], fun id => ?_, fun f hf => ?_, fun id content hcontent => ?_⟩
  · rw [hdirect, hpresigned]
    by_cases hid : id ∈ out.files.map DebugFile.buildId
    · obtain ⟨f, hf, rfl⟩ := List.mem_map.mp hid
      rw [hmade f hf, hlinks' f (hfiles'.mem_iff.mpr hf)]
    · rw [hframe id hid, hrest' id (fun hmem => hid ((hfiles'.map _).mem_iff.mp hmem))]
  · rw [hdirect, Bucket.has, hmade f hf]
    rfl
  · rw [hdirect]
    by_cases hid : id ∈ out.files.map DebugFile.buildId
    · obtain ⟨f, hf, rfl⟩ := List.mem_map.mp hid
      rw [hlookup f hf] at hcontent
      cases hcontent
    · rw [hframe id hid, hcontent]

end Clients

/-- The two routes leave the same links exactly when all of them are there,
or none is and the buffer of the direct upload can be made and is not
empty. -/
theorem linksAgree_iff (codecs : Codecs) (quote : String → String) (cfg : S3CacheConfig)
    (hwrite : cfg.writeDebugInfo = true) (urls : PresignedUrls) (out : DebugOutput) (b : Bucket) :
    LinksFaithful codecs quote cfg urls out b ↔
      (∀ f ∈ out.files, b.has (.debugInfo f.buildId) = true) ∨
        (∀ f ∈ out.files, b.has (.debugInfo f.buildId) = false) ∧
          0 < cfg.bufferSize ∧ cfg.bufferSize ≤ isizeMax := by
  constructor
  · intro h
    by_cases hall : ∀ f ∈ out.files, b.has (.debugInfo f.buildId) = true
    · exact .inl hall
    simp only [not_forall, Bool.not_eq_true] at hall
    obtain ⟨f₀, hf₀, hmissing⟩ := hall
    have hagree := h (fun _ => 1) _ _ _ (.refl _) (.refl _) (.refl _)
    have hids : ∀ f ∈ out.files, f.buildId ∈ out.files.map DebugFile.buildId :=
      fun f hf => List.mem_map_of_mem hf
    have hsize : cfg.bufferSize ≤ isizeMax := by
      by_contra hlarge
      have hcomplete := hagree.complete f₀ hf₀
      rw [directLinks_eq codecs quote cfg hwrite] at hcomplete
      have hsame := processDebugInfo_unchanged (createDebugInfoLink_panic quote cfg hlarge
        (fun _ => 1) (out.narUrl codecs cfg.compression)) out.files b
      rw [Prod.map_snd, id_eq, hsame, hmissing] at hcomplete
      cases hcomplete
    obtain ⟨b₁, hdirect, hlinks, -⟩ := directLinks_spec codecs quote cfg hwrite hsize
      (fun _ => 1) out b (nodup_files out)
    have hok := hagree.succeeds (by rw [hdirect])
    have hnone : ∀ f ∈ out.files, b.has (.debugInfo f.buildId) = false := by
      intro f hf
      by_contra hpresent
      exact presignedLinks_fails codecs quote cfg hwrite urls out b hids hf₀ hf hmissing
        (Bool.not_eq_false _ ▸ hpresent) hok
    refine .inr ⟨hnone, Nat.pos_of_ne_zero (fun hzero => ?_), hsize⟩
    -- the direct link is empty, and the other one is not
    obtain ⟨b₂, hpresigned, hlinks', -⟩ :=
      presignedLinks_spec codecs quote cfg hwrite urls out b (nodup_files out) hids hnone
    have hsame := hagree.same f₀.buildId
    rw [hdirect, hpresigned, hlinks f₀ hf₀, hlinks' f₀ hf₀, Bucket.lookup_of_not_has hmissing,
      Option.getD_none, directContent, if_pos hzero] at hsame
    exact toJson_ne_nil quote _ (Option.some.inj hsame).symm
  · rintro (hall | ⟨hnone, hpos, hsize⟩)
    · exact linksFaithful_of_present codecs quote cfg hwrite urls out b hall
    · exact linksFaithful_of_missing codecs quote cfg hwrite urls out b hnone hpos hsize

namespace Sample

/-- Two debug files in one directory. -/
def buildIdDir : BuildIdDir where
  entries :=
    [{ name := "ab", isDir := true
       entries :=
        [⟨"cdef1234567890123456789012345678901234.debug", true⟩,
          ⟨"cdef1234567890123456789012345678901235.debug", true⟩] }]
  distinct := by decide
  distinctFiles := by decide

/-- A path with the two files. -/
def debugOutput : DebugOutput where
  path := helloNarInfo.storePath
  wellFormed :=
    ⟨"26xbg1ndr7hbcncrlf9nhx5is2b25d13".toList, "hello-2.12.1".toList, by decide, by decide,
      List.all_eq_true.mp (by decide), by decide, List.all_eq_true.mp (by decide)⟩
  info := { narHash := helloNarInfo.narHash, narSize := 226488 }
  narHash := ⟨"0yzhigwjl6bws649vcs2asa4lbs8hg93hyix187gc7s7a74w5h80", by decide⟩
  dir := some buildIdDir

/-- URLs that are the keys. -/
def keyUrls : PresignedUrls where
  url key := key
  target url := some url
  target_url _ := rfl

/-- A cache with debug info links. -/
def debugCache : S3CacheConfig where
  clientConfig := { bucket := "cache" }
  writeDebugInfo := true

end Sample

/-- In an empty bucket both routes make the two links. -/
theorem linksAgree_hello :
    LinksFaithful Sample.codecs id Sample.debugCache Sample.keyUrls Sample.debugOutput
      { objects := ∅ } :=
  (linksAgree_iff Sample.codecs id Sample.debugCache rfl Sample.keyUrls Sample.debugOutput
    { objects := ∅ }).mpr (.inr ⟨by decide +kernel, by decide, by decide⟩)

/-- One of two links is there: the queue runner makes the other one, and the
builder fails. -/
theorem linksAgree_fails :
    ¬ ∀ (codecs : Codecs) (quote : String → String) (cfg : S3CacheConfig),
      cfg.writeDebugInfo = true → ∀ (urls : PresignedUrls) (out : DebugOutput) (b : Bucket),
        LinksFaithful codecs quote cfg urls out b := by
  intro h
  have hagree := h Sample.codecs id Sample.debugCache rfl Sample.keyUrls Sample.debugOutput
    (Bucket.put { objects := ∅ } (.debugInfo "abcdef1234567890123456789012345678901234") [])
    (fun _ => 1) _ _ _ (.refl _) (.refl _) (.refl _)
  obtain ⟨b₁, hdirect, -⟩ := directLinks_spec Sample.codecs id Sample.debugCache rfl (by decide)
    (fun _ => 1) Sample.debugOutput
    (Bucket.put { objects := ∅ } (.debugInfo "abcdef1234567890123456789012345678901234") [])
    (nodup_files Sample.debugOutput)
  have hmissing : (⟨"abcdef1234567890123456789012345678901235",
      "lib/debug/.build-id/ab/cdef1234567890123456789012345678901235.debug"⟩ : DebugFile) ∈
      Sample.debugOutput.files := by decide +kernel
  have hpresent : (⟨"abcdef1234567890123456789012345678901234",
      "lib/debug/.build-id/ab/cdef1234567890123456789012345678901234.debug"⟩ : DebugFile) ∈
      Sample.debugOutput.files := by decide +kernel
  exact presignedLinks_fails Sample.codecs id Sample.debugCache rfl Sample.keyUrls
    Sample.debugOutput _ (fun f hf => List.mem_map_of_mem hf) hmissing hpresent
    (by decide +kernel) (by decide +kernel) (hagree.succeeds (by rw [hdirect]))

end QueueRunner
