import QueueRunner.NarInfoText

/-!
# The configuration of a binary cache

`S3CacheConfig::from_str` of `crates/binary-cache/src/cfg.rs` reads the
configuration of a cache from its URL.  The URL is parsed by a package,
`parseUrl`; what follows are the settings in the query, each with its
parser and its default.  The first value that does not parse is the error.

The builder `with_*` sets one field at a time, and `fromQuery_eq_build` says
that the settings of the query go through it.  `with_write_realisation` is not
called.

The expiry of the presigned URLs is checked against its bounds.  The size of
the buffer is not: every number of 64 bits is accepted (`fromStr_bufferSize`).
-/

namespace QueueRunner

/-- `S3Scheme`. -/
inductive S3Scheme where
  | http
  | https
deriving DecidableEq, Repr

/-- `FromStr for S3Scheme`. -/
def S3Scheme.fromStr (s : String) : Except String S3Scheme :=
  match toAsciiLowercase (trim s) with
  | "http" => .ok .http
  | "https" => .ok .https
  | v => .error v

/-- `S3ClientConfig`, without the credentials, which the URL does not set. -/
structure S3ClientConfig where
  region : String := "us-east-1"
  scheme : S3Scheme := .https
  endpoint : Option String := none
  bucket : String
  profile : Option String := none

/-- `S3CacheConfig`. -/
structure S3CacheConfig where
  clientConfig : S3ClientConfig
  compression : Compression := .xz
  writeNarListing : Bool := false
  writeDebugInfo : Bool := false
  writeRealisation : Bool := false
  secretKeyFiles : List String := []
  parallelCompression : Bool := false
  compressionLevel : Option Int32 := none
  narinfoCompression : Compression := .none
  lsCompression : Compression := .none
  logCompression : Compression := .none
  bufferSize : Nat := 8 * 1024 * 1024
  /-- In seconds. -/
  presignedUrlExpiry : Nat := 3600

/-- `UrlParseError`. -/
inductive UrlParseError where
  | uriParseError
  | intParseError (e : Text.IntErrorKind)
  | s3SchemeParseError (v : String)
  | compressionParseError (v : String)
  | badSchema (scheme : String)
  | noBucket
  | invalidPresignedUrlExpiry (secs low high : Nat)
deriving DecidableEq, Repr

/-- What `url::Url` gives of a URL. -/
structure Url where
  scheme : String
  authority : String
  queryPairs : List (String × String)

/-- The query as a `HashMap`: of two pairs with one key the last one stays. -/
def Url.get (url : Url) (key : String) : Option String :=
  (url.queryPairs.reverse.find? (fun pair => pair.1 = key)).map Prod.snd

/-- The settings that are on when they are `1` or `true`. -/
def isSet (s : String) : Bool :=
  toAsciiLowercase (trim s) = "1" ∨ toAsciiLowercase (trim s) = "true"

/-- `transpose` of a setting that is parsed. -/
def parseSetting {α ε : Type} (wrap : ε → UrlParseError) (parse : String → Except ε α) :
    Option String → Except UrlParseError (Option α)
  | none => .ok none
  | some s => ((parse s).mapError wrap).map some

def parseUsize (s : String) : Except Text.IntErrorKind Nat := Text.parseNat (2 ^ 64) s.toList

def parseI32 (s : String) : Except Text.IntErrorKind Int32 :=
  (Text.parseInt (2 ^ 31) s.toList).map Int32.ofInt

/-- `with_presigned_url_expiry`. -/
def checkPresignedUrlExpiry : Option Nat → Except UrlParseError Nat
  | none => .ok 3600
  | some secs =>
    if 60 ≤ secs ∧ secs ≤ 24 * 60 * 60 then .ok secs
    else .error (.invalidPresignedUrlExpiry secs 60 (24 * 60 * 60))

/-- The settings of the query. -/
def S3CacheConfig.fromQuery (bucket : String) (url : Url) : Except UrlParseError S3CacheConfig := do
  let scheme ← parseSetting .s3SchemeParseError S3Scheme.fromStr (url.get "scheme")
  let clientConfig : S3ClientConfig :=
    { region := (url.get "region").getD "us-east-1"
      scheme := scheme.getD .https
      endpoint := url.get "endpoint"
      bucket := bucket
      profile := url.get "profile" }
  let compression ← parseSetting .compressionParseError Compression.fromStr
    (url.get "compression")
  let compressionLevel ← parseSetting .intParseError parseI32 (url.get "compression-level")
  let narinfoCompression ← parseSetting .compressionParseError Compression.fromStr
    (url.get "narinfo-compression")
  let lsCompression ← parseSetting .compressionParseError Compression.fromStr
    (url.get "ls-compression")
  let logCompression ← parseSetting .compressionParseError Compression.fromStr
    (url.get "log-compression")
  let bufferSize ← parseSetting .intParseError parseUsize (url.get "buffer-size")
  let expiry ← parseSetting .intParseError parseUsize (url.get "presigned-url-expiry")
  let presignedUrlExpiry ← checkPresignedUrlExpiry expiry
  return {
    clientConfig := clientConfig
    compression := compression.getD .xz
    writeNarListing := ((url.get "write-nar-listing").map isSet).getD false
    writeDebugInfo := ((url.get "write-debug-info").map isSet).getD false
    secretKeyFiles :=
      ((url.get "secret-key").toList.filter (fun s => s ≠ "")) ++
      (((url.get "secret-keys").toList.flatMap (fun s =>
        (s.toList.splitOn ',').map String.ofList)).filter (fun s => s ≠ ""))
    parallelCompression := ((url.get "parallel-compression").map isSet).getD false
    compressionLevel := compressionLevel
    narinfoCompression := narinfoCompression.getD .none
    lsCompression := lsCompression.getD .none
    logCompression := logCompression.getD .none
    bufferSize := bufferSize.getD (8 * 1024 * 1024)
    presignedUrlExpiry := presignedUrlExpiry }

/-- `FromStr for S3CacheConfig`. -/
def S3CacheConfig.fromStr (parseUrl : String → Option Url) (s : String) :
    Except UrlParseError S3CacheConfig :=
  match parseUrl (toAsciiLowercase (trim s)) with
  | none => .error .uriParseError
  | some url =>
    if url.scheme ≠ "s3" then .error (.badSchema url.scheme)
    else if url.authority = "" then .error .noBucket
    else S3CacheConfig.fromQuery url.authority url

/-! ## The builder -/

namespace S3ClientConfig

def new (bucket : String) : S3ClientConfig := { bucket := bucket }

/-- `with_region`. -/
def withRegion (cfg : S3ClientConfig) (region : Option String) : S3ClientConfig :=
  { cfg with region := region.getD cfg.region }

/-- `with_scheme`. -/
def withScheme (cfg : S3ClientConfig) (scheme : Option S3Scheme) : S3ClientConfig :=
  { cfg with scheme := scheme.getD cfg.scheme }

/-- `with_endpoint`. -/
def withEndpoint (cfg : S3ClientConfig) (endpoint : Option String) : S3ClientConfig :=
  { cfg with endpoint := endpoint }

/-- `with_profile`. -/
def withProfile (cfg : S3ClientConfig) (profile : Option String) : S3ClientConfig :=
  { cfg with profile := profile }

end S3ClientConfig

namespace S3CacheConfig

def new (clientConfig : S3ClientConfig) : S3CacheConfig := { clientConfig := clientConfig }

/-- `with_compression`. -/
def withCompression (cfg : S3CacheConfig) (compression : Option Compression) : S3CacheConfig :=
  { cfg with compression := compression.getD cfg.compression }

/-- `with_write_nar_listing`. -/
def withWriteNarListing (cfg : S3CacheConfig) (s : Option String) : S3CacheConfig :=
  { cfg with writeNarListing := (s.map isSet).getD cfg.writeNarListing }

/-- `with_write_debug_info`. -/
def withWriteDebugInfo (cfg : S3CacheConfig) (s : Option String) : S3CacheConfig :=
  { cfg with writeDebugInfo := (s.map isSet).getD cfg.writeDebugInfo }

/-- `with_write_realisation`, which `from_str` does not call. -/
def withWriteRealisation (cfg : S3CacheConfig) (s : Option String) : S3CacheConfig :=
  { cfg with writeRealisation := (s.map isSet).getD cfg.writeRealisation }

/-- `add_secret_key_files`. -/
def addSecretKeyFiles (cfg : S3CacheConfig) (secretKeys : List String) : S3CacheConfig :=
  { cfg with secretKeyFiles := cfg.secretKeyFiles ++ secretKeys }

/-- `with_parallel_compression`. -/
def withParallelCompression (cfg : S3CacheConfig) (s : Option String) : S3CacheConfig :=
  { cfg with parallelCompression := (s.map isSet).getD cfg.parallelCompression }

/-- `with_compression_level`. -/
def withCompressionLevel (cfg : S3CacheConfig) (level : Option Int32) : S3CacheConfig :=
  { cfg with compressionLevel := level.or cfg.compressionLevel }

/-- `with_narinfo_compression`. -/
def withNarinfoCompression (cfg : S3CacheConfig) (compression : Option Compression) :
    S3CacheConfig :=
  { cfg with narinfoCompression := compression.getD cfg.narinfoCompression }

/-- `with_ls_compression`. -/
def withLsCompression (cfg : S3CacheConfig) (compression : Option Compression) : S3CacheConfig :=
  { cfg with lsCompression := compression.getD cfg.lsCompression }

/-- `with_log_compression`. -/
def withLogCompression (cfg : S3CacheConfig) (compression : Option Compression) : S3CacheConfig :=
  { cfg with logCompression := compression.getD cfg.logCompression }

/-- `with_buffer_size`. -/
def withBufferSize (cfg : S3CacheConfig) (bufferSize : Option Nat) : S3CacheConfig :=
  { cfg with bufferSize := bufferSize.getD cfg.bufferSize }

/-- `with_presigned_url_expiry`. -/
def withPresignedUrlExpiry (cfg : S3CacheConfig) :
    Option Nat → Except UrlParseError S3CacheConfig
  | none => .ok cfg
  | some secs =>
    if 60 ≤ secs ∧ secs ≤ 24 * 60 * 60 then .ok { cfg with presignedUrlExpiry := secs }
    else .error (.invalidPresignedUrlExpiry secs 60 (24 * 60 * 60))

/-- The file of `secret-key`, unless it is empty. -/
def secretKey (s : Option String) : List String := s.toList.filter (fun s => s ≠ "")

/-- The files of `secret-keys`. -/
def secretKeys (s : Option String) : List String :=
  (s.toList.flatMap (fun s => (s.toList.splitOn ',').map String.ofList)).filter (fun s => s ≠ "")

/-- The calls of the builder in `from_str`, with the value of a key in the
query. -/
def build (bucket : String) (get : String → Option String) :
    Except UrlParseError S3CacheConfig := do
  let scheme ← parseSetting .s3SchemeParseError S3Scheme.fromStr (get "scheme")
  let clientConfig := (S3ClientConfig.new bucket)
    |>.withRegion (get "region")
    |>.withScheme scheme
    |>.withEndpoint (get "endpoint")
    |>.withProfile (get "profile")
  let compression ← parseSetting .compressionParseError Compression.fromStr (get "compression")
  let compressionLevel ← parseSetting .intParseError parseI32 (get "compression-level")
  let narinfoCompression ← parseSetting .compressionParseError Compression.fromStr
    (get "narinfo-compression")
  let lsCompression ← parseSetting .compressionParseError Compression.fromStr
    (get "ls-compression")
  let logCompression ← parseSetting .compressionParseError Compression.fromStr
    (get "log-compression")
  let bufferSize ← parseSetting .intParseError parseUsize (get "buffer-size")
  let expiry ← parseSetting .intParseError parseUsize (get "presigned-url-expiry")
  (S3CacheConfig.new clientConfig)
    |>.withCompression compression
    |>.withWriteNarListing (get "write-nar-listing")
    |>.withWriteDebugInfo (get "write-debug-info")
    |>.addSecretKeyFiles (secretKey (get "secret-key"))
    |>.addSecretKeyFiles (secretKeys (get "secret-keys"))
    |>.withParallelCompression (get "parallel-compression")
    |>.withCompressionLevel compressionLevel
    |>.withNarinfoCompression narinfoCompression
    |>.withLsCompression lsCompression
    |>.withLogCompression logCompression
    |>.withBufferSize bufferSize
    |>.withPresignedUrlExpiry expiry

theorem withPresignedUrlExpiry_eq (cfg : S3CacheConfig) (hcfg : cfg.presignedUrlExpiry = 3600)
    (expiry : Option Nat) :
    cfg.withPresignedUrlExpiry expiry = (do
      let presignedUrlExpiry ← checkPresignedUrlExpiry expiry
      return { cfg with presignedUrlExpiry := presignedUrlExpiry }) := by
  cases expiry with
  | none =>
    rw [withPresignedUrlExpiry, checkPresignedUrlExpiry]
    show Except.ok cfg = Except.ok { cfg with presignedUrlExpiry := 3600 }
    rw [← hcfg]
  | some secs =>
    rw [withPresignedUrlExpiry, checkPresignedUrlExpiry]
    split_ifs
    · rfl
    · rfl

/-- The configuration of the query is made by the builder. -/
theorem fromQuery_eq_build (bucket : String) (url : Url) :
    fromQuery bucket url = build bucket url.get := by
  unfold fromQuery build
  refine bind_congr (fun scheme => bind_congr (fun compression => bind_congr (fun level => ?_)))
  refine bind_congr (fun narinfoCompression => bind_congr (fun lsCompression => ?_))
  refine bind_congr (fun logCompression => bind_congr (fun bufferSize => ?_))
  refine bind_congr (fun expiry => ?_)
  rw [withPresignedUrlExpiry_eq _ rfl]
  cases level with
  | none => rfl
  | some level => rfl

end S3CacheConfig

/-! ## The size of the buffer -/

theorem parseSetting_usize {n : Nat} (hn : n < 2 ^ 64) :
    parseSetting .intParseError parseUsize (some n.repr) = .ok (some n) := by
  rw [parseSetting, parseUsize, Nat.toList_repr, Text.parseNat_toDigits hn]
  rfl

/-- Every size of the buffer is accepted, the empty one included. -/
theorem S3CacheConfig.fromStr_bufferSize {n : Nat} (hn : n < 2 ^ 64) :
    ∃ cfg, S3CacheConfig.fromStr
        (fun _ => some ⟨"s3", "cache", [("buffer-size", n.repr)]⟩) "s3://cache" = .ok cfg ∧
      cfg.bufferSize = n := by
  have hsize : Url.get ⟨"s3", "cache", [("buffer-size", n.repr)]⟩ "buffer-size" = some n.repr := by
    simp [Url.get]
  simp only [fromStr, fromQuery, hsize, parseSetting_usize hn]
  exact ⟨_, rfl, rfl⟩

end QueueRunner
