import QueueRunner.Lib.AsciiCase
import QueueRunner.Lib.Fallible
import QueueRunner.S3Config

/-!
# The URI of a binary cache

`S3CacheConfig::from_str` turns the whole URI into small letters before it is
parsed.  The parsers of the settings ignore the case of the letters by
themselves, so for them this changes nothing.  The region, the endpoint, the
profile and the paths of the secret keys are taken as they come, and there a
capital letter is lost, unless it is written as `%XY`.

An `S3Uri` is a bucket and the values of the keys, each character of a value
with its form in the query.  The form matters: `uri.lower` is the URI in small
letters, and its values are those that the configuration is made of.
-/

namespace QueueRunner

/-! ## Small letters -/

theorem isWhitespace_toLower (c : Char) : isWhitespace c.toLower = isWhitespace c := by
  cases hc : c.isUpper with
  | false => rw [(Text.toLower_eq_self_iff c).mpr hc]
  | true =>
    have halpha := Text.isAlpha_of_isUpper hc
    rw [isWhitespace_of_isAlphanum (c := c) (by rw [Char.isAlphanum, halpha, Bool.true_or])]
    apply isWhitespace_of_isAlphanum
    rw [Char.isAlphanum, Text.isAlpha_toLower, halpha, Bool.true_or]

@[simp] theorem toList_toAsciiLowercase (s : String) :
    (toAsciiLowercase s).toList = s.toList.map Char.toLower := by
  rw [toAsciiLowercase, String.toList_ofList]

theorem toAsciiLowercase_trim (s : String) :
    toAsciiLowercase (trim s) = trim (toAsciiLowercase s) := by
  have hblank : isWhitespace ∘ Char.toLower = isWhitespace := funext isWhitespace_toLower
  rw [← String.toList_inj]
  simp only [trim, toList_toAsciiLowercase, String.toList_ofList, List.dropWhile_map, hblank,
    ← List.map_reverse]

theorem toAsciiLowercase_idem (s : String) :
    toAsciiLowercase (toAsciiLowercase s) = toAsciiLowercase s := by
  rw [← String.toList_inj]
  simp [Function.comp_def]

/-- What is read of a text does not depend on the case of its letters. -/
def IgnoresCase {α : Type} (f : String → α) : Prop := ∀ s, f (toAsciiLowercase s) = f s

theorem toAsciiLowercase_trim_lower (s : String) :
    toAsciiLowercase (trim (toAsciiLowercase s)) = toAsciiLowercase (trim s) := by
  rw [← toAsciiLowercase_trim, toAsciiLowercase_idem]

theorem S3Scheme.ignoresCase_fromStr : IgnoresCase S3Scheme.fromStr := by
  intro s
  simp only [S3Scheme.fromStr, toAsciiLowercase_trim_lower]

theorem Compression.ignoresCase_fromStr : IgnoresCase Compression.fromStr := by
  intro s
  simp only [Compression.fromStr, toAsciiLowercase_trim_lower]

theorem ignoresCase_isSet : IgnoresCase isSet := by
  intro s
  simp only [isSet, toAsciiLowercase_trim_lower]

theorem ignoresCase_parseUsize : IgnoresCase parseUsize := by
  intro s
  rw [parseUsize, toList_toAsciiLowercase, Text.parseNat_map_toLower, parseUsize]

theorem ignoresCase_parseI32 : IgnoresCase parseI32 := by
  intro s
  rw [parseI32, toList_toAsciiLowercase, Text.parseInt_map_toLower, parseI32]

/-! ## Values in a query -/

/-- The characters of a value that need no escape. -/
def isQueryChar (c : Char) : Bool := c.isAlphanum || "-._~!$'()*,;:@/?=".toList.contains c

/-- A character as `%XY` for each of its bytes. -/
def percentEscape (c : Char) : List Char :=
  (String.utf8EncodeChar c).flatMap (fun b =>
    ['%', Nat.digitChar (b.toNat / 16), Nat.digitChar (b.toNat % 16)])

/-- A character of a value, with its form in the query. -/
inductive EncodedChar where
  | plain (c : Char) (hc : isQueryChar c = true)
  /-- A space. -/
  | plus
  /-- The digits have capital letters or small ones. -/
  | escaped (c : Char) (text : List Char) (htext : text.map Char.toLower = percentEscape c)

theorem isQueryChar_toLower {c : Char} (hc : isQueryChar c = true) :
    isQueryChar c.toLower = true := by
  cases hupper : c.isUpper with
  | false => rwa [(Text.toLower_eq_self_iff c).mpr hupper]
  | true =>
    have halpha := Text.isAlpha_of_isUpper hupper
    rw [isQueryChar, Char.isAlphanum, Text.isAlpha_toLower, halpha, Bool.true_or,
      Bool.true_or]

theorem isWhitespace_of_isQueryChar {c : Char} (hc : isQueryChar c = true) :
    isWhitespace c = false := by
  rw [isQueryChar, Bool.or_eq_true] at hc
  rcases hc with hc | hc
  · exact isWhitespace_of_isAlphanum hc
  · have hall : "-._~!$'()*,;:@/?=".toList.all (fun c => !isWhitespace c) = true := by decide
    have hblank := List.all_eq_true.mp hall c (List.contains_iff_mem.mp hc)
    simpa using hblank

theorem isWhitespace_digitChar {n : Nat} (hn : n < 16) :
    isWhitespace (Nat.digitChar n) = false := by
  have hall : (List.range 16).all (fun n => !isWhitespace (Nat.digitChar n)) = true := by decide
  simpa using List.all_eq_true.mp hall n (List.mem_range.mpr hn)

theorem isWhitespace_of_mem_percentEscape {c d : Char} (hd : d ∈ percentEscape c) :
    isWhitespace d = false := by
  obtain ⟨b, -, hd⟩ := List.mem_flatMap.mp hd
  have hb := b.toNat_lt
  rw [List.mem_cons, List.mem_pair] at hd
  rcases hd with rfl | rfl | rfl
  · decide
  · exact isWhitespace_digitChar (by omega)
  · exact isWhitespace_digitChar (Nat.mod_lt _ (by omega))

namespace EncodedChar

/-- What stands in the query. -/
def text : EncodedChar → List Char
  | plain c _ => [c]
  | plus => ['+']
  | escaped _ text _ => text

/-- The character that it stands for. -/
def decoded : EncodedChar → Char
  | plain c _ => c
  | plus => ' '
  | escaped c _ _ => c

/-- The same in small letters. -/
def lower : EncodedChar → EncodedChar
  | plain c hc => plain c.toLower (isQueryChar_toLower hc)
  | plus => plus
  | escaped c text htext => escaped c (text.map Char.toLower) (by
      rw [List.map_map, ← htext]
      exact List.map_congr_left (fun c _ => Text.toLower_toLower c))

/-- A capital letter that is not escaped. -/
def isCapital : EncodedChar → Bool
  | plain c _ => c.isUpper
  | plus => false
  | escaped _ _ _ => false

theorem text_lower (e : EncodedChar) : e.lower.text = e.text.map Char.toLower := by
  cases e with
  | plain c hc => rfl
  | plus => rfl
  | escaped c text htext => rfl

/-- Only letters that are not escaped change, and these to their small form. -/
theorem toLower_decoded_lower (e : EncodedChar) :
    e.lower.decoded.toLower = e.decoded.toLower := by
  cases e with
  | plain c hc => exact Text.toLower_toLower c
  | plus => rfl
  | escaped c text htext => rfl

theorem decoded_lower_eq_iff (e : EncodedChar) :
    e.lower.decoded = e.decoded ↔ e.isCapital = false := by
  cases e with
  | plain c hc => exact Text.toLower_eq_self_iff c
  | plus => exact iff_of_true rfl rfl
  | escaped c text htext => exact iff_of_true rfl rfl

theorem decoded_lower_eq_comma_iff (e : EncodedChar) :
    e.lower.decoded = ',' ↔ e.decoded = ',' := by
  cases e with
  | plain c hc => exact Text.toLower_eq_iff (by decide)
  | plus => exact Iff.rfl
  | escaped c text htext => exact Iff.rfl

theorem isWhitespace_of_mem_text {e : EncodedChar} {c : Char} (hc : c ∈ e.text) :
    isWhitespace c = false := by
  cases e with
  | plain d hd =>
    obtain rfl := List.mem_singleton.mp hc
    exact isWhitespace_of_isQueryChar hd
  | plus =>
    obtain rfl := List.mem_singleton.mp hc
    decide
  | escaped d text htext =>
    rw [← isWhitespace_toLower]
    apply isWhitespace_of_mem_percentEscape (c := d)
    rw [← htext]
    exact List.mem_map_of_mem hc

end EncodedChar

/-- The value that the characters stand for. -/
def decodedValue (e : List EncodedChar) : String := String.ofList (e.map EncodedChar.decoded)

theorem toList_decodedValue (e : List EncodedChar) :
    (decodedValue e).toList = e.map EncodedChar.decoded := by
  rw [decodedValue, String.toList_ofList]

theorem toAsciiLowercase_decodedValue_lower (e : List EncodedChar) :
    toAsciiLowercase (decodedValue (e.map EncodedChar.lower)) =
      toAsciiLowercase (decodedValue e) := by
  rw [← String.toList_inj]
  simp [toList_decodedValue, EncodedChar.toLower_decoded_lower]

/-- No capital letter of the value stands in the query as it is. -/
def NoCapital (e : List EncodedChar) : Prop := ∀ c ∈ e, c.isCapital = false

instance : DecidablePred NoCapital :=
  fun e => inferInstanceAs (Decidable (∀ c ∈ e, c.isCapital = false))

theorem decodedValue_lower_eq_iff (e : List EncodedChar) :
    decodedValue (e.map EncodedChar.lower) = decodedValue e ↔ NoCapital e := by
  rw [← String.toList_inj, toList_decodedValue, toList_decodedValue, List.map_map,
    List.map_inj_left]
  exact forall₂_congr (fun c _ => c.decoded_lower_eq_iff)

/-! ## The URI -/

/-- The keys of the query. -/
inductive QueryKey where
  | region
  | scheme
  | endpoint
  | profile
  | compression
  | writeNarListing
  | writeDebugInfo
  | writeRealisation
  | secretKey
  | secretKeys
  | parallelCompression
  | compressionLevel
  | narinfoCompression
  | lsCompression
  | logCompression
  | bufferSize
  | presignedUrlExpiry
deriving DecidableEq, Repr

def QueryKey.text : QueryKey → String
  | region => "region"
  | scheme => "scheme"
  | endpoint => "endpoint"
  | profile => "profile"
  | compression => "compression"
  | writeNarListing => "write-nar-listing"
  | writeDebugInfo => "write-debug-info"
  | writeRealisation => "write-realisation"
  | secretKey => "secret-key"
  | secretKeys => "secret-keys"
  | parallelCompression => "parallel-compression"
  | compressionLevel => "compression-level"
  | narinfoCompression => "narinfo-compression"
  | lsCompression => "ls-compression"
  | logCompression => "log-compression"
  | bufferSize => "buffer-size"
  | presignedUrlExpiry => "presigned-url-expiry"

def isBucketChar (c : Char) : Bool := c.isLower || c.isDigit || c == '.' || c == '-'

/-- A URI of a cache.  Of two values for one key the last one counts. -/
structure S3Uri where
  bucket : String
  bucket_ne : bucket ≠ ""
  bucket_chars : bucket.toList.all isBucketChar = true
  pairs : List (QueryKey × List EncodedChar)

namespace S3Uri

def pairText (pair : QueryKey × List EncodedChar) : List Char :=
  pair.1.text.toList ++ '=' :: pair.2.flatMap EncodedChar.text

def queryText : List (QueryKey × List EncodedChar) → List Char
  | [] => []
  | pair :: pairs => '?' :: pairText pair ++ pairs.flatMap (fun pair => '&' :: pairText pair)

def text (uri : S3Uri) : String :=
  "s3://" ++ uri.bucket ++ String.ofList (queryText uri.pairs)

/-- What a parser of URLs makes of it. -/
def url (uri : S3Uri) : Url where
  scheme := "s3"
  authority := uri.bucket
  queryPairs := uri.pairs.map (fun pair => (pair.1.text, decodedValue pair.2))

/-- The URI in small letters. -/
def lower (uri : S3Uri) : S3Uri :=
  { uri with pairs := uri.pairs.map (fun pair => (pair.1, pair.2.map EncodedChar.lower)) }

/-- The value of a key, as it stands in the query. -/
def encoded (uri : S3Uri) (key : String) : Option (List EncodedChar) :=
  (uri.pairs.reverse.find? (fun pair => pair.1.text = key)).map Prod.snd

/-- The value of a key. -/
def value (uri : S3Uri) (key : String) : Option String := (uri.encoded key).map decodedValue

theorem url_get (uri : S3Uri) (key : String) : uri.url.get key = uri.value key := by
  rw [Url.get, url, ← List.map_reverse, List.find?_map, Option.map_map, value, encoded,
    Option.map_map]
  rfl

theorem encoded_lower (uri : S3Uri) (key : String) :
    uri.lower.encoded key = (uri.encoded key).map (List.map EncodedChar.lower) := by
  rw [encoded, lower, ← List.map_reverse, List.find?_map, Option.map_map, encoded, Option.map_map]
  rfl

/-! ### The text in small letters -/

theorem pairText_lower (pair : QueryKey × List EncodedChar) :
    pairText (pair.1, pair.2.map EncodedChar.lower) = (pairText pair).map Char.toLower := by
  obtain ⟨key, e⟩ := pair
  have hkey : key.text.toList.map Char.toLower = key.text.toList := by cases key <;> decide
  have heq : Char.toLower '=' = '=' := by decide
  rw [pairText, pairText, List.map_append, List.map_cons, hkey, heq, List.map_flatMap,
    List.flatMap_map]
  simp only [EncodedChar.text_lower]

theorem queryText_lower (pairs : List (QueryKey × List EncodedChar)) :
    queryText (pairs.map (fun pair => (pair.1, pair.2.map EncodedChar.lower))) =
      (queryText pairs).map Char.toLower := by
  cases pairs with
  | nil => rfl
  | cons pair pairs =>
    have hstart : Char.toLower '?' = '?' := by decide
    have hsep : Char.toLower '&' = '&' := by decide
    simp only [queryText, List.map_cons, List.map_append, List.map_flatMap, List.flatMap_map,
      pairText_lower, hstart, hsep]

theorem toLower_of_isBucketChar {c : Char} (hc : isBucketChar c = true) : c.toLower = c := by
  rw [Text.toLower_eq_self_iff, Bool.eq_false_iff]
  intro hupper
  have hdigit := Text.isDigit_of_isAlpha (Text.isAlpha_of_isUpper hupper)
  simp only [isBucketChar, Bool.or_eq_true, beq_iff_eq, hdigit] at hc
  rcases hc with ((hc | hc) | rfl) | rfl
  · exact Text.not_isLower_of_isUpper hupper hc
  · cases hc
  · revert hupper
    decide
  · revert hupper
    decide

theorem isWhitespace_of_isBucketChar {c : Char} (hc : isBucketChar c = true) :
    isWhitespace c = false := by
  simp only [isBucketChar, Bool.or_eq_true, beq_iff_eq] at hc
  rcases hc with ((hc | hc) | rfl) | rfl
  · apply isWhitespace_of_isAlphanum
    rw [Text.isAlphanum_eq, hc, Bool.or_true, Bool.true_or]
  · exact isWhitespace_of_isDigit hc
  · decide
  · decide

theorem isWhitespace_of_mem_pairText {pair : QueryKey × List EncodedChar} {c : Char}
    (hc : c ∈ pairText pair) : isWhitespace c = false := by
  obtain ⟨key, e⟩ := pair
  rw [pairText, List.mem_append, List.mem_cons, List.mem_flatMap] at hc
  rcases hc with hc | rfl | ⟨d, -, hc⟩
  · have hkey : key.text.toList.all (fun c => !isWhitespace c) = true := by cases key <;> decide
    simpa using List.all_eq_true.mp hkey c hc
  · decide
  · exact EncodedChar.isWhitespace_of_mem_text hc

theorem isWhitespace_of_mem_queryText {pairs : List (QueryKey × List EncodedChar)} {c : Char}
    (hc : c ∈ queryText pairs) : isWhitespace c = false := by
  cases pairs with
  | nil => cases hc
  | cons pair pairs =>
    rw [queryText, List.cons_append, List.mem_cons, List.mem_append, List.mem_flatMap] at hc
    rcases hc with rfl | hc | ⟨pair', -, hc⟩
    · decide
    · exact isWhitespace_of_mem_pairText hc
    · rcases List.mem_cons.mp hc with rfl | hc
      · decide
      · exact isWhitespace_of_mem_pairText hc

theorem toList_text (uri : S3Uri) :
    uri.text.toList = "s3://".toList ++ (uri.bucket.toList ++ queryText uri.pairs) := by
  simp only [text, String.toList_append, String.toList_ofList, List.append_assoc]

theorem isWhitespace_of_mem_text {uri : S3Uri} {c : Char} (hc : c ∈ uri.text.toList) :
    isWhitespace c = false := by
  rw [toList_text, List.mem_append, List.mem_append] at hc
  rcases hc with hc | hc | hc
  · have hall : "s3://".toList.all (fun c => !isWhitespace c) = true := by decide
    simpa using List.all_eq_true.mp hall c hc
  · exact isWhitespace_of_isBucketChar (List.all_eq_true.mp uri.bucket_chars c hc)
  · exact isWhitespace_of_mem_queryText hc

theorem trim_text (uri : S3Uri) : trim uri.text = uri.text := by
  rw [← String.toList_inj, toList_trim]
  · exact rdropWhile_of_getLast (fun c hc => isWhitespace_of_mem_text (List.mem_of_getLast? hc))
  · exact fun c hc => isWhitespace_of_mem_text (List.mem_of_head? hc)

/-- The text that is parsed is that of the URI in small letters. -/
theorem toAsciiLowercase_text (uri : S3Uri) :
    toAsciiLowercase (trim uri.text) = uri.lower.text := by
  have hstart : "s3://".toList.map Char.toLower = "s3://".toList := by decide
  have hbucket : uri.bucket.toList.map Char.toLower = uri.bucket.toList := by
    conv_rhs => rw [← List.map_id uri.bucket.toList]
    exact List.map_congr_left (fun c hc =>
      toLower_of_isBucketChar (List.all_eq_true.mp uri.bucket_chars c hc))
  rw [← String.toList_inj, trim_text, toList_toAsciiLowercase, toList_text, toList_text,
    List.map_append, List.map_append, hstart, hbucket, ← queryText_lower]
  rfl

end S3Uri

/-! ## The settings that ignore the case -/

theorem IgnoresCase.map_congr {α : Type} {f : String → α} (hf : IgnoresCase f)
    {o o' : Option String} (h : o.map toAsciiLowercase = o'.map toAsciiLowercase) :
    o.map f = o'.map f := by
  have hfun : f = f ∘ toAsciiLowercase := by
    funext s
    rw [Function.comp_apply, hf s]
  rw [hfun, ← Option.map_map, h, Option.map_map]

theorem parseSetting_congr {α ε : Type} {wrap : ε → UrlParseError} {parse : String → Except ε α}
    (hparse : IgnoresCase parse) {o o' : Option String}
    (h : o.map toAsciiLowercase = o'.map toAsciiLowercase) :
    parseSetting wrap parse o = parseSetting wrap parse o' := by
  have hmap : ∀ o : Option String, parseSetting wrap parse o =
      (o.map parse).elim (.ok none) (fun r => (r.mapError wrap).map some) := by
    intro o
    cases o with
    | none => rfl
    | some s => rfl
  rw [hmap, hmap, hparse.map_congr h]

namespace S3CacheConfig

variable {bucket : String} {get get' : String → Option String}

/-- The values that are taken as they come. -/
def withVerbatim (cfg : S3CacheConfig) (get : String → Option String) : S3CacheConfig :=
  { cfg with
    clientConfig :=
      { cfg.clientConfig with
        region := (get "region").getD "us-east-1"
        endpoint := get "endpoint"
        profile := get "profile" }
    secretKeyFiles := secretKey (get "secret-key") ++ secretKeys (get "secret-keys") }

theorem withPresignedUrlExpiry_withVerbatim (cfg : S3CacheConfig) (expiry : Option Nat) :
    (cfg.withVerbatim get).withPresignedUrlExpiry expiry =
      (fun cfg => cfg.withVerbatim get) <$> cfg.withPresignedUrlExpiry expiry := by
  cases expiry with
  | none => rfl
  | some secs =>
    rw [withPresignedUrlExpiry, withPresignedUrlExpiry]
    split_ifs
    · rfl
    · rfl

/-- Values that differ in the case of their letters only make configurations
that differ in the verbatim values only. -/
theorem build_congr
    (hcase : ∀ key, (get' key).map toAsciiLowercase = (get key).map toAsciiLowercase) :
    build bucket get' = (fun cfg => cfg.withVerbatim get') <$> build bucket get := by
  have hnar := ignoresCase_isSet.map_congr (hcase "write-nar-listing")
  have hdebug := ignoresCase_isSet.map_congr (hcase "write-debug-info")
  have hparallel := ignoresCase_isSet.map_congr (hcase "parallel-compression")
  simp only [build, map_bind, withWriteNarListing, withWriteDebugInfo, withParallelCompression,
    hnar, hdebug, hparallel,
    parseSetting_congr S3Scheme.ignoresCase_fromStr (hcase "scheme"),
    parseSetting_congr Compression.ignoresCase_fromStr (hcase "compression"),
    parseSetting_congr ignoresCase_parseI32 (hcase "compression-level"),
    parseSetting_congr Compression.ignoresCase_fromStr (hcase "narinfo-compression"),
    parseSetting_congr Compression.ignoresCase_fromStr (hcase "ls-compression"),
    parseSetting_congr Compression.ignoresCase_fromStr (hcase "log-compression"),
    parseSetting_congr ignoresCase_parseUsize (hcase "buffer-size"),
    parseSetting_congr ignoresCase_parseUsize (hcase "presigned-url-expiry"),
    ← withPresignedUrlExpiry_withVerbatim]
  rfl

theorem withVerbatim_of_build {cfg : S3CacheConfig} (h : build bucket get = .ok cfg) :
    cfg.withVerbatim get = cfg := by
  have hself : build bucket get = (fun cfg => cfg.withVerbatim get) <$> build bucket get :=
    build_congr (fun _ => rfl)
  rw [h] at hself
  exact (Except.ok.inj hself).symm

theorem writeRealisation_of_build {cfg : S3CacheConfig} (h : build bucket get = .ok cfg) :
    cfg.writeRealisation = false := by
  simp only [build, Fallible.bind_ok_iff] at h
  obtain ⟨_, -, _, -, _, -, _, -, _, -, _, -, _, -, expiry, -, h⟩ := h
  rw [withPresignedUrlExpiry_eq _ rfl, Fallible.bind_ok_iff] at h
  obtain ⟨_, -, h⟩ := h
  cases h
  rfl

/-- The settings that are parsed have values that parse. -/
structure SettingsParse (get : String → Option String) : Prop where
  scheme : ∀ s ∈ get "scheme", ∃ scheme, S3Scheme.fromStr s = .ok scheme
  compression : ∀ s ∈ get "compression", ∃ c, Compression.fromStr s = .ok c
  compressionLevel : ∀ s ∈ get "compression-level", ∃ level, parseI32 s = .ok level
  narinfoCompression : ∀ s ∈ get "narinfo-compression", ∃ c, Compression.fromStr s = .ok c
  lsCompression : ∀ s ∈ get "ls-compression", ∃ c, Compression.fromStr s = .ok c
  logCompression : ∀ s ∈ get "log-compression", ∃ c, Compression.fromStr s = .ok c
  bufferSize : ∀ s ∈ get "buffer-size", ∃ size, parseUsize s = .ok size
  presignedUrlExpiry : ∀ s ∈ get "presigned-url-expiry",
    ∃ secs, parseUsize s = .ok secs ∧ 60 ≤ secs ∧ secs ≤ 24 * 60 * 60

theorem exists_parseSetting_ok_and {α ε : Type} {wrap : ε → UrlParseError}
    {parse : String → Except ε α} {o : Option String} {P : α → Prop} :
    (∃ v, parseSetting wrap parse o = .ok v ∧ ∀ a ∈ v, P a) ↔
      ∀ s ∈ o, ∃ a, parse s = .ok a ∧ P a := by
  cases o with
  | none =>
    constructor
    · intro _ s hs
      cases hs
    · intro _
      exact ⟨none, rfl, fun a ha => nomatch ha⟩
  | some s =>
    constructor
    · rintro ⟨v, hv, hall⟩ s' hs
      cases hs
      cases hparse : parse s with
      | error e =>
        rw [parseSetting, hparse] at hv
        cases hv
      | ok a =>
        rw [parseSetting, hparse] at hv
        cases hv
        exact ⟨a, rfl, hall a rfl⟩
    · intro h
      obtain ⟨a, hparse, ha⟩ := h s rfl
      refine ⟨some a, ?_, ?_⟩
      · rw [parseSetting, hparse]
        rfl
      · intro b hb
        cases hb
        exact ha

theorem exists_parseSetting_ok {α ε : Type} {wrap : ε → UrlParseError}
    {parse : String → Except ε α} {o : Option String} :
    (∃ v, parseSetting wrap parse o = .ok v) ↔ ∀ s ∈ o, ∃ a, parse s = .ok a := by
  have h : (∃ v, parseSetting wrap parse o = .ok v ∧ ∀ a ∈ v, True) ↔
      ∀ s ∈ o, ∃ a, parse s = .ok a ∧ True := exists_parseSetting_ok_and
  simpa using h

theorem exists_withPresignedUrlExpiry_ok {cfg : S3CacheConfig} {expiry : Option Nat} :
    (∃ cfg', cfg.withPresignedUrlExpiry expiry = .ok cfg') ↔
      ∀ secs ∈ expiry, 60 ≤ secs ∧ secs ≤ 24 * 60 * 60 := by
  cases expiry with
  | none =>
    constructor
    · intro _ secs hsecs
      cases hsecs
    · intro _
      exact ⟨cfg, rfl⟩
  | some secs =>
    rw [withPresignedUrlExpiry]
    split_ifs with hsecs
    · constructor
      · intro _ secs' h
        cases h
        exact hsecs
      · intro _
        exact ⟨_, rfl⟩
    · constructor
      · rintro ⟨_, h⟩
        cases h
      · intro h
        exact absurd (h secs rfl) hsecs

/-- The builder fails exactly when a setting does not parse. -/
theorem exists_build_ok : (∃ cfg, build bucket get = .ok cfg) ↔ SettingsParse get := by
  simp only [build, Fallible.exists_bind_ok, exists_withPresignedUrlExpiry_ok]
  constructor
  · rintro ⟨_, hscheme, _, hcompression, _, hlevel, _, hnarinfo, _, hls, _, hlog, _, hsize, hexpiry⟩
    exact {
      scheme := exists_parseSetting_ok.mp ⟨_, hscheme⟩
      compression := exists_parseSetting_ok.mp ⟨_, hcompression⟩
      compressionLevel := exists_parseSetting_ok.mp ⟨_, hlevel⟩
      narinfoCompression := exists_parseSetting_ok.mp ⟨_, hnarinfo⟩
      lsCompression := exists_parseSetting_ok.mp ⟨_, hls⟩
      logCompression := exists_parseSetting_ok.mp ⟨_, hlog⟩
      bufferSize := exists_parseSetting_ok.mp ⟨_, hsize⟩
      presignedUrlExpiry := exists_parseSetting_ok_and.mp hexpiry }
  · intro h
    obtain ⟨_, hscheme⟩ := exists_parseSetting_ok.mpr h.scheme
    obtain ⟨_, hcompression⟩ := exists_parseSetting_ok.mpr h.compression
    obtain ⟨_, hlevel⟩ := exists_parseSetting_ok.mpr h.compressionLevel
    obtain ⟨_, hnarinfo⟩ := exists_parseSetting_ok.mpr h.narinfoCompression
    obtain ⟨_, hls⟩ := exists_parseSetting_ok.mpr h.lsCompression
    obtain ⟨_, hlog⟩ := exists_parseSetting_ok.mpr h.logCompression
    obtain ⟨_, hsize⟩ := exists_parseSetting_ok.mpr h.bufferSize
    exact ⟨_, hscheme, _, hcompression, _, hlevel, _, hnarinfo, _, hls, _, hlog, _, hsize,
      exists_parseSetting_ok_and.mpr h.presignedUrlExpiry⟩

/-! ## The files of the secret keys -/

theorem flatMap_secretKey (o : Option String) :
    (secretKey o).flatMap String.toList = (o.getD "").toList := by
  cases o with
  | none => rfl
  | some s =>
    by_cases hs : s = ""
    · simp [secretKey, hs]
    · simp [secretKey, hs]

theorem flatMap_secretKeys (o : Option String) :
    (secretKeys o).flatMap String.toList = (o.getD "").toList.filter (fun c => c ≠ ',') := by
  have hne : ∀ l : List (List Char), ((l.map String.ofList).filter (fun s => s ≠ "")).flatMap
      String.toList = l.flatten := by
    intro l
    induction l with
    | nil => rfl
    | cons cs l ih =>
      by_cases hcs : cs = []
      · simpa [hcs] using ih
      · have hs : String.ofList cs ≠ "" := fun h => hcs (by simpa using congrArg String.toList h)
        simpa [hs] using ih
  cases o with
  | none => rfl
  | some s =>
    rw [secretKeys, Option.toList_some, List.flatMap_singleton, hne, Text.flatten_splitOn,
      Option.getD_some]

end S3CacheConfig

theorem noCapital_getD_iff {o : Option (List EncodedChar)} :
    NoCapital (o.getD []) ↔ ∀ e ∈ o, NoCapital e := by
  cases o with
  | none =>
    constructor
    · intro _ e he
      cases he
    · intro _ c hc
      cases hc
  | some e =>
    constructor
    · intro h e' he
      cases he
      exact h
    · intro h
      exact h e rfl

theorem map_decodedValue_lower_iff {o : Option (List EncodedChar)} :
    (o.map (List.map EncodedChar.lower)).map decodedValue = o.map decodedValue ↔
      ∀ e ∈ o, NoCapital e := by
  cases o with
  | none =>
    constructor
    · intro _ e he
      cases he
    · intro _
      rfl
  | some e =>
    rw [Option.map_some, Option.map_some, Option.map_some, Option.some_inj,
      decodedValue_lower_eq_iff]
    constructor
    · intro h e' he
      cases he
      exact h
    · intro h
      exact h e rfl

theorem getD_map_decodedValue (o : Option (List EncodedChar)) :
    (o.map decodedValue).getD "" = decodedValue (o.getD []) := by
  cases o with
  | none => rfl
  | some e => rfl

theorem getD_map_lower (o : Option (List EncodedChar)) :
    (o.map (List.map EncodedChar.lower)).getD [] = (o.getD []).map EncodedChar.lower := by
  cases o with
  | none => rfl
  | some e => rfl

/-- The characters without the commas tell whether there is a capital letter. -/
theorem noCapital_of_filter {e : List EncodedChar}
    (h : (decodedValue (e.map EncodedChar.lower)).toList.filter (fun c => c ≠ ',') =
      (decodedValue e).toList.filter (fun c => c ≠ ',')) : NoCapital e := by
  have hcomma : (fun c => decide (c ≠ ',')) ∘ EncodedChar.decoded ∘ EncodedChar.lower =
      (fun c => decide (c ≠ ',')) ∘ EncodedChar.decoded := by
    funext c
    simp only [Function.comp_apply, ne_eq, c.decoded_lower_eq_comma_iff]
  rw [toList_decodedValue, toList_decodedValue, List.map_map, List.filter_map, List.filter_map,
    hcomma, List.map_inj_left] at h
  intro c hc
  rw [← c.decoded_lower_eq_iff]
  by_cases hcomma : c.decoded = ','
  · rw [hcomma, c.decoded_lower_eq_comma_iff]
    exact hcomma
  · exact h c (List.mem_filter.mpr ⟨hc, by simpa using hcomma⟩)

namespace S3CacheConfig

/-- The files of the secret keys stay exactly when no capital letter is in them. -/
theorem secretKeys_lower_iff (o o' : Option (List EncodedChar)) :
    secretKey ((o.map (List.map EncodedChar.lower)).map decodedValue) ++
        secretKeys ((o'.map (List.map EncodedChar.lower)).map decodedValue) =
      secretKey (o.map decodedValue) ++ secretKeys (o'.map decodedValue) ↔
      (∀ e ∈ o, NoCapital e) ∧ ∀ e ∈ o', NoCapital e := by
  constructor
  · intro h
    have hchars := congrArg (List.flatMap String.toList) h
    simp only [List.flatMap_append, flatMap_secretKey, flatMap_secretKeys, getD_map_decodedValue,
      getD_map_lower] at hchars
    have hlength : (decodedValue ((o.getD []).map EncodedChar.lower)).toList.length =
        (decodedValue (o.getD [])).toList.length := by
      simp only [toList_decodedValue, List.length_map]
    obtain ⟨hkey, hkeys⟩ := List.append_inj hchars hlength
    rw [String.toList_inj, decodedValue_lower_eq_iff] at hkey
    exact ⟨noCapital_getD_iff.mp hkey, noCapital_getD_iff.mp (noCapital_of_filter hkeys)⟩
  · rintro ⟨hkey, hkeys⟩
    rw [map_decodedValue_lower_iff.mpr hkey, map_decodedValue_lower_iff.mpr hkeys]

end S3CacheConfig

/-! ## The values that are kept -/

namespace S3Uri

/-- The configuration that the builder makes of the values. -/
def expected (uri : S3Uri) : Except UrlParseError S3CacheConfig :=
  (fun cfg => cfg.withWriteRealisation (uri.value "write-realisation")) <$>
    S3CacheConfig.build uri.bucket uri.value

/-- Its verbatim values are those of the URI. -/
theorem verbatim_of_expected {uri : S3Uri} {cfg : S3CacheConfig} (h : uri.expected = .ok cfg) :
    cfg.clientConfig.region = (uri.value "region").getD "us-east-1" ∧
      cfg.clientConfig.endpoint = uri.value "endpoint" ∧
      cfg.clientConfig.profile = uri.value "profile" ∧
      cfg.secretKeyFiles = S3CacheConfig.secretKey (uri.value "secret-key") ++
        S3CacheConfig.secretKeys (uri.value "secret-keys") := by
  rw [expected] at h
  cases hbuild : S3CacheConfig.build uri.bucket uri.value with
  | error e =>
    rw [hbuild] at h
    cases h
  | ok cfg' =>
    rw [hbuild, ← S3CacheConfig.withVerbatim_of_build hbuild] at h
    obtain rfl := Except.ok.inj h
    exact ⟨rfl, rfl, rfl, rfl⟩

/-- The parser of URLs takes the URI apart. -/
def IsParsed (parseUrl : String → Option Url) (uri : S3Uri) : Prop :=
  parseUrl uri.text = some uri.url

/-- A configuration that is read from the URI is the one that the builder
makes of its values. -/
def KeepsValues (parseUrl : String → Option Url) (uri : S3Uri) : Prop :=
  ∀ cfg, S3CacheConfig.fromStr parseUrl uri.text = .ok cfg → uri.expected = .ok cfg

/-- The small letters change no value that matters, and the realisation is not
asked for. -/
structure Unharmed (uri : S3Uri) : Prop where
  region : ∀ e ∈ uri.encoded "region", NoCapital e
  endpoint : ∀ e ∈ uri.encoded "endpoint", NoCapital e
  profile : ∀ e ∈ uri.encoded "profile", NoCapital e
  secretKey : ∀ e ∈ uri.encoded "secret-key", NoCapital e
  secretKeys : ∀ e ∈ uri.encoded "secret-keys", NoCapital e
  writeRealisation : ∀ s ∈ uri.value "write-realisation", isSet s = false

theorem sameButCase_lower (uri : S3Uri) (key : String) :
    (uri.lower.value key).map toAsciiLowercase = (uri.value key).map toAsciiLowercase := by
  rw [value, encoded_lower, value, Option.map_map, Option.map_map, Option.map_map]
  have hfun : toAsciiLowercase ∘ decodedValue ∘ List.map EncodedChar.lower =
      toAsciiLowercase ∘ decodedValue := funext toAsciiLowercase_decodedValue_lower
  rw [Function.comp_assoc, hfun]

/-- The code makes the configuration of the values in small letters. -/
theorem fromStr_text {parseUrl : String → Option Url} {uri : S3Uri}
    (hparse : IsParsed parseUrl uri.lower) :
    S3CacheConfig.fromStr parseUrl uri.text =
      (fun cfg => cfg.withVerbatim uri.lower.value) <$>
        S3CacheConfig.build uri.bucket uri.value := by
  have hget : uri.lower.url.get = uri.lower.value := funext uri.lower.url_get
  rw [S3CacheConfig.fromStr, toAsciiLowercase_text, hparse]
  show (if "s3" ≠ "s3" then _ else if uri.bucket = "" then _
    else S3CacheConfig.fromQuery uri.bucket uri.lower.url) = _
  rw [if_neg (fun h => h rfl), if_neg uri.bucket_ne, S3CacheConfig.fromQuery_eq_build, hget,
    S3CacheConfig.build_congr (uri.sameButCase_lower)]

theorem value_lower_eq_iff {uri : S3Uri} {key : String} :
    uri.lower.value key = uri.value key ↔ ∀ e ∈ uri.encoded key, NoCapital e := by
  rw [value, value, encoded_lower, map_decodedValue_lower_iff]

theorem getD_value_lower_iff {uri : S3Uri} {key default : String} :
    (uri.lower.value key).getD default = (uri.value key).getD default ↔
      ∀ e ∈ uri.encoded key, NoCapital e := by
  rw [← value_lower_eq_iff, value, value, encoded_lower]
  cases uri.encoded key with
  | none => exact iff_of_true rfl rfl
  | some e => exact Option.some_inj.symm

theorem secretKeys_value_lower_iff {uri : S3Uri} :
    S3CacheConfig.secretKey (uri.lower.value "secret-key") ++
        S3CacheConfig.secretKeys (uri.lower.value "secret-keys") =
      S3CacheConfig.secretKey (uri.value "secret-key") ++
        S3CacheConfig.secretKeys (uri.value "secret-keys") ↔
      (∀ e ∈ uri.encoded "secret-key", NoCapital e) ∧
        ∀ e ∈ uri.encoded "secret-keys", NoCapital e := by
  rw [value, value, value, value, encoded_lower, encoded_lower]
  exact S3CacheConfig.secretKeys_lower_iff _ _

theorem getD_isSet_iff {o : Option String} :
    (o.map isSet).getD false = false ↔ ∀ s ∈ o, isSet s = false := by
  cases o with
  | none => exact iff_of_true rfl (fun s hs => nomatch hs)
  | some s => simp

/-- Setting the realisation does as much as the small letters when both leave
the configuration as it is. -/
theorem withWriteRealisation_eq_withVerbatim_iff {uri : S3Uri} {cfg : S3CacheConfig}
    (hcfg : S3CacheConfig.build uri.bucket uri.value = .ok cfg) :
    cfg.withWriteRealisation (uri.value "write-realisation") =
      cfg.withVerbatim uri.lower.value ↔ uri.Unharmed := by
  have hverb := S3CacheConfig.withVerbatim_of_build hcfg
  have hreal := S3CacheConfig.writeRealisation_of_build hcfg
  rw [← hverb]
  simp only [S3CacheConfig.withWriteRealisation, S3CacheConfig.withVerbatim,
    S3CacheConfig.mk.injEq, S3ClientConfig.mk.injEq, hreal, true_and, and_true]
  constructor
  · rintro ⟨⟨hregion, hendpoint, hprofile⟩, hset, hkeys⟩
    rw [eq_comm, getD_value_lower_iff] at hregion
    rw [eq_comm, secretKeys_value_lower_iff] at hkeys
    exact {
      region := hregion
      endpoint := value_lower_eq_iff.mp hendpoint.symm
      profile := value_lower_eq_iff.mp hprofile.symm
      secretKey := hkeys.1
      secretKeys := hkeys.2
      writeRealisation := getD_isSet_iff.mp hset }
  · intro h
    exact ⟨⟨(getD_value_lower_iff.mpr h.region).symm, (value_lower_eq_iff.mpr h.endpoint).symm,
      (value_lower_eq_iff.mpr h.profile).symm⟩, getD_isSet_iff.mpr h.writeRealisation,
      (secretKeys_value_lower_iff.mpr ⟨h.secretKey, h.secretKeys⟩).symm⟩

/-- The values are kept exactly when a setting does not parse, or no capital
letter stands in the verbatim values and the realisation is not asked for. -/
theorem keepsValues_iff (parseUrl : String → Option Url) (uri : S3Uri)
    (hparse : IsParsed parseUrl uri.lower) :
    uri.KeepsValues parseUrl ↔ (S3CacheConfig.SettingsParse uri.value → uri.Unharmed) := by
  rw [KeepsValues, fromStr_text hparse, expected, ← S3CacheConfig.exists_build_ok]
  constructor
  · rintro h ⟨cfg, hcfg⟩
    rw [hcfg] at h
    rw [← withWriteRealisation_eq_withVerbatim_iff hcfg]
    exact Except.ok.inj (h _ rfl)
  · intro h cfg' hcfg'
    cases hbuild : S3CacheConfig.build uri.bucket uri.value with
    | error e =>
      rw [hbuild] at hcfg'
      cases hcfg'
    | ok cfg =>
      rw [hbuild] at hcfg'
      obtain rfl := Except.ok.inj hcfg'
      exact congrArg Except.ok
        ((withWriteRealisation_eq_withVerbatim_iff hbuild).mpr (h ⟨cfg, hbuild⟩))

/-- A value without escapes. -/
def plainValue (s : String) (hs : s.toList.all isQueryChar = true) : List EncodedChar :=
  s.toList.pmap EncodedChar.plain (List.all_eq_true.mp hs)

/-- A parser that knows one URI. -/
def parserOf (uri : S3Uri) (s : String) : Option Url :=
  if s = uri.lower.text then some uri.lower.url else none

theorem isParsed_parserOf (uri : S3Uri) : IsParsed (parserOf uri) uri.lower := if_pos rfl

/-- `s3://cache?profile=%41dmin&secret-keys=/run/keys/a,/run/keys/b`. -/
def escapedUri : S3Uri where
  bucket := "cache"
  bucket_ne := by decide
  bucket_chars := by decide
  pairs :=
    [(.profile, .escaped 'A' ['%', '4', '1'] (by decide) :: plainValue "dmin" (by decide)),
      (.secretKeys, plainValue "/run/keys/a,/run/keys/b" (by decide))]

/-- The capital letter of the profile is escaped. -/
theorem keepsValues_iff_escaped :
    (S3CacheConfig.fromStr (parserOf escapedUri) escapedUri.text).isOk = true ∧
      escapedUri.KeepsValues (parserOf escapedUri) := by
  refine ⟨by decide +kernel, ?_⟩
  refine (keepsValues_iff _ escapedUri (isParsed_parserOf _)).mpr (fun _ => ?_)
  exact {
    region := by decide +kernel
    endpoint := by decide +kernel
    profile := by decide +kernel
    secretKey := by decide +kernel
    secretKeys := by decide +kernel
    writeRealisation := by decide +kernel }

/-- `s3://cache?secret-key=/run/Keys/a`. -/
def capitalUri : S3Uri where
  bucket := "cache"
  bucket_ne := by decide
  bucket_chars := by decide
  pairs := [(.secretKey, plainValue "/run/Keys/a" (by decide))]

/-- The path of the secret key loses its capital letter. -/
theorem keepsValues_fails :
    ¬ ∀ (parseUrl : String → Option Url) (uri : S3Uri),
      IsParsed parseUrl uri.lower → uri.KeepsValues parseUrl := by
  intro h
  have hkeeps := h (parserOf capitalUri) capitalUri (isParsed_parserOf _)
  have hread : (S3CacheConfig.fromStr (parserOf capitalUri) capitalUri.text).map
      (fun cfg => cfg.secretKeyFiles) = .ok ["/run/keys/a"] := by
    decide +kernel
  have hvalue : capitalUri.expected.map (fun cfg => cfg.secretKeyFiles) = .ok ["/run/Keys/a"] := by
    decide +kernel
  cases hcfg : S3CacheConfig.fromStr (parserOf capitalUri) capitalUri.text with
  | error e =>
    rw [hcfg] at hread
    cases hread
  | ok cfg =>
    rw [hcfg] at hread
    rw [hkeeps cfg hcfg] at hvalue
    exact absurd (Except.ok.inj (hread.symm.trans hvalue)) (by decide)

/-- `s3://cache?write-realisation=1`. -/
def realisationUri : S3Uri where
  bucket := "cache"
  bucket_ne := by decide
  bucket_chars := by decide
  pairs := [(.writeRealisation, plainValue "1" (by decide))]

/-- The key of the realisation is not read. -/
example :
    realisationUri.expected.map (fun cfg => cfg.writeRealisation) = .ok true ∧
      (S3CacheConfig.fromStr (parserOf realisationUri) realisationUri.text).map
        (fun cfg => cfg.writeRealisation) = .ok false := by
  decide +kernel

end S3Uri

end QueueRunner
