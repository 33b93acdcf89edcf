import QueueRunner.Lib.Regex
import QueueRunner.NarInfoText

/-!
# The files in `nix-support`

A build leaves files in `nix-support` for Hydra: a release name, metrics and
build products.  Their parsers are in `crates/shared/src/lib.rs`.  The builds
are not trusted, and the parsers check what they read: the characters of
names and units, the form of the line of a product, and that the path of a
product is inside the store.

The checks are regular expressions without anchors, and `is_match` and
`captures` search.  So a check passes when any part of the text passes, and
the one of the product name always does.  `nixSupportExact_iff` says which
texts are read as they should be all the same.

A path is inside the store when its components start with those of the store
directory.  Components that lead upwards again are not looked at;
`productInside_iff` says which paths stay inside.
-/

namespace QueueRunner

namespace NixSupport

open Regex (Pattern Match)

/-! ## The checks -/

/-- `[a-zA-Z0-9._-]` -/
def isMetricsNameChar (c : Char) : Bool := c.isAlphanum || c == '.' || c == '_' || c == '-'

/-- `[a-zA-Z0-9._%-]` -/
def isMetricsUnitChar (c : Char) : Bool :=
  c.isAlphanum || c == '.' || c == '_' || c == '%' || c == '-'

/-- `[a-zA-Z0-9.@:_-]` -/
def isReleaseNameChar (c : Char) : Bool :=
  c.isAlphanum || c == '.' || c == '@' || c == ':' || c == '_' || c == '-'

/-- `[a-zA-Z0-9.@:_ -]` -/
def isProductNameChar (c : Char) : Bool :=
  c.isAlphanum || c == '.' || c == '@' || c == ':' || c == '_' || c == ' ' || c == '-'

/-- `[a-zA-Z0-9_-]` -/
def isWordChar (c : Char) : Bool := c.isAlphanum || c == '_' || c == '-'

def isQuote (c : Char) : Bool := c == '"'

/-- `[^\"]` -/
def isQuotedChar (c : Char) : Bool := !isQuote c

/-- `[^\"\s<>]` -/
def isBareChar (c : Char) : Bool := !(isQuote c || isWhitespace c || c == '<' || c == '>')

/-- `VALIDATE_METRICS_NAME` -/
def validateMetricsName : Pattern := .many1 isMetricsNameChar

/-- `VALIDATE_METRICS_UNIT` -/
def validateMetricsUnit : Pattern := .many1 isMetricsUnitChar

/-- `VALIDATE_RELEASE_NAME` -/
def validateReleaseName : Pattern := .many1 isReleaseNameChar

/-- `VALIDATE_PRODUCT_NAME` -/
def validateProductName : Pattern := .many isProductNameChar

/-- `\"[^\"]+\"` -/
def quotedPath : Pattern := .seq (.one isQuote) (.seq (.many1 isQuotedChar) (.one isQuote))

/-- `(\s+([^\"\s<>]+))?` -/
def defaultPathParser : Pattern :=
  .opt (.group 4 (.seq (.many1 isWhitespace) (.group 5 (.many1 isBareChar))))

/-- `(\"[^\"]+\"|[^\"\s<>]+)` -/
def pathParser : Pattern := .group 3 (.alt quotedPath (.many1 isBareChar))

/-- `BUILD_PRODUCT_PARSER` -/
def buildProductParser : Pattern :=
  .seq (.group 1 (.many1 isWordChar)) (.seq (.many1 isWhitespace)
    (.seq (.group 2 (.many1 isWordChar)) (.seq (.many1 isWhitespace)
      (.seq pathParser defaultPathParser))))

/-- The text of a group, empty when the group is not in the match. -/
def captured (groups : List (Nat × List Char)) (n : Nat) : String :=
  String.ofList ((groups.lookup n).getD [])

/-! ## Release names and metrics -/

/-- `parse_release_name`. -/
def parseReleaseName (content : String) : Option String :=
  let content := trim content
  if content ≠ "" ∧ validateReleaseName.isMatch content.toList = true then some content else none

/-- `BuildMetric`; `F64` are the floating-point numbers. -/
structure BuildMetric (F64 : Type) where
  path : String
  name : String
  unit : Option String
  value : F64

/-- The numbers as the parser of metrics uses them. -/
structure FloatOps (F64 : Type) where
  /-- `str::parse::<f64>`. -/
  parse : String → Option F64
  zero : F64

/-- The fields of the line. -/
def fieldsOf (line : String) : List String :=
  (Text.words isWhitespace line.toList).map String.ofList

/-- `parse_metric`; `storeDir` is the prefix of the store's paths. -/
def parseMetric {F64 : Type} (ops : FloatOps F64) (storeDir : String) (line : String)
    (output : StorePath) : Option (BuildMetric F64) :=
  match fieldsOf line with
  | name :: value :: fields =>
    if validateMetricsName.isMatch name.toList = true then
      some {
        path := printStorePath storeDir output
        name := name
        value := (ops.parse value).getD ops.zero
        unit := fields.head?.filter (fun unit => validateMetricsUnit.isMatch unit.toList) }
    else none
  | _ => none

/-! ## Build products -/

structure FileMetadata where
  isRegular : Bool
  size : Nat
deriving DecidableEq, Repr

/-- `FsOperations`. -/
structure FsOperations where
  isInsideStore : String → Bool
  getMetadata : String → Except Unit FileMetadata
  getFileHash : String → Except Unit String

/-- The components of `Path::components`.  The root is one, and so is a `.` at
the start of the path. -/
def pathComponents (cs : List Char) : List (List Char) :=
  if Paths.isAbsolute cs then ['/'] :: Paths.components cs
  else if (cs.splitOn '/').head? = some ['.'] then ['.'] :: Paths.components cs
  else Paths.components cs

/-- `nix_utils::is_subpath`: `Path::starts_with`. -/
def isSubpath (base path : String) : Bool :=
  (pathComponents base.toList).isPrefixOf (pathComponents path.toList)

/-- What is read of the files. -/
structure FileSystem where
  metadata : String → Except Unit FileMetadata
  hash : String → Except Unit String

/-- `FilesystemOperations`. -/
def FileSystem.operations (fs : FileSystem) (storeDir : String) : FsOperations where
  isInsideStore := isSubpath storeDir
  getMetadata := fs.metadata
  getFileHash := fs.hash

/-- `BuildProduct`. -/
structure BuildProduct where
  path : String
  defaultPath : String
  type : String
  subtype : String
  name : String
  isRegular : Bool
  sha256hash : Option String
  fileSize : Option Nat
deriving DecidableEq, Repr

/-- The path without its quotes. -/
def unquote (s : String) : String :=
  if s.toList.head? = some '"' ∧ s.toList.getLast? = some '"' then
    String.ofList s.toList.tail.dropLast
  else s

/-- `Path::file_name` of a path that is a string. -/
def fileName (path : String) : String := String.ofList ((Paths.fileName path.toList).getD [])

/-- The name of the product before it is checked. -/
def productName (storeDir : String) (output : StorePath) (path : String) : String :=
  if path = printStorePath storeDir output then "" else fileName path

/-- The path of the third group. -/
def pathOf (groups : List (Nat × List Char)) : String := unquote (captured groups 3)

/-- The product that `parse_build_product` makes when its checks have
passed. -/
def productOf (storeDir : String) (handle : FsOperations) (output : StorePath)
    (groups : List (Nat × List Char)) (metadata : FileMetadata) : BuildProduct :=
  let path := pathOf groups
  let name := productName storeDir output path
  { type := captured groups 1
    subtype := captured groups 2
    path := path
    defaultPath := captured groups 5
    name := if validateProductName.isMatch name.toList = true then name else ""
    isRegular := metadata.isRegular
    fileSize := if metadata.isRegular then some metadata.size else none
    sha256hash := if metadata.isRegular then (handle.getFileHash path).toOption else none }

/-- `parse_build_product`. -/
def parseBuildProduct (storeDir : String) (handle : FsOperations) (output : StorePath)
    (line : String) : Option BuildProduct :=
  match buildProductParser.search line.toList with
  | none => none
  | some (_, captures) =>
    let path := pathOf captures.groups
    if path.toList.head? ≠ some '/' then none
    else if handle.isInsideStore path = false then none
    else
      (handle.getMetadata path).toOption.map (productOf storeDir handle output captures.groups)

/-- The path passes the checks of `parse_build_product`. -/
def FsOperations.Accepts (handle : FsOperations) (path : String) : Prop :=
  path.toList.head? = some '/' ∧ handle.isInsideStore path = true ∧
    ∃ metadata, handle.getMetadata path = .ok metadata

/-- When there is a product. -/
theorem parseBuildProduct_eq_some_iff {storeDir line : String} {handle : FsOperations}
    {output : StorePath} {p : BuildProduct} :
    parseBuildProduct storeDir handle output line = some p ↔
      ∃ pre m metadata, buildProductParser.search line.toList = some (pre, m) ∧
        (pathOf m.groups).toList.head? = some '/' ∧
        handle.isInsideStore (pathOf m.groups) = true ∧
        handle.getMetadata (pathOf m.groups) = .ok metadata ∧
        p = productOf storeDir handle output m.groups metadata := by
  unfold parseBuildProduct
  cases hsearch : buildProductParser.search line.toList with
  | none => simp
  | some r =>
    obtain ⟨pre, m⟩ := r
    simp only [Option.some.injEq, Prod.mk.injEq]
    split_ifs with hroot hinside
    · simp only [false_iff, not_exists, not_and]
      rintro _ _ metadata ⟨rfl, rfl⟩ hpath
      exact absurd hpath hroot
    · simp only [false_iff, not_exists, not_and]
      rintro _ _ metadata ⟨rfl, rfl⟩ - hin
      rw [hinside] at hin
      cases hin
    · rw [Bool.not_eq_false] at hinside
      rw [ne_eq, not_not] at hroot
      constructor
      · intro h
        obtain ⟨metadata, hmeta, rfl⟩ := Option.map_eq_some_iff.mp h
        refine ⟨pre, m, metadata, ⟨rfl, rfl⟩, hroot, hinside, ?_, rfl⟩
        cases hm : handle.getMetadata (pathOf m.groups) with
        | error e =>
          rw [hm] at hmeta
          cases hmeta
        | ok metadata' =>
          rw [hm] at hmeta
          cases hmeta
          rfl
      · rintro ⟨_, _, metadata, ⟨rfl, rfl⟩, -, -, hmeta, rfl⟩
        rw [hmeta]
        rfl

/-! ## The line of a product -/

theorem isWhitespace_of_isWordChar {c : Char} (h : isWordChar c = true) :
    isWhitespace c = false := by
  simp only [isWordChar, Bool.or_eq_true, beq_iff_eq] at h
  rcases h with (h | rfl) | rfl
  · exact isWhitespace_of_isAlphanum h
  · decide
  · decide

theorem isWordChar_of_isWhitespace {c : Char} (h : isWhitespace c = true) :
    isWordChar c = false := by
  rw [Bool.eq_false_iff]
  intro hword
  rw [isWhitespace_of_isWordChar hword] at h
  cases h

theorem isBareChar_of_isWhitespace {c : Char} (h : isWhitespace c = true) :
    isBareChar c = false := by
  simp [isBareChar, h]

theorem isWhitespace_of_isBareChar {c : Char} (h : isBareChar c = true) :
    isWhitespace c = false := by
  rw [Bool.eq_false_iff]
  intro hspace
  rw [isBareChar_of_isWhitespace hspace] at h
  cases h

theorem isQuote_of_isBareChar {c : Char} (h : isBareChar c = true) : isQuote c = false := by
  rw [Bool.eq_false_iff]
  intro hquote
  simp [isBareChar, hquote] at h

theorem isQuote_of_isWhitespace {c : Char} (h : isWhitespace c = true) : isQuote c = false := by
  rw [Bool.eq_false_iff]
  intro hquote
  rw [beq_iff_eq.mp hquote] at h
  cases h

open Regex.Pattern

theorem single_quotedPath : quotedPath.Single :=
  (single_one isQuote).seq ((runs_many1 isQuotedChar).single_seq (single_one isQuote)
    (fun _ _ hc => exec_one_nil (fun _ h => by simpa [isQuotedChar] using h) hc))

theorem runs_pathParser : pathParser.Runs isBareChar := by
  refine Runs.group (Runs.alt (single_quotedPath.runs _) (runs_many1 isBareChar) ?_) 3
  intro cs
  -- the first character is a quote, or it is not
  cases cs with
  | nil => exact .inr rfl
  | cons c cs =>
    by_cases hc : isBareChar c = true
    · exact .inl (exec_seq_nil (exec_one_nil (fun _ => isQuote_of_isBareChar) hc))
    · exact .inr (by simp [exec, hc])

theorem exec_pathParser_nil {c : Char} {cs : List Char} (hc : isWhitespace c = true) :
    pathParser.exec (c :: cs) = [] :=
  exec_group_nil (exec_alt_nil
    (exec_seq_nil (exec_one_nil (fun _ => isQuote_of_isWhitespace) hc))
    (exec_many1_nil (fun _ => isBareChar_of_isWhitespace) hc))

/-- The parser takes the longest line of a product that it can. -/
theorem descending_buildProductParser : buildProductParser.Descending := by
  have hdefault : defaultPathParser.Descending :=
    (((runs_many1 isWhitespace).seq ((runs_many1 isBareChar).group 5).descending
      (stopsAt_of_nil fun _ _ hc =>
        exec_group_nil (exec_many1_nil (fun _ => isBareChar_of_isWhitespace) hc))).group 4).opt
  have hstop : defaultPathParser.StopsAt isBareChar :=
    (stopsAt_of_nil fun _ _ hc => exec_group_nil (exec_seq_nil
      (exec_many1_nil (fun _ => isWhitespace_of_isBareChar) hc))).opt
  have hspaces : ∀ {c : Char} {b : Pattern} {cs : List Char}, isWordChar c = true →
      (Pattern.seq (.many1 isWhitespace) b).exec (c :: cs) = [] :=
    fun hc => exec_seq_nil (exec_many1_nil (fun _ => isWhitespace_of_isWordChar) hc)
  have hpath := runs_pathParser.seq hdefault hstop
  have hafter := (runs_many1 isWhitespace).seq hpath
    (stopsAt_of_nil fun _ _ hc => exec_seq_nil (exec_pathParser_nil hc))
  have hsubtype := ((runs_many1 isWordChar).group 2).seq hafter
    (stopsAt_of_nil fun _ _ hc => hspaces hc)
  have hbetween := (runs_many1 isWhitespace).seq hsubtype
    (stopsAt_of_nil fun _ _ hc => exec_seq_nil (exec_group_nil
      (exec_many1_nil (fun _ => isWordChar_of_isWhitespace) hc)))
  exact ((runs_many1 isWordChar).group 1).seq hbetween
    (stopsAt_of_nil fun _ _ hc => hspaces hc)

/-! ## What is read as it should be -/

/-- All characters of the text are in the class. -/
def AllIn (p : Char → Bool) (s : String) : Prop := ∀ c ∈ s.toList, p c = true

/-- No character of the text is in the class. -/
def NoneIn (p : Char → Bool) (s : String) : Prop := ∀ c ∈ s.toList, p c = false

/-- A text passes the check of a class unless none of its characters is in
the class. -/
theorem isMatch_eq_false_iff {p : Char → Bool} {s : String} :
    (Pattern.many1 p).isMatch s.toList = false ↔ NoneIn p s := by
  rw [← Bool.not_eq_true, isMatch_many1_iff, NoneIn]
  simp

/-- A content that is read as a release name is one. -/
def ReleaseNameExact (content : String) : Prop :=
  ∀ name, parseReleaseName content = some name →
    name = trim content ∧ name ≠ "" ∧ AllIn isReleaseNameChar name

theorem releaseNameExact_iff (content : String) :
    ReleaseNameExact content ↔
      AllIn isReleaseNameChar (trim content) ∨ NoneIn isReleaseNameChar (trim content) := by
  have hsome : ∀ name, parseReleaseName content = some name ↔
      (trim content ≠ "" ∧ validateReleaseName.isMatch (trim content).toList = true) ∧
        trim content = name := by
    intro name
    simp only [parseReleaseName, Option.ite_none_right_eq_some, Option.some.injEq]
  constructor
  · intro h
    cases hmatch : validateReleaseName.isMatch (trim content).toList with
    | false => exact .inr (isMatch_eq_false_iff.mp hmatch)
    | true =>
      by_cases hempty : trim content = ""
      · rw [hempty]
        exact .inl (by simp [AllIn])
      · exact .inl (h _ ((hsome _).mpr ⟨⟨hempty, hmatch⟩, rfl⟩)).2.2
  · intro h name hname
    obtain ⟨⟨hempty, hmatch⟩, rfl⟩ := (hsome name).mp hname
    refine ⟨rfl, hempty, h.resolve_right (fun hnone => ?_)⟩
    rw [validateReleaseName, isMatch_eq_false_iff.mpr hnone] at hmatch
    cases hmatch

/-- A line that is read as a metric has the name and the unit of one. -/
def MetricExact {F64 : Type} (ops : FloatOps F64) (storeDir : String) (output : StorePath)
    (line : String) : Prop :=
  ∀ m, parseMetric ops storeDir line output = some m →
    AllIn isMetricsNameChar ((fieldsOf line).getD 0 "") ∧
      (m.unit ≠ none → AllIn isMetricsUnitChar ((fieldsOf line).getD 2 ""))

/-- The name is all of the class or has nothing of it, and so is the unit of
a line with a name. -/
def MetricClean : List String → Prop
  | name :: _ :: fields => NoneIn isMetricsNameChar name ∨ (AllIn isMetricsNameChar name ∧
      ∀ unit ∈ fields.head?, NoneIn isMetricsUnitChar unit ∨ AllIn isMetricsUnitChar unit)
  | _ => True

theorem metricExact_iff {F64 : Type} (ops : FloatOps F64) (storeDir : String) (output : StorePath)
    (line : String) : MetricExact ops storeDir output line ↔ MetricClean (fieldsOf line) := by
  unfold MetricExact parseMetric
  cases hfields : fieldsOf line with
  | nil => simp [MetricClean]
  | cons name fields =>
    cases fields with
    | nil => simp [MetricClean]
    | cons value fields =>
      simp only [MetricClean, List.getD_cons_zero]
      cases hname : validateMetricsName.isMatch name.toList with
      | false => simp [isMatch_eq_false_iff.mp hname]
      | true =>
        have hnot : ¬ NoneIn isMetricsNameChar name := by
          intro hnone
          rw [validateMetricsName, isMatch_eq_false_iff.mpr hnone] at hname
          cases hname
        rw [if_pos rfl, or_iff_right hnot]
        simp only [Option.some.injEq, forall_eq']
        refine and_congr_right' ?_
        cases fields with
        | nil => simp
        | cons unit fields =>
          simp only [List.head?_cons, Option.filter_some, List.getD_cons_succ,
            List.getD_cons_zero, Option.mem_some_iff, forall_eq']
          cases hunit : validateMetricsUnit.isMatch unit.toList with
          | false => simp [isMatch_eq_false_iff.mp hunit]
          | true =>
            have hnot : ¬ NoneIn isMetricsUnitChar unit := by
              intro hnone
              rw [validateMetricsUnit, isMatch_eq_false_iff.mpr hnone] at hunit
              cases hunit
            simp [hnot]

/-- A line that is read as a product is the line of a product as a whole, and
the product has its fields. -/
def ProductExact (storeDir : String) (handle : FsOperations) (output : StorePath)
    (line : String) : Prop :=
  ∀ p, parseBuildProduct storeDir handle output line = some p →
    (∃ groups, buildProductParser.Accepts line.toList groups ∧
      p.type = captured groups 1 ∧ p.subtype = captured groups 2 ∧ p.path = pathOf groups ∧
      p.defaultPath = captured groups 5) ∧
    AllIn isProductNameChar p.name

/-- When the path of the leftmost match passes the checks, this match is the
whole line, and the characters of the name are those of a product name. -/
def ProductClean (storeDir : String) (handle : FsOperations) (output : StorePath)
    (line : String) : Prop :=
  ∀ pre m, buildProductParser.search line.toList = some (pre, m) →
    handle.Accepts (pathOf m.groups) → (pre = [] ∧ m.rest = []) ∧
      AllIn isProductNameChar (productName storeDir output (pathOf m.groups))

theorem name_productOf (storeDir : String) (handle : FsOperations) (output : StorePath)
    (groups : List (Nat × List Char)) (metadata : FileMetadata) :
    (productOf storeDir handle output groups metadata).name =
      productName storeDir output (pathOf groups) := by
  simp only [productOf, validateProductName, isMatch_many, if_true]

theorem productExact_iff (storeDir : String) (handle : FsOperations) (output : StorePath)
    (line : String) :
    ProductExact storeDir handle output line ↔ ProductClean storeDir handle output line := by
  constructor
  · rintro h pre m hsearch ⟨hroot, hinside, metadata, hmeta⟩
    obtain ⟨⟨groups, haccepts, -⟩, hname⟩ := h _ (parseBuildProduct_eq_some_iff.mpr
      ⟨pre, m, metadata, hsearch, hroot, hinside, hmeta, rfl⟩)
    obtain ⟨m', hsearch', hrest⟩ :=
      (search_all_iff descending_buildProductParser).mpr ⟨groups, haccepts⟩
    rw [hsearch] at hsearch'
    cases hsearch'
    rw [name_productOf] at hname
    exact ⟨⟨rfl, hrest⟩, hname⟩
  · intro h p hp
    obtain ⟨pre, m, metadata, hsearch, hroot, hinside, hmeta, rfl⟩ :=
      parseBuildProduct_eq_some_iff.mp hp
    obtain ⟨⟨rfl, hrest⟩, hname⟩ := h pre m hsearch ⟨hroot, hinside, metadata, hmeta⟩
    obtain ⟨hline, haccepts⟩ := search_sound hsearch
    rw [hrest, List.append_nil, List.nil_append] at hline
    rw [name_productOf, hline]
    exact ⟨⟨m.groups, haccepts, rfl, rfl, rfl, rfl⟩, hname⟩

/-- When the three parsers read a text as they should. -/
theorem nixSupportExact_iff {F64 : Type} (ops : FloatOps F64) (storeDir : String)
    (handle : FsOperations) (output : StorePath) (content line : String) :
    (ReleaseNameExact content ↔
      AllIn isReleaseNameChar (trim content) ∨ NoneIn isReleaseNameChar (trim content)) ∧
    (MetricExact ops storeDir output line ↔ MetricClean (fieldsOf line)) ∧
    (ProductExact storeDir handle output line ↔ ProductClean storeDir handle output line) :=
  ⟨releaseNameExact_iff content, metricExact_iff ops storeDir output line,
    productExact_iff storeDir handle output line⟩

/-- A file system with one regular file. -/
def FileSystem.oneFile (file : String) : FileSystem where
  metadata path := if path = file then .ok ⟨true, 3⟩ else .error ()
  hash path := if path = file then .ok "hash" else .error ()

def sampleOutput : StorePath := ⟨"ir3rqjyj5cz3js5lr7d0zw0gn6crzs6w-custom.iso"⟩

/-- A release name with an exclamation mark, a metric with one in its name
and one with a unit that has another character, a product in the middle of a
line, and one whose name has a character that names do not have. -/
theorem nixSupportExact_fails :
    ¬ ReleaseNameExact "nixos!" ∧
    (∀ {F64 : Type} (ops : FloatOps F64) (storeDir : String),
      ¬ MetricExact ops storeDir sampleOutput "closure!size 1" ∧
        ¬ MetricExact ops storeDir sampleOutput "time 1 µs") ∧
    ¬ ProductExact "/nix/store" ((FileSystem.oneFile "/nix/store/x").operations "/nix/store")
      sampleOutput "<b> file iso /nix/store/x" ∧
    ¬ ProductExact "/nix/store" ((FileSystem.oneFile "/nix/store/x~").operations "/nix/store")
      sampleOutput "file iso /nix/store/x~" := by
  refine ⟨fun h => ?_, fun ops storeDir => ⟨fun h => ?_, fun h => ?_⟩, fun h => ?_, fun h => ?_⟩
  · have hchar := (h "nixos!" (by decide)).2.2 '!' (by decide)
    revert hchar
    decide
  · have hfields : fieldsOf "closure!size 1" = ["closure!size", "1"] := by decide +kernel
    rw [metricExact_iff, hfields] at h
    rcases h with h | h
    · exact absurd (h 'c' (by decide)) (by decide)
    · exact absurd (h.1 '!' (by decide)) (by decide)
  · have hfields : fieldsOf "time 1 µs" = ["time", "1", "µs"] := by decide +kernel
    rw [metricExact_iff, hfields] at h
    rcases h with h | h
    · exact absurd (h 't' (by decide)) (by decide)
    · rcases h.2 "µs" rfl with h | h
      · exact absurd (h 's' (by decide)) (by decide)
      · exact absurd (h 'µ' (by decide)) (by decide)
  · have hsearch : buildProductParser.search "<b> file iso /nix/store/x".toList =
        some ("<b> ".toList, ⟨"file iso /nix/store/x".toList, [],
          [(1, "file".toList), (2, "iso".toList), (3, "/nix/store/x".toList)]⟩) := by
      decide +kernel
    have hclean := (productExact_iff _ _ _ _).mp h _ _ hsearch
      ⟨by decide +kernel, by decide +kernel, ⟨true, 3⟩, by decide +kernel⟩
    exact absurd hclean.1.1 (by decide)
  · have hsearch : buildProductParser.search "file iso /nix/store/x~".toList =
        some ([], ⟨"file iso /nix/store/x~".toList, [],
          [(1, "file".toList), (2, "iso".toList), (3, "/nix/store/x~".toList)]⟩) := by
      decide +kernel
    have hclean := (productExact_iff _ _ _ _).mp h _ _ hsearch
      ⟨by decide +kernel, by decide +kernel, ⟨true, 3⟩, by decide +kernel⟩
    exact absurd (hclean.2 '~' (by decide +kernel)) (by decide)

/-! ## The store -/

open Paths (Place)

/-- The directory is an absolute path without `..`, as Nix gives the store
directory. -/
def CanonicalDir (storeDir : String) : Prop :=
  Paths.isAbsolute storeDir.toList = true ∧ Paths.parent ∉ Paths.components storeDir.toList

/-- The product that is read of the line is the store or lies below it. -/
def ProductInside (storeDir : String) (fs : FileSystem) (output : StorePath)
    (line : String) : Prop :=
  ∀ p, parseBuildProduct storeDir (fs.operations storeDir) output line = some p →
    Paths.resolve p.path.toList = Paths.resolve storeDir.toList ∨
      (Paths.resolve storeDir.toList).Inside (Paths.resolve p.path.toList)

/-- The part of the path behind the store directory, as a relative path. -/
def behindStore (storeDir path : String) : Place :=
  ((Paths.components path.toList).drop (Paths.components storeDir.toList).length).foldl
    Place.enter Place.here

/-- Behind the store directory the path leads no step upwards, or after its
steps upwards it comes back along the last components of the store
directory. -/
def ComesBack (storeDir path : String) : Prop :=
  (Paths.components storeDir.toList).drop
      ((Paths.components storeDir.toList).length - (behindStore storeDir path).ups) <+:
    (behindStore storeDir path).names

theorem foldl_enter_of_not_mem {cs : List (List Char)} (h : Paths.parent ∉ cs) (q : Place) :
    cs.foldl Place.enter q = { q with names := q.names ++ cs } := by
  induction cs generalizing q with
  | nil => simp
  | cons c cs ih =>
    rw [List.mem_cons, not_or] at h
    rw [List.foldl_cons, Place.enter_of_ne _ (Ne.symm h.1), ih h.2, List.append_assoc]
    rfl

theorem CanonicalDir.resolve_eq {storeDir : String} (h : CanonicalDir storeDir) :
    Paths.resolve storeDir.toList = ⟨true, 0, Paths.components storeDir.toList⟩ := by
  rw [Paths.resolve, foldl_enter_of_not_mem h.2, h.1, List.nil_append]

/-- The components of a path that is inside the store, as the check sees it. -/
theorem components_of_isSubpath {storeDir path : String} (hdir : CanonicalDir storeDir)
    (habs : Paths.isAbsolute path.toList = true) (h : isSubpath storeDir path = true) :
    Paths.components path.toList = Paths.components storeDir.toList ++
      (Paths.components path.toList).drop (Paths.components storeDir.toList).length := by
  rw [isSubpath, pathComponents, pathComponents, if_pos hdir.1, if_pos habs,
    List.isPrefixOf_iff_prefix, List.cons_prefix_cons] at h
  obtain ⟨rest, hrest⟩ := h.2
  rw [← hrest, List.drop_left]

/-- Such a path is the part behind the store directory, seen from there. -/
theorem resolve_of_isSubpath {storeDir path : String} (hdir : CanonicalDir storeDir)
    (habs : Paths.isAbsolute path.toList = true) (h : isSubpath storeDir path = true) :
    Paths.resolve path.toList =
      ⟨true, 0, (Paths.components storeDir.toList).take
        ((Paths.components storeDir.toList).length - (behindStore storeDir path).ups) ++
          (behindStore storeDir path).names⟩ := by
  have hfollow : Paths.resolve path.toList =
      (⟨true, 0, Paths.components storeDir.toList⟩ : Place).follow
        (behindStore storeDir path) := by
    rw [Paths.resolve, habs, components_of_isSubpath hdir habs h, List.foldl_append,
      foldl_enter_of_not_mem hdir.2, List.nil_append, Place.foldl_enter]
    rfl
  rw [hfollow, Place.follow, Place.climb_absolute]

/-- A place is a directory or below it when its names start with those of the
directory. -/
theorem eq_or_inside_iff {dir names : List (List Char)} :
    ((⟨true, 0, names⟩ : Place) = ⟨true, 0, dir⟩ ∨
      (⟨true, 0, dir⟩ : Place).Inside ⟨true, 0, names⟩) ↔ dir <+: names := by
  constructor
  · rintro (heq | ⟨-, -, x, xs, hnames⟩)
    · cases heq
      exact List.prefix_rfl
    · exact ⟨x :: xs, hnames.symm⟩
  · rintro ⟨rest, rfl⟩
    cases rest with
    | nil => exact .inl (by rw [List.append_nil])
    | cons x xs => exact .inr ⟨rfl, rfl, x, xs, rfl⟩

theorem comesBack_iff {storeDir path : String} (hdir : CanonicalDir storeDir)
    (habs : Paths.isAbsolute path.toList = true) (h : isSubpath storeDir path = true) :
    (Paths.resolve path.toList = Paths.resolve storeDir.toList ∨
      (Paths.resolve storeDir.toList).Inside (Paths.resolve path.toList)) ↔
      ComesBack storeDir path := by
  rw [hdir.resolve_eq, resolve_of_isSubpath hdir habs h, eq_or_inside_iff, ComesBack]
  generalize (Paths.components storeDir.toList).length - (behindStore storeDir path).ups = n
  generalize Paths.components storeDir.toList = dir
  generalize (behindStore storeDir path).names = names
  calc dir <+: dir.take n ++ names
      ↔ dir.take n ++ dir.drop n <+: dir.take n ++ names := by rw [List.take_append_drop]
    _ ↔ dir.drop n <+: names := List.prefix_append_right_inj _

/-- A product stays inside the store exactly when, behind the store
directory, its path does not lead out of it or comes back. -/
theorem productInside_iff {storeDir : String} (hdir : CanonicalDir storeDir) (fs : FileSystem)
    (output : StorePath) (line : String) :
    ProductInside storeDir fs output line ↔
      ∀ pre m, buildProductParser.search line.toList = some (pre, m) →
        (fs.operations storeDir).Accepts (pathOf m.groups) →
        ComesBack storeDir (pathOf m.groups) := by
  have habsolute : ∀ {path : String}, path.toList.head? = some '/' →
      Paths.isAbsolute path.toList = true := fun h => decide_eq_true h
  constructor
  · rintro h pre m hsearch ⟨hroot, hinside, metadata, hmeta⟩
    have hp := h _ (parseBuildProduct_eq_some_iff.mpr
      ⟨pre, m, metadata, hsearch, hroot, hinside, hmeta, rfl⟩)
    exact (comesBack_iff hdir (habsolute hroot) hinside).mp hp
  · intro h p hp
    obtain ⟨pre, m, metadata, hsearch, hroot, hinside, hmeta, rfl⟩ :=
      parseBuildProduct_eq_some_iff.mp hp
    exact (comesBack_iff hdir (habsolute hroot) hinside).mpr
      (h pre m hsearch ⟨hroot, hinside, metadata, hmeta⟩)

theorem canonicalDir_nixStore : CanonicalDir "/nix/store" := ⟨by decide, by decide⟩

/-- A line with a file in the output. -/
theorem productInside_iff_output :
    ProductInside "/nix/store" (.oneFile "/nix/store/x/a.iso") sampleOutput
      "file iso /nix/store/x/a.iso" := by
  refine (productInside_iff canonicalDir_nixStore _ _ _).mpr (fun pre m hsearch _ => ?_)
  have hfound : buildProductParser.search "file iso /nix/store/x/a.iso".toList =
      some ([], ⟨"file iso /nix/store/x/a.iso".toList, [],
        [(1, "file".toList), (2, "iso".toList), (3, "/nix/store/x/a.iso".toList)]⟩) := by
    decide +kernel
  rw [hfound] at hsearch
  cases hsearch
  exact List.isPrefixOf_iff_prefix.mp (by decide +kernel)

/-- The size and the hash of a file outside the store are published. -/
theorem productInside_fails :
    parseBuildProduct "/nix/store" ((FileSystem.oneFile "/nix/store/../../etc/passwd").operations
        "/nix/store") sampleOutput "file txt /nix/store/../../etc/passwd" =
      some ⟨"/nix/store/../../etc/passwd", "", "file", "txt", "passwd", true, some "hash",
        some 3⟩ ∧
    Paths.resolve "/nix/store/../../etc/passwd".toList =
      ⟨true, 0, ["etc".toList, "passwd".toList]⟩ ∧
    ¬ ∀ (fs : FileSystem) (output : StorePath) (line : String),
      ProductInside "/nix/store" fs output line := by
  have hproduct : parseBuildProduct "/nix/store"
      ((FileSystem.oneFile "/nix/store/../../etc/passwd").operations "/nix/store") sampleOutput
        "file txt /nix/store/../../etc/passwd" =
      some ⟨"/nix/store/../../etc/passwd", "", "file", "txt", "passwd", true, some "hash",
        some 3⟩ := by
    decide +kernel
  have hplace : Paths.resolve "/nix/store/../../etc/passwd".toList =
      ⟨true, 0, ["etc".toList, "passwd".toList]⟩ := by decide +kernel
  refine ⟨hproduct, hplace, fun hall => ?_⟩
  have hinside := hall _ _ _ _ hproduct
  rw [hplace, canonicalDir_nixStore.resolve_eq, eq_or_inside_iff,
    ← List.isPrefixOf_iff_prefix] at hinside
  exact absurd hinside (by decide +kernel)

end NixSupport

end QueueRunner
