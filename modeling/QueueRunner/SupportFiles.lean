import QueueRunner.BuildOutput

/-!
# What a build declares

A build declares its products and metrics by lines in `nix-support`.  The
line of a product has a type, a subtype, a path, with or without quotes, and
perhaps a default path; the line of a metric has a name, a value and perhaps
a unit.  Between them are blanks.

`declared_is_read` says that such lines are read as they were meant: the
search for the leftmost match finds the whole line, and its groups are the
fields.  So a release gets the products and metrics that its builds declare,
in their order.
-/

namespace QueueRunner

namespace NixSupport

open Regex (Pattern Match Span)

/-! ## Lines -/

/-- A path as it stands in the line of a product. -/
inductive DeclaredPath where
  | bare (path : Span isBareChar)
  | quoted (path : Span isQuotedChar)

/-- The path itself. -/
def DeclaredPath.path : DeclaredPath → List Char
  | .bare p => p.chars
  | .quoted p => p.chars

/-- The path in the line. -/
def DeclaredPath.text : DeclaredPath → List Char
  | .bare p => p.chars
  | .quoted p => '"' :: (p.chars ++ ['"'])

/-- A line of `hydra-build-products`. -/
structure ProductLine where
  type : Span isWordChar
  afterType : Span isWhitespace
  subtype : Span isWordChar
  afterSubtype : Span isWhitespace
  path : DeclaredPath
  defaultPath : Option (Span isWhitespace × Span isBareChar)

namespace ProductLine

/-- The default path with the blanks before it. -/
def defaultText (l : ProductLine) : List Char :=
  match l.defaultPath with
  | none => []
  | some (blanks, path) => blanks.chars ++ path.chars

def text (l : ProductLine) : List Char :=
  l.type.chars ++ (l.afterType.chars ++
    (l.subtype.chars ++ (l.afterSubtype.chars ++ (l.path.text ++ l.defaultText))))

/-- The product that the line declares, with what is read of its file. -/
def productWith (storeDir : String) (fs : FileSystem) (output : StorePath) (l : ProductLine)
    (metadata : FileMetadata) : BuildProduct where
  type := String.ofList l.type.chars
  subtype := String.ofList l.subtype.chars
  path := String.ofList l.path.path
  defaultPath := (l.defaultPath.map (fun d => String.ofList d.2.chars)).getD ""
  name := productName storeDir output (String.ofList l.path.path)
  isRegular := metadata.isRegular
  fileSize := if metadata.isRegular then some metadata.size else none
  sha256hash :=
    if metadata.isRegular then (fs.hash (String.ofList l.path.path)).toOption else none

/-- There is no product when the path is not absolute, not in the store, or
names no file. -/
def product (storeDir : String) (fs : FileSystem) (output : StorePath) (l : ProductLine) :
    Option BuildProduct :=
  if l.path.path.head? = some '/' ∧ isSubpath storeDir (String.ofList l.path.path) = true then
    (fs.metadata (String.ofList l.path.path)).toOption.map (l.productWith storeDir fs output)
  else none

end ProductLine

/-- A character of a field. -/
def isFieldChar (c : Char) : Bool := !isWhitespace c

/-- A line of `hydra-metrics`. -/
structure MetricLine where
  name : Span isMetricsNameChar
  afterName : Span isWhitespace
  value : Span isFieldChar
  unit : Option (Span isWhitespace × Span isMetricsUnitChar)

namespace MetricLine

/-- The unit with the blanks before it. -/
def unitText (l : MetricLine) : List Char :=
  match l.unit with
  | none => []
  | some (blanks, unit) => blanks.chars ++ unit.chars

def text (l : MetricLine) : List Char :=
  l.name.chars ++ (l.afterName.chars ++ (l.value.chars ++ l.unitText))

/-- The metric that the line declares. -/
def metric {F64 : Type} (ops : FloatOps F64) (storeDir : String) (output : StorePath)
    (l : MetricLine) : BuildMetric F64 where
  path := printStorePath storeDir output
  name := String.ofList l.name.chars
  unit := l.unit.map (fun u => String.ofList u.2.chars)
  value := (ops.parse (String.ofList l.value.chars)).getD ops.zero

end MetricLine

/-! ## The line of a product -/

/-- A path does not start with a blank. -/
theorem DeclaredPath.head?_append (p : DeclaredPath) (rest : List Char) :
    ∀ c ∈ (p.text ++ rest).head?, isWhitespace c = false := by
  cases p with
  | bare p => exact fun c hc => isWhitespace_of_isBareChar (p.head?_append rest c hc)
  | quoted p =>
    intro c hc
    cases hc
    decide

/-- The third group is the path with its quotes. -/
theorem DeclaredPath.first (p : DeclaredPath) {rest : List Char}
    (hrest : ∀ c ∈ rest.head?, isBareChar c = false) :
    pathParser.First (p.text ++ rest) ⟨p.text, rest, [(3, p.text)]⟩ := by
  refine Pattern.First.group (m := ⟨p.text, rest, []⟩) ?_ 3
  cases p with
  | bare p =>
    refine .alt_right ?_ (Pattern.first_many1 p rest hrest)
    obtain ⟨c, cs, hc⟩ := List.exists_cons_of_ne_nil p.nonempty
    have hbare : isBareChar c = true := p.inClass c (by rw [hc]; exact List.mem_cons_self)
    rw [DeclaredPath.text, hc]
    exact Pattern.exec_seq_nil (Pattern.exec_one_nil (fun _ => isQuote_of_isBareChar) hbare)
  | quoted p =>
    have hinner := Pattern.first_many1 p ('"' :: rest) (by
      intro c hc
      cases hc
      decide)
    have hquote : isQuote '"' = true := by decide
    have hall := (Pattern.first_one hquote (p.chars ++ '"' :: rest)).seq
      (hinner.seq (Pattern.first_one hquote rest))
    refine .alt_left ?_ _
    simpa [quotedPath, DeclaredPath.text, Match.append] using hall

/-- The path without its quotes. -/
theorem DeclaredPath.unquote_text (p : DeclaredPath) :
    unquote (String.ofList p.text) = String.ofList p.path := by
  cases p with
  | bare p =>
    rw [unquote, if_neg]
    · rfl
    rintro ⟨hhead, -⟩
    rw [String.toList_ofList] at hhead
    have hbare := p.inClass _ (List.mem_of_head? hhead)
    exact absurd hbare (by decide)
  | quoted p =>
    have hlast : (DeclaredPath.quoted p).text.getLast? = some '"' := by
      simp [DeclaredPath.text, List.getLast?_cons]
    rw [unquote, String.toList_ofList, if_pos ⟨rfl, hlast⟩, DeclaredPath.text, List.tail_cons,
      List.dropLast_concat]
    rfl

/-- What follows the path of a line is not a part of it. -/
theorem ProductLine.head?_defaultText (l : ProductLine) :
    ∀ c ∈ l.defaultText.head?, isBareChar c = false := by
  unfold defaultText
  cases l.defaultPath with
  | none => simp
  | some d => exact fun c hc => isBareChar_of_isWhitespace (d.1.head?_append _ c hc)

/-- The groups of the default path. -/
def ProductLine.defaultGroups (l : ProductLine) : List (Nat × List Char) :=
  match l.defaultPath with
  | none => []
  | some (blanks, path) => [(4, blanks.chars ++ path.chars), (5, path.chars)]

theorem ProductLine.first_default (l : ProductLine) :
    defaultPathParser.First l.defaultText ⟨l.defaultText, [], l.defaultGroups⟩ := by
  unfold defaultText defaultGroups
  cases l.defaultPath with
  | none => exact Pattern.first_opt_nil rfl
  | some d =>
    obtain ⟨blanks, path⟩ := d
    have hpath := (Pattern.first_many1 path [] (by simp)).group 5
    rw [List.append_nil] at hpath
    have hblanks := Pattern.first_many1 blanks path.chars (fun c hc => by
      refine isWhitespace_of_isBareChar (path.head?_append [] c ?_)
      rwa [List.append_nil])
    exact ((hblanks.seq hpath).group 4).opt

/-- The groups of a line. -/
def ProductLine.groups (l : ProductLine) : List (Nat × List Char) :=
  [(1, l.type.chars), (2, l.subtype.chars), (3, l.path.text)] ++ l.defaultGroups

/-- The parser takes the whole line, and its groups are the fields. -/
theorem ProductLine.first (l : ProductLine) :
    buildProductParser.First l.text ⟨l.text, [], l.groups⟩ := by
  have hspace : ∀ {w : Span isWhitespace} {rest : List Char},
      ∀ c ∈ (w.chars ++ rest).head?, isWordChar c = false :=
    fun {w _} c hc => isWordChar_of_isWhitespace (w.head?_append _ c hc)
  have htype := (Pattern.first_many1 l.type (l.afterType.chars ++
    (l.subtype.chars ++ (l.afterSubtype.chars ++ (l.path.text ++ l.defaultText)))) hspace).group 1
  have hgap := Pattern.first_many1 l.afterType (l.subtype.chars ++
    (l.afterSubtype.chars ++ (l.path.text ++ l.defaultText)))
    (fun c hc => isWhitespace_of_isWordChar (l.subtype.head?_append _ c hc))
  have hsubtype := (Pattern.first_many1 l.subtype (l.afterSubtype.chars ++
    (l.path.text ++ l.defaultText)) hspace).group 2
  have hgap' := Pattern.first_many1 l.afterSubtype (l.path.text ++ l.defaultText)
    (l.path.head?_append _)
  have hpath := l.path.first l.head?_defaultText
  exact htype.seq (hgap.seq (hsubtype.seq (hgap'.seq (hpath.seq l.first_default))))

/-- A line is read as the product that it declares. -/
theorem ProductLine.parse_text (storeDir : String) (fs : FileSystem) (output : StorePath)
    (l : ProductLine) :
    parseBuildProduct storeDir (fs.operations storeDir) output (String.ofList l.text) =
      l.product storeDir fs output := by
  have hpath : pathOf l.groups = String.ofList l.path.path := l.path.unquote_text
  have hdefault : captured l.groups 5 =
      (l.defaultPath.map (fun d => String.ofList d.2.chars)).getD "" := by
    unfold groups defaultGroups
    cases l.defaultPath <;> rfl
  have hproduct : productOf storeDir (fs.operations storeDir) output l.groups =
      l.productWith storeDir fs output := by
    funext metadata
    simp only [productOf, hpath, hdefault, validateProductName, Pattern.isMatch_many, if_true]
    rfl
  unfold parseBuildProduct product
  rw [String.toList_ofList, l.first.search_eq]
  simp only [hpath, hproduct, String.toList_ofList]
  by_cases hroot : l.path.path.head? = some '/'
  · cases hinside : isSubpath storeDir (String.ofList l.path.path) with
    | false => simp [FileSystem.operations, hinside]
    | true => simp [FileSystem.operations, hroot, hinside]
  · rw [if_pos hroot, if_neg fun h => hroot h.1]

/-! ## The line of a metric -/

theorem isWhitespace_of_isMetricsNameChar {c : Char} (h : isMetricsNameChar c = true) :
    isWhitespace c = false := by
  simp only [isMetricsNameChar, Bool.or_eq_true, beq_iff_eq] at h
  rcases h with ((h | rfl) | rfl) | rfl
  · exact isWhitespace_of_isAlphanum h
  all_goals decide

theorem isWhitespace_of_isMetricsUnitChar {c : Char} (h : isMetricsUnitChar c = true) :
    isWhitespace c = false := by
  simp only [isMetricsUnitChar, Bool.or_eq_true, beq_iff_eq] at h
  rcases h with (((h | rfl) | rfl) | rfl) | rfl
  · exact isWhitespace_of_isAlphanum h
  all_goals decide

/-- A field behind blanks is a word. -/
theorem words_span_append {p : Char → Bool} (w : Span p)
    (hp : ∀ c, p c = true → isWhitespace c = false) (rest : List Char)
    (hrest : ∀ c ∈ rest.head?, isWhitespace c = true) :
    Text.words isWhitespace (w.chars ++ rest) = w.chars :: Text.words isWhitespace rest :=
  Text.words_append w.nonempty (fun c hc => hp c (w.inClass c hc)) rest hrest

theorem isMatch_span {p : Char → Bool} (w : Span p) :
    (Pattern.many1 p).isMatch w.chars = true := by
  obtain ⟨c, cs, hc⟩ := List.exists_cons_of_ne_nil w.nonempty
  have hmem : c ∈ w.chars := by
    rw [hc]
    exact List.mem_cons_self
  exact Pattern.isMatch_many1_iff.mpr ⟨c, hmem, w.inClass c hmem⟩

theorem MetricLine.fieldsOf_text (l : MetricLine) :
    fieldsOf (String.ofList l.text) = String.ofList l.name.chars ::
      String.ofList l.value.chars :: (l.unit.map (fun u => String.ofList u.2.chars)).toList := by
  have hvalue : ∀ c, isFieldChar c = true → isWhitespace c = false := by
    simp [isFieldChar]
  have hunit : Text.words isWhitespace l.unitText =
      (l.unit.map (fun u => u.2.chars)).toList := by
    unfold unitText
    cases l.unit with
    | none => rfl
    | some u =>
      have hlast := words_span_append u.2
        (fun _ => isWhitespace_of_isMetricsUnitChar) [] (by simp)
      rw [List.append_nil] at hlast
      simp only [Text.words_blanks_append u.1.inClass, hlast]
      rfl
  have hblank : ∀ c ∈ l.unitText.head?, isWhitespace c = true := by
    unfold unitText
    cases l.unit with
    | none => simp
    | some u => exact u.1.head?_append _
  have hwords : Text.words isWhitespace l.text = l.name.chars :: l.value.chars ::
      (l.unit.map (fun u => u.2.chars)).toList := by
    rw [text, words_span_append l.name (fun _ => isWhitespace_of_isMetricsNameChar) _
      (l.afterName.head?_append _), Text.words_blanks_append l.afterName.inClass,
      words_span_append l.value hvalue _ hblank, hunit]
  rw [fieldsOf, String.toList_ofList, hwords, List.map_cons, List.map_cons]
  cases l.unit <;> rfl

/-- A line is read as the metric that it declares. -/
theorem MetricLine.parse_text {F64 : Type} (ops : FloatOps F64) (storeDir : String)
    (output : StorePath) (l : MetricLine) :
    parseMetric ops storeDir (String.ofList l.text) output =
      some (l.metric ops storeDir output) := by
  have hname : validateMetricsName.isMatch (String.ofList l.name.chars).toList = true := by
    rw [String.toList_ofList]
    exact isMatch_span l.name
  have hunit : (l.unit.map (fun u => String.ofList u.2.chars)).toList.head?.filter
      (fun unit => validateMetricsUnit.isMatch unit.toList) =
        l.unit.map (fun u => String.ofList u.2.chars) := by
    cases l.unit with
    | none => rfl
    | some u =>
      have hmatch : validateMetricsUnit.isMatch u.2.chars = true := isMatch_span u.2
      simp [hmatch]
  rw [parseMetric, l.fieldsOf_text]
  simp only [hname, if_true, hunit]
  rfl

/-! ## The files -/

/-- What an output declares, and whether it has the files. -/
structure Declared where
  products : Option (List ProductLine) := none
  metrics : Option (List MetricLine) := none

/-- What the file of an output holds: it is missing, or it has these lines. -/
def Holds (files : StoreFiles) (storeDir name : String) (output : StorePath)
    (lines : Option (List (List Char))) : Prop :=
  files.lines (supportFile storeDir output name) =
    match lines with
    | none => .error ()
    | some lines => .ok (lines.map (fun l => .ok (String.ofList l)))

/-- The files of the output hold what it declares. -/
structure Declares (files : StoreFiles) (storeDir : String) (output : StorePath)
    (d : Declared) : Prop where
  products : Holds files storeDir "hydra-build-products" output
    (d.products.map (fun ls => ls.map ProductLine.text))
  metrics : Holds files storeDir "hydra-metrics" output
    (d.metrics.map (fun ls => ls.map MetricLine.text))

theorem readLines_map {α : Type} (parse : String → Option α) (lines : List (List Char)) :
    readLines parse (lines.map (fun l => .ok (String.ofList l))) =
      .ok (lines.filterMap (fun l => parse (String.ofList l))) := by
  induction lines with
  | nil => rfl
  | cons l lines ih =>
    rw [List.map_cons, readLines, ih, List.filterMap_cons]
    cases parse (String.ofList l) <;> rfl

/-- The loop over the outputs reads the lines of all files in their order. -/
theorem readFiles_of_holds {α : Type} {files : StoreFiles} {storeDir name : String}
    (parse : StorePath → String → Option α) {lines : StorePath → Option (List (List Char))}
    {outputs : List StorePath}
    (h : ∀ o ∈ outputs, Holds files storeDir name o (lines o)) :
    readFiles files storeDir name parse outputs =
      .ok (outputs.any (fun o => (lines o).isSome), outputs.flatMap (fun o =>
        ((lines o).getD []).filterMap (fun l => parse o (String.ofList l)))) := by
  induction outputs with
  | nil => rfl
  | cons o outputs ih =>
    rw [List.forall_mem_cons] at h
    have hfile := h.1
    unfold Holds at hfile
    rw [readFiles, hfile, ih h.2, List.flatMap_cons, List.any_cons]
    cases lines o with
    | none => simp
    | some ls => simp [readLines_map]

/-- What the outputs declare is what is read: the metrics and the products of
their files, in their order.  The outputs that are directories are the
products when none of them has a file of products. -/
theorem declared_is_read {F64 : Type} (ops : FloatOps F64) (files : StoreFiles)
    (storeDir : String) (outputs : List DerivationOutput) (declared : StorePath → Declared)
    (h : ∀ o ∈ outputs.filterMap DerivationOutput.path,
      Declares files storeDir o (declared o)) :
    ∃ support, parseNixSupportFromOutputs ops files storeDir outputs = .ok support ∧
      support.metrics = (outputs.filterMap DerivationOutput.path).flatMap (fun o =>
        ((declared o).metrics.getD []).map (MetricLine.metric ops storeDir o)) ∧
      support.products =
        if ∃ o ∈ outputs.filterMap DerivationOutput.path, (declared o).products.isSome then
          (outputs.filterMap DerivationOutput.path).flatMap (fun o =>
            ((declared o).products.getD []).filterMap
              (ProductLine.product storeDir files.toFileSystem o))
        else defaultProducts files storeDir outputs := by
  have hmetrics := readFiles_of_holds (fun output line => parseMetric ops storeDir line output)
    (fun o ho => (h o ho).metrics)
  have hproducts := readFiles_of_holds
    (fun output line => parseBuildProduct storeDir (files.toFileSystem.operations storeDir)
      output line)
    (fun o ho => (h o ho).products)
  refine ⟨_, by simp only [parseNixSupportFromOutputs, hmetrics, hproducts]; rfl, ?_, ?_⟩
  · refine List.flatMap_congr fun o _ => ?_
    cases (declared o).metrics <;> simp [List.filterMap_map, MetricLine.parse_text]
  · have hread : (outputs.filterMap DerivationOutput.path).flatMap (fun o =>
        (((declared o).products.map (fun ls => ls.map ProductLine.text)).getD []).filterMap
          (fun l => parseBuildProduct storeDir (files.toFileSystem.operations storeDir) o
            (String.ofList l))) =
        (outputs.filterMap DerivationOutput.path).flatMap (fun o =>
          ((declared o).products.getD []).filterMap
            (ProductLine.product storeDir files.toFileSystem o)) := by
      refine List.flatMap_congr fun o _ => ?_
      cases (declared o).products <;>
        simp [List.filterMap_map, ProductLine.parse_text]
    simp only [hread, Option.isSome_map, List.any_eq_true]

namespace Sample

def blank : Span isWhitespace := .ofText " " (by decide) (by decide)

def file : Span isWordChar := .ofText "file" (by decide) (by decide)

/-- A file in the output, with its path in quotes and a default path. -/
def isoLine : ProductLine where
  type := file
  afterType := blank
  subtype := .ofText "iso" (by decide) (by decide)
  afterSubtype := blank
  path := .quoted (.ofText BuildOutput.isoFile (by decide) (by decide +kernel))
  defaultPath := some (blank, .ofText "boot" (by decide) (by decide))

/-- A file that is not in the store. -/
def passwdLine : ProductLine where
  type := file
  afterType := blank
  subtype := .ofText "txt" (by decide) (by decide)
  afterSubtype := blank
  path := .bare (.ofText "/etc/passwd" (by decide) (by decide))
  defaultPath := none

def sizeLine : MetricLine where
  name := .ofText "size" (by decide) (by decide)
  afterName := blank
  value := .ofText "12" (by decide) (by decide)
  unit := some (blank, .ofText "KiB" (by decide) (by decide))

def declared : Declared := ⟨some [isoLine, passwdLine], some [sizeLine]⟩

theorem declares : ∀ o ∈ BuildOutput.sampleOutputs.filterMap DerivationOutput.path,
    Declares BuildOutput.declaringStore.files "/nix/store" o declared := by
  intro o ho
  obtain rfl : o = sampleOutput := List.mem_singleton.mp ho
  constructor <;> (unfold Holds; decide +kernel)

end Sample

/-- The file is read as a product, with its size and hash, and the size as a
metric; the path that is not in the store is passed over. -/
theorem declared_is_read_sample : ∃ support,
    parseNixSupportFromOutputs BuildOutput.sampleFloats BuildOutput.declaringStore.files
      "/nix/store" BuildOutput.sampleOutputs = .ok support ∧
      support.metrics =
        [⟨printStorePath "/nix/store" sampleOutput, "size", some "KiB", 12⟩] ∧
      support.products =
        [⟨BuildOutput.isoFile, "boot", "file", "iso", "a.iso", true, some "hash", some 3⟩] := by
  obtain ⟨support, hparse, hmetrics, hproducts⟩ := declared_is_read BuildOutput.sampleFloats
    BuildOutput.declaringStore.files "/nix/store" BuildOutput.sampleOutputs
    (fun _ => Sample.declared) Sample.declares
  have hmetric : Sample.sizeLine.metric BuildOutput.sampleFloats "/nix/store" sampleOutput =
      ⟨printStorePath "/nix/store" sampleOutput, "size", some "KiB", 12⟩ := by
    rw [MetricLine.metric, BuildMetric.mk.injEq]
    decide +kernel
  refine ⟨support, hparse, hmetrics.trans ?_, hproducts.trans (by decide +kernel)⟩
  rw [← hmetric]
  rfl

end NixSupport

end QueueRunner
