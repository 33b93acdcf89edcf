import QueueRunner.BuildRows
import QueueRunner.NixSupport

/-!
# The output of a build

A build leaves its outputs in the store and files in `nix-support`, and
`BuildOutput` is what the queue runner keeps of both.  It gets it in two ways:

* the builder reads its own store, packs what it has found into the
  `BuildResultInfo` of the report (`new_success_build_result_info`), and the
  runner unpacks it (`From<BuildResultInfo>`);
* for a build whose outputs are there already, the runner reads its own
  store (`BuildOutput::new`).

`resultInfo_unpacks` says that the two ways agree: what arrives is what the
runner would have found in a store with the same contents, with the timings
of the builder cut to milliseconds.

Sizes are `u64` and their sums wrap around, as they do without overflow
checks.
-/

namespace QueueRunner

/-! ## `parse_nix_support_from_outputs` -/

/-- What `parse_nix_support_from_outputs` reads of the file system. -/
structure StoreFiles extends NixSupport.FileSystem where
  /-- `File::open` and the lines of the file; a line that cannot be read is an
  error. -/
  lines : String → Except Unit (List (Except Unit String))
  /-- `try_exists`. -/
  tryExists : String → Except Unit Bool
  /-- `read_to_string`. -/
  readToString : String → Except Unit String
  /-- `metadata`, whether it is a directory. -/
  isDir : String → Except Unit Bool

/-- `shared::NixSupport`, and the message of the same form. -/
structure NixSupportInfo (F64 : Type) where
  failed : Bool
  hydraReleaseName : Option String
  metrics : List (NixSupport.BuildMetric F64)
  products : List NixSupport.BuildProduct

/-- `StorePath::name`. -/
def StorePath.name (p : StorePath) : String := String.ofList (p.baseName.toList.drop 33)

namespace NixSupport

/-- The file of an output in `nix-support`. -/
def supportFile (storeDir : String) (output : StorePath) (name : String) : String :=
  printStorePath storeDir output ++ "/nix-support/" ++ name

/-- The loop over the lines of a file. -/
def readLines {α : Type} (parse : String → Option α) :
    List (Except Unit String) → Except Unit (List α)
  | [] => .ok []
  | .error e :: _ => .error e
  | .ok line :: rest =>
    match readLines parse rest with
    | .error e => .error e
    | .ok found => .ok ((parse line).toList ++ found)

/-- The loop over the outputs: what the lines of their files hold, and whether
there is such a file. -/
def readFiles {α : Type} (files : StoreFiles) (storeDir name : String)
    (parse : StorePath → String → Option α) : List StorePath → Except Unit (Bool × List α)
  | [] => .ok (false, [])
  | output :: rest =>
    match files.lines (supportFile storeDir output name) with
    | .error _ => readFiles files storeDir name parse rest
    | .ok lines =>
      match readLines (parse output) lines, readFiles files storeDir name parse rest with
      | .ok found, .ok (_, more) => .ok (true, found ++ more)
      | _, _ => .error ()

/-- The loop for `nix-support/failed`. -/
def readFailed (files : StoreFiles) (storeDir : String) (outputs : List StorePath) : Bool :=
  outputs.any (fun o =>
    match files.tryExists (supportFile storeDir o "failed") with
    | .ok b => b
    | .error _ => false)

/-- The loop for `nix-support/hydra-release-name`. -/
def readReleaseName (files : StoreFiles) (storeDir : String) (outputs : List StorePath) :
    Option String :=
  outputs.findSome? (fun o =>
    match files.readToString (supportFile storeDir o "hydra-release-name") with
    | .ok v => parseReleaseName v
    | .error _ => none)

/-- The products of a build without `hydra-build-products`: the outputs that
are directories. -/
def defaultProducts (files : StoreFiles) (storeDir : String) (outputs : List DerivationOutput) :
    List BuildProduct :=
  outputs.filterMap (fun o =>
    match o.path with
    | none => none
    | some path =>
      match files.isDir (printStorePath storeDir path) with
      | .ok true => some {
          type := "nix-build"
          subtype := if o.name = "out" then "" else o.name
          path := printStorePath storeDir path
          name := path.name
          defaultPath := ""
          isRegular := false
          fileSize := none
          sha256hash := none }
      | _ => none)

/-- `parse_nix_support_from_outputs`. -/
def parseNixSupportFromOutputs {F64 : Type} (ops : FloatOps F64) (files : StoreFiles)
    (storeDir : String) (derivationOutputs : List DerivationOutput) :
    Except Unit (NixSupportInfo F64) :=
  let outputs := derivationOutputs.filterMap DerivationOutput.path
  match readFiles files storeDir "hydra-metrics"
      (fun output line => parseMetric ops storeDir line output) outputs with
  | .error e => .error e
  | .ok (_, metrics) =>
    match readFiles files storeDir "hydra-build-products"
        (fun output line => parseBuildProduct storeDir
          (files.toFileSystem.operations storeDir) output line) outputs with
    | .error e => .error e
    | .ok (explicitProducts, products) => .ok {
        failed := readFailed files storeDir outputs
        hydraReleaseName := readReleaseName files storeDir outputs
        metrics := metrics
        products := if explicitProducts then products
          else defaultProducts files storeDir derivationOutputs }

end NixSupport

/-! ## The report of the builder -/

/-- `BuildTimings`, in nanoseconds. -/
structure BuildDurations where
  importElapsed : Nat := 0
  buildElapsed : Nat := 0
  uploadElapsed : Nat := 0
deriving DecidableEq

/-- `Duration::as_millis`. -/
def asMillis (d : Nat) : Nat := d / 1000000

/-- `Duration::from_millis`. -/
def fromMillis (ms : Nat) : Nat := ms * 1000000

/-- `BuildTimings::get_overhead`. -/
def BuildDurations.getOverhead (t : BuildDurations) : Nat :=
  asMillis t.importElapsed + asMillis t.uploadElapsed

/-- `u64::try_from` of a `u128`. -/
def u64TryFrom (n : Nat) : Option Nat := if n < 2 ^ 64 then some n else none

/-- A store as both sides ask it. -/
structure StoreView where
  env : NixEnv
  files : StoreFiles
  /-- `query_path_infos`. -/
  pathInfo : StorePath → Option PathInfo
  /-- `compute_closure_size`. -/
  closureSize : StorePath → UInt64

/-- `OutputWithPath`. -/
structure OutputWithPath where
  name : String
  closureSize : UInt64
  path : String
  narSize : UInt64
  narHash : String
deriving DecidableEq

/-- `output::Output`. -/
inductive WireOutput where
  | nameOnly (name : String)
  | withPath (o : OutputWithPath)
deriving DecidableEq

/-- `BuildResultInfo`. -/
structure BuildResultInfo (F64 : Type) where
  buildId : String
  machineId : String
  importTimeMs : Nat
  buildTimeMs : Nat
  uploadTimeMs : Nat
  resultState : BuildResultState
  outputs : List (Option WireOutput)
  nixSupport : Option (NixSupportInfo F64)

/-- The loop of `new_success_build_result_info` over the outputs. -/
def packOutput (store : StoreView) (o : DerivationOutput) : Option WireOutput :=
  match o.path with
  | none => some (.nameOnly o.name)
  | some p =>
    match store.pathInfo p with
    | none => some (.nameOnly o.name)
    | some info => some (.withPath
        { name := o.name
          closureSize := store.closureSize p
          path := p.baseName
          narSize := info.narSize.toUInt64
          narHash := info.narHash })

/-- `new_success_build_result_info`. -/
def newSuccessBuildResultInfo {F64 : Type} (ops : NixSupport.FloatOps F64) (store : StoreView)
    (machineId : String) (drvOutputs : List DerivationOutput) (timings : BuildDurations)
    (buildId : String) : Except Unit (BuildResultInfo F64) :=
  match NixSupport.parseNixSupportFromOutputs ops store.files store.env.storeDir drvOutputs with
  | .error e => .error e
  | .ok nixSupport =>
    match u64TryFrom (asMillis timings.importElapsed),
      u64TryFrom (asMillis timings.buildElapsed), u64TryFrom (asMillis timings.uploadElapsed) with
    | some importTimeMs, some buildTimeMs, some uploadTimeMs => .ok
        { buildId := buildId
          machineId := machineId
          importTimeMs := importTimeMs
          buildTimeMs := buildTimeMs
          uploadTimeMs := uploadTimeMs
          resultState := .success
          outputs := drvOutputs.map (packOutput store)
          nixSupport := some nixSupport }
    | _, _, _ => .error ()

/-! ## `BuildOutput` -/

/-- `BuildProduct` of the runner. -/
structure RunnerProduct where
  path : Option StorePath
  defaultPath : Option String
  type : String
  subtype : String
  name : String
  isRegular : Bool
  sha256hash : Option String
  fileSize : Option Nat
deriving DecidableEq

/-- `BuildMetric` of the runner. -/
structure RunnerMetric (F64 : Type) where
  name : String
  unit : Option String
  value : F64

/-- `BuildOutput`. -/
structure BuildOutput (F64 : Type) where
  failed : Bool
  timings : BuildDurations := {}
  releaseName : Option String
  closureSize : UInt64
  size : UInt64
  products : List RunnerProduct
  outputs : Map String StorePath
  metrics : List (RunnerMetric F64)

/-- `From<shared::BuildProduct>`, and the one from the message. -/
def RunnerProduct.ofShared (env : NixEnv) (p : NixSupport.BuildProduct) : RunnerProduct where
  path := some (StorePath.new env.storeDirSlash p.path)
  defaultPath := some p.defaultPath
  type := p.type
  subtype := p.subtype
  name := p.name
  isRegular := p.isRegular
  sha256hash := p.sha256hash
  fileSize := p.fileSize

/-- The metric of the runner. -/
def RunnerMetric.ofShared {F64 : Type} (m : NixSupport.BuildMetric F64) : RunnerMetric F64 where
  name := m.name
  unit := m.unit
  value := m.value

/-- The sums and the map of the loops over the outputs. -/
structure OutputSums where
  outputs : Map String StorePath := ∅
  closureSize : UInt64 := 0
  narSize : UInt64 := 0

/-- One output is added. -/
def OutputSums.add (s : OutputSums) (name : String) (path : StorePath)
    (closureSize narSize : UInt64) : OutputSums where
  outputs := s.outputs.insert name path
  closureSize := s.closureSize + closureSize
  narSize := s.narSize + narSize

/-- The loop body of `From<BuildResultInfo>`. -/
def OutputSums.unpack (env : NixEnv) (s : OutputSums) : Option WireOutput → OutputSums
  | some (.withPath o) =>
    s.add o.name (StorePath.new env.storeDirSlash o.path) o.closureSize o.narSize
  | some (.nameOnly _) | none => s

/-- The loop body of `BuildOutput::new`. -/
def OutputSums.read (store : StoreView) (s : OutputSums) (o : DerivationOutput) : OutputSums :=
  match o.path with
  | none => s
  | some path =>
    match store.pathInfo path with
    | none => s
    | some info => s.add o.name path (store.closureSize path) info.narSize.toUInt64

namespace BuildOutput

variable {F64 : Type}

/-- `BuildTimings::new`. -/
def timingsOf (info : BuildResultInfo F64) : BuildDurations where
  importElapsed := fromMillis info.importTimeMs
  buildElapsed := fromMillis info.buildTimeMs
  uploadElapsed := fromMillis info.uploadTimeMs

/-- `From<BuildResultInfo>`. -/
def ofResultInfo (env : NixEnv) (info : BuildResultInfo F64) : BuildOutput F64 :=
  let sums := info.outputs.foldl (OutputSums.unpack env) {}
  let support := info.nixSupport.getD ⟨false, none, [], []⟩
  { failed := support.failed
    timings := timingsOf info
    releaseName := support.hydraReleaseName
    closureSize := sums.closureSize
    size := sums.narSize
    products := support.products.map (RunnerProduct.ofShared env)
    outputs := sums.outputs
    metrics := support.metrics.map RunnerMetric.ofShared }

/-- `BuildOutput::new`. -/
def new (ops : NixSupport.FloatOps F64) (store : StoreView)
    (outputs : List DerivationOutput) : Except Unit (BuildOutput F64) :=
  match NixSupport.parseNixSupportFromOutputs ops store.files store.env.storeDir outputs with
  | .error e => .error e
  | .ok nixSupport =>
    let sums := outputs.foldl (OutputSums.read store) {}
    .ok {
      failed := nixSupport.failed
      releaseName := nixSupport.hydraReleaseName
      closureSize := sums.closureSize
      size := sums.narSize
      products := nixSupport.products.map (RunnerProduct.ofShared store.env)
      outputs := sums.outputs
      metrics := nixSupport.metrics.map RunnerMetric.ofShared }

end BuildOutput

/-! ## The two ways agree -/

/-- Durations that were cut to milliseconds. -/
def BuildDurations.cut (t : BuildDurations) : BuildDurations where
  importElapsed := fromMillis (asMillis t.importElapsed)
  buildElapsed := fromMillis (asMillis t.buildElapsed)
  uploadElapsed := fromMillis (asMillis t.uploadElapsed)

/-- The message has room for the durations. -/
def BuildDurations.Fits (t : BuildDurations) : Prop :=
  asMillis t.importElapsed < 2 ^ 64 ∧ asMillis t.buildElapsed < 2 ^ 64 ∧
    asMillis t.uploadElapsed < 2 ^ 64

@[simp] theorem asMillis_fromMillis (ms : Nat) : asMillis (fromMillis ms) = ms := by
  unfold asMillis fromMillis
  omega

/-- The overhead is counted in milliseconds, so the cut does not change it. -/
theorem BuildDurations.getOverhead_cut (t : BuildDurations) :
    t.cut.getOverhead = t.getOverhead := by
  simp [getOverhead, cut]

/-- A path comes back from its name. -/
theorem StorePath.new_baseName (env : NixEnv) {p : StorePath} (hp : p.IsComponent) :
    StorePath.new env.storeDirSlash p.baseName = p := by
  have hnone := stripPrefix_of_isComponent hp env.slash_mem_storeDirSlash
  have hslash := stripPrefix_of_isComponent hp (show '/' ∈ "/".toList by decide)
  simp only [StorePath.new, hnone, hslash, Option.getD_none]

/-- The paths of the outputs are names in the store. -/
def OutputsNamed (outputs : List DerivationOutput) : Prop :=
  ∀ o ∈ outputs, ∀ p, o.path = some p → p.IsComponent

/-- An output that was packed is unpacked to what was read. -/
theorem OutputSums.unpack_packOutput (store : StoreView) (s : OutputSums)
    {o : DerivationOutput} (ho : ∀ p, o.path = some p → p.IsComponent) :
    s.unpack store.env (packOutput store o) = s.read store o := by
  unfold packOutput OutputSums.read
  cases hpath : o.path with
  | none => rfl
  | some p =>
    cases hinfo : store.pathInfo p with
    | none => simp only [hinfo, OutputSums.unpack]
    | some info =>
      simp only [hinfo, OutputSums.unpack, StorePath.new_baseName store.env (ho p hpath)]

theorem OutputSums.foldl_unpack (store : StoreView) {outputs : List DerivationOutput}
    (hnames : OutputsNamed outputs) (s : OutputSums) :
    (outputs.map (packOutput store)).foldl (OutputSums.unpack store.env) s =
      outputs.foldl (OutputSums.read store) s := by
  induction outputs generalizing s with
  | nil => rfl
  | cons o outputs ih =>
    rw [List.map_cons, List.foldl_cons, List.foldl_cons,
      OutputSums.unpack_packOutput store s (hnames o List.mem_cons_self)]
    exact ih (fun o' ho' => hnames o' (List.mem_cons_of_mem _ ho')) _

theorem u64TryFrom_eq_some {n m : Nat} (h : u64TryFrom n = some m) : m = n ∧ n < 2 ^ 64 := by
  unfold u64TryFrom at h
  split_ifs at h with hlt
  exact ⟨(Option.some.inj h).symm, hlt⟩

section

variable {F64 : Type} {ops : NixSupport.FloatOps F64} {store : StoreView} {machineId : String}
  {outputs : List DerivationOutput} {timings : BuildDurations} {buildId : String}

/-- When the builder reports a success, and what. -/
theorem newSuccessBuildResultInfo_ok_iff {info : BuildResultInfo F64} :
    newSuccessBuildResultInfo ops store machineId outputs timings buildId = .ok info ↔
      ∃ support, NixSupport.parseNixSupportFromOutputs ops store.files store.env.storeDir
          outputs = .ok support ∧ timings.Fits ∧
        info = ⟨buildId, machineId, asMillis timings.importElapsed,
          asMillis timings.buildElapsed, asMillis timings.uploadElapsed, .success,
          outputs.map (packOutput store), some support⟩ := by
  unfold newSuccessBuildResultInfo
  cases hparse : NixSupport.parseNixSupportFromOutputs ops store.files store.env.storeDir
      outputs with
  | error e => simp
  | ok support =>
    simp only [Except.ok.injEq, exists_eq_left', BuildDurations.Fits]
    constructor
    · intro h
      split at h
      · rename_i importMs buildMs uploadMs himport hbuild hupload
        obtain ⟨rfl, hlt⟩ := u64TryFrom_eq_some himport
        obtain ⟨rfl, hlt'⟩ := u64TryFrom_eq_some hbuild
        obtain ⟨rfl, hlt''⟩ := u64TryFrom_eq_some hupload
        exact ⟨⟨hlt, hlt', hlt''⟩, (Except.ok.inj h).symm⟩
      · cases h
    · rintro ⟨⟨himport, hbuild, hupload⟩, rfl⟩
      simp only [u64TryFrom, himport, hbuild, hupload, if_true]

/-- What the builder has packed is unpacked to what the runner would have
read in a store with the same contents, with the timings cut to milliseconds
and the same overhead.  The builder has a result exactly when the runner
would have one and the message has room for the timings. -/
theorem resultInfo_unpacks (ops : NixSupport.FloatOps F64) (store : StoreView)
    (machineId : String) (outputs : List DerivationOutput) (timings : BuildDurations)
    (buildId : String) (hnames : OutputsNamed outputs) :
    (∀ info, newSuccessBuildResultInfo ops store machineId outputs timings buildId = .ok info →
      ∃ out, BuildOutput.new ops store outputs = .ok out ∧
        BuildOutput.ofResultInfo store.env info = { out with timings := timings.cut } ∧
        (BuildOutput.ofResultInfo store.env info).timings.getOverhead = timings.getOverhead) ∧
      ((∃ info, newSuccessBuildResultInfo ops store machineId outputs timings buildId =
          .ok info) ↔
        (∃ out, BuildOutput.new ops store outputs = .ok out) ∧ timings.Fits) := by
  constructor
  · intro info h
    obtain ⟨support, hparse, -, rfl⟩ := newSuccessBuildResultInfo_ok_iff.mp h
    refine ⟨_, by simp only [BuildOutput.new, hparse]; rfl, ?_, timings.getOverhead_cut⟩
    simp only [BuildOutput.ofResultInfo, OutputSums.foldl_unpack store hnames,
      Option.getD_some]
    rfl
  · simp only [newSuccessBuildResultInfo_ok_iff, BuildOutput.new]
    cases hparse : NixSupport.parseNixSupportFromOutputs ops store.files store.env.storeDir
        outputs with
    | error e => simp
    | ok support => simp

end

namespace BuildOutput

/-- One directory in the store. -/
def sampleStore : StoreView where
  env := ⟨false, "/nix/store"⟩
  files :=
    { metadata := fun _ => .error ()
      hash := fun _ => .error ()
      lines := fun _ => .error ()
      tryExists := fun _ => .error ()
      readToString := fun _ => .error ()
      isDir := fun _ => .ok true }
  pathInfo := fun _ => some { narHash := "sha256:0", narSize := 120 }
  closureSize := fun _ => 360

def sampleOutputs : List DerivationOutput := [⟨"out", some NixSupport.sampleOutput⟩]

/-- Numbers without a fraction. -/
def sampleFloats : NixSupport.FloatOps Nat :=
  ⟨fun s => (Text.parseNat (2 ^ 53) s.toList).toOption, 0⟩

/-- The file that the sample output declares as a product. -/
def isoFile : String := printStorePath "/nix/store" NixSupport.sampleOutput ++ "/a.iso"

/-- The output declares a file, which is in it, another one, which is not in
the store, and its size. -/
def declaringStore : StoreView :=
  { sampleStore with
    files :=
      { sampleStore.files with
        metadata := (NixSupport.FileSystem.oneFile isoFile).metadata
        hash := (NixSupport.FileSystem.oneFile isoFile).hash
        lines := fun path =>
          if path = NixSupport.supportFile "/nix/store" NixSupport.sampleOutput
              "hydra-build-products" then
            .ok [.ok ("file iso \"" ++ isoFile ++ "\" boot"), .ok "file txt /etc/passwd"]
          else if path = NixSupport.supportFile "/nix/store" NixSupport.sampleOutput
              "hydra-metrics" then
            .ok [.ok "size 12 KiB"]
          else .error () } }

/-- An import of 1.5 ms, a build of 2.000999 ms, and an upload of 0.4 ms. -/
def sampleTimings : BuildDurations := ⟨1500000, 2000999, 400000⟩

end BuildOutput

/-- The report has the file and the size, and the whole milliseconds. -/
theorem resultInfo_unpacks_sample :
    (∃ out, (newSuccessBuildResultInfo BuildOutput.sampleFloats BuildOutput.declaringStore "m"
        BuildOutput.sampleOutputs BuildOutput.sampleTimings "b").toOption.map
          (BuildOutput.ofResultInfo BuildOutput.declaringStore.env) = some out ∧
      out.products.map (fun p => (p.name, p.fileSize)) = [("a.iso", some 3)] ∧
      out.metrics.map (fun m => (m.name, m.value, m.unit)) = [("size", 12, some "KiB")] ∧
      out.timings = ⟨1000000, 2000000, 0⟩) ∧
    (∀ info, newSuccessBuildResultInfo BuildOutput.sampleFloats BuildOutput.declaringStore "m"
        BuildOutput.sampleOutputs BuildOutput.sampleTimings "b" = .ok info →
      ∃ out, BuildOutput.new BuildOutput.sampleFloats BuildOutput.declaringStore
          BuildOutput.sampleOutputs = .ok out ∧
        BuildOutput.ofResultInfo BuildOutput.declaringStore.env info =
          { out with timings := BuildOutput.sampleTimings.cut } ∧
        (BuildOutput.ofResultInfo BuildOutput.declaringStore.env info).timings.getOverhead =
          BuildOutput.sampleTimings.getOverhead) ∧
      ((∃ info, newSuccessBuildResultInfo BuildOutput.sampleFloats BuildOutput.declaringStore "m"
          BuildOutput.sampleOutputs BuildOutput.sampleTimings "b" = .ok info) ↔
        (∃ out, BuildOutput.new BuildOutput.sampleFloats BuildOutput.declaringStore
          BuildOutput.sampleOutputs = .ok out) ∧ BuildOutput.sampleTimings.Fits) := by
  constructor
  · have hreport : ((newSuccessBuildResultInfo BuildOutput.sampleFloats
        BuildOutput.declaringStore "m" BuildOutput.sampleOutputs BuildOutput.sampleTimings
        "b").toOption.map (BuildOutput.ofResultInfo BuildOutput.declaringStore.env)).any
          (fun out => out.products.map (fun p => (p.name, p.fileSize)) = [("a.iso", some 3)] ∧
            out.metrics.map (fun m => (m.name, m.value, m.unit)) = [("size", 12, some "KiB")] ∧
            out.timings = ⟨1000000, 2000000, 0⟩) = true := by
      decide +kernel
    obtain ⟨out, hout, hfields⟩ := (Option.any_eq_true _ _).mp hreport
    exact ⟨out, hout, of_decide_eq_true hfields⟩
  · refine resultInfo_unpacks BuildOutput.sampleFloats BuildOutput.declaringStore "m"
      BuildOutput.sampleOutputs BuildOutput.sampleTimings "b" ?_
    intro o ho p hp
    rw [List.mem_singleton.mp ho] at hp
    cases hp
    unfold StorePath.IsComponent
    decide

/-! ## The products -/

namespace NixSupport

section

variable {α : Type} {P : α → Prop}

/-- What holds of all that a line can give holds of all that the lines give. -/
theorem readLines_forall {parse : String → Option α} (hparse : ∀ line a, parse line = some a → P a)
    {lines : List (Except Unit String)} {found : List α} (h : readLines parse lines = .ok found) :
    ∀ a ∈ found, P a := by
  induction lines generalizing found with
  | nil =>
    cases h
    simp
  | cons line lines ih =>
    cases line with
    | error e => cases h
    | ok line =>
      simp only [readLines] at h
      split at h
      · cases h
      · rename_i rest hrest
        cases h
        intro a ha
        rcases List.mem_append.mp ha with ha | ha
        · exact hparse line a (Option.mem_toList.mp ha)
        · exact ih hrest a ha

theorem readFiles_forall {files : StoreFiles} {storeDir name : String}
    {parse : StorePath → String → Option α}
    (hparse : ∀ output line a, parse output line = some a → P a) {outputs : List StorePath}
    {explicit : Bool} {found : List α}
    (h : readFiles files storeDir name parse outputs = .ok (explicit, found)) :
    ∀ a ∈ found, P a := by
  induction outputs generalizing explicit found with
  | nil =>
    cases h
    simp
  | cons output outputs ih =>
    simp only [readFiles] at h
    split at h
    · exact ih h
    · split at h
      · rename_i found₁ explicit₂ found₂ hlines hrest
        cases h
        intro a ha
        rcases List.mem_append.mp ha with ha | ha
        · exact readLines_forall (hparse output) hlines a ha
        · exact ih hrest a ha
      · cases h

end

/-- The regular files among the products that are read are those with a
size. -/
theorem size_of_parseBuildProduct {storeDir : String} {fs : FileSystem} {output : StorePath}
    {line : String} {p : BuildProduct}
    (h : parseBuildProduct storeDir (fs.operations storeDir) output line = some p) :
    p.fileSize.isSome = p.isRegular := by
  obtain ⟨pre, m, metadata, -, -, -, -, rfl⟩ := parseBuildProduct_eq_some_iff.mp h
  simp only [productOf]
  split_ifs with hregular
  · rw [hregular]
    rfl
  · simpa using hregular

theorem size_of_defaultProducts {storeDir : String} {files : StoreFiles}
    {outputs : List DerivationOutput} : ∀ p ∈ defaultProducts files storeDir outputs,
      p.fileSize.isSome = p.isRegular := by
  intro p hp
  obtain ⟨o, -, ho⟩ := List.mem_filterMap.mp hp
  split at ho
  · cases ho
  · split at ho
    · cases ho
      rfl
    · cases ho

/-- What holds of all that the lines can give and of the default products
holds of the products. -/
theorem products_forall {F64 : Type} {ops : FloatOps F64} {files : StoreFiles}
    {storeDir : String} {outputs : List DerivationOutput} {P : BuildProduct → Prop}
    (hline : ∀ output line p,
      parseBuildProduct storeDir (files.operations storeDir) output line = some p → P p)
    (hdefault : ∀ p ∈ defaultProducts files storeDir outputs, P p) {support : NixSupportInfo F64}
    (h : parseNixSupportFromOutputs ops files storeDir outputs = .ok support) :
    ∀ p ∈ support.products, P p := by
  simp only [parseNixSupportFromOutputs] at h
  split at h
  · cases h
  · split at h
    · cases h
    · rename_i explicitProducts products hproducts
      cases h
      simp only
      split_ifs
      · exact readFiles_forall hline hproducts
      · exact hdefault

end NixSupport

end QueueRunner
