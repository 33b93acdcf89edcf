import QueueRunner.BuildOutput
import QueueRunner.Lib.OrderBy
import QueueRunner.Lib.Run

/-!
# The rows of a build output

A `BuildOutput` goes into four tables: `mark_succeeded_build` writes the row
of the build in `builds`, the paths in `buildoutputs`, and the rows of
`buildproducts` and `buildmetrics` anew.  It is read back by
`get_build_output_cached`, when a later build has one of the paths, and then
written again for the later build (`handle_cached_build`).

The functions run in a transaction, so they are one step: all of their
statements take effect or none.  The constraints of the tables are not in the
repository.  Whether the database accepts a statement is part of the answer
of the environment, and so is the order in which it gives rows.
-/

namespace QueueRunner

/-! ## The tables -/

/-- A row of `buildoutputs`. -/
structure OutputRow where
  build : BuildID
  name : String
  path : Option String
deriving DecidableEq

/-- A row of `buildproducts`. -/
structure ProductRow where
  build : BuildID
  productNr : Int
  type : String
  subtype : String
  fileSize : Option Int
  sha256hash : Option String
  path : Option String
  name : String
  defaultPath : Option String
deriving DecidableEq

/-- A row of `buildmetrics`. -/
structure MetricRow (F64 : Type) where
  build : BuildID
  name : String
  unit : Option String
  value : F64
  project : String
  jobset : String
  job : String
  timestamp : Int

/-- The tables. -/
structure OutputTables (F64 : Type) where
  builds : Map BuildID BuildRow := ∅
  buildOutputs : List OutputRow := []
  buildProducts : List ProductRow := []
  buildMetrics : List (MetricRow F64) := []

/-- The statements of `mark_succeeded_build` that change the tables. -/
inductive Statement (F64 : Type) where
  | updateBuild (id : BuildID) (v : UpdateBuild)
  | updateBuildOutput (id : BuildID) (name path : String)
  | deleteBuildProductsByBuildId (id : BuildID)
  | insertBuildProduct (row : ProductRow)
  | deleteBuildMetricsByBuildId (id : BuildID)
  | insertBuildMetric (row : MetricRow F64)

namespace OutputTables

variable {F64 : Type}

/-- What a statement does. -/
def apply (t : OutputTables F64) : Statement F64 → OutputTables F64
  | .updateBuild id v =>
    match (t.builds.lookup id).bind (BuildRow.updateBuild v) with
    | none => t
    | some row => { t with builds := t.builds.insert id row }
  | .updateBuildOutput id name path =>
    { t with buildOutputs := t.buildOutputs.map (fun o =>
        if o.build = id ∧ o.name = name then { o with path := some path } else o) }
  | .deleteBuildProductsByBuildId id =>
    { t with buildProducts := t.buildProducts.filter (fun p => p.build ≠ id) }
  | .insertBuildProduct row => { t with buildProducts := t.buildProducts ++ [row] }
  | .deleteBuildMetricsByBuildId id =>
    { t with buildMetrics := t.buildMetrics.filter (fun m => m.build ≠ id) }
  | .insertBuildMetric row => { t with buildMetrics := t.buildMetrics ++ [row] }

/-- The statements of a function, up to the first that fails. -/
def exec (accepts : OutputTables F64 → Statement F64 → Bool) (t : OutputTables F64) :
    List (Statement F64) → Except Unit (OutputTables F64)
  | [] => .ok t
  | s :: rest => if accepts t s then exec accepts (t.apply s) rest else .error ()

/-- The transaction of a function: its changes are dropped when it fails. -/
def commit (t : OutputTables F64) : Except Unit (OutputTables F64) → OutputTables F64
  | .ok t' => t'
  | .error _ => t

/-- `check_if_build_is_not_finished`. -/
def isNotFinished (t : OutputTables F64) (id : BuildID) : Bool :=
  match t.builds.lookup id with
  | some row => !row.finished
  | none => false

end OutputTables

/-! ## Writing -/

/-- `db::models::BuildProduct`. -/
structure ProductData where
  type : String
  subtype : String
  filesize : Option Int
  sha256hash : Option String
  path : Option String
  name : String
  defaultpath : Option String

/-- `MarkBuildSuccessData`. -/
structure MarkBuildSuccessData (F64 : Type) where
  id : BuildID
  name : String
  projectName : String
  jobsetName : String
  finishedInDb : Bool
  timestamp : Int
  failed : Bool
  closureSize : UInt64
  size : UInt64
  releaseName : Option String
  outputs : Map String String
  products : List ProductData
  metrics : List (RunnerMetric F64)

/-- `Build`, the fields that go to the tables. -/
structure BuildEntry where
  id : BuildID
  name : String := ""
  projectName : String := ""
  jobsetName : String := ""
  finishedInDb : Bool := false
  timestamp : Int := 0

/-- The product as the tables hold it. -/
def RunnerProduct.data (env : NixEnv) (p : RunnerProduct) : ProductData where
  type := p.type
  subtype := p.subtype
  filesize := p.fileSize.bind i64TryFrom
  sha256hash := p.sha256hash
  path := p.path.map (printStorePath env.storeDir)
  name := p.name
  defaultpath := p.defaultPath

/-- `get_mark_build_sccuess_data`. -/
def getMarkBuildSccuessData {F64 : Type} (env : NixEnv) (b : BuildEntry) (res : BuildOutput F64) :
    MarkBuildSuccessData F64 where
  id := b.id
  name := b.name
  projectName := b.projectName
  jobsetName := b.jobsetName
  finishedInDb := b.finishedInDb
  timestamp := b.timestamp
  failed := res.failed
  closureSize := res.closureSize
  size := res.size
  releaseName := res.releaseName
  outputs := res.outputs.mapValues (printStorePath env.storeDir)
  products := res.products.map (RunnerProduct.data env)
  metrics := res.metrics

/-- `i32::try_from`. -/
def i32TryFrom (n : Int) : Option Int := if -2 ^ 31 ≤ n ∧ n < 2 ^ 31 then some n else none

namespace MarkBuildSuccessData

variable {F64 : Type}

/-- The rows of the products, from the number `nr + 1` on. -/
def productRows (id : BuildID) : Nat → List ProductData → Option (List ProductRow)
  | _, [] => some []
  | nr, p :: products => do
    let productNr ← i32TryFrom ((nr + 1 : Nat) : Int)
    let rows ← productRows id (nr + 1) products
    some (
      { build := id
        productNr := productNr
        type := p.type
        subtype := p.subtype
        fileSize := p.filesize
        sha256hash := p.sha256hash
        path := some (p.path.getD "")
        name := p.name
        defaultPath := some (p.defaultpath.getD "") } :: rows)

/-- The rows of the metrics. -/
def metricRows (d : MarkBuildSuccessData F64) : List (RunnerMetric F64) →
    Option (List (MetricRow F64))
  | [] => some []
  | m :: metrics => do
    let timestamp ← i32TryFrom d.timestamp
    let rows ← metricRows d metrics
    some (
      { build := d.id
        name := m.name
        unit := m.unit
        value := m.value
        project := d.projectName
        jobset := d.jobsetName
        job := d.name
        timestamp := timestamp } :: rows)

/-- The statements of `mark_succeeded_build`, unless a number does not fit. -/
def statements (d : MarkBuildSuccessData F64) (isCachedBuild : Bool)
    (startTime stopTime : Int) : Option (List (Statement F64)) := do
  let size ← i64TryFrom d.size.toNat
  let closureSize ← i64TryFrom d.closureSize.toNat
  let products ← productRows d.id 0 d.products
  let metrics ← d.metricRows d.metrics
  some (
    .updateBuild d.id
      { status := if d.failed then .failedWithOutput else .success
        startTime := startTime
        stopTime := stopTime
        size := size
        closureSize := closureSize
        releaseName := d.releaseName
        isCachedBuild := isCachedBuild } ::
    d.outputs.entries.map (fun e => .updateBuildOutput d.id e.1 e.2) ++
    .deleteBuildProductsByBuildId d.id :: products.map .insertBuildProduct ++
    .deleteBuildMetricsByBuildId d.id :: metrics.map .insertBuildMetric)

end MarkBuildSuccessData

namespace OutputTables

variable {F64 : Type}

/-- `mark_succeeded_build`. -/
def markSucceededBuild (accepts : OutputTables F64 → Statement F64 → Bool)
    (t : OutputTables F64) (d : MarkBuildSuccessData F64) (isCachedBuild : Bool)
    (startTime stopTime : Int) : Except Unit (OutputTables F64) :=
  if d.finishedInDb then .ok t
  else if t.isNotFinished d.id = false then .ok t
  else
    match d.statements isCachedBuild startTime stopTime with
    | none => .error ()
    | some statements => t.exec accepts statements

end OutputTables

/-! ## Reading -/

/-- The orders in which the tables give their rows. -/
structure FetchRows (F64 : Type) where
  builds : Fetch (BuildID × BuildRow)
  products : Fetch ProductRow
  metrics : Fetch (MetricRow F64)

/-- The build is finished and has an output: the condition of
`get_build_output_for_path`. -/
def BuildRow.hasOutput (row : BuildRow) : Bool :=
  row.finished && (row.buildStatus == some .success || row.buildStatus == some .failedWithOutput)

/-- `v as u64` of an `i64`. -/
def asU64 (v : Int) : Nat := (v % 2 ^ 64).toNat

/-- `From<OwnedBuildProduct>`. -/
def RunnerProduct.ofRow (env : NixEnv) (row : ProductRow) : RunnerProduct where
  path := row.path.map (StorePath.new env.storeDirSlash)
  defaultPath := row.defaultPath
  type := row.type
  subtype := row.subtype
  name := row.name
  isRegular := row.fileSize.isSome
  sha256hash := row.sha256hash
  fileSize := row.fileSize.map asU64

/-- `From<OwnedBuildMetric>`. -/
def RunnerMetric.ofRow {F64 : Type} (row : MetricRow F64) : RunnerMetric F64 where
  name := row.name
  unit := row.unit
  value := row.value

/-- `TryFrom<db::models::BuildOutput>`. -/
def BuildOutput.ofRow {F64 : Type} (row : BuildRow) : Option (BuildOutput F64) :=
  row.buildStatus.map (fun status =>
    { failed := status != .success
      releaseName := row.releaseName
      closureSize := (asU64 (row.closureSize.getD 0)).toUInt64
      size := (asU64 (row.size.getD 0)).toUInt64
      products := []
      outputs := ∅
      metrics := [] })

namespace OutputTables

variable {F64 : Type}

/-- `get_build_output_for_path`. -/
def getBuildOutputForPath (fetch : FetchRows F64) (t : OutputTables F64) (path : String) :
    Option (BuildID × BuildRow) :=
  fetch.builds.first (t.buildOutputs.filterMap (fun o =>
    if o.path = some path then
      ((t.builds.lookup o.build).filter BuildRow.hasOutput).map (fun row => (o.build, row))
    else none))

/-- `get_build_products_for_build_id`. -/
def getBuildProductsForBuildId (fetch : FetchRows F64) (t : OutputTables F64) (id : BuildID) :
    List ProductRow :=
  orderBy ProductRow.productNr
    (fetch.products.rows (t.buildProducts.filter (fun p => p.build = id)))

/-- `get_build_metrics_for_build_id`. -/
def getBuildMetricsForBuildId (fetch : FetchRows F64) (t : OutputTables F64) (id : BuildID) :
    List (MetricRow F64) :=
  fetch.metrics.rows (t.buildMetrics.filter (fun m => m.build = id))

/-- The output of a build, as the loop body of `get_build_output_cached`
reads it. -/
def readOutput (env : NixEnv) (fetch : FetchRows F64) (t : OutputTables F64) (id : BuildID)
    (row : BuildRow) : Option (BuildOutput F64) :=
  (BuildOutput.ofRow row).map (fun res : BuildOutput F64 => { res with
    products := (t.getBuildProductsForBuildId fetch id).map (RunnerProduct.ofRow env)
    metrics := (t.getBuildMetricsForBuildId fetch id).map RunnerMetric.ofRow })

/-- The loop of `get_build_output_cached` over the outputs. -/
def findOutput (env : NixEnv) (fetch : FetchRows F64) (t : OutputTables F64) :
    List DerivationOutput → Option (BuildOutput F64)
  | [] => none
  | o :: outputs =>
    match o.path with
    | none => findOutput env fetch t outputs
    | some path =>
      match t.getBuildOutputForPath fetch (printStorePath env.storeDir path) with
      | none => findOutput env fetch t outputs
      | some (id, row) =>
        match t.readOutput env fetch id row with
        | none => findOutput env fetch t outputs
        | some res => some res

/-- `get_build_output_cached`, with the derivation that was found. -/
def getBuildOutputCached (ops : NixSupport.FloatOps F64) (store : StoreView)
    (fetch : FetchRows F64) (t : OutputTables F64) (drv : Derivation) :
    Except Unit (BuildOutput F64) :=
  match t.findOutput store.env fetch drv.outputs with
  | some res => .ok res
  | none => BuildOutput.new ops store drv.outputs

/-- `handle_cached_build`, up to the commit of its transaction. -/
def handleCachedBuild (ops : NixSupport.FloatOps F64) (store : StoreView)
    (fetch : FetchRows F64) (accepts : OutputTables F64 → Statement F64 → Bool)
    (t : OutputTables F64) (b : BuildEntry) (drv : Option Derivation) (now : Int) :
    Except Unit (OutputTables F64) :=
  match drv with
  | none => .error ()
  | some drv =>
    match t.getBuildOutputCached ops store fetch drv, i32TryFrom now with
    | .ok res, some now =>
      t.markSucceededBuild accepts (getMarkBuildSccuessData store.env b res) true now now
    | _, _ => .error ()

end OutputTables

end QueueRunner
