import QueueRunner.OutputRows

/-!
# What the tables keep of a build output

`OutputRows` writes a `BuildOutput` and reads it back.  Some of it is not in
the tables: the timings, and the map of the outputs.  The rest comes back
(`Holds.read`), provided that the tables can hold it (`BuildOutput.Storable`).

A build with the outputs of an earlier one gets a copy of what is read.
`OutputDb` is the database with builds that succeed, builds that are found
to be there already, and builds that fail, in any order.  A copy of a copy is
like the first: `stored_outputs_are_originals`.
-/

namespace QueueRunner

variable {F64 : Type}

/-- The name of the product does not start with a slash, and its size has
room in the tables. -/
structure RunnerProduct.Plain (p : RunnerProduct) : Prop where
  path : ∀ q, p.path = some q → q.baseName.toList.head? ≠ some '/'
  size : ∀ n, p.fileSize = some n → n < 2 ^ 63

/-- The tables can hold the product: it is plain, it has both paths, and
exactly the regular files have a size. -/
structure RunnerProduct.Storable (p : RunnerProduct) : Prop extends p.Plain where
  somePath : p.path ≠ none
  defaultPath : p.defaultPath ≠ none
  regular : p.isRegular = p.fileSize.isSome

/-- The products are plain. -/
def BuildOutput.Plain (res : BuildOutput F64) : Prop := ∀ p ∈ res.products, p.Plain

/-- The tables can hold the products. -/
def BuildOutput.Storable (res : BuildOutput F64) : Prop := ∀ p ∈ res.products, p.Storable

/-- Two outputs that agree in all that the tables hold. -/
structure BuildOutput.SameAs (a b : BuildOutput F64) : Prop where
  failed : a.failed = b.failed
  releaseName : a.releaseName = b.releaseName
  closureSize : a.closureSize = b.closureSize
  size : a.size = b.size
  products : a.products = b.products
  metrics : a.metrics.Perm b.metrics

namespace BuildOutput.SameAs

variable {a b c : BuildOutput F64}

theorem refl (a : BuildOutput F64) : a.SameAs a :=
  ⟨rfl, rfl, rfl, rfl, rfl, .refl _⟩

theorem trans (h : a.SameAs b) (h' : b.SameAs c) : a.SameAs c :=
  ⟨h.failed.trans h'.failed, h.releaseName.trans h'.releaseName,
    h.closureSize.trans h'.closureSize, h.size.trans h'.size, h.products.trans h'.products,
    h.metrics.trans h'.metrics⟩

theorem storable (h : a.SameAs b) (hb : b.Storable) : a.Storable := by
  unfold BuildOutput.Storable
  rw [h.products]
  exact hb

end BuildOutput.SameAs

/-! ## The numbers -/

theorem eq_ok_of_toOption {ε α : Type} {r : Except ε α} {a : α} (h : r.toOption = some a) :
    r = .ok a := by
  cases r with
  | error e => cases h
  | ok b =>
    cases h
    rfl

theorem i64TryFrom_eq_some {n : Nat} {v : Int} (h : i64TryFrom n = some v) :
    v = n ∧ n < 2 ^ 63 := by
  unfold i64TryFrom at h
  split_ifs at h with hlt
  exact ⟨(Option.some.inj h).symm, hlt⟩

theorem i32TryFrom_eq_some {n v : Int} (h : i32TryFrom n = some v) : v = n := by
  unfold i32TryFrom at h
  split_ifs at h
  exact (Option.some.inj h).symm

@[simp] theorem asU64_natCast {n : Nat} (h : n < 2 ^ 63) : asU64 (n : Int) = n := by
  unfold asU64
  omega

theorem toUInt64_asU64 {n : UInt64} (h : n.toNat < 2 ^ 63) :
    (asU64 (n.toNat : Int)).toUInt64 = n := by
  rw [asU64_natCast h]
  simp

/-! ## The rows -/

theorem stripPrefix_append (p s : String) : stripPrefix p (p ++ s) = some s := by
  simp [stripPrefix]

/-- A path is printed and read back, unless its name starts with a slash. -/
theorem StorePath.new_printStorePath (env : NixEnv) {q : StorePath}
    (hq : q.baseName.toList.head? ≠ some '/') :
    StorePath.new env.storeDirSlash (printStorePath env.storeDir q) = q := by
  unfold printStorePath NixEnv.storeDirSlash
  split_ifs with hlast
  · rw [String.append_assoc, StorePath.new, stripPrefix_append]
    simp only [stripPrefix_append, Option.getD_some]
  · rw [StorePath.new, stripPrefix_append]
    simp only
    have hnone : stripPrefix "/" q.baseName = none := by
      unfold stripPrefix
      rw [if_neg]
      intro hprefix
      obtain ⟨rest, hrest⟩ := List.isPrefixOf_iff_prefix.mp hprefix
      exact hq (by rw [← hrest]; rfl)
    rw [hnone, Option.getD_none]

namespace RunnerProduct.Storable

variable {env : NixEnv} {p : RunnerProduct}

/-- The size of a product goes into its row. -/
theorem filesize (h : p.Storable) :
    (p.fileSize.bind i64TryFrom).map asU64 = p.fileSize ∧
      (p.fileSize.bind i64TryFrom).isSome = p.isRegular := by
  rw [h.regular]
  cases hsize : p.fileSize with
  | none => exact ⟨rfl, rfl⟩
  | some n =>
    have hlt := h.size n hsize
    rw [Option.bind_some, i64TryFrom, if_pos hlt, Option.map_some, asU64_natCast hlt]
    exact ⟨rfl, rfl⟩

/-- A product comes back from its row. -/
theorem ofRow (h : p.Storable) (env : NixEnv) (id : BuildID) (nr : Int) :
    RunnerProduct.ofRow env
      { build := id
        productNr := nr
        type := (p.data env).type
        subtype := (p.data env).subtype
        fileSize := (p.data env).filesize
        sha256hash := (p.data env).sha256hash
        path := some ((p.data env).path.getD "")
        name := (p.data env).name
        defaultPath := some ((p.data env).defaultpath.getD "") } = p := by
  obtain ⟨hsize, hregular⟩ := h.filesize
  obtain ⟨q, hpath⟩ := Option.ne_none_iff_exists'.mp h.somePath
  have hq := StorePath.new_printStorePath env (h.path q hpath)
  obtain ⟨s, hdefault⟩ := Option.ne_none_iff_exists'.mp h.defaultPath
  simp only [RunnerProduct.ofRow, RunnerProduct.data, hpath, hdefault, Option.map_some,
    Option.getD_some, hq]
  rw [hsize, hregular, ← hpath, ← hdefault]

end RunnerProduct.Storable

/-- The rows of the products belong to the build and are numbered. -/
theorem MarkBuildSuccessData.productRows_keys {id : BuildID} {nr : Nat}
    {products : List ProductData} {rows : List ProductRow}
    (h : productRows id nr products = some rows) :
    (∀ row ∈ rows, row.build = id) ∧ (∀ row ∈ rows, (nr : Int) < row.productNr) ∧
      rows.Pairwise (fun a b => a.productNr < b.productNr) := by
  induction products generalizing nr rows with
  | nil =>
    rw [productRows, Option.some.injEq] at h
    subst h
    simp
  | cons p products ih =>
    rw [productRows] at h
    obtain ⟨productNr, hnr, h⟩ := Option.bind_eq_some_iff.mp h
    obtain ⟨rest, hrest, h⟩ := Option.bind_eq_some_iff.mp h
    obtain rfl := (Option.some.inj h).symm
    have hnr := i32TryFrom_eq_some hnr
    obtain ⟨hbuild, hlt, hpairwise⟩ := ih hrest
    refine ⟨List.forall_mem_cons.mpr ⟨rfl, hbuild⟩, List.forall_mem_cons.mpr ⟨?_, ?_⟩,
      List.pairwise_cons.mpr ⟨?_, hpairwise⟩⟩
    · show (nr : Int) < productNr
      omega
    · intro row hrow
      have := hlt row hrow
      omega
    · intro row hrow
      have := hlt row hrow
      show productNr < row.productNr
      omega

/-- The rows of the products hold the products. -/
theorem MarkBuildSuccessData.productRows_map {env : NixEnv} {id : BuildID} {nr : Nat}
    {products : List RunnerProduct} (hstorable : ∀ p ∈ products, p.Storable)
    {rows : List ProductRow}
    (h : productRows id nr (products.map (RunnerProduct.data env)) = some rows) :
    rows.map (RunnerProduct.ofRow env) = products := by
  induction products generalizing nr rows with
  | nil =>
    rw [List.map_nil, productRows, Option.some.injEq] at h
    subst h
    rfl
  | cons p products ih =>
    rw [List.map_cons, productRows] at h
    obtain ⟨productNr, -, h⟩ := Option.bind_eq_some_iff.mp h
    obtain ⟨rest, hrest, h⟩ := Option.bind_eq_some_iff.mp h
    obtain rfl := (Option.some.inj h).symm
    rw [List.map_cons, ih (fun q hq => hstorable q (List.mem_cons_of_mem _ hq)) hrest,
      (hstorable p List.mem_cons_self).ofRow env]

/-- The rows of the metrics hold the metrics. -/
theorem MarkBuildSuccessData.metricRows_map {d : MarkBuildSuccessData F64}
    {metrics : List (RunnerMetric F64)} {rows : List (MetricRow F64)}
    (h : d.metricRows metrics = some rows) :
    (∀ row ∈ rows, row.build = d.id) ∧ rows.map RunnerMetric.ofRow = metrics := by
  induction metrics generalizing rows with
  | nil =>
    rw [metricRows, Option.some.injEq] at h
    subst h
    simp
  | cons m metrics ih =>
    rw [metricRows] at h
    obtain ⟨timestamp, -, h⟩ := Option.bind_eq_some_iff.mp h
    obtain ⟨rest, hrest, h⟩ := Option.bind_eq_some_iff.mp h
    obtain rfl := (Option.some.inj h).symm
    obtain ⟨hbuild, hmap⟩ := ih hrest
    refine ⟨List.forall_mem_cons.mpr ⟨rfl, hbuild⟩, ?_⟩
    rw [List.map_cons, hmap]
    rfl

/-! ## What a transaction does -/

namespace OutputTables

variable {t t' : OutputTables F64}

/-- The statements take effect one after the other. -/
theorem exec_ok {accepts : OutputTables F64 → Statement F64 → Bool}
    {statements : List (Statement F64)} (h : t.exec accepts statements = .ok t') :
    t' = statements.foldl apply t := by
  induction statements generalizing t with
  | nil =>
    cases h
    rfl
  | cons s rest ih =>
    simp only [exec] at h
    split_ifs at h
    exact ih h

theorem foldl_insertBuildProduct (rows : List ProductRow) (t : OutputTables F64) :
    (rows.map Statement.insertBuildProduct).foldl apply t =
      { t with buildProducts := t.buildProducts ++ rows } := by
  induction rows generalizing t with
  | nil => simp
  | cons row rows ih =>
    rw [List.map_cons, List.foldl_cons, ih]
    simp [apply]

theorem foldl_insertBuildMetric (rows : List (MetricRow F64)) (t : OutputTables F64) :
    (rows.map Statement.insertBuildMetric).foldl apply t =
      { t with buildMetrics := t.buildMetrics ++ rows } := by
  induction rows generalizing t with
  | nil => simp
  | cons row rows ih =>
    rw [List.map_cons, List.foldl_cons, ih]
    simp [apply]

/-- The paths of the outputs of one build are set. -/
theorem foldl_updateBuildOutput (id : BuildID) (entries : List ((_ : String) × String))
    (t : OutputTables F64) :
    ∃ f : OutputRow → OutputRow,
      (∀ o, (f o).build = o.build ∧ (f o).name = o.name ∧ (o.build ≠ id → f o = o)) ∧
      (entries.map (fun e => Statement.updateBuildOutput id e.1 e.2)).foldl apply t =
        { t with buildOutputs := t.buildOutputs.map f } := by
  induction entries generalizing t with
  | nil => exact ⟨fun o => o, fun o => ⟨rfl, rfl, fun _ => rfl⟩, by simp⟩
  | cons e entries ih =>
    obtain ⟨f, hf, hfold⟩ := ih (t.apply (.updateBuildOutput id e.1 e.2))
    refine ⟨fun o => f (if o.build = id ∧ o.name = e.1 then { o with path := some e.2 } else o),
      fun o => ?_, ?_⟩
    · by_cases ho : o.build = id ∧ o.name = e.1
      · obtain ⟨hbuild, hname, -⟩ := hf { o with path := some e.2 }
        simp only [if_pos ho]
        exact ⟨hbuild, hname, fun hne => absurd ho.1 hne⟩
      · simp only [if_neg ho]
        exact hf o
    · rw [List.map_cons, List.foldl_cons, hfold]
      simp [apply, Function.comp_def]

/-- What `mark_succeeded_build` does when it succeeds. -/
inductive MarkEffect (t : OutputTables F64) (d : MarkBuildSuccessData F64)
    (isCachedBuild : Bool) (startTime stopTime : Int) : OutputTables F64 → Prop where
  | skipped (h : d.finishedInDb = true ∨ t.isNotFinished d.id = false) :
      MarkEffect t d isCachedBuild startTime stopTime t
  | marked (row : BuildRow) (products : List ProductRow) (metrics : List (MetricRow F64))
      (f : OutputRow → OutputRow) (hrow : t.builds.lookup d.id = some row)
      (hfinished : row.finished = false) (hsize : d.size.toNat < 2 ^ 63)
      (hclosureSize : d.closureSize.toNat < 2 ^ 63)
      (hproducts : MarkBuildSuccessData.productRows d.id 0 d.products = some products)
      (hmetrics : d.metricRows d.metrics = some metrics)
      (hf : ∀ o, (f o).build = o.build ∧ (f o).name = o.name ∧ (o.build ≠ d.id → f o = o)) :
      MarkEffect t d isCachedBuild startTime stopTime
        { builds := t.builds.insert d.id
            { row with
              finished := true
              buildStatus := some (if d.failed then .failedWithOutput else .success)
              startTime := some startTime
              stopTime := some stopTime
              size := some (d.size.toNat : Int)
              closureSize := some (d.closureSize.toNat : Int)
              releaseName := d.releaseName
              isCachedBuild := some isCachedBuild
              notificationPendingSince := some stopTime }
          buildOutputs := t.buildOutputs.map f
          buildProducts := t.buildProducts.filter (fun p => p.build ≠ d.id) ++ products
          buildMetrics := t.buildMetrics.filter (fun m => m.build ≠ d.id) ++ metrics }

theorem markEffect_of_ok {accepts : OutputTables F64 → Statement F64 → Bool}
    {d : MarkBuildSuccessData F64} {isCachedBuild : Bool} {startTime stopTime : Int}
    (h : t.markSucceededBuild accepts d isCachedBuild startTime stopTime = .ok t') :
    MarkEffect t d isCachedBuild startTime stopTime t' := by
  unfold markSucceededBuild at h
  split_ifs at h with hdb hfinished
  · cases h
    exact .skipped (Or.inl hdb)
  · cases h
    exact .skipped (Or.inr hfinished)
  cases hs : d.statements isCachedBuild startTime stopTime with
  | none => simp [hs] at h
  | some statements =>
    rw [hs] at h
    have ht' := exec_ok h
    unfold MarkBuildSuccessData.statements at hs
    obtain ⟨size, hsize, hs⟩ := Option.bind_eq_some_iff.mp hs
    obtain ⟨closureSize, hclosureSize, hs⟩ := Option.bind_eq_some_iff.mp hs
    obtain ⟨products, hproducts, hs⟩ := Option.bind_eq_some_iff.mp hs
    obtain ⟨metrics, hmetrics, hs⟩ := Option.bind_eq_some_iff.mp hs
    obtain rfl := (Option.some.inj hs).symm
    obtain ⟨rfl, hlt⟩ := i64TryFrom_eq_some hsize
    obtain ⟨rfl, hlt'⟩ := i64TryFrom_eq_some hclosureSize
    -- the row is there and is not finished
    unfold isNotFinished at hfinished
    cases hrow : t.builds.lookup d.id with
    | none => simp [hrow] at hfinished
    | some row =>
      have hrowfinished : row.finished = false := by simpa [hrow] using hfinished
      rw [List.cons_append, List.cons_append, List.foldl_cons, List.append_assoc,
        List.foldl_append] at ht'
      obtain ⟨f, hf, hfold⟩ := foldl_updateBuildOutput d.id d.outputs.entries
        (t.apply (.updateBuild d.id
          { status := if d.failed then .failedWithOutput else .success
            startTime := startTime
            stopTime := stopTime
            size := (d.size.toNat : Int)
            closureSize := (d.closureSize.toNat : Int)
            releaseName := d.releaseName
            isCachedBuild := isCachedBuild }))
      rw [hfold, List.cons_append, List.foldl_cons, List.foldl_append,
        foldl_insertBuildProduct, List.foldl_cons, foldl_insertBuildMetric] at ht'
      simp only [apply, hrow, Option.bind_some, BuildRow.updateBuild] at ht'
      rw [ht']
      exact .marked row products metrics f hrow hrowfinished hlt hlt' hproducts hmetrics hf

/-! ### The rows of one build -/

/-- Two states of the tables that have the same rows for a build. -/
structure SameRows (t t' : OutputTables F64) (id : BuildID) : Prop where
  build : t'.builds.lookup id = t.builds.lookup id
  outputs : t'.buildOutputs.filter (fun o => o.build = id) =
    t.buildOutputs.filter (fun o => o.build = id)
  products : t'.buildProducts.filter (fun p => p.build = id) =
    t.buildProducts.filter (fun p => p.build = id)
  metrics : t'.buildMetrics.filter (fun m => m.build = id) =
    t.buildMetrics.filter (fun m => m.build = id)

theorem SameRows.refl (t : OutputTables F64) (id : BuildID) : t.SameRows t id :=
  ⟨rfl, rfl, rfl, rfl⟩

theorem SameRows.trans {t'' : OutputTables F64} {id : BuildID} (h : t.SameRows t' id)
    (h' : t'.SameRows t'' id) : t.SameRows t'' id :=
  ⟨h'.build.trans h.build, h'.outputs.trans h.outputs, h'.products.trans h.products,
    h'.metrics.trans h.metrics⟩

section

variable {α : Type} {key : α → BuildID} {id : BuildID}

/-- Rows that are deleted and inserted anew are those of the build. -/
theorem filter_replaced {rows : List α} (hrows : ∀ row ∈ rows, key row = id) (l : List α) :
    (l.filter (fun a => key a ≠ id) ++ rows).filter (fun a => key a = id) = rows := by
  have hnone : (l.filter (fun a => key a ≠ id)).filter (fun a => key a = id) = [] := by
    rw [List.filter_filter, List.filter_eq_nil_iff]
    intro a _
    simp
  rw [List.filter_append, hnone, List.nil_append, List.filter_eq_self]
  intro row hrow
  simpa using hrows row hrow

/-- The rows of the other builds stay. -/
theorem filter_replaced_of_ne {rows : List α} (hrows : ∀ row ∈ rows, key row = id) (l : List α)
    {other : BuildID} (hne : other ≠ id) :
    (l.filter (fun a => key a ≠ id) ++ rows).filter (fun a => key a = other) =
      l.filter (fun a => key a = other) := by
  have hnone : rows.filter (fun a => key a = other) = [] := by
    rw [List.filter_eq_nil_iff]
    intro row hrow
    rw [hrows row hrow, decide_eq_true_eq]
    exact hne.symm
  rw [List.filter_append, hnone, List.append_nil, List.filter_filter]
  apply List.filter_congr
  intro a _
  rw [← Bool.decide_and, decide_eq_decide]
  constructor
  · exact fun h => h.1
  · intro h
    exact ⟨h, by rw [h]; exact hne⟩

end

theorem filter_map_outputs {id other : BuildID} {f : OutputRow → OutputRow}
    (hf : ∀ o, (f o).build = o.build ∧ (f o).name = o.name ∧ (o.build ≠ id → f o = o))
    (hne : other ≠ id) (l : List OutputRow) :
    (l.map f).filter (fun o => o.build = other) = l.filter (fun o => o.build = other) := by
  induction l with
  | nil => rfl
  | cons o l ih =>
    obtain ⟨hbuild, -, hsame⟩ := hf o
    rw [List.map_cons, List.filter_cons, List.filter_cons, hbuild, ih]
    by_cases ho : o.build = other
    · rw [hsame (by rw [ho]; exact hne)]
    · rw [if_neg (by simpa using ho), if_neg (by simpa using ho)]

theorem isNotFinished_eq_false_of_finished {id : BuildID} {row : BuildRow}
    (hrow : t.builds.lookup id = some row) (hfinished : row.finished = true) :
    t.isNotFinished id = false := by
  simp [isNotFinished, hrow, hfinished]

/-- The rows of a build that is finished stay, and those of every other
build. -/
theorem MarkEffect.sameRows {d : MarkBuildSuccessData F64} {isCachedBuild : Bool}
    {startTime stopTime : Int} (h : MarkEffect t d isCachedBuild startTime stopTime t')
    {id : BuildID} (hid : id ≠ d.id ∨ t.isNotFinished id = false) : t.SameRows t' id := by
  cases h with
  | skipped h => exact SameRows.refl t id
  | marked row products metrics f hrow hfinished _ _ hproducts hmetrics hf =>
    have hne : id ≠ d.id := by
      rcases hid with hne | hnot
      · exact hne
      · intro heq
        rw [heq] at hnot
        simp [isNotFinished, hrow, hfinished] at hnot
    refine ⟨?_, filter_map_outputs hf hne _, ?_, ?_⟩
    · rw [Map.lookup_insert_eq, if_neg hne]
    · exact filter_replaced_of_ne (MarkBuildSuccessData.productRows_keys hproducts).1 _ hne
    · exact filter_replaced_of_ne (MarkBuildSuccessData.metricRows_map hmetrics).1 _ hne

/-! ### What the tables hold -/

/-- The tables hold the output for the build. -/
structure Holds (env : NixEnv) (t : OutputTables F64) (id : BuildID) (row : BuildRow)
    (res : BuildOutput F64) : Prop where
  status : row.buildStatus = some (if res.failed then .failedWithOutput else .success)
  releaseName : row.releaseName = res.releaseName
  size : row.size = some (res.size.toNat : Int) ∧ res.size.toNat < 2 ^ 63
  closureSize : row.closureSize = some (res.closureSize.toNat : Int) ∧
    res.closureSize.toNat < 2 ^ 63
  numbered : (t.buildProducts.filter (fun p => p.build = id)).Pairwise
    (fun a b => a.productNr < b.productNr)
  products : (t.buildProducts.filter (fun p => p.build = id)).map (RunnerProduct.ofRow env) =
    res.products
  metrics : (t.buildMetrics.filter (fun m => m.build = id)).map RunnerMetric.ofRow = res.metrics

variable {env : NixEnv} {id : BuildID} {row : BuildRow} {res : BuildOutput F64}

/-- What the tables hold is read, in whatever order they give their rows. -/
theorem Holds.read (h : t.Holds env id row res) (fetch : FetchRows F64) :
    ∃ out, t.readOutput env fetch id row = some out ∧ out.SameAs res := by
  unfold readOutput BuildOutput.ofRow
  rw [h.status, Option.map_some, Option.map_some]
  refine ⟨_, rfl, ⟨?_, h.releaseName, ?_, ?_, ?_, ?_⟩⟩
  · show ((if res.failed then BuildStatus.failedWithOutput else .success) != .success) = _
    cases res.failed <;> rfl
  · simp only [h.closureSize.1, Option.getD_some]
    exact toUInt64_asU64 h.closureSize.2
  · simp only [h.size.1, Option.getD_some]
    exact toUInt64_asU64 h.size.2
  · simp only [getBuildProductsForBuildId]
    rw [orderBy_eq_of_perm ProductRow.productNr h.numbered (fetch.products.perm _), h.products]
  · simp only [getBuildMetricsForBuildId]
    rw [← h.metrics]
    exact (fetch.metrics.perm _).map _

theorem Holds.of_sameRows (h : t.Holds env id row res) (hsame : t.SameRows t' id) :
    t'.Holds env id row res :=
  ⟨h.status, h.releaseName, h.size, h.closureSize, hsame.products ▸ h.numbered,
    hsame.products ▸ h.products, hsame.metrics ▸ h.metrics⟩

/-- The tables hold an output that was marked. -/
theorem MarkEffect.holds {b : BuildEntry} {isCachedBuild : Bool} {startTime stopTime : Int}
    (hstorable : res.Storable)
    (h : MarkEffect t (getMarkBuildSccuessData env b res) isCachedBuild startTime stopTime t')
    (hopen : t.isNotFinished b.id = true) (hclosed : t'.builds.lookup b.id = some row)
    (hfinished : row.finished = true) : t'.Holds env b.id row res := by
  cases h with
  | skipped h =>
    simp only [isNotFinished, hclosed, hfinished] at hopen
    cases hopen
  | marked row' products metrics f hrow _ hsize hclosureSize hproducts hmetrics hf =>
    obtain ⟨hbuild, -, hpairwise⟩ := MarkBuildSuccessData.productRows_keys hproducts
    obtain ⟨hmbuild, hmap⟩ := MarkBuildSuccessData.metricRows_map hmetrics
    have hrowEq := hclosed
    rw [show (getMarkBuildSccuessData env b res).id = b.id from rfl, Map.lookup_insert_eq,
      if_pos rfl] at hrowEq
    obtain rfl := (Option.some.inj hrowEq).symm
    refine ⟨rfl, rfl, ⟨rfl, hsize⟩, ⟨rfl, hclosureSize⟩, ?_, ?_, ?_⟩
    · exact (filter_replaced hbuild t.buildProducts).symm ▸ hpairwise
    · exact (congrArg _ (filter_replaced hbuild t.buildProducts)).trans
        (MarkBuildSuccessData.productRows_map hstorable hproducts)
    · exact (congrArg _ (filter_replaced hmbuild t.buildMetrics)).trans hmap

/-! ### What is found -/

/-- What is found is the output of a build that has one. -/
theorem findOutput_spec {fetch : FetchRows F64} {outputs : List DerivationOutput}
    (h : t.findOutput env fetch outputs = some res) :
    ∃ id row, t.builds.lookup id = some row ∧ row.hasOutput = true ∧
      t.readOutput env fetch id row = some res := by
  induction outputs with
  | nil => cases h
  | cons o outputs ih =>
    simp only [findOutput] at h
    split at h
    · exact ih h
    · split at h
      · exact ih h
      · rename_i id row hfound
        split at h
        · exact ih h
        · rename_i res' hread
          obtain rfl := Option.some.inj h
          obtain ⟨o', -, ho'⟩ := List.mem_filterMap.mp (Fetch.mem_of_first hfound)
          split at ho'
          · obtain ⟨row', hrow', heq⟩ := Option.map_eq_some_iff.mp ho'
            cases heq
            obtain ⟨hlookup, houtput⟩ := Option.filter_eq_some_iff.mp hrow'
            exact ⟨o'.build, row, hlookup, houtput, hread⟩
          · cases ho'

/-- A transaction changes nothing, or it succeeds. -/
theorem commit_cases (r : Except Unit (OutputTables F64)) :
    t.commit r = t ∨ r = .ok (t.commit r) := by
  cases r with
  | ok t' => exact Or.inr rfl
  | error e => exact Or.inl rfl

/-- A build that is there already changes nothing, or it is marked with the
output that was found or read. -/
theorem handleCachedBuild_cases (ops : NixSupport.FloatOps F64) (store : StoreView)
    (fetch : FetchRows F64) (accepts : OutputTables F64 → Statement F64 → Bool) (b : BuildEntry)
    (drv : Option Derivation) (now : Int) :
    t.handleCachedBuild ops store fetch accepts b drv now = .error () ∨
      ∃ drv' res now', drv = some drv' ∧ t.getBuildOutputCached ops store fetch drv' = .ok res ∧
        t.handleCachedBuild ops store fetch accepts b drv now =
          t.markSucceededBuild accepts (getMarkBuildSccuessData store.env b res) true now'
            now' := by
  unfold handleCachedBuild
  cases drv with
  | none => exact Or.inl rfl
  | some drv =>
    simp only
    split
    · rename_i res now' hcached _
      exact Or.inr ⟨drv, res, now', rfl, hcached, rfl⟩
    · exact Or.inl rfl

end OutputTables

/-! ## The database over a run -/

/-- The tables, with the outputs that were not copied from them. -/
structure OutputDb (F64 : Type) where
  tables : OutputTables F64 := {}
  originals : List (BuildOutput F64) := []

/-- What happens to the tables. -/
inductive OutputAction (F64 : Type) where
  /-- The evaluator adds a build with its outputs. -/
  | insertBuild (id : BuildID) (outputs : List (String × Option String))
  /-- A machine has built `outputs`, and the runner marks a build. -/
  | succeed (store : StoreView) (machineId buildId : String) (outputs : List DerivationOutput)
      (timings : BuildDurations) (accepts : OutputTables F64 → Statement F64 → Bool)
      (b : BuildEntry) (isCachedBuild : Bool) (startTime stopTime : Int)
  /-- The outputs of a build are there already. -/
  | cachedBuild (store : StoreView) (fetch : FetchRows F64)
      (accepts : OutputTables F64 → Statement F64 → Bool) (b : BuildEntry)
      (drv : Option Derivation) (now : Int)
  /-- Another statement on the row of a build. -/
  | updateBuild (id : BuildID) (set : BuildRow → Option BuildRow)

namespace OutputDb

/-- The result of a build that succeeds, as the runner gets it. -/
def receivedOutput (ops : NixSupport.FloatOps F64) (env : NixEnv) (store : StoreView)
    (machineId buildId : String) (outputs : List DerivationOutput) (timings : BuildDurations) :
    Option (BuildOutput F64) :=
  (newSuccessBuildResultInfo ops { store with env := env } machineId outputs timings
    buildId).toOption.map (BuildOutput.ofResultInfo env)

/-- The output that `handle_cached_build` reads from the store, if it reads
it from there. -/
def readFromStore (ops : NixSupport.FloatOps F64) (env : NixEnv) (t : OutputTables F64)
    (store : StoreView) (fetch : FetchRows F64) (drv : Option Derivation) :
    Option (BuildOutput F64) :=
  drv.bind (fun drv =>
    match t.findOutput env fetch drv.outputs with
    | some _ => none
    | none => (BuildOutput.new ops { store with env := env } drv.outputs).toOption)

/-- One step. -/
def next (ops : NixSupport.FloatOps F64) (env : NixEnv) (db : OutputDb F64) :
    OutputAction F64 → Option (OutputDb F64)
  | .insertBuild id outputs =>
    match db.tables.builds.lookup id with
    | some _ => none
    | none => some { db with tables := { db.tables with
        builds := db.tables.builds.insert id {}
        buildOutputs := db.tables.buildOutputs ++ outputs.map (fun o => ⟨id, o.1, o.2⟩) } }
  | .succeed store machineId buildId outputs timings accepts b isCachedBuild startTime stopTime =>
    match receivedOutput ops env store machineId buildId outputs timings with
    | none => none
    | some res => some
        { tables := db.tables.commit (db.tables.markSucceededBuild accepts
            (getMarkBuildSccuessData env b res) isCachedBuild startTime stopTime)
          originals := res :: db.originals }
  | .cachedBuild store fetch accepts b drv now => some
      { tables := db.tables.commit (db.tables.handleCachedBuild ops { store with env := env } fetch
          accepts b drv now)
        originals :=
          (readFromStore ops env db.tables store fetch drv).toList ++ db.originals }
  | .updateBuild id set =>
    match (db.tables.builds.lookup id).bind set with
    | none => none
    | some row => some { db with tables := { db.tables with
        builds := db.tables.builds.insert id row } }

/-- A statement that changes only builds that are not finished. -/
def Late : OutputDb F64 → OutputAction F64 → Prop
  | _, .updateBuild _ set => BuildsDb.Guarded set
  | _, _ => True

/-- The outputs that come in are plain, and the other statements change only
builds that are not finished and give no output to them. -/
def Proper (ops : NixSupport.FloatOps F64) (env : NixEnv) (db : OutputDb F64) :
    OutputAction F64 → Prop
  | .insertBuild _ _ => True
  | .succeed store machineId buildId outputs timings _ _ _ _ _ =>
    ∀ res, receivedOutput ops env store machineId buildId outputs timings = some res → res.Plain
  | .cachedBuild store fetch _ _ drv _ =>
    ∀ res, readFromStore ops env db.tables store fetch drv = some res → res.Plain
  | .updateBuild _ set => BuildsDb.Guarded set ∧ ∀ row row', set row = some row' →
      row'.hasOutput = false

variable {ops : NixSupport.FloatOps F64} {env : NixEnv} {db db' : OutputDb F64}
  {a : OutputAction F64}

/-- The output of the build is an original one. -/
def Attributed (env : NixEnv) (db : OutputDb F64) (id : BuildID) (row : BuildRow) : Prop :=
  ∃ original ∈ db.originals, ∃ res, db.tables.Holds env id row res ∧ res.SameAs original

/-- Every build with an output has an original one. -/
structure Ok (env : NixEnv) (db : OutputDb F64) : Prop where
  storable : ∀ original ∈ db.originals, original.Storable
  attributed : ∀ id row, db.tables.builds.lookup id = some row → row.hasOutput = true →
    db.Attributed env id row

/-! ### Builds that are finished -/

theorem sameRows_insertBuild {t : OutputTables F64} {id other : BuildID} (hne : other ≠ id)
    (outputs : List (String × Option String)) :
    t.SameRows { t with
      builds := t.builds.insert id {}
      buildOutputs := t.buildOutputs ++ outputs.map (fun o => ⟨id, o.1, o.2⟩) } other := by
  refine ⟨?_, ?_, rfl, rfl⟩
  · rw [Map.lookup_insert_eq, if_neg hne]
  · have hnone : (outputs.map (fun o => (⟨id, o.1, o.2⟩ : OutputRow))).filter
        (fun o => o.build = other) = [] := by
      rw [List.filter_eq_nil_iff]
      intro o ho
      obtain ⟨_, -, rfl⟩ := List.mem_map.mp ho
      simpa using hne.symm
    rw [List.filter_append, hnone, List.append_nil]

theorem sameRows_insert {t : OutputTables F64} {id other : BuildID} (hne : other ≠ id)
    (row : BuildRow) : t.SameRows { t with builds := t.builds.insert id row } other :=
  ⟨by rw [Map.lookup_insert_eq, if_neg hne], rfl, rfl, rfl⟩

theorem sameRows_markSucceededBuild {t : OutputTables F64}
    (accepts : OutputTables F64 → Statement F64 → Bool) (d : MarkBuildSuccessData F64)
    (isCachedBuild : Bool) (startTime stopTime : Int) {id : BuildID}
    (hid : id ≠ d.id ∨ t.isNotFinished id = false) :
    t.SameRows (t.commit (t.markSucceededBuild accepts d isCachedBuild startTime stopTime)) id := by
  rcases t.commit_cases (t.markSucceededBuild accepts d isCachedBuild startTime stopTime) with
    h | h
  · rw [h]
    exact .refl t id
  · exact (OutputTables.markEffect_of_ok h).sameRows hid

theorem sameRows_handleCachedBuild {t : OutputTables F64} (store : StoreView)
    (fetch : FetchRows F64) (accepts : OutputTables F64 → Statement F64 → Bool) (b : BuildEntry)
    (drv : Option Derivation) (now : Int) {id : BuildID}
    (hid : id ≠ b.id ∨ t.isNotFinished id = false) :
    t.SameRows (t.commit (t.handleCachedBuild ops store fetch accepts b drv now)) id := by
  rcases t.handleCachedBuild_cases ops store fetch accepts b drv now with h |
    ⟨drv', res, now', -, -, h⟩
  · rw [h]
    exact .refl t id
  · rw [h]
    exact sameRows_markSucceededBuild accepts _ true now' now' hid

/-- A step leaves the rows of a build that is finished. -/
theorem sameRows_of_next (hlate : Late db a) (hnext : next ops env db a = some db')
    {id : BuildID} {row : BuildRow} (hrow : db.tables.builds.lookup id = some row)
    (hfinished : row.finished = true) : db.tables.SameRows db'.tables id := by
  have hclosed := OutputTables.isNotFinished_eq_false_of_finished hrow hfinished
  cases a with
  | insertBuild new outputs =>
    simp only [next] at hnext
    split at hnext
    · cases hnext
    · rename_i hnone
      obtain rfl := (Option.some.inj hnext).symm
      refine sameRows_insertBuild (fun heq => ?_) outputs
      rw [← heq, hrow] at hnone
      cases hnone
  | succeed store machineId buildId outputs timings accepts b isCachedBuild startTime stopTime =>
    simp only [next] at hnext
    split at hnext
    · cases hnext
    · obtain rfl := (Option.some.inj hnext).symm
      exact sameRows_markSucceededBuild accepts _ isCachedBuild startTime stopTime (Or.inr hclosed)
  | cachedBuild store fetch accepts b drv now =>
    obtain rfl := (Option.some.inj hnext).symm
    exact sameRows_handleCachedBuild _ fetch accepts b drv now (Or.inr hclosed)
  | updateBuild changed set =>
    simp only [next] at hnext
    split at hnext
    · cases hnext
    · rename_i row' hset
      obtain rfl := (Option.some.inj hnext).symm
      obtain ⟨old, hold, hset⟩ := Option.bind_eq_some_iff.mp hset
      refine sameRows_insert (fun heq => ?_) row'
      rw [← heq, hrow] at hold
      obtain rfl := Option.some.inj hold
      have := (hlate row row' hset).1
      rw [hfinished] at this
      cases this

/-! ### Builds that get an output -/

theorem finished_of_hasOutput {row : BuildRow} (h : row.hasOutput = true) :
    row.finished = true := by
  unfold BuildRow.hasOutput at h
  exact (Bool.and_eq_true_iff.mp h).1

theorem Attributed.mono {id : BuildID} {row : BuildRow} (h : db.Attributed env id row)
    (hsub : db.originals ⊆ db'.originals) (hsame : db.tables.SameRows db'.tables id) :
    db'.Attributed env id row := by
  obtain ⟨original, hmem, res, hholds, hres⟩ := h
  exact ⟨original, hsub hmem, res, hholds.of_sameRows hsame, hres⟩

/-- What a builder reports and what is read from the store can be held. -/
theorem storable_of_products {support : NixSupportInfo F64} {files : StoreFiles}
    {outputs : List DerivationOutput} {res : BuildOutput F64}
    (hparse : NixSupport.parseNixSupportFromOutputs ops files env.storeDir outputs = .ok support)
    (hres : res.products = support.products.map (RunnerProduct.ofShared env)) (hplain : res.Plain) :
    res.Storable := by
  intro p hp
  have hpl := hplain p hp
  rw [hres] at hp
  obtain ⟨shared, hshared, rfl⟩ := List.mem_map.mp hp
  have hsize := NixSupport.products_forall
    (fun _ _ _ hp => NixSupport.size_of_parseBuildProduct hp)
    NixSupport.size_of_defaultProducts hparse shared hshared
  exact ⟨hpl, by simp [RunnerProduct.ofShared], by simp [RunnerProduct.ofShared], hsize.symm⟩

theorem storable_of_receivedOutput {store : StoreView} {machineId buildId : String}
    {outputs : List DerivationOutput} {timings : BuildDurations} {res : BuildOutput F64}
    (h : receivedOutput ops env store machineId buildId outputs timings = some res)
    (hplain : res.Plain) : res.Storable := by
  obtain ⟨info, hinfo, rfl⟩ := Option.map_eq_some_iff.mp h
  obtain ⟨support, hparse, -, rfl⟩ :=
    newSuccessBuildResultInfo_ok_iff.mp (eq_ok_of_toOption hinfo)
  exact storable_of_products hparse rfl hplain

theorem storable_of_new {store : StoreView} {outputs : List DerivationOutput}
    {res : BuildOutput F64} (h : BuildOutput.new ops { store with env := env } outputs = .ok res)
    (hplain : res.Plain) : res.Storable := by
  unfold BuildOutput.new at h
  split at h
  · cases h
  · rename_i support hparse
    obtain rfl := (Except.ok.inj h).symm
    exact storable_of_products hparse rfl hplain

/-- A build is marked with an output that is like an original one. -/
theorem Ok.mark (h : db.Ok env) {originals : List (BuildOutput F64)}
    (hsub : db.originals ⊆ originals) (hstorable : ∀ original ∈ originals, original.Storable)
    {res : BuildOutput F64} (hres : ∃ original ∈ originals, res.SameAs original)
    (accepts : OutputTables F64 → Statement F64 → Bool) (b : BuildEntry) (isCachedBuild : Bool)
    (startTime stopTime : Int) :
    Ok env ⟨db.tables.commit (db.tables.markSucceededBuild accepts
      (getMarkBuildSccuessData env b res) isCachedBuild startTime stopTime), originals⟩ := by
  refine ⟨hstorable, fun id row hrow houtput => ?_⟩
  by_cases hid : id = b.id ∧ db.tables.isNotFinished b.id = true
  · obtain ⟨rfl, hopen⟩ := hid
    obtain ⟨original, hmem, hsame⟩ := hres
    refine ⟨original, hmem, res, ?_, hsame⟩
    rcases db.tables.commit_cases (db.tables.markSucceededBuild accepts
      (getMarkBuildSccuessData env b res) isCachedBuild startTime stopTime) with heq | heq
    · -- nothing has changed, so the build is not finished
      simp only [heq] at hrow
      rw [OutputTables.isNotFinished_eq_false_of_finished hrow (finished_of_hasOutput houtput)]
        at hopen
      cases hopen
    · exact (OutputTables.markEffect_of_ok heq).holds (hsame.storable (hstorable _ hmem)) hopen
        hrow (finished_of_hasOutput houtput)
  · have hother : id ≠ b.id ∨ db.tables.isNotFinished id = false := by
      by_cases heq : id = b.id
      · subst heq
        exact Or.inr (by simpa using hid)
      · exact Or.inl heq
    have hsame := sameRows_markSucceededBuild (t := db.tables) accepts
      (getMarkBuildSccuessData env b res) isCachedBuild startTime stopTime hother
    exact (h.attributed id row (hsame.build ▸ hrow) houtput).mono hsub hsame

theorem Ok.step (h : db.Ok env) (hproper : Proper ops env db a)
    (hnext : next ops env db a = some db') : db'.Ok env := by
  cases a with
  | insertBuild new outputs =>
    simp only [next] at hnext
    split at hnext
    · cases hnext
    · obtain rfl := (Option.some.inj hnext).symm
      refine ⟨h.storable, fun id row hrow houtput => ?_⟩
      by_cases heq : id = new
      · simp only [Map.lookup_insert_eq, if_pos heq] at hrow
        obtain rfl := Option.some.inj hrow
        cases houtput
      · have hsame := sameRows_insertBuild (t := db.tables) heq outputs
        exact (h.attributed id row (hsame.build ▸ hrow) houtput).mono (List.Subset.refl _) hsame
  | succeed store machineId buildId outputs timings accepts b isCachedBuild startTime stopTime =>
    simp only [next] at hnext
    split at hnext
    · cases hnext
    · rename_i res hres
      obtain rfl := (Option.some.inj hnext).symm
      have hstorable := storable_of_receivedOutput hres (hproper res hres)
      exact h.mark (List.subset_cons_self _ _)
        (List.forall_mem_cons.mpr ⟨hstorable, h.storable⟩)
        ⟨res, List.mem_cons_self, .refl res⟩ accepts b isCachedBuild startTime stopTime
  | cachedBuild store fetch accepts b drv now =>
    obtain rfl := (Option.some.inj hnext).symm
    have hstorable : ∀ original ∈ (readFromStore ops env db.tables store fetch drv).toList ++
        db.originals, original.Storable := by
      intro original hmem
      rcases List.mem_append.mp hmem with hread | hmem
      · have hread := Option.mem_toList.mp hread
        obtain ⟨drv', -, hnew⟩ := Option.bind_eq_some_iff.mp hread
        split at hnew
        · cases hnew
        · exact storable_of_new (eq_ok_of_toOption hnew)
            (hproper original hread)
      · exact h.storable original hmem
    rcases db.tables.handleCachedBuild_cases ops { store with env := env } fetch accepts b drv
      now with heq | ⟨drv', res, now', rfl, hcached, heq⟩
    · simp only [heq]
      exact ⟨hstorable, fun id row hrow houtput => (h.attributed id row hrow houtput).mono
        (List.subset_append_right _ _) (.refl _ id)⟩
    · simp only [heq]
      refine h.mark (List.subset_append_right _ _) hstorable ?_ accepts b true now' now'
      unfold OutputTables.getBuildOutputCached at hcached
      cases hfound : db.tables.findOutput env fetch drv'.outputs with
      | some found =>
        -- a copy of what another build has
        simp only [hfound] at hcached
        obtain rfl := Except.ok.inj hcached
        obtain ⟨id, row, hrow, houtput, hread⟩ := OutputTables.findOutput_spec hfound
        obtain ⟨original, hmem, kept, hholds, hkept⟩ := h.attributed id row hrow houtput
        obtain ⟨out, hout, hsame⟩ := hholds.read fetch
        obtain rfl := Option.some.inj (hread.symm.trans hout)
        exact ⟨original, List.mem_append_right _ hmem, hsame.trans hkept⟩
      | none =>
        simp only [hfound] at hcached
        refine ⟨res, List.mem_append_left _ (Option.mem_toList.mpr ?_), .refl res⟩
        simp only [readFromStore, Option.bind_some, hfound, hcached]
        rfl
  | updateBuild changed set =>
    simp only [next] at hnext
    split at hnext
    · cases hnext
    · rename_i row' hset
      obtain rfl := (Option.some.inj hnext).symm
      obtain ⟨old, hold, hset⟩ := Option.bind_eq_some_iff.mp hset
      refine ⟨h.storable, fun id row hrow houtput => ?_⟩
      by_cases heq : id = changed
      · simp only [Map.lookup_insert_eq, if_pos heq] at hrow
        obtain rfl := Option.some.inj hrow
        rw [hproper.2 old row' hset] at houtput
        cases houtput
      · have hsame := sameRows_insert (t := db.tables) heq row'
        exact (h.attributed id row (hsame.build ▸ hrow) houtput).mono (List.Subset.refl _) hsame

/-! ### A build and a copy -/

/-- The rows as they were inserted. -/
def insertionOrder (F64 : Type) : FetchRows F64 := ⟨.inOrder _, .inOrder _, .inOrder _⟩

/-- A machine has built the output of build 1. -/
def sampleSucceed : OutputAction Nat :=
  .succeed BuildOutput.sampleStore "m" "b" BuildOutput.sampleOutputs {} (fun _ _ => true)
    { id := 1 } false 5 7

/-- Build 2 has the same output. -/
def sampleCachedBuild : OutputAction Nat :=
  .cachedBuild BuildOutput.sampleStore (insertionOrder Nat) (fun _ _ => true) { id := 2 }
    (some ⟨"x86_64-linux", [], BuildOutput.sampleOutputs, []⟩) 9

def sampleNext : OutputDb Nat → OutputAction Nat → Option (OutputDb Nat) :=
  next BuildOutput.sampleFloats BuildOutput.sampleStore.env

def sampleInserted : OutputDb Nat :=
  (Lts.run sampleNext {} [.insertBuild 1 [("out", none)], .insertBuild 2 [("out", none)]]).get rfl

def sampleMarked : OutputDb Nat := (sampleNext sampleInserted sampleSucceed).get rfl

def sampleCopied : OutputDb Nat := (sampleNext sampleMarked sampleCachedBuild).get rfl

theorem sampleMarked_finished : ∃ row, sampleMarked.tables.builds.lookup 1 = some row ∧
    row.finished = true := by
  have h : (sampleMarked.tables.builds.lookup 1).map BuildRow.finished = some true := by
    decide +kernel
  exact Option.map_eq_some_iff.mp h

theorem sampleCopied_hasOutput : ∃ row, sampleCopied.tables.builds.lookup 2 = some row ∧
    row.hasOutput = true := by
  have h : (sampleCopied.tables.builds.lookup 2).map BuildRow.hasOutput = some true := by
    decide +kernel
  exact Option.map_eq_some_iff.mp h

theorem sampleCached_reach : Lts.Reach sampleNext Late sampleMarked sampleCopied :=
  .step sampleCachedBuild .refl trivial (Option.some_get _).symm

theorem sampleCopied_reach :
    Lts.Reach sampleNext (Proper BuildOutput.sampleFloats BuildOutput.sampleStore.env) {}
      sampleCopied := by
  have hfirst : sampleNext {} (.insertBuild 1 [("out", none)]) = some _ := rfl
  have hinserted : Lts.Reach sampleNext
      (Proper BuildOutput.sampleFloats BuildOutput.sampleStore.env) {} sampleInserted :=
    .step (.insertBuild 2 [("out", none)]) (.step (.insertBuild 1 [("out", none)]) .refl trivial
      hfirst) trivial (Option.some_get _).symm
  refine .step sampleCachedBuild (.step sampleSucceed hinserted ?_ (Option.some_get _).symm) ?_
    (Option.some_get _).symm
  · intro res hres p hp
    have hproducts : (receivedOutput BuildOutput.sampleFloats BuildOutput.sampleStore.env
        BuildOutput.sampleStore "m" "b" BuildOutput.sampleOutputs {}).map
          (fun r => r.products.map (fun p => (p.path, p.fileSize))) =
        some [(some NixSupport.sampleOutput, none)] := rfl
    rw [hres, Option.map_some] at hproducts
    have hmem := (List.mem_map_of_mem hp : (p.path, p.fileSize) ∈
      res.products.map (fun p => (p.path, p.fileSize)))
    rw [Option.some.inj hproducts, List.mem_singleton] at hmem
    obtain ⟨hpath, hsize⟩ := Prod.mk.inj hmem
    refine ⟨fun q hq => ?_, fun n hn => ?_⟩
    · rw [hpath] at hq
      cases hq
      decide
    · rw [hsize] at hn
      cases hn
  · -- the output is found in the tables
    intro res hres
    cases hres

/-! ### Runs -/

/-- The rows of a build that is finished stay the same in all four tables. -/
theorem finished_output_is_final (ops : NixSupport.FloatOps F64) (env : NixEnv)
    (db₀ db : OutputDb F64) (hrun : Lts.Reach (next ops env) Late db₀ db) (id : BuildID)
    (row : BuildRow) (hrow : db₀.tables.builds.lookup id = some row)
    (hfinished : row.finished = true) : db₀.tables.SameRows db.tables id := by
  refine hrun.invariant (I := fun db => db₀.tables.SameRows db.tables id) (.refl _ id)
    fun s a s' hs hlate hnext => ?_
  exact hs.trans (sameRows_of_next hlate hnext (hs.build.trans hrow) hfinished)

theorem finished_output_is_final_sample : ∃ row,
    sampleMarked.tables.builds.lookup 1 = some row ∧ row.finished = true ∧
      sampleMarked.tables.SameRows sampleCopied.tables 1 := by
  obtain ⟨row, hrow, hfinished⟩ := sampleMarked_finished
  exact ⟨row, hrow, hfinished, finished_output_is_final BuildOutput.sampleFloats
    BuildOutput.sampleStore.env sampleMarked sampleCopied sampleCached_reach 1 row hrow hfinished⟩

/-- Whatever has happened, and in whatever order the tables give their rows,
the output that is read for a build is like one that a machine has reported or
that was read from the store.  A copy of a copy is like the first. -/
theorem stored_outputs_are_originals (ops : NixSupport.FloatOps F64) (env : NixEnv)
    (db : OutputDb F64) (hrun : Lts.Reach (next ops env) (Proper ops env) {} db) (id : BuildID)
    (row : BuildRow) (hrow : db.tables.builds.lookup id = some row)
    (houtput : row.hasOutput = true) :
    ∃ original ∈ db.originals, ∀ fetch : FetchRows F64, ∃ out,
      db.tables.readOutput env fetch id row = some out ∧ out.SameAs original := by
  have hok : db.Ok env := by
    refine hrun.invariant ⟨by simp, fun id row hrow => ?_⟩
      fun s a s' hs hproper hnext => hs.step hproper hnext
    cases hrow
  obtain ⟨original, hmem, res, hholds, hsame⟩ := hok.attributed id row hrow houtput
  refine ⟨original, hmem, fun fetch => ?_⟩
  obtain ⟨out, hread, hout⟩ := hholds.read fetch
  exact ⟨out, hread, hout.trans hsame⟩

theorem stored_outputs_are_originals_sample : ∃ row,
    sampleCopied.tables.builds.lookup 2 = some row ∧ row.hasOutput = true ∧
      ∃ original ∈ sampleCopied.originals, ∀ fetch : FetchRows Nat, ∃ out,
        sampleCopied.tables.readOutput BuildOutput.sampleStore.env fetch 2 row = some out ∧
          out.SameAs original := by
  obtain ⟨row, hrow, houtput⟩ := sampleCopied_hasOutput
  exact ⟨row, hrow, houtput, stored_outputs_are_originals BuildOutput.sampleFloats
    BuildOutput.sampleStore.env sampleCopied sampleCopied_reach 2 row hrow houtput⟩

end OutputDb

end QueueRunner
