import QueueRunner.StorePaths

/-!
# The log files

A builder streams the log of a build in chunks, and the queue runner writes
them into a file whose name comes from the first chunk: `build_log` of
`server/grpc.rs`, and `new_log_file` of `state/mod.rs`.  The name is cut
behind byte 2 and both parts are pushed onto the log directory, which is
`build-logs` in the data directory.

`buildLog` gives what the call does to the file system.  A name of Nix's
form leads to a file of its own below the log directory.  Other names can
panic at the cut, begin with a slash, which replaces the log directory, or
climb out of it.  `logFiles_iff` says which names stay inside.
-/

namespace QueueRunner

open Paths (Place)

/-- `LogChunk`. -/
structure LogChunk where
  drv : String
  data : Bytes

/-- What `build_log` does to the file system. -/
inductive LogEffect where
  | createDirAll (path : List Char)
  | openFile (path : List Char)
  | writeAll (data : Bytes)
deriving DecidableEq, Repr

/-- How a call of `build_log` ends. -/
inductive LogResult where
  | done
  /-- A status: the stream breaks, the file is not opened or not written. -/
  | status
  | panic (p : Panic)
deriving DecidableEq, Repr

/-- The answers of the file system: to `open`, and to the writes in their
order. -/
structure LogAnswers where
  opens : Bool := true
  writes : Nat → Bool := fun _ => true

/-- `hydra_log_dir` of the prepared configuration. -/
def hydraLogDir (dataDir : String) : List Char :=
  Paths.push dataDir.toList "build-logs".toList

/-- `construct_log_file_path`: the directory that it creates, and the path of
the file. -/
def constructLogFilePath (logDir : List Char) (drv : StorePath) :
    Except Panic (List Char × List Char) :=
  match Text.splitAt 2 drv.baseName.toList with
  | none => .error .strIndex
  | some (dir, file) =>
    let created := Paths.push logDir (dir ++ ['/'])
    .ok (created, Paths.push created file)

/-- The paths of the first chunk: `StorePath::new`, and the path that
`new_log_file` constructs. -/
def newLogFile (env : NixEnv) (logDir : List Char) (drv : String) :
    Except Panic (List Char × List Char) := do
  let path ← env.newStorePath drv
  constructLogFilePath logDir path

/-- The chunks that are written to the open file. -/
def writeChunks (ans : LogAnswers) : Nat → List (Option LogChunk) → LogResult × List LogEffect
  | _, [] => (.done, [])
  | _, none :: _ => (.status, [])
  | n, some chunk :: stream =>
    if ans.writes n then
      let (result, effects) := writeChunks ans (n + 1) stream
      (result, .writeAll chunk.data :: effects)
    else (.status, [])

/-- `build_log`.  A chunk is missing where the stream breaks. -/
def buildLog (env : NixEnv) (logDir : List Char) (ans : LogAnswers) :
    List (Option LogChunk) → LogResult × List LogEffect
  | [] => (.done, [])
  | none :: _ => (.status, [])
  | some chunk :: stream =>
    match newLogFile env logDir chunk.drv with
    | .error p => (.panic p, [])
    | .ok (created, file) =>
      if ans.opens then
        let (result, effects) := writeChunks ans 0 (some chunk :: stream)
        (result, .createDirAll created :: .openFile file :: effects)
      else (.status, [.createDirAll created, .openFile file])

/-! ## Where the handler writes -/

/-- The path of the effect, if it has one, is below the directory. -/
def LogEffect.Inside (dir : Place) : LogEffect → Prop
  | .createDirAll path => dir.Inside (Paths.resolve path)
  | .openFile path => dir.Inside (Paths.resolve path)
  | .writeAll _ => True

/-- In every data directory and with every stream that begins with the name,
`build_log` does not panic and stays below the log directory. -/
def LogFilesInside (env : NixEnv) (drv : String) : Prop :=
  ∀ dataDir data stream ans,
    let run := buildLog env (hydraLogDir dataDir) ans (some ⟨drv, data⟩ :: stream)
    (∀ p, run.1 ≠ .panic p) ∧
      ∀ e ∈ run.2, e.Inside (Paths.resolve (hydraLogDir dataDir))

/-- The relative place stays below its start, or leaves it once and comes
back through `build-logs`. -/
def StaysBelow (q : Place) : Prop :=
  (q.ups = 0 ∧ q.names ≠ []) ∨
    (q.ups = 1 ∧ ∃ x xs, q.names = "build-logs".toList :: x :: xs)

/-- The names that stay inside the log directory.  `dir` are the first two
bytes, and `file` is the rest. -/
structure LogNameSafe (env : NixEnv) (drv : String) : Prop where
  asserted : env.debugAssertions = true → 33 < (env.postfixOf drv).utf8ByteSize
  split : ∃ dir file,
    (StorePath.new env.storeDirSlash drv).baseName.toList = dir ++ file ∧ Text.size dir = 2 ∧
      Paths.isAbsolute dir = false ∧ dir ≠ "..".toList ∧ dir ≠ "./".toList ∧
      Paths.isAbsolute file = false ∧ StaysBelow (Paths.resolve (dir ++ '/' :: file))

/-! ## The run of `build_log` -/

/-- The writes have no path, and they do not panic. -/
theorem writeChunks_inside (dir : Place) (ans : LogAnswers) (n : Nat)
    (stream : List (Option LogChunk)) :
    (∀ p, (writeChunks ans n stream).1 ≠ .panic p) ∧
      ∀ e ∈ (writeChunks ans n stream).2, e.Inside dir := by
  induction stream generalizing n with
  | nil => simp [writeChunks]
  | cons chunk stream ih =>
    cases chunk with
    | none => simp [writeChunks]
    | some chunk =>
      simp only [writeChunks]
      split_ifs
      · obtain ⟨hresult, heffects⟩ := ih (n + 1)
        refine ⟨hresult, fun e he => ?_⟩
        rcases List.mem_cons.mp he with rfl | he
        · exact trivial
        · exact heffects e he
      · simp

/-- What `build_log` comes to depends on the two paths of the first chunk. -/
theorem logFilesInside_iff_newLogFile {env : NixEnv} {drv : String} :
    LogFilesInside env drv ↔
      ∀ dataDir, ∃ created file,
        newLogFile env (hydraLogDir dataDir) drv = .ok (created, file) ∧
          (Paths.resolve (hydraLogDir dataDir)).Inside (Paths.resolve created) ∧
          (Paths.resolve (hydraLogDir dataDir)).Inside (Paths.resolve file) := by
  constructor
  · intro h dataDir
    obtain ⟨hpanic, hinside⟩ := h dataDir [] [] {}
    cases hfile : newLogFile env (hydraLogDir dataDir) drv with
    | error p =>
      refine absurd ?_ (hpanic p)
      simp only [buildLog, hfile]
    | ok paths =>
      obtain ⟨created, file⟩ := paths
      simp only [buildLog, hfile, if_true] at hinside
      exact ⟨created, file, rfl, hinside (.createDirAll created) (by simp),
        hinside (.openFile file) (by simp)⟩
  · intro h dataDir data stream ans
    obtain ⟨created, file, hfile, hcreated, hopened⟩ := h dataDir
    obtain ⟨hresult, heffects⟩ := writeChunks_inside (Paths.resolve (hydraLogDir dataDir)) ans 0
      (some ⟨drv, data⟩ :: stream)
    simp only [buildLog, hfile]
    split_ifs
    · refine ⟨hresult, fun e he => ?_⟩
      rcases List.mem_cons.mp he with rfl | he
      · exact hcreated
      rcases List.mem_cons.mp he with rfl | he
      · exact hopened
      · exact heffects e he
    · refine ⟨by simp, fun e he => ?_⟩
      rcases List.mem_cons.mp he with rfl | he
      · exact hcreated
      · obtain rfl := List.mem_singleton.mp he
        exact hopened

/-- The paths of a name that is cut. -/
theorem newLogFile_ok_iff {env : NixEnv} {logDir : List Char} {drv : String}
    {created opened : List Char} :
    newLogFile env logDir drv = .ok (created, opened) ↔
      (env.debugAssertions = true → 33 < (env.postfixOf drv).utf8ByteSize) ∧
        ∃ dir file, (StorePath.new env.storeDirSlash drv).baseName.toList = dir ++ file ∧
          Text.size dir = 2 ∧ created = Paths.push logDir (dir ++ ['/']) ∧
          opened = Paths.push created file := by
  rw [newLogFile, Fallible.bind_ok_iff]
  simp only [NixEnv.newStorePath_ok_iff]
  constructor
  · rintro ⟨path, ⟨hassert, rfl⟩, h⟩
    refine ⟨hassert, ?_⟩
    unfold constructLogFilePath at h
    split at h
    · cases h
    · rename_i dir file hsplit
      obtain ⟨heq, hsize⟩ := Text.splitAt_eq_some_iff.mp hsplit
      obtain ⟨rfl, rfl⟩ := Prod.mk.inj (Except.ok.inj h)
      exact ⟨dir, file, heq, hsize, rfl, rfl⟩
  · rintro ⟨hassert, dir, file, heq, hsize, rfl, rfl⟩
    refine ⟨_, ⟨hassert, rfl⟩, ?_⟩
    simp only [constructLogFilePath, Text.splitAt_eq_some_iff.mpr ⟨heq, hsize⟩]

/-! ## Where the paths lead -/

/-- A text of two bytes that does not begin with a slash. -/
theorem components_of_size_two {dir : List Char} (hsize : Text.size dir = 2)
    (habs : Paths.isAbsolute dir = false) :
    dir = "./".toList ∨ dir = "..".toList ∨
      ∃ d, d ≠ Paths.parent ∧ Paths.components dir = [d] := by
  by_cases hslash : '/' ∈ dir
  · -- the slash is the second character
    match dir with
    | [] => simp at hslash
    | [c] =>
      obtain rfl := List.mem_singleton.mp hslash
      cases habs
    | c :: d :: rest =>
      have hc := c.utf8Size_pos
      have hd := d.utf8Size_pos
      simp only [Text.size_cons] at hsize
      have hrest : rest = [] := by
        have hlen := Text.length_le_size rest
        exact List.length_eq_zero_iff.mp (by omega)
      subst hrest
      have hne : c ≠ '/' := by
        rintro rfl
        cases habs
      obtain rfl : d = '/' := by
        rcases List.mem_cons.mp hslash with rfl | hslash
        · exact absurd rfl hne
        · exact (List.mem_singleton.mp hslash).symm
      by_cases hdot : c = '.'
      · exact .inl (by rw [hdot]; rfl)
      · refine .inr (.inr ⟨[c], by simp [Paths.parent], ?_⟩)
        have := Paths.components_append_slash [c] []
        rw [List.singleton_append] at this
        rw [this, Paths.components_of_no_slash (by simpa using hne.symm) (by simp)
          (by simpa using hdot)]
        rfl
  · by_cases hparent : dir = "..".toList
    · exact .inr (.inl hparent)
    · refine .inr (.inr ⟨dir, hparent, Paths.components_of_no_slash hslash ?_ ?_⟩)
      · rintro rfl
        cases hsize
      · rintro rfl
        cases hsize

/-- The directory that is created. -/
theorem resolve_created {dir : List Char} (hsize : Text.size dir = 2)
    (habs : Paths.isAbsolute dir = false) (logDir : List Char) :
    Paths.resolve (Paths.push logDir (dir ++ ['/'])) =
      (Paths.components dir).foldl Place.enter (Paths.resolve logDir) := by
  have habs' : Paths.isAbsolute (dir ++ ['/']) = false := by
    cases dir with
    | nil => cases hsize
    | cons c dir => exact habs
  rw [Paths.resolve_push habs', Paths.components_append_slash]
  simp

/-- The file that is opened lies where the relative path of both parts leads
from the log directory. -/
theorem resolve_opened {dir file : List Char} (hsize : Text.size dir = 2)
    (habs : Paths.isAbsolute dir = false) (hfile : Paths.isAbsolute file = false)
    (logDir : List Char) :
    Paths.resolve (Paths.push (Paths.push logDir (dir ++ ['/'])) file) =
      (Paths.resolve logDir).follow (Paths.resolve (dir ++ '/' :: file)) := by
  have habs' : Paths.isAbsolute (dir ++ '/' :: file) = false := by
    cases dir with
    | nil => cases hsize
    | cons c dir => exact habs
  have hrelative : Paths.resolve (dir ++ '/' :: file) =
      (Paths.components dir ++ Paths.components file).foldl Place.enter Place.here := by
    rw [Paths.resolve, habs', Paths.components_append_slash]
    rfl
  rw [Paths.resolve_push hfile, resolve_created hsize habs, ← List.foldl_append,
    Place.foldl_enter, hrelative]

/-- The log directory is one name below the data directory. -/
theorem resolve_hydraLogDir (dataDir : String) :
    Paths.resolve (hydraLogDir dataDir) =
      { Paths.resolve dataDir.toList with
        names := (Paths.resolve dataDir.toList).names ++ ["build-logs".toList] } := by
  have hcomponents : Paths.components "build-logs".toList = ["build-logs".toList] := by decide
  rw [hydraLogDir, Paths.resolve_push (by decide), hcomponents, List.foldl_cons, List.foldl_nil,
    Place.enter_of_ne _ (by decide)]

theorem StaysBelow.inside {q : Place} (h : StaysBelow q) (dataDir : String) :
    (Paths.resolve (hydraLogDir dataDir)).Inside
      ((Paths.resolve (hydraLogDir dataDir)).follow q) := by
  rw [resolve_hydraLogDir]
  rcases h with ⟨hups, hnames⟩ | ⟨hups, x, xs, hnames⟩
  · obtain ⟨x, xs, hcons⟩ := List.exists_cons_of_ne_nil hnames
    refine ⟨by simp [Place.follow, hups, Place.climb], by simp [Place.follow, hups, Place.climb],
      x, xs, ?_⟩
    simp [Place.follow, hups, Place.climb, hcons]
  · -- one step up is the data directory
    have hclimb : ∀ p : Place, Place.climb 1 { p with names := p.names ++ ["build-logs".toList] } =
        p := by
      intro p
      rw [Place.climb, Place.climb, Place.up_append]
    refine ⟨by rw [Place.follow, hups, hclimb], by rw [Place.follow, hups, hclimb], x, xs, ?_⟩
    rw [Place.follow, hups, hclimb, hnames]
    simp

/-! ## Names that leave the log directory -/

/-- A data directory whose name is longer than the paths of a given length. -/
def farDataDir (n : Nat) : String := String.ofList ('/' :: List.replicate (n + 1) 'a')

/-- Its log directory. -/
def farLogDir (n : Nat) : Place := ⟨true, 0, [List.replicate (n + 1) 'a', "build-logs".toList]⟩

theorem resolve_farDataDir (n : Nat) :
    Paths.resolve (hydraLogDir (farDataDir n)) = farLogDir n := by
  have hcomponents : Paths.components ('/' :: List.replicate (n + 1) 'a') =
      [List.replicate (n + 1) 'a'] := by
    have hsplit := Paths.components_append_slash [] (List.replicate (n + 1) 'a')
    rw [List.nil_append, Paths.components_nil, List.nil_append] at hsplit
    rw [hsplit]
    apply Paths.components_of_no_slash
    · simp
    · simp
    · simp [List.replicate_succ]
  have hne : List.replicate (n + 1) 'a' ≠ Paths.parent := by
    simp [List.replicate_succ, Paths.parent]
  rw [resolve_hydraLogDir, farDataDir, String.toList_ofList, Paths.resolve, hcomponents,
    List.foldl_cons, List.foldl_nil, Place.enter_of_ne _ hne]
  rfl

/-- A short path does not lead below a directory with a long name, unless it
starts there. -/
theorem not_inside_farLogDir {n : Nat} {cs : List Char} (hlen : cs.length ≤ n) {p : Place}
    (hp : p.names = (Paths.resolve cs).names) : ¬ (farLogDir n).Inside p := by
  rintro ⟨-, -, x, xs, hnames⟩
  have hmem : List.replicate (n + 1) 'a' ∈ (Paths.resolve cs).names := by
    rw [← hp, hnames, farLogDir]
    simp
  have hle := (Paths.mem_components (Paths.mem_names_resolve hmem)).2.2
  rw [List.length_replicate] at hle
  omega

theorem StaysBelow.of_inside {n : Nat} {cs : List Char} (hlen : cs.length ≤ n)
    (hinside : (farLogDir n).Inside ((farLogDir n).follow (Paths.resolve cs))) :
    StaysBelow (Paths.resolve cs) := by
  obtain ⟨-, -, x, xs, hnames⟩ := id hinside
  match hups : (Paths.resolve cs).ups with
  | 0 =>
    refine .inl ⟨hups, ?_⟩
    rw [Place.follow, hups, Place.climb] at hnames
    intro hnil
    simp [hnil, farLogDir] at hnames
  | 1 =>
    refine .inr ⟨hups, x, xs, ?_⟩
    rw [Place.follow, hups, farLogDir, Place.climb_absolute] at hnames
    simpa using hnames
  | k + 2 =>
    refine absurd hinside (not_inside_farLogDir hlen ?_)
    rw [Place.follow, hups, farLogDir, Place.climb_absolute]
    simp

/-! ## When the log files stay inside -/

theorem LogNameSafe.logFilesInside {env : NixEnv} {drv : String} (h : LogNameSafe env drv) :
    LogFilesInside env drv := by
  rw [logFilesInside_iff_newLogFile]
  intro dataDir
  obtain ⟨dir, file, heq, hsize, habs, hparent, hhere, hfile, hbelow⟩ := h.split
  refine ⟨_, _, newLogFile_ok_iff.mpr ⟨h.asserted, dir, file, heq, hsize, rfl, rfl⟩, ?_, ?_⟩
  · obtain ⟨d, hd, hcomponents⟩ :=
      ((components_of_size_two hsize habs).resolve_left hhere).resolve_left hparent
    rw [resolve_created hsize habs, hcomponents, List.foldl_cons, List.foldl_nil,
      Place.enter_of_ne _ hd]
    exact ⟨rfl, rfl, d, [], rfl⟩
  · rw [resolve_opened hsize habs hfile]
    exact hbelow.inside dataDir

theorem LogFilesInside.logNameSafe {env : NixEnv} {drv : String} (h : LogFilesInside env drv) :
    LogNameSafe env drv := by
  rw [logFilesInside_iff_newLogFile] at h
  -- a data directory with a longer name than anything in `drv`
  set base := (StorePath.new env.storeDirSlash drv).baseName.toList with hbase
  obtain ⟨created, opened, hok, hcreated, hopened⟩ := h (farDataDir (base.length + 1))
  obtain ⟨hassert, dir, file, heq, hsize, rfl, rfl⟩ := newLogFile_ok_iff.mp hok
  rw [resolve_farDataDir] at hcreated hopened
  have hlen : base.length = dir.length + file.length := by
    rw [hbase, heq, List.length_append]
  have habs : Paths.isAbsolute dir = false := by
    by_contra habs
    have habs' : Paths.isAbsolute (dir ++ ['/']) = true := by
      cases dir with
      | nil => cases hsize
      | cons c dir => exact Bool.not_eq_false _ ▸ habs
    rw [Paths.push, if_pos habs'] at hcreated
    exact not_inside_farLogDir (by rw [List.length_append]; simp; omega) rfl hcreated
  have hfile : Paths.isAbsolute file = false := by
    by_contra hfile
    rw [Paths.push, if_pos (by simpa using hfile)] at hopened
    exact not_inside_farLogDir (by omega) rfl hopened
  rw [resolve_created hsize habs, resolve_farDataDir] at hcreated
  rw [resolve_opened hsize habs hfile, resolve_farDataDir] at hopened
  refine ⟨hassert, dir, file, heq, hsize, habs, ?_, ?_, hfile, ?_⟩
  · rintro rfl
    obtain ⟨-, -, x, xs, hnames⟩ := hcreated
    have hcomponents : Paths.components "..".toList = [Paths.parent] := by decide
    rw [hcomponents, List.foldl_cons, List.foldl_nil, Place.enter_parent] at hnames
    simp [farLogDir, Place.up] at hnames
  · rintro rfl
    obtain ⟨-, -, x, xs, hnames⟩ := hcreated
    have hcomponents : Paths.components "./".toList = [] := by decide
    rw [hcomponents, List.foldl_nil] at hnames
    simp at hnames
  · refine StaysBelow.of_inside ?_ hopened
    simp only [List.length_append, List.length_cons]
    omega

/-! ## Names of derivations -/

/-- A name of Nix's form is cut into two names. -/
theorem StorePath.WellFormed.cut {p : StorePath} (hp : p.WellFormed) :
    ∃ dir file, p.baseName.toList = dir ++ file ∧ Text.size dir = 2 ∧
      Paths.isAbsolute dir = false ∧ Paths.isAbsolute file = false ∧
      dir ≠ Paths.parent ∧ file ≠ Paths.parent ∧
      Paths.components dir = [dir] ∧ Paths.components file = [file] := by
  have hslash := hp.isComponent
  have hchars := hp.isNameChar
  have hlen := hp.length
  obtain ⟨hash, name, heq, hhash, hhashChars, -, -⟩ := hp
  obtain ⟨c, d, rest, rfl⟩ : ∃ c d rest, hash = c :: d :: rest := by
    match hash with
    | [] => cases hhash
    | [_] => cases hhash
    | c :: d :: rest => exact ⟨c, d, rest, rfl⟩
  have hbase : p.baseName.toList = [c, d] ++ (rest ++ '-' :: name) := heq
  rw [StorePath.IsComponent, hbase, List.mem_append, not_or] at hslash
  have hsize : Text.size [c, d] = 2 := by
    have hc := StorePath.utf8Size_of_isNameChar (hchars c (by simp [hbase]))
    have hd := StorePath.utf8Size_of_isNameChar (hchars d (by simp [hbase]))
    simp [hc, hd]
  have hlong : 32 ≤ (rest ++ '-' :: name).length := by
    have htwo : [c, d].length = 2 := rfl
    rw [hbase, List.length_append] at hlen
    omega
  have hdot : c ≠ '.' := by
    rintro rfl
    exact absurd (hhashChars '.' List.mem_cons_self) (by decide)
  have hrelative : ∀ cs : List Char, '/' ∉ cs → Paths.isAbsolute cs = false := by
    intro cs hcs
    rw [Paths.isAbsolute, decide_eq_false_iff_not]
    exact fun hhead => hcs (List.mem_of_head? hhead)
  refine ⟨[c, d], rest ++ '-' :: name, hbase, hsize, hrelative _ hslash.1, hrelative _ hslash.2,
    ?_, ?_, Paths.components_of_no_slash hslash.1 ?_ ?_,
    Paths.components_of_no_slash hslash.2 ?_ ?_⟩
  · intro h
    exact hdot (List.cons.inj h).1
  · intro h
    rw [h] at hlong
    exact absurd hlong (by decide)
  · simp
  · simp
  · simp
  · intro h
    rw [h] at hlong
    exact absurd hlong (by decide)

/-- The file of a name of Nix's form. -/
theorem newLogFile_of_wellFormed (env : NixEnv) (logDir : List Char) {p : StorePath}
    (hp : p.WellFormed) :
    ∃ created opened dir file, newLogFile env logDir p.baseName = .ok (created, opened) ∧
      p.baseName.toList = dir ++ file ∧
      Paths.resolve opened =
        { Paths.resolve logDir with names := (Paths.resolve logDir).names ++ [dir, file] } := by
  obtain ⟨dir, file, heq, hsize, habs, hfile, hdir, hfile', hcdir, hcfile⟩ := hp.cut
  have hnew := env.newStorePath_baseName hp.isComponent hp.length
  obtain ⟨hassert, hpath⟩ := NixEnv.newStorePath_ok_iff.mp hnew
  rw [hpath] at heq
  refine ⟨_, _, dir, file, newLogFile_ok_iff.mpr ⟨hassert, dir, file, heq, hsize, rfl, rfl⟩,
    hpath ▸ heq, ?_⟩
  rw [Paths.resolve_push hfile, resolve_created hsize habs, hcdir, hcfile]
  simp only [List.foldl_cons, List.foldl_nil, Place.enter_of_ne _ hdir, Place.enter_of_ne _ hfile']
  simp

/-- Two names of Nix's form have two log files. -/
def LogFilesApart (env : NixEnv) : Prop :=
  ∀ (logDir : List Char) (p q : StorePath), p.WellFormed → q.WellFormed → p ≠ q →
    ∃ createdP openedP createdQ openedQ,
      newLogFile env logDir p.baseName = .ok (createdP, openedP) ∧
      newLogFile env logDir q.baseName = .ok (createdQ, openedQ) ∧
      Paths.resolve openedP ≠ Paths.resolve openedQ

theorem logFilesApart (env : NixEnv) : LogFilesApart env := by
  intro logDir p q hp hq hne
  obtain ⟨createdP, openedP, dirP, fileP, hnewP, heqP, hopenedP⟩ :=
    newLogFile_of_wellFormed env logDir hp
  obtain ⟨createdQ, openedQ, dirQ, fileQ, hnewQ, heqQ, hopenedQ⟩ :=
    newLogFile_of_wellFormed env logDir hq
  refine ⟨_, _, _, _, hnewP, hnewQ, fun hsame => hne ?_⟩
  rw [hopenedP, hopenedQ, Place.mk.injEq] at hsame
  have hnames := List.append_cancel_left hsame.2.2
  obtain ⟨rfl, hfiles⟩ := List.cons.inj hnames
  obtain ⟨rfl, -⟩ := List.cons.inj hfiles
  exact StorePath.eq_of_toList (heqP.trans heqQ.symm)

/-- A name stays inside the log directory exactly when it is cut at the end
of a character into two relative paths that together stay below it.  Names
of Nix's form never share a file. -/
theorem logFiles_iff (env : NixEnv) (drv : String) :
    (LogFilesInside env drv ↔ LogNameSafe env drv) ∧ LogFilesApart env :=
  ⟨⟨LogFilesInside.logNameSafe, LogNameSafe.logFilesInside⟩, logFilesApart env⟩

/-- The rest of the name behind its second byte is an absolute path. -/
theorem logFiles_escape :
    ¬ ∀ (env : NixEnv) (drv : String), LogFilesInside env drv := by
  intro h
  have hinside := h ⟨true, "/nix/store"⟩ "ab/etc/cron.d/aaaaaaaaaaaaaaaaaaaaaaaa"
  rw [logFilesInside_iff_newLogFile] at hinside
  obtain ⟨created, file, hfile, -, hopened⟩ := hinside "/tmp/hydra"
  have heval : newLogFile ⟨true, "/nix/store"⟩ (hydraLogDir "/tmp/hydra")
      "ab/etc/cron.d/aaaaaaaaaaaaaaaaaaaaaaaa" =
      .ok ("/tmp/hydra/build-logs/ab/".toList,
        "/etc/cron.d/aaaaaaaaaaaaaaaaaaaaaaaa".toList) := by decide +kernel
  rw [heval] at hfile
  obtain ⟨rfl, rfl⟩ := Prod.mk.inj (Except.ok.inj hfile)
  obtain ⟨-, -, x, xs, hnames⟩ := hopened
  have hdir : (Paths.resolve (hydraLogDir "/tmp/hydra")).names =
      ["tmp".toList, "hydra".toList, "build-logs".toList] := by decide +kernel
  have hpath : (Paths.resolve "/etc/cron.d/aaaaaaaaaaaaaaaaaaaaaaaa".toList).names =
      ["etc".toList, "cron.d".toList, "aaaaaaaaaaaaaaaaaaaaaaaa".toList] := by decide +kernel
  rw [hdir, hpath] at hnames
  simp at hnames

end QueueRunner
