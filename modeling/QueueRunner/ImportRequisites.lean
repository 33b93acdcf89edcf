import QueueRunner.StorePaths

/-!
# The import of the inputs

Before a build the builder fetches what the derivation needs:
`import_requisites` of `builder/src/state.rs`.  It takes the missing
requisites, the sources first and then the derivations, and at last the full
requisites that the queue runner answers.  Each of the three lists is cut into
chunks of `max_concurrent_downloads`, a number that the queue runner sends, and
each chunk is one call of `import_paths`.

`import_paths` can filter its paths, substitute them and filter them again.  It
sends one request for what is left.  The first two phases filter every chunk.
The last one filters only once at its start, so a path that stands in two
chunks is requested twice unless the substitution filters it out.

`importSafe_iff` has the exact condition: the number is not zero, and neither
the assertion on the answered paths nor such a path gets in the way.
-/

namespace QueueRunner

/-! ## The number of downloads -/

/-- The messages of the queue runner that `handle_request` looks into. -/
inductive RunnerMessage where
  | join (maxConcurrentDownloads : UInt32)
  | configUpdate (maxConcurrentDownloads : UInt32)
  | ping
  | build
  | abort

/-- `handle_request` on `max_concurrent_downloads`. -/
def handleDownloads (current : UInt32) : RunnerMessage → UInt32
  | .join m => m
  | .configUpdate m => m
  | _ => current

/-- `max_concurrent_downloads` after the messages, as a `usize` of 64 bits. -/
def maxConcurrentDownloads (messages : List RunnerMessage) : Nat :=
  (messages.foldl handleDownloads 5).toNat

/-- The loop of `slice::chunks`. -/
def chunksLoop {α : Type} (n : Nat) : Nat → List α → List (List α)
  | _, [] => []
  | 0, _ => []
  | turns + 1, a :: l => (a :: l).take n :: chunksLoop n turns ((a :: l).drop n)

/-- `slice::chunks`, which asserts that the size is not zero. -/
def chunks {α : Type} (n : Nat) (l : List α) : Except Panic (List (List α)) :=
  if n = 0 then .error .chunkSize else .ok (chunksLoop n l.length l)

/-! ## The store of the builder -/

/-- The loops of `import_requisites`. -/
inductive ImportPhase where
  | srcs
  | drvs
  | other
deriving DecidableEq

/-- The store, the calls of `ensure_path` so far, and the requests that were
sent, each with its loop. -/
structure BuilderStore where
  valid : List StorePath
  ensured : Nat := 0
  requests : List (ImportPhase × List StorePath) := []

/-- What one `ensure_path` comes to: whether it succeeds, and which other
paths it has made valid. -/
structure Substitution where
  ok : Bool
  gained : List StorePath

/-- What the substituters and the queue runner answer: to the calls of
`ensure_path`, to the requests (`stream_files` and `import_paths` of the
store), and to `fetch_drv_requisites`. -/
structure ImportAnswers where
  ensurePath : Nat → Substitution
  request : Nat → Bool
  fetched : Bool

/-- How `import_requisites` fails. -/
inductive ImportFault where
  | panic (p : Panic)
  | error

/-- `filter_missing` on a list. -/
def filterMissing (b : BuilderStore) (paths : List StorePath) : List StorePath :=
  paths.filter (fun p => p ∉ b.valid)

section Import

variable (ans : ImportAnswers)

/-- `substitute_paths`, whose error is ignored. -/
def substitutePaths : List StorePath → BuilderStore → BuilderStore
  | [], b => b
  | p :: paths, b =>
    let sub := ans.ensurePath b.ensured
    let b :=
      { b with
        valid := (if sub.ok then p :: sub.gained else sub.gained) ++ b.valid
        ensured := b.ensured + 1 }
    if sub.ok then substitutePaths paths b else b

/-- `stream_files` and `import_paths` of the store for one request.  When they
succeed the requested paths are valid. -/
def sendRequest (phase : ImportPhase) (paths : List StorePath) (b : BuilderStore) :
    Except ImportFault Unit × BuilderStore :=
  let sent := { b with requests := b.requests ++ [(phase, paths)] }
  if ans.request b.requests.length then (.ok (), { sent with valid := paths ++ sent.valid })
  else (.error .error, sent)

/-- `import_paths`. -/
def importPaths (phase : ImportPhase) (filter useSubstitutes : Bool) (paths : List StorePath)
    (b : BuilderStore) : Except ImportFault Unit × BuilderStore :=
  let paths := if filter then filterMissing b paths else paths
  if useSubstitutes then
    let b := substitutePaths ans paths b
    let paths := filterMissing b paths
    if paths = [] then (.ok (), b) else sendRequest ans phase paths b
  else sendRequest ans phase paths b

/-- One loop over chunks. -/
def importChunks (phase : ImportPhase) (filter useSubstitutes : Bool) :
    List (List StorePath) → BuilderStore → Except ImportFault Unit × BuilderStore
  | [], b => (.ok (), b)
  | paths :: rest, b =>
    match importPaths ans phase filter useSubstitutes paths b with
    | (.ok (), b) => importChunks phase filter useSubstitutes rest b
    | (.error e, b) => (.error e, b)

/-- One loop of `import_requisites`, with the cut into chunks. -/
def importLoop (max : Nat) (phase : ImportPhase) (filter useSubstitutes : Bool)
    (paths : List StorePath) (b : BuilderStore) : Except ImportFault Unit × BuilderStore :=
  match chunks max paths with
  | .ok cs => importChunks ans phase filter useSubstitutes cs b
  | .error p => (.error (.panic p), b)

/-- `fetch_drv_requisites`, whose answers are made store paths. -/
def fetchRequisites (env : NixEnv) (full : List String) : Except ImportFault (List StorePath) :=
  if ans.fetched then (full.mapM env.newStorePath).mapError .panic else .error .error

/-- The last part of `import_requisites`. -/
def importFull (env : NixEnv) (max : Nat) (useSubstitutes : Bool) (full : List String)
    (b : BuilderStore) : Except ImportFault Unit × BuilderStore :=
  match fetchRequisites ans env full with
  | .ok fullRequisites =>
    importLoop ans max .other false useSubstitutes (filterMissing b fullRequisites) b
  | .error e => (.error e, b)

/-- The step behind `?`. -/
def andThen (r : Except ImportFault Unit × BuilderStore)
    (next : BuilderStore → Except ImportFault Unit × BuilderStore) :
    Except ImportFault Unit × BuilderStore :=
  match r with
  | (.ok (), b) => next b
  | (.error e, b) => (.error e, b)

/-- The first two loops of `import_requisites`. -/
def importInputs (max : Nat) (useSubstitutes : Bool) (requisites : List StorePath)
    (b : BuilderStore) : Except ImportFault Unit × BuilderStore :=
  let (inputDrvs, inputSrcs) := (filterMissing b requisites).partition StorePath.isDrv
  andThen (importLoop ans max .srcs true useSubstitutes inputSrcs b)
    -- never use substitute for drvs
    (importLoop ans max .drvs true false inputDrvs)

/-- `import_requisites`; `full` is what the queue runner answers. -/
def importRequisites (env : NixEnv) (max : Nat) (useSubstitutes : Bool)
    (requisites : List StorePath) (full : List String) (b : BuilderStore) :
    Except ImportFault Unit × BuilderStore :=
  andThen (importInputs ans max useSubstitutes requisites b)
    (importFull ans env max useSubstitutes full)

end Import

/-- The requests of one loop. -/
def BuilderStore.requestsOf (b : BuilderStore) (phase : ImportPhase) : List (List StorePath) :=
  (b.requests.filter (fun r => r.1 = phase)).map Prod.snd

/-- No path is in both lists. -/
def Apart (a b : List StorePath) : Prop := ∀ p ∈ a, p ∉ b

/-- The import does not panic, has everything when it succeeds, and no path is
in two requests of one loop. -/
structure ImportsAll (env : NixEnv) (requisites : List StorePath) (full : List String)
    (r : Except ImportFault Unit × BuilderStore) : Prop where
  noPanic : ∀ p, r.1 ≠ .error (.panic p)
  requisites : r.1 = .ok () → ∀ p ∈ requisites, p ∈ r.2.valid
  full : r.1 = .ok () → ∀ s ∈ full, StorePath.new env.storeDirSlash s ∈ r.2.valid
  once : ∀ phase, (r.2.requestsOf phase).Pairwise Apart

/-- The import is as it should be whatever is answered. -/
def ImportSafe (env : NixEnv) (messages : List RunnerMessage) (useSubstitutes : Bool)
    (requisites : List StorePath) (full : List String) (valid : List StorePath) : Prop :=
  ∀ ans, ImportsAll env requisites full
    (importRequisites ans env (maxConcurrentDownloads messages) useSubstitutes requisites full
      { valid := valid })

/-- The full requisites that are missing when the requisites are there, in
chunks. -/
def missingChunks (env : NixEnv) (max : Nat) (requisites : List StorePath) (full : List String)
    (valid : List StorePath) : List (List StorePath) :=
  let missing := (full.map (StorePath.new env.storeDirSlash)).filter
    (fun p => p ∉ valid ∧ p ∉ requisites)
  chunksLoop max missing.length missing

/-! ## One call of `import_paths` -/

/-- What a part of the import does for its paths: `new` are its requests. -/
structure Imports (phase : ImportPhase) (b : BuilderStore) (paths : List StorePath)
    (new : List (List StorePath)) (r : Except ImportFault Unit × BuilderStore) : Prop where
  requests : r.2.requests = b.requests ++ new.map (fun ps => (phase, ps))
  requested : ∀ ps ∈ new, ∀ p ∈ ps, p ∈ paths
  grows : ∀ p ∈ b.valid, p ∈ r.2.valid
  done : r.1 = .ok () → ∀ p ∈ paths, p ∈ r.2.valid
  noPanic : ∀ p, r.1 ≠ .error (.panic p)

/-- The requests are for missing paths, and no path is in two of them. -/
structure Fresh (b : BuilderStore) (new : List (List StorePath)) : Prop where
  missing : ∀ ps ∈ new, ∀ p ∈ ps, p ∉ b.valid
  apart : new.Pairwise Apart

section Specs

variable (ans : ImportAnswers)

theorem mem_filterMissing {b : BuilderStore} {paths : List StorePath} {p : StorePath} :
    p ∈ filterMissing b paths ↔ p ∈ paths ∧ p ∉ b.valid := by
  simp [filterMissing]

/-- Substitution adds paths and sends no request. -/
theorem substitutePaths_spec (paths : List StorePath) (b : BuilderStore) :
    (substitutePaths ans paths b).requests = b.requests ∧
      ∀ p ∈ b.valid, p ∈ (substitutePaths ans paths b).valid := by
  induction paths generalizing b with
  | nil => exact ⟨rfl, fun p hp => hp⟩
  | cons q paths ih =>
    simp only [substitutePaths]
    split_ifs with hok
    · obtain ⟨hrequests, hgrows⟩ := ih
        { b with
          valid := q :: (ans.ensurePath b.ensured).gained ++ b.valid
          ensured := b.ensured + 1 }
      exact ⟨hrequests, fun p hp => hgrows p (List.mem_append_right _ hp)⟩
    · exact ⟨rfl, fun p hp => List.mem_append_right _ hp⟩

/-- A request makes its paths valid, or it fails. -/
theorem sendRequest_spec (phase : ImportPhase) (paths : List StorePath) (b : BuilderStore) :
    Imports phase b paths [paths] (sendRequest ans phase paths b) := by
  unfold sendRequest
  split_ifs
  · exact
      { requests := rfl
        requested := fun ps hps p hp => List.mem_singleton.mp hps ▸ hp
        grows := fun p hp => List.mem_append_right _ hp
        done := fun _ p hp => List.mem_append_left _ hp
        noPanic := fun p h => by cases h }
  · exact
      { requests := rfl
        requested := fun ps hps p hp => List.mem_singleton.mp hps ▸ hp
        grows := fun p hp => hp
        done := fun h => by cases h
        noPanic := fun p h => by cases h }

/-- A call for some of the paths, when the others are valid. -/
theorem Imports.of_part {phase : ImportPhase} {b b' : BuilderStore} {part paths : List StorePath}
    {new : List (List StorePath)} {r : Except ImportFault Unit × BuilderStore}
    (h : Imports phase b' part new r) (hrequests : b'.requests = b.requests)
    (hgrows : ∀ p ∈ b.valid, p ∈ b'.valid) (hpart : ∀ p ∈ part, p ∈ paths)
    (hrest : ∀ p ∈ paths, p ∈ part ∨ p ∈ b'.valid) : Imports phase b paths new r where
  requests := hrequests ▸ h.requests
  requested ps hps p hp := hpart p (h.requested ps hps p hp)
  grows p hp := h.grows p (hgrows p hp)
  done hok p hp := (hrest p hp).elim (h.done hok p) (h.grows p)
  noPanic := h.noPanic

/-- `import_paths` sends at most one request; when it filters or substitutes,
the request is for missing paths. -/
theorem importPaths_spec (phase : ImportPhase) (filter useSubstitutes : Bool)
    (paths : List StorePath) (b : BuilderStore) :
    ∃ new, Imports phase b paths new (importPaths ans phase filter useSubstitutes paths b) ∧
      (filter = true ∨ useSubstitutes = true → Fresh b new) := by
  have hone : ∀ ps : List StorePath, (∀ p ∈ ps, p ∉ b.valid) → Fresh b [ps] :=
    fun ps hps => ⟨fun qs hqs p hp => hps p (List.mem_singleton.mp hqs ▸ hp),
      List.pairwise_singleton _ _⟩
  -- the paths behind the first filter
  obtain ⟨first, hfirst⟩ : ∃ first, (if filter then filterMissing b paths else paths) = first :=
    ⟨_, rfl⟩
  have hsub : ∀ p ∈ first, p ∈ paths := by
    intro p hp
    rw [← hfirst] at hp
    split_ifs at hp
    · exact (mem_filterMissing.mp hp).1
    · exact hp
  have hrest : ∀ p ∈ paths, p ∈ first ∨ p ∈ b.valid := by
    intro p hp
    by_cases hvalid : p ∈ b.valid
    · exact .inr hvalid
    · rw [← hfirst]
      split_ifs
      · exact .inl (mem_filterMissing.mpr ⟨hp, hvalid⟩)
      · exact .inl hp
  unfold importPaths
  simp only [hfirst]
  cases useSubstitutes with
  | false =>
    rw [if_neg Bool.false_ne_true]
    refine ⟨[first], (sendRequest_spec ans phase first b).of_part rfl (fun p hp => hp) hsub hrest,
      fun hfilter => hone first ?_⟩
    obtain rfl : filter = true := by simpa using hfilter
    rw [← hfirst, if_pos rfl]
    exact fun p hp => (mem_filterMissing.mp hp).2
  | true =>
    rw [if_pos rfl]
    obtain ⟨hrequests, hgrows⟩ := substitutePaths_spec ans first b
    -- the paths behind the second filter
    have hsub' : ∀ p ∈ filterMissing (substitutePaths ans first b) first, p ∈ paths :=
      fun p hp => hsub p (mem_filterMissing.mp hp).1
    have hrest' : ∀ p ∈ paths, p ∈ filterMissing (substitutePaths ans first b) first ∨
        p ∈ (substitutePaths ans first b).valid := by
      intro p hp
      by_cases hvalid : p ∈ (substitutePaths ans first b).valid
      · exact .inr hvalid
      · rcases hrest p hp with hp | hp
        · exact .inl (mem_filterMissing.mpr ⟨hp, hvalid⟩)
        · exact absurd (hgrows p hp) hvalid
    split_ifs with hempty
    · refine ⟨[], ?_, fun _ => ⟨by simp, List.Pairwise.nil⟩⟩
      exact
        { requests := by simpa using hrequests
          requested := by simp
          grows := hgrows
          done := fun _ p hp => by
            have hp := hrest' p hp
            rw [hempty] at hp
            exact hp.resolve_left List.not_mem_nil
          noPanic := fun p h => by cases h }
    · refine ⟨_, (sendRequest_spec ans phase _ _).of_part hrequests hgrows hsub' hrest',
        fun _ => hone _ (fun p hp hvalid => ?_)⟩
      exact (mem_filterMissing.mp hp).2 (hgrows p hvalid)

/-! ## One loop -/

/-- One part after the other. -/
theorem Imports.trans {phase : ImportPhase} {b b' : BuilderStore} {paths paths' : List StorePath}
    {new new' : List (List StorePath)} {r : Except ImportFault Unit × BuilderStore}
    (h : Imports phase b paths new (.ok (), b')) (h' : Imports phase b' paths' new' r) :
    Imports phase b (paths ++ paths') (new ++ new') r where
  requests := by rw [h'.requests, h.requests, List.map_append, List.append_assoc]
  requested ps hps p hp := by
    rcases List.mem_append.mp hps with hps | hps
    · exact List.mem_append_left _ (h.requested ps hps p hp)
    · exact List.mem_append_right _ (h'.requested ps hps p hp)
  grows p hp := h'.grows p (h.grows p hp)
  done hok p hp := by
    rcases List.mem_append.mp hp with hp | hp
    · exact h'.grows p (h.done rfl p hp)
    · exact h'.done hok p hp
  noPanic := h'.noPanic

/-- What has been requested is there and is not requested again. -/
theorem Fresh.trans {phase : ImportPhase} {b b' : BuilderStore} {paths : List StorePath}
    {new new' : List (List StorePath)} (h : Imports phase b paths new (.ok (), b'))
    (hnew : Fresh b new) (hnew' : Fresh b' new') : Fresh b (new ++ new') where
  missing ps hps p hp := by
    rcases List.mem_append.mp hps with hps | hps
    · exact hnew.missing ps hps p hp
    · exact fun hvalid => hnew'.missing ps hps p hp (h.grows p hvalid)
  apart := by
    rw [List.pairwise_append]
    refine ⟨hnew.apart, hnew'.apart, fun ps hps qs hqs p hp hq => ?_⟩
    exact hnew'.missing qs hqs p hq (h.done rfl p (h.requested ps hps p hp))

/-- A part that fails is the end. -/
theorem Imports.of_error {phase : ImportPhase} {b b' : BuilderStore} {paths : List StorePath}
    {new : List (List StorePath)} {e : ImportFault}
    (h : Imports phase b paths new (.error e, b')) (paths' : List StorePath) :
    Imports phase b (paths ++ paths') new (.error e, b') where
  requests := h.requests
  requested ps hps p hp := List.mem_append_left _ (h.requested ps hps p hp)
  grows := h.grows
  done hok := by cases hok
  noPanic := h.noPanic

theorem importChunks_spec (phase : ImportPhase) (filter useSubstitutes : Bool)
    (cs : List (List StorePath)) (b : BuilderStore) :
    ∃ new, Imports phase b cs.flatten new
        (importChunks ans phase filter useSubstitutes cs b) ∧
      (filter = true ∨ useSubstitutes = true → Fresh b new) := by
  induction cs generalizing b with
  | nil =>
    refine ⟨[], ?_, fun _ => ⟨by simp, List.Pairwise.nil⟩⟩
    exact ⟨by simp [importChunks], by simp, fun p hp => hp, fun _ p hp => by simp at hp,
      fun p h => by cases h⟩
  | cons paths cs ih =>
    obtain ⟨new, hnew, hfresh⟩ := importPaths_spec ans phase filter useSubstitutes paths b
    rw [importChunks, List.flatten_cons]
    cases hcall : importPaths ans phase filter useSubstitutes paths b with
    | mk res b' =>
      rw [hcall] at hnew
      cases res with
      | error e => exact ⟨new, hnew.of_error _, hfresh⟩
      | ok u =>
        obtain ⟨new', hnew', hfresh'⟩ := ih b'
        exact ⟨new ++ new', hnew.trans hnew',
          fun h => (hfresh h).trans hnew (hfresh' h)⟩

theorem flatten_chunksLoop {α : Type} {n : Nat} (hn : n ≠ 0) (turns : Nat) (l : List α)
    (hturns : l.length ≤ turns) : (chunksLoop n turns l).flatten = l := by
  induction turns generalizing l with
  | zero =>
    obtain rfl := List.length_eq_zero_iff.mp (Nat.le_zero.mp hturns)
    rfl
  | succ turns ih =>
    cases l with
    | nil => rfl
    | cons a l =>
      rw [chunksLoop, List.flatten_cons, ih, List.take_append_drop]
      rw [List.length_drop]
      simp only [List.length_cons] at hturns ⊢
      omega

/-- A loop makes its paths valid when the size of the chunks is not zero. -/
theorem importLoop_spec {max : Nat} (hmax : max ≠ 0) (phase : ImportPhase)
    (filter useSubstitutes : Bool) (paths : List StorePath) (b : BuilderStore) :
    ∃ new, Imports phase b paths new (importLoop ans max phase filter useSubstitutes paths b) ∧
      (filter = true ∨ useSubstitutes = true → Fresh b new) := by
  have hspec := importChunks_spec ans phase filter useSubstitutes
    (chunksLoop max paths.length paths) b
  rw [flatten_chunksLoop hmax _ _ (Nat.le_refl _)] at hspec
  rwa [importLoop, chunks, if_neg hmax]

/-! ## Without substitution -/

/-- Without substitution nothing but the paths becomes valid. -/
theorem importChunks_valid (phase : ImportPhase) (filter : Bool) (cs : List (List StorePath))
    (b : BuilderStore) :
    ∀ p ∈ (importChunks ans phase filter false cs b).2.valid, p ∈ b.valid ∨ p ∈ cs.flatten := by
  induction cs generalizing b with
  | nil => exact fun p hp => .inl hp
  | cons paths cs ih =>
    have hcall : ∀ p ∈ (importPaths ans phase filter false paths b).2.valid,
        p ∈ b.valid ∨ p ∈ paths := by
      intro p hp
      unfold importPaths at hp
      rw [if_neg Bool.false_ne_true, sendRequest] at hp
      split_ifs at hp
      · rcases List.mem_append.mp hp with hp | hp
        · exact .inr (mem_filterMissing.mp hp).1
        · exact .inl hp
      · exact (List.mem_append.mp hp).symm
      · exact .inl hp
      · exact .inl hp
    intro p hp
    rw [importChunks] at hp
    rw [List.flatten_cons, List.mem_append]
    cases hres : importPaths ans phase filter false paths b with
    | mk res b' =>
      rw [hres] at hcall hp
      cases res with
      | error e => exact (hcall p hp).imp_right .inl
      | ok u =>
        rcases ih b' p hp with hp | hp
        · exact (hcall p hp).imp_right .inl
        · exact .inr (.inr hp)

/-- Without filter and substitution every chunk is a request, up to the first
that fails. -/
theorem importChunks_requests (phase : ImportPhase) (cs : List (List StorePath))
    (b : BuilderStore) :
    ∃ sent, sent <+: cs ∧
      (importChunks ans phase false false cs b).2.requests =
        b.requests ++ sent.map (fun ps => (phase, ps)) ∧
      ((∀ n, ans.request n = true) → sent = cs) := by
  induction cs generalizing b with
  | nil => exact ⟨[], List.prefix_rfl, by simp [importChunks], fun _ => rfl⟩
  | cons paths cs ih =>
    rw [importChunks]
    simp only [importPaths, sendRequest, if_neg Bool.false_ne_true]
    by_cases hok : ans.request b.requests.length = true
    · obtain ⟨sent, hsent, hrequests, hall⟩ := ih
        { b with
          requests := b.requests ++ [(phase, paths)]
          valid := paths ++ b.valid }
      refine ⟨paths :: sent, List.cons_prefix_cons.mpr ⟨rfl, hsent⟩, ?_,
        fun h => by rw [hall h]⟩
      rw [if_pos hok]
      simpa using hrequests
    · refine ⟨[paths], List.cons_prefix_cons.mpr ⟨rfl, List.nil_prefix⟩, ?_,
        fun h => absurd (h _) hok⟩
      rw [if_neg hok]
      rfl

end Specs

/-! ## The whole import -/

/-- The requests of the three loops, one loop after the other. -/
theorem requestsOf_eq {b : BuilderStore} {srcs drvs other : List (List StorePath)}
    (hrequests : b.requests = srcs.map (fun ps => (ImportPhase.srcs, ps)) ++
      drvs.map (fun ps => (ImportPhase.drvs, ps)) ++
      other.map (fun ps => (ImportPhase.other, ps))) :
    b.requestsOf .srcs = srcs ∧ b.requestsOf .drvs = drvs ∧ b.requestsOf .other = other := by
  have hof : ∀ (phase tag : ImportPhase) (new : List (List StorePath)),
      ((new.map (fun ps => (tag, ps))).filter (fun r => r.1 = phase)).map Prod.snd =
        if tag = phase then new else [] := by
    intro phase tag new
    rw [List.filter_map, List.map_map]
    split_ifs with heq
    · simp [Function.comp_def, heq]
    · simp [Function.comp_def, heq]
  simp only [BuilderStore.requestsOf, hrequests, List.filter_append, List.map_append, hof]
  simp

theorem requestsOf_pairwise {b : BuilderStore} {srcs drvs other : List (List StorePath)}
    (hrequests : b.requests = srcs.map (fun ps => (ImportPhase.srcs, ps)) ++
      drvs.map (fun ps => (ImportPhase.drvs, ps)) ++
      other.map (fun ps => (ImportPhase.other, ps)))
    (hsrcs : srcs.Pairwise Apart) (hdrvs : drvs.Pairwise Apart) (hother : other.Pairwise Apart) :
    ∀ phase, (b.requestsOf phase).Pairwise Apart := by
  obtain ⟨hs, hd, ho⟩ := requestsOf_eq hrequests
  intro phase
  cases phase with
  | srcs => rwa [hs]
  | drvs => rwa [hd]
  | other => rwa [ho]

theorem fetchRequisites_ok {ans : ImportAnswers} {env : NixEnv} {full : List String}
    {paths : List StorePath} (h : fetchRequisites ans env full = .ok paths) :
    paths = full.map (StorePath.new env.storeDirSlash) := by
  unfold fetchRequisites at h
  split_ifs at h
  rw [Fallible.mapError_ok_iff] at h
  induction full generalizing paths with
  | nil => exact (Except.ok.inj h).symm
  | cons s full ih =>
    obtain ⟨p, ps, hp, hps, rfl⟩ := Fallible.mapM_cons_ok h
    rw [ih hps, List.map_cons, (NixEnv.newStorePath_ok_iff.mp hp).2]

/-- The answered paths have the length that `StorePath::new` asserts. -/
def FullAsserted (env : NixEnv) (full : List String) : Prop :=
  ∀ s ∈ full, env.debugAssertions = true → 33 < (env.postfixOf s).utf8ByteSize

theorem FullAsserted.fetch {env : NixEnv} {full : List String} (h : FullAsserted env full)
    (ans : ImportAnswers) (p : Panic) : fetchRequisites ans env full ≠ .error (.panic p) := by
  have hnew : Fallible.Avoids (fun e => ∃ p, e = ImportFault.panic p)
      ((full.mapM env.newStorePath).mapError .panic) := by
    refine .mapError (.mapM (fun s hs => .of_ok (NixEnv.newStorePath_ok_iff.mpr ⟨h s hs, rfl⟩)))
  intro heq
  unfold fetchRequisites at heq
  split_ifs at heq
  · exact hnew _ heq ⟨p, rfl⟩
  · cases heq

section

variable (ans : ImportAnswers) {max : Nat}

theorem importLoop_valid (phase : ImportPhase) (filter : Bool) (paths : List StorePath)
    (b : BuilderStore) :
    ∀ p ∈ (importLoop ans max phase filter false paths b).2.valid, p ∈ b.valid ∨ p ∈ paths := by
  unfold importLoop chunks
  split_ifs with hmax
  · exact fun p hp => .inl hp
  · intro p hp
    have hvalid := importChunks_valid ans phase filter (chunksLoop max paths.length paths) b p hp
    rwa [flatten_chunksLoop hmax _ _ (Nat.le_refl _)] at hvalid

/-- The first two loops. -/
theorem importInputs_spec (hmax : max ≠ 0) (useSubstitutes : Bool) (requisites : List StorePath)
    (b : BuilderStore) :
    ∃ srcs drvs : List (List StorePath),
      (importInputs ans max useSubstitutes requisites b).2.requests = b.requests ++
        srcs.map (fun ps => (ImportPhase.srcs, ps)) ++
          drvs.map (fun ps => (ImportPhase.drvs, ps)) ∧
      srcs.Pairwise Apart ∧ drvs.Pairwise Apart ∧
      (∀ p ∈ b.valid, p ∈ (importInputs ans max useSubstitutes requisites b).2.valid) ∧
      ((importInputs ans max useSubstitutes requisites b).1 = .ok () → ∀ p ∈ requisites,
        p ∈ (importInputs ans max useSubstitutes requisites b).2.valid) ∧
      ∀ p, (importInputs ans max useSubstitutes requisites b).1 ≠ .error (.panic p) := by
  obtain ⟨srcs, hsrcs, hfresh⟩ := importLoop_spec ans hmax .srcs true useSubstitutes
    ((filterMissing b requisites).filter (fun p => !p.isDrv)) b
  have happart := (hfresh (.inl rfl)).apart
  simp only [importInputs, List.partition_eq_filter_filter, Function.comp_def]
  cases hres : importLoop ans max .srcs true useSubstitutes
      ((filterMissing b requisites).filter (fun p => !p.isDrv)) b with
  | mk res b₁ =>
    rw [hres] at hsrcs
    cases res with
    | error e =>
      refine ⟨srcs, [], by simpa [andThen] using hsrcs.requests, happart, List.Pairwise.nil,
        hsrcs.grows, (fun hok => by cases hok), hsrcs.noPanic⟩
    | ok u =>
      obtain ⟨drvs, hdrvs, hfresh'⟩ := importLoop_spec ans hmax .drvs true false
        ((filterMissing b requisites).filter StorePath.isDrv) b₁
      refine ⟨srcs, drvs, ?_, happart, (hfresh' (.inl rfl)).apart,
        fun p hp => hdrvs.grows p (hsrcs.grows p hp), fun hok p hp => ?_, hdrvs.noPanic⟩
      · rw [andThen, hdrvs.requests, hsrcs.requests]
      · by_cases hvalid : p ∈ b.valid
        · exact hdrvs.grows p (hsrcs.grows p hvalid)
        have hmissing := mem_filterMissing.mpr ⟨hp, hvalid⟩
        cases hdrv : p.isDrv with
        | true => exact hdrvs.done hok p (List.mem_filter.mpr ⟨hmissing, hdrv⟩)
        | false =>
          exact hdrvs.grows p (hsrcs.done rfl p (List.mem_filter.mpr ⟨hmissing, by simp [hdrv]⟩))

/-- Without substitution the first two loops bring nothing but the
requisites. -/
theorem importInputs_valid (requisites : List StorePath) (b : BuilderStore) :
    ∀ p ∈ (importInputs ans max false requisites b).2.valid, p ∈ b.valid ∨ p ∈ requisites := by
  have hpart : ∀ (f : StorePath → Bool), ∀ p ∈ (filterMissing b requisites).filter f,
      p ∈ requisites :=
    fun f p hp => (mem_filterMissing.mp (List.mem_filter.mp hp).1).1
  simp only [importInputs, List.partition_eq_filter_filter]
  have hsrcs := @importLoop_valid ans max .srcs true
    ((filterMissing b requisites).filter (not ∘ StorePath.isDrv)) b
  cases hres : importLoop ans max .srcs true false
      ((filterMissing b requisites).filter (not ∘ StorePath.isDrv)) b with
  | mk res b₁ =>
    rw [hres] at hsrcs
    cases res with
    | error e => exact fun p hp => (hsrcs p hp).imp_right (hpart _ p)
    | ok u =>
      intro p hp
      rcases importLoop_valid ans .drvs true _ b₁ p hp with hp | hp
      · exact (hsrcs p hp).imp_right (hpart _ p)
      · exact .inr (hpart _ p hp)

/-- The last loop, with the answer of the queue runner. -/
theorem importFull_spec (hmax : max ≠ 0) {env : NixEnv} {full : List String}
    (hassert : FullAsserted env full) (useSubstitutes : Bool) (b : BuilderStore) :
    ∃ new, Imports .other b (full.map (StorePath.new env.storeDirSlash)) new
        (importFull ans env max useSubstitutes full b) ∧
      (useSubstitutes = true ∨
        (chunksLoop max (filterMissing b (full.map (StorePath.new env.storeDirSlash))).length
          (filterMissing b (full.map (StorePath.new env.storeDirSlash)))).Pairwise Apart →
        new.Pairwise Apart) := by
  unfold importFull
  cases hfetch : fetchRequisites ans env full with
  | error e =>
    refine ⟨[], ⟨by simp, by simp, fun p hp => hp, (fun hok => by cases hok), ?_⟩,
      fun _ => List.Pairwise.nil⟩
    intro p hp
    obtain rfl := Except.error.inj hp
    exact hassert.fetch ans p hfetch
  | ok paths =>
    obtain rfl := fetchRequisites_ok hfetch
    obtain ⟨new, hnew, hfresh⟩ := importLoop_spec ans hmax .other false useSubstitutes
      (filterMissing b (full.map (StorePath.new env.storeDirSlash))) b
    refine ⟨new, hnew.of_part rfl (fun p hp => hp) (fun p hp => (mem_filterMissing.mp hp).1) ?_,
      ?_⟩
    · intro p hp
      by_cases hvalid : p ∈ b.valid
      · exact .inr hvalid
      · exact .inl (mem_filterMissing.mpr ⟨hp, hvalid⟩)
    · intro h
      cases useSubstitutes with
      | true => exact (hfresh (.inr rfl)).apart
      | false =>
        have happart := h.resolve_left Bool.false_ne_true
        obtain ⟨sent, hsent, hrequests, -⟩ := importChunks_requests ans .other
          (chunksLoop max (filterMissing b (full.map (StorePath.new env.storeDirSlash))).length
            (filterMissing b (full.map (StorePath.new env.storeDirSlash)))) b
        have hlog := hnew.requests
        rw [importLoop, chunks, if_neg hmax] at hlog
        rw [hrequests, List.append_cancel_left_eq] at hlog
        have hinj : Function.Injective (fun ps : List StorePath => (ImportPhase.other, ps)) :=
          fun a b hab => (Prod.mk.inj hab).2
        rw [List.map_injective_iff.mpr hinj hlog] at hsent
        exact happart.sublist hsent.sublist

end

/-- Without substitution the paths that the last loop misses are known before
the import. -/
theorem filterMissing_full {ans : ImportAnswers} {max : Nat} (hmax : max ≠ 0)
    {requisites : List StorePath} {b : BuilderStore}
    (hok : (importInputs ans max false requisites b).1 = .ok ()) (paths : List StorePath) :
    filterMissing (importInputs ans max false requisites b).2 paths =
      paths.filter (fun p => p ∉ b.valid ∧ p ∉ requisites) := by
  obtain ⟨-, -, -, -, -, hgrows, hdone, -⟩ := importInputs_spec ans hmax false requisites b
  refine List.filter_congr (fun p _ => ?_)
  rw [decide_eq_decide, ← not_or, not_iff_not]
  exact ⟨importInputs_valid ans requisites b p, fun h => h.elim (hgrows p) (hdone hok p)⟩

/-- Under the conditions the import is safe whatever is answered. -/
theorem importSafe_of {env : NixEnv} {messages : List RunnerMessage} {useSubstitutes : Bool}
    {requisites : List StorePath} {full : List String} {valid : List StorePath}
    (hmax : maxConcurrentDownloads messages ≠ 0) (hassert : FullAsserted env full)
    (hapart : useSubstitutes = true ∨ (missingChunks env (maxConcurrentDownloads messages)
      requisites full valid).Pairwise Apart) :
    ImportSafe env messages useSubstitutes requisites full valid := by
  intro ans
  obtain ⟨srcs, drvs, hrequests, hsrcs, hdrvs, hgrows, hdone, hnoPanic⟩ :=
    importInputs_spec ans hmax useSubstitutes requisites { valid := valid }
  unfold importRequisites
  cases hres : importInputs ans (maxConcurrentDownloads messages) useSubstitutes requisites
      { valid := valid } with
  | mk res b =>
    rw [hres] at hrequests hgrows hdone hnoPanic
    cases res with
    | error e =>
      exact
        { noPanic := hnoPanic
          requisites := fun hok => by cases hok
          full := fun hok => by cases hok
          once := requestsOf_pairwise (by simpa [andThen] using hrequests) hsrcs hdrvs
            List.Pairwise.nil }
    | ok u =>
      obtain ⟨other, hother, hapart'⟩ := importFull_spec ans hmax hassert useSubstitutes b
      refine
        { noPanic := hother.noPanic
          requisites := fun hok p hp => hother.grows p (hdone rfl p hp)
          full := fun hok s hs => hother.done hok _ (List.mem_map_of_mem hs)
          once := requestsOf_pairwise (by rw [andThen, hother.requests, hrequests]; rfl) hsrcs
            hdrvs (hapart' ?_) }
      cases useSubstitutes with
      | true => exact .inl rfl
      | false =>
        have hmissing := filterMissing_full hmax (congrArg Prod.fst hres)
          (full.map (StorePath.new env.storeDirSlash))
        rw [hres] at hmissing
        rw [hmissing]
        exact hapart

/-! ## When the import is not safe -/

/-- Everything is answered and nothing can be substituted. -/
def allAnswered : ImportAnswers where
  ensurePath _ := ⟨false, []⟩
  request _ := true
  fetched := true

theorem importChunks_allAnswered (phase : ImportPhase) (filter useSubstitutes : Bool)
    (cs : List (List StorePath)) (b : BuilderStore) :
    (importChunks allAnswered phase filter useSubstitutes cs b).1 = .ok () := by
  induction cs generalizing b with
  | nil => rfl
  | cons paths cs ih =>
    have hcall : (importPaths allAnswered phase filter useSubstitutes paths b).1 = .ok () := by
      unfold importPaths
      simp only
      split_ifs <;> rfl
    rw [importChunks]
    cases hres : importPaths allAnswered phase filter useSubstitutes paths b with
    | mk res b' =>
      rw [hres] at hcall
      obtain rfl : res = .ok () := hcall
      exact ih b'

theorem importInputs_allAnswered {max : Nat} (hmax : max ≠ 0) (useSubstitutes : Bool)
    (requisites : List StorePath) (b : BuilderStore) :
    (importInputs allAnswered max useSubstitutes requisites b).1 = .ok () := by
  have hloop : ∀ phase filter useSubstitutes paths b,
      (importLoop allAnswered max phase filter useSubstitutes paths b).1 = .ok () := by
    intro phase filter useSubstitutes paths b
    rw [importLoop, chunks, if_neg hmax]
    exact importChunks_allAnswered phase filter useSubstitutes _ b
  simp only [importInputs, List.partition_eq_filter_filter]
  cases hres : importLoop allAnswered max .srcs true useSubstitutes
      ((filterMissing b requisites).filter (not ∘ StorePath.isDrv)) b with
  | mk res b₁ =>
    obtain rfl : res = .ok () := by rw [← hloop .srcs true useSubstitutes, hres]
    exact hloop .drvs true false _ b₁

theorem fetch_allAnswered {env : NixEnv} {full : List String} (h : FullAsserted env full) :
    fetchRequisites allAnswered env full = .ok (full.map (StorePath.new env.storeDirSlash)) := by
  cases hfetch : fetchRequisites allAnswered env full with
  | ok paths => rw [fetchRequisites_ok hfetch]
  | error e =>
    cases e with
    | panic p => exact absurd hfetch (h.fetch allAnswered p)
    | error =>
      rw [fetchRequisites] at hfetch
      cases hnew : full.mapM env.newStorePath with
      | ok paths =>
        rw [hnew] at hfetch
        cases hfetch
      | error p =>
        rw [hnew] at hfetch
        cases hfetch

/-- A safe import has a size of chunks. -/
theorem ImportSafe.max_ne_zero {env : NixEnv} {messages : List RunnerMessage}
    {useSubstitutes : Bool} {requisites : List StorePath} {full : List String}
    {valid : List StorePath} (h : ImportSafe env messages useSubstitutes requisites full valid) :
    maxConcurrentDownloads messages ≠ 0 := by
  intro hzero
  refine (h allAnswered).noPanic .chunkSize ?_
  rw [hzero]
  simp only [importRequisites, importInputs, importLoop, chunks, if_pos, andThen]

/-- In a safe import the answered paths are as long as is asserted. -/
theorem ImportSafe.fullAsserted {env : NixEnv} {messages : List RunnerMessage}
    {useSubstitutes : Bool} {requisites : List StorePath} {full : List String}
    {valid : List StorePath} (h : ImportSafe env messages useSubstitutes requisites full valid) :
    FullAsserted env full := by
  have hinputs := importInputs_allAnswered h.max_ne_zero useSubstitutes requisites
    { valid := valid }
  have hsafe := (h allAnswered).noPanic
  unfold importRequisites at hsafe
  cases hres : importInputs allAnswered (maxConcurrentDownloads messages) useSubstitutes
      requisites { valid := valid } with
  | mk res b =>
    rw [hres] at hinputs hsafe
    obtain rfl : res = .ok () := hinputs
    simp only [andThen, importFull] at hsafe
    cases hnew : full.mapM env.newStorePath with
    | ok paths =>
      intro s hs
      obtain ⟨p, -, hp⟩ := Fallible.mapM_ok_forall hnew s hs
      exact (NixEnv.newStorePath_ok_iff.mp hp).1
    | error p =>
      have hfetch : fetchRequisites allAnswered env full = .error (.panic p) := by
        rw [fetchRequisites, hnew]
        rfl
      rw [hfetch] at hsafe
      exact absurd rfl (hsafe p)

/-- In a safe import without substitution no path is in two chunks. -/
theorem ImportSafe.missingChunks_pairwise {env : NixEnv} {messages : List RunnerMessage}
    {requisites : List StorePath} {full : List String} {valid : List StorePath}
    (h : ImportSafe env messages false requisites full valid) :
    (missingChunks env (maxConcurrentDownloads messages) requisites full valid).Pairwise
      Apart := by
  have hmax := h.max_ne_zero
  have hinputs := importInputs_allAnswered hmax false requisites { valid := valid }
  have hmissing := filterMissing_full hmax hinputs (full.map (StorePath.new env.storeDirSlash))
  obtain ⟨srcs, drvs, hrequests, -⟩ :=
    importInputs_spec allAnswered hmax false requisites { valid := valid }
  have honce := (h allAnswered).once .other
  unfold importRequisites at honce
  cases hres : importInputs allAnswered (maxConcurrentDownloads messages) false requisites
      { valid := valid } with
  | mk res b =>
    rw [hres] at hinputs hmissing hrequests honce
    obtain rfl : res = .ok () := hinputs
    have hfetch := fetch_allAnswered h.fullAsserted
    simp only [andThen, importFull, hfetch, hmissing, importLoop, chunks, if_neg hmax] at honce
    obtain ⟨sent, -, hsent, hall⟩ := importChunks_requests allAnswered .other
      (missingChunks env (maxConcurrentDownloads messages) requisites full valid) b
    obtain rfl := hall (fun _ => rfl)
    obtain ⟨-, -, hother⟩ := requestsOf_eq (hsent.trans (by rw [hrequests]; rfl))
    rw [missingChunks] at hother ⊢
    rwa [hother] at honce

/-- The import is safe exactly when the size of the chunks is not zero, the
answered paths are as long as is asserted, and substitution is on or no path
is in two chunks of the last loop. -/
theorem importSafe_iff (env : NixEnv) (messages : List RunnerMessage) (useSubstitutes : Bool)
    (requisites : List StorePath) (full : List String) (valid : List StorePath) :
    ImportSafe env messages useSubstitutes requisites full valid ↔
      maxConcurrentDownloads messages ≠ 0 ∧ FullAsserted env full ∧
        (useSubstitutes = true ∨ (missingChunks env (maxConcurrentDownloads messages) requisites
          full valid).Pairwise Apart) := by
  constructor
  · intro h
    refine ⟨h.max_ne_zero, h.fullAsserted, ?_⟩
    cases useSubstitutes with
    | true => exact .inl rfl
    | false => exact .inr h.missingChunks_pairwise
  · rintro ⟨hmax, hassert, hapart⟩
    exact importSafe_of hmax hassert hapart

/-- A `ConfigUpdate` with the number zero makes the next import panic. -/
theorem importSafe_fails :
    ¬ ∀ env messages useSubstitutes requisites full valid,
      ImportSafe env messages useSubstitutes requisites full valid := by
  intro h
  exact (h ⟨false, "/nix/store"⟩ [.join 5, .configUpdate 0] false [] [] []).max_ne_zero (by decide)

end QueueRunner
