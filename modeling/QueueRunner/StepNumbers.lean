import QueueRunner.Lib.ReadCommitted
import QueueRunner.Lib.Run
import QueueRunner.Machines

/-!
# The allocation of step numbers

`create_build_step` and `create_substitution_step` of
`crates/db/src/connection.rs` give a row of `buildsteps` its number.  They
read the largest number of the build, try to insert a row with the next one,
and start again when the number is taken.  Any number of transactions run at
the same time, each of them makes such calls one after the other, and then
commits or is rolled back.

`StepDb` is the table with the calls under way.  Each `SELECT MAX` and each
`INSERT` is one step.  The rest of the state is a history: what the calls
returned, and which rows were committed, in that order.

`Allocated` is the invariant: the rows and versions are those of the calls,
no two of them share a number, and a number that a call has read and that is
taken now was committed by another transaction since then.
-/

namespace QueueRunner

/-- `models::BuildType`. -/
inductive BuildType where
  | build
  | substitution
deriving DecidableEq, Repr

/-- `InsertBuildStep`. -/
structure InsertBuildStep where
  buildId : BuildID
  stepNr : Int
  type : BuildType
  drvPath : String
  status : BuildStatus
  busy : Bool
  startTime : Option Int
  stopTime : Option Int
  platform : Option String
  propagatedFrom : Option BuildID
  errorMsg : Option String
  machine : String
deriving DecidableEq, Repr

/-- The primary key of `buildsteps`. -/
abbrev StepKey := BuildID × Int

/-- The key of a row. -/
def InsertBuildStep.key (row : InsertBuildStep) : StepKey := (row.buildId, row.stepNr)

/-- A call of `create_build_step` or of `create_substitution_step`. -/
inductive CreateCall where
  | buildStep (startTime : Option Int) (buildId : BuildID) (drvPath : String)
      (platform : Option String) (machine : String) (status : BuildStatus)
      (errorMsg : Option String) (propagatedFrom : Option BuildID)
  | substitutionStep (startTime stopTime : Int) (buildId : BuildID) (drvPath : String)
deriving DecidableEq, Repr

namespace CreateCall

/-- The argument `build_id`. -/
def buildId : CreateCall → BuildID
  | .buildStep _ buildId _ _ _ _ _ _ => buildId
  | .substitutionStep _ _ buildId _ => buildId

/-- The row that the call inserts under a number. -/
def row (c : CreateCall) (stepNr : Int) : InsertBuildStep :=
  match c with
  | .buildStep startTime buildId drvPath platform machine status errorMsg propagatedFrom =>
    { buildId := buildId
      stepNr := stepNr
      type := .build
      drvPath := drvPath
      status := status
      busy := status = .busy
      startTime := startTime
      stopTime := if status = .busy then none else startTime
      platform := platform
      propagatedFrom := propagatedFrom
      errorMsg := errorMsg
      machine := machine }
  | .substitutionStep startTime stopTime buildId drvPath =>
    { buildId := buildId
      stepNr := stepNr
      type := .substitution
      drvPath := drvPath
      status := .success
      busy := false
      startTime := some startTime
      stopTime := some stopTime
      platform := none
      propagatedFrom := none
      errorMsg := none
      machine := "" }

theorem key_row (c : CreateCall) (stepNr : Int) : (c.row stepNr).key = (c.buildId, stepNr) := by
  cases c <;> rfl

end CreateCall

/-- Where a transaction is. -/
inductive TxStatus where
  | running
  | committed
  | rolledBack
deriving DecidableEq, Repr

/-- A call under way.  `selected` is the number that the last `SELECT MAX`
led to, with the length of the history of commits at that time; `since` is
that length when the call started. -/
structure AllocCall where
  call : CreateCall
  since : Nat
  selected : Option (Int × Nat) := none
  iterations : Nat := 0
deriving DecidableEq, Repr

/-- A call that has returned its number.  `rivals` counts the rows of the
build that other transactions committed while it ran. -/
structure Returned where
  tx : Nat
  key : StepKey
  row : InsertBuildStep
  iterations : Nat
  rivals : Nat
deriving DecidableEq, Repr

/-- The table `buildsteps` with its transactions. -/
structure StepDb where
  table : ReadCommitted.Table StepKey InsertBuildStep := {}
  status : Map Nat TxStatus := ∅
  calls : Map Nat AllocCall := ∅
  returned : List Returned := []
  /-- The rows that were committed, with their transactions, oldest first. -/
  commits : List (Nat × StepKey) := []

/-- The steps of the transactions. -/
inductive StepDbAction where
  | begin (t : Nat)
  | call (t : Nat) (c : CreateCall)
  | selectMax (t : Nat)
  | insert (t : Nat)
  | commit (t : Nat)
  | rollback (t : Nat)
deriving DecidableEq, Repr

/-- `v + 1` on an `i32`.  At the end of the range a build with overflow checks
panics here, which is the case `none`; without them the sum wraps. -/
def i32Succ (v : Int) : Option Int := if v + 1 < 2 ^ 31 then some (v + 1) else none

namespace StepDb

/-- The numbers of the build that a statement of the transaction sees. -/
def visibleNumbers (d : StepDb) (t : Nat) (buildId : BuildID) : List Int :=
  ((d.table.rows.keys ++ ((d.table.versions.lookup t).getD ∅).keys).filter
    (fun k => k.1 = buildId)).map Prod.snd

/-- `alloc_build_step`; nothing when the sum overflows. -/
def allocBuildStep (d : StepDb) (t : Nat) (buildId : BuildID) : Option Int :=
  match (d.visibleNumbers t buildId).max? with
  | none => some 1
  | some v => i32Succ v

/-- The rows of the build that other transactions committed between two
points of the history. -/
def rivalsBetween (d : StepDb) (t : Nat) (buildId : BuildID) (since upTo : Nat) : Nat :=
  ((d.commits.take upTo).drop since).countP (fun e => e.1 ≠ t ∧ e.2.1 = buildId)

/-- A transaction ends without a commit. -/
def endTx (d : StepDb) (t : Nat) : StepDb :=
  { d with
    table := d.table.rollback t
    status := d.status.insert t .rolledBack
    calls := d.calls.erase t }

/-- One statement.  An `INSERT` that has to wait is not enabled. -/
def next (d : StepDb) : StepDbAction → Option StepDb
  | .begin t =>
    match d.status.lookup t with
    | some _ => none
    | none => some { d with table := d.table.begin t, status := d.status.insert t .running }
  | .call t c =>
    if d.status.lookup t = some .running ∧ d.calls.lookup t = none then
      some { d with calls := d.calls.insert t { call := c, since := d.commits.length } }
    else none
  | .selectMax t =>
    match d.calls.lookup t with
    | some ⟨c, since, none, iterations⟩ =>
      match d.allocBuildStep t c.buildId with
      | some nr =>
        let call := ⟨c, since, some (nr, d.commits.length), iterations + 1⟩
        some { d with calls := d.calls.insert t call }
      -- the call panics, and its transaction is dropped
      | none => some (d.endTx t)
    | _ => none
  | .insert t =>
    match d.calls.lookup t with
    | some ⟨c, since, some (nr, _), iterations⟩ =>
      match d.table.insertNew t (c.buildId, nr) (c.row nr) with
      | none => none
      | some (table, true) =>
        let rivals := d.rivalsBetween t c.buildId since d.commits.length
        some { d with
          table := table
          calls := d.calls.erase t
          returned := ⟨t, (c.buildId, nr), c.row nr, iterations, rivals⟩ :: d.returned }
      | some (table, false) => some { d with
          table := table
          calls := d.calls.insert t ⟨c, since, none, iterations⟩ }
    | _ => none
  | .commit t =>
    if d.status.lookup t = some .running ∧ d.calls.lookup t = none then
      some { d with
        table := d.table.commit t
        status := d.status.insert t .committed
        commits := d.commits ++
          ((d.table.versions.lookup t).getD ∅).keys.map (fun k => (t, k)) }
    else none
  | .rollback t =>
    if d.status.lookup t = some .running then some (d.endTx t) else none

/-- A table with rows and no open transaction. -/
def start (rows : Map StepKey InsertBuildStep) : StepDb := { table := { rows := rows } }

/-- The call belongs to a transaction that has committed. -/
def isCommitted (d : StepDb) (e : Returned) : Bool :=
  d.status.lookup e.tx = some .committed

/-! ## The numbers of a run -/

/-- The step numbers of a state that a run has reached from a table with
the rows `rows₀`. -/
structure StepNumbers (rows₀ : Map StepKey InsertBuildStep) (d : StepDb) : Prop where
  /-- The numbers that committed transactions were given are distinct. -/
  distinct : ((d.returned.filter d.isCommitted).map Returned.key).Nodup
  /-- The row under such a number is the one its call wrote, -/
  row : ∀ e ∈ d.returned, d.isCommitted e = true → d.table.rows.lookup e.key = some e.row
  /-- with the build and the number in it. -/
  key : ∀ e ∈ d.returned, e.row.key = e.key
  /-- And every committed row was written by such a call. -/
  written : ∀ k v, d.table.rows.lookup k = some v → rows₀.lookup k = some v ∨
    ∃ e ∈ d.returned, d.isCommitted e = true ∧ e.key = k ∧ e.row = v
  /-- When the loop starts again, another transaction has committed the number
  since the call has read the maximum. -/
  repeats : ∀ t c since nr seen iterations d',
    d.calls.lookup t = some ⟨c, since, some (nr, seen), iterations⟩ →
    d.next (.insert t) = some d' → (d'.calls.lookup t).isSome = true →
    ∃ t', t' ≠ t ∧ (t', (c.buildId, nr)) ∈ d.commits.drop seen
  /-- A call has made at most one iteration more than rows of its build were
  committed by others while it ran. -/
  iterations : ∀ t c, d.calls.lookup t = some c →
    c.iterations ≤ d.rivalsBetween t c.call.buildId c.since d.commits.length + 1
  iterationsReturned : ∀ e ∈ d.returned, e.iterations ≤ e.rivals + 1

/-! ## What a statement reads -/

section Reads

variable {d : StepDb} {t : Nat} {buildId : BuildID} {nr : Int}

/-- A number that the transaction sees is in the list. -/
theorem mem_visibleNumbers (h : (d.table.visible t (buildId, nr)).isSome = true) :
    nr ∈ d.visibleNumbers t buildId := by
  have hkey : (buildId, nr) ∈ d.table.rows.keys ++ ((d.table.versions.lookup t).getD ∅).keys := by
    rw [List.mem_append]
    cases hv : d.table.version t (buildId, nr) with
    | none =>
      rw [ReadCommitted.Table.visible, hv, Option.none_or] at h
      exact Or.inl (AList.mem_keys.mp (AList.lookup_isSome.mp h))
    | some v =>
      obtain ⟨m, hm, hrow⟩ := Option.bind_eq_some_iff.mp hv
      right
      rw [hm, Option.getD_some]
      exact AList.mem_keys.mp (AList.lookup_isSome.mp (by simp [hrow]))
  exact List.mem_map.mpr ⟨(buildId, nr), List.mem_filter.mpr ⟨hkey, by simp⟩, rfl⟩

/-- `alloc_build_step` gives a number that the transaction does not see. -/
theorem visible_allocBuildStep (h : d.allocBuildStep t buildId = some nr) :
    d.table.visible t (buildId, nr) = none := by
  by_contra hcontra
  have hmem := mem_visibleNumbers (Option.ne_none_iff_isSome.mp hcontra)
  unfold allocBuildStep at h
  cases hmax : (d.visibleNumbers t buildId).max? with
  | none =>
    rw [List.max?_eq_none_iff] at hmax
    rw [hmax] at hmem
    cases hmem
  | some v =>
    have hle := (List.max?_eq_some_iff.mp hmax).2 nr hmem
    simp only [hmax, i32Succ] at h
    split_ifs at h
    obtain rfl := Option.some.inj h
    omega

end Reads

/-! ## The rivals of a call -/

section Rivals

variable {d d' : StepDb} {t : Nat} {buildId : BuildID} {since seen : Nat}

/-- Later commits do not change what was committed before. -/
theorem rivalsBetween_append {new : List (Nat × StepKey)} (hcommits : d'.commits = d.commits ++ new)
    (hseen : seen ≤ d.commits.length) :
    d'.rivalsBetween t buildId since seen = d.rivalsBetween t buildId since seen := by
  simp only [rivalsBetween, hcommits, List.take_append_of_le_length hseen]

theorem rivalsBetween_mono {upTo : Nat} (h : seen ≤ upTo) :
    d.rivalsBetween t buildId since seen ≤ d.rivalsBetween t buildId since upTo := by
  unfold rivalsBetween
  apply List.Sublist.countP_le
  exact List.Sublist.drop ((List.take_prefix_take_left h).sublist) since

/-- A row that another transaction has committed since then counts. -/
theorem rivalsBetween_lt {t' : Nat} {nr : Int} (hne : t' ≠ t) (hsince : since ≤ seen)
    (hseen : seen ≤ d.commits.length) (h : (t', (buildId, nr)) ∈ d.commits.drop seen) :
    d.rivalsBetween t buildId since seen + 1 ≤
      d.rivalsBetween t buildId since d.commits.length := by
  have hsplit : d.commits.drop since =
      (d.commits.take seen).drop since ++ d.commits.drop seen := by
    conv => lhs; rw [← List.take_append_drop seen d.commits]
    rw [List.drop_append_of_le_length (by simpa [hseen] using hsince)]
  have hpos : 0 < (d.commits.drop seen).countP (fun e => e.1 ≠ t ∧ e.2.1 = buildId) :=
    List.countP_pos_iff.mpr ⟨_, h, by simp [hne]⟩
  unfold rivalsBetween
  rw [List.take_length, hsplit, List.countP_append]
  omega

end Rivals

/-! ## The invariant -/

/-- What holds of a call under way.  Before its `SELECT` every iteration has
had its rival; after it one more may come. -/
def CallOk (d : StepDb) (t : Nat) (c : AllocCall) : Prop :=
  c.since ≤ d.commits.length ∧
    match c.selected with
    | none => c.iterations ≤ d.rivalsBetween t c.call.buildId c.since d.commits.length
    | some (nr, seen) =>
      c.since ≤ seen ∧ seen ≤ d.commits.length ∧
        c.iterations ≤ d.rivalsBetween t c.call.buildId c.since seen + 1 ∧
        d.table.version t (c.call.buildId, nr) = none ∧
        ((d.table.rows.lookup (c.call.buildId, nr)).isSome = true →
          ∃ t', t' ≠ t ∧ (t', (c.call.buildId, nr)) ∈ d.commits.drop seen)

/-- A call stays in order when others commit rows, and what it has written
stays as it is. -/
theorem CallOk.mono {d d' : StepDb} {t : Nat} {c : AllocCall} (h : d.CallOk t c)
    {new : List (Nat × StepKey)} (hcommits : d'.commits = d.commits ++ new)
    (hversion : ∀ k, d'.table.version t k = d.table.version t k)
    (hrows : ∀ k, (d'.table.rows.lookup k).isSome = true →
      (d.table.rows.lookup k).isSome = true ∨ ∃ t', t' ≠ t ∧ (t', k) ∈ new) :
    d'.CallOk t c := by
  obtain ⟨hsince, hrest⟩ := h
  have hlength : d.commits.length ≤ d'.commits.length := by simp [hcommits]
  refine ⟨hsince.trans hlength, ?_⟩
  revert hrest
  cases c.selected with
  | none =>
    intro hle
    refine hle.trans ?_
    rw [← rivalsBetween_append hcommits le_rfl]
    exact rivalsBetween_mono hlength
  | some sel =>
    obtain ⟨nr, seen⟩ := sel
    rintro ⟨hseen, hle, hiter, hnone, hrival⟩
    refine ⟨hseen, hle.trans hlength, ?_, ?_, fun hrow => ?_⟩
    · rwa [rivalsBetween_append hcommits hle]
    · rw [hversion]
      exact hnone
    · rw [hcommits, List.drop_append_of_le_length hle]
      rcases hrows _ hrow with hrow | ⟨t', ht', hmem⟩
      · obtain ⟨t', ht', hmem⟩ := hrival hrow
        exact ⟨t', ht', List.mem_append_left _ hmem⟩
      · exact ⟨t', ht', List.mem_append_right _ hmem⟩

/-- The call belongs to a transaction that was not rolled back. -/
def isLive (d : StepDb) (e : Returned) : Bool :=
  d.status.lookup e.tx ≠ some .rolledBack

/-- The rows and the versions are those of the calls that have returned. -/
structure Consistent (rows₀ : Map StepKey InsertBuildStep) (d : StepDb) : Prop where
  exclusive : d.table.Exclusive
  running : ∀ t, (d.table.versions.lookup t).isSome = true ↔ d.status.lookup t = some .running
  known : ∀ e ∈ d.returned, (d.status.lookup e.tx).isSome = true
  version : ∀ e ∈ d.returned, d.status.lookup e.tx = some .running →
    d.table.version e.tx e.key = some e.row
  entry : ∀ t k v, d.table.version t k = some v →
    ∃ e ∈ d.returned, e.tx = t ∧ e.key = k ∧ e.row = v
  row : ∀ e ∈ d.returned, d.isCommitted e = true → d.table.rows.lookup e.key = some e.row
  key : ∀ e ∈ d.returned, e.row.key = e.key
  written : ∀ k v, d.table.rows.lookup k = some v → rows₀.lookup k = some v ∨
    ∃ e ∈ d.returned, d.isCommitted e = true ∧ e.key = k ∧ e.row = v
  fresh : ∀ t k, (d.table.version t k).isSome = true → d.table.rows.lookup k = none
  distinct : ((d.returned.filter d.isLive).map Returned.key).Nodup
  calls : ∀ t c, d.calls.lookup t = some c →
    d.status.lookup t = some .running ∧ d.CallOk t c
  iterations : ∀ e ∈ d.returned, e.iterations ≤ e.rivals + 1

namespace Consistent

variable {rows₀ : Map StepKey InsertBuildStep} {d d' : StepDb} {t : Nat}

theorem start (rows₀ : Map StepKey InsertBuildStep) : Consistent rows₀ (StepDb.start rows₀) where
  exclusive t t' k h _ := by simp [StepDb.start, ReadCommitted.Table.version] at h
  running t := by simp [StepDb.start]
  known e he := by cases he
  version e he := by cases he
  entry t k v h := by simp [StepDb.start, ReadCommitted.Table.version] at h
  row e he := by cases he
  key e he := by cases he
  written k v h := .inl h
  fresh t k h := by simp [StepDb.start, ReadCommitted.Table.version] at h
  distinct := List.nodup_nil
  calls t c h := by simp [StepDb.start] at h
  iterations e he := by cases he

/-- Only the calls change. -/
theorem of_calls (h : Consistent rows₀ d) (calls : Map Nat AllocCall)
    (hcalls : ∀ t c, calls.lookup t = some c →
      d.status.lookup t = some .running ∧ d.CallOk t c) :
    Consistent rows₀ { d with calls := calls } :=
  { exclusive := h.exclusive
    running := h.running
    known := h.known
    version := h.version
    entry := h.entry
    row := h.row
    key := h.key
    written := h.written
    fresh := h.fresh
    distinct := h.distinct
    calls := hcalls
    iterations := h.iterations }

/-- One call changes. -/
theorem setCall (h : Consistent rows₀ d) {c : AllocCall}
    (hrunning : d.status.lookup t = some .running) (hc : d.CallOk t c) :
    Consistent rows₀ { d with calls := d.calls.insert t c } := by
  apply h.of_calls
  intro t' c' hc'
  rw [Map.lookup_insert_eq] at hc'
  split_ifs at hc' with ht
  · obtain rfl := Option.some.inj hc'
    subst ht
    exact ⟨hrunning, hc⟩
  · exact h.calls t' c' hc'

theorem call (h : Consistent rows₀ d) {c : CreateCall} (hnext : d.next (.call t c) = some d') :
    Consistent rows₀ d' := by
  simp only [StepDb.next] at hnext
  split_ifs at hnext with hguard
  obtain rfl := Option.some.inj hnext
  exact h.setCall hguard.1 ⟨le_rfl, Nat.zero_le _⟩

/-- The versions of the transaction are dropped. -/
theorem endTx (h : Consistent rows₀ d) (hrunning : d.status.lookup t = some .running) :
    Consistent rows₀ (d.endTx t) := by
  have hversion : ∀ t' k, (d.endTx t).table.version t' k =
      if t' = t then none else d.table.version t' k :=
    fun t' k => ReadCommitted.Table.version_erase d.table _ t t' k
  have hstatus : ∀ t', (d.endTx t).status.lookup t' =
      if t' = t then some .rolledBack else d.status.lookup t' :=
    fun t' => Map.lookup_insert_eq _ _ _ _
  have hcommitted : ∀ e, (d.endTx t).isCommitted e = d.isCommitted e := by
    intro e
    simp only [isCommitted, hstatus]
    by_cases he : e.tx = t
    · subst he
      simp [hrunning]
    · simp [he]
  have hsome : ∀ t' k v, (d.endTx t).table.version t' k = some v →
      t' ≠ t ∧ d.table.version t' k = some v := by
    intro t' k v hv
    rw [hversion] at hv
    split_ifs at hv with ht
    exact ⟨ht, hv⟩
  refine
    { exclusive := ?_
      running := ?_
      known := ?_
      version := ?_
      entry := fun t' k v hv => h.entry t' k v (hsome t' k v hv).2
      row := fun e he hc => h.row e he (by rwa [hcommitted] at hc)
      key := h.key
      written := ?_
      fresh := ?_
      distinct := ?_
      calls := ?_
      iterations := h.iterations }
  · refine ReadCommitted.Table.exclusive_of_versions h.exclusive (fun t' k hv => ?_)
    obtain ⟨v, hv⟩ := Option.isSome_iff_exists.mp hv
    simp [(hsome t' k v hv).2]
  · intro t'
    rw [hstatus]
    simp only [StepDb.endTx, ReadCommitted.Table.rollback, Map.lookup_erase_eq]
    by_cases ht : t' = t
    · simp [ht]
    · simpa [ht] using h.running t'
  · intro e he
    rw [hstatus]
    split_ifs
    · rfl
    · exact h.known e he
  · intro e he hr
    rw [hstatus] at hr
    split_ifs at hr with ht
    · cases hr
    · rw [hversion, if_neg ht]
      exact h.version e he hr
  · intro k v hv
    rcases h.written k v hv with hv | ⟨e, he, hc, hk⟩
    · exact .inl hv
    · exact .inr ⟨e, he, by rwa [hcommitted], hk⟩
  · intro t' k hv
    obtain ⟨v, hv⟩ := Option.isSome_iff_exists.mp hv
    exact h.fresh t' k (by simp [(hsome t' k v hv).2])
  · refine h.distinct.sublist (List.Sublist.map _ (List.monotone_filter_right _ ?_))
    intro e he
    simp only [isLive, hstatus, decide_eq_true_eq] at he ⊢
    split_ifs at he with ht
    · exact absurd rfl he
    · exact he
  · intro t' c hc
    simp only [StepDb.endTx, Map.lookup_erase_eq] at hc
    split_ifs at hc with ht
    obtain ⟨hr, hok⟩ := h.calls t' c hc
    exact ⟨by rw [hstatus, if_neg ht]; exact hr, hok.mono (List.append_nil _).symm
      (fun k => by rw [hversion, if_neg ht]) (fun k => .inl)⟩

theorem begin (h : Consistent rows₀ d) (hnext : d.next (.begin t) = some d') :
    Consistent rows₀ d' := by
  simp only [StepDb.next] at hnext
  split at hnext
  · cases hnext
  · rename_i hnew
    obtain rfl := Option.some.inj hnext
    have hnone : d.table.versions.lookup t = none := by
      by_contra hcontra
      have := (h.running t).mp (Option.isSome_iff_ne_none.mpr hcontra)
      rw [hnew] at this
      cases this
    have hversion := ReadCommitted.Table.version_begin d.table hnone
    have hstatus : ∀ t', (d.status.insert t TxStatus.running).lookup t' =
        if t' = t then some .running else d.status.lookup t' :=
      fun t' => Map.lookup_insert_eq _ _ _ _
    -- no call of the history belongs to the new transaction
    have hother : ∀ e ∈ d.returned, e.tx ≠ t := by
      intro e he ht
      have hknown := h.known e he
      rw [ht, hnew] at hknown
      cases hknown
    have hsame : ∀ e ∈ d.returned, (d.status.insert t TxStatus.running).lookup e.tx =
        d.status.lookup e.tx := by
      intro e he
      rw [hstatus, if_neg (hother e he)]
    refine
      { exclusive := ?_
        running := ?_
        known := fun e he => by rw [hsame e he]; exact h.known e he
        version := fun e he hr => by
          rw [hversion]
          exact h.version e he (by rwa [hsame e he] at hr)
        entry := fun t' k v hv => h.entry t' k v (by rwa [hversion] at hv)
        row := fun e he hc => h.row e he (by rwa [isCommitted, hsame e he] at hc)
        key := h.key
        written := ?_
        fresh := fun t' k hv => h.fresh t' k (by rwa [hversion] at hv)
        distinct := ?_
        calls := ?_
        iterations := h.iterations }
    · exact ReadCommitted.Table.exclusive_of_versions h.exclusive
        (fun t' k hv => by rwa [hversion] at hv)
    · intro t'
      rw [hstatus]
      simp only [ReadCommitted.Table.begin, Map.lookup_insert_eq]
      by_cases ht : t' = t
      · simp [ht]
      · simpa [ht] using h.running t'
    · intro k v hv
      rcases h.written k v hv with hv | ⟨e, he, hc, hk⟩
      · exact .inl hv
      · exact .inr ⟨e, he, by rw [isCommitted, hsame e he]; exact hc, hk⟩
    · have hfilter : d.returned.filter (fun e => decide
          ((d.status.insert t TxStatus.running).lookup e.tx ≠ some .rolledBack)) =
          d.returned.filter d.isLive :=
        List.filter_congr (fun e he => by rw [hsame e he]; rfl)
      exact hfilter ▸ h.distinct
    · intro t' c hc
      obtain ⟨hr, hok⟩ := h.calls t' c hc
      have ht : t' ≠ t := by
        rintro rfl
        rw [hnew] at hr
        cases hr
      exact ⟨by rw [hstatus, if_neg ht]; exact hr, hok.mono (List.append_nil _).symm
        (fun k => hversion t' k) (fun k => .inl)⟩

theorem selectMax (h : Consistent rows₀ d) (hnext : d.next (.selectMax t) = some d') :
    Consistent rows₀ d' := by
  simp only [StepDb.next] at hnext
  split at hnext
  · rename_i c since iterations hcall
    obtain ⟨hrunning, hsince, hle⟩ := h.calls t _ hcall
    split at hnext
    · rename_i nr halloc
      obtain rfl := Option.some.inj hnext
      have hnone := visible_allocBuildStep halloc
      rw [ReadCommitted.Table.visible, Option.or_eq_none_iff] at hnone
      refine h.setCall hrunning ⟨hsince, hsince, le_rfl, Nat.succ_le_succ hle, hnone.1, ?_⟩
      intro hrow
      rw [hnone.2] at hrow
      cases hrow
    · obtain rfl := Option.some.inj hnext
      exact h.endTx hrunning
  · cases hnext

/-- No other call that counts has a key that the transaction can insert. -/
theorem key_ne (h : Consistent rows₀ d) {key : StepKey}
    (hlocked : d.table.locked (some t) key = false) (hvisible : d.table.visible t key = none)
    {e : Returned} (he : e ∈ d.returned) (hlive : d.isLive e = true) : e.key ≠ key := by
  rintro rfl
  rw [ReadCommitted.Table.visible, Option.or_eq_none_iff] at hvisible
  obtain ⟨status, hstatus⟩ := Option.isSome_iff_exists.mp (h.known e he)
  cases status with
  | running =>
    have hversion := h.version e he hstatus
    by_cases ht : e.tx = t
    · rw [ht, hvisible.1] at hversion
      cases hversion
    · rw [ReadCommitted.Table.not_locked hlocked (by simpa using ht)] at hversion
      cases hversion
  | committed =>
    have hrow := h.row e he (by simp [isCommitted, hstatus])
    rw [hvisible.2] at hrow
    cases hrow
  | rolledBack => simp [isLive, hstatus] at hlive

/-- The row is inserted, and the call returns. -/
theorem inserted (h : Consistent rows₀ d) {table : ReadCommitted.Table StepKey InsertBuildStep}
    {e : Returned} (hrunning : d.status.lookup e.tx = some .running)
    (hlocked : d.table.locked (some e.tx) e.key = false)
    (hvisible : d.table.visible e.tx e.key = none) (hrows : table.rows = d.table.rows)
    (hopen : ∀ t', (table.versions.lookup t').isSome = (d.table.versions.lookup t').isSome)
    (hversion : ∀ t' k', table.version t' k' =
      if t' = e.tx ∧ k' = e.key then some e.row else d.table.version t' k')
    (hkey : e.row.key = e.key) (hiter : e.iterations ≤ e.rivals + 1) :
    Consistent rows₀
      { d with
        table := table
        calls := d.calls.erase e.tx
        returned := e :: d.returned } := by
  have hnone := hvisible
  rw [ReadCommitted.Table.visible, Option.or_eq_none_iff] at hnone
  have hnew : ∀ o ∈ d.returned, d.isLive o = true → o.key ≠ e.key :=
    fun o ho => h.key_ne hlocked hvisible ho
  refine
    { exclusive := h.exclusive.add hlocked hversion
      running := fun t' => by rw [hopen]; exact h.running t'
      known := ?_
      version := ?_
      entry := ?_
      row := ?_
      key := List.forall_mem_cons.mpr ⟨hkey, h.key⟩
      written := ?_
      fresh := ?_
      distinct := ?_
      calls := ?_
      iterations := ?_ }
  · intro o ho
    rcases List.mem_cons.mp ho with rfl | ho
    · simp [hrunning]
    · exact h.known o ho
  · intro o ho hr
    rw [hversion]
    rcases List.mem_cons.mp ho with rfl | ho
    · simp
    · have hlive : d.isLive o = true := by
        simp only [isLive, show d.status.lookup o.tx = some .running from hr]
        rfl
      rw [if_neg (fun hc => hnew o ho hlive hc.2)]
      exact h.version o ho hr
  · intro t' k v hv
    rw [hversion] at hv
    split_ifs at hv with hc
    · exact ⟨e, List.mem_cons_self, hc.1.symm, hc.2.symm, Option.some.inj hv⟩
    · obtain ⟨o, ho, heq⟩ := h.entry t' k v hv
      exact ⟨o, List.mem_cons_of_mem _ ho, heq⟩
  · intro o ho hc
    rcases List.mem_cons.mp ho with rfl | ho
    · simp [isCommitted, hrunning] at hc
    · rw [hrows]
      exact h.row o ho hc
  · intro k v hv
    rw [hrows] at hv
    rcases h.written k v hv with hv | ⟨o, ho, heq⟩
    · exact .inl hv
    · exact .inr ⟨o, List.mem_cons_of_mem _ ho, heq⟩
  · intro t' k hv
    rw [hversion] at hv
    rw [hrows]
    split_ifs at hv with hc
    · rw [hc.2]
      exact hnone.2
    · exact h.fresh t' k hv
  · have hlive : d.isLive e = true := by simp [isLive, hrunning]
    have hfilter : (e :: d.returned).filter d.isLive = e :: d.returned.filter d.isLive := by
      rw [List.filter_cons, if_pos hlive]
    refine (congrArg (fun l => (List.map Returned.key l).Nodup) hfilter).mpr ?_
    rw [List.map_cons, List.nodup_cons]
    refine ⟨fun hmem => ?_, h.distinct⟩
    obtain ⟨o, ho, hkey⟩ := List.mem_map.mp hmem
    obtain ⟨ho, holive⟩ := List.mem_filter.mp ho
    exact hnew o ho holive hkey
  · intro t' c hc
    simp only [Map.lookup_erase_eq] at hc
    split_ifs at hc with ht
    obtain ⟨hr, hok⟩ := h.calls t' c hc
    refine ⟨hr, hok.mono (List.append_nil _).symm (fun k => ?_) (fun k hk => .inl ?_)⟩
    · simp [hversion, ht]
    · simpa [hrows] using hk
  · intro o ho
    rcases List.mem_cons.mp ho with rfl | ho
    · exact hiter
    · exact h.iterations o ho

theorem insert (h : Consistent rows₀ d) (hnext : d.next (.insert t) = some d') :
    Consistent rows₀ d' := by
  simp only [StepDb.next] at hnext
  split at hnext
  · rename_i c since nr seen iterations hcall
    obtain ⟨hrunning, -, hsince, hseen, hiter, hnone, hrival⟩ := h.calls t _ hcall
    split at hnext
    · cases hnext
    · rename_i table hinsert
      obtain rfl := Option.some.inj hnext
      obtain ⟨hlocked, hcases⟩ := ReadCommitted.Table.insertNew_cases hinsert
      obtain ⟨habsurd, -⟩ | ⟨-, hvisible, hrows, hopen, hversion⟩ := hcases
      · cases habsurd
      · refine h.inserted (e := ⟨t, (c.buildId, nr), c.row nr, iterations, _⟩) hrunning hlocked
          hvisible hrows hopen hversion (c.key_row nr) (hiter.trans ?_)
        exact Nat.succ_le_succ (rivalsBetween_mono hseen)
    · rename_i table hinsert
      obtain rfl := Option.some.inj hnext
      obtain ⟨-, ⟨-, rfl, hvisible⟩ | ⟨habsurd, -⟩⟩ := ReadCommitted.Table.insertNew_cases hinsert
      · -- the number is not the transaction's own, so a rival has committed it
        rw [ReadCommitted.Table.visible, hnone, Option.none_or] at hvisible
        obtain ⟨t', hne, hmem⟩ := hrival hvisible
        exact h.setCall hrunning ⟨hsince.trans hseen,
          hiter.trans (rivalsBetween_lt hne hsince hseen hmem)⟩
      · cases habsurd
  · cases hnext

theorem commit (h : Consistent rows₀ d) (hnext : d.next (.commit t) = some d') :
    Consistent rows₀ d' := by
  simp only [StepDb.next] at hnext
  split_ifs at hnext with hguard
  obtain ⟨hrunning, hidle⟩ := hguard
  obtain rfl := Option.some.inj hnext
  have hversion : ∀ t' k, (d.table.commit t).version t' k =
      if t' = t then none else d.table.version t' k :=
    fun t' k => ReadCommitted.Table.version_erase d.table _ t t' k
  have hrows : ∀ k, (d.table.commit t).rows.lookup k =
      (d.table.version t k).or (d.table.rows.lookup k) :=
    fun k => ReadCommitted.Table.lookup_rows_commit d.table t k
  have hstatus : ∀ t', (d.status.insert t TxStatus.committed).lookup t' =
      if t' = t then some .committed else d.status.lookup t' :=
    fun t' => Map.lookup_insert_eq _ _ _ _
  -- a committed row stays what it was
  have hkept : ∀ k v, d.table.rows.lookup k = some v →
      (d.table.commit t).rows.lookup k = some v := by
    intro k v hv
    rw [hrows]
    cases hown : d.table.version t k with
    | none => simpa using hv
    | some w =>
      rw [h.fresh t k (by simp [hown])] at hv
      cases hv
  refine
    { exclusive := ?_
      running := ?_
      known := ?_
      version := ?_
      entry := ?_
      row := ?_
      key := h.key
      written := ?_
      fresh := ?_
      distinct := ?_
      calls := ?_
      iterations := h.iterations }
  · refine ReadCommitted.Table.exclusive_of_versions h.exclusive (fun t' k hv => ?_)
    rw [hversion] at hv
    split_ifs at hv
    · cases hv
    · exact hv
  · intro t'
    rw [hstatus]
    simp only [ReadCommitted.Table.commit, Map.lookup_erase_eq]
    by_cases ht : t' = t
    · simp [ht]
    · simpa [ht] using h.running t'
  · intro e he
    rw [hstatus]
    split_ifs
    · rfl
    · exact h.known e he
  · intro e he hr
    rw [hstatus] at hr
    split_ifs at hr with ht
    · cases hr
    · rw [hversion, if_neg ht]
      exact h.version e he hr
  · intro t' k v hv
    rw [hversion] at hv
    split_ifs at hv
    exact h.entry t' k v hv
  · intro e he hc
    simp only [isCommitted, hstatus, decide_eq_true_eq] at hc
    split_ifs at hc with ht
    · rw [hrows, ← ht, h.version e he (by rw [ht]; exact hrunning)]
      rfl
    · exact hkept _ _ (h.row e he (by simpa [isCommitted] using hc))
  · intro k v hv
    rw [hrows] at hv
    cases hown : d.table.version t k with
    | some w =>
      obtain ⟨e, he, htx, hkey, hrow⟩ := h.entry t k w hown
      rw [hown, Option.some_or, Option.some.injEq] at hv
      exact .inr ⟨e, he, by simp [isCommitted, hstatus, htx], hkey, hrow.trans hv⟩
    | none =>
      rw [hown, Option.none_or] at hv
      rcases h.written k v hv with hv | ⟨e, he, hc, hk⟩
      · exact .inl hv
      · refine .inr ⟨e, he, ?_, hk⟩
        simp only [isCommitted, hstatus, decide_eq_true_eq] at hc ⊢
        split_ifs
        · rfl
        · exact hc
  · intro t' k hv
    rw [hversion] at hv
    split_ifs at hv with ht
    · cases hv
    · have hown : d.table.version t k = none := by
        by_contra hcontra
        exact ht (h.exclusive t' t k hv (Option.isSome_iff_ne_none.mpr hcontra))
      rw [hrows, hown, Option.none_or]
      exact h.fresh t' k hv
  · have hlive : ∀ e, decide ((d.status.insert t TxStatus.committed).lookup e.tx ≠
        some .rolledBack) = d.isLive e := by
      intro e
      simp only [isLive, hstatus]
      by_cases ht : e.tx = t
      · subst ht
        simp [hrunning]
      · simp [ht]
    have hfilter : d.returned.filter (fun e => decide
        ((d.status.insert t TxStatus.committed).lookup e.tx ≠ some .rolledBack)) =
        d.returned.filter d.isLive :=
      List.filter_congr (fun e _ => hlive e)
    exact hfilter ▸ h.distinct
  · intro t' c hc
    obtain ⟨hr, hok⟩ := h.calls t' c hc
    have ht : t' ≠ t := by
      rintro rfl
      rw [hidle] at hc
      cases hc
    refine ⟨by rw [hstatus, if_neg ht]; exact hr, hok.mono rfl
      (fun k => by rw [hversion, if_neg ht]) (fun k hk => ?_)⟩
    rw [hrows] at hk
    cases hown : d.table.version t k with
    | none =>
      rw [hown, Option.none_or] at hk
      exact .inl hk
    | some v =>
      obtain ⟨m, hm, hrow⟩ := Option.bind_eq_some_iff.mp hown
      refine .inr ⟨t, ht.symm, List.mem_map.mpr ⟨k, ?_, rfl⟩⟩
      rw [hm, Option.getD_some]
      exact AList.mem_keys.mp (AList.lookup_isSome.mp (by simp [hrow]))

/-- What one statement keeps. -/
theorem step (h : Consistent rows₀ d) {a : StepDbAction} (hnext : d.next a = some d') :
    Consistent rows₀ d' := by
  cases a with
  | begin t => exact h.begin hnext
  | call t c => exact h.call hnext
  | selectMax t => exact h.selectMax hnext
  | insert t => exact h.insert hnext
  | commit t => exact h.commit hnext
  | rollback t =>
    simp only [StepDb.next] at hnext
    split_ifs at hnext with hrunning
    obtain rfl := Option.some.inj hnext
    exact h.endTx hrunning

/-- And so what every run keeps. -/
theorem reach (hreach : Lts.Reach StepDb.next Lts.anyStep (StepDb.start rows₀) d) :
    Consistent rows₀ d :=
  hreach.invariant (Consistent.start rows₀) (fun _ _ _ h _ hnext => h.step hnext)

/-- The loop starts again only when the number was committed by a rival. -/
theorem repeats (h : Consistent rows₀ d) {c : CreateCall} {since seen iterations : Nat} {nr : Int}
    (hcall : d.calls.lookup t = some ⟨c, since, some (nr, seen), iterations⟩)
    (hnext : d.next (.insert t) = some d') (hagain : (d'.calls.lookup t).isSome = true) :
    ∃ t', t' ≠ t ∧ (t', (c.buildId, nr)) ∈ d.commits.drop seen := by
  obtain ⟨-, -, -, -, -, hnone, hrival⟩ := h.calls t _ hcall
  simp only [StepDb.next, hcall] at hnext
  split at hnext
  · cases hnext
  · obtain rfl := Option.some.inj hnext
    simp at hagain
  · rename_i table hinsert
    obtain ⟨-, ⟨-, -, hvisible⟩ | ⟨habsurd, -⟩⟩ := ReadCommitted.Table.insertNew_cases hinsert
    · rw [ReadCommitted.Table.visible, hnone, Option.none_or] at hvisible
      exact hrival hvisible
    · cases habsurd

/-- A call has made one iteration more than it has met rivals at most. -/
theorem iterations_le (h : Consistent rows₀ d) {c : AllocCall} (hcall : d.calls.lookup t = some c) :
    c.iterations ≤ d.rivalsBetween t c.call.buildId c.since d.commits.length + 1 := by
  obtain ⟨-, -, hrest⟩ := h.calls t c hcall
  revert hrest
  cases c.selected with
  | none => exact fun hle => hle.trans (Nat.le_succ _)
  | some sel =>
    rintro ⟨-, hseen, hle, -, -⟩
    exact hle.trans (Nat.succ_le_succ (rivalsBetween_mono hseen))

end Consistent

/-- In every run the step numbers are allocated as they should be. -/
theorem stepNumbers_runs (rows₀ : Map StepKey InsertBuildStep) (d : StepDb)
    (hreach : Lts.Reach StepDb.next Lts.anyStep (StepDb.start rows₀) d) :
    StepNumbers rows₀ d := by
  have h := Consistent.reach hreach
  refine
    { distinct := ?_
      row := h.row
      key := h.key
      written := h.written
      repeats := fun t c since nr seen iterations d' => h.repeats
      iterations := fun t c => h.iterations_le
      iterationsReturned := h.iterations }
  refine h.distinct.sublist (List.Sublist.map _ (List.monotone_filter_right _ ?_))
  intro e he
  simp only [isCommitted, decide_eq_true_eq] at he
  simp [isLive, he]

/-- Two transactions read the same maximum.  The second insert waits for the
commit of the first, fails, and the call gets the next number. -/
def rivalRun : List StepDbAction :=
  [.begin 0, .begin 1,
    .call 0 (.substitutionStep 1 2 7 "a.drv"), .call 1 (.substitutionStep 1 2 7 "b.drv"),
    .selectMax 0, .selectMax 1, .insert 0, .commit 0, .insert 1, .selectMax 1, .insert 1,
    .commit 1]

theorem stepNumbers_runs_rivals : ∃ d,
    Lts.Reach StepDb.next Lts.anyStep (StepDb.start ∅) d ∧
      d.returned.map (fun e => (e.tx, e.key, e.iterations, e.rivals)) =
        [(1, (7, 2), 2, 1), (0, (7, 1), 1, 0)] ∧ StepNumbers ∅ d := by
  have hend : (Lts.run StepDb.next (StepDb.start ∅) rivalRun).map (fun d =>
      d.returned.map (fun e => (e.tx, e.key, e.iterations, e.rivals))) =
      some [(1, (7, 2), 2, 1), (0, (7, 1), 1, 0)] := by decide +kernel
  obtain ⟨d, hd, he⟩ := Option.map_eq_some_iff.mp hend
  have hreach := Lts.reach_of_run hd
  exact ⟨d, hreach, he, stepNumbers_runs ∅ d hreach⟩

end StepDb

end QueueRunner
