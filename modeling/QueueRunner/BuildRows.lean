import QueueRunner.Lib.ReadCommitted
import QueueRunner.Lib.Run
import QueueRunner.Machines

/-!
# The rows of `builds`

The statements of `crates/db/src/connection.rs` that finish a build, each
one step under read committed.  `update_build_after_failure`,
`update_build_after_previous_failure` and `abort_build` change a row only
while it is not finished.  `mark_succeeded_build` looks at the row with a
`SELECT` first and then changes it whatever it holds: a build that another
transaction finishes in between is overwritten.

The tables of outputs, products and metrics are not read by any of these
statements and are left out.
-/

namespace QueueRunner

/-- A row of `builds`: the columns that these statements write. -/
structure BuildRow where
  finished : Bool := false
  buildStatus : Option BuildStatus := none
  startTime : Option Int := none
  stopTime : Option Int := none
  size : Option Int := none
  closureSize : Option Int := none
  releaseName : Option String := none
  isCachedBuild : Option Bool := none
  notificationPendingSince : Option Int := none
deriving DecidableEq, Repr

/-- `UpdateBuild`. -/
structure UpdateBuild where
  status : BuildStatus
  startTime : Int
  stopTime : Int
  size : Int
  closureSize : Int
  releaseName : Option String
  isCachedBuild : Bool

/-- `MarkBuildSuccessData`, the fields that go to `builds`, with the other
arguments of `mark_succeeded_build`.  The sizes are `u64`. -/
structure MarkSucceeded where
  id : BuildID
  finishedInDb : Bool := false
  failed : Bool := false
  size : Nat := 0
  closureSize : Nat := 0
  releaseName : Option String := none
  isCachedBuild : Bool := false
  startTime : Int := 0
  stopTime : Int := 0
deriving DecidableEq, Repr

/-- The status that `mark_succeeded_build` writes. -/
def MarkSucceeded.status (m : MarkSucceeded) : BuildStatus :=
  if m.failed then .failedWithOutput else .success

/-- `i64::try_from` of a `u64`. -/
def i64TryFrom (n : Nat) : Option Int :=
  if n < 2 ^ 63 then some n else none

namespace BuildRow

/-- `update_build`. -/
def updateBuild (v : UpdateBuild) (row : BuildRow) : Option BuildRow :=
  some { row with
    finished := true
    buildStatus := some v.status
    startTime := some v.startTime
    stopTime := some v.stopTime
    size := some v.size
    closureSize := some v.closureSize
    releaseName := v.releaseName
    isCachedBuild := some v.isCachedBuild
    notificationPendingSince := some v.stopTime }

/-- `update_build_after_failure`. -/
def updateBuildAfterFailure (status : BuildStatus) (startTime stopTime : Int)
    (isCachedBuild : Bool) (row : BuildRow) : Option BuildRow :=
  if row.finished then none
  else some { row with
    finished := true
    buildStatus := some status
    startTime := some startTime
    stopTime := some stopTime
    isCachedBuild := some isCachedBuild
    notificationPendingSince := some stopTime }

/-- `update_build_after_previous_failure`. -/
def updateBuildAfterPreviousFailure (status : BuildStatus) (now : Int)
    (row : BuildRow) : Option BuildRow :=
  if row.finished then none
  else some { row with
    finished := true
    buildStatus := some status
    startTime := some now
    stopTime := some now
    isCachedBuild := some true
    notificationPendingSince := some now }

/-- `Connection::abort_build`. -/
def abortBuild (now : Int) (row : BuildRow) : Option BuildRow :=
  if row.finished then none
  else some { row with
    finished := true
    buildStatus := some .aborted
    startTime := some now
    stopTime := some now }

/-- A cancellation from outside: it finishes a build that is not finished,
with the columns of `cancelled`. -/
def cancel (cancelled row : BuildRow) : Option BuildRow :=
  if row.finished then none else some { cancelled with finished := true }

end BuildRow

/-- The table `builds`, with the transactions that stand between the
`SELECT` and the `UPDATE` of a `mark_succeeded_build`. -/
structure BuildsDb where
  table : ReadCommitted.Table BuildID BuildRow := {}
  checked : Map Nat MarkSucceeded := ∅

/-- One statement, or the end of a transaction. -/
inductive DbAction where
  | begin (t : Nat)
  /-- `mark_succeeded_build` up to the answer of its `SELECT`. -/
  | markSucceededBuild (t : Nat) (m : MarkSucceeded)
  /-- The `UPDATE` of a `mark_succeeded_build`. -/
  | updateBuild (t : Nat)
  | updateBuildAfterFailure (t : Nat) (id : BuildID) (status : BuildStatus)
      (startTime stopTime : Int) (isCachedBuild : Bool)
  | updateBuildAfterPreviousFailure (t : Nat) (id : BuildID) (status : BuildStatus) (now : Int)
  | commit (t : Nat)
  /-- The transaction is dropped, after an error or without one. -/
  | rollback (t : Nat)
  | abortBuild (id : BuildID) (now : Int)
  | cancel (id : BuildID) (cancelled : BuildRow)

namespace BuildsDb

/-- The transaction is open and is not inside a `mark_succeeded_build`. -/
def ready (d : BuildsDb) (t : Nat) : Bool :=
  (d.table.versions.lookup t).isSome && (d.checked.lookup t).isNone

/-- The `UPDATE` of `mark_succeeded_build`.  A size that does not fit ends
the call with an error, and its transaction is dropped. -/
def markUpdate (d : BuildsDb) (t : Nat) (m : MarkSucceeded) : Option BuildsDb :=
  match i64TryFrom m.size, i64TryFrom m.closureSize with
  | some size, some closureSize =>
    (d.table.update t m.id (BuildRow.updateBuild
      ⟨m.status, m.startTime, m.stopTime, size, closureSize, m.releaseName,
        m.isCachedBuild⟩)).map (fun table => ⟨table, d.checked.erase t⟩)
  | _, _ => some ⟨d.table.rollback t, d.checked.erase t⟩

/-- A guarded `UPDATE` of an open transaction. -/
def updateWhere (d : BuildsDb) (t : Nat) (id : BuildID) (set : BuildRow → Option BuildRow) :
    Option BuildsDb :=
  if d.ready t then (d.table.update t id set).map (fun table => { d with table := table })
  else none

/-- One step of the database. -/
def next (d : BuildsDb) : DbAction → Option BuildsDb
  | .begin t =>
    if (d.table.versions.lookup t).isSome then none
    else some { d with table := d.table.begin t }
  | .markSucceededBuild t m =>
    if d.ready t then
      if m.finishedInDb then some d
      else
        match d.table.visible t m.id with
        | some row =>
          if row.finished then some d else some { d with checked := d.checked.insert t m }
        | none => some d
    else none
  | .updateBuild t =>
    match d.checked.lookup t with
    | some m => d.markUpdate t m
    | none => none
  | .updateBuildAfterFailure t id status startTime stopTime isCachedBuild =>
    d.updateWhere t id (BuildRow.updateBuildAfterFailure status startTime stopTime isCachedBuild)
  | .updateBuildAfterPreviousFailure t id status now =>
    d.updateWhere t id (BuildRow.updateBuildAfterPreviousFailure status now)
  | .commit t => if d.ready t then some { d with table := d.table.commit t } else none
  | .rollback t => some ⟨d.table.rollback t, d.checked.erase t⟩
  | .abortBuild id now =>
    (d.table.updateNow id (BuildRow.abortBuild now)).map (fun table => { d with table := table })
  | .cancel id cancelled =>
    (d.table.updateNow id (BuildRow.cancel cancelled)).map (fun table => { d with table := table })

/-- A build that is finished in `d` is finished in the same way in `d'`. -/
def Final (d d' : BuildsDb) : Prop :=
  ∀ id row, d.table.rows.lookup id = some row → row.finished = true →
    ∃ row', d'.table.rows.lookup id = some row' ∧ row'.finished = true ∧
      row'.buildStatus = row.buildStatus

/-- A database at rest. -/
def AtRest (d : BuildsDb) : Prop := d.table.versions = ∅ ∧ d.checked = ∅

/-- Some transaction has looked at the build in `mark_succeeded_build` and
is going to write another status than `status`. -/
def Endangered (d : BuildsDb) (id : BuildID) (status : Option BuildStatus) : Prop :=
  ∃ t m, d.checked.lookup t = some m ∧ m.id = id ∧ some m.status ≠ status

end BuildsDb

/-- A build is not finished, by a commit or a single statement, between the
`SELECT` and the `UPDATE` of a `mark_succeeded_build` that is going to write
another status. -/
def NoLateFinish (d : BuildsDb) : DbAction → Prop
  | .commit t => ∀ id row, d.table.version t id = some row →
      ¬ d.Endangered id row.buildStatus
  | .abortBuild id _ => ∀ row, d.table.rows.lookup id = some row → row.finished = false →
      ¬ d.Endangered id (some .aborted)
  | .cancel id cancelled => ∀ row, d.table.rows.lookup id = some row → row.finished = false →
      ¬ d.Endangered id cancelled.buildStatus
  | _ => True

namespace BuildsDb

/-! ## What a step can do -/

/-- An `UPDATE` that finishes builds that are not finished and no others. -/
def Guarded (set : BuildRow → Option BuildRow) : Prop :=
  ∀ row row', set row = some row' → row.finished = false ∧ row'.finished = true

theorem guarded_updateBuildAfterFailure (status : BuildStatus) (startTime stopTime : Int)
    (isCachedBuild : Bool) :
    Guarded (BuildRow.updateBuildAfterFailure status startTime stopTime isCachedBuild) := by
  intro row row' h
  simp only [BuildRow.updateBuildAfterFailure, Option.ite_none_left_eq_some] at h
  obtain ⟨hf, hrow⟩ := h
  obtain rfl := Option.some.inj hrow
  exact ⟨by simpa using hf, rfl⟩

theorem guarded_updateBuildAfterPreviousFailure (status : BuildStatus) (now : Int) :
    Guarded (BuildRow.updateBuildAfterPreviousFailure status now) := by
  intro row row' h
  simp only [BuildRow.updateBuildAfterPreviousFailure, Option.ite_none_left_eq_some] at h
  obtain ⟨hf, hrow⟩ := h
  obtain rfl := Option.some.inj hrow
  exact ⟨by simpa using hf, rfl⟩

/-- What a step does to the table and to the calls that have looked. -/
inductive Step (d d' : BuildsDb) : DbAction → Prop
  /-- No row changes, and no version and no call is added. -/
  | quiet {a : DbAction} (hrows : d'.table.rows = d.table.rows)
      (hversions : ∀ t id row, d'.table.version t id = some row → d.table.version t id = some row)
      (hchecked : ∀ t m, d'.checked.lookup t = some m → d.checked.lookup t = some m) :
      Step d d' a
  /-- A `SELECT` has found a build that is not finished. -/
  | look {a : DbAction} (t : Nat) (m : MarkSucceeded) (row : BuildRow)
      (hvisible : d.table.visible t m.id = some row) (hrow : row.finished = false)
      (heq : d' = { d with checked := d.checked.insert t m }) : Step d d' a
  /-- An `UPDATE` leaves a version: a guarded one, or the one that a call
  has looked for. -/
  | write {a : DbAction} (t : Nat) (id : BuildID) (row row' : BuildRow)
      (hfree : d.table.locked (some t) id = false)
      (hvisible : d.table.visible t id = some row) (hrow' : row'.finished = true)
      (hwhy : row.finished = false ∨
        ∃ m, d.checked.lookup t = some m ∧ m.id = id ∧ row'.buildStatus = some m.status)
      (hrows : d'.table.rows = d.table.rows)
      (hversions : ∀ t' id', d'.table.version t' id' =
        if t' = t ∧ id' = id then some row' else d.table.version t' id')
      (hchecked : ∀ t' m, d'.checked.lookup t' = some m →
        d.checked.lookup t' = some m ∧ t' ≠ t) : Step d d' a
  | commit (t : Nat) (heq : d' = { d with table := d.table.commit t }) : Step d d' (.commit t)
  /-- A single statement finishes a build. -/
  | finish {a : DbAction} (id : BuildID) (row row' : BuildRow)
      (hfree : d.table.locked none id = false)
      (hlookup : d.table.rows.lookup id = some row) (hrow : row.finished = false)
      (hrow' : row'.finished = true)
      (hlate : NoLateFinish d a → ¬ d.Endangered id row'.buildStatus)
      (heq : d' = { d with table := { d.table with rows := d.table.rows.insert id row' } }) :
      Step d d' a

variable {d d' : BuildsDb} {a : DbAction}

theorem ready_iff {t : Nat} :
    d.ready t = true ↔ (d.table.versions.lookup t).isSome ∧ d.checked.lookup t = none := by
  simp [ready]

theorem quiet_of_rollback (t : Nat) :
    Step d ⟨d.table.rollback t, d.checked.erase t⟩ a := by
  refine .quiet rfl ?_ ?_
  · intro t' id row h
    rw [ReadCommitted.Table.rollback, ReadCommitted.Table.version_erase] at h
    split_ifs at h
    exact h
  · intro t' m h
    rw [Map.lookup_erase_eq] at h
    split_ifs at h
    exact h

theorem step_refl : Step d d a :=
  .quiet rfl (fun _ _ _ h => h) (fun _ _ h => h)

theorem step_updateWhere {t : Nat} {id : BuildID} {set : BuildRow → Option BuildRow}
    (hset : Guarded set) (h : d.updateWhere t id set = some d') : Step d d' a := by
  simp only [updateWhere, Option.ite_none_right_eq_some, ready_iff] at h
  obtain ⟨⟨-, hready⟩, h⟩ := h
  obtain ⟨table, htable, rfl⟩ := Option.map_eq_some_iff.mp h
  obtain ⟨hfree, rfl | ⟨row, row', hvisible, hrow, hrows, hversions⟩⟩ :=
    ReadCommitted.Table.update_cases htable
  · exact step_refl
  · obtain ⟨hf, hf'⟩ := hset row row' hrow
    refine .write t id row row' hfree hvisible hf' (.inl hf) hrows hversions ?_
    intro t' m hm
    refine ⟨hm, ?_⟩
    rintro rfl
    rw [hready] at hm
    cases hm

theorem step_markUpdate {t : Nat} {m : MarkSucceeded} (hm : d.checked.lookup t = some m)
    (h : d.markUpdate t m = some d') : Step d d' a := by
  unfold markUpdate at h
  split at h
  · obtain ⟨table, htable, rfl⟩ := Option.map_eq_some_iff.mp h
    have hchecked : ∀ t' m', (d.checked.erase t).lookup t' = some m' →
        d.checked.lookup t' = some m' ∧ t' ≠ t := by
      intro t' m' h'
      rw [Map.lookup_erase_eq] at h'
      split_ifs at h' with hne
      exact ⟨h', hne⟩
    obtain ⟨hfree, rfl | ⟨row, row', hvisible, hrow, hrows, hversions⟩⟩ :=
      ReadCommitted.Table.update_cases htable
    · exact .quiet rfl (fun _ _ _ h => h) (fun t' m' h' => (hchecked t' m' h').1)
    · obtain rfl := Option.some.inj hrow
      exact .write t m.id row _ hfree hvisible rfl (.inr ⟨m, hm, rfl, rfl⟩) hrows hversions
        hchecked
  · obtain rfl := Option.some.inj h
    exact quiet_of_rollback t

theorem step_updateNow {id : BuildID} {set : BuildRow → Option BuildRow} (hset : Guarded set)
    (hlate : ∀ row row', d.table.rows.lookup id = some row → set row = some row' →
      NoLateFinish d a → ¬ d.Endangered id row'.buildStatus)
    (h : (d.table.updateNow id set).map (fun table => { d with table := table }) = some d') :
    Step d d' a := by
  obtain ⟨table, htable, rfl⟩ := Option.map_eq_some_iff.mp h
  obtain ⟨hfree, rfl | ⟨row, row', hlookup, hrow, rfl⟩⟩ :=
    ReadCommitted.Table.updateNow_cases htable
  · exact step_refl
  · obtain ⟨hf, hf'⟩ := hset row row' hrow
    exact .finish id row row' hfree hlookup hf hf' (hlate row row' hlookup hrow) rfl

theorem step_of_next (h : d.next a = some d') : Step d d' a := by
  cases a with
  | begin t =>
    simp only [next, Option.ite_none_left_eq_some] at h
    obtain ⟨hnew, h⟩ := h
    obtain rfl := Option.some.inj h
    refine .quiet rfl (fun t' id row hv => ?_) (fun _ _ hm => hm)
    rwa [ReadCommitted.Table.version_begin _ (by simpa using hnew)] at hv
  | markSucceededBuild t m =>
    simp only [next, Option.ite_none_right_eq_some] at h
    obtain ⟨-, h⟩ := h
    split_ifs at h
    · obtain rfl := Option.some.inj h
      exact step_refl
    split at h
    · rename_i row hvisible
      split_ifs at h with hf
      · obtain rfl := Option.some.inj h
        exact step_refl
      · exact .look t m row hvisible (by simpa using hf) (Option.some.inj h).symm
    · obtain rfl := Option.some.inj h
      exact step_refl
  | updateBuild t =>
    simp only [next] at h
    split at h
    · rename_i m hm
      exact step_markUpdate hm h
    · cases h
  | updateBuildAfterFailure t id status startTime stopTime isCachedBuild =>
    exact step_updateWhere (guarded_updateBuildAfterFailure _ _ _ _) h
  | updateBuildAfterPreviousFailure t id status now =>
    exact step_updateWhere (guarded_updateBuildAfterPreviousFailure _ _) h
  | commit t =>
    simp only [next, Option.ite_none_right_eq_some] at h
    exact .commit t (Option.some.inj h.2).symm
  | rollback t =>
    obtain rfl := Option.some.inj h
    exact quiet_of_rollback t
  | abortBuild id now =>
    refine step_updateNow ?_ ?_ h
    · intro row row' hrow
      simp only [BuildRow.abortBuild, Option.ite_none_left_eq_some] at hrow
      obtain ⟨hf, hrow⟩ := hrow
      obtain rfl := Option.some.inj hrow
      exact ⟨by simpa using hf, rfl⟩
    · intro row row' hlookup hrow hlate
      simp only [BuildRow.abortBuild, Option.ite_none_left_eq_some] at hrow
      obtain ⟨hf, hrow⟩ := hrow
      obtain rfl := Option.some.inj hrow
      exact hlate row hlookup (by simpa using hf)
  | cancel id cancelled =>
    refine step_updateNow ?_ ?_ h
    · intro row row' hrow
      simp only [BuildRow.cancel, Option.ite_none_left_eq_some] at hrow
      obtain ⟨hf, hrow⟩ := hrow
      obtain rfl := Option.some.inj hrow
      exact ⟨by simpa using hf, rfl⟩
    · intro row row' hlookup hrow hlate
      simp only [BuildRow.cancel, Option.ite_none_left_eq_some] at hrow
      obtain ⟨hf, hrow⟩ := hrow
      obtain rfl := Option.some.inj hrow
      exact hlate row hlookup (by simpa using hf)

/-! ## Versions agree with the rows they replace -/

/-- No transaction is going to change a build that is finished. -/
structure Settled (d : BuildsDb) : Prop where
  exclusive : d.table.Exclusive
  versionFinished : ∀ t id row', d.table.version t id = some row' → row'.finished = true
  versionAgrees : ∀ t id row row', d.table.version t id = some row' →
    d.table.rows.lookup id = some row → row.finished = true →
      row'.buildStatus = row.buildStatus
  checkedFree : ∀ t m, d.checked.lookup t = some m → d.table.version t m.id = none
  checkedAgrees : ∀ t m row, d.checked.lookup t = some m →
    d.table.rows.lookup m.id = some row → row.finished = true →
      row.buildStatus = some m.status

theorem AtRest.settled (h : d.AtRest) : d.Settled := by
  have hversion : ∀ t id, d.table.version t id = none := by
    intro t id
    simp [ReadCommitted.Table.version, h.1]
  refine ⟨?_, ?_, ?_, ?_, ?_⟩
  · intro t t' id ht
    simp [hversion] at ht
  · intro t id row' hv
    simp [hversion] at hv
  · intro t id row row' hv
    simp [hversion] at hv
  · intro t m _
    exact hversion t m.id
  · intro t m row hm
    simp [h.2] at hm

/-- A commit keeps the finished builds: its versions agree with them. -/
theorem Settled.final (h : d.Settled) (hstep : Step d d' a) : d.Final d' := by
  intro id row hlookup hrow
  cases hstep with
  | quiet hrows => exact ⟨row, hrows ▸ hlookup, hrow, rfl⟩
  | look t m _ _ _ heq => exact ⟨row, heq ▸ hlookup, hrow, rfl⟩
  | write t id' _ _ _ _ _ _ hrows => exact ⟨row, hrows ▸ hlookup, hrow, rfl⟩
  | commit t heq =>
    subst heq
    rw [ReadCommitted.Table.lookup_rows_commit, ReadCommitted.Table.visible]
    cases hv : d.table.version t id with
    | none => exact ⟨row, by simpa using hlookup, hrow, rfl⟩
    | some row' =>
      exact ⟨row', rfl, h.versionFinished t id row' hv,
        h.versionAgrees t id row row' hv hlookup hrow⟩
  | finish id' old new _ hold hf hf' _ heq =>
    subst heq
    have hne : id ≠ id' := by
      rintro rfl
      rw [hlookup] at hold
      obtain rfl := Option.some.inj hold
      rw [hrow] at hf
      cases hf
    exact ⟨row, by simpa [Map.lookup_insert_eq, hne] using hlookup, hrow, rfl⟩

theorem Settled.quiet (h : d.Settled) (hrows : d'.table.rows = d.table.rows)
    (hversions : ∀ t id row, d'.table.version t id = some row → d.table.version t id = some row)
    (hchecked : ∀ t m, d'.checked.lookup t = some m → d.checked.lookup t = some m) :
    d'.Settled := by
  refine ⟨?_, ?_, ?_, ?_, ?_⟩
  · refine ReadCommitted.Table.exclusive_of_versions h.exclusive ?_
    intro t id hv
    obtain ⟨row, hrow⟩ := Option.isSome_iff_exists.mp hv
    simp [hversions t id row hrow]
  · exact fun t id row' hv => h.versionFinished t id row' (hversions t id row' hv)
  · intro t id row row' hv hlookup
    exact h.versionAgrees t id row row' (hversions t id row' hv) (hrows ▸ hlookup)
  · intro t m hm
    cases hv : d'.table.version t m.id with
    | none => rfl
    | some row =>
      have hnone := h.checkedFree t m (hchecked t m hm)
      rw [hversions t m.id row hv] at hnone
      cases hnone
  · exact fun t m row hm hlookup => h.checkedAgrees t m row (hchecked t m hm) (hrows ▸ hlookup)

/-- A call looks at a build that is not finished, in its own versions or in
the rows. -/
theorem Settled.look (h : d.Settled) {t : Nat} {m : MarkSucceeded} {row : BuildRow}
    (hvisible : d.table.visible t m.id = some row) (hrow : row.finished = false) :
    { d with checked := d.checked.insert t m }.Settled := by
  have hfree : d.table.version t m.id = none := by
    cases hv : d.table.version t m.id with
    | none => rfl
    | some row' =>
      rw [ReadCommitted.Table.visible, hv] at hvisible
      obtain rfl := Option.some.inj hvisible
      rw [h.versionFinished t m.id row' hv] at hrow
      cases hrow
  have hlookup : d.table.rows.lookup m.id = some row := by
    simpa [ReadCommitted.Table.visible, hfree] using hvisible
  refine ⟨h.exclusive, h.versionFinished, h.versionAgrees, ?_, ?_⟩
  · intro t' m' hm'
    rw [Map.lookup_insert_eq] at hm'
    split_ifs at hm' with ht
    · obtain rfl := Option.some.inj hm'
      exact ht ▸ hfree
    · exact h.checkedFree t' m' hm'
  · intro t' m' row' hm' hlookup' hrow'
    rw [Map.lookup_insert_eq] at hm'
    split_ifs at hm' with ht
    · obtain rfl := Option.some.inj hm'
      rw [hlookup] at hlookup'
      obtain rfl := Option.some.inj hlookup'
      rw [hrow] at hrow'
      cases hrow'
    · exact h.checkedAgrees t' m' row' hm' hlookup' hrow'

/-- The version that an `UPDATE` leaves agrees with the row: a guarded one
replaces a build that is not finished, and the row that a call has looked at
is not finished or has the status that the call writes. -/
theorem Settled.write (h : d.Settled) {t : Nat} {id : BuildID} {row row' : BuildRow}
    (hfree : d.table.locked (some t) id = false)
    (hvisible : d.table.visible t id = some row) (hrow' : row'.finished = true)
    (hwhy : row.finished = false ∨
      ∃ m, d.checked.lookup t = some m ∧ m.id = id ∧ row'.buildStatus = some m.status)
    (hrows : d'.table.rows = d.table.rows)
    (hversions : ∀ t' id', d'.table.version t' id' =
      if t' = t ∧ id' = id then some row' else d.table.version t' id')
    (hchecked : ∀ t' m, d'.checked.lookup t' = some m →
      d.checked.lookup t' = some m ∧ t' ≠ t) : d'.Settled := by
  have hagrees : ∀ old, d.table.rows.lookup id = some old → old.finished = true →
      row'.buildStatus = old.buildStatus := by
    intro old hold hf
    rcases hwhy with hrow | ⟨m, hm, rfl, hstatus⟩
    · rw [ReadCommitted.Table.visible] at hvisible
      cases hv : d.table.version t id with
      | some own =>
        rw [hv] at hvisible
        obtain rfl := Option.some.inj hvisible
        rw [h.versionFinished t id own hv] at hrow
        cases hrow
      | none =>
        rw [hv, Option.none_or, hold] at hvisible
        obtain rfl := Option.some.inj hvisible
        rw [hf] at hrow
        cases hrow
    · rw [hstatus, h.checkedAgrees t m old hm hold hf]
  refine ⟨h.exclusive.add hfree hversions, ?_, ?_, ?_, ?_⟩
  · intro t' id' new hv
    rw [hversions] at hv
    split_ifs at hv with hc
    · obtain rfl := Option.some.inj hv
      exact hrow'
    · exact h.versionFinished t' id' new hv
  · intro t' id' old new hv hold hf
    rw [hrows] at hold
    rw [hversions] at hv
    split_ifs at hv with hc
    · obtain rfl := Option.some.inj hv
      exact hagrees old (hc.2 ▸ hold) hf
    · exact h.versionAgrees t' id' old new hv hold hf
  · intro t' m hm
    obtain ⟨hm, hne⟩ := hchecked t' m hm
    rw [hversions, if_neg (fun hc => hne hc.1)]
    exact h.checkedFree t' m hm
  · intro t' m old hm hold
    rw [hrows] at hold
    exact h.checkedAgrees t' m old (hchecked t' m hm).1 hold

theorem Settled.commit (h : d.Settled) {t : Nat} (hlate : NoLateFinish d (.commit t)) :
    { d with table := d.table.commit t }.Settled := by
  have hversion : ∀ t' id row', (d.table.commit t).version t' id = some row' →
      t' ≠ t ∧ d.table.version t' id = some row' := by
    intro t' id row' hv
    rw [ReadCommitted.Table.commit, ReadCommitted.Table.version_erase] at hv
    split_ifs at hv with hne
    exact ⟨hne, hv⟩
  refine ⟨?_, ?_, ?_, ?_, ?_⟩
  · refine ReadCommitted.Table.exclusive_of_versions h.exclusive ?_
    intro t' id hv
    obtain ⟨row, hrow⟩ := Option.isSome_iff_exists.mp hv
    simp [(hversion t' id row hrow).2]
  · exact fun t' id row' hv => h.versionFinished t' id row' (hversion t' id row' hv).2
  · intro t' id row row' hv hlookup hf
    obtain ⟨hne, hv⟩ := hversion t' id row' hv
    rw [ReadCommitted.Table.lookup_rows_commit, ReadCommitted.Table.visible] at hlookup
    -- The row is not one that the transaction commits: `t'` holds it.
    have hother : d.table.version t id = none := by
      cases hvt : d.table.version t id with
      | none => rfl
      | some _ => exact absurd (h.exclusive t' t id (by simp [hv]) (by simp [hvt])) hne
    rw [hother, Option.none_or] at hlookup
    exact h.versionAgrees t' id row row' hv hlookup hf
  · intro t' m hm
    cases hv : (d.table.commit t).version t' m.id with
    | none => rfl
    | some row =>
      have hnone := h.checkedFree t' m hm
      rw [(hversion t' m.id row hv).2] at hnone
      cases hnone
  · intro t' m row hm hlookup hf
    rw [ReadCommitted.Table.lookup_rows_commit, ReadCommitted.Table.visible] at hlookup
    cases hv : d.table.version t m.id with
    | none =>
      rw [hv, Option.none_or] at hlookup
      exact h.checkedAgrees t' m row hm hlookup hf
    | some own =>
      rw [hv] at hlookup
      obtain rfl := Option.some.inj hlookup
      have hsame := hlate m.id own hv
      simp only [Endangered, not_exists, not_and, not_not] at hsame
      exact (hsame t' m hm rfl).symm

theorem Settled.finish (h : d.Settled) {id : BuildID} {row' : BuildRow}
    (hfree : d.table.locked none id = false)
    (hlate : ¬ d.Endangered id row'.buildStatus) :
    { d with table := { d.table with rows := d.table.rows.insert id row' } }.Settled := by
  refine ⟨h.exclusive, h.versionFinished, ?_, h.checkedFree, ?_⟩
  · intro t id' row own hv hlookup hf
    rw [Map.lookup_insert_eq] at hlookup
    split_ifs at hlookup with he
    · subst he
      have hnone : d.table.version t id' = none :=
        ReadCommitted.Table.not_locked hfree (by simp)
      have hsome : d.table.version t id' = some own := hv
      rw [hnone] at hsome
      cases hsome
    · exact h.versionAgrees t id' row own hv hlookup hf
  · intro t m row hm hlookup hf
    rw [Map.lookup_insert_eq] at hlookup
    split_ifs at hlookup with he
    · obtain rfl := Option.some.inj hlookup
      simp only [Endangered, not_exists, not_and, not_not] at hlate
      exact (hlate t m hm he).symm
    · exact h.checkedAgrees t m row hm hlookup hf

theorem Settled.step (h : d.Settled) (hstep : Step d d' a) (hlate : NoLateFinish d a) :
    d'.Settled := by
  cases hstep with
  | quiet hrows hversions hchecked => exact h.quiet hrows hversions hchecked
  | look t m row hvisible hrow heq => exact heq ▸ h.look hvisible hrow
  | write t id row row' hfree hvisible hrow' hwhy hrows hversions hchecked =>
    exact h.write hfree hvisible hrow' hwhy hrows hversions hchecked
  | commit t heq => exact heq ▸ h.commit hlate
  | finish id row row' hfree _ _ _ hnot heq => exact heq ▸ h.finish hfree (hnot hlate)

/-! ## Whole runs -/

theorem Final.refl (d : BuildsDb) : d.Final d :=
  fun _ row hlookup hrow => ⟨row, hlookup, hrow, rfl⟩

theorem Final.trans {d'' : BuildsDb} (h : d.Final d') (h' : d'.Final d'') : d.Final d'' := by
  intro id row hlookup hrow
  obtain ⟨row', hlookup', hrow', hstatus'⟩ := h id row hlookup hrow
  obtain ⟨row'', hlookup'', hrow'', hstatus''⟩ := h' id row' hlookup' hrow'
  exact ⟨row'', hlookup'', hrow'', hstatus''.trans hstatus'⟩

theorem Settled.reach (h : d.Settled) (hrun : Lts.Reach next NoLateFinish d d') :
    d'.Settled ∧ d.Final d' := by
  refine hrun.invariant (I := fun e => e.Settled ∧ d.Final e) ⟨h, Final.refl d⟩ ?_
  intro e a e' ⟨hsettled, hfinal⟩ hlate hnext
  have hstep := step_of_next hnext
  exact ⟨hsettled.step hstep hlate, hfinal.trans (hsettled.final hstep)⟩

end BuildsDb

/-- In a run in which no build is finished between the `SELECT` and the
`UPDATE` of a `mark_succeeded_build` that is going to write another status,
a build that is finished stays finished with its status, to the end of the
run and in the step that comes next, whichever it is. -/
theorem finishedFinal_runs {d₀ d d' : BuildsDb} (hrest : d₀.AtRest)
    (h : Lts.Reach BuildsDb.next NoLateFinish d₀ d)
    (h' : Lts.Reach BuildsDb.next NoLateFinish d d') :
    d.Final d' ∧ ∀ a d'', d'.next a = some d'' → d.Final d'' := by
  have hsettled := (hrest.settled.reach h).1
  obtain ⟨hsettled', hfinal⟩ := hsettled.reach h'
  exact ⟨hfinal, fun a d'' hnext =>
    hfinal.trans (hsettled'.final (BuildsDb.step_of_next hnext))⟩

theorem BuildsDb.endangered_iff {d : BuildsDb} {id : BuildID} {status : Option BuildStatus} :
    d.Endangered id status ↔
      ∃ e ∈ d.checked.entries, e.2.id = id ∧ some e.2.status ≠ status := by
  constructor
  · rintro ⟨t, m, hm, hrest⟩
    exact ⟨⟨t, m⟩, AList.mem_lookup_iff.mp hm, hrest⟩
  · rintro ⟨⟨t, m⟩, hm, hrest⟩
    exact ⟨t, m, AList.mem_lookup_iff.mpr hm, hrest⟩

instance (d : BuildsDb) (id : BuildID) (status : Option BuildStatus) :
    Decidable (d.Endangered id status) :=
  decidable_of_iff _ BuildsDb.endangered_iff.symm

theorem noLateFinish_commit_iff {d : BuildsDb} {t : Nat} :
    NoLateFinish d (.commit t) ↔
      ∀ m ∈ d.table.versions.lookup t, ∀ e ∈ m.entries, ¬ d.Endangered e.1 e.2.buildStatus := by
  constructor
  · intro h m hm e he
    refine h e.1 e.2 ?_
    rw [ReadCommitted.Table.version, Option.mem_def.mp hm, Option.bind_some]
    exact AList.mem_lookup_iff.mpr he
  · intro h id row hv
    obtain ⟨m, hm, hrow⟩ := Option.bind_eq_some_iff.mp hv
    exact h m hm ⟨id, row⟩ (AList.mem_lookup_iff.mp hrow)

instance (d : BuildsDb) (a : DbAction) : Decidable (NoLateFinish d a) :=
  match a with
  | .commit _ => decidable_of_iff _ noLateFinish_commit_iff.symm
  | .abortBuild id _ => inferInstanceAs (Decidable (∀ row ∈ d.table.rows.lookup id,
      row.finished = false → ¬ d.Endangered id (some .aborted)))
  | .cancel id cancelled => inferInstanceAs (Decidable (∀ row ∈ d.table.rows.lookup id,
      row.finished = false → ¬ d.Endangered id cancelled.buildStatus))
  | .begin _ | .markSucceededBuild _ _ | .updateBuild _ | .updateBuildAfterFailure ..
  | .updateBuildAfterPreviousFailure .. | .rollback _ => inferInstanceAs (Decidable True)

/-- One build that is not finished. -/
def oneBuild : BuildsDb :=
  { table := { rows := (∅ : Map BuildID BuildRow).insert 5 {} } }

/-- The statuses of the build with id five, in the rows. -/
def statusOfFive (d : BuildsDb) : Option (Bool × Option BuildStatus) :=
  (d.table.rows.lookup 5).map (fun row => (row.finished, row.buildStatus))

/-- A call marks the build as succeeded, and a cancellation comes later. -/
theorem finishedFinal_runs_cancelled : ∃ d d',
    Lts.Reach BuildsDb.next NoLateFinish oneBuild d ∧
      Lts.Reach BuildsDb.next NoLateFinish d d' ∧
      statusOfFive d = some (true, some .success) ∧ d.Final d' := by
  have hfirst : (Lts.runWith BuildsDb.next NoLateFinish oneBuild
      [.begin 1, .markSucceededBuild 1 { id := 5 }, .updateBuild 1, .commit 1]).map
      (fun d => (statusOfFive d,
        (Lts.runWith BuildsDb.next NoLateFinish d
          [.cancel 5 { buildStatus := some .cancelled }]).isSome)) =
      some (some (true, some .success), true) := by decide +kernel
  obtain ⟨d, hd, he⟩ := Option.map_eq_some_iff.mp hfirst
  simp only [Prod.mk.injEq] at he
  obtain ⟨d', hd'⟩ := Option.isSome_iff_exists.mp he.2
  have hreach := Lts.reach_of_runWith hd
  have hreach' := Lts.reach_of_runWith hd'
  exact ⟨d, d', hreach, hreach', he.1, (finishedFinal_runs ⟨rfl, rfl⟩ hreach hreach').1⟩

/-- The user cancels the build while its last step completes, and the build
is turned into a succeeded one. -/
theorem finishedFinal_fails :
    ¬ ∀ d₀ d d' : BuildsDb, d₀.AtRest → Lts.Reach BuildsDb.next Lts.anyStep d₀ d →
      Lts.Reach BuildsDb.next Lts.anyStep d d' → d.Final d' := by
  intro hall
  have hrun : (Lts.run BuildsDb.next oneBuild
      [.begin 1, .markSucceededBuild 1 { id := 5 },
        .cancel 5 { buildStatus := some .cancelled }]).map
      (fun d => (d.table.rows.lookup 5,
        (Lts.run BuildsDb.next d [.updateBuild 1, .commit 1]).map statusOfFive)) =
      some (some { finished := true, buildStatus := some .cancelled },
        some (some (true, some .success))) := by decide +kernel
  obtain ⟨d, hd, he⟩ := Option.map_eq_some_iff.mp hrun
  simp only [Prod.mk.injEq] at he
  obtain ⟨d', hd', he'⟩ := Option.map_eq_some_iff.mp he.2
  obtain ⟨row', hrow', -, hstatus⟩ := hall oneBuild d d' ⟨rfl, rfl⟩ (Lts.reach_of_run hd)
    (Lts.reach_of_run hd') 5 _ he.1 rfl
  rw [statusOfFive, hrow'] at he'
  simp [hstatus] at he'

end QueueRunner
