import QueueRunner.Lib.Map

/-!
# Transactions at the level read committed

One table with its open transactions.  A statement that changes a row
leaves a new version of the row with its transaction, and the version locks
the row: a statement of another transaction that wants to change the row
waits.  A statement sees the versions of its own transaction and otherwise
the committed rows, as they are when the statement runs.  Each statement is
one step.
-/

namespace ReadCommitted

variable {K V : Type} [DecidableEq K]

/-- A table: the committed rows, and the versions of each open transaction. -/
structure Table (K V : Type) where
  rows : Map K V := ∅
  versions : Map Nat (Map K V) := ∅

namespace Table

/-- The version of a row that a transaction has written. -/
def version (db : Table K V) (t : Nat) (k : K) : Option V :=
  (db.versions.lookup t).bind (fun m => m.lookup k)

/-- What a statement of the transaction sees of a row. -/
def visible (db : Table K V) (t : Nat) (k : K) : Option V :=
  (db.version t k).or (db.rows.lookup k)

/-- Whether a transaction other than `t` holds the row. -/
def locked (db : Table K V) (t : Option Nat) (k : K) : Bool :=
  db.versions.entries.any (fun e => some e.1 ≠ t && (e.2.lookup k).isSome)

/-- `BEGIN`. -/
def begin (db : Table K V) (t : Nat) : Table K V :=
  { db with versions := db.versions.insert t ∅ }

/-- `UPDATE … WHERE` of one row in a transaction; nothing while another
transaction holds the row.  `set` gives no value when the condition fails. -/
def update (db : Table K V) (t : Nat) (k : K) (set : V → Option V) : Option (Table K V) :=
  if db.locked (some t) k then none
  else
    match db.versions.lookup t, (db.visible t k).bind set with
    | some m, some v => some { db with versions := db.versions.insert t (m.insert k v) }
    | _, _ => some db

/-- `INSERT … ON CONFLICT DO NOTHING` of one row in a transaction; nothing
while another transaction holds the key.  The second component says whether
the row was inserted. -/
def insertNew (db : Table K V) (t : Nat) (k : K) (v : V) : Option (Table K V × Bool) :=
  if db.locked (some t) k then none
  else
    match db.versions.lookup t with
    | none => none
    | some m =>
      if (db.visible t k).isSome then some (db, false)
      else some ({ db with versions := db.versions.insert t (m.insert k v) }, true)

/-- A statement of its own, which commits at once. -/
def updateNow (db : Table K V) (k : K) (set : V → Option V) : Option (Table K V) :=
  if db.locked none k then none
  else
    match (db.rows.lookup k).bind set with
    | some v => some { db with rows := db.rows.insert k v }
    | none => some db

/-- `COMMIT`. -/
def commit (db : Table K V) (t : Nat) : Table K V where
  rows := (db.versions.lookup t).getD ∅ ∪ db.rows
  versions := db.versions.erase t

/-- `ROLLBACK`. -/
def rollback (db : Table K V) (t : Nat) : Table K V :=
  { db with versions := db.versions.erase t }

/-- Two transactions never hold the same row. -/
def Exclusive (db : Table K V) : Prop :=
  ∀ t t' k, (db.version t k).isSome → (db.version t' k).isSome → t = t'

theorem not_locked {db : Table K V} {t : Option Nat} {k : K} (h : db.locked t k = false)
    {t' : Nat} (hne : some t' ≠ t) : db.version t' k = none := by
  cases hm : db.versions.lookup t' with
  | none => simp [version, hm]
  | some m =>
    simp only [locked, List.any_eq_false, Bool.and_eq_true, not_and] at h
    have hk := h ⟨t', m⟩ (AList.mem_lookup_iff.mp hm) (by simpa using hne)
    simpa [version, hm] using hk

/-! ## The versions after each statement -/

theorem version_begin (db : Table K V) {t : Nat} (hnew : db.versions.lookup t = none)
    (t' : Nat) (k : K) : (db.begin t).version t' k = db.version t' k := by
  simp only [version, begin, Map.lookup_insert_eq]
  split_ifs with h
  · subst h
    simp [hnew]
  · rfl

/-- What an `UPDATE` does: it leaves the table, or it adds one version. -/
theorem update_cases {db db' : Table K V} {t : Nat} {k : K} {set : V → Option V}
    (h : db.update t k set = some db') :
    db.locked (some t) k = false ∧
      (db' = db ∨ ∃ v v', db.visible t k = some v ∧ set v = some v' ∧ db'.rows = db.rows ∧
        ∀ t' k', db'.version t' k' = if t' = t ∧ k' = k then some v' else db.version t' k') := by
  unfold update at h
  split_ifs at h with hl
  refine ⟨by simpa using hl, ?_⟩
  split at h
  · rename_i m v' hm hv
    obtain ⟨v, hvis, hset⟩ := Option.bind_eq_some_iff.mp hv
    obtain rfl := Option.some.inj h
    refine .inr ⟨v, v', hvis, hset, rfl, ?_⟩
    intro t' k'
    simp only [version, Map.lookup_insert_eq]
    by_cases ht : t' = t
    · subst ht
      simp [hm, Map.lookup_insert_eq]
    · simp [ht]
  · exact .inl (Option.some.inj h).symm

/-- What an `INSERT` does: the row is there, or it becomes a version. -/
theorem insertNew_cases {db db' : Table K V} {t : Nat} {k : K} {v : V} {inserted : Bool}
    (h : db.insertNew t k v = some (db', inserted)) :
    db.locked (some t) k = false ∧
      (inserted = false ∧ db' = db ∧ (db.visible t k).isSome = true ∨
        inserted = true ∧ db.visible t k = none ∧ db'.rows = db.rows ∧
          (∀ t', (db'.versions.lookup t').isSome = (db.versions.lookup t').isSome) ∧
          ∀ t' k', db'.version t' k' = if t' = t ∧ k' = k then some v else db.version t' k') := by
  cases hm : db.versions.lookup t with
  | none => simp [insertNew, hm] at h
  | some m =>
    simp only [insertNew, hm] at h
    split_ifs at h with hl hvis
    all_goals refine ⟨by simpa using hl, ?_⟩
    · cases h
      exact .inl ⟨rfl, rfl, hvis⟩
    · cases h
      refine .inr ⟨rfl, by simpa using hvis, rfl, ?_, ?_⟩
      · intro t'
        simp only [Map.lookup_insert_eq]
        split_ifs with ht
        · subst ht
          simp [hm]
        · rfl
      · intro t' k'
        simp only [version, Map.lookup_insert_eq]
        by_cases ht : t' = t
        · subst ht
          simp [hm, Map.lookup_insert_eq]
        · simp [ht]

theorem updateNow_cases {db db' : Table K V} {k : K} {set : V → Option V}
    (h : db.updateNow k set = some db') :
    db.locked none k = false ∧
      (db' = db ∨ ∃ v v', db.rows.lookup k = some v ∧ set v = some v' ∧
        db' = { db with rows := db.rows.insert k v' }) := by
  unfold updateNow at h
  split_ifs at h with hl
  refine ⟨by simpa using hl, ?_⟩
  split at h
  · rename_i v' hv
    obtain ⟨v, hrow, hset⟩ := Option.bind_eq_some_iff.mp hv
    exact .inr ⟨v, v', hrow, hset, (Option.some.inj h).symm⟩
  · exact .inl (Option.some.inj h).symm

theorem version_erase (db : Table K V) (rows : Map K V) (t t' : Nat) (k : K) :
    ({ rows := rows, versions := db.versions.erase t } : Table K V).version t' k =
      if t' = t then none else db.version t' k := by
  simp only [version, Map.lookup_erase_eq]
  split_ifs <;> rfl

/-- A commit makes the versions of the transaction the rows. -/
theorem lookup_rows_commit (db : Table K V) (t : Nat) (k : K) :
    (db.commit t).rows.lookup k = db.visible t k := by
  simp only [commit, visible, version]
  cases hm : db.versions.lookup t with
  | none => simp
  | some m =>
    simp only [Option.getD_some, Option.bind_some]
    cases hk : m.lookup k with
    | none =>
      have hnot : k ∉ m := AList.lookup_eq_none.mp hk
      rw [AList.lookup_union_right hnot]
      rfl
    | some v =>
      have hmem : k ∈ m := AList.lookup_isSome.mp (by simp [hk])
      rw [AList.lookup_union_left hmem, hk]
      rfl

/-! ## Locks -/

theorem exclusive_of_versions {db db' : Table K V} (h : db.Exclusive)
    (hsub : ∀ t k, (db'.version t k).isSome → (db.version t k).isSome) : db'.Exclusive :=
  fun t t' k ht ht' => h t t' k (hsub t k ht) (hsub t' k ht')

/-- A version that is added to a row that nobody else holds keeps the locks
apart. -/
theorem Exclusive.add {db db' : Table K V} (h : db.Exclusive) {t : Nat} {k : K} {v : V}
    (hl : db.locked (some t) k = false)
    (hv : ∀ t' k', db'.version t' k' = if t' = t ∧ k' = k then some v else db.version t' k') :
    db'.Exclusive := by
  have hholds : ∀ t', (db'.version t' k).isSome → t' = t := by
    intro t' ht'
    by_contra hne
    rw [hv, if_neg (fun hc => hne hc.1), not_locked hl (by simpa using hne)] at ht'
    cases ht'
  intro t₁ t₂ k' h₁ h₂
  by_cases hk : k' = k
  · subst hk
    rw [hholds t₁ h₁, hholds t₂ h₂]
  · rw [hv, if_neg (fun hc => hk hc.2)] at h₁ h₂
    exact h t₁ t₂ k' h₁ h₂

end Table

end ReadCommitted
