import Mathlib.Algebra.GroupWithZero.Nat
import Mathlib.Data.List.AList

/-!
# Finite maps

A hash map is modelled by its observable content, an association list
with one entry for each key.  `AList` of Mathlib is that list; this file
adds the operations that a program runs over a whole map: a change of
every value, the removal of the entries that fail a test, the extension by
another map, and the list of the values.

The entries of an `AList` have an order and those of a hash map have
none.  Where a program walks over a map, the order belongs to the caller.
-/

/-- A finite map from `K` to `V`. -/
abbrev Map (K V : Type) := AList (fun _ : K => V)

namespace Map

variable {K V W : Type}

/-- The values of the map, in the order of its entries. -/
def values (m : Map K V) : List V := m.entries.map Sigma.snd

/-- Change every value and keep the keys. -/
def mapValues (f : V → W) (m : Map K V) : Map K W where
  entries := m.entries.map (fun e => ⟨e.1, f e.2⟩)
  nodupKeys := by
    have hkeys : (m.entries.map (fun e => (⟨e.1, f e.2⟩ : Sigma fun _ : K => W))).keys
        = m.entries.keys := by
      simp [List.keys, List.map_map, Function.comp_def]
    rw [List.NodupKeys, hkeys]
    exact m.nodupKeys

/-- `HashMap::retain`: keep the entries that pass the test. -/
def retain (p : K → V → Bool) (m : Map K V) : Map K V where
  entries := m.entries.filter (fun e => p e.1 e.2)
  nodupKeys := m.nodupKeys.sublist List.filter_sublist

variable [DecidableEq K]

/-- A value that the map holds is found under some key. -/
theorem mem_values_iff {m : Map K V} {v : V} :
    v ∈ values m ↔ ∃ k, m.lookup k = some v := by
  constructor
  · intro h
    obtain ⟨⟨k, w⟩, hmem, rfl⟩ := List.mem_map.mp h
    exact ⟨k, AList.mem_lookup_iff.mpr hmem⟩
  · rintro ⟨k, hk⟩
    exact List.mem_map.mpr ⟨⟨k, v⟩, AList.mem_lookup_iff.mp hk, rfl⟩

@[simp] theorem lookup_mapValues (f : V → W) (m : Map K V) (k : K) :
    (mapValues f m).lookup k = (m.lookup k).map f := by
  ext w
  rw [← Option.mem_def, AList.mem_lookup_iff]
  simp only [mapValues, List.mem_map, Option.map_eq_some_iff]
  constructor
  · rintro ⟨⟨k', v⟩, hmem, heq⟩
    cases heq
    exact ⟨v, AList.mem_lookup_iff.mpr hmem, rfl⟩
  · rintro ⟨v, hv, rfl⟩
    exact ⟨⟨k, v⟩, AList.mem_lookup_iff.mp hv, rfl⟩

@[simp] theorem lookup_retain (p : K → V → Bool) (m : Map K V) (k : K) :
    (retain p m).lookup k = (m.lookup k).filter (p k) := by
  ext v
  rw [← Option.mem_def, AList.mem_lookup_iff]
  simp only [retain, List.mem_filter, Option.filter_eq_some_iff]
  rw [← AList.mem_lookup_iff, Option.mem_def]

/-- The entry under `k` after an insert, for every `k`. -/
theorem lookup_insert_eq (m : Map K V) (k k' : K) (v : V) :
    (m.insert k' v).lookup k = if k = k' then some v else m.lookup k := by
  split
  · rename_i h
    subst h
    exact AList.lookup_insert m
  · rename_i h
    exact AList.lookup_insert_ne h

/-- The entry under `k` after a removal, for every `k`. -/
theorem lookup_erase_eq (m : Map K V) (k k' : K) :
    (m.erase k').lookup k = if k = k' then none else m.lookup k := by
  split
  · rename_i h
    subst h
    exact AList.lookup_erase k m
  · rename_i h
    exact AList.lookup_erase_ne h

/-- `HashMap::extend`: the entries of `m'` are inserted one after the
other. -/
def extend (m m' : Map K V) : Map K V :=
  m'.entries.foldl (fun m e => m.insert e.1 e.2) m

private theorem lookup_foldl_insert {l : List (Sigma fun _ : K => V)} (hl : l.NodupKeys)
    (m : Map K V) (k : K) :
    (l.foldl (fun m e => AList.insert e.1 e.2 m) m).lookup k =
      (l.dlookup k).or (m.lookup k) := by
  induction l generalizing m with
  | nil => rfl
  | cons e l ih =>
    obtain ⟨hnotin, hl⟩ := List.nodupKeys_cons.mp hl
    rw [List.foldl_cons, ih hl, lookup_insert_eq]
    by_cases hk : k = e.1
    · subst hk
      rw [List.dlookup_eq_none.mpr hnotin, List.dlookup_cons_eq]
      simp
    · rw [List.dlookup_cons_ne _ _ hk, if_neg hk]

/-- The entry under `k` after an extension, for every `k`. -/
theorem lookup_extend (m m' : Map K V) (k : K) :
    (extend m m').lookup k = (m'.lookup k).or (m.lookup k) :=
  lookup_foldl_insert m'.nodupKeys m k

/-- Every value of the map has `P`. -/
def All (P : V → Prop) (m : Map K V) : Prop := ∀ k v, m.lookup k = some v → P v

namespace All

variable {P Q : V → Prop} {m : Map K V}

theorem mono (h : All P m) (hPQ : ∀ v, P v → Q v) : All Q m := fun k v hk => hPQ v (h k v hk)

theorem insert (h : All P m) (k : K) {v : V} (hv : P v) : All P (m.insert k v) := by
  intro k' w hk
  rw [lookup_insert_eq] at hk
  split_ifs at hk
  · cases hk
    exact hv
  · exact h k' w hk

theorem erase (h : All P m) (k : K) : All P (m.erase k) := by
  intro k' w hk
  rw [lookup_erase_eq] at hk
  split_ifs at hk
  exact h k' w hk

theorem retain (h : All P m) (p : K → V → Bool) : All P (retain p m) := by
  intro k w hk
  rw [lookup_retain, Option.filter_eq_some_iff] at hk
  exact h k w hk.1

end All

private theorem sum_indicator (l : List K) (k₀ : K) :
    (l.map (fun k => if k = k₀ then 1 else 0)).sum = l.count k₀ := by
  induction l with
  | nil => rfl
  | cons k l ih =>
    simp only [List.map_cons, List.sum_cons, ih, List.count_cons, beq_iff_eq]
    omega

/-- A measure that is one at a key of the map and zero elsewhere adds up
to one. -/
theorem sum_values_eq_one {m : Map K V} {f : V → Nat} {k₀ : K} (hk : k₀ ∈ m)
    (hf : ∀ k v, m.lookup k = some v → f v = if k = k₀ then 1 else 0) :
    (m.values.map f).sum = 1 := by
  have hentries : m.values.map f =
      m.keys.map (fun k => if k = k₀ then 1 else 0) := by
    simp only [values, AList.keys, List.keys, List.map_map]
    apply List.map_congr_left
    intro e he
    exact hf e.1 e.2 (AList.mem_lookup_iff.mpr he)
  rw [hentries, sum_indicator]
  exact List.count_eq_one_of_mem m.keys_nodup hk

/-- One more entry with a new key. -/
theorem nodup_map_concat {α β : Type} {f : α → β} {l : List α} {x : α} (h : (l.map f).Nodup)
    (hnew : ∀ y ∈ l, f y ≠ f x) : ((l ++ [x]).map f).Nodup := by
  have hnot : f x ∉ l.map f := by
    intro hmem
    obtain ⟨y, hy, he⟩ := List.mem_map.mp hmem
    exact hnew y hy he
  rw [List.map_append, List.map_singleton, ← List.concat_eq_append]
  exact List.Nodup.concat hnot h

/-- No later entry has the key of the first one. -/
theorem ne_of_nodup_map_cons {α β : Type} {f : α → β} {x : α} {l : List α}
    (h : ((x :: l).map f).Nodup) : ∀ y ∈ l, f y ≠ f x := by
  intro y hy he
  rw [List.map_cons, List.nodup_cons] at h
  exact h.1 (he ▸ List.mem_map_of_mem hy)

end Map
