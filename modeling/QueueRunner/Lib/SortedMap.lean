import Mathlib.Data.List.Pairwise
import Mathlib.Order.Lattice
import Mathlib.Data.List.Perm.Basic
import Mathlib.Data.List.DropRight

/-!
# Sorted maps

A B-tree map is modelled by its entries in the order of the keys.  The
first entry is the head of the list.  `perm_insert` says what an insertion
leaves of the other entries: the one with the same key goes.
-/

namespace QueueRunner

/-- A map with its entries in the order of the keys. -/
structure SortedMap (K V : Type) [LinearOrder K] where
  entries : List (K × V)
  sorted : entries.Pairwise (fun a b => a.1 < b.1)

namespace SortedMap

variable {K V : Type} [LinearOrder K]

/-- The map without entries. -/
def empty : SortedMap K V := ⟨[], .nil⟩

/-- The entries after an insertion. -/
def insertEntry (k : K) (v : V) : List (K × V) → List (K × V)
  | [] => [(k, v)]
  | e :: l =>
    if k < e.1 then (k, v) :: e :: l
    else if k = e.1 then (k, v) :: l
    else e :: insertEntry k v l

theorem mem_insertEntry {k : K} {v : V} {l : List (K × V)} {e : K × V}
    (h : e ∈ insertEntry k v l) : e = (k, v) ∨ e ∈ l := by
  induction l with
  | nil => exact Or.inl (List.mem_singleton.mp h)
  | cons e' l ih =>
    unfold insertEntry at h
    split_ifs at h
    · exact List.mem_cons.mp h
    · exact (List.mem_cons.mp h).imp id (List.mem_cons_of_mem _)
    · rcases List.mem_cons.mp h with rfl | h
      · exact Or.inr List.mem_cons_self
      · exact (ih h).imp id (List.mem_cons_of_mem _)

theorem sorted_insertEntry (k : K) (v : V) {l : List (K × V)}
    (h : l.Pairwise (fun a b => a.1 < b.1)) :
    (insertEntry k v l).Pairwise (fun a b => a.1 < b.1) := by
  induction l with
  | nil => exact List.pairwise_singleton _ _
  | cons e l ih =>
    obtain ⟨hhead, htail⟩ := List.pairwise_cons.mp h
    unfold insertEntry
    split_ifs with hlt heq
    · refine List.pairwise_cons.mpr ⟨fun e' he' => ?_, h⟩
      rcases List.mem_cons.mp he' with rfl | he'
      · exact hlt
      · exact hlt.trans (hhead e' he')
    · exact List.pairwise_cons.mpr ⟨fun e' he' => heq ▸ hhead e' he', htail⟩
    · refine List.pairwise_cons.mpr ⟨fun e' he' => ?_, ih htail⟩
      rcases mem_insertEntry he' with rfl | he'
      · exact lt_of_le_of_ne (not_lt.mp hlt) (Ne.symm heq)
      · exact hhead e' he'

/-- `insert`: an entry with the same key is replaced. -/
def insert (m : SortedMap K V) (k : K) (v : V) : SortedMap K V :=
  ⟨insertEntry k v m.entries, sorted_insertEntry k v m.sorted⟩

/-- The entries of the other keys stay. -/
theorem perm_insertEntry (k : K) (v : V) {l : List (K × V)}
    (h : l.Pairwise (fun a b => a.1 < b.1)) :
    (insertEntry k v l).Perm ((k, v) :: l.filter (fun e => e.1 ≠ k)) := by
  induction l with
  | nil => exact .refl _
  | cons e l ih =>
    obtain ⟨hhead, htail⟩ := List.pairwise_cons.mp h
    have hkeep : k ≤ e.1 → l.filter (fun e => e.1 ≠ k) = l := by
      intro hle
      rw [List.filter_eq_self]
      intro e' he'
      exact decide_eq_true (ne_of_gt (lt_of_le_of_lt hle (hhead e' he')))
    unfold insertEntry
    split_ifs with hlt heq
    · rw [List.filter_cons_of_pos (by simpa using ne_of_gt hlt), hkeep hlt.le]
    · rw [List.filter_cons_of_neg (by simpa using heq.symm), hkeep heq.le]
    · rw [List.filter_cons_of_pos (by simpa using Ne.symm heq)]
      exact ((ih htail).cons e).trans (List.Perm.swap _ _ _)

theorem perm_insert (m : SortedMap K V) (k : K) (v : V) :
    (m.insert k v).entries.Perm ((k, v) :: m.entries.filter (fun e => e.1 ≠ k)) :=
  perm_insertEntry k v m.sorted

/-- The first entries, up to a key, are those with a small key. -/
theorem dropWhile_eq_filter {l : List (K × V)} (h : l.Pairwise (fun a b => a.1 < b.1)) (k : K) :
    l.dropWhile (fun e => e.1 ≤ k) = l.filter (fun e => k < e.1) := by
  induction l with
  | nil => rfl
  | cons e l ih =>
    obtain ⟨hhead, htail⟩ := List.pairwise_cons.mp h
    by_cases hle : e.1 ≤ k
    · rw [List.dropWhile_cons_of_pos (by simpa using hle), ih htail,
        List.filter_cons_of_neg (by simpa using hle)]
    · rw [List.dropWhile_cons_of_neg (by simpa using hle), eq_comm, List.filter_eq_self]
      intro e' he'
      rcases List.mem_cons.mp he' with rfl | he'
      · simpa using hle
      · exact decide_eq_true ((not_le.mp hle).trans (hhead e' he'))

end SortedMap

end QueueRunner
