import Mathlib.Data.List.Nodup

/-!
# Rows in an order

A query without `ORDER BY` gives its rows in any order.  `Fetch` is such an
order, and `orderBy` sorts by an integer key.  Rows with distinct keys come
back in the order of their keys, whatever order they were fetched in
(`orderBy_eq_of_perm`).
-/

/-- The order in which a query gives its rows. -/
structure Fetch (α : Type) where
  rows : List α → List α
  perm : ∀ l, (rows l).Perm l

namespace Fetch

variable {α : Type}

/-- The rows in the order in which they were inserted. -/
def inOrder (α : Type) : Fetch α := ⟨fun l => l, fun l => List.Perm.refl l⟩

/-- `fetch_optional`: the first row. -/
def first (fetch : Fetch α) (l : List α) : Option α := (fetch.rows l).head?

theorem mem_of_first {fetch : Fetch α} {l : List α} {a : α} (h : fetch.first l = some a) :
    a ∈ l :=
  (fetch.perm l).mem_iff.mp (List.mem_of_mem_head? h)

end Fetch

section

variable {α : Type} (key : α → Int)

/-- `ORDER BY` an integer column. -/
def orderBy (l : List α) : List α := l.mergeSort (fun a b => key a ≤ key b)

theorem orderBy_perm (l : List α) : (orderBy key l).Perm l := List.mergeSort_perm l _

theorem pairwise_orderBy (l : List α) : (orderBy key l).Pairwise (fun a b => key a ≤ key b) := by
  have hsorted : (orderBy key l).Pairwise (fun a b => decide (key a ≤ key b) = true) := by
    apply List.pairwise_mergeSort
    · intro a b c hab hbc
      simp only [decide_eq_true_eq] at hab hbc ⊢
      omega
    · intro a b
      simp only [Bool.or_eq_true, decide_eq_true_eq]
      omega
  exact hsorted.imp fun h => by simpa using h

/-- Rows that were inserted with growing keys come back in this order. -/
theorem orderBy_eq_of_perm {l p : List α} (hl : l.Pairwise (fun a b => key a < key b))
    (hp : p.Perm l) : orderBy key p = l := by
  have hperm : (orderBy key p).Perm l := (orderBy_perm key p).trans hp
  have hkeys : (l.map key).Nodup := by
    rw [List.nodup_iff_pairwise_ne, List.pairwise_map]
    exact hl.imp fun h => by omega
  refine List.Perm.eq_of_pairwise (fun a b ha hb hab hba => ?_) (pairwise_orderBy key p)
    (hl.imp fun h => by omega) hperm
  have heq : key a = key b := by omega
  exact List.inj_on_of_nodup_map hkeys (hperm.mem_iff.mp ha) hb heq

end
