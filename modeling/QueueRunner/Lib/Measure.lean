import QueueRunner.Lib.Map
import Mathlib.Algebra.Order.BigOperators.Group.List
import Mathlib.Algebra.Order.Ring.Nat
import Mathlib.Order.OrderIsoNat

/-!
# Measures

A run ends when a measure decreases with each of its steps.  In a system
with several tasks the steps of one task decrease its measure, and the
steps of the others do not increase it: then the task takes finitely many
steps, however the tasks take turns.

The measure of a pool of tasks is the sum of the measures of the tasks.
-/

namespace Map

variable {K V : Type} [DecidableEq K]

/-- The sum of a measure over the values of a map. -/
def weight (f : V → Nat) (m : Map K V) : Nat := (m.values.map f).sum

private theorem sum_kerase (f : V → Nat) (k : K) (l : List (Sigma fun _ : K => V)) :
    ((l.kerase k).map (fun e => f e.2)).sum + (l.dlookup k).elim 0 f =
      (l.map (fun e => f e.2)).sum := by
  induction l with
  | nil => rfl
  | cons e l ih =>
    by_cases he : k = e.1
    · subst he
      rw [List.kerase_cons_eq rfl, List.dlookup_cons_eq, List.map_cons, List.sum_cons,
        Nat.add_comm]
      rfl
    · rw [List.kerase_cons_ne he, List.dlookup_cons_ne _ _ he]
      simp only [List.map_cons, List.sum_cons]
      omega

theorem weight_erase (f : V → Nat) (m : Map K V) (k : K) :
    weight f (m.erase k) + (m.lookup k).elim 0 f = weight f m := by
  simp only [weight, values, List.map_map]
  exact sum_kerase f k m.entries

theorem weight_insert (f : V → Nat) (m : Map K V) (k : K) (v : V) :
    weight f (m.insert k v) + (m.lookup k).elim 0 f = weight f m + f v := by
  have herase := weight_erase f m k
  have hinsert : weight f (m.insert k v) = f v + weight f (m.erase k) := by
    have hentries : (m.erase k).entries = m.entries.kerase k := rfl
    simp [weight, values, AList.entries_insert, hentries]
  omega

/-- A value is replaced. -/
theorem weight_replace (f : V → Nat) {m : Map K V} {k : K} {v : V} (hk : m.lookup k = some v)
    (v' : V) : weight f (m.insert k v') + f v = weight f m + f v' := by
  have hinsert := weight_insert f m k v'
  rwa [hk, Option.elim_some] at hinsert

theorem weight_insert_le (f : V → Nat) (m : Map K V) (k : K) (v : V) :
    weight f (m.insert k v) ≤ weight f m + f v := by
  rw [← weight_insert f m k v]
  exact Nat.le_add_right _ _

theorem weight_erase_le (f : V → Nat) (m : Map K V) (k : K) :
    weight f (m.erase k) ≤ weight f m := by
  rw [← weight_erase f m k]
  exact Nat.le_add_right _ _

/-- A value counts at most as much as the whole map. -/
theorem le_weight (f : V → Nat) {m : Map K V} {k : K} {v : V} (hk : m.lookup k = some v) :
    f v ≤ weight f m := by
  have herase := weight_erase f m k
  rw [hk, Option.elim_some] at herase
  omega

/-- A map without a weight holds values without a weight. -/
theorem weight_eq_zero_iff (f : V → Nat) (m : Map K V) :
    weight f m = 0 ↔ All (fun v => f v = 0) m := by
  unfold weight
  rw [List.sum_eq_zero_iff]
  constructor
  · intro h k v hk
    exact h _ (List.mem_map_of_mem (mem_values_iff.mpr ⟨k, hk⟩))
  · intro h n hn
    obtain ⟨v, hv, rfl⟩ := List.mem_map.mp hn
    obtain ⟨k, hk⟩ := mem_values_iff.mp hv
    exact h k v hk

omit [DecidableEq K] in
/-- The weight of a test is the number of the values that pass it. -/
theorem weight_ite_eq_countP (p : V → Bool) (m : Map K V) :
    weight (fun v => if p v then 1 else 0) m = m.values.countP p := by
  unfold weight
  induction m.values with
  | nil => rfl
  | cons v vs ih =>
    rw [List.map_cons, List.sum_cons, ih, List.countP_cons]
    omega

omit [DecidableEq K] in
theorem weight_retain_le (f : V → Nat) (m : Map K V) (p : K → V → Bool) :
    weight f (m.retain p) ≤ weight f m := by
  have hsub : ((m.retain p).values.map f).Sublist (m.values.map f) :=
    (List.filter_sublist.map _).map _
  exact hsub.sum_le_sum (fun _ _ => Nat.zero_le _)

/-- At most one value is replaced, by one that `R` relates to it. -/
inductive Touches (R : V → V → Prop) (m : Map K V) : Map K V → Prop where
  | refl : Touches R m m
  | insert {k : K} {v v' : V} (hk : m.lookup k = some v) (hv : R v v') :
      Touches R m (m.insert k v')

namespace Touches

variable {R : V → V → Prop} {m m' : Map K V}

theorem lookup (h : Touches R m m') {k : K} {v' : V} (hk : m'.lookup k = some v') :
    ∃ v, m.lookup k = some v ∧ (v' = v ∨ R v v') := by
  cases h with
  | refl => exact ⟨v', hk, Or.inl rfl⟩
  | @insert k' v v'' hv hR =>
    rw [lookup_insert_eq] at hk
    split_ifs at hk with he
    · cases hk
      exact ⟨v, he ▸ hv, Or.inr hR⟩
    · exact ⟨v', hk, Or.inl rfl⟩

theorem exists_lookup (h : Touches R m m') {k : K} {v : V} (hk : m.lookup k = some v) :
    ∃ v', m'.lookup k = some v' ∧ (v' = v ∨ R v v') := by
  cases h with
  | refl => exact ⟨v, hk, Or.inl rfl⟩
  | @insert k' w w' hw hR =>
    rw [lookup_insert_eq]
    split_ifs with he
    · rw [he, hw] at hk
      cases hk
      exact ⟨w', rfl, Or.inr hR⟩
    · exact ⟨v, hk, Or.inl rfl⟩

theorem all (h : Touches R m m') {P : V → Prop} (hm : All P m) (hP : ∀ v v', R v v' → P v → P v') :
    All P m' := by
  intro k v' hk
  obtain ⟨v, hv, rfl | hR⟩ := h.lookup hk
  · exact hm k v' hv
  · exact hP v v' hR (hm k v hv)

theorem weight_eq (h : Touches R m m') {f : V → Nat} (hf : ∀ v v', R v v' → f v' = f v) :
    weight f m' = weight f m := by
  cases h with
  | refl => rfl
  | @insert k v v' hk hR =>
    have hreplace := weight_replace f hk v'
    rw [hf v v' hR] at hreplace
    omega

end Touches

end Map

namespace Lts

/-- The steps that decrease a measure which no step increases are finite
in number. -/
theorem finite_of_decreases {α : Type} [Preorder α] [WellFoundedLT α] {μ : ℕ → α} {S : Set ℕ}
    (hle : ∀ n, μ (n + 1) ≤ μ n) (hlt : ∀ n ∈ S, μ (n + 1) < μ n) : S.Finite := by
  classical
  by_contra hS
  have hinfinite : Infinite S := Set.infinite_coe_iff.mpr hS
  have hanti : Antitone μ := antitone_nat_of_succ_le hle
  refine not_strictAnti_of_wellFoundedLT (fun i => μ (Nat.orderEmbeddingOfSet S i)) ?_
  refine strictAnti_nat_of_succ_lt fun i => ?_
  have hnext : Nat.orderEmbeddingOfSet S i < Nat.orderEmbeddingOfSet S (i + 1) :=
    (Nat.orderEmbeddingOfSet S).strictMono (Nat.lt_succ_self i)
  calc μ (Nat.orderEmbeddingOfSet S (i + 1))
      ≤ μ (Nat.orderEmbeddingOfSet S i + 1) := hanti (Nat.succ_le_of_lt hnext)
    _ < μ (Nat.orderEmbeddingOfSet S i) := hlt _ (Nat.Subtype.ofNat S i).2

end Lts
