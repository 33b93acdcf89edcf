import Mathlib.Data.Finset.Card
import Mathlib.Logic.Relation

/-!
# Walks with a worklist

A walk over a graph keeps a list of nodes to visit and a set of nodes that
were queued.  It takes the first node, and appends the successors that
were not queued before.  Nodes are compared by a key, as in a hash set
whose elements compare by one of their fields, and the first node is
visited without being queued.

`mem_visits` says when such a walk visits every node that it can reach:
when no two of these nodes have the same key.  Each turn of the loop is a
unit of fuel, and one unit more than there are keys is enough.
-/

namespace QueueRunner

namespace Worklist

variable {α K : Type} [DecidableEq K] (key : α → K) (next : α → List α)

/-- A node can be reached through successors. -/
abbrev Reaches : α → α → Prop := Relation.ReflTransGen (fun x y => y ∈ next x)

/-- The successors that were not queued before. -/
def unqueued (queued : List α) (x : α) : List α :=
  (next x).filter (fun y => !queued.any (fun z => key z == key y))

/-- The nodes that a walk visits, in their order. -/
def visits : Nat → List α → List α → List α
  | 0, _, _ => []
  | _ + 1, _, [] => []
  | n + 1, queued, x :: todo =>
    x :: visits n (queued ++ unqueued key next queued x) (todo ++ unqueued key next queued x)

variable {key next} {root : α} {U : Finset K}

theorem mem_unqueued {queued : List α} {x y : α} :
    y ∈ unqueued key next queued x ↔ y ∈ next x ∧ ∀ z ∈ queued, key z ≠ key y := by
  simp [unqueued]

/-- The invariant of the loop, with the nodes that were visited so far. -/
structure Inv (key : α → K) (next : α → List α) (root : α) (seen queued todo : List α) :
    Prop where
  reachesSeen : ∀ x ∈ seen, Reaches next root x
  reachesTodo : ∀ x ∈ todo, Reaches next root x
  placed : ∀ x ∈ queued, x ∈ seen ∨ x ∈ todo
  closed : ∀ x ∈ seen, ∀ y ∈ next x, ∃ z ∈ queued, key z = key y

/-- One turn of the loop. -/
theorem Inv.turn {seen queued todo : List α} {x : α}
    (h : Inv key next root seen queued (x :: todo)) :
    Inv key next root (x :: seen) (queued ++ unqueued key next queued x)
      (todo ++ unqueued key next queued x) where
  reachesSeen y hy := by
    rcases List.mem_cons.mp hy with rfl | hy
    · exact h.reachesTodo y List.mem_cons_self
    · exact h.reachesSeen y hy
  reachesTodo y hy := by
    rcases List.mem_append.mp hy with hy | hy
    · exact h.reachesTodo y (List.mem_cons_of_mem _ hy)
    · exact (h.reachesTodo x List.mem_cons_self).tail (mem_unqueued.mp hy).1
  placed y hy := by
    rcases List.mem_append.mp hy with hy | hy
    · rcases h.placed y hy with hy | hy
      · exact Or.inl (List.mem_cons_of_mem _ hy)
      · rcases List.mem_cons.mp hy with rfl | hy
        · exact Or.inl List.mem_cons_self
        · exact Or.inr (List.mem_append_left _ hy)
    · exact Or.inr (List.mem_append_right _ hy)
  closed y hy z hz := by
    have hold : (∃ w ∈ queued, key w = key z) →
        ∃ w ∈ queued ++ unqueued key next queued x, key w = key z :=
      fun ⟨w, hw, he⟩ => ⟨w, List.mem_append_left _ hw, he⟩
    rcases List.mem_cons.mp hy with rfl | hy
    · by_cases hq : ∃ w ∈ queued, key w = key z
      · exact hold hq
      · refine ⟨z, List.mem_append_right _ (mem_unqueued.mpr ⟨hz, fun w hw he => ?_⟩), rfl⟩
        exact hq ⟨w, hw, he⟩
    · exact hold (h.closed y hy z hz)

omit [DecidableEq K] in
/-- When nothing is left to visit, the visited nodes are closed. -/
theorem Inv.mem_of_done {seen queued : List α} (h : Inv key next root seen queued [])
    (hkey : ∀ x y, Reaches next root x → Reaches next root y → key x = key y → x = y)
    {x y : α} (hx : x ∈ seen) (hy : y ∈ next x) : y ∈ seen := by
  obtain ⟨z, hz, he⟩ := h.closed x hx y hy
  have hseen : z ∈ seen := (h.placed z hz).resolve_right (by simp)
  rw [← hkey z y (h.reachesSeen z hseen) ((h.reachesSeen x hx).tail hy) he]
  exact hseen

/-- The keys that are left decrease by those that a turn queues. -/
theorem card_unqueued (queued : List α) {x : α} (hnodup : ((next x).map key).Nodup)
    (hU : ∀ y ∈ next x, key y ∈ U) :
    (U \ ((queued ++ unqueued key next queued x).map key).toFinset).card +
      (unqueued key next queued x).length = (U \ (queued.map key).toFinset).card := by
  have hsub : ((unqueued key next queued x).map key).toFinset ⊆ U \ (queued.map key).toFinset := by
    intro k hk
    obtain ⟨y, hy, rfl⟩ := List.mem_map.mp (List.mem_toFinset.mp hk)
    obtain ⟨hmem, hne⟩ := mem_unqueued.mp hy
    refine Finset.mem_sdiff.mpr ⟨hU y hmem, fun hq => ?_⟩
    obtain ⟨z, hz, he⟩ := List.mem_map.mp (List.mem_toFinset.mp hq)
    exact hne z hz he
  have hkeys : ((unqueued key next queued x).map key).Nodup :=
    hnodup.sublist (List.filter_sublist.map key)
  have hlength : ((unqueued key next queued x).map key).toFinset.card =
      (unqueued key next queued x).length := by
    rw [List.toFinset_card_of_nodup hkeys, List.length_map]
  rw [List.map_append, List.toFinset_append, Finset.sdiff_union_distrib,
    ← Finset.sdiff_sdiff_left', ← hlength, Finset.card_sdiff_add_card_eq_card hsub]

/-- A walk with enough fuel visits what it has to, and what it visits is
closed under successors. -/
theorem closed_visits (hkey : ∀ x y, Reaches next root x → Reaches next root y →
      key x = key y → x = y)
    (hnodup : ∀ x, Reaches next root x → ((next x).map key).Nodup)
    (hU : ∀ x, Reaches next root x → ∀ y ∈ next x, key y ∈ U) {n : Nat}
    {seen queued todo : List α} (h : Inv key next root seen queued todo)
    (hn : todo.length + (U \ (queued.map key).toFinset).card ≤ n) :
    (∀ x ∈ todo, x ∈ visits key next n queued todo) ∧
      ∀ x, x ∈ seen ∨ x ∈ visits key next n queued todo → ∀ y ∈ next x,
        y ∈ seen ∨ y ∈ visits key next n queued todo := by
  induction n generalizing seen queued todo with
  | zero =>
    obtain rfl : todo = [] := List.length_eq_zero_iff.mp (by omega)
    refine ⟨by simp, fun x hx y hy => Or.inl ?_⟩
    exact h.mem_of_done hkey (hx.resolve_right (by simp [visits])) hy
  | succ n ih =>
    cases todo with
    | nil =>
      refine ⟨by simp, fun x hx y hy => Or.inl ?_⟩
      exact h.mem_of_done hkey (hx.resolve_right (by simp [visits])) hy
    | cons x todo =>
      have hx := h.reachesTodo x List.mem_cons_self
      have hcard := card_unqueued queued (hnodup x hx) (hU x hx)
      obtain ⟨htodo, hclosed⟩ := ih h.turn (by
        simp only [List.length_append, List.length_cons] at hn ⊢
        omega)
      have hmem : ∀ y, y ∈ x :: seen ∨ y ∈ visits key next n
          (queued ++ unqueued key next queued x) (todo ++ unqueued key next queued x) ↔
          y ∈ seen ∨ y ∈ visits key next (n + 1) queued (x :: todo) := by
        intro y
        simp only [visits, List.mem_cons]
        tauto
      refine ⟨fun y hy => ?_, fun y hy z hz => (hmem z).mp (hclosed y ((hmem y).mpr hy) z hz)⟩
      rcases List.mem_cons.mp hy with rfl | hy
      · exact List.mem_cons_self
      · exact List.mem_cons_of_mem _ (htodo y (List.mem_append_left _ hy))

/-- A walk visits every node that it can reach, when their keys differ. -/
theorem mem_visits (hkey : ∀ x y, Reaches next root x → Reaches next root y →
      key x = key y → x = y)
    (hnodup : ∀ x, Reaches next root x → ((next x).map key).Nodup)
    (hU : ∀ x, Reaches next root x → ∀ y ∈ next x, key y ∈ U) {n : Nat} (hn : U.card + 1 ≤ n)
    {x : α} (hx : Reaches next root x) : x ∈ visits key next n [] [root] := by
  have hinv : Inv key next root [] [] [root] :=
    ⟨by simp, by simp [Relation.ReflTransGen.refl], by simp, by simp⟩
  obtain ⟨htodo, hclosed⟩ := closed_visits hkey hnodup hU hinv (n := n) (by
    simp only [List.length_singleton, List.map_nil, List.toFinset_nil, Finset.sdiff_empty]
    omega)
  induction hx with
  | refl => exact htodo root List.mem_cons_self
  | tail _ hstep ih => exact (hclosed _ (Or.inr ih) _ hstep).resolve_left (by simp)

end Worklist

end QueueRunner
