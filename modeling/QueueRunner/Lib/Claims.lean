import Mathlib.Algebra.Order.Group.Multiset
import Mathlib.Logic.Relation

/-!
# Traversals that claim their nodes

Workers traverse a graph and share the set of the nodes that were claimed.
A node that is asked for is skipped when it was claimed before.  Otherwise
it is claimed and opened, and when it is expanded its successors are asked
for.  Nothing is said about who does which step, and in which order.

A worker that skips a node relies on the one that has claimed it.
`mem_expanded_iff` says that this is enough: when nothing is left to do, the
expanded nodes are those that the roots lead to, and each of them was
claimed once.
-/

namespace Claims

variable {α : Type}

/-- The nodes that are asked for, the nodes that are open, and the claimed
and the expanded nodes in their order. -/
structure State (α : Type) where
  pending : Multiset α
  opened : Multiset α
  claimed : List α
  expanded : List α

/-- One step of one worker. -/
inductive Step (next : α → List α) : State α → State α → Prop where
  | skip {x : α} {p o : Multiset α} {c e : List α} (hx : x ∈ c) :
      Step next ⟨p + {x}, o, c, e⟩ ⟨p, o, c, e⟩
  | claim {x : α} {p o : Multiset α} {c e : List α} (hx : x ∉ c) :
      Step next ⟨p + {x}, o, c, e⟩ ⟨p, o + {x}, c ++ [x], e⟩
  | expand {x : α} {p o : Multiset α} {c e : List α} :
      Step next ⟨p, o + {x}, c, e⟩ ⟨p + (next x : Multiset α), o, c, e ++ [x]⟩

/-- The roots lead to the node. -/
def Reaches (next : α → List α) (roots : List α) (x : α) : Prop :=
  ∃ r ∈ roots, Relation.ReflTransGen (fun x y => y ∈ next x) r x

/-- What holds during a traversal.  A node that was asked for is still to be
done, or someone has claimed it. -/
structure Inv (next : α → List α) (roots : List α) (s : State α) : Prop where
  nodup : s.claimed.Nodup
  claimed : (s.claimed : Multiset α) = s.opened + (s.expanded : Multiset α)
  reaches : ∀ x, x ∈ s.pending ∨ x ∈ s.claimed → Reaches next roots x
  roots : ∀ x ∈ roots, x ∈ s.pending ∨ x ∈ s.claimed
  closed : ∀ x ∈ s.expanded, ∀ y ∈ next x, y ∈ s.pending ∨ y ∈ s.claimed

variable {next : α → List α} {roots : List α} {s s' : State α}

theorem Inv.start (next : α → List α) (roots : List α) :
    Inv next roots ⟨(roots : Multiset α), 0, [], []⟩ where
  nodup := List.nodup_nil
  claimed := by simp
  reaches x hx := ⟨x, by simpa using hx, .refl⟩
  roots x hx := .inl (by simpa using hx)
  closed x hx := by simp at hx

/-- What is still to be done or claimed stays so. -/
theorem Step.covered (h : Step next s s') {x : α} (hx : x ∈ s.pending ∨ x ∈ s.claimed) :
    x ∈ s'.pending ∨ x ∈ s'.claimed := by
  cases h with
  | skip hy =>
    rcases hx with hx | hx
    · rcases Multiset.mem_add.mp hx with hx | hx
      · exact .inl hx
      · exact .inr (Multiset.mem_singleton.mp hx ▸ hy)
    · exact .inr hx
  | claim =>
    rcases hx with hx | hx
    · rcases Multiset.mem_add.mp hx with hx | hx
      · exact .inl hx
      · exact .inr (List.mem_append_right _ (by simpa using hx))
    · exact .inr (List.mem_append_left _ hx)
  | expand =>
    rcases hx with hx | hx
    · exact .inl (Multiset.mem_add.mpr (.inl hx))
    · exact .inr hx

theorem Inv.step (hinv : Inv next roots s) (h : Step next s s') : Inv next roots s' := by
  have hcovered := fun x => h.covered (x := x)
  refine ⟨?nodup, ?claimed, ?reaches, fun x hx => hcovered x (hinv.roots x hx), ?closed⟩
  case nodup =>
    cases h with
    | skip | expand => exact hinv.nodup
    | claim hx =>
      exact List.nodup_append'.mpr ⟨hinv.nodup, List.nodup_singleton _, by simpa using hx⟩
  case claimed =>
    have hclaimed := hinv.claimed
    cases h with
    | skip => exact hclaimed
    | claim =>
      rw [← Multiset.coe_add, hclaimed, add_right_comm]
      rfl
    | expand =>
      rw [hclaimed, add_assoc, add_comm {_}, ← Multiset.coe_singleton, Multiset.coe_add]
  case reaches =>
    intro x hx
    cases h with
    | skip => exact hinv.reaches x (hx.imp_left (Multiset.mem_add.mpr ∘ .inl))
    | claim =>
      rcases hx with hx | hx
      · exact hinv.reaches x (.inl (Multiset.mem_add.mpr (.inl hx)))
      · rcases List.mem_append.mp hx with hx | hx
        · exact hinv.reaches x (.inr hx)
        · exact hinv.reaches x (.inl (Multiset.mem_add.mpr (.inr (by simpa using hx))))
    | @expand y p o c e =>
      rcases hx with hx | hx
      · rcases Multiset.mem_add.mp hx with hx | hx
        · exact hinv.reaches x (.inl hx)
        · -- the node is reached through the one that is expanded
          have hy : y ∈ (c : Multiset α) := by
            rw [hinv.claimed]
            simp
          obtain ⟨r, hr, hpath⟩ := hinv.reaches y (.inr (Multiset.mem_coe.mp hy))
          exact ⟨r, hr, hpath.tail (Multiset.mem_coe.mp hx)⟩
      · exact hinv.reaches x (.inr hx)
  case closed =>
    intro x hx y hy
    cases h with
    | skip hz => exact hcovered y (hinv.closed x hx y hy)
    | claim => exact hcovered y (hinv.closed x hx y hy)
    | expand =>
      rcases List.mem_append.mp hx with hx | hx
      · exact hcovered y (hinv.closed x hx y hy)
      · rw [List.mem_singleton.mp hx] at hy
        exact .inl (Multiset.mem_add.mpr (.inr (Multiset.mem_coe.mpr hy)))

/-- When nothing is left to do, the expanded nodes are those that the roots
lead to. -/
theorem Inv.mem_expanded_iff (hinv : Inv next roots s) (hpending : s.pending = 0)
    (hopened : s.opened = 0) {x : α} : x ∈ s.expanded ↔ Reaches next roots x := by
  have hclaimed : ∀ y, y ∈ s.claimed ↔ y ∈ s.expanded := by
    intro y
    rw [← Multiset.mem_coe, hinv.claimed, hopened, zero_add, Multiset.mem_coe]
  have hcovered : ∀ y, y ∈ s.pending ∨ y ∈ s.claimed → y ∈ s.expanded := by
    intro y hy
    rcases hy with hy | hy
    · rw [hpending] at hy
      exact absurd hy (Multiset.notMem_zero y)
    · exact (hclaimed y).mp hy
  constructor
  · intro hx
    exact hinv.reaches x (.inr ((hclaimed x).mpr hx))
  · rintro ⟨r, hr, hpath⟩
    induction hpath with
    | refl => exact hcovered r (hinv.roots r hr)
    | tail _ hstep ih => exact hcovered _ (hinv.closed _ ih _ hstep)

end Claims
