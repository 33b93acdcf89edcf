import Mathlib.Data.List.Sort

/-!
# Stable sorting

`List.insertionSort` keeps the order of the elements that the relation does
not tell apart.  A sorted list whose first elements are of one kind splits
into this kind and the others, and the first element that a search finds in
a sorted list comes before all others that it could find.
-/

namespace Sorting

variable {α : Type} (r : α → α → Prop) [DecidableRel r]

/-- Elements that are all related to each other keep their order. -/
theorem filter_insertionSort (p : α → Bool) (hp : ∀ a b, p a = true → p b = true → r a b)
    (l : List α) : (l.insertionSort r).filter p = l.filter p := by
  have hsorted : (l.filter p).Pairwise r :=
    List.Pairwise.imp_of_mem
      (fun ha hb _ => hp _ _ (List.mem_filter.mp ha).2 (List.mem_filter.mp hb).2)
      (List.pairwise_of_forall (fun _ _ => trivial))
  have hsub : (l.filter p).Sublist (l.insertionSort r) :=
    List.sublist_insertionSort hsorted List.filter_sublist
  have hsub' : (l.filter p).Sublist ((l.insertionSort r).filter p) := by
    have h := hsub.filter p
    rwa [List.filter_filter, List.filter_congr (fun a _ => Bool.and_self (p a))] at h
  have hlength : (l.filter p).length = ((l.insertionSort r).filter p).length :=
    ((List.perm_insertionSort r l).filter p).length_eq.symm
  exact (hsub'.eq_of_length hlength).symm

theorem orderedInsert_congr {r r' : α → α → Prop} [DecidableRel r] [DecidableRel r'] {a : α}
    {l : List α} (h : ∀ b ∈ l, r a b ↔ r' a b) : l.orderedInsert r a = l.orderedInsert r' a := by
  induction l with
  | nil => rfl
  | cons b l ih =>
    simp only [List.orderedInsert, h b List.mem_cons_self,
      ih (fun c hc => h c (List.mem_cons_of_mem b hc))]

/-- Two relations that agree on the elements of a list sort it the same
way. -/
theorem insertionSort_congr {r r' : α → α → Prop} [DecidableRel r] [DecidableRel r'] {l : List α}
    (h : ∀ a ∈ l, ∀ b ∈ l, r a b ↔ r' a b) : l.insertionSort r = l.insertionSort r' := by
  induction l with
  | nil => rfl
  | cons a l ih =>
    have htail := ih (fun b hb c hc =>
      h b (List.mem_cons_of_mem a hb) c (List.mem_cons_of_mem a hc))
    rw [List.insertionSort_cons, List.insertionSort_cons, htail]
    apply orderedInsert_congr
    intro b hb
    exact h a List.mem_cons_self b (List.mem_cons_of_mem a ((List.mem_insertionSort r').mp hb))

/-- A sorted list in which no element of a kind comes before another
element. -/
theorem eq_filter_append_filter {r : α → α → Prop} {p : α → Bool} {l : List α}
    (hl : l.Pairwise r) (hr : ∀ a b, p a = true → p b = false → ¬ r a b) :
    l = l.filter (fun a => !p a) ++ l.filter p := by
  induction l with
  | nil => rfl
  | cons a l ih =>
    obtain ⟨hhead, htail⟩ := List.pairwise_cons.mp hl
    cases hp : p a with
    | false =>
      rw [List.filter_cons_of_pos (by simp [hp]), List.filter_cons_of_neg (by simp [hp]),
        List.cons_append, ← ih htail]
    | true =>
      have hall : ∀ b ∈ l, p b = true := by
        intro b hb
        by_contra hnot
        exact hr a b hp (by simpa using hnot) (hhead b hb)
      have hnone : l.filter (fun b => !p b) = [] := by
        rw [List.filter_eq_nil_iff]
        intro b hb
        simp [hall b hb]
      rw [List.filter_cons_of_neg (by simp [hp]), hnone, List.nil_append,
        List.filter_cons_of_pos hp, List.filter_eq_self.mpr hall]

/-- The first element of a kind in a sorted list is related to all others of
the kind. -/
theorem rel_of_find? {r : α → α → Prop} {p : α → Bool} {l : List α} {a b : α}
    (hl : l.Pairwise r) (ha : l.find? p = some a) (hb : b ∈ l) (hp : p b = true) :
    a = b ∨ r a b := by
  induction l with
  | nil => cases hb
  | cons c l ih =>
    obtain ⟨hhead, htail⟩ := List.pairwise_cons.mp hl
    cases hc : p c with
    | true =>
      rw [List.find?_cons_of_pos hc] at ha
      cases ha
      rcases List.mem_cons.mp hb with rfl | hb
      · exact Or.inl rfl
      · exact Or.inr (hhead b hb)
    | false =>
      rw [List.find?_cons_of_neg (by simp [hc])] at ha
      rcases List.mem_cons.mp hb with rfl | hb
      · rw [hp] at hc
        cases hc
      · exact ih htail ha hb

end Sorting
