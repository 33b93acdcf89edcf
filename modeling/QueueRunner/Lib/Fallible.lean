import Mathlib.Data.List.Basic

/-!
# Computations that fail

Rules for `Except`: when a chain of steps succeeds, and which failures it
avoids.  `Avoids bad a` says that `a` does not fail with a `bad` error; it
goes along the steps of `a`.
-/

namespace Fallible

variable {ε ε' α β : Type}

theorem bind_ok_iff {a : Except ε α} {f : α → Except ε β} {v : β} :
    (a >>= f) = .ok v ↔ ∃ u, a = .ok u ∧ f u = .ok v := by
  cases a <;> simp [bind, Except.bind]

theorem exists_bind_ok {a : Except ε α} {f : α → Except ε β} :
    (∃ v, (a >>= f) = .ok v) ↔ ∃ u, a = .ok u ∧ ∃ v, f u = .ok v := by
  cases a <;> simp [bind, Except.bind]

theorem mapError_ok_iff {f : ε → ε'} {a : Except ε α} {v : α} :
    a.mapError f = .ok v ↔ a = .ok v := by
  cases a <;> simp [Except.mapError]

theorem mapM_cons_ok {f : α → Except ε β} {a : α} {l : List α} {r : List β}
    (h : (a :: l).mapM f = .ok r) : ∃ b bs, f a = .ok b ∧ l.mapM f = .ok bs ∧ r = b :: bs := by
  rw [List.mapM_cons] at h
  obtain ⟨b, hb, h⟩ := bind_ok_iff.mp h
  obtain ⟨bs, hbs, h⟩ := bind_ok_iff.mp h
  exact ⟨b, bs, hb, hbs, (Except.ok.inj h).symm⟩

/-- A list of steps succeeds when each of them does. -/
theorem mapM_ok_forall {f : α → Except ε β} {l : List α} {r : List β} (h : l.mapM f = .ok r) :
    ∀ a ∈ l, ∃ b ∈ r, f a = .ok b := by
  induction l generalizing r with
  | nil =>
    intro a ha
    cases ha
  | cons a l ih =>
    obtain ⟨b, bs, hb, hbs, rfl⟩ := mapM_cons_ok h
    intro c hc
    rcases List.mem_cons.mp hc with rfl | hc
    · exact ⟨b, List.mem_cons_self, hb⟩
    · obtain ⟨d, hd, hcd⟩ := ih hbs c hc
      exact ⟨d, List.mem_cons_of_mem _ hd, hcd⟩

/-- Every result of a list of steps comes from one of them. -/
theorem mapM_ok_exists {f : α → Except ε β} {l : List α} {r : List β} (h : l.mapM f = .ok r) :
    ∀ b ∈ r, ∃ a ∈ l, f a = .ok b := by
  induction l generalizing r with
  | nil =>
    obtain rfl := Except.ok.inj h
    intro b hb
    cases hb
  | cons a l ih =>
    obtain ⟨b, bs, hb, hbs, rfl⟩ := mapM_cons_ok h
    intro c hc
    rcases List.mem_cons.mp hc with rfl | hc
    · exact ⟨a, List.mem_cons_self, hb⟩
    · obtain ⟨a', ha', heq⟩ := ih hbs c hc
      exact ⟨a', List.mem_cons_of_mem _ ha', heq⟩

theorem optionMapM_ok_forall {f : α → Except ε β} {o : Option α} {r : Option β}
    (h : o.mapM f = .ok r) : ∀ a ∈ o, ∃ b, f a = .ok b := by
  intro a ha
  obtain rfl := Option.mem_def.mp ha
  rw [Option.mapM_some] at h
  cases hfa : f a with
  | ok b => exact ⟨b, rfl⟩
  | error e =>
    rw [hfa] at h
    cases h

/-! ## Errors that do not come -/

/-- The computation does not fail with a bad error. -/
def Avoids (bad : ε → Prop) (a : Except ε α) : Prop := ∀ e, a = .error e → ¬ bad e

namespace Avoids

variable {bad : ε → Prop}

theorem ok (v : α) : Avoids bad (.ok v : Except ε α) := by
  intro e h
  cases h

theorem error {e : ε} (h : ¬ bad e) : Avoids bad (.error e : Except ε α) := by
  rintro _ ⟨⟩
  exact h

theorem of_ok {a : Except ε α} {v : α} (h : a = .ok v) : Avoids bad a := h ▸ ok v

theorem bind {a : Except ε α} {f : α → Except ε β} (ha : Avoids bad a)
    (hf : ∀ v, a = .ok v → Avoids bad (f v)) : Avoids bad (a >>= f) := by
  cases a with
  | ok v => exact hf v rfl
  | error e =>
    rintro _ ⟨⟩
    exact ha e rfl

theorem mapError {bad : ε' → Prop} {f : ε → ε'} {a : Except ε α}
    (ha : Avoids (fun e => bad (f e)) a) : Avoids bad (a.mapError f) := by
  cases a with
  | ok v => exact ok v
  | error e =>
    rintro _ ⟨⟩
    exact ha e rfl

theorem mapM {f : α → Except ε β} {l : List α} (hf : ∀ a ∈ l, Avoids bad (f a)) :
    Avoids bad (l.mapM f) := by
  induction l with
  | nil => exact ok []
  | cons a l ih =>
    rw [List.mapM_cons]
    refine bind (hf a List.mem_cons_self) (fun v _ => bind (ih ?_) (fun vs _ => ok _))
    exact fun b hb => hf b (List.mem_cons_of_mem _ hb)

theorem optionMapM {f : α → Except ε β} {o : Option α} (hf : ∀ a ∈ o, Avoids bad (f a)) :
    Avoids bad (o.mapM f) := by
  cases o with
  | none => exact ok none
  | some a =>
    rw [Option.mapM_some]
    exact bind (hf a rfl) (fun _ _ => ok _)

theorem ite {c : Prop} [Decidable c] {a b : Except ε α} (ha : c → Avoids bad a)
    (hb : ¬ c → Avoids bad b) : Avoids bad (if c then a else b) := by
  split_ifs with h
  · exact ha h
  · exact hb h

/-- A computation that avoids both kinds of errors succeeds. -/
theorem exists_ok {a : Except ε α} {good : ε → Prop} (hbad : Avoids bad a) (hgood : Avoids good a)
    (hall : ∀ e, bad e ∨ good e) : ∃ v, a = .ok v := by
  cases a with
  | ok v => exact ⟨v, rfl⟩
  | error e => exact absurd (hall e) (not_or.mpr ⟨hbad e rfl, hgood e rfl⟩)

end Avoids

end Fallible
