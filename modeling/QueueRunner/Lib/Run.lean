/-!
# Runs of a transition system

A transition system here is a partial function: `next s a` is the state
after action `a`, or nothing when `a` is not enabled in `s`.  The actions
carry every choice that the system leaves open, so a run is a list of
actions.

`Reach ok s₀ s` says that a run leads from `s₀` to `s` and that each of
its steps meets `ok`, a condition on the action and on the state before
it.  `Reach.invariant` is the induction over such a run; `reach_of_run` and
`reach_of_runWith` turn an evaluated run into a `Reach`.
-/

namespace Lts

variable {σ α : Type}

/-- The states that `s₀` leads to by steps that all meet `ok`. -/
inductive Reach (next : σ → α → Option σ) (ok : σ → α → Prop) (s₀ : σ) :
    σ → Prop where
  | refl : Reach next ok s₀ s₀
  | step {s s' : σ} (a : α) (hs : Reach next ok s₀ s) (hok : ok s a)
      (hnext : next s a = some s') : Reach next ok s₀ s'

/-- The condition that allows every step. -/
def anyStep : σ → α → Prop := fun _ _ => True

/-- Run a list of actions; nothing when one of them is not enabled. -/
def run (next : σ → α → Option σ) : σ → List α → Option σ
  | s, [] => some s
  | s, a :: as =>
    match next s a with
    | some s' => run next s' as
    | none => none

/-- Run a list of actions; nothing when one of them is not enabled or does
not meet `ok`. -/
def runWith (next : σ → α → Option σ) (ok : σ → α → Prop)
    [∀ s a, Decidable (ok s a)] : σ → List α → Option σ
  | s, [] => some s
  | s, a :: as =>
    if ok s a then
      match next s a with
      | some s' => runWith next ok s' as
      | none => none
    else none

variable {next : σ → α → Option σ} {ok ok' : σ → α → Prop} {s₀ s s' : σ}

/-- What holds at the start and is kept by every step that meets `ok`
holds in every state of such a run. -/
theorem Reach.invariant {I : σ → Prop} (h : Reach next ok s₀ s) (h₀ : I s₀)
    (hstep : ∀ s a s', I s → ok s a → next s a = some s' → I s') : I s := by
  induction h with
  | refl => exact h₀
  | step a _ hok hnext ih => exact hstep _ a _ ih hok hnext

/-- The same, where each step may use what is known of the states of a
run. -/
theorem Reach.invariant_of_reach {I : σ → Prop} (h : Reach next ok s₀ s) (h₀ : I s₀)
    (hstep : ∀ s a s', Reach next ok s₀ s → I s → ok s a → next s a = some s' → I s') :
    I s := by
  induction h with
  | refl => exact h₀
  | step a hs hok hnext ih => exact hstep _ a _ hs ih hok hnext

/-- A run under a condition is a run under a weaker one. -/
theorem Reach.mono (h : Reach next ok s₀ s)
    (himp : ∀ s a, ok s a → ok' s a) : Reach next ok' s₀ s := by
  induction h with
  | refl => exact .refl
  | step a _ hok hnext ih => exact .step a ih (himp _ _ hok) hnext

/-- Two runs join end to end. -/
theorem Reach.trans (h : Reach next ok s₀ s) (h' : Reach next ok s s') :
    Reach next ok s₀ s' := by
  induction h' with
  | refl => exact h
  | step a _ hok hnext ih => exact .step a ih hok hnext

/-- What did not hold at the start was brought about by a step of the run. -/
theorem Reach.exists_step {P : σ → Prop} (h : Reach next ok s₀ s) (h₀ : ¬P s₀) (hs : P s) :
    ∃ s₁ a s₂, Reach next ok s₀ s₁ ∧ next s₁ a = some s₂ ∧ Reach next ok s₂ s ∧
      ¬P s₁ ∧ P s₂ := by
  induction h with
  | refl => exact absurd hs h₀
  | @step s₁ s₂ a hreach hok hnext ih =>
    by_cases hold : P s₁
    · obtain ⟨t₁, b, t₂, hbefore, hstep, hafter, hnot, hthen⟩ := ih hold
      exact ⟨t₁, b, t₂, hbefore, hstep, hafter.step a hok hnext, hnot, hthen⟩
    · exact ⟨s₁, a, s₂, hreach, hnext, .refl, hold, hs⟩

/-- An evaluated run under a condition leads to the state it ends in. -/
theorem reach_of_runWith [∀ s a, Decidable (ok s a)] {as : List α}
    (h : runWith next ok s as = some s') : Reach next ok s s' := by
  induction as generalizing s with
  | nil =>
    simp only [runWith, Option.some.injEq] at h
    subst h
    exact .refl
  | cons a as ih =>
    simp only [runWith] at h
    by_cases hok : ok s a
    case neg => simp [hok] at h
    rw [if_pos hok] at h
    cases hn : next s a with
    | none => simp [hn] at h
    | some t =>
      rw [hn] at h
      exact Reach.trans (.step a .refl hok hn) (ih h)

/-- An evaluated run leads to the state it ends in. -/
theorem reach_of_run {as : List α} (h : run next s as = some s') :
    Reach next anyStep s s' := by
  induction as generalizing s with
  | nil =>
    simp only [run, Option.some.injEq] at h
    subst h
    exact .refl
  | cons a as ih =>
    simp only [run] at h
    cases hn : next s a with
    | none => simp [hn] at h
    | some t =>
      rw [hn] at h
      exact Reach.trans (.step a .refl trivial hn) (ih h)

end Lts
