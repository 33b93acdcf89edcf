import Mathlib.Logic.Relation
import QueueRunner.Lib.Run

/-!
# Two systems side by side

A concrete system is a transition system `next` with runs `Reach next ok`.
An abstract one is another such system, or a relation between states.  A
function maps the concrete states to the abstract ones.

* `Reach.refines`: when every concrete step is a path of the relation,
  every concrete run is one;
* `Reach.project`: when every concrete step is a run of the other system,
  every concrete run is one.

In both, a step may use all that is known of the states of a run.  A
concrete step that the abstract system does not see is the empty path.
-/

namespace Lts

variable {σ α τ β : Type} {next : σ → α → Option σ} {ok : σ → α → Prop} {s₀ s : σ}

/-- A run of the concrete system is a path of the relation. -/
theorem Reach.refines {R : τ → τ → Prop} {f : σ → τ} (h : Reach next ok s₀ s)
    (hstep : ∀ s a s', Reach next ok s₀ s → ok s a → next s a = some s' →
      Relation.ReflTransGen R (f s) (f s')) :
    Relation.ReflTransGen R (f s₀) (f s) := by
  induction h with
  | refl => exact .refl
  | step a hs hok hnext ih => exact ih.trans (hstep _ a _ hs hok hnext)

/-- A run of the concrete system is a run of the other system. -/
theorem Reach.project {next' : τ → β → Option τ} {ok' : τ → β → Prop} {f : σ → τ}
    (h : Reach next ok s₀ s)
    (hstep : ∀ s a s', Reach next ok s₀ s → ok s a → next s a = some s' →
      Reach next' ok' (f s) (f s')) :
    Reach next' ok' (f s₀) (f s) := by
  induction h with
  | refl => exact .refl
  | step a hs hok hnext ih => exact ih.trans (hstep _ a _ hs hok hnext)

end Lts
