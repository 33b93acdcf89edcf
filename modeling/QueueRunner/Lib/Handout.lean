import Mathlib.Data.List.Nodup
import Mathlib.Logic.Relation

/-!
# Work that is handed out

A coordinator hands work out to workers.  It gives every piece that it
issues a new id, and it accepts the work of an id when the worker that it was
issued to has reported that id.  A worker starts what was issued to it, at
most once, and reports what it has started.

`Handout.Step` is the protocol, on the history of the messages.  Nothing is
said about the order of the messages, about losses or about delays, so any
transport that does not make messages up refines it.  `Handout.sound` is
what the protocol gives: an id is started at most once and by the worker
that it was issued to, and what is accepted was issued, started and
reported.
-/

namespace Handout

/-- The history of the protocol, latest entry first. -/
structure State (Id Worker Work : Type) where
  issued : List (Id × Worker × Work) := []
  started : List (Id × Worker) := []
  reported : List (Id × Worker) := []
  accepted : List Work := []

variable {Id Worker Work : Type}

/-- The steps of the protocol. -/
inductive Step (s : State Id Worker Work) : State Id Worker Work → Prop where
  | issue (id : Id) (w : Worker) (work : Work) (hfresh : id ∉ s.issued.map Prod.fst) :
      Step s { s with issued := (id, w, work) :: s.issued }
  | start (id : Id) (w : Worker) (work : Work) (hissued : (id, w, work) ∈ s.issued)
      (hfresh : id ∉ s.started.map Prod.fst) :
      Step s { s with started := (id, w) :: s.started }
  | report (id : Id) (w : Worker) (hstarted : (id, w) ∈ s.started) :
      Step s { s with reported := (id, w) :: s.reported }
  | accept (id : Id) (w : Worker) (work : Work) (hissued : (id, w, work) ∈ s.issued)
      (hreported : (id, w) ∈ s.reported) :
      Step s { s with accepted := work :: s.accepted }

/-- What the protocol gives. -/
structure Sound (s : State Id Worker Work) : Prop where
  ids : (s.issued.map Prod.fst).Nodup
  once : (s.started.map Prod.fst).Nodup
  issued : ∀ id w, (id, w) ∈ s.started → ∃ work, (id, w, work) ∈ s.issued
  started : ∀ id w, (id, w) ∈ s.reported → (id, w) ∈ s.started
  reported : ∀ work ∈ s.accepted, ∃ id w,
    (id, w, work) ∈ s.issued ∧ (id, w) ∈ s.started ∧ (id, w) ∈ s.reported

namespace Sound

variable {s s' : State Id Worker Work}

theorem init : Sound ({} : State Id Worker Work) := by
  constructor <;> simp

/-- An id is issued for one piece of work and to one worker. -/
theorem unique (h : Sound s) {id : Id} {w w' : Worker} {work work' : Work}
    (hi : (id, w, work) ∈ s.issued) (hi' : (id, w', work') ∈ s.issued) :
    w = w' ∧ work = work' := by
  have heq := List.inj_on_of_nodup_map h.ids hi hi' rfl
  simp only [Prod.mk.injEq, true_and] at heq
  exact heq

/-- Every step keeps what the protocol gives. -/
theorem step (h : Sound s) (hs : Step s s') : Sound s' := by
  cases hs with
  | issue id w work hfresh =>
    exact
      { ids := List.nodup_cons.mpr ⟨hfresh, h.ids⟩
        once := h.once
        issued := fun id' w' hst => by
          obtain ⟨work', hi⟩ := h.issued id' w' hst
          exact ⟨work', List.mem_cons_of_mem _ hi⟩
        started := h.started
        reported := fun work' hacc => by
          obtain ⟨id', w', hi, hrest⟩ := h.reported work' hacc
          exact ⟨id', w', List.mem_cons_of_mem _ hi, hrest⟩ }
  | start id w work hissued hfresh =>
    refine
      { ids := h.ids, once := List.nodup_cons.mpr ⟨hfresh, h.once⟩, issued := ?_
        started := fun id' w' hr => List.mem_cons_of_mem _ (h.started id' w' hr)
        reported := fun work' hacc => by
          obtain ⟨id', w', hi, hst, hr⟩ := h.reported work' hacc
          exact ⟨id', w', hi, List.mem_cons_of_mem _ hst, hr⟩ }
    intro id' w' hst
    rcases List.mem_cons.mp hst with he | hst
    · cases he
      exact ⟨work, hissued⟩
    · exact h.issued id' w' hst
  | report id w hstarted =>
    refine
      { ids := h.ids, once := h.once, issued := h.issued, started := ?_
        reported := fun work' hacc => by
          obtain ⟨id', w', hi, hst, hr⟩ := h.reported work' hacc
          exact ⟨id', w', hi, hst, List.mem_cons_of_mem _ hr⟩ }
    intro id' w' hr
    rcases List.mem_cons.mp hr with he | hr
    · cases he
      exact hstarted
    · exact h.started id' w' hr
  | accept id w work hissued hreported =>
    refine { ids := h.ids, once := h.once, issued := h.issued, started := h.started
             reported := ?_ }
    intro work' hacc
    rcases List.mem_cons.mp hacc with rfl | hacc
    · exact ⟨id, w, hissued, h.started id w hreported, hreported⟩
    · exact h.reported work' hacc

end Sound

/-- What holds in every state that the protocol leads to. -/
theorem sound {s : State Id Worker Work} (h : Relation.ReflTransGen Step {} s) : Sound s := by
  induction h with
  | refl => exact .init
  | tail _ hs ih => exact ih.step hs

end Handout
