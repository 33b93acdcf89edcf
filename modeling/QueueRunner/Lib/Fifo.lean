import Mathlib.Data.List.Basic

/-!
# A channel that keeps its order

A `Fifo` is a channel together with its history: the messages that came
out, and those that wait in it.  Every message comes out at most once and
in the order in which it went in.  A message that is lost is one that waits
for ever, so a channel that breaks loses the rest of its messages and never
one in the middle.

The lemmas say

* what `push` and `pop` do to the history (`pushed_push`, `pop_cases`);
* that what came out is a prefix of what went in (`received_prefix_pushed`);
* that a key that only one message has comes out once (`not_mem_of_pop`);
* that a message which follows another one when it goes in follows it when
  it comes out (`Backed.push`, `Backed.received`).
-/

/-- A channel with its history, oldest message first. -/
structure Fifo (α : Type) where
  received : List α := []
  waiting : List α := []

namespace Fifo

variable {α β : Type}

/-- All that went into the channel. -/
def pushed (q : Fifo α) : List α := q.received ++ q.waiting

/-- Put a message in. -/
def push (q : Fifo α) (a : α) : Fifo α := { q with waiting := q.waiting ++ [a] }

/-- Take the next message out. -/
def pop (q : Fifo α) : Option (α × Fifo α) :=
  match q.waiting with
  | [] => none
  | a :: rest => some (a, { received := q.received ++ [a], waiting := rest })

@[simp] theorem pushed_push (q : Fifo α) (a : α) : (q.push a).pushed = q.pushed ++ [a] := by
  simp [pushed, push]

@[simp] theorem received_push (q : Fifo α) (a : α) : (q.push a).received = q.received := rfl

/-- What came out is the beginning of what went in. -/
theorem received_prefix_pushed (q : Fifo α) : q.received <+: q.pushed :=
  ⟨q.waiting, rfl⟩

/-- The message that comes out is the next one. -/
theorem pop_cases {q q' : Fifo α} {a : α} (h : q.pop = some (a, q')) :
    q'.received = q.received ++ [a] ∧ q'.pushed = q.pushed := by
  cases hw : q.waiting with
  | nil => simp [pop, hw] at h
  | cons b rest =>
    simp only [pop, hw, Option.some.injEq, Prod.mk.injEq] at h
    obtain ⟨rfl, rfl⟩ := h
    simp [pushed, hw]

/-- A key that only one message has did not come out before it. -/
theorem not_mem_of_pop {q q' : Fifo α} {a : α} {b : β} {key : α → Option β}
    (h : q.pop = some (a, q')) (hkey : key a = some b)
    (hnodup : (q.pushed.filterMap key).Nodup) : b ∉ q.received.filterMap key := by
  obtain ⟨hreceived, hpushed⟩ := pop_cases h
  have hsub : (q'.received.filterMap key).Sublist (q'.pushed.filterMap key) :=
    q'.received_prefix_pushed.sublist.filterMap key
  rw [hpushed, hreceived, List.filterMap_append] at hsub
  have hsplit := hnodup.sublist hsub
  rw [List.filterMap_cons_some hkey, List.filterMap_nil] at hsplit
  intro hmem
  exact (List.nodup_append.mp hsplit).2.2 b hmem b (by simp) rfl

end Fifo

/-! ## A message that follows another one -/

/-- Every message that needs a key comes after one that gives the key. -/
def Backed {α β : Type} (needs gives : α → Option β) (l : List α) : Prop :=
  ∀ n a b, l[n]? = some a → needs a = some b → b ∈ (l.take n).filterMap gives

namespace Backed

variable {α β : Type} {needs gives : α → Option β} {l : List α}

theorem nil : Backed needs gives [] := by
  intro n a b h
  simp at h

/-- A message goes in whose key was given. -/
theorem concat (h : Backed needs gives l) {a : α}
    (ha : ∀ b, needs a = some b → b ∈ l.filterMap gives) : Backed needs gives (l ++ [a]) := by
  intro n a' b hn hb
  by_cases hlt : n < l.length
  · rw [List.getElem?_append_left hlt] at hn
    rw [List.take_append_of_le_length (by omega)]
    exact h n a' b hn hb
  · have hlen : n < (l ++ [a]).length := (List.getElem?_eq_some_iff.mp hn).1
    have heq : n = l.length := by
      simp only [List.length_append, List.length_cons, List.length_nil] at hlen
      omega
    subst heq
    rw [List.getElem?_concat_length, Option.some.injEq] at hn
    rw [List.take_left]
    exact ha b (hn ▸ hb)

/-- The beginning of the messages has what its messages need. -/
theorem of_initial {l' : List α} (h : Backed needs gives l) (hl : l' <+: l) :
    Backed needs gives l' := by
  obtain ⟨rest, rfl⟩ := hl
  intro n a b hn hb
  have hlt : n < l'.length := (List.getElem?_eq_some_iff.mp hn).1
  have hmem := h n a b (by rw [List.getElem?_append_left hlt, hn]) hb
  rwa [List.take_append_of_le_length (by omega)] at hmem

/-- A key that is needed is given. -/
theorem mem_of_needs (h : Backed needs gives l) {b : β} (hb : b ∈ l.filterMap needs) :
    b ∈ l.filterMap gives := by
  obtain ⟨a, ha, hab⟩ := List.mem_filterMap.mp hb
  obtain ⟨n, hn⟩ := List.getElem?_of_mem ha
  exact ((List.take_prefix n l).sublist.filterMap gives).subset (h n a b hn hab)

end Backed
