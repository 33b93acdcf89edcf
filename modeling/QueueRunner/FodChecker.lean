import QueueRunner.Lib.Claims
import QueueRunner.Lib.Run
import QueueRunner.StorePaths
import Mathlib.Algebra.BigOperators.Group.List.Basic
import Mathlib.Data.Multiset.Bind

/-!
# The traversal of the FOD checker

`FodChecker` of `queue-runner/src/state/fod_checker.rs` collects the
derivations whose output is content-addressed.  `traverse` takes the
derivations that were asked for and runs `collect_ca_derivations` for each of
them, which runs itself for each of the inputs.  The futures of the inputs
are in a stream `buffered(10)`: at most ten of them are started and not yet
given out, and they are given out in their order.

All these futures share the set `processed`, in which each puts its
derivation before its first await point.  A future that finds its
derivation there returns nothing, so what it was asked for has to come out
of the future that was first, through another branch of the nested streams.

A future here is a tree, with the futures of a stream as the children of the
one that waits for the stream.  A step is a step of any future of the tree
up to its next await point.  `pieces` takes a tree apart, and `Change` is what
a step does to the pieces at its place (`poll_changes`).  All that is said
about a traversal follows from the changes: the tree refines a traversal in
the sense of `Lib.Claims` (`Changes.claims`), it gives out what has been read
(`Changes.collects`), and it comes to its end (`Changes.stepsLeft_lt`).

`StorePath::new` is taken here as it is without the debug assertions.
-/

namespace QueueRunner

namespace Fod

/-! ## Derivations -/

/-- `nix_utils::Output`. -/
structure Output where
  name : String
  path : Option StorePath
  hash : Option String
  hashAlgo : Option String
deriving DecidableEq, Repr

/-- `nix_utils::Derivation`, without its environment. -/
structure Derivation where
  inputDrvs : List String
  outputs : List Output
  name : StorePath
  system : String
deriving DecidableEq, Repr

/-- `Derivation::is_ca`. -/
def Derivation.isCa (drv : Derivation) : Bool :=
  drv.outputs.any (fun o => o.hash.isSome && o.hashAlgo.isSome)

/-- The files of the store, with the answer of reading each of them, and
`parse_drv`. -/
structure Store where
  /-- `STORE_DIR`. -/
  storeDir : String
  files : Map StorePath (Except Unit String)
  parseDrv : StorePath → String → Except Unit Derivation

namespace Store

/-- `query_drv`. -/
def queryDrv (store : Store) (drv : StorePath) : Except Unit (Option Derivation) :=
  if drv.isDrv = false then .ok none
  else
    match store.files.lookup drv with
    | none => .ok none
    | some file => do
      let input ← file
      let parsed ← store.parseDrv drv input
      return some parsed

/-- `query_drv(..).await.ok().flatten()`: a derivation that cannot be read
is as one that is not there. -/
def readDrv (store : Store) (drv : StorePath) : Option Derivation :=
  (store.queryDrv drv).toOption.join

/-- The inputs of the derivation as store paths. -/
def inputsOf (store : Store) (parsed : Derivation) : List StorePath :=
  parsed.inputDrvs.map (StorePath.new store.storeDir)

/-- The inputs, none of a derivation that cannot be read. -/
def inputs (store : Store) (drv : StorePath) : List StorePath :=
  (store.readDrv drv).elim [] store.inputsOf

end Store

/-! ## Futures -/

abbrev Found := Map StorePath Derivation

/-- The stream `map(..).buffered(10).flat_map(iter).collect()`: the items
without a future, the futures, and what was collected. -/
structure Buffered (F : Type) where
  todo : List StorePath
  buffer : List F
  out : Found := ∅

namespace Buffered

variable {F : Type}

/-- The next item gets its future when there is room. -/
def fill (start : StorePath → F) (b : Buffered F) : Option (Buffered F) :=
  match b.todo with
  | [] => none
  | drv :: todo =>
    if b.buffer.length < 10 then some ⟨todo, b.buffer ++ [start drv], b.out⟩ else none

/-- The first future is given out when it is ready. -/
def giveOut (value : F → Option Found) (b : Buffered F) : Option (Buffered F) :=
  match b.buffer with
  | [] => none
  | f :: buffer => (value f).map (fun found => ⟨b.todo, buffer, b.out.extend found⟩)

/-- The step of the stream itself. -/
def advance (start : StorePath → F) (value : F → Option Found) (b : Buffered F) :
    Option (Buffered F) :=
  (b.fill start).or (b.giveOut value)

/-- A step of the `i`-th future. -/
def inner {S : Type} (i : Nat) (step : F → S → Option (F × S)) (b : Buffered F) (σ : S) :
    Option (Buffered F × S) :=
  match b.buffer[i]? with
  | none => none
  | some f => (step f σ).map (fun r => (⟨b.todo, b.buffer.set i r.1, b.out⟩, r.2))

/-- Nothing is left. -/
def Finished (b : Buffered F) : Prop := b.todo = [] ∧ b.buffer = []

instance (b : Buffered F) : Decidable b.Finished :=
  decidable_of_iff (b.todo.isEmpty = true ∧ b.buffer.isEmpty = true) (by
    simp [Finished, List.isEmpty_iff])

end Buffered

/-- A future of `collect_ca_derivations`. -/
inductive Future where
  /-- Not polled yet. -/
  | fresh (drv : StorePath)
  /-- Waits for `query_drv`. -/
  | querying (drv : StorePath)
  /-- Waits for the stream of its inputs. -/
  | gathering (drv : StorePath) (parsed : Derivation) (stream : Buffered Future)
  | ready (found : Found)

/-- What the futures share.  `queried` are the calls of `query_drv`, and
`answered` those that have returned. -/
structure Shared where
  processed : List StorePath := []
  queried : List StorePath := []
  answered : List StorePath := []

namespace Future

def value : Future → Option Found
  | .ready found => some found
  | _ => none

/-- The end of `collect_ca_derivations`. -/
def finish (drv : StorePath) (parsed : Derivation) (out : Found) : Found :=
  if parsed.isCa then out.insert drv parsed else out

/-- The step of the future itself: `collect_ca_derivations` up to its next
await point. -/
def here (store : Store) : Future → Shared → Option (Future × Shared)
  | .fresh drv, σ =>
    if drv ∈ σ.processed then some (.ready ∅, σ)
    else some (.querying drv, { σ with
      processed := σ.processed ++ [drv]
      queried := σ.queried ++ [drv] })
  | .querying drv, σ =>
    let σ := { σ with answered := σ.answered ++ [drv] }
    match store.readDrv drv with
    | none => some (.ready ∅, σ)
    | some parsed =>
      if parsed.inputDrvs = [] then some (.ready (finish drv parsed ∅), σ)
      else some (.gathering drv parsed { todo := store.inputsOf parsed, buffer := [] }, σ)
  | .gathering drv parsed stream, σ =>
    match stream.advance .fresh value with
    | some stream => some (.gathering drv parsed stream, σ)
    | none => if stream.Finished then some (.ready (finish drv parsed stream.out), σ) else none
  | .ready _, _ => none

/-- A step of a future in the tree; the path leads to it through the
buffers. -/
def step (store : Store) : List Nat → Future → Shared → Option (Future × Shared)
  | [], f, σ => f.here store σ
  | i :: path, .gathering drv parsed stream, σ =>
    (stream.inner i (step store path) σ).map (fun r => (.gathering drv parsed r.1, r.2))
  | _ :: _, _, _ => none

end Future

/-! ## The checker -/

/-- `traverse` between its two accesses to the checker. -/
structure Traversal where
  stream : Buffered Future
  shared : Shared := {}

/-- A step of any future of the traversal, or of its stream. -/
def Traversal.poll (store : Store) (t : Traversal) : List Nat → Option Traversal
  | [] => (t.stream.advance .fresh Future.value).map (fun stream => { t with stream := stream })
  | i :: path => (t.stream.inner i (Future.step store path) t.shared).map (fun r => ⟨r.1, r.2⟩)

/-- `FodChecker`, with the `traverse` that is running. -/
structure FodChecker where
  caDerivations : Found := ∅
  toTraverse : List StorePath := []
  traversal : Option Traversal := none

inductive Action where
  /-- `to_traverse`. -/
  | toTraverse (drv : StorePath)
  /-- `add_ca_drv_parsed`. -/
  | addCaDrvParsed (drv : StorePath) (parsed : Derivation)
  /-- `traverse` takes the derivations, in the order of the set, and clears
  the set. -/
  | traverse (drvs : List StorePath)
  | poll (path : List Nat)
  /-- `traverse` extends `ca_derivations`. -/
  | finish
  /-- `process` takes the derivations. -/
  | process

namespace FodChecker

def next (store : Store) (fc : FodChecker) : Action → Option FodChecker
  | .toTraverse drv => some { fc with toTraverse := fc.toTraverse.insert drv }
  | .addCaDrvParsed drv parsed =>
    some (if parsed.isCa then { fc with caDerivations := fc.caDerivations.insert drv parsed }
      else fc)
  | .traverse drvs =>
    match fc.traversal with
    | some _ => none
    | none =>
      if drvs.Perm fc.toTraverse then
        some { fc with
          toTraverse := []
          traversal := some { stream := { todo := drvs, buffer := [] } } }
      else none
  | .poll path =>
    match fc.traversal with
    | none => none
    | some t => (t.poll store path).map (fun t => { fc with traversal := some t })
  | .finish =>
    match fc.traversal with
    | none => none
    | some t =>
      if t.stream.Finished then
        some { fc with caDerivations := fc.caDerivations.extend t.stream.out, traversal := none }
      else none
  | .process => some { fc with caDerivations := ∅ }

end FodChecker

/-! ## The pieces of the tree -/

/-- The parts of a tree: the futures by their stage, a derivation that waits
for its inputs, and a stream without its futures. -/
inductive Piece where
  | fresh (drv : StorePath)
  | querying (drv : StorePath)
  | owner (drv : StorePath) (parsed : Derivation)
  | stream (todo : List StorePath) (out : Found)
  | ready (found : Found)

mutual

def Future.pieces : Future → Multiset Piece
  | .fresh drv => {.fresh drv}
  | .querying drv => {.querying drv}
  | .gathering drv parsed stream => {.owner drv parsed} + stream.pieces
  | .ready found => {.ready found}

def Buffered.pieces : Buffered Future → Multiset Piece
  | ⟨todo, buffer, out⟩ => {.stream todo out} + piecesOf buffer

def piecesOf : List Future → Multiset Piece
  | [] => 0
  | f :: fs => f.pieces + piecesOf fs

end

theorem piecesOf_append (fs gs : List Future) :
    piecesOf (fs ++ gs) = piecesOf fs + piecesOf gs := by
  induction fs with
  | nil => rw [List.nil_append, piecesOf, zero_add]
  | cons f fs ih => rw [List.cons_append, piecesOf, piecesOf, ih, add_assoc]

/-- One future of a list, and the rest. -/
theorem piecesOf_set {fs : List Future} {i : Nat} {f : Future} (hf : fs[i]? = some f) :
    ∃ rest, piecesOf fs = rest + f.pieces ∧ ∀ g, piecesOf (fs.set i g) = rest + g.pieces := by
  induction fs generalizing i with
  | nil => simp at hf
  | cons f' fs ih =>
    cases i with
    | zero =>
      obtain rfl : f' = f := by simpa using hf
      exact ⟨piecesOf fs, by rw [piecesOf, add_comm],
        fun g => by rw [List.set_cons_zero, piecesOf, add_comm]⟩
    | succ i =>
      obtain ⟨rest, hrest, hset⟩ := ih (by simpa using hf)
      refine ⟨f'.pieces + rest, ?_, fun g => ?_⟩
      · rw [piecesOf, hrest, add_assoc]
      · rw [List.set_cons_succ, piecesOf, hset, add_assoc]

/-- What a step does to the pieces at its place, and to what the futures
share. -/
inductive Change (store : Store) : Shared → Shared → Multiset Piece → Multiset Piece → Prop where
  | skip {σ : Shared} {drv : StorePath} (hmem : drv ∈ σ.processed) :
      Change store σ σ {.fresh drv} {.ready ∅}
  | claim {σ : Shared} {drv : StorePath} (hmem : drv ∉ σ.processed) :
      Change store σ { σ with
        processed := σ.processed ++ [drv]
        queried := σ.queried ++ [drv] } {.fresh drv} {.querying drv}
  | unreadable {σ : Shared} {drv : StorePath} (hread : store.readDrv drv = none) :
      Change store σ { σ with answered := σ.answered ++ [drv] } {.querying drv} {.ready ∅}
  | noInputs {σ : Shared} {drv : StorePath} {parsed : Derivation}
      (hread : store.readDrv drv = some parsed) (hinputs : parsed.inputDrvs = []) :
      Change store σ { σ with answered := σ.answered ++ [drv] } {.querying drv}
        {.ready (Future.finish drv parsed ∅)}
  | gather {σ : Shared} {drv : StorePath} {parsed : Derivation}
      (hread : store.readDrv drv = some parsed) :
      Change store σ { σ with answered := σ.answered ++ [drv] } {.querying drv}
        ({.owner drv parsed} + {.stream (store.inputsOf parsed) ∅})
  | fill {σ : Shared} {drv : StorePath} {todo : List StorePath} {out : Found} :
      Change store σ σ {.stream (drv :: todo) out} ({.stream todo out} + {.fresh drv})
  | giveOut {σ : Shared} {todo : List StorePath} {out found : Found} :
      Change store σ σ ({.stream todo out} + {.ready found}) {.stream todo (out.extend found)}
  | finish {σ : Shared} {drv : StorePath} {parsed : Derivation} {out : Found} :
      Change store σ σ ({.owner drv parsed} + {.stream [] out})
        {.ready (Future.finish drv parsed out)}

/-- From one tree to another by a change at one place. -/
def Changes (store : Store) (σ σ' : Shared) (tree tree' : Multiset Piece) : Prop :=
  ∃ rest before after, Change store σ σ' before after ∧ tree = rest + before ∧
    tree' = rest + after

variable {store : Store} {σ σ' : Shared}

namespace Changes

variable {before after tree tree' : Multiset Piece}

theorem of_change (h : Change store σ σ' before after) : Changes store σ σ' before after :=
  ⟨0, before, after, h, (zero_add _).symm, (zero_add _).symm⟩

theorem add_left (rest : Multiset Piece) (h : Changes store σ σ' tree tree') :
    Changes store σ σ' (rest + tree) (rest + tree') := by
  obtain ⟨rest', before, after, hchange, rfl, rfl⟩ := h
  exact ⟨rest + rest', before, after, hchange, (add_assoc _ _ _).symm, (add_assoc _ _ _).symm⟩

end Changes

theorem Buffered.advance_changes {b b' : Buffered Future} (σ : Shared)
    (h : b.advance .fresh Future.value = some b') :
    Changes store σ σ b.pieces b'.pieces := by
  obtain ⟨todo, buffer, out⟩ := b
  rcases Option.or_eq_some_iff.mp h with hfill | ⟨-, hgive⟩
  · cases todo with
    | nil => simp [Buffered.fill] at hfill
    | cons drv todo =>
      simp only [Buffered.fill] at hfill
      split_ifs at hfill
      cases hfill
      have hchange : Change store σ σ {.stream (drv :: todo) out}
          ({.stream todo out} + {.fresh drv}) := .fill
      have htree := (Changes.of_change hchange).add_left (piecesOf buffer)
      simp only [Buffered.pieces, piecesOf_append, piecesOf, Future.pieces, add_zero]
      rwa [add_comm {_}, add_left_comm]
  · cases buffer with
    | nil => simp [Buffered.giveOut] at hgive
    | cons f buffer =>
      cases f with
      | ready found =>
        simp only [Buffered.giveOut, Future.value, Option.map_some, Option.some.injEq] at hgive
        subst hgive
        have hchange : Change store σ σ ({.stream todo out} + {.ready found})
            {.stream todo (out.extend found)} := .giveOut
        have htree := (Changes.of_change hchange).add_left (piecesOf buffer)
        simp only [Buffered.pieces, piecesOf, Future.pieces]
        rwa [← add_assoc, add_comm _ (piecesOf buffer), add_comm _ (piecesOf buffer)]
      | fresh | querying | gathering => simp [Buffered.giveOut, Future.value] at hgive

theorem Future.here_changes {f f' : Future} (h : f.here store σ = some (f', σ')) :
    Changes store σ σ' f.pieces f'.pieces := by
  cases f with
  | fresh drv =>
    simp only [Future.here] at h
    split_ifs at h with hmem <;> cases h
    · exact .of_change (.skip hmem)
    · exact .of_change (.claim hmem)
  | querying drv =>
    simp only [Future.here] at h
    cases hread : store.readDrv drv with
    | none =>
      simp only [hread] at h
      cases h
      exact .of_change (.unreadable hread)
    | some parsed =>
      simp only [hread] at h
      split_ifs at h with hinputs <;> cases h
      · exact .of_change (.noInputs hread hinputs)
      · exact .of_change (.gather hread)
  | gathering drv parsed stream =>
    cases hadvance : stream.advance .fresh Future.value with
    | some stream' =>
      simp only [Future.here, hadvance, Option.some.injEq, Prod.mk.injEq] at h
      obtain ⟨rfl, rfl⟩ := h
      exact (Buffered.advance_changes σ hadvance).add_left _
    | none =>
      simp only [Future.here, hadvance] at h
      split_ifs at h with hfinished
      cases h
      obtain ⟨todo, buffer, out⟩ := stream
      obtain ⟨rfl, rfl⟩ := hfinished
      exact .of_change .finish
  | ready => simp [Future.here] at h

theorem Buffered.inner_changes {step : Future → Shared → Option (Future × Shared)} {i : Nat}
    {b b' : Buffered Future}
    (hstep : ∀ {f f' : Future}, step f σ = some (f', σ') →
      Changes store σ σ' f.pieces f'.pieces)
    (h : b.inner i step σ = some (b', σ')) : Changes store σ σ' b.pieces b'.pieces := by
  obtain ⟨todo, buffer, out⟩ := b
  simp only [Buffered.inner] at h
  cases hf : buffer[i]? with
  | none => simp [hf] at h
  | some f =>
    simp only [hf, Option.map_eq_some_iff] at h
    obtain ⟨⟨f', σ''⟩, hf', heq⟩ := h
    obtain ⟨rfl, rfl⟩ := Prod.mk.inj heq
    obtain ⟨rest, hrest, hset⟩ := piecesOf_set hf
    rw [Buffered.pieces, Buffered.pieces, hrest, hset]
    exact ((hstep hf').add_left rest).add_left _

/-- A step anywhere in the tree is a change at one place. -/
theorem Future.step_changes {path : List Nat} {f f' : Future}
    (h : f.step store path σ = some (f', σ')) : Changes store σ σ' f.pieces f'.pieces := by
  induction path generalizing f f' with
  | nil => exact Future.here_changes h
  | cons i path ih =>
    cases f with
    | gathering drv parsed stream =>
      simp only [Future.step, Option.map_eq_some_iff] at h
      obtain ⟨⟨stream', σ''⟩, hinner, heq⟩ := h
      obtain ⟨rfl, rfl⟩ := Prod.mk.inj heq
      exact (Buffered.inner_changes ih hinner).add_left _
    | fresh | querying | ready => simp [Future.step] at h

theorem Traversal.poll_changes {t t' : Traversal} {path : List Nat}
    (h : t.poll store path = some t') :
    Changes store t.shared t'.shared t.stream.pieces t'.stream.pieces := by
  cases path with
  | nil =>
    simp only [Traversal.poll, Option.map_eq_some_iff] at h
    obtain ⟨stream, hadvance, rfl⟩ := h
    exact Buffered.advance_changes t.shared hadvance
  | cons i path =>
    simp only [Traversal.poll, Option.map_eq_some_iff] at h
    obtain ⟨⟨stream, σ'⟩, hinner, rfl⟩ := h
    exact Buffered.inner_changes Future.step_changes hinner

/-! ## The claims of the futures -/

/-- The derivations that a piece has been asked for. -/
def Piece.pending : Piece → Multiset StorePath
  | .fresh drv => {drv}
  | .stream todo _ => todo
  | _ => 0

/-- The derivation that a piece has claimed and not read yet. -/
def Piece.opened : Piece → Multiset StorePath
  | .querying drv => {drv}
  | _ => 0

/-- The traversal with claims that the futures carry out. -/
def claimsOf (σ : Shared) (tree : Multiset Piece) : Claims.State StorePath :=
  ⟨tree.bind Piece.pending, tree.bind Piece.opened, σ.processed, σ.answered⟩

/-- A step of the futures is a step of the traversal with claims, or only
moves what is there. -/
theorem Changes.claims {tree tree' : Multiset Piece} (h : Changes store σ σ' tree tree') :
    Claims.Step store.inputs (claimsOf σ tree) (claimsOf σ' tree') ∨
      claimsOf σ' tree' = claimsOf σ tree := by
  obtain ⟨rest, before, after, hchange, rfl, rfl⟩ := h
  cases hchange with
  | skip hmem =>
    left
    simpa [claimsOf, Multiset.add_bind, Piece.pending, Piece.opened] using
      @Claims.Step.skip _ store.inputs _ _ _ _ _ hmem
  | claim hmem =>
    left
    simpa [claimsOf, Multiset.add_bind, Piece.pending, Piece.opened] using
      @Claims.Step.claim _ store.inputs _ _ _ _ _ hmem
  | @unreadable drv hread =>
    have hinputs : store.inputs drv = [] := by simp [Store.inputs, hread]
    left
    simpa [claimsOf, Multiset.add_bind, Piece.pending, Piece.opened, hinputs] using
      @Claims.Step.expand _ store.inputs drv _ _ _ _
  | @noInputs drv parsed hread hnone =>
    have hinputs : store.inputs drv = [] := by simp [Store.inputs, hread, Store.inputsOf, hnone]
    left
    simpa [claimsOf, Multiset.add_bind, Piece.pending, Piece.opened, hinputs] using
      @Claims.Step.expand _ store.inputs drv _ _ _ _
  | @gather drv parsed hread =>
    have hinputs : store.inputs drv = store.inputsOf parsed := by simp [Store.inputs, hread]
    left
    simpa [claimsOf, Multiset.add_bind, Piece.pending, Piece.opened, hinputs] using
      @Claims.Step.expand _ store.inputs drv _ _ _ _
  | @fill drv todo =>
    have hcons : ((drv :: todo : List StorePath) : Multiset StorePath) = todo + {drv} := by
      rw [add_comm, Multiset.singleton_add, Multiset.cons_coe]
    right
    simp only [claimsOf, Multiset.add_bind, Multiset.singleton_bind, Piece.pending, Piece.opened,
      hcons, add_zero]
  | giveOut =>
    right
    simp [claimsOf, Multiset.add_bind, Piece.pending, Piece.opened, add_comm]
  | finish =>
    right
    simp [claimsOf, Multiset.add_bind, Piece.pending, Piece.opened]

/-! ## What the futures have collected -/

/-- The piece gives out the derivation, now or at the end of its stream. -/
def Piece.Gives (drv : StorePath) (parsed : Derivation) : Piece → Prop
  | .owner drv' parsed' => drv' = drv ∧ parsed' = parsed ∧ parsed.isCa = true
  | .stream _ out => out.lookup drv = some parsed
  | .ready found => found.lookup drv = some parsed
  | .fresh _ | .querying _ => False

def Gives (tree : Multiset Piece) (drv : StorePath) (parsed : Derivation) : Prop :=
  ∃ piece ∈ tree, piece.Gives drv parsed

@[simp] theorem gives_add {a b : Multiset Piece} {drv : StorePath} {parsed : Derivation} :
    Gives (a + b) drv parsed ↔ Gives a drv parsed ∨ Gives b drv parsed := by
  simp only [Gives, Multiset.mem_add, or_and_right, exists_or]

@[simp] theorem gives_singleton {piece : Piece} {drv : StorePath} {parsed : Derivation} :
    Gives {piece} drv parsed ↔ piece.Gives drv parsed := by
  simp [Gives]

/-- The futures give out the content-addressed ones of the derivations that
were read. -/
def Collects (store : Store) (answered : List StorePath) (tree : Multiset Piece) : Prop :=
  ∀ drv parsed, Gives tree drv parsed ↔
    drv ∈ answered ∧ store.readDrv drv = some parsed ∧ parsed.isCa = true

theorem lookup_finish {drv k : StorePath} {parsed v : Derivation} {out : Found} :
    (Future.finish drv parsed out).lookup k = some v ↔
      (k = drv ∧ v = parsed ∧ parsed.isCa = true) ∨
        (out.lookup k = some v ∧ (parsed.isCa = true → k ≠ drv)) := by
  unfold Future.finish
  split_ifs with hca
  · rw [Map.lookup_insert_eq]
    split_ifs with hk
    · simp [hk, hca, eq_comm]
    · simp [hk]
  · simp [hca]

/-- One more derivation is read, and the piece that gives it is there. -/
theorem Collects.answer {rest before after : Multiset Piece} {answered : List StorePath}
    {drv : StorePath} (h : Collects store answered (rest + before))
    (hbefore : ∀ k v, ¬ Gives before k v)
    (hafter : ∀ k v, Gives after k v ↔
      k = drv ∧ store.readDrv drv = some v ∧ v.isCa = true) :
    Collects store (answered ++ [drv]) (rest + after) := by
  intro k v
  have hk := h k v
  rw [gives_add, or_iff_left (hbefore k v)] at hk
  rw [gives_add, hk, hafter, List.mem_append, List.mem_singleton]
  constructor
  · rintro (⟨hmem, hread⟩ | ⟨rfl, hread⟩)
    · exact ⟨.inl hmem, hread⟩
    · exact ⟨.inr rfl, hread⟩
  · rintro ⟨hmem | rfl, hread⟩
    · exact .inl ⟨hmem, hread⟩
    · exact .inr ⟨rfl, hread⟩

/-- What is given stays given. -/
theorem Collects.keep {rest before after : Multiset Piece} {answered : List StorePath}
    (h : Collects store answered (rest + before))
    (heq : ∀ k v, Gives after k v ↔ Gives before k v) :
    Collects store answered (rest + after) := by
  intro k v
  rw [gives_add, heq, ← gives_add]
  exact h k v

theorem Changes.collects {tree tree' : Multiset Piece} (h : Changes store σ σ' tree tree')
    (hcollects : Collects store σ.answered tree) : Collects store σ'.answered tree' := by
  obtain ⟨rest, before, after, hchange, rfl, rfl⟩ := h
  -- two pieces that give one derivation give the same
  have hsame : ∀ {k v v'}, Gives before k v → Gives before k v' → v = v' := by
    intro k v v' hv hv'
    have hread := ((hcollects k v).mp (gives_add.mpr (.inr hv))).2.1
    have hread' := ((hcollects k v').mp (gives_add.mpr (.inr hv'))).2.1
    rw [hread] at hread'
    exact Option.some.inj hread'
  cases hchange with
  | skip => exact hcollects.keep (by simp [Piece.Gives])
  | claim => exact hcollects.keep (by simp [Piece.Gives])
  | unreadable hread =>
    exact hcollects.answer (by simp [Piece.Gives]) (by simp [Piece.Gives, hread])
  | noInputs hread =>
    refine hcollects.answer (by simp [Piece.Gives]) (fun k v => ?_)
    rw [gives_singleton, Piece.Gives, lookup_finish, hread]
    simp only [AList.lookup_empty, reduceCtorEq, false_and, or_false, Option.some.injEq]
    grind
  | gather hread =>
    refine hcollects.answer (by simp [Piece.Gives]) (fun k v => ?_)
    simp only [gives_add, gives_singleton, Piece.Gives, AList.lookup_empty, reduceCtorEq, or_false,
      hread, Option.some.injEq]
    grind
  | fill =>
    refine hcollects.keep (fun k v => ?_)
    rw [gives_add, gives_singleton, gives_singleton, gives_singleton]
    exact or_iff_left id
  | @giveOut todo out found =>
    refine hcollects.keep (fun k v => ?_)
    simp only [gives_add, gives_singleton, Piece.Gives] at hsame ⊢
    rw [Map.lookup_extend]
    cases hfound : found.lookup k with
    | none => simp
    | some v' =>
      rw [Option.some_or, or_iff_right_of_imp]
      exact fun hout => congrArg some (hsame (.inr hfound) (.inl hout))
  | finish =>
    refine hcollects.keep (fun k v => ?_)
    simp only [gives_add, gives_singleton, Piece.Gives, lookup_finish] at hsame ⊢
    grind

theorem Changes.queried {tree tree' : Multiset Piece} (h : Changes store σ σ' tree tree')
    (hqueried : σ.queried = σ.processed) : σ'.queried = σ'.processed := by
  obtain ⟨rest, before, after, hchange, -, -⟩ := h
  cases hchange with
  | claim => exact congrArg (· ++ _) hqueried
  | _ => exact hqueried

/-! ## The steps that are left -/

/-- The steps that reading the derivation leads to: one for the end of its
stream, and four for each input. -/
def Store.work (store : Store) (drv : StorePath) : Nat :=
  (store.readDrv drv).elim 0 (fun parsed => 4 * parsed.inputDrvs.length + 1)

/-- The steps that a piece can still take. -/
def Piece.stepsLeft (store : Store) : Piece → Nat
  | .fresh _ => 3
  | .querying drv => 2 + store.work drv
  | .owner _ _ => 2
  | .stream todo _ => 4 * todo.length
  | .ready _ => 1

/-- The work of the derivations that no future has claimed. -/
def Store.unclaimed (store : Store) (processed : List StorePath) : Nat :=
  ((store.files.keys.filter (fun drv => drv ∉ processed)).map store.work).sum

def stepsLeft (store : Store) (σ : Shared) (tree : Multiset Piece) : Nat :=
  store.unclaimed σ.processed + (tree.map (Piece.stepsLeft store)).sum

theorem Store.work_eq_zero {drv : StorePath} (h : drv ∉ store.files) : store.work drv = 0 := by
  have hlookup : store.files.lookup drv = none := AList.lookup_eq_none.mpr h
  have hread : store.readDrv drv = none := by
    unfold Store.readDrv Store.queryDrv
    split_ifs
    · rfl
    · simp only [hlookup]
      rfl
  simp [Store.work, hread]

/-- A claim takes the work of its derivation out of the rest. -/
theorem Store.unclaimed_claim {processed : List StorePath} {drv : StorePath}
    (h : drv ∉ processed) :
    store.work drv + store.unclaimed (processed ++ [drv]) = store.unclaimed processed := by
  have hnodup : (store.files.keys.filter (fun d => d ∉ processed)).Nodup :=
    store.files.keys_nodup.filter _
  have herase : store.files.keys.filter (fun d => d ∉ processed ++ [drv]) =
      (store.files.keys.filter (fun d => d ∉ processed)).erase drv := by
    rw [hnodup.erase_eq_filter, List.filter_filter]
    refine List.filter_congr (fun d _ => ?_)
    by_cases hd : d = drv <;> simp [hd]
  by_cases hmem : drv ∈ store.files
  · have hkey : drv ∈ store.files.keys.filter (fun d => d ∉ processed) :=
      List.mem_filter.mpr ⟨hmem, by simpa using h⟩
    rw [Store.unclaimed, herase]
    exact List.sum_map_erase _ hkey
  · have hkey : drv ∉ store.files.keys.filter (fun d => d ∉ processed) :=
      fun hk => hmem (List.mem_filter.mp hk).1
    rw [Store.work_eq_zero hmem, Store.unclaimed, herase, List.erase_of_not_mem hkey, Nat.zero_add]
    rfl

/-- Every step is one of those that are left. -/
theorem Changes.stepsLeft_lt {tree tree' : Multiset Piece} (h : Changes store σ σ' tree tree') :
    stepsLeft store σ' tree' < stepsLeft store σ tree := by
  obtain ⟨rest, before, after, hchange, rfl, rfl⟩ := h
  simp only [stepsLeft, Multiset.map_add, Multiset.sum_add]
  cases hchange with
  | skip => simp [Piece.stepsLeft]
  | @claim drv hmem =>
    have hclaim := store.unclaimed_claim hmem
    simp only [Multiset.map_singleton, Multiset.sum_singleton, Piece.stepsLeft]
    omega
  | unreadable => simp [Piece.stepsLeft]; omega
  | noInputs => simp [Piece.stepsLeft]; omega
  | @gather drv parsed hread =>
    have hwork : store.work drv = 4 * parsed.inputDrvs.length + 1 := by simp [Store.work, hread]
    simp [Piece.stepsLeft, hwork, Store.inputsOf]
  | fill => simp [Piece.stepsLeft]; omega
  | giveOut => simp [Piece.stepsLeft]
  | finish => simp [Piece.stepsLeft]

/-! ## A step can always be taken -/

theorem Buffered.advance_of_room {b : Buffered Future} (htodo : b.todo ≠ [])
    (hroom : b.buffer.length < 10) : (b.advance .fresh Future.value).isSome := by
  obtain ⟨todo, buffer, out⟩ := b
  cases todo with
  | nil => exact absurd rfl htodo
  | cons drv todo => simp [Buffered.advance, Buffered.fill, hroom]

/-- A stream that is not finished takes a step, or its first future does. -/
theorem Buffered.progress {b : Buffered Future} (σ : Shared)
    (hstep : ∀ f, b.buffer.head? = some f →
      f.value.isSome ∨ ∃ path, (f.step store path σ).isSome) :
    b.Finished ∨ (b.advance .fresh Future.value).isSome ∨
      ∃ path, (b.inner 0 (Future.step store path) σ).isSome := by
  obtain ⟨todo, buffer, out⟩ := b
  cases buffer with
  | nil =>
    cases todo with
    | nil => exact .inl ⟨rfl, rfl⟩
    | cons drv todo => exact .inr (.inl (Buffered.advance_of_room (by simp) (by simp)))
  | cons f buffer =>
    rcases hstep f rfl with hvalue | ⟨path, hpath⟩
    · refine .inr (.inl ?_)
      obtain ⟨found, hfound⟩ := Option.isSome_iff_exists.mp hvalue
      simp [Buffered.advance, Buffered.giveOut, hfound]
    · exact .inr (.inr ⟨path, by simpa [Buffered.inner] using hpath⟩)

/-- A future that is not ready takes a step, or one of its children does. -/
theorem Future.progress (store : Store) (σ : Shared) :
    ∀ f : Future, f.value.isSome ∨ ∃ path, (f.step store path σ).isSome
  | .ready found => .inl rfl
  | .fresh drv => by
    refine .inr ⟨[], ?_⟩
    simp only [Future.step, Future.here]
    split <;> rfl
  | .querying drv => by
    refine .inr ⟨[], ?_⟩
    simp only [Future.step, Future.here]
    cases store.readDrv drv with
    | none => rfl
    | some parsed =>
      simp only
      split <;> rfl
  | .gathering drv parsed ⟨todo, [], out⟩ => by
    refine .inr ⟨[], ?_⟩
    simp only [Future.step, Future.here]
    cases hadvance : Buffered.advance .fresh Future.value ⟨todo, [], out⟩ with
    | some stream => rfl
    | none =>
      cases todo with
      | nil => simp [Buffered.Finished]
      | cons drv todo => simp [Buffered.advance, Buffered.fill] at hadvance
  | .gathering drv parsed ⟨todo, f :: buffer, out⟩ => by
    rcases Buffered.progress (b := ⟨todo, f :: buffer, out⟩) σ
      (fun g hg => Option.some.inj hg ▸ Future.progress store σ f) with
      hfinished | hadvance | ⟨path, hpath⟩
    · exact absurd hfinished.2 (List.cons_ne_nil _ _)
    · refine .inr ⟨[], ?_⟩
      obtain ⟨stream, hstream⟩ := Option.isSome_iff_exists.mp hadvance
      simp [Future.step, Future.here, hstream]
    · exact .inr ⟨0 :: path, by simpa [Future.step] using hpath⟩

theorem Traversal.progress (store : Store) (t : Traversal) :
    t.stream.Finished ∨ ∃ path, (t.poll store path).isSome := by
  rcases Buffered.progress (b := t.stream) t.shared
    (fun f _ => Future.progress store t.shared f) with hfinished | hadvance | ⟨path, hpath⟩
  · exact .inl hfinished
  · exact .inr ⟨[], by simpa [Traversal.poll] using hadvance⟩
  · exact .inr ⟨0 :: path, by simpa [Traversal.poll] using hpath⟩

/-! ## A traversal -/

/-- The derivation is content-addressed, and the roots lead to it through
derivations that can be read. -/
def Store.Collected (store : Store) (roots : List StorePath) (drv : StorePath)
    (parsed : Derivation) : Prop :=
  Claims.Reaches store.inputs roots drv ∧ store.readDrv drv = some parsed ∧ parsed.isCa = true

namespace Traversal

def start (drvs : List StorePath) : Traversal := { stream := { todo := drvs, buffer := [] } }

def stepsLeft (store : Store) (t : Traversal) : Nat :=
  Fod.stepsLeft store t.shared t.stream.pieces

/-- What holds during a traversal from the roots. -/
structure Inv (store : Store) (roots : List StorePath) (t : Traversal) : Prop where
  claims : Claims.Inv store.inputs roots (claimsOf t.shared t.stream.pieces)
  collects : Collects store t.shared.answered t.stream.pieces
  queried : t.shared.queried = t.shared.processed

variable {roots : List StorePath} {t t' : Traversal}

theorem Inv.start (store : Store) (roots : List StorePath) :
    Inv store roots (Traversal.start roots) where
  claims := by
    simpa [claimsOf, Traversal.start, Buffered.pieces, piecesOf, Piece.pending, Piece.opened] using
      Claims.Inv.start store.inputs roots
  collects drv parsed := by
    simp [Traversal.start, Buffered.pieces, piecesOf, Piece.Gives]
  queried := rfl

theorem Inv.poll {path : List Nat} (h : Inv store roots t) (hpoll : t.poll store path = some t') :
    Inv store roots t' := by
  have hchanges := poll_changes hpoll
  refine ⟨?_, hchanges.collects h.collects, Changes.queried hchanges h.queried⟩
  rcases hchanges.claims with hstep | hsame
  · exact h.claims.step hstep
  · rw [hsame]
    exact h.claims

/-- What a finished traversal has collected. -/
theorem Inv.lookup_out (h : Inv store roots t) (hfinished : t.stream.Finished)
    (drv : StorePath) (parsed : Derivation) :
    t.stream.out.lookup drv = some parsed ↔ store.Collected roots drv parsed := by
  have hpieces : t.stream.pieces = {.stream [] t.stream.out} := by
    obtain ⟨⟨todo, buffer, out⟩, shared⟩ := t
    obtain ⟨rfl, rfl⟩ := hfinished
    simp [Buffered.pieces, piecesOf]
  have hcollects := h.collects drv parsed
  have hexpanded := h.claims.mem_expanded_iff (x := drv)
    (by simp [claimsOf, hpieces, Piece.pending]) (by simp [claimsOf, hpieces, Piece.opened])
  rw [hpieces, gives_singleton] at hcollects
  exact hcollects.trans (and_congr_left' hexpanded)

end Traversal

/-! ## The runs of the checker -/

def Action.IsPoll : Action → Bool
  | .poll _ => true
  | _ => false

namespace FodChecker

variable {fc fc' : FodChecker} {t : Traversal}

/-- While a traversal is running, a step is one of the traversal, or it
leaves the traversal alone; and only `to_traverse` changes the requests. -/
theorem next_cases {a : Action} (ht : fc.traversal = some t) (ha : a ≠ .finish)
    (h : fc.next store a = some fc') :
    (∃ t', fc'.traversal = some t' ∧
      ((a.IsPoll = true ∧ ∃ path, t.poll store path = some t') ∨ (a.IsPoll = false ∧ t' = t))) ∧
    ∀ drv, drv ∈ fc'.toTraverse ↔ drv ∈ fc.toTraverse ∨ a = .toTraverse drv := by
  cases a with
  | toTraverse drv =>
    cases h
    exact ⟨⟨t, ht, .inr ⟨rfl, rfl⟩⟩, fun d => by
      simp [List.mem_insert_iff, or_comm, eq_comm]⟩
  | addCaDrvParsed drv parsed =>
    cases h
    refine ⟨⟨t, ?_, .inr ⟨rfl, rfl⟩⟩, fun d => ?_⟩
    · split_ifs <;> exact ht
    · split_ifs <;> simp
  | traverse drvs => simp [next, ht] at h
  | poll path =>
    simp only [next, ht, Option.map_eq_some_iff] at h
    obtain ⟨t', hpoll, rfl⟩ := h
    exact ⟨⟨t', rfl, .inl ⟨rfl, path, hpoll⟩⟩, fun d => by simp⟩
  | finish => exact absurd rfl ha
  | process =>
    cases h
    exact ⟨⟨t, ht, .inr ⟨rfl, rfl⟩⟩, fun d => by simp⟩

/-- A run during one traversal. -/
theorem run_traversal {roots : List StorePath} {as : List Action}
    (ht : fc.traversal = some t) (hinv : t.Inv store roots)
    (hrun : Lts.run (next store) fc as = some fc') (has : .finish ∉ as) :
    ∃ t', fc'.traversal = some t' ∧ t'.Inv store roots ∧
      t'.stepsLeft store + as.countP Action.IsPoll ≤ t.stepsLeft store ∧
      ∀ drv, drv ∈ fc'.toTraverse ↔ drv ∈ fc.toTraverse ∨ .toTraverse drv ∈ as := by
  induction as generalizing fc t with
  | nil =>
    cases hrun
    exact ⟨t, ht, hinv, by simp, by simp⟩
  | cons a as ih =>
    rw [List.mem_cons, not_or] at has
    obtain ⟨ha, has⟩ := has
    simp only [Lts.run] at hrun
    cases hnext : fc.next store a with
    | none => simp [hnext] at hrun
    | some fc₁ =>
      rw [hnext] at hrun
      obtain ⟨⟨t₁, ht₁, hcase⟩, hrequests⟩ := next_cases ht (Ne.symm ha) hnext
      have hstep : t₁.Inv store roots ∧
          t₁.stepsLeft store + (if a.IsPoll then 1 else 0) ≤ t.stepsLeft store := by
        rcases hcase with ⟨hpoll, path, hpath⟩ | ⟨hpoll, rfl⟩
        · rw [if_pos hpoll]
          exact ⟨hinv.poll hpath, Nat.succ_le_of_lt (Traversal.poll_changes hpath).stepsLeft_lt⟩
        · rw [hpoll]
          exact ⟨hinv, Nat.le_refl _⟩
      obtain ⟨t', ht', hinv', hsteps, hmem⟩ := ih ht₁ hstep.1 hrun has
      refine ⟨t', ht', hinv', ?_, fun drv => ?_⟩
      · have hstep' := hstep.2
        rw [List.countP_cons]
        omega
      · rw [hmem, hrequests, List.mem_cons, or_assoc, eq_comm (a := a)]

/-- What `traverse` does.  `roots` were in `to_traverse` when it began, `as`
is what has happened since, and `t` is where it is. -/
structure Traverses (store : Store) (roots : List StorePath) (as : List Action)
    (fc : FodChecker) (t : Traversal) : Prop where
  queriedOnce : t.shared.queried.Nodup
  /-- The number of its steps is bounded, whatever their order. -/
  bounded : as.countP Action.IsPoll ≤ store.unclaimed [] + 4 * roots.length
  /-- And it does not get stuck before its end. -/
  progress : t.stream.Finished ∨ ∃ path, (fc.next store (.poll path)).isSome
  keepsRequests : ∀ drv, drv ∈ fc.toTraverse ↔ .toTraverse drv ∈ as
  collects : t.stream.Finished → ∃ fc', fc.next store .finish = some fc' ∧
    fc'.toTraverse = fc.toTraverse ∧
    (∀ drv parsed, store.Collected roots drv parsed →
      fc'.caDerivations.lookup drv = some parsed) ∧
    ∀ drv, (∀ parsed, ¬ store.Collected roots drv parsed) →
      fc'.caDerivations.lookup drv = fc.caDerivations.lookup drv

theorem traverse_start {drvs : List StorePath} (h : fc.next store (.traverse drvs) = some fc') :
    drvs.Perm fc.toTraverse ∧ fc'.traversal = some (.start drvs) ∧ fc'.toTraverse = [] := by
  cases ht : fc.traversal with
  | some t => simp [next, ht] at h
  | none =>
    simp only [next, ht] at h
    split_ifs at h with hperm
    cases h
    exact ⟨hperm, rfl, rfl⟩

end FodChecker

theorem Store.collected_perm {roots roots' : List StorePath} (h : roots.Perm roots')
    {drv : StorePath} {parsed : Derivation} :
    store.Collected roots drv parsed ↔ store.Collected roots' drv parsed := by
  simp only [Store.Collected, Claims.Reaches, h.mem_iff]

/-- Each traversal ends, and collects exactly the content-addressed
derivations that are reached, in whatever order its futures run and whatever
is asked of the checker meanwhile. -/
theorem traverse_collects {store : Store} {fc fc₁ fc₂ : FodChecker} {drvs : List StorePath}
    {as : List Action} (hstart : fc.next store (.traverse drvs) = some fc₁)
    (hrun : Lts.run (FodChecker.next store) fc₁ as = some fc₂) (has : .finish ∉ as) :
    ∃ t, fc₂.traversal = some t ∧ FodChecker.Traverses store fc.toTraverse as fc₂ t := by
  obtain ⟨hperm, ht₁, hclear⟩ := FodChecker.traverse_start hstart
  obtain ⟨t, ht, hinv, hsteps, hrequests⟩ :=
    FodChecker.run_traversal ht₁ (Traversal.Inv.start store drvs) hrun has
  refine ⟨t, ht, ?queriedOnce, ?bounded, ?progress, ?keepsRequests, ?collects⟩
  case queriedOnce =>
    rw [hinv.queried]
    exact hinv.claims.nodup
  case bounded =>
    have hbound : (Traversal.start drvs).stepsLeft store =
        store.unclaimed [] + 4 * fc.toTraverse.length := by
      rw [← hperm.length_eq]
      simp [Traversal.stepsLeft, Traversal.start, stepsLeft, Buffered.pieces, piecesOf,
        Piece.stepsLeft]
    omega
  case progress =>
    refine (Traversal.progress store t).imp_right (fun ⟨path, hpath⟩ => ⟨path, ?_⟩)
    simpa [FodChecker.next, ht] using hpath
  case keepsRequests =>
    intro drv
    rw [hrequests, hclear, or_iff_right List.not_mem_nil]
  case collects =>
    intro hfinished
    have hnext : fc₂.next store .finish = some { fc₂ with
        caDerivations := fc₂.caDerivations.extend t.stream.out, traversal := none } := by
      simp only [FodChecker.next, ht, if_pos hfinished]
    refine ⟨_, hnext, rfl, ?_, ?_⟩
    · intro drv parsed hcollected
      rw [Map.lookup_extend, (hinv.lookup_out hfinished drv parsed).mpr
        ((Store.collected_perm hperm).mpr hcollected), Option.some_or]
    · intro drv hnot
      have hnone : t.stream.out.lookup drv = none := by
        rw [Option.eq_none_iff_forall_ne_some]
        intro parsed hsome
        exact hnot parsed ((Store.collected_perm hperm).mp
          ((hinv.lookup_out hfinished drv parsed).mp hsome))
      rw [Map.lookup_extend, hnone, Option.none_or]

/-- Two derivations with each other as an input; both have a third one as an
input, which is content-addressed, and the first one also a file that cannot
be read. -/
def sampleStore : Store where
  storeDir := "/nix/store/"
  files := ((((∅ : Map _ _).insert ⟨"a.drv"⟩ (.ok "a")).insert ⟨"b.drv"⟩ (.ok "b")).insert
    ⟨"c.drv"⟩ (.ok "c")).insert ⟨"u.drv"⟩ (.error ())
  parseDrv drv input :=
    match input with
    | "a" => .ok ⟨["/nix/store/b.drv", "/nix/store/c.drv", "/nix/store/u.drv"], [], drv, "sys"⟩
    | "b" => .ok ⟨["/nix/store/a.drv", "/nix/store/c.drv"], [], drv, "sys"⟩
    | _ => .ok ⟨[], [⟨"out", none, some "hash", some "sha256"⟩], drv, "sys"⟩

/-- The two derivations are asked for, and their futures take turns; the
third one is asked for meanwhile. -/
def sampleRun : List Action :=
  .toTraverse ⟨"c.drv"⟩ ::
    [[], [], [1], [1], [1], [1], [1], [0], [0], [0], [0], [1, 0], [1], [1, 0], [1, 0], [1],
      [1, 0], [1, 0], [1], [1], [0, 1], [0, 0], [0], [0], [0], [], []].map .poll

/-- The traversal of the cycle is finished after its run, and has read each
of the four files once. -/
theorem traverse_collects_cycle :
    ∃ fc₁ fc₂ t, FodChecker.next sampleStore { toTraverse := [⟨"a.drv"⟩, ⟨"b.drv"⟩] }
        (.traverse [⟨"b.drv"⟩, ⟨"a.drv"⟩]) = some fc₁ ∧
      Lts.run (FodChecker.next sampleStore) fc₁ sampleRun = some fc₂ ∧
      fc₂.traversal = some t ∧
      (t.stream.Finished ∧ t.shared.queried = [⟨"a.drv"⟩, ⟨"b.drv"⟩, ⟨"c.drv"⟩, ⟨"u.drv"⟩] ∧
        t.stream.out.keys = [⟨"c.drv"⟩]) ∧
      FodChecker.Traverses sampleStore [⟨"a.drv"⟩, ⟨"b.drv"⟩] sampleRun fc₂ t := by
  have hend : (((FodChecker.next sampleStore { toTraverse := [⟨"a.drv"⟩, ⟨"b.drv"⟩] }
      (.traverse [⟨"b.drv"⟩, ⟨"a.drv"⟩])).bind
        (fun fc₁ => Lts.run (FodChecker.next sampleStore) fc₁ sampleRun)).bind
        FodChecker.traversal).map
      (fun t => (decide t.stream.Finished, t.shared.queried, t.stream.out.keys)) =
      some (true, [⟨"a.drv"⟩, ⟨"b.drv"⟩, ⟨"c.drv"⟩, ⟨"u.drv"⟩], [⟨"c.drv"⟩]) := by
    decide +kernel
  obtain ⟨t, ht, he⟩ := Option.map_eq_some_iff.mp hend
  obtain ⟨fc₂, hrun, ht⟩ := Option.bind_eq_some_iff.mp ht
  obtain ⟨fc₁, hstart, hrun⟩ := Option.bind_eq_some_iff.mp hrun
  simp only [Prod.mk.injEq, decide_eq_true_eq] at he
  obtain ⟨t', ht', h⟩ := traverse_collects hstart hrun (by simp [sampleRun])
  obtain rfl : t = t' := Option.some.inj (ht.symm.trans ht')
  exact ⟨fc₁, fc₂, t, hstart, hrun, ht, he, h⟩

end Fod

end QueueRunner
