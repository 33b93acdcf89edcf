import QueueRunner.CallPool
import Mathlib.Data.Prod.Lex

/-!
# The loading of the queue

`process_new_builds` goes through the ids of its new builds and calls
`create_build` for those that are still in `new_builds_by_id`.  Each call
takes its own id from that map before its first await, and calls
`create_build` for the builds of its new steps, which compete for the same
ids.

`Loader` is the runner with a log of the calls of `create_build`.
`loadedOnce_runs` says that a pass that does not exit early calls
`create_build` once for each of its ids, and that it ends: no pass is ever
stuck, and each takes finitely many steps, however they take turns with
each other and with the other tasks.  The derivations have to be acyclic,
as in every store.
-/

namespace QueueRunner

/-- No derivation is among its inputs, their inputs, and so on. -/
def Config.Acyclic (cfg : Config) : Prop :=
  WellFounded (fun input drvPath : StorePath => input ∈ (cfg.drvOf drvPath).inputDrvs)

/-- The runner with a log of the creation of builds. -/
structure Loader where
  runner : Runner := {}
  /-- `new_ids` of each pass. -/
  newIds : CallId → List BuildID := fun _ => []
  /-- The calls of `create_build`: the pass and the build. -/
  created : List (CallId × BuildID) := []
  /-- The passes that have exited with ids left. -/
  stopped : List CallId := []

namespace Loader

/-- The pass that an action makes exit early. -/
def exits (w : Loader) : Action → List CallId
  | .create (.resumePass k) ans =>
    match w.runner.creation.passes.lookup k with
    | some pass => if ans.stop ∧ pass.waiting.isSome ∧ pass.todo ≠ [] then [k] else []
    | none => []
  | _ => []

/-- What an action adds to the log, after the runner went on to `r`.  A
call that has started is in the pool under the next number. -/
def advance (w : Loader) (a : Action) (r : Runner) : Loader where
  runner := r
  newIds := match a with
    | .create (.startPass rows) _ =>
      Function.update w.newIds w.runner.creation.fresh (rows.map Prod.fst)
    | _ => w.newIds
  created := (r.creation.builds.lookup w.runner.creation.fresh).toList.map
    (fun call => (call.pass, call.build.id)) ++ w.created
  stopped := w.exits a ++ w.stopped

/-- One step of the runner, with its effect on the log. -/
def next (cfg : Config) (w : Loader) (a : Action) : Option Loader :=
  (w.runner.next cfg a).map (w.advance a)

/-- The pass that an action works for. -/
def worksFor (w : Loader) : Action → Option CallId
  | .create a _ => w.runner.creation.worksFor a
  | _ => none

/-- A pass that has ended, and not early, has called `create_build` once
for each of its ids. -/
def LoadedOnce (w : Loader) : Prop :=
  ∀ k, w.runner.creation.passes.lookup k = none → k ∉ w.stopped →
    ∀ id ∈ w.newIds k, w.created.count (k, id) = 1

/-- A pass that is under way can always go on, and goes on finitely often
in every run. -/
def PassesEnd (cfg : Config) (w : Loader) : Prop :=
  ∀ k, w.runner.creation.passes.lookup k ≠ none →
    (∃ a, w.runner.creation.worksFor a = some k ∧ w.runner.createState.Enabled cfg a) ∧
    ∀ (ws : ℕ → Loader) (as : ℕ → Action), ws 0 = w →
      (∀ n, next cfg (ws n) (as n) = some (ws (n + 1))) →
      {n | (ws n).worksFor (as n) = some k}.Finite

end Loader

/-! ## The measure of a pass -/

section Measure

variable (cfg : Config) (cost : StorePath → Nat) (k : CallId)

/-- What the calls for a list of inputs take. -/
def inputsCost (l : List StorePath) : Nat := (l.map (fun q => cost q + 2)).sum

/-- What a call of `create_step` for `drvPath` still takes. -/
def StepPc.left (drvPath : StorePath) : StepPc → Nat
  | .queryDrv _ => 5 + inputsCost cost (cfg.drvOf drvPath).inputDrvs
  | .queryOutputs _ drv => 4 + inputsCost cost drv.inputDrvs
  | .checkCached _ drv _ => 3 + inputsCost cost drv.inputDrvs
  | .substitute _ drv _ => 2 + inputsCost cost drv.inputDrvs
  | .inputs _ todo calls => 1 + inputsCost cost todo + calls.length
  | .returned _ => 0

/-- What a call of `create_build` still takes after its step has
returned. -/
def BuildPc.left : BuildPc → Nat
  | .nested _ todo calls => 2 + todo.length + calls.length
  | .abort | .previousFailure | .cached => 1
  | .validPath | .step _ | .returned => 0

/-- The awaits of `create_build` up to the return of its step. -/
def BuildPc.stage : BuildPc → Nat
  | .validPath => 2
  | .step _ => 1
  | _ => 0

/-- What a pass still takes besides its calls. -/
def Pass.left (p : Pass) : Nat := 1 + p.todo.length + if p.waiting.isSome then 1 else 0

/-- What a call of `create_step` of the pass `k` still takes. -/
def StepCall.leftFor (call : StepCall) : Nat :=
  if call.pass = k then call.pc.left cfg cost call.drvPath else 0

def BuildCall.leftFor (call : BuildCall) : Nat := if call.pass = k then call.pc.left else 0

def BuildCall.stageFor (call : BuildCall) : Nat := if call.pass = k then call.pc.stage else 0

/-- The builds of the pass that no call has taken. -/
def waitingBuilds (passes : Map CallId Pass) : Nat :=
  (passes.lookup k).elim 0 fun p => Map.weight (fun _ => 1) p.byId

/-- What the pass still takes besides its calls. -/
def passLeft (passes : Map CallId Pass) : Nat := (passes.lookup k).elim 0 Pass.left

namespace Creation

/-- The builds that have no step yet: those that are not taken, and those
whose call is on its way. -/
def unloaded (c : Creation) : Nat :=
  3 * waitingBuilds k c.passes + Map.weight (BuildCall.stageFor k) c.builds

/-- What is left for the calls that exist. -/
def remaining (c : Creation) : Nat :=
  passLeft k c.passes + Map.weight (BuildCall.leftFor k) c.builds +
    Map.weight (StepCall.leftFor cfg cost k) c.steps

/-- The measure of a pass.  The calls for a build may be many, and come
second. -/
def measure (c : Creation) : ℕ ×ₗ ℕ := toLex (c.unloaded k, c.remaining cfg cost k)

end Creation

end Measure

/-- The calls of `create_step` have a bound for each path. -/
theorem Config.Acyclic.exists_cost {cfg : Config} (h : cfg.Acyclic) :
    ∃ cost : StorePath → Nat, ∀ p, cost p = 5 + inputsCost cost (cfg.drvOf p).inputDrvs := by
  let step : (p : StorePath) → ((q : StorePath) → q ∈ (cfg.drvOf p).inputDrvs → Nat) → Nat :=
    fun p rec => 5 + ((cfg.drvOf p).inputDrvs.attach.map (fun q => rec q.1 q.2 + 2)).sum
  refine ⟨h.fix step, fun p => ?_⟩
  rw [h.fix_eq step p]
  simp only [step, inputsCost]
  rw [List.attach_map_val (f := fun q => h.fix step q + 2)]

/-! ## What a step does to the measure -/

/-- A measure of two numbers does not grow, and decreases when the step
is one of the pass. -/
structure Declines (works : Prop) (u u' r r' : Nat) : Prop where
  first : u' ≤ u
  second : u' = u → r' ≤ r
  works : works → u' < u ∨ r' < r

theorem BuildPc.Moves.declines {pc pc' : BuildPc} (h : pc.Moves pc') :
    pc'.stage ≤ pc.stage ∧ (pc'.stage < pc.stage ∨ pc'.left < pc.left) := by
  cases h with
  | finish hpc => rcases hpc with rfl | rfl | rfl | rfl <;> simp [stage, left]
  | _ => simp [stage, left]

theorem StepPc.Moves.declines {cfg : Config} {cost : StorePath → Nat} {drvPath : StorePath}
    {pc pc' : StepPc} (h : pc.Moves cfg drvPath pc') :
    pc'.left cfg cost drvPath < pc.left cfg cost drvPath := by
  cases h with
  | found r hpc => rcases hpc with rfl | rfl <;> (simp only [left]; omega)
  | inputs hpc => rcases hpc with rfl | rfl <;> (simp only [left, List.length_nil]; omega)
  | _ => simp only [left]; omega

namespace Creation

variable {cfg : Config} {cost : StorePath → Nat} {k : CallId} {c c' : Creation} {works : Prop}

theorem measure_le (h : Declines works (c.unloaded k) (c'.unloaded k) (c.remaining cfg cost k)
    (c'.remaining cfg cost k)) : c'.measure cfg cost k ≤ c.measure cfg cost k := by
  rw [measure, measure, Prod.Lex.toLex_le_toLex]
  rcases Nat.lt_or_eq_of_le h.first with hlt | heq
  · exact Or.inl hlt
  · exact Or.inr ⟨heq, h.second heq⟩

theorem measure_lt (h : Declines works (c.unloaded k) (c'.unloaded k) (c.remaining cfg cost k)
    (c'.remaining cfg cost k)) (hworks : works) :
    c'.measure cfg cost k < c.measure cfg cost k := by
  rw [measure, measure, Prod.Lex.toLex_lt_toLex]
  rcases Nat.lt_or_eq_of_le h.first with hlt | heq
  · exact Or.inl hlt
  · exact Or.inr ⟨heq, (h.works hworks).resolve_left (heq ▸ Nat.lt_irrefl _)⟩

end Creation

section Passes

variable {k j : CallId} {p : Pass} {passes : Map CallId Pass}

theorem waitingBuilds_insert :
    waitingBuilds k (passes.insert j p) =
      if k = j then Map.weight (fun _ => 1) p.byId else waitingBuilds k passes := by
  rw [waitingBuilds, Map.lookup_insert_eq]
  split_ifs <;> rfl

theorem passLeft_insert :
    passLeft k (passes.insert j p) = if k = j then p.left else passLeft k passes := by
  rw [passLeft, Map.lookup_insert_eq]
  split_ifs <;> rfl

theorem waitingBuilds_of_lookup (h : passes.lookup k = some p) :
    waitingBuilds k passes = Map.weight (fun _ => 1) p.byId := by
  rw [waitingBuilds, h]
  rfl

theorem passLeft_of_lookup (h : passes.lookup k = some p) : passLeft k passes = p.left := by
  rw [passLeft, h]
  rfl

/-- A call takes a build of its pass. -/
theorem weight_byId {id : BuildID} {b : BuildRef} (h : p.byId.lookup id = some b) :
    Map.weight (fun _ => 1) (p.byId.erase id) + 1 = Map.weight (fun _ => 1) p.byId := by
  have herase := Map.weight_erase (fun _ : BuildRef => 1) p.byId id
  rwa [h] at herase

/-- What a call collects for its pass does not count. -/
theorem passes_touched {passes' : Map CallId Pass}
    (h : Map.Touches Pass.SamePlace passes passes') :
    waitingBuilds k passes' = waitingBuilds k passes ∧ passLeft k passes' = passLeft k passes := by
  cases hk : passes'.lookup k with
  | none =>
    have hnone : passes.lookup k = none := by
      cases hp : passes.lookup k with
      | none => rfl
      | some p =>
        obtain ⟨p', hp', -⟩ := h.exists_lookup hp
        rw [hk] at hp'
        cases hp'
    simp [waitingBuilds, passLeft, hk, hnone]
  | some p' =>
    obtain ⟨p, hp, hsame⟩ := h.lookup hk
    have hplace : p'.byId = p.byId ∧ p'.left = p.left := by
      rcases hsame with rfl | ⟨hbyId, htodo, hwaiting⟩
      · exact ⟨rfl, rfl⟩
      · exact ⟨hbyId, by rw [Pass.left, Pass.left, htodo, hwaiting]⟩
    simp [waitingBuilds, passLeft, hk, hp, hplace]

end Passes

namespace PoolStep

variable {cfg : Config} {cost : StorePath → Nat} {ans : Answer} {k : CallId} {c c' : Creation}

/-- The steps of `process_new_builds`. -/
theorem resumePass_declines {j : CallId} (h : PoolStep cfg ans c (.resumePass j) c') :
    Declines (j = k) (c.unloaded k) (c'.unloaded k) (c.remaining cfg cost k)
      (c'.remaining cfg cost k) := by
  cases h with
  | @skipBuild _ pass id todo hpass htodo hwaiting hid =>
    simp only [Creation.unloaded, Creation.remaining, waitingBuilds_insert, passLeft_insert]
    by_cases he : k = j
    · subst he
      have hleft : pass.left = 1 + (todo.length + 1) := by simp [Pass.left, htodo, hwaiting]
      rw [if_pos rfl, if_pos rfl, waitingBuilds_of_lookup hpass, passLeft_of_lookup hpass, hleft]
      simp only [Pass.left, hwaiting]
      constructor <;> simp
    · rw [if_neg he, if_neg he]
      exact ⟨le_refl _, fun _ => le_refl _, fun hj => absurd hj.symm he⟩
  | @nextBuild _ pass id todo b hpass htodo hwaiting hid =>
    have hstage := Map.weight_insert_le (BuildCall.stageFor k) c.builds c.fresh
      { pass := j, build := b }
    have hleft := Map.weight_insert_le (BuildCall.leftFor k) c.builds c.fresh
      { pass := j, build := b }
    simp only [Creation.unloaded, Creation.remaining, waitingBuilds_insert, passLeft_insert]
    by_cases he : k = j
    · subst he
      have hbyId := weight_byId hid
      simp only [BuildCall.stageFor, if_true, BuildPc.stage] at hstage
      rw [if_pos rfl, waitingBuilds_of_lookup hpass]
      constructor <;> omega
    · simp only [BuildCall.stageFor, BuildCall.leftFor, if_neg (Ne.symm he)] at hstage hleft
      rw [if_neg he, if_neg he]
      refine ⟨by omega, fun _ => by omega, fun hj => absurd hj.symm he⟩
  | @endBuild _ k' pass call todo hpass hwaiting hcall hpc htodo =>
    have hstage := Map.weight_erase_le (BuildCall.stageFor k) c.builds k'
    have hleft := Map.weight_erase_le (BuildCall.leftFor k) c.builds k'
    simp only [Creation.unloaded, Creation.remaining, waitingBuilds_insert, passLeft_insert]
    by_cases he : k = j
    · subst he
      have htodo' : todo.length ≤ pass.todo.length := by
        rw [htodo]
        split_ifs
        · exact Nat.zero_le _
        · exact le_refl _
      rw [if_pos rfl, if_pos rfl, waitingBuilds_of_lookup hpass, passLeft_of_lookup hpass]
      simp only [Pass.left, hwaiting, Option.isSome_some, Option.isSome_none, if_true]
      constructor <;> simp <;> omega
    · rw [if_neg he, if_neg he]
      exact ⟨by omega, fun _ => by omega, fun hj => absurd hj.symm he⟩
  | @endPass _ pass hpass hwaiting htodo =>
    simp only [Creation.unloaded, Creation.remaining, waitingBuilds, passLeft,
      Map.lookup_erase_eq]
    by_cases he : k = j
    · subst he
      rw [if_pos rfl, hpass]
      simp only [Option.elim_none, Option.elim_some, Pass.left]
      constructor <;> omega
    · rw [if_neg he]
      exact ⟨le_refl _, fun _ => le_refl _, fun hj => absurd hj.symm he⟩
  | moveBuild ha hcall hmove => rcases ha with ha | ha <;> cases ha

/-- `create_build` goes on by itself, or takes the result of a call. -/
theorem setBuild_declines {j : CallId} {call : BuildCall} {pc : BuildPc}
    {builds : Map CallId BuildCall} {steps : Map CallId StepCall}
    (hcall : builds.lookup j = some call)
    (hbuilds : ∀ f, Map.weight f builds ≤ Map.weight f c.builds)
    (hsteps : ∀ f, Map.weight f steps ≤ Map.weight f c.steps)
    (hstage : pc.stage ≤ call.pc.stage)
    (hmove : pc.stage < call.pc.stage ∨ pc.left < call.pc.left) :
    Declines (call.pass = k) (c.unloaded k)
      (({ c with builds := builds.insert j { call with pc := pc }, steps := steps } :
        Creation).unloaded k) (c.remaining cfg cost k)
      (({ c with builds := builds.insert j { call with pc := pc }, steps := steps } :
        Creation).remaining cfg cost k) := by
  have hstages := Map.weight_replace (BuildCall.stageFor k) hcall { call with pc := pc }
  have hlefts := Map.weight_replace (BuildCall.leftFor k) hcall { call with pc := pc }
  have hbs := hbuilds (BuildCall.stageFor k)
  have hbl := hbuilds (BuildCall.leftFor k)
  have hsl := hsteps (StepCall.leftFor cfg cost k)
  simp only [Creation.unloaded, Creation.remaining]
  simp only [BuildCall.stageFor, BuildCall.leftFor] at hstages hlefts
  by_cases he : call.pass = k
  · simp only [if_pos he] at hstages hlefts
    constructor <;> omega
  · simp only [if_neg he] at hstages hlefts
    exact ⟨by omega, fun _ => by omega, fun hk => absurd hk he⟩

theorem startNested_declines {j : CallId} {call : BuildCall} {step : Option StepRef}
    {id : BuildID} {todo : List BuildID} {calls : List CallId} {pass : Pass} {b : BuildRef}
    (hw : Awaiting c) (hcall : c.builds.lookup j = some call)
    (hpc : call.pc = .nested step (id :: todo) calls)
    (hpass : c.passes.lookup call.pass = some pass) (hid : pass.byId.lookup id = some b)
    (hc' : c' = { c with
      passes := c.passes.insert call.pass { pass with byId := pass.byId.erase id }
      builds := (c.builds.insert c.fresh { pass := call.pass, build := b }).insert j
        { call with pc := .nested step todo (calls ++ [c.fresh]) }
      fresh := c.fresh + 1 }) :
    Declines (call.pass = k) (c.unloaded k) (c'.unloaded k) (c.remaining cfg cost k)
      (c'.remaining cfg cost k) := by
  subst hc'
  have hj : (c.builds.insert c.fresh { pass := call.pass, build := b }).lookup j = some call := by
    rw [Map.lookup_insert_eq, if_neg (Nat.ne_of_lt (hw.builds.bound j call hcall)), hcall]
  have hstages := Map.weight_replace (BuildCall.stageFor k) hj
    { call with pc := .nested step todo (calls ++ [c.fresh]) }
  have hlefts := Map.weight_replace (BuildCall.leftFor k) hj
    { call with pc := .nested step todo (calls ++ [c.fresh]) }
  have hstage := Map.weight_insert_le (BuildCall.stageFor k) c.builds c.fresh
    { pass := call.pass, build := b }
  have hleft := Map.weight_insert_le (BuildCall.leftFor k) c.builds c.fresh
    { pass := call.pass, build := b }
  simp only [Creation.unloaded, Creation.remaining, waitingBuilds_insert, passLeft_insert]
  simp only [BuildCall.stageFor, BuildCall.leftFor] at hstages hlefts hstage hleft
  by_cases he : call.pass = k
  · subst he
    have hbyId := weight_byId hid
    simp only [if_true, hpc, BuildPc.stage] at hstages hstage
    rw [if_pos rfl, waitingBuilds_of_lookup hpass]
    constructor <;> omega
  · simp only [if_neg he] at hstages hlefts hstage hleft
    rw [if_neg (Ne.symm he), if_neg (Ne.symm he)]
    exact ⟨by omega, fun _ => by omega, fun hk => absurd hk he⟩

theorem startToplevel_declines {j : CallId} {call : BuildCall} {child : StepCall}
    (hcall : c.builds.lookup j = some call) (hpc : call.pc = .validPath)
    (hpass : child.pass = call.pass)
    (hc' : c' = { c with
      builds := c.builds.insert j { call with pc := .step c.fresh }
      steps := c.steps.insert c.fresh child
      fresh := c.fresh + 1 }) :
    Declines (call.pass = k) (c.unloaded k) (c'.unloaded k) (c.remaining cfg cost k)
      (c'.remaining cfg cost k) := by
  subst hc'
  have hstages := Map.weight_replace (BuildCall.stageFor k) hcall
    { call with pc := .step c.fresh }
  have hlefts := Map.weight_replace (BuildCall.leftFor k) hcall { call with pc := .step c.fresh }
  have hsteps := Map.weight_insert_le (StepCall.leftFor cfg cost k) c.steps c.fresh child
  simp only [Creation.unloaded, Creation.remaining]
  simp only [BuildCall.stageFor, BuildCall.leftFor] at hstages hlefts
  by_cases he : call.pass = k
  · simp only [if_pos he, hpc, BuildPc.stage] at hstages
    constructor <;> omega
  · simp only [if_neg he] at hstages hlefts
    simp only [StepCall.leftFor, hpass, if_neg he] at hsteps
    exact ⟨by omega, fun _ => by omega, fun hk => absurd hk he⟩

/-- `create_step` goes on by itself, or takes the result of an input. -/
theorem setStep_declines {j : CallId} {call : StepCall} {pc : StepPc}
    {passes : Map CallId Pass} {builds : Map CallId BuildCall} {steps : Map CallId StepCall}
    (hcall : steps.lookup j = some call)
    (hpasses : Map.Touches Pass.SamePlace c.passes passes)
    (hbuilds : Map.Touches BuildCall.SamePlace c.builds builds)
    (hsteps : ∀ f, Map.weight f steps ≤ Map.weight f c.steps)
    (hmove : pc.left cfg cost call.drvPath < call.pc.left cfg cost call.drvPath)
    (hc' : c' = { c with
      passes := passes, builds := builds, steps := steps.insert j { call with pc := pc } }) :
    Declines (call.pass = k) (c.unloaded k) (c'.unloaded k) (c.remaining cfg cost k)
      (c'.remaining cfg cost k) := by
  subst hc'
  have hlefts := Map.weight_replace (StepCall.leftFor cfg cost k) hcall { call with pc := pc }
  have hsl := hsteps (StepCall.leftFor cfg cost k)
  obtain ⟨hwaiting, hpassLeft⟩ := passes_touched (k := k) hpasses
  have hstage : Map.weight (BuildCall.stageFor k) builds =
      Map.weight (BuildCall.stageFor k) c.builds :=
    hbuilds.weight_eq fun _ _ h => by rw [BuildCall.stageFor, BuildCall.stageFor, h.1, h.2.2]
  have hleft : Map.weight (BuildCall.leftFor k) builds =
      Map.weight (BuildCall.leftFor k) c.builds :=
    hbuilds.weight_eq fun _ _ h => by rw [BuildCall.leftFor, BuildCall.leftFor, h.1, h.2.2]
  simp only [Creation.unloaded, Creation.remaining, hwaiting, hpassLeft, hstage, hleft]
  simp only [StepCall.leftFor] at hlefts
  by_cases he : call.pass = k
  · simp only [if_pos he] at hlefts
    exact ⟨le_refl _, fun _ => by omega, fun _ => Or.inr (by omega)⟩
  · simp only [if_neg he] at hlefts
    exact ⟨le_refl _, fun _ => by omega, fun hk => absurd hk he⟩

theorem startInput_declines {j : CallId} {call child : StepCall} {step : StepRef}
    {drvPath : StorePath} {todo : List StorePath} {calls : List (StorePath × CallId)}
    (hcost : ∀ p, cost p = 5 + inputsCost cost (cfg.drvOf p).inputDrvs) (hw : Awaiting c)
    (hcall : c.steps.lookup j = some call) (hpc : call.pc = .inputs step (drvPath :: todo) calls)
    (hpass : child.pass = call.pass) (hpath : child.drvPath = drvPath)
    (hstart : (∃ s, child.pc = .queryDrv s) ∨ ∃ r, child.pc = .returned r)
    (hc' : c' = { c with
      steps := (c.steps.insert c.fresh child).insert j
        { call with pc := .inputs step todo (calls ++ [(drvPath, c.fresh)]) }
      fresh := c.fresh + 1 }) :
    Declines (call.pass = k) (c.unloaded k) (c'.unloaded k) (c.remaining cfg cost k)
      (c'.remaining cfg cost k) := by
  subst hc'
  have hj : (c.steps.insert c.fresh child).lookup j = some call := by
    rw [Map.lookup_insert_eq, if_neg (Nat.ne_of_lt (hw.steps.bound j call hcall)), hcall]
  have hlefts := Map.weight_replace (StepCall.leftFor cfg cost k) hj
    { call with pc := .inputs step todo (calls ++ [(drvPath, c.fresh)]) }
  have hchild := Map.weight_insert_le (StepCall.leftFor cfg cost k) c.steps c.fresh child
  have hbound : child.pc.left cfg cost child.drvPath ≤ cost drvPath := by
    rw [hpath, hcost drvPath]
    rcases hstart with ⟨s, hs⟩ | ⟨r, hr⟩
    · rw [hs]
      exact le_refl _
    · rw [hr]
      exact Nat.zero_le _
  simp only [Creation.unloaded, Creation.remaining]
  simp only [StepCall.leftFor, hpass] at hlefts hchild
  by_cases he : call.pass = k
  · simp only [if_pos he] at hlefts hchild
    simp only [hpc, StepPc.left, inputsCost, List.map_cons, List.sum_cons, List.length_append,
      List.length_singleton] at hlefts
    exact ⟨le_refl _, fun _ => by omega, fun _ => Or.inr (by omega)⟩
  · simp only [if_neg he] at hlefts hchild
    exact ⟨le_refl _, fun _ => by omega, fun hk => absurd hk he⟩

/-- Every step of the calls, once the pass has started. -/
theorem declines {a : CreateAction} (h : PoolStep cfg ans c a c')
    (hcost : ∀ p, cost p = 5 + inputsCost cost (cfg.drvOf p).inputDrvs) (hw : Awaiting c)
    (hk : k < c.fresh) :
    Declines (c.worksFor a = some k) (c.unloaded k) (c'.unloaded k) (c.remaining cfg cost k)
      (c'.remaining cfg cost k) := by
  -- the pass of the call that goes on
  have hbuild : ∀ {a : CreateAction} {j : CallId} {call : BuildCall},
      a = .startNested j ∨ a = .resumeBuild j → c.builds.lookup j = some call →
      c.worksFor a = some call.pass := by
    rintro a j call (rfl | rfl) hcall <;> simp [Creation.worksFor, hcall]
  have hstep : ∀ {a : CreateAction} {j : CallId} {call : StepCall},
      a = .startInput j ∨ a = .resumeStep j → c.steps.lookup j = some call →
      c.worksFor a = some call.pass := by
    rintro a j call (rfl | rfl) hcall <;> simp [Creation.worksFor, hcall]
  have hworks : ∀ {a : CreateAction} {j : CallId}, c.worksFor a = some j →
      Declines (j = k) (c.unloaded k) (c'.unloaded k) (c.remaining cfg cost k)
        (c'.remaining cfg cost k) →
      Declines (c.worksFor a = some k) (c.unloaded k) (c'.unloaded k) (c.remaining cfg cost k)
        (c'.remaining cfg cost k) := fun ha hd =>
    ⟨hd.first, hd.second, fun hk => hd.works (Option.some.inj (ha.symm.trans hk))⟩
  have hresume : ∀ j, a = .resumePass j → Declines (j = k) (c.unloaded k) (c'.unloaded k)
      (c.remaining cfg cost k) (c'.remaining cfg cost k) := by
    rintro j rfl
    exact h.resumePass_declines
  cases h with
  | startPass rows pass htodo hwaiting hbuild hbyId =>
    have hne : k ≠ c.fresh := Nat.ne_of_lt hk
    simp only [Creation.unloaded, Creation.remaining, waitingBuilds_insert, passLeft_insert,
      if_neg hne]
    exact ⟨le_refl _, fun _ => le_refl _, fun hnone => by cases hnone⟩
  | skipBuild hpass htodo hwaiting hid =>
    exact hworks rfl (hresume _ rfl)
  | nextBuild hpass htodo hwaiting hid =>
    exact hworks rfl (hresume _ rfl)
  | endBuild todo hpass hwaiting hcall hpc htodo =>
    exact hworks rfl (hresume _ rfl)
  | endPass hpass hwaiting htodo =>
    exact hworks rfl (hresume _ rfl)
  | startNested hcall hpc hpass hid =>
    exact hworks (hbuild (Or.inl rfl) hcall) (startNested_declines hw hcall hpc hpass hid rfl)
  | moveBuild ha hcall hmove =>
    obtain ⟨hstage, hmove⟩ := hmove.declines
    exact hworks (hbuild ha hcall)
      (setBuild_declines hcall (fun _ => le_refl _) (fun _ => le_refl _) hstage hmove)
  | startToplevel hcall hpc hstart =>
    exact hworks (hbuild (Or.inr rfl) hcall) (startToplevel_declines hcall hpc rfl rfl)
  | @takeToplevel j k' call child pc hcall hpc hchild hmove =>
    have hstage : pc.stage < call.pc.stage := by
      rw [hpc]
      rcases hmove with rfl | rfl | ⟨step, ids, rfl⟩ <;> exact Nat.zero_lt_one
    exact hworks (hbuild (Or.inr rfl) hcall) (setBuild_declines hcall (fun _ => le_refl _)
      (fun f => Map.weight_erase_le f c.steps k') hstage.le (Or.inl hstage))
  | @takeNested j k' call child step todo calls hcall hpc hchild hresult =>
    have hlt := (hw.builds.nested j call k' hcall (by rw [hpc]; exact List.mem_cons_self)).1
    have hj : (c.builds.erase k').lookup j = some call := by
      rw [Map.lookup_erase_eq, if_neg (Nat.ne_of_lt hlt), hcall]
    refine hworks (hbuild (Or.inr rfl) hcall) (setBuild_declines hj
      (fun f => Map.weight_erase_le f c.builds k') (fun _ => le_refl _) ?_ (Or.inr ?_))
    · rw [hpc]
      exact le_refl _
    · rw [hpc]
      simp only [BuildPc.left, List.length_cons]
      omega
  | startInput hcall hpc hstart =>
    refine hworks (hstep (Or.inl rfl) hcall)
      (startInput_declines hcost hw hcall hpc ?_ ?_ ?_ rfl)
    · rfl
    · rfl
    · exact hstart
  | moveStep hcall hmove hpasses hbuilds =>
    exact hworks (hstep (Or.inr rfl) hcall)
      (setStep_declines hcall hpasses hbuilds (fun _ => le_refl _) hmove.declines rfl)
  | @takeInput j k' call child step drvPath todo calls hcall hpc hchild hne =>
    have hj : (c.steps.erase k').lookup j = some call := by
      rw [Map.lookup_erase_eq, if_neg hne, hcall]
    refine hworks (hstep (Or.inr rfl) hcall) (setStep_declines hj .refl .refl
      (fun f => Map.weight_erase_le f c.steps k') ?_ rfl)
    rw [hpc]
    simp only [StepPc.left, List.length_cons]
    omega
  | @dropInputs j k' call child step drvPath todo calls r hcall hpc hchild hne =>
    have hkept : j ∉ call.callers := fun hmem =>
      Nat.lt_irrefl _ (hw.steps.callers j call hcall j hmem)
    have hj : (Map.retain (fun _ call => !call.callers.contains j) (c.steps.erase k')).lookup j =
        some call := by
      rw [Map.lookup_retain, Map.lookup_erase_eq, if_neg hne, hcall]
      simp [hkept]
    refine hworks (hstep (Or.inr rfl) hcall) (setStep_declines hj .refl .refl (fun f => ?_) ?_ rfl)
    · exact (Map.weight_retain_le f _ _).trans (Map.weight_erase_le f c.steps k')
    · rw [hpc]
      simp only [StepPc.left]
      omega

end PoolStep

/-! ## The log -/

namespace Loader

/-- What is known of a pass that is under way. -/
structure PassOk (w : Loader) (k : CallId) (p : Pass) : Prop where
  build : ∀ id b, p.byId.lookup id = some b → b.id = id
  count : ∀ id ∈ w.newIds k,
    w.created.count (k, id) = if (p.byId.lookup id).isSome then 0 else 1
  todo : k ∉ w.stopped → ∀ id ∈ w.newIds k, (p.byId.lookup id).isSome → id ∈ p.todo

/-- The log in a reachable state. -/
structure Logged (w : Loader) : Prop where
  created : ∀ e ∈ w.created, e.1 < w.runner.creation.fresh
  newIds : ∀ k, w.runner.creation.fresh ≤ k → w.newIds k = []
  pass : ∀ k p, w.runner.creation.passes.lookup k = some p → w.PassOk k p
  ended : w.LoadedOnce

variable {cfg : Config} {w w' : Loader}

theorem Logged.init : Logged {} := by
  constructor <;> simp [LoadedOnce]

/-- No call starts, and a pass goes on with the ids that are left. -/
theorem Logged.of_frame (h : w.Logged) (hnewIds : w'.newIds = w.newIds)
    (hcreated : w'.created = w.created) (hstopped : w.stopped ⊆ w'.stopped)
    (hfresh : w.runner.creation.fresh ≤ w'.runner.creation.fresh)
    (hpasses : ∀ k p', w'.runner.creation.passes.lookup k = some p' →
      ∃ p, w.runner.creation.passes.lookup k = some p ∧ p'.byId = p.byId ∧
        (k ∉ w'.stopped → ∀ id ∈ p.todo, (p.byId.lookup id).isSome → id ∈ p'.todo))
    (hended : ∀ k p, w.runner.creation.passes.lookup k = some p →
      w'.runner.creation.passes.lookup k = none → p.todo = []) : w'.Logged where
  created e he := lt_of_lt_of_le (h.created e (hcreated ▸ he)) hfresh
  newIds k hk := by
    rw [hnewIds]
    exact h.newIds k (hfresh.trans hk)
  pass k p' hp' := by
    obtain ⟨p, hp, hbyId, htodo⟩ := hpasses k p' hp'
    have hok := h.pass k p hp
    refine ⟨fun id b hb => hok.build id b (hbyId ▸ hb), fun id hid => ?_, fun hk id hid hb => ?_⟩
    · rw [hcreated, hbyId]
      exact hok.count id (hnewIds ▸ hid)
    · rw [hbyId] at hb
      exact htodo hk id (hok.todo (fun hs => hk (hstopped hs)) id (hnewIds ▸ hid) hb) hb
  ended k hk hstop id hid := by
    rw [hcreated]
    rw [hnewIds] at hid
    have hstop' : k ∉ w.stopped := fun hs => hstop (hstopped hs)
    cases hp : w.runner.creation.passes.lookup k with
    | none => exact h.ended k hp hstop' id hid
    | some p =>
      -- the pass ends now, and no id is left
      have hok := h.pass k p hp
      rw [hok.count id hid, if_neg]
      intro hb
      have hmem := hok.todo hstop' id hid hb
      rw [hended k p hp hk] at hmem
      cases hmem

/-- A call of `create_build` starts and takes its id. -/
theorem Logged.start (h : w.Logged) {k : CallId} {p p' : Pass} {id : BuildID} {b : BuildRef}
    (hp : w.runner.creation.passes.lookup k = some p) (hid : p.byId.lookup id = some b)
    (hk : k < w.runner.creation.fresh)
    (hnewIds : w'.newIds = w.newIds) (hcreated : w'.created = (k, b.id) :: w.created)
    (hstopped : w'.stopped = w.stopped)
    (hfresh : w.runner.creation.fresh ≤ w'.runner.creation.fresh)
    (hpasses : w'.runner.creation.passes = w.runner.creation.passes.insert k p')
    (hbyId : p'.byId = p.byId.erase id)
    (htodo : ∀ id' ∈ p.todo, id' ≠ id → id' ∈ p'.todo) : w'.Logged := by
  have hbid : b.id = id := (h.pass k p hp).build id b hid
  rw [hbid] at hcreated
  have hother : ∀ k' id', k' ≠ k → w'.created.count (k', id') = w.created.count (k', id') := by
    intro k' id' hne
    rw [hcreated, List.count_cons_of_ne]
    intro he
    exact hne (Prod.mk.inj he).1.symm
  refine ⟨fun e he => ?_, fun k' hk' => ?_, fun k' q hq => ?_, fun k' hk' hstop id' hid' => ?_⟩
  · rw [hcreated] at he
    rcases List.mem_cons.mp he with rfl | he
    · exact lt_of_lt_of_le hk hfresh
    · exact lt_of_lt_of_le (h.created e he) hfresh
  · rw [hnewIds]
    exact h.newIds k' (hfresh.trans hk')
  · rw [hpasses, Map.lookup_insert_eq] at hq
    split_ifs at hq with he
    · cases hq
      subst he
      have hok := h.pass k' p hp
      refine ⟨fun id' b' hb' => ?_, fun id' hid' => ?_, fun hstop id' hid' hb' => ?_⟩
      · rw [hbyId, Map.lookup_erase_eq] at hb'
        split_ifs at hb'
        exact hok.build id' b' hb'
      · rw [hnewIds] at hid'
        have hcount := hok.count id' hid'
        rw [hbyId, Map.lookup_erase_eq, hcreated]
        by_cases he : id' = id
        · rw [he] at hcount ⊢
          rw [hid] at hcount
          rw [List.count_cons_self, hcount, if_pos rfl]
          rfl
        · rw [List.count_cons_of_ne (fun heq => he (Prod.mk.inj heq).2.symm), hcount, if_neg he]
      · rw [hnewIds] at hid'
        rw [hbyId, Map.lookup_erase_eq] at hb'
        split_ifs at hb' with he
        · cases hb'
        · exact htodo id' (hok.todo (hstopped ▸ hstop) id' hid' hb') he
    · have hok := h.pass k' q hq
      refine ⟨hok.build, fun id' hid' => ?_, fun hstop id' hid' => ?_⟩
      · rw [hother k' id' he]
        exact hok.count id' (hnewIds ▸ hid')
      · exact hok.todo (hstopped ▸ hstop) id' (hnewIds ▸ hid')
  · rw [hpasses, Map.lookup_insert_eq] at hk'
    split_ifs at hk' with he
    rw [hother k' id' he]
    exact h.ended k' hk' (hstopped ▸ hstop) id' (hnewIds ▸ hid')

/-- A pass starts. -/
theorem Logged.startPass (h : w.Logged) {rows : List (BuildID × StorePath)} {pass : Pass}
    (htodo : pass.todo = rows.map Prod.fst)
    (hbuild : ∀ id b, pass.byId.lookup id = some b → b.id = id)
    (hbyId : ∀ id ∈ rows.map Prod.fst, ∃ b, pass.byId.lookup id = some b)
    (hnewIds : w'.newIds = Function.update w.newIds w.runner.creation.fresh (rows.map Prod.fst))
    (hcreated : w'.created = w.created) (hstopped : w'.stopped = w.stopped)
    (hfresh : w'.runner.creation.fresh = w.runner.creation.fresh + 1)
    (hpasses : w'.runner.creation.passes =
      w.runner.creation.passes.insert w.runner.creation.fresh pass) : w'.Logged := by
  have hother : ∀ k, k ≠ w.runner.creation.fresh → w'.newIds k = w.newIds k := by
    intro k hk
    rw [hnewIds, Function.update_of_ne hk]
  refine ⟨fun e he => ?_, fun k hk => ?_, fun k q hq => ?_, fun k hk hstop id hid => ?_⟩
  · rw [hfresh]
    exact Nat.lt_succ_of_lt (h.created e (hcreated ▸ he))
  · rw [hfresh] at hk
    rw [hother k (Nat.ne_of_gt hk)]
    exact h.newIds k (Nat.le_of_succ_le hk)
  · rw [hpasses, Map.lookup_insert_eq] at hq
    split_ifs at hq with he
    · cases hq
      subst he
      have hids : w'.newIds w.runner.creation.fresh = rows.map Prod.fst := by
        rw [hnewIds, Function.update_self]
      refine ⟨hbuild, fun id hid => ?_, fun _ id hid _ => ?_⟩
      · obtain ⟨b, hb⟩ := hbyId id (hids ▸ hid)
        rw [hb, hcreated, Option.isSome_some, if_pos rfl, List.count_eq_zero]
        intro hmem
        exact Nat.lt_irrefl _ (h.created _ hmem)
      · rw [htodo]
        exact hids ▸ hid
    · have hok := h.pass k q hq
      refine ⟨hok.build, fun id hid => ?_, fun hk id hid => ?_⟩
      · rw [hcreated]
        exact hok.count id (hother k he ▸ hid)
      · exact hok.todo (hstopped ▸ hk) id (hother k he ▸ hid)
  · rw [hpasses, Map.lookup_insert_eq] at hk
    split_ifs at hk with he
    rw [hcreated]
    exact h.ended k hk (hstopped ▸ hstop) id (hother k he ▸ hid)

/-- No call is in the pool under the next number. -/
theorem advance_created {a : Action} {r : Runner}
    (h : r.creation.builds.lookup w.runner.creation.fresh = none) :
    (w.advance a r).created = w.created := by
  show (r.creation.builds.lookup w.runner.creation.fresh).toList.map _ ++ w.created = w.created
  rw [h]
  rfl

theorem advance_started {a : Action} {r : Runner} {call : BuildCall}
    (h : r.creation.builds.lookup w.runner.creation.fresh = some call) :
    (w.advance a r).created = (call.pass, call.build.id) :: w.created := by
  show (r.creation.builds.lookup w.runner.creation.fresh).toList.map _ ++ w.created = _
  rw [h]
  rfl

/-- A call of `create_step`, or of `create_build` without a new one, goes
on. -/
theorem Logged.of_calls (h : w.Logged) (hw : Awaiting w.runner.creation) {a : CreateAction}
    {ans : Answer} {r : Runner} (hpass : ∀ rows, a ≠ .startPass rows)
    (hpasses : Map.Touches Pass.SamePlace w.runner.creation.passes r.creation.passes)
    (hbuilds : ∀ k call, r.creation.builds.lookup k = some call →
      ∃ call₀, w.runner.creation.builds.lookup k = some call₀)
    (hfresh : w.runner.creation.fresh ≤ r.creation.fresh) :
    (w.advance (.create a ans) r).Logged := by
  refine h.of_frame ?_ (advance_created ?_) (List.subset_append_right _ _) hfresh
    (fun k p' hp' => ?_) fun k p hp hnone => ?_
  · cases a with
    | startPass rows => exact absurd rfl (hpass rows)
    | _ => rfl
  · cases hcall : r.creation.builds.lookup w.runner.creation.fresh with
    | none => rfl
    | some call =>
      obtain ⟨call₀, hcall₀⟩ := hbuilds _ _ hcall
      exact absurd (hw.builds.bound _ _ hcall₀) (Nat.lt_irrefl _)
  · obtain ⟨p, hp, rfl | ⟨hbyId, htodo, -⟩⟩ := hpasses.lookup hp'
    · exact ⟨p', hp, rfl, fun _ id hid _ => hid⟩
    · exact ⟨p, hp, hbyId, fun _ id hid _ => htodo ▸ hid⟩
  · obtain ⟨p', hp', -⟩ := hpasses.exists_lookup hp
    exact absurd (hp'.symm.trans hnone) (by simp)

/-- A pass goes on without a new call. -/
theorem Logged.of_pass (h : w.Logged) (hw : Awaiting w.runner.creation) {k : CallId}
    {ans : Answer} {r : Runner} {p p' : Pass}
    (hp : w.runner.creation.passes.lookup k = some p)
    (hpasses : r.creation.passes = w.runner.creation.passes.insert k p')
    (hbuilds : ∀ j call, r.creation.builds.lookup j = some call →
      w.runner.creation.builds.lookup j = some call)
    (hfresh : r.creation.fresh = w.runner.creation.fresh) (hbyId : p'.byId = p.byId)
    (htodo : k ∉ (w.advance (.create (.resumePass k) ans) r).stopped →
      ∀ id ∈ p.todo, (p.byId.lookup id).isSome → id ∈ p'.todo) :
    (w.advance (.create (.resumePass k) ans) r).Logged := by
  refine h.of_frame rfl (advance_created ?_) (List.subset_append_right _ _)
    (Nat.le_of_eq hfresh.symm) (fun k' q hq => ?_) fun k' q hq hnone => ?_
  · cases hcall : r.creation.builds.lookup w.runner.creation.fresh with
    | none => rfl
    | some call => exact absurd (hw.builds.bound _ _ (hbuilds _ _ hcall)) (Nat.lt_irrefl _)
  · change r.creation.passes.lookup k' = some q at hq
    rw [hpasses, Map.lookup_insert_eq] at hq
    split_ifs at hq with he
    · cases hq
      subst he
      exact ⟨p, hp, hbyId, htodo⟩
    · exact ⟨q, hq, rfl, fun _ id hid _ => hid⟩
  · change r.creation.passes.lookup k' = none at hnone
    rw [hpasses, Map.lookup_insert_eq] at hnone
    split_ifs at hnone
    rw [hq] at hnone
    cases hnone

/-- Every step of the calls. -/
theorem Logged.poolStep (h : w.Logged) (hw : Awaiting w.runner.creation) {a : CreateAction}
    {ans : Answer} {r : Runner} (hs : PoolStep cfg ans w.runner.creation a r.creation) :
    (w.advance (.create a ans) r).Logged := by
  -- a call that was there is written back
  have hinsert : ∀ {builds : Map CallId BuildCall} {j : CallId} {call call' : BuildCall},
      w.runner.creation.builds.lookup j = some call →
      (∀ k q, builds.lookup k = some q → w.runner.creation.builds.lookup k = some q) →
      ∀ k q, (builds.insert j call').lookup k = some q →
        ∃ q₀, w.runner.creation.builds.lookup k = some q₀ := by
    intro builds j call call' hcall hold k q hq
    rw [Map.lookup_insert_eq] at hq
    split_ifs at hq with he
    · exact ⟨call, he ▸ hcall⟩
    · exact ⟨q, hold k q hq⟩
  generalize hc' : r.creation = c' at hs
  cases hs with
  | startPass rows pass htodo hwaiting hbuild hbyId =>
    refine h.startPass htodo hbuild hbyId rfl (advance_created ?_) rfl
      (congrArg Creation.fresh hc') (congrArg Creation.passes hc')
    rw [hc']
    cases hcall : w.runner.creation.builds.lookup w.runner.creation.fresh with
    | none => rfl
    | some call => exact absurd (hw.builds.bound _ _ hcall) (Nat.lt_irrefl _)
  | @skipBuild k pass id todo hpass htodo hwaiting hid =>
    refine h.of_pass hw hpass (congrArg Creation.passes hc') (by rw [hc']; exact fun _ _ hj => hj)
      (by rw [hc']) rfl fun _ id' hid' hb => ?_
    rw [htodo] at hid'
    rcases List.mem_cons.mp hid' with rfl | hid'
    · rw [hid] at hb
      cases hb
    · exact hid'
  | @nextBuild k pass id todo b hpass htodo hwaiting hid =>
    have hfresh : w.runner.creation.fresh ≤ r.creation.fresh := by
      rw [hc']
      exact Nat.le_succ _
    have hcall : r.creation.builds.lookup w.runner.creation.fresh =
        some { pass := k, build := b } := by
      rw [hc']
      exact AList.lookup_insert _
    refine h.start hpass hid (hw.builds.passBound k pass hpass) rfl (advance_started hcall) ?_
      hfresh (congrArg Creation.passes hc') rfl ?_
    · simp [advance, exits, hpass, hwaiting]
    · intro id' hid' hne
      rw [htodo] at hid'
      exact (List.mem_cons.mp hid').resolve_left hne
  | @endBuild k k' pass call todo hpass hwaiting hcall hpc htodo =>
    refine h.of_pass hw hpass (congrArg Creation.passes hc') ?_ (by rw [hc']) rfl
      fun hstop id' hid' _ => ?_
    · intro j call' hj
      rw [hc', Map.lookup_erase_eq] at hj
      split_ifs at hj
      exact hj
    · have hgoes : ans.stop = false := by
        refine Bool.eq_false_iff.mpr fun hstops => hstop (List.mem_append_left _ ?_)
        simp [exits, hpass, hwaiting, hstops, List.ne_nil_of_mem hid']
      rw [htodo, hgoes]
      exact hid'
  | @endPass k pass hpass hwaiting htodo =>
    have hfresh : w.runner.creation.fresh ≤ r.creation.fresh := by
      rw [hc']
    refine h.of_frame rfl (advance_created ?_) (List.subset_append_right _ _) hfresh
      (fun k' q hq => ?_) fun k' q hq hnone => ?_
    · rw [hc']
      cases hcall : w.runner.creation.builds.lookup w.runner.creation.fresh with
      | none => rfl
      | some call => exact absurd (hw.builds.bound _ _ hcall) (Nat.lt_irrefl _)
    · change r.creation.passes.lookup k' = some q at hq
      rw [hc', Map.lookup_erase_eq] at hq
      split_ifs at hq
      exact ⟨q, hq, rfl, fun _ id hid _ => hid⟩
    · change r.creation.passes.lookup k' = none at hnone
      rw [hc', Map.lookup_erase_eq] at hnone
      split_ifs at hnone with he
      · rw [he, hpass, Option.some.injEq] at hq
        rw [← hq]
        exact htodo
      · rw [hq] at hnone
        cases hnone
  | @startNested k call step id todo calls pass b hcall hpc hpass hid =>
    have hfresh : w.runner.creation.fresh ≤ r.creation.fresh := by
      rw [hc']
      exact Nat.le_succ _
    have hne : w.runner.creation.fresh ≠ k := Nat.ne_of_gt (hw.builds.bound k call hcall)
    have hnew : r.creation.builds.lookup w.runner.creation.fresh =
        some { pass := call.pass, build := b } := by
      rw [hc', Map.lookup_insert_eq, if_neg hne]
      exact AList.lookup_insert _
    exact h.start hpass hid (hw.builds.passBound _ pass hpass) rfl (advance_started hnew) rfl
      hfresh (congrArg Creation.passes hc') rfl fun id' hid' _ => hid'
  | moveBuild ha hcall hmove =>
    refine h.of_calls hw ?_ (by rw [hc']; exact .refl)
      (by rw [hc']; exact hinsert hcall fun _ _ => id)
      (by rw [hc'])
    rcases ha with rfl | rfl <;> simp
  | startToplevel hcall hpc hstart =>
    exact h.of_calls hw (by simp) (by rw [hc']; exact .refl)
      (by rw [hc']; exact hinsert hcall fun _ _ => id) (by rw [hc']; exact Nat.le_succ _)
  | takeToplevel hcall hpc hchild hmove =>
    exact h.of_calls hw (by simp) (by rw [hc']; exact .refl)
      (by rw [hc']; exact hinsert hcall fun _ _ => id) (by rw [hc'])
  | takeNested hcall hpc hchild hresult =>
    refine h.of_calls hw (by simp) (by rw [hc']; exact .refl) ?_ (by rw [hc'])
    rw [hc']
    refine hinsert hcall fun k q hq => ?_
    rw [Map.lookup_erase_eq] at hq
    split_ifs at hq
    exact hq
  | startInput hcall hpc hstart =>
    exact h.of_calls hw (by simp) (by rw [hc']; exact .refl)
      (by rw [hc']; exact fun _ q hq => ⟨q, hq⟩) (by rw [hc']; exact Nat.le_succ _)
  | moveStep hcall hmove hpasses hbuilds =>
    refine h.of_calls hw (by simp) (by rw [hc']; exact hpasses) ?_ (by rw [hc'])
    intro k q hq
    rw [hc'] at hq
    obtain ⟨q₀, hq₀, -⟩ := hbuilds.lookup hq
    exact ⟨q₀, hq₀⟩
  | takeInput hcall hpc hchild hne =>
    exact h.of_calls hw (by simp) (by rw [hc']; exact .refl)
      (by rw [hc']; exact fun _ q hq => ⟨q, hq⟩) (by rw [hc'])
  | dropInputs r' hcall hpc hchild hne =>
    exact h.of_calls hw (by simp) (by rw [hc']; exact .refl)
      (by rw [hc']; exact fun _ q hq => ⟨q, hq⟩) (by rw [hc'])

/-! ## Every run -/

/-- A run of the loader is a run of the runner. -/
theorem reach_runner {ok : Loader → Action → Prop} (h : Lts.Reach (next cfg) ok {} w) :
    Lts.Reach (Runner.next cfg) Lts.anyStep {} w.runner := by
  induction h with
  | refl => exact .refl
  | step a _ _ hnext ih =>
    obtain ⟨r, hr, rfl⟩ := Option.map_eq_some_iff.mp hnext
    exact .step a ih trivial hr

/-- Every step of the runner. -/
theorem Logged.step (h : w.Logged) (hw : Awaiting w.runner.creation) {a : Action} {r : Runner}
    (hs : RunnerStep cfg w.runner a r) : (w.advance a r).Logged := by
  rcases hs.pool_cases with ⟨hne, hc⟩ | ⟨ca, ans, rfl, hpool⟩
  · have hnewIds : (w.advance a r).newIds = w.newIds := by
      cases a with
      | create ca ans => exact absurd rfl (hne ca ans)
      | _ => rfl
    refine h.of_frame hnewIds (advance_created ?_) (List.subset_append_right _ _)
      (Nat.le_of_eq (congrArg Creation.fresh hc).symm) (fun k p hp => ?_) fun k p hp hnone => ?_
    · rw [hc]
      cases hcall : w.runner.creation.builds.lookup w.runner.creation.fresh with
      | none => rfl
      | some call => exact absurd (hw.builds.bound _ _ hcall) (Nat.lt_irrefl _)
    · change r.creation.passes.lookup k = some p at hp
      rw [hc] at hp
      exact ⟨p, hp, rfl, fun _ id hid _ => hid⟩
    · change r.creation.passes.lookup k = none at hnone
      rw [hc, hp] at hnone
      cases hnone
  · exact h.poolStep hw hpool

theorem Logged.reach (h : Lts.Reach (next cfg) Lts.anyStep {} w) : w.Logged := by
  refine h.invariant_of_reach (I := Logged) .init ?_
  intro w a w' hreach hw _ hnext
  obtain ⟨r, hr, rfl⟩ := Option.map_eq_some_iff.mp hnext
  exact hw.step (Awaiting.reach (reach_runner hreach)) (runnerStep_of_next hr)

/-- A step of the runner does not increase the measure of a pass, and a
step of the pass decreases it. -/
theorem measure_step {cost : StorePath → Nat} {k : CallId} {a : Action}
    (hcost : ∀ p, cost p = 5 + inputsCost cost (cfg.drvOf p).inputDrvs)
    (hw : Awaiting w.runner.creation) (hk : k < w.runner.creation.fresh)
    (hnext : next cfg w a = some w') :
    w'.runner.creation.measure cfg cost k ≤ w.runner.creation.measure cfg cost k ∧
      (w.worksFor a = some k →
        w'.runner.creation.measure cfg cost k < w.runner.creation.measure cfg cost k) := by
  obtain ⟨r, hr, rfl⟩ := Option.map_eq_some_iff.mp hnext
  rcases (runnerStep_of_next hr).pool_cases with ⟨hne, hc⟩ | ⟨ca, ans, rfl, hpool⟩
  · have hsame : (w.advance a r).runner.creation = w.runner.creation := hc
    refine ⟨le_of_eq (by rw [hsame]), fun ha => ?_⟩
    cases a with
    | create ca ans => exact absurd rfl (hne ca ans)
    | _ => cases ha
  · have hd := hpool.declines hcost hw hk
    exact ⟨Creation.measure_le hd, Creation.measure_lt hd⟩

/-- The numbers of the calls grow. -/
theorem fresh_le {a : Action} (hnext : next cfg w a = some w') :
    w.runner.creation.fresh ≤ w'.runner.creation.fresh := by
  obtain ⟨r, hr, rfl⟩ := Option.map_eq_some_iff.mp hnext
  show w.runner.creation.fresh ≤ r.creation.fresh
  rcases (runnerStep_of_next hr).pool_cases with ⟨-, hc⟩ | ⟨ca, ans, -, hpool⟩
  · rw [hc]
  · generalize r.creation = c' at hpool
    cases hpool <;> first | exact le_refl _ | exact Nat.le_succ _

/-- A pass goes on finitely often in every run. -/
theorem finite_worksFor (hacyclic : cfg.Acyclic) (h : Lts.Reach (next cfg) Lts.anyStep {} w)
    {k : CallId} (hk : k < w.runner.creation.fresh) {ws : ℕ → Loader} {as : ℕ → Action}
    (hzero : ws 0 = w) (hsteps : ∀ n, next cfg (ws n) (as n) = some (ws (n + 1))) :
    {n | (ws n).worksFor (as n) = some k}.Finite := by
  obtain ⟨cost, hcost⟩ := hacyclic.exists_cost
  have hrun : ∀ n, Lts.Reach (next cfg) Lts.anyStep {} (ws n) ∧
      k < (ws n).runner.creation.fresh := by
    intro n
    induction n with
    | zero => exact hzero ▸ ⟨h, hk⟩
    | succ n ih =>
      exact ⟨.step (as n) ih.1 trivial (hsteps n), lt_of_lt_of_le ih.2 (fresh_le (hsteps n))⟩
  have hmeasure := fun n => measure_step hcost (Awaiting.reach (reach_runner (hrun n).1))
    (hrun n).2 (hsteps n)
  exact Lts.finite_of_decreases (μ := fun n => (ws n).runner.creation.measure cfg cost k)
    (fun n => (hmeasure n).1) fun n hn => (hmeasure n).2 hn

theorem passesEnd_reach (hacyclic : cfg.Acyclic) (h : Lts.Reach (next cfg) Lts.anyStep {} w) :
    w.PassesEnd cfg := by
  intro k hk
  obtain ⟨pass, hpass⟩ := Option.ne_none_iff_exists'.mp hk
  have hw := Awaiting.reach (reach_runner h)
  have hfresh := hw.builds.passBound k pass hpass
  exact ⟨CreateState.pass_progresses (c := w.runner.createState) hw hpass,
    fun _ _ hzero hsteps => finite_worksFor hacyclic h hfresh hzero hsteps⟩

end Loader

/-- Every pass over the queue that does not exit early calls `create_build`
once for each of its ids, and every pass ends. -/
theorem loadedOnce_runs {cfg : Config} (hacyclic : cfg.Acyclic) {w : Loader}
    (h : Lts.Reach (Loader.next cfg) Lts.anyStep {} w) : w.LoadedOnce ∧ w.PassesEnd cfg :=
  ⟨(Loader.Logged.reach h).ended, Loader.passesEnd_reach hacyclic h⟩

/-! ## Two builds of one path

Both builds are of `top`.  The first call of `create_build` creates the
steps and calls `create_build` for the other build, so the pass finds
nothing left for it. -/

namespace Chain

theorem acyclic : config.Acyclic := by
  have hinput : Acc (fun q p : StorePath => q ∈ (config.drvOf p).inputDrvs) input :=
    ⟨_, fun q hq => by simp [config, input, top] at hq⟩
  refine ⟨fun p => ⟨p, fun q hq => ?_⟩⟩
  have hq' : q = input := by
    simp only [config] at hq
    split_ifs at hq
    · simpa using hq
    · cases hq
  exact hq' ▸ hinput

/-- The first build is created, and the second one with it. -/
def loadedTwice : List Action :=
  [.create (.startPass [(1, top), (2, top)]) {},
    .create (.resumePass 0) {},
    .create (.resumeBuild 1) {},
    .create (.resumeStep 2) {},
    .create (.resumeStep 2) { store := fun _ => false },
    .create (.resumeStep 2) {},
    .create (.startInput 2) {},
    .create (.resumeStep 3) {},
    .create (.resumeStep 3) {},
    .create (.resumeStep 3) {},
    .create (.resumeStep 2) {},
    .create (.resumeStep 2) {},
    .create (.resumeBuild 1) { ids := [2, 1] },
    .create (.startNested 1) {},
    .create (.startNested 1) {},
    .create (.resumeBuild 4) {},
    .create (.resumeBuild 4) {},
    .create (.resumeBuild 4) {},
    .create (.resumeBuild 1) {},
    .create (.resumeBuild 1) {},
    .create (.resumePass 0) {},
    .create (.resumePass 0) {},
    .create (.resumePass 0) { steps := [⟨input, 3⟩, ⟨top, 2⟩] }]

end Chain

theorem loadedOnce_runs_chain :
    ∃ w, Lts.Reach (Loader.next Chain.config) Lts.anyStep {} w ∧ w.newIds 0 = [1, 2] ∧
      w.created = [(0, 2), (0, 1)] ∧ w.LoadedOnce ∧ w.PassesEnd Chain.config := by
  have hrun : (Lts.run (Loader.next Chain.config) {} Chain.loadedTwice).map
      (fun w => (w.newIds 0, w.created)) = some ([1, 2], [(0, 2), (0, 1)]) := by
    decide +kernel
  obtain ⟨w, hw, hvalues⟩ := Option.map_eq_some_iff.mp hrun
  obtain ⟨hids, hcreated⟩ := Prod.mk.inj hvalues
  have hreach := Lts.reach_of_run hw
  exact ⟨w, hreach, hids, hcreated, loadedOnce_runs Chain.acyclic hreach⟩

end QueueRunner
