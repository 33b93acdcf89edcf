import QueueRunner.CreateEffects
import QueueRunner.Runner

/-!
# Cached success

`create_step` asks the stores for the outputs of a derivation and tries to
substitute those that are missing.  When none is left it sets the step
`finished` and returns `CreateStepResult::None`, and `create_build` takes
that for a build whose outputs are all there.

The search is cut into awaits, and other tasks run between them.  The call
itself only sees the answers that it gets, so its part of a run is a list
of answers: `Resumes` follows one call from await to await, with any state
of the runner at each of them.

An output without a known path is dropped by both queries, so it does not
count as missing.  `cachedSuccess_iff` says that this is the only gap.
-/

namespace QueueRunner

/-- The call `k` of `create_step` is resumed with the answers of the list,
one after the other.  Between two of them the rest of the state changes in
any way. -/
inductive Resumes (cfg : Config) (k : CallId) : StepCall → List Answer → StepCall → Prop where
  | done (call : StepCall) : Resumes cfg k call [] call
  | resume {c c' : CreateState} {call call' last : StepCall} {ans : Answer}
      {answers : List Answer} (hcall : c.creation.steps.lookup k = some call)
      (hresume : c.resumeStep cfg k ans = some c')
      (hcall' : c'.creation.steps.lookup k = some call')
      (hrest : Resumes cfg k call' answers last) :
      Resumes cfg k call (ans :: answers) last

/-- The output is known to be present: its path is known, and it is in the
local store, in the first remote store, or was substituted.  `stores` is the
answer of the stores and `rest` are the answers after it. -/
def OutputPresent (stores : Answer) (rest : List Answer) (o : DerivationOutput) : Prop :=
  ∃ path, o.path = some path ∧
    (stores.store path = true ∨ (∃ remote, stores.remote = some remote ∧ remote path = true) ∨
      ∃ cached substitutes, rest = [cached, substitutes] ∧ substitutes.substituted o = true)

/-- Whatever the stores and the substituters answer: when `create_step` ends
its search by `CreateStepResult::None`, every output is present. -/
def CachedSuccess (drv : Derivation) : Prop :=
  ∀ (cfg : Config) (k : CallId) (call last : StepCall) (step : StepRef) (stores : Answer)
    (rest : List Answer), call.pc = .queryOutputs step drv →
    Resumes cfg k call (stores :: rest) last → last.pc = .returned .none →
    ∀ o ∈ drv.outputs, OutputPresent stores rest o

/-! ## The missing outputs -/

/-- An output with a known path that is not missing has been found. -/
theorem present_of_not_mem_missing {stores : Answer} {rest : List Answer}
    {outputs : List DerivationOutput} {o : DerivationOutput} {path : StorePath}
    (ho : o ∈ outputs) (hpath : o.path = some path)
    (hmissing : o ∉ missingOutputs stores outputs) : OutputPresent stores rest o := by
  refine ⟨path, hpath, ?_⟩
  unfold missingOutputs at hmissing
  cases hremote : stores.remote with
  | none =>
    rw [hremote] at hmissing
    left
    simpa [queryMissingOutputs, ho, hpath] using hmissing
  | some remote =>
    simp only [hremote] at hmissing
    split_ifs at hmissing with hlocal
    · left
      have := List.filter_eq_nil_iff.mp hlocal o ho
      simpa [hpath] using this
    · right
      left
      refine ⟨remote, rfl, ?_⟩
      simpa [queryMissingOutputs, ho, hpath] using hmissing

/-- Stores that have every path miss no output, with or without a path. -/
theorem missingOutputs_default (outputs : List DerivationOutput) :
    missingOutputs {} outputs = [] := by
  apply List.filter_eq_nil_iff.mpr
  intro o _
  cases o.path <;> simp

/-! ## One await -/

namespace CreateState

variable {cfg : Config} {c c' : CreateState} {k : CallId} {call call' : StepCall}
  {step : StepRef} {drv : Derivation} {missing : List DerivationOutput} {ans : Answer}

theorem lookup_setStepCall (c : CreateState) (k : CallId) (call : StepCall) :
    (c.setStepCall k call).creation.steps.lookup k = some call :=
  AList.lookup_insert _

/-- What the search has come to once the outputs are decided. -/
theorem decideStep_pc {finished : Bool}
    (hcall' : (c.decideStep k call step drv finished).creation.steps.lookup k = some call') :
    call'.pc = if finished then .returned .none else .inputs step drv.inputDrvs [] := by
  cases finished with
  | true =>
    simp only [decideStep, if_true, returnStep, lookup_setStepCall, Option.some.injEq] at hcall'
    subst hcall'
    rfl
  | false =>
    simp only [decideStep, Bool.false_eq_true, if_false, lookup_setStepCall,
      Option.some.injEq] at hcall'
    subst hcall'
    rfl

theorem queryOutputs_pc (hcall : c.creation.steps.lookup k = some call)
    (hpc : call.pc = .queryOutputs step drv) (hresume : c.resumeStep cfg k ans = some c')
    (hcall' : c'.creation.steps.lookup k = some call') :
    call'.pc = .checkCached step drv (missingOutputs ans drv.outputs) := by
  simp only [resumeStep, hcall, hpc, Option.some.injEq] at hresume
  subst hresume
  rw [lookup_setStepCall] at hcall'
  cases hcall'
  rfl

theorem checkCached_pc (hcall : c.creation.steps.lookup k = some call)
    (hpc : call.pc = .checkCached step drv missing)
    (hresume : c.resumeStep cfg k ans = some c')
    (hcall' : c'.creation.steps.lookup k = some call') :
    call'.pc = .returned (.previousFailure step) ∨ call'.pc = .substitute step drv missing ∨
      call'.pc = if missing = [] then .returned .none else .inputs step drv.inputDrvs [] := by
  simp only [resumeStep, hcall, hpc] at hresume
  split_ifs at hresume with hcached hsubstitute
  · cases hresume
    rw [returnStep, lookup_setStepCall] at hcall'
    cases hcall'
    exact Or.inl rfl
  · cases hresume
    rw [lookup_setStepCall] at hcall'
    cases hcall'
    exact Or.inr (Or.inl rfl)
  · cases hresume
    right
    right
    simpa using decideStep_pc hcall'

theorem substitute_pc (hcall : c.creation.steps.lookup k = some call)
    (hpc : call.pc = .substitute step drv missing)
    (hresume : c.resumeStep cfg k ans = some c')
    (hcall' : c'.creation.steps.lookup k = some call') :
    call'.pc = if missing.all ans.substituted then .returned .none
      else .inputs step drv.inputDrvs [] := by
  simp only [resumeStep, hcall, hpc, Option.some.injEq] at hresume
  subst hresume
  exact decideStep_pc hcall'

end CreateState

/-- The search is over and has not found all outputs. -/
def StepPc.building : StepPc → Bool
  | .inputs _ _ _ | .returned (.valid _) | .returned (.previousFailure _) => true
  | _ => false

namespace CreateState

variable {cfg : Config} {c c' : CreateState} {k : CallId} {call call' : StepCall} {ans : Answer}

/-- A call that waits for its inputs does not come back to the outputs. -/
theorem building_pc (hcall : c.creation.steps.lookup k = some call)
    (hpc : call.pc.building = true) (hresume : c.resumeStep cfg k ans = some c')
    (hcall' : c'.creation.steps.lookup k = some call') : call'.pc.building = true := by
  cases createStep_of_resumeStep hresume with
  | moveBuild hkind => rcases hkind with hkind | hkind <;> cases hkind
  | readDrv h hpc' | unreadable h hpc' | setDrv h hpc' | cachedFailure h hpc'
  | substitute h hpc' =>
    -- the call would still be at the search
    rw [h, Option.some.injEq] at hcall
    subst hcall
    rw [hpc'] at hpc
    cases hpc
  | decide finished h hpc' =>
    rw [h, Option.some.injEq] at hcall
    subst hcall
    rcases hpc' with ⟨hpc', _⟩ | ⟨hpc', _⟩ <;> rw [hpc'] at hpc <;> cases hpc
  | takeInput r h hpc' =>
    cases r with
    | none | valid dep =>
      simp only [takeInput, lookup_setStepCall, Option.some.injEq] at hcall'
      subst hcall'
      rfl
    | previousFailure failed =>
      simp only [takeInput, returnStep, lookup_setStepCall, Option.some.injEq] at hcall'
      subst hcall'
      rfl
  | finish h hpc' =>
    simp only [finishStep, returnStep, lookup_setStepCall, Option.some.injEq] at hcall'
    subst hcall'
    rfl

end CreateState

/-! ## The whole search -/

namespace Resumes

variable {cfg : Config} {k : CallId} {call last : StepCall} {answers : List Answer}

/-- The first answer of a list. -/
theorem head {ans : Answer} (h : Resumes cfg k call (ans :: answers) last) :
    ∃ c c' call', c.creation.steps.lookup k = some call ∧
      CreateState.resumeStep cfg c k ans = some c' ∧
      c'.creation.steps.lookup k = some call' ∧ Resumes cfg k call' answers last := by
  cases h with
  | resume hcall hresume hcall' hrest => exact ⟨_, _, _, hcall, hresume, hcall', hrest⟩

/-- A call that waits for its inputs never returns `CreateStepResult::None`. -/
theorem building (h : Resumes cfg k call answers last) (hpc : call.pc.building = true) :
    last.pc.building = true := by
  induction h with
  | done => exact hpc
  | resume hcall hresume hcall' _ ih =>
    exact ih (CreateState.building_pc hcall hpc hresume hcall')

/-- A call that has returned is not resumed. -/
theorem of_returned {r : CreateStepResult} (h : Resumes cfg k call answers last)
    (hpc : call.pc = .returned r) : answers = [] := by
  cases h with
  | done => rfl
  | resume hcall hresume _ _ => simp [CreateState.resumeStep, hcall, hpc] at hresume

/-- The search found every output, or what it missed was substituted. -/
theorem found {step : StepRef} {drv : Derivation} {stores : Answer}
    (hpc : call.pc = .queryOutputs step drv) (h : Resumes cfg k call (stores :: answers) last)
    (hlast : last.pc = .returned .none) :
    missingOutputs stores drv.outputs = [] ∨ ∃ cached substitutes,
      answers = [cached, substitutes] ∧
        (missingOutputs stores drv.outputs).all substitutes.substituted = true := by
  have hnot : last.pc.building = false := by rw [hlast]; rfl
  obtain ⟨_, _, call₁, hcall, hresume, hcall₁, h⟩ := h.head
  have hpc₁ := CreateState.queryOutputs_pc hcall hpc hresume hcall₁
  cases h with
  | done => rw [hpc₁] at hlast; cases hlast
  | resume hcall hresume hcall₂ h =>
    rcases CreateState.checkCached_pc hcall hpc₁ hresume hcall₂ with hpc₂ | hpc₂ | hpc₂
    · rw [h.building (by rw [hpc₂]; rfl)] at hnot
      cases hnot
    · cases h with
      | done => rw [hpc₂] at hlast; cases hlast
      | resume hcall hresume hcall₃ h =>
        have hpc₃ := CreateState.substitute_pc hcall hpc₂ hresume hcall₃
        split_ifs at hpc₃ with hall
        · right
          cases h.of_returned hpc₃
          exact ⟨_, _, rfl, hall⟩
        · rw [h.building (by rw [hpc₃]; rfl)] at hnot
          cases hnot
    · split_ifs at hpc₂ with hnone
      · exact Or.inl hnone
      · rw [h.building (by rw [hpc₂]; rfl)] at hnot
        cases hnot

end Resumes

/-- A cached success of a derivation with known paths has all outputs. -/
theorem cachedSuccess_of_outputsKnown {drv : Derivation} (hknown : outputsKnown drv = true) :
    CachedSuccess drv := by
  intro cfg k call last step stores rest hpc hrun hlast o ho
  obtain ⟨path, hpath⟩ := Option.isSome_iff_exists.mp (List.all_eq_true.mp hknown o ho)
  by_cases hmissing : o ∈ missingOutputs stores drv.outputs
  · rcases hrun.found hpc hlast with hnone | ⟨cached, substitutes, rfl, hall⟩
    · rw [hnone] at hmissing
      cases hmissing
    · exact ⟨path, hpath, Or.inr (Or.inr ⟨cached, substitutes, rfl,
        List.all_eq_true.mp hall o hmissing⟩)⟩
  · exact present_of_not_mem_missing ho hpath hmissing

/-- A call of `create_step` that waits for the stores. -/
def searching (drv : Derivation) : StepCall :=
  ⟨0, 0, [], ⟨""⟩, none, none, .queryOutputs ⟨⟨""⟩, 0⟩ drv⟩

/-- A state with that one call. -/
def searchState (call : StepCall) : CreateState :=
  ({ graph := {}, present := [], creation := {} } : CreateState).setStepCall 0 call

/-- Stores that have everything end the search, whatever the outputs. -/
theorem searching_resumes (cfg : Config) (drv : Derivation) :
    Resumes cfg 0 (searching drv) [{}, {}] { searching drv with pc := .returned .none } := by
  have hstores : (searchState (searching drv)).resumeStep cfg 0 {} = some
      (({ searchState (searching drv) with
          graph := ({} : Graph).setDrv ⟨⟨""⟩, 0⟩ drv } : CreateState).setStepCall 0
        { searching drv with pc := .checkCached ⟨⟨""⟩, 0⟩ drv [] }) := by
    rw [← missingOutputs_default drv.outputs]
    rfl
  have hdone : ∃ c', (searchState { searching drv with
      pc := .checkCached ⟨⟨""⟩, 0⟩ drv [] }).resumeStep cfg 0 {} = some c' ∧
      c'.creation.steps.lookup 0 = some { searching drv with pc := .returned .none } :=
    ⟨_, rfl, CreateState.lookup_setStepCall _ _ _⟩
  obtain ⟨c', hresume, hcall'⟩ := hdone
  exact .resume rfl hstores (CreateState.lookup_setStepCall _ _ _)
    (.resume rfl hresume hcall' (.done _))

/-- A cached success has all outputs exactly for the derivations whose
output paths are known. -/
theorem cachedSuccess_iff (drv : Derivation) :
    CachedSuccess drv ↔ outputsKnown drv = true := by
  refine ⟨fun h => ?_, cachedSuccess_of_outputsKnown⟩
  apply List.all_eq_true.mpr
  intro o ho
  obtain ⟨path, hpath, _⟩ := h Sample.config 0 (searching drv) _ _ {} [{}] rfl
    (searching_resumes Sample.config drv) rfl o ho
  simp [hpath]

namespace Sample

/-- A derivation whose only output gets its path when it is built. -/
def floating : Derivation := ⟨"x86_64-linux", [], [⟨"out", none⟩], []⟩

/-- The creation of a build of that derivation, with stores that have
nothing. -/
def floatingCreated : List Action :=
  [.create (.startPass [(1, drv)]) {},
    .create (.resumePass 0) {},
    .create (.resumeBuild 1) {},
    .create (.resumeStep 2) {},
    .create (.resumeStep 2) { store := fun _ => false },
    .create (.resumeStep 2) {},
    .create (.resumeBuild 1) {},
    .create (.resumeBuild 1) {},
    .create (.resumeBuild 1) {}]

end Sample

/-- The output of `floating` counts as present, and a build of it is a
cached success although no store has anything. -/
theorem cachedSuccess_fails :
    (¬ ∀ drv, CachedSuccess drv) ∧
      ∃ r, Lts.Reach (Runner.next { Sample.config with drvOf := fun _ => Sample.floating })
        Lts.anyStep {} r ∧ (r.shared.graph.build ⟨1, Sample.drv, 0⟩).finishedInDb = true := by
  constructor
  · intro h
    obtain ⟨path, hpath, _⟩ := h Sample.floating Sample.config 0 (searching Sample.floating) _ _
      {} [{}] rfl (searching_resumes Sample.config Sample.floating) rfl ⟨"out", none⟩
      (List.mem_singleton_self _)
    cases hpath
  · have hend : (Lts.run (Runner.next { Sample.config with drvOf := fun _ => Sample.floating }) {}
        Sample.floatingCreated).map
        (fun r => (r.shared.graph.build ⟨1, Sample.drv, 0⟩).finishedInDb) = some true := by
      decide +kernel
    obtain ⟨r, hr, he⟩ := Option.map_eq_some_iff.mp hend
    exact ⟨r, Lts.reach_of_run hr, he⟩

end QueueRunner
