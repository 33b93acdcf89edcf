import QueueRunner.CallPool
import QueueRunner.Sweep

/-!
# Reading the queue again

`get_queued_builds` reads every unfinished build from the database, those
that are loaded included.  It makes a new `Build` for each row, which
`create_build` attaches to the step that `Steps` has for it, and which
takes the place of the old one in `Builds`.

A pass over rows that are all loaded leaves the edges of the graph, the
marks of the steps, the queues and the ids in `Builds` alone, but for the
steps that its last sweep releases.  The lists of attached builds grow with
every pass.  The builds that a pass has replaced are freed, and the weak
pointers to them stay: `make_rdeps_runnable` prunes `rdeps`, and nothing
prunes `builds`.
-/

namespace QueueRunner

namespace Runner

/-- Every row of the database is loaded: its build is in `Builds`, and its
step in `Steps`.  The ids of the rows are a primary key. -/
structure QueueLoaded (r : Runner) (rows : List (BuildID × StorePath)) : Prop where
  ids : (rows.map Prod.fst).Nodup
  build : ∀ row ∈ rows, ∃ b, r.shared.graph.builds.lookup row.1 = some b ∧ b.drvPath = row.2
  step : ∀ row ∈ rows, ∃ s, r.shared.graph.findStep row.2 = some s

/-- A step of the pass `k`.  The store has the derivations that it had when
the builds were loaded. -/
def InPass (k : CallId) (r : Runner) : Action → Prop
  | .create a ans => r.creation.worksFor a = some k ∧ ans.ok = true
  | _ => False

instance (k : CallId) (r : Runner) (a : Action) : Decidable (r.InPass k a) :=
  match a with
  | .create a ans =>
    inferInstanceAs (Decidable (r.creation.worksFor a = some k ∧ ans.ok = true))
  | .dispatch _ | .call _ _ | .completeBuild _ _ _ _ | .endStream _ | .queueChange _
  | .insertMachine _ _ _ | .dropStep _ | .dropBuild _ => .isFalse id

/-- `get_queued_builds` runs once more and by itself, from its rows to its
end. -/
def Reread (cfg : Config) (rows : List (BuildID × StorePath)) (r r' : Runner) : Prop :=
  ∃ r₁, r.next cfg (.create (.startPass rows) {}) = some r₁ ∧
    Lts.Reach (next cfg) (InPass r.creation.fresh) r₁ r' ∧
    r'.creation.passes.lookup r.creation.fresh = none

/-- The edges, the runnable steps, the queues and the builds in `Builds` are
as they were. -/
structure SameQueue (r r' : Runner) : Prop where
  deps : ∀ s, (r'.shared.graph.step s).deps = (r.shared.graph.step s).deps
  rdeps : ∀ s, (r'.shared.graph.step s).rdeps = (r.shared.graph.step s).rdeps
  depsLen : ∀ s, (r'.shared.graph.step s).depsLen = (r.shared.graph.step s).depsLen
  rdepsLen : ∀ s, (r'.shared.graph.step s).rdepsLen = (r.shared.graph.step s).rdepsLen
  runnable : ∀ s, (r'.shared.graph.step s).runnable = (r.shared.graph.step s).runnable
  queues : r'.shared.queues = r.shared.queues
  builds : ∀ id, (r'.shared.graph.builds.lookup id).map BuildRef.drvPath =
    (r.shared.graph.builds.lookup id).map BuildRef.drvPath

/-- The list of attached builds has not grown beyond the builds that are
alive: what was attached since is. -/
def AttachedAlive (r r' : Runner) : Prop :=
  ∀ s, ∀ b ∈ (r'.shared.graph.step s).builds,
    b ∈ (r.shared.graph.step s).builds ∨ r'.buildHeld b = true

end Runner

/-! ## The pass of a call -/

/-- The calls work for passes that have started. -/
structure Creation.PassesStarted (c : Creation) : Prop where
  builds : c.builds.All (fun call => call.pass < c.fresh)
  steps : c.steps.All (fun call => call.pass < c.fresh)

namespace Creation.PassesStarted

variable {cfg : Config} {ans : Answer} {c c' : Creation} {a : CreateAction}

/-- Every step of a call. -/
theorem step (h : c.PassesStarted) (hw : Awaiting c) (hs : PoolStep cfg ans c a c') :
    c'.PassesStarted := by
  -- The calls that are there stay below a bound that grows.
  have hbuilds : c.builds.All (fun call => call.pass < c.fresh + 1) :=
    h.builds.mono fun _ hlt => Nat.lt_succ_of_lt hlt
  have hsteps : c.steps.All (fun call => call.pass < c.fresh + 1) :=
    h.steps.mono fun _ hlt => Nat.lt_succ_of_lt hlt
  cases hs with
  | startPass rows pass htodo hwaiting hbuild hbyId => exact ⟨hbuilds, hsteps⟩
  | skipBuild hpass htodo hwaiting hid => exact ⟨h.builds, h.steps⟩
  | @nextBuild k pass id todo b hpass htodo hwaiting hid =>
    exact ⟨hbuilds.insert _ (Nat.lt_succ_of_lt (hw.builds.passBound k pass hpass)), hsteps⟩
  | endBuild todo hpass hwaiting hcall hpc htodo => exact ⟨h.builds.erase _, h.steps⟩
  | endPass hpass hwaiting htodo => exact ⟨h.builds, h.steps⟩
  | @startNested k call step id todo calls pass b hcall hpc hpass hid =>
    refine ⟨(hbuilds.insert _ ?_).insert _ ?_, hsteps⟩
    · exact hbuilds k call hcall
    · exact hbuilds k call hcall
  | @moveBuild a k call pc ha hcall hmove =>
    exact ⟨h.builds.insert _ (h.builds k call hcall), h.steps⟩
  | @startToplevel k call pc hcall hpc hstart =>
    have hlt := hbuilds k call hcall
    exact ⟨hbuilds.insert _ hlt, hsteps.insert _ hlt⟩
  | @takeToplevel k k' call child pc hcall hpc hchild hmove =>
    exact ⟨h.builds.insert _ (h.builds k call hcall), h.steps.erase _⟩
  | @takeNested k k' call child step todo calls hcall hpc hchild hresult =>
    exact ⟨(h.builds.erase _).insert _ (h.builds k call hcall), h.steps⟩
  | @startInput k call step drvPath todo calls pc hcall hpc hstart =>
    refine ⟨hbuilds, (hsteps.insert _ ?_).insert _ ?_⟩
    · exact hsteps k call hcall
    · exact hsteps k call hcall
  | @moveStep k call pc passes builds hcall hmove hpasses hplace =>
    refine ⟨hplace.all h.builds fun v v' hv hlt => ?_, h.steps.insert _ (h.steps k call hcall)⟩
    exact hv.1 ▸ hlt
  | @takeInput k k' call child step drvPath todo calls hcall hpc hchild hne =>
    exact ⟨h.builds, (h.steps.erase _).insert _ (h.steps k call hcall)⟩
  | @dropInputs k k' call child step drvPath todo calls r hcall hpc hchild hne =>
    exact ⟨h.builds, ((h.steps.erase _).retain _).insert _ (h.steps k call hcall)⟩

theorem reach {ok : Runner → Action → Prop} {r : Runner}
    (h : Lts.Reach (Runner.next cfg) ok {} r) : r.creation.PassesStarted := by
  refine h.invariant_of_reach (I := fun r => r.creation.PassesStarted)
    ⟨by simp [Map.All], by simp [Map.All]⟩ ?_
  intro r a r' hreach hr _ hnext
  rcases (runnerStep_of_next hnext).pool_cases with ⟨-, heq⟩ | ⟨ca, ans, -, hpool⟩
  · exact heq ▸ hr
  · exact hr.step (Awaiting.reach hreach) hpool

end Creation.PassesStarted

/-! ## What a second pass leaves alone -/

/-- The fields of a step that a second pass leaves alone. -/
structure Step.SameLinks (r r' : Step) : Prop where
  deps : r'.deps = r.deps
  rdeps : r'.rdeps = r.rdeps
  depsLen : r'.depsLen = r.depsLen
  rdepsLen : r'.rdepsLen = r.rdepsLen
  runnable : r'.runnable = r.runnable
  created : r'.created = r.created
  finished : r'.finished = r.finished
  previousFailure : r'.previousFailure = r.previousFailure
  alive : r'.alive = r.alive

/-- The same for all steps, and both maps have the same keys. -/
structure Graph.SameLinks (g g' : Graph) : Prop where
  step : ∀ s, Step.SameLinks (g.step s) (g'.step s)
  steps : ∀ p, g'.steps.lookup p = g.steps.lookup p
  builds : ∀ id, (g'.builds.lookup id).map BuildRef.drvPath =
    (g.builds.lookup id).map BuildRef.drvPath

namespace Graph.SameLinks

variable {g g' g'' : Graph}

theorem of_eq (hstep : g'.step = g.step) (hsteps : g'.steps = g.steps)
    (hbuilds : g'.builds = g.builds) : g.SameLinks g' where
  step s := by
    rw [hstep]
    exact ⟨rfl, rfl, rfl, rfl, rfl, rfl, rfl, rfl, rfl⟩
  steps _ := by rw [hsteps]
  builds _ := by rw [hbuilds]

theorem refl (g : Graph) : g.SameLinks g := of_eq rfl rfl rfl

theorem trans (h : g.SameLinks g') (h' : g'.SameLinks g'') : g.SameLinks g'' where
  step s :=
    { deps := (h'.step s).deps.trans (h.step s).deps
      rdeps := (h'.step s).rdeps.trans (h.step s).rdeps
      depsLen := (h'.step s).depsLen.trans (h.step s).depsLen
      rdepsLen := (h'.step s).rdepsLen.trans (h.step s).rdepsLen
      runnable := (h'.step s).runnable.trans (h.step s).runnable
      created := (h'.step s).created.trans (h.step s).created
      finished := (h'.step s).finished.trans (h.step s).finished
      previousFailure := (h'.step s).previousFailure.trans (h.step s).previousFailure
      alive := (h'.step s).alive.trans (h.step s).alive }
  steps p := (h'.steps p).trans (h.steps p)
  builds id := (h'.builds id).trans (h.builds id)

theorem symm (h : g.SameLinks g') : g'.SameLinks g where
  step s :=
    { deps := (h.step s).deps.symm
      rdeps := (h.step s).rdeps.symm
      depsLen := (h.step s).depsLen.symm
      rdepsLen := (h.step s).rdepsLen.symm
      runnable := (h.step s).runnable.symm
      created := (h.step s).created.symm
      finished := (h.step s).finished.symm
      previousFailure := (h.step s).previousFailure.symm
      alive := (h.step s).alive.symm }
  steps p := (h.steps p).symm
  builds id := (h.builds id).symm

theorem findStep (h : g.SameLinks g') (p : StorePath) : g'.findStep p = g.findStep p := by
  unfold Graph.findStep
  rw [h.steps p]
  cases g.steps.lookup p with
  | none => rfl
  | some s => simp only [(h.step s).alive]

theorem swept (h : g.SameLinks g') (hswept : g.Swept) : g'.Swept := by
  intro s hs halive hfinished hfailure t ht
  obtain ⟨p, hp⟩ := Map.mem_values_iff.mp hs
  rw [(h.step s).alive] at halive
  rw [(h.step s).finished] at hfinished
  rw [(h.step s).previousFailure] at hfailure
  rw [(h.step s).rdeps] at ht
  rw [(h.step t).alive, (h.step t).deps, (h.step t).created, (h.step t).runnable]
  exact hswept s (Map.mem_values_iff.mpr ⟨p, (h.steps p).symm.trans hp⟩) halive hfinished
    hfailure t ht

theorem counted (h : g.SameLinks g') (hcounted : g.Counted) : g'.Counted where
  deps s := by
    rw [(h.step s).depsLen, (h.step s).deps]
    exact hcounted.deps s
  rdeps s := by
    rw [(h.step s).rdepsLen, (h.step s).rdeps]
    exact hcounted.rdeps s

/-- A build is attached to the step that `Steps` has. -/
theorem of_created {drvPath : StorePath} {build : Option BuildRef} {s : StepRef}
    (h : Created g drvPath build none g' s false) : g.SameLinks g' where
  step t := by
    rw [h.step, if_neg Bool.false_ne_true]
    split_ifs with hts
    · subst hts
      simp only [referred, Option.toList, List.append_nil]
      exact ⟨rfl, rfl, rfl, rfl, rfl, rfl, rfl, rfl, rfl⟩
    · exact ⟨rfl, rfl, rfl, rfl, rfl, rfl, rfl, rfl, rfl⟩
  steps p := by
    rw [h.steps, Map.lookup_insert_eq]
    split_ifs with hp
    · rw [hp, (findStep_eq_some.mp (h.found rfl)).1]
    · rfl
  builds _ := by rw [h.builds]

/-- A build takes the place of another one of its path. -/
theorem insertNewBuild {b : BuildRef}
    (hb : (g.builds.lookup b.id).map BuildRef.drvPath = some b.drvPath) :
    g.SameLinks (g.insertNewBuild b) where
  step _ := ⟨rfl, rfl, rfl, rfl, rfl, rfl, rfl, rfl, rfl⟩
  steps _ := rfl
  builds id := by
    rw [Graph.insertNewBuild, Map.lookup_insert_eq]
    split_ifs with hid
    · rw [hid, hb]
      rfl
    · rfl

end Graph.SameLinks

/-- The rows are loaded in a graph. -/
def Graph.Loaded (g : Graph) (rows : List (BuildID × StorePath)) : Prop :=
  ∀ row ∈ rows, (g.builds.lookup row.1).map BuildRef.drvPath = some row.2 ∧
    ∃ s, g.findStep row.2 = some s

theorem Graph.SameLinks.loaded {g g' : Graph} (h : g.SameLinks g')
    {rows : List (BuildID × StorePath)} (hrows : g.Loaded rows) : g'.Loaded rows := by
  intro row hrow
  rw [h.builds, h.findStep]
  exact hrows row hrow

/-- The pass `k` over rows that were loaded in the graph `g`: its calls are
for these rows, and none of them makes a step. -/
structure Rereading (g : Graph) (rows : List (BuildID × StorePath)) (k : CallId)
    (c : CreateState) : Prop where
  graph : g.SameLinks c.graph
  attached : rows = [] → ∀ s, (c.graph.step s).builds = (g.step s).builds
  pass : ∀ p, c.creation.passes.lookup k = some p →
    p.newRunnable = [] ∧ p.byId.All (fun b => (b.id, b.drvPath) ∈ rows)
  builds : c.creation.builds.All
    (fun call => call.pass = k → (call.build.id, call.build.drvPath) ∈ rows)
  steps : c.creation.steps.All (fun call => call.pass = k → ∃ res, call.pc = .returned res)

namespace Rereading

variable {cfg : Config} {g : Graph} {rows : List (BuildID × StorePath)} {k : CallId}
  {c c' : CreateState} {ans : Answer} {a : CreateAction}

/-- A call of `create_build` goes on over a graph with the same links. -/
theorem setBuildCall (h : Rereading g rows k c) {z : CallId} {call : BuildCall}
    (hcall : c.creation.builds.lookup z = some call) (pc : BuildPc) :
    Rereading g rows k (c.setBuildCall z { call with pc := pc }) :=
  { h with builds := h.builds.insert z (h.builds z call hcall) }

/-- The pass goes on. -/
theorem setPass (h : Rereading g rows k c) {p p' : Pass}
    (hp : c.creation.passes.lookup k = some p) (hbyId : p'.byId = p.byId)
    (hrunnable : p'.newRunnable = []) : Rereading g rows k (c.setPass k p') := by
  refine { h with pass := fun q hq => ?_ }
  rw [CreateState.setPass_passes, AList.lookup_insert, Option.some.injEq] at hq
  subst hq
  exact ⟨hrunnable, hbyId ▸ (h.pass p hp).2⟩

/-- A build of the pass gets its call. -/
theorem startBuild (h : Rereading g rows k c) (p' : Pass) {p : Pass} {id : BuildID}
    {b : BuildRef} (hp : c.creation.passes.lookup k = some p) (hb : p.byId.lookup id = some b)
    (hbyId : p'.byId = p.byId.erase id) (hrunnable : p'.newRunnable = []) (z : CallId) :
    Rereading g rows k ((c.setPass k p').setBuildCall z { pass := k, build := b }) := by
  refine { h with pass := fun q hq => ?_, builds := ?_ }
  · rw [CreateState.setBuildCall_passes, CreateState.setPass_passes, AList.lookup_insert,
      Option.some.injEq] at hq
    subst hq
    exact ⟨hrunnable, hbyId ▸ (h.pass p hp).2.erase id⟩
  · exact h.builds.insert z fun _ => (h.pass p hp).2 id b hb

/-- The graph changes where the pass may change it. -/
theorem setGraph (h : Rereading g rows k c) (g' : Graph) (hlinks : c.graph.SameLinks g')
    (hattached : rows = [] → ∀ s, (g'.step s).builds = (c.graph.step s).builds) :
    Rereading g rows k { c with graph := g' } :=
  { h with
    graph := h.graph.trans hlinks
    attached := fun hnil s => (hattached hnil s).trans (h.attached hnil s) }

/-- The step of a build is in `Steps`, so its call returns at once. -/
theorem startToplevel (h : Rereading g rows k c) (hrows : g.Loaded rows) {z : CallId}
    {call : BuildCall} (hcall : c.creation.builds.lookup z = some call) (hpass : call.pass = k) :
    Rereading g rows k
      (c.startStep call.pass z [] call.build.drvPath (some call.build) none).1 := by
  have hrow := h.builds z call hcall hpass
  obtain ⟨pc, hstart⟩ := c.started_startStep call.pass z [] call.build.drvPath
    (some call.build) none
  generalize (c.startStep call.pass z [] call.build.drvPath (some call.build) none).1 = c'
    at hstart
  obtain ⟨s, hs⟩ := (hrows _ hrow).2
  rw [← h.graph.findStep] at hs
  have hcalls : ∀ res, pc = .returned res → c'.creation.steps.All
      (fun call => call.pass = k → ∃ res, call.pc = .returned res) := fun res hpc => by
    rw [hstart.steps]
    exact h.steps.insert _ fun _ => ⟨res, hpc⟩
  have hbuilds := hstart.builds ▸ h.builds
  have hp := hstart.passes ▸ h.pass
  rcases hstart.result with ⟨hpc, hg, -⟩ | ⟨s', isNew, hcreated, hpc⟩
  · exact ⟨hg ▸ h.graph, hg ▸ h.attached, hp, hbuilds, hcalls .none hpc⟩
  · cases isNew with
    | true => exact absurd ((hcreated.notFound rfl).1.symm.trans hs) nofun
    | false =>
      refine ⟨h.graph.trans (.of_created hcreated), fun hnil => ?_, hp, hbuilds,
        hcalls (.valid s') hpc⟩
      rw [hnil] at hrow
      cases hrow

/-- Every step of the pass.  Its last one, the sweep, has nothing to do. -/
theorem step (h : Rereading g rows k c) (hrows : g.Loaded rows) (hswept : g.Swept)
    (hcounted : g.Counted) (hs : CreateStep cfg c ans a c')
    (hk : c.creation.worksFor a = some k) : Rereading g rows k c' := by
  have hpass : ∀ {z : CallId} {call : BuildCall}, c.creation.builds.lookup z = some call →
      (a = .startNested z ∨ a = .resumeBuild z) → call.pass = k := by
    rintro z call hcall (rfl | rfl) <;> simpa [Creation.worksFor, hcall] using hk
  -- A call of `create_step` of the pass has returned, so no step of it is left.
  have hreturned : ∀ {z : CallId} {call : StepCall}, c.creation.steps.lookup z = some call →
      (a = .startInput z ∨ a = .resumeStep z) → ∃ res, call.pc = .returned res := by
    rintro z call hcall (rfl | rfl) <;>
      exact h.steps z call hcall (by simpa [Creation.worksFor, hcall] using hk)
  cases hs with
  | startPass rows' => cases hk
  | skipBuild hp htodo hwaiting hid =>
    cases hk
    exact h.setPass hp rfl rfl
  | @nextBuild _ pass id todo b hp htodo hwaiting hid =>
    cases hk
    have hnext := h.startBuild
      { pass with
        todo := todo, newRunnable := [], byId := pass.byId.erase id
        waiting := some c.creation.fresh } hp hid rfl rfl c.creation.fresh
    exact ⟨hnext.graph, hnext.attached, hnext.pass, hnext.builds, hnext.steps⟩
  | @makeRunnable _ z pass call now todo hp hwaiting hcall hpc htodo =>
    cases hk
    have hnil := (h.pass pass hp).1
    have htaken : Rereading g rows k (c.takeBuildCall z) := { h with builds := h.builds.erase z }
    simp only [hnil, List.foldl_nil]
    exact htaken.setPass hp rfl rfl
  | sweep now order hp hwaiting htodo horder =>
    cases hk
    have hgraph : c.graph.sweepSteps now order = c.graph :=
      (h.graph.swept hswept).sweepSteps_eq (h.graph.counted hcounted) horder
    rw [hgraph]
    refine { h with pass := fun p hp => ?_ }
    rw [AList.lookup_erase] at hp
    cases hp
  | @startNested z call step id todo calls pass b hcall hpc hlength hp hid =>
    have hcallPass := hpass hcall (Or.inl rfl)
    rw [hcallPass] at hp
    have hnext := h.startBuild { pass with byId := pass.byId.erase id } hp hid rfl
      (h.pass pass hp).1 c.creation.fresh
    refine ⟨hnext.graph, hnext.attached, ?_, ?_, hnext.steps⟩
    · rw [hcallPass]
      exact hnext.pass
    · rw [hcallPass]
      exact hnext.builds.insert z fun _ => h.builds z call hcall hcallPass
  | moveBuild ha hcall hmove => exact h.setBuildCall hcall _
  | @finishInDb z call hcall hpc =>
    exact (h.setGraph (c.graph.setFinishedInDb call.build) (.of_eq rfl rfl rfl)
      fun _ _ => rfl).setBuildCall hcall _
  | @startToplevel z call hcall hpc hok =>
    have hstarted := h.startToplevel hrows hcall (hpass hcall (Or.inr rfl))
    refine hstarted.setBuildCall ?_ _
    obtain ⟨pc, hstart⟩ := c.started_startStep call.pass z [] call.build.drvPath
      (some call.build) none
    rw [hstart.builds]
    exact hcall
  | @takeToplevel z z' call child pc r hcall hpc hchild hresult hmove =>
    have htaken : Rereading g rows k (c.takeStepCall z') := { h with steps := h.steps.erase z' }
    exact htaken.setBuildCall hcall pc
  | @takeNested z z' call child step todo calls hcall hpc hchild hresult =>
    have htaken : Rereading g rows k (c.takeBuildCall z') := { h with builds := h.builds.erase z' }
    exact { htaken with
      builds := htaken.builds.insert z fun hpass => h.builds z call hcall hpass }
  | @attach z call step hcall hpc =>
    have hrow := h.builds z call hcall (hpass hcall (Or.inr rfl))
    have hold := (h.graph.loaded hrows _ hrow).1
    simp only [CreateState.finishBuild]
    split_ifs
    · exact (h.setGraph (c.graph.setToplevelStep call.build step) (.of_eq rfl rfl rfl)
        fun _ _ => rfl).setBuildCall hcall _
    · exact (h.setGraph ((c.graph.insertNewBuild call.build).setToplevelStep call.build step)
        ((Graph.SameLinks.insertNewBuild hold).trans (.of_eq rfl rfl rfl))
        fun _ _ => rfl).setBuildCall hcall _
  | startInput hcall hpc hlength =>
    obtain ⟨res, hres⟩ := hreturned hcall (Or.inl rfl)
    rw [hres] at hpc
    cases hpc
  | readDrv hcall hpc hok | unreadable hcall hpc hok | setDrv hcall hpc
  | cachedFailure hcall hpc hcached | substitute hcall hpc | takeInput r hcall hpc hchild hresult
  | finish hcall hpc =>
    obtain ⟨res, hres⟩ := hreturned hcall (Or.inr rfl)
    rw [hres] at hpc
    cases hpc
  | decide finished hcall hpc =>
    obtain ⟨res, hres⟩ := hreturned hcall (Or.inr rfl)
    rw [hres] at hpc
    rcases hpc with ⟨hpc, -⟩ | ⟨hpc, -⟩ <;> cases hpc

end Rereading

/-! ## The start of a pass -/

/-- What the rows of a pass become. -/
structure CreateState.LoadedRows (g : Graph) (rows : List (BuildID × StorePath))
    (acc : Graph × Pass) : Prop where
  step : acc.1.step = g.step
  steps : acc.1.steps = g.steps
  builds : acc.1.builds = g.builds
  fresh : acc.1.fresh = g.fresh + rows.length
  todo : acc.2.todo = rows.map Prod.fst
  waiting : acc.2.waiting = none
  newRunnable : acc.2.newRunnable = []
  finishedDrvs : acc.2.finishedDrvs = []
  /-- Each build is a new one. -/
  byId : ∀ id b, acc.2.byId.lookup id = some b → b.id = id ∧ (id, b.drvPath) ∈ rows ∧
    g.fresh ≤ b.gen ∧ b.gen < acc.1.fresh ∧ acc.1.build b = {}
  loaded : ∀ id ∈ rows.map Prod.fst, ∃ b, acc.2.byId.lookup id = some b

namespace CreateState.LoadedRows

variable {g : Graph} {rows : List (BuildID × StorePath)} {acc : Graph × Pass}

theorem loadBuild (h : LoadedRows g rows acc) (row : BuildID × StorePath) :
    LoadedRows g (rows ++ [row]) (CreateState.loadBuild acc row) where
  step := h.step
  steps := h.steps
  builds := h.builds
  fresh := by
    rw [List.length_append, List.length_singleton, ← Nat.add_assoc, ← h.fresh]
    rfl
  todo := by
    rw [List.map_append, List.map_singleton, ← h.todo]
    rfl
  waiting := h.waiting
  newRunnable := h.newRunnable
  finishedDrvs := h.finishedDrvs
  byId id b hb := by
    simp only [CreateState.loadBuild, Graph.newBuild, Map.lookup_insert_eq] at hb ⊢
    split_ifs at hb with hid
    · cases hb
      subst hid
      refine ⟨rfl, List.mem_append_right _ List.mem_cons_self, ?_, Nat.lt_succ_self _,
        Function.update_self ..⟩
      rw [h.fresh]
      exact Nat.le_add_right _ _
    · obtain ⟨hb, hrow, hge, hlt, hrec⟩ := h.byId id b hb
      refine ⟨hb, List.mem_append_left _ hrow, hge, Nat.lt_succ_of_lt hlt, ?_⟩
      rw [Function.update_of_ne, hrec]
      rintro rfl
      exact Nat.lt_irrefl _ hlt
  loaded id hid := by
    simp only [CreateState.loadBuild, Graph.newBuild, Map.lookup_insert_eq]
    split_ifs with he
    · exact ⟨_, rfl⟩
    · rw [List.map_append, List.mem_append, List.map_singleton, List.mem_singleton] at hid
      exact h.loaded id (hid.resolve_right he)

theorem foldl (todo : List (BuildID × StorePath)) :
    ∀ {rows : List (BuildID × StorePath)} {acc : Graph × Pass}, LoadedRows g rows acc →
      LoadedRows g (rows ++ todo) (todo.foldl CreateState.loadBuild acc) := by
  induction todo with
  | nil =>
    intro rows acc h
    rw [List.append_nil]
    exact h
  | cons row todo ih =>
    intro rows acc h
    rw [List.append_cons]
    exact ih (h.loadBuild row)

/-- All rows of a pass. -/
theorem of_startPass (c : CreateState) (rows : List (BuildID × StorePath)) :
    ∃ pass, LoadedRows c.graph rows ((c.startPass rows).graph, pass) ∧
      (c.startPass rows).creation = { c.creation with
        passes := c.creation.passes.insert c.creation.fresh pass
        fresh := c.creation.fresh + 1 } := by
  have h : LoadedRows c.graph [] (c.graph, ⟨∅, ∅, [], [], [], none⟩) := by
    constructor <;> simp
  exact ⟨_, h.foldl rows, rfl⟩

end CreateState.LoadedRows

/-- The pass has started. -/
theorem Rereading.startPass {c : CreateState} (h : c.creation.PassesStarted)
    (rows : List (BuildID × StorePath)) :
    Rereading c.graph rows c.creation.fresh (c.startPass rows) := by
  obtain ⟨pass, hload, hcreation⟩ := CreateState.LoadedRows.of_startPass c rows
  refine
    { graph := .of_eq hload.step hload.steps hload.builds
      attached := fun _ s => congrArg (fun f => (f s).builds) hload.step
      pass := fun p hp => ?_, builds := fun z call hz hk => ?_, steps := fun z call hz hk => ?_ }
  · rw [hcreation, AList.lookup_insert, Option.some.injEq] at hp
    subst hp
    refine ⟨hload.newRunnable, fun id b hb => ?_⟩
    obtain ⟨hid, hrow, -⟩ := hload.byId id b hb
    exact hid ▸ hrow
  · rw [hcreation] at hz
    exact absurd hk (Nat.ne_of_lt (h.builds z call hz))
  · rw [hcreation] at hz
    exact absurd hk (Nat.ne_of_lt (h.steps z call hz))

/-! ## One pass and many -/

namespace Runner

variable {cfg : Config} {rows : List (BuildID × StorePath)} {r r' : Runner}

/-- A step of one pass is a step of the creation. -/
theorem InPass.create {k : CallId} {a : Action} (ha : r.InPass k a)
    (hnext : r.next cfg a = some r') :
    ∃ b ans c, r.creation.worksFor b = some k ∧ r.createState.next cfg ans b = some c ∧
      r' = r.setCreateState c := by
  cases a with
  | create b ans =>
    simp only [next] at hnext
    cases hc : r.createState.next cfg ans b with
    | none => simp [hc] at hnext
    | some c =>
      rw [hc, Option.some.injEq] at hnext
      exact ⟨b, ans, c, ha.1, hc, hnext.symm⟩
  | _ => exact ha.elim

/-- A step of one pass changes what the creation works on, and nothing
else. -/
theorem InPass.of_reach {k : CallId} (h : Lts.Reach (next cfg) (InPass k) r r') :
    r' = r.setCreateState r'.createState := by
  refine h.invariant (I := fun r' => r' = r.setCreateState r'.createState) rfl ?_
  intro r₁ a r₂ hr ha hnext
  obtain ⟨b, ans, c, -, -, rfl⟩ := ha.create hnext
  rw [hr]
  rfl

/-- The invariant of a pass, along its steps. -/
theorem rereading_of_reach {g : Graph} {k : CallId} (hrows : g.Loaded rows) (hswept : g.Swept)
    (hcounted : g.Counted) (hr : Rereading g rows k r.createState)
    (h : Lts.Reach (next cfg) (InPass k) r r') : Rereading g rows k r'.createState := by
  refine h.invariant (I := fun r' => Rereading g rows k r'.createState) hr ?_
  intro r₁ a r₂ hr₁ ha hnext
  obtain ⟨b, ans, c, hworks, hc, rfl⟩ := ha.create hnext
  exact hr₁.step hrows hswept hcounted (CreateState.createStep_of_next hc) hworks

/-- The two ways to say that the rows are loaded. -/
theorem QueueLoaded.loaded (h : r.QueueLoaded rows) : r.shared.graph.Loaded rows := by
  intro row hrow
  obtain ⟨b, hb, hpath⟩ := h.build row hrow
  refine ⟨?_, h.step row hrow⟩
  rw [hb, Option.map_some, hpath]

theorem QueueLoaded.of_sameLinks (h : r.QueueLoaded rows)
    (hlinks : r.shared.graph.SameLinks r'.shared.graph) : r'.QueueLoaded rows where
  ids := h.ids
  build row hrow := by
    have hb := (hlinks.loaded h.loaded row hrow).1
    rwa [Option.map_eq_some_iff] at hb
  step row hrow := (hlinks.loaded h.loaded row hrow).2

end Runner

/-! ## A pass over loaded rows runs to its end -/

namespace CreateState

variable {cfg : Config} {c : CreateState} {k z : CallId} {p : Pass} {id : BuildID}
  {todo : List BuildID} {b : BuildRef} {s : StepRef}

/-- The pass turns to its next build. -/
theorem resumePass_next (hp : c.creation.passes.lookup k = some p) (hwaiting : p.waiting = none)
    (htodo : p.todo = id :: todo) (hb : p.byId.lookup id = some b) :
    c.resumePass k {} = some { c with creation := { c.creation with
      passes := c.creation.passes.insert k { p with
        todo := todo, newRunnable := [], byId := p.byId.erase id
        waiting := some c.creation.fresh }
      builds := c.creation.builds.insert c.creation.fresh { pass := k, build := b }
      fresh := c.creation.fresh + 1 } } := by
  simp only [resumePass, hp, hwaiting, htodo, startBuild, setPass, setBuildCall,
    AList.lookup_insert, hb, AList.insert_insert]

/-- `create_build` finds the step of its build in `Steps`. -/
theorem resumeBuild_found (hz : c.creation.builds.lookup z = some { pass := k, build := b })
    (hp : c.creation.passes.lookup k = some p) (hfinished : p.finishedDrvs = [])
    (hs : c.graph.findStep b.drvPath = some s) :
    c.resumeBuild z {} = some { c with
      graph := (c.graph.createStep b.drvPath (some b) none).1
      creation := { c.creation with
        builds := c.creation.builds.insert z { pass := k, build := b, pc := .step c.creation.fresh }
        steps := c.creation.steps.insert c.creation.fresh
          ⟨k, z, [], b.drvPath, some b, none, .returned (.valid s)⟩
        fresh := c.creation.fresh + 1 } } := by
  simp [resumeBuild, hz, startStep, hp, hfinished, Graph.createStep, hs, setStepCall, setBuildCall]

/-- `create_build` takes the step.  No step is new, and so no build is
nested. -/
theorem resumeBuild_take {z' pass build : CallId} {callers : List CallId} {drvPath : StorePath}
    {rb : Option BuildRef} {rs : Option StepRef}
    (hz : c.creation.builds.lookup z = some { pass := k, build := b, pc := .step z' })
    (hz' : c.creation.steps.lookup z' =
      some ⟨pass, build, callers, drvPath, rb, rs, .returned (.valid s)⟩) :
    c.resumeBuild z {} = some { c with creation := { c.creation with
      builds := c.creation.builds.insert z
        { pass := k, build := b, pc := .nested (some s) [] [] }
      steps := c.creation.steps.erase z' } } := by
  have hnested : (c.takeStepCall z').nestedBuilds
      { pass := k, build := b, pc := .step z' } = [] := by
    unfold nestedBuilds
    split <;> rfl
  simp only [resumeBuild, hz, hz', hnested, List.Perm.refl, if_true]
  rfl

/-- The build takes its place in `Builds`. -/
theorem resumeBuild_attach
    (hz : c.creation.builds.lookup z =
      some { pass := k, build := b, pc := .nested (some s) [] [] })
    (hb : (c.graph.build b).finishedInDb = false) :
    c.resumeBuild z {} = some { c with
      graph := (c.graph.insertNewBuild b).setToplevelStep b s
      creation := { c.creation with
        builds := c.creation.builds.insert z { pass := k, build := b, pc := .returned } } } := by
  simp [resumeBuild, hz, finishBuild, hb, setBuildCall]

/-- The pass takes the result. -/
theorem resumePass_take (hp : c.creation.passes.lookup k = some p) (hwaiting : p.waiting = some z)
    (hrunnable : p.newRunnable = [])
    (hz : c.creation.builds.lookup z = some { pass := k, build := b, pc := .returned }) :
    c.resumePass k {} = some { c with creation := { c.creation with
      passes := c.creation.passes.insert k { p with waiting := none }
      builds := c.creation.builds.erase z } } := by
  simp [resumePass, hp, hwaiting, hz, hrunnable, takeBuildCall, setPass]

end CreateState

namespace Runner

variable {cfg : Config} {rows : List (BuildID × StorePath)} {r r' : Runner}

theorem reach_resumePass (r : Runner) {c c' : CreateState} {k : CallId} {ans : Answer}
    (h : c.resumePass k ans = some c') (hok : ans.ok = true) :
    Lts.Reach (next cfg) (InPass k) (r.setCreateState c) (r.setCreateState c') := by
  refine .step (.create (.resumePass k) ans) .refl ⟨rfl, hok⟩ ?_
  have hc : (r.setCreateState c).createState.next cfg ans (.resumePass k) = some c' := h
  rw [next, hc]
  rfl

theorem reach_resumeBuild (r : Runner) {c c' : CreateState} {k z : CallId} {call : BuildCall}
    {ans : Answer} (hz : c.creation.builds.lookup z = some call) (hk : call.pass = k)
    (h : c.resumeBuild z ans = some c') (hok : ans.ok = true) :
    Lts.Reach (next cfg) (InPass k) (r.setCreateState c) (r.setCreateState c') := by
  have hworks : (r.setCreateState c).creation.worksFor (.resumeBuild z) = some k := by
    have hz' : (r.setCreateState c).creation.builds.lookup z = some call := hz
    rw [Creation.worksFor, hz', Option.map_some, hk]
  refine .step (.create (.resumeBuild z) ans) .refl ⟨hworks, hok⟩ ?_
  have hc : (r.setCreateState c).createState.next cfg ans (.resumeBuild z) = some c' := h
  rw [next, hc]
  rfl

/-- One row: the new build is attached to the step that `Steps` has, and
takes the place of the old one in `Builds`.  Its calls come and go. -/
theorem exists_reach_row (cfg : Config) (r : Runner) {c : CreateState} {k : CallId} {p : Pass}
    {id : BuildID} {todo : List BuildID} {b : BuildRef} {s : StepRef}
    (hp : c.creation.passes.lookup k = some p) (hwaiting : p.waiting = none)
    (htodo : p.todo = id :: todo) (hfinished : p.finishedDrvs = [])
    (hb : p.byId.lookup id = some b) (hbuild : (c.graph.build b).finishedInDb = false)
    (hs : c.graph.findStep b.drvPath = some s) :
    ∃ c', Lts.Reach (next cfg) (InPass k) (r.setCreateState c) (r.setCreateState c') ∧
      c'.graph = ((c.graph.createStep b.drvPath (some b) none).1.insertNewBuild b).setToplevelStep
        b s ∧
      c'.creation.passes = c.creation.passes.insert k { p with
        todo := todo, newRunnable := [], byId := p.byId.erase id } ∧
      (∀ z call, c'.creation.builds.lookup z = some call →
        c.creation.builds.lookup z = some call) ∧
      ∀ z call, c'.creation.steps.lookup z = some call → c.creation.steps.lookup z = some call := by
  have hbuild' : ((c.graph.createStep b.drvPath (some b) none).1.build b).finishedInDb = false := by
    rw [(c.graph.created_createStep b.drvPath (some b) none).build]
    exact hbuild
  -- The five steps of the row, each with the parts of the state that the next ones read.
  obtain ⟨c₁, h₁, hg₁, hP₁, hB₁, hS₁⟩ : ∃ c₁, c.resumePass k {} = some c₁ ∧ c₁.graph = c.graph ∧
      c₁.creation.passes = c.creation.passes.insert k { p with
        todo := todo, newRunnable := [], byId := p.byId.erase id
        waiting := some c.creation.fresh } ∧
      c₁.creation.builds = c.creation.builds.insert c.creation.fresh { pass := k, build := b } ∧
      c₁.creation.steps = c.creation.steps :=
    ⟨_, CreateState.resumePass_next hp hwaiting htodo hb, rfl, rfl, rfl, rfl⟩
  have hp₁ : c₁.creation.passes.lookup k = some { p with
      todo := todo, newRunnable := [], byId := p.byId.erase id
      waiting := some c.creation.fresh } := by rw [hP₁, AList.lookup_insert]
  have hz₁ : c₁.creation.builds.lookup c.creation.fresh = some { pass := k, build := b } := by
    rw [hB₁, AList.lookup_insert]
  obtain ⟨c₂, h₂, hg₂, hP₂, hB₂, hS₂⟩ : ∃ c₂, c₁.resumeBuild c.creation.fresh {} = some c₂ ∧
      c₂.graph = (c₁.graph.createStep b.drvPath (some b) none).1 ∧
      c₂.creation.passes = c₁.creation.passes ∧
      c₂.creation.builds = c₁.creation.builds.insert c.creation.fresh
        { pass := k, build := b, pc := .step c₁.creation.fresh } ∧
      c₂.creation.steps = c₁.creation.steps.insert c₁.creation.fresh
        ⟨k, c.creation.fresh, [], b.drvPath, some b, none, .returned (.valid s)⟩ :=
    ⟨_, CreateState.resumeBuild_found hz₁ hp₁ hfinished (by rw [hg₁]; exact hs), rfl, rfl, rfl, rfl⟩
  have hz₂ : c₂.creation.builds.lookup c.creation.fresh =
      some { pass := k, build := b, pc := .step c₁.creation.fresh } := by
    rw [hB₂, AList.lookup_insert]
  obtain ⟨c₃, h₃, hg₃, hP₃, hB₃, hS₃⟩ : ∃ c₃, c₂.resumeBuild c.creation.fresh {} = some c₃ ∧
      c₃.graph = c₂.graph ∧ c₃.creation.passes = c₂.creation.passes ∧
      c₃.creation.builds = c₂.creation.builds.insert c.creation.fresh
        { pass := k, build := b, pc := .nested (some s) [] [] } ∧
      c₃.creation.steps = c₂.creation.steps.erase c₁.creation.fresh :=
    ⟨_, CreateState.resumeBuild_take hz₂ (by rw [hS₂, AList.lookup_insert]), rfl, rfl, rfl, rfl⟩
  have hz₃ : c₃.creation.builds.lookup c.creation.fresh =
      some { pass := k, build := b, pc := .nested (some s) [] [] } := by
    rw [hB₃, AList.lookup_insert]
  obtain ⟨c₄, h₄, hg₄, hP₄, hB₄, hS₄⟩ : ∃ c₄, c₃.resumeBuild c.creation.fresh {} = some c₄ ∧
      c₄.graph = (c₃.graph.insertNewBuild b).setToplevelStep b s ∧
      c₄.creation.passes = c₃.creation.passes ∧
      c₄.creation.builds = c₃.creation.builds.insert c.creation.fresh
        { pass := k, build := b, pc := .returned } ∧
      c₄.creation.steps = c₃.creation.steps :=
    ⟨_, CreateState.resumeBuild_attach hz₃ (by rw [hg₃, hg₂, hg₁]; exact hbuild'), rfl, rfl, rfl,
      rfl⟩
  have hz₄ : c₄.creation.builds.lookup c.creation.fresh =
      some { pass := k, build := b, pc := .returned } := by
    rw [hB₄, AList.lookup_insert]
  have hp₄ : c₄.creation.passes.lookup k = some { p with
      todo := todo, newRunnable := [], byId := p.byId.erase id
      waiting := some c.creation.fresh } := by rw [hP₄, hP₃, hP₂, hp₁]
  obtain ⟨c₅, h₅, hg₅, hP₅, hB₅, hS₅⟩ : ∃ c₅, c₄.resumePass k {} = some c₅ ∧
      c₅.graph = c₄.graph ∧
      c₅.creation.passes = c₄.creation.passes.insert k { p with
        todo := todo, newRunnable := [], byId := p.byId.erase id, waiting := none } ∧
      c₅.creation.builds = c₄.creation.builds.erase c.creation.fresh ∧
      c₅.creation.steps = c₄.creation.steps :=
    ⟨_, CreateState.resumePass_take hp₄ rfl rfl hz₄, rfl, rfl, rfl, rfl⟩
  refine ⟨c₅, ?_, ?_, ?_, ?_, ?_⟩
  · exact ((((reach_resumePass r h₁ rfl).trans (reach_resumeBuild r hz₁ rfl h₂ rfl)).trans
      (reach_resumeBuild r hz₂ rfl h₃ rfl)).trans (reach_resumeBuild r hz₃ rfl h₄ rfl)).trans
      (reach_resumePass r h₅ rfl)
  · rw [hg₅, hg₄, hg₃, hg₂, hg₁]
  · rw [hP₅, hP₄, hP₃, hP₂, hP₁, AList.insert_insert, hwaiting]
  · intro z call hz
    rw [hB₅, Map.lookup_erase_eq, hB₄, Map.lookup_insert_eq, hB₃, Map.lookup_insert_eq, hB₂,
      Map.lookup_insert_eq, hB₁, Map.lookup_insert_eq] at hz
    split_ifs at hz
    exact hz
  · intro z call hz
    rw [hS₅, hS₄, hS₃, Map.lookup_erase_eq, hS₂, Map.lookup_insert_eq, hS₁] at hz
    split_ifs at hz
    exact hz

end Runner

/-- New builds, numbered from `lo` to `hi`, are attached and take the place
of those that `Builds` had for the rows. -/
structure Graph.Replaces (lo hi : Nat) (rows : List (BuildID × StorePath)) (g g' : Graph) :
    Prop where
  links : g.SameLinks g'
  attached : ∀ s, (g.step s).builds ⊆ (g'.step s).builds
  old : ∀ id, id ∉ rows.map Prod.fst → g'.builds.lookup id = g.builds.lookup id
  new : ∀ row ∈ rows, ∃ b s, g'.builds.lookup row.1 = some b ∧ lo ≤ b.gen ∧ b.gen < hi ∧
    g'.findStep row.2 = some s ∧ b ∈ (g'.step s).builds
  finishedInDb : ∀ b, (g'.build b).finishedInDb = (g.build b).finishedInDb
  fresh : g'.fresh = g.fresh

namespace Graph.Replaces

variable {lo hi : Nat} {g g' g'' : Graph} {rows : List (BuildID × StorePath)}

theorem refl (g : Graph) : g.Replaces lo hi [] g :=
  ⟨.refl g, fun _ => List.Subset.refl _, fun _ _ => rfl, nofun, fun _ => rfl, rfl⟩

/-- One row. -/
theorem of_row {b : BuildRef} {s : StepRef} (hs : g.findStep b.drvPath = some s)
    (hold : (g.builds.lookup b.id).map BuildRef.drvPath = some b.drvPath) (hlo : lo ≤ b.gen)
    (hhi : b.gen < hi) :
    g.Replaces lo hi [(b.id, b.drvPath)]
      (((g.createStep b.drvPath (some b) none).1.insertNewBuild b).setToplevelStep b s) := by
  have hcreated : Created g b.drvPath (some b) none (g.createStep b.drvPath (some b) none).1 s
      false := by
    have h := g.created_createStep b.drvPath (some b) none
    have hres : (g.createStep b.drvPath (some b) none).2 = (s, false) := by
      simp only [createStep, hs]
    rwa [hres] at h
  have hlinks : g.SameLinks
      (((g.createStep b.drvPath (some b) none).1.insertNewBuild b).setToplevelStep b s) := by
    refine ((SameLinks.of_created hcreated).trans (.insertNewBuild ?_)).trans (.of_eq rfl rfl rfl)
    rw [hcreated.builds]
    exact hold
  have hself : b ∈ ((g.createStep b.drvPath (some b) none).1.step s).builds := by
    rw [hcreated.step, if_pos rfl]
    exact List.mem_append_right _ List.mem_cons_self
  refine ⟨hlinks, fun t b' hb' => ?_, fun id hid => ?_, fun row hrow => ?_, fun b' => ?_,
    hcreated.fresh⟩
  · have hstep : b' ∈ ((g.createStep b.drvPath (some b) none).1.step t).builds := by
      rw [hcreated.step]
      split_ifs with hts hnew
      · cases hnew
      · exact List.mem_append_left _ (hts ▸ hb')
      · exact hb'
    exact hstep
  · have hne : id ≠ b.id := fun he => hid (he ▸ List.mem_cons_self)
    have hlookup : ((g.createStep b.drvPath (some b) none).1.insertNewBuild b).builds.lookup id =
        (g.createStep b.drvPath (some b) none).1.builds.lookup id := AList.lookup_insert_ne hne
    rw [hcreated.builds] at hlookup
    exact hlookup
  · obtain rfl := List.mem_singleton.mp hrow
    refine ⟨b, s, AList.lookup_insert _, hlo, hhi, ?_, hself⟩
    rw [hlinks.findStep]
    exact hs
  · have hbuild : ((g.createStep b.drvPath (some b) none).1.build b').finishedInDb =
        (g.build b').finishedInDb := by rw [hcreated.build]
    simp only [setToplevelStep, modifyBuild, insertNewBuild]
    by_cases hb : b' = b
    · subst hb
      rw [Function.update_self]
      exact hbuild
    · rw [Function.update_of_ne hb]
      exact hbuild

/-- The other rows follow. -/
theorem cons {row : BuildID × StorePath} (h : g.Replaces lo hi [row] g')
    (hrow : row.1 ∉ rows.map Prod.fst) (h' : g'.Replaces lo hi rows g'') :
    g.Replaces lo hi (row :: rows) g'' where
  links := h.links.trans h'.links
  attached s := List.Subset.trans (h.attached s) (h'.attached s)
  old id hid := by
    rw [List.map_cons, List.mem_cons, not_or] at hid
    rw [h'.old id hid.2, h.old id (by simpa using hid.1)]
  new row' hrow' := by
    rcases List.mem_cons.mp hrow' with rfl | hmem
    · obtain ⟨b, s, hb, hlo, hhi, hs, hattached⟩ := h.new row' List.mem_cons_self
      refine ⟨b, s, (h'.old _ hrow).trans hb, hlo, hhi, ?_, h'.attached s hattached⟩
      rw [h'.links.findStep]
      exact hs
    · exact h'.new row' hmem
  finishedInDb b := (h'.finishedInDb b).trans (h.finishedInDb b)
  fresh := h'.fresh.trans h.fresh

end Graph.Replaces

/-- No call is left over, but for the pass `k`. -/
structure Creation.Within (k : CallId) (c c' : Creation) : Prop where
  passes : ∀ z p, z ≠ k → c'.passes.lookup z = some p → c.passes.lookup z = some p
  builds : ∀ z call, c'.builds.lookup z = some call → c.builds.lookup z = some call
  steps : ∀ z call, c'.steps.lookup z = some call → c.steps.lookup z = some call

theorem Creation.Within.trans {k : CallId} {c c' c'' : Creation} (h : c.Within k c')
    (h' : c'.Within k c'') : c.Within k c'' where
  passes z p hz hp := h.passes z p hz (h'.passes z p hz hp)
  builds z call hz := h.builds z call (h'.builds z call hz)
  steps z call hz := h.steps z call (h'.steps z call hz)

/-- The builds that the calls hold, without the pass `k`. -/
theorem Creation.Within.mem_builds' {k : CallId} {c c' : Creation}
    (h : c.Within k c') (hk : c'.passes.lookup k = none) {b : BuildRef} (hb : b ∈ c'.builds') :
    b ∈ c.builds' := by
  simp only [Creation.builds', List.mem_append, List.mem_flatMap, List.mem_map,
    Map.mem_values_iff] at hb ⊢
  rcases hb with (⟨call, ⟨z, hz⟩, hb⟩ | ⟨call, ⟨z, hz⟩, hb⟩) | ⟨p, ⟨z, hz⟩, hb⟩
  · exact Or.inl (Or.inl ⟨call, ⟨z, h.steps z call hz⟩, hb⟩)
  · exact Or.inl (Or.inr ⟨call, ⟨z, h.builds z call hz⟩, hb⟩)
  · have hne : z ≠ k := by
      rintro rfl
      rw [hk] at hz
      cases hz
    exact Or.inr ⟨p, ⟨z, h.passes z p hne hz⟩, hb⟩

namespace Runner

variable {cfg : Config} {rows : List (BuildID × StorePath)} {r r' : Runner}

/-- All rows of the pass. -/
theorem exists_reach_rows (cfg : Config) (r : Runner) {k : CallId} {lo hi : Nat} :
    ∀ {rows : List (BuildID × StorePath)} {c : CreateState} {p : Pass},
      c.creation.passes.lookup k = some p → p.waiting = none → p.todo = rows.map Prod.fst →
      p.finishedDrvs = [] → (rows.map Prod.fst).Nodup → c.graph.Loaded rows →
      (∀ row ∈ rows, ∃ b, p.byId.lookup row.1 = some b ∧ (b.id, b.drvPath) = row ∧ lo ≤ b.gen ∧
        b.gen < hi ∧ (c.graph.build b).finishedInDb = false) →
      ∃ c' p', Lts.Reach (next cfg) (InPass k) (r.setCreateState c) (r.setCreateState c') ∧
        c'.creation.passes.lookup k = some p' ∧ p'.waiting = none ∧ p'.todo = [] ∧
        c.creation.Within k c'.creation ∧ c.graph.Replaces lo hi rows c'.graph := by
  intro rows
  induction rows with
  | nil =>
    intro c p hp hwaiting htodo hfinished hnodup hloaded hbyId
    exact ⟨c, p, .refl, hp, hwaiting, htodo, ⟨fun _ _ _ h => h, fun _ _ h => h, fun _ _ h => h⟩,
      .refl _⟩
  | cons row rows ih =>
    intro c p hp hwaiting htodo hfinished hnodup hloaded hbyId
    obtain ⟨b, hb, rfl, hlo, hhi, hbuild⟩ := hbyId row List.mem_cons_self
    obtain ⟨hold, s, hs⟩ := hloaded _ List.mem_cons_self
    rw [List.map_cons, List.nodup_cons] at hnodup
    obtain ⟨c₁, hreach₁, hg₁, hP₁, hB₁, hS₁⟩ := exists_reach_row cfg r hp hwaiting htodo
      hfinished hb hbuild hs
    have hrow : c.graph.Replaces lo hi [(b.id, b.drvPath)] c₁.graph := by
      rw [hg₁]
      exact .of_row hs hold hlo hhi
    have hwithin : c.creation.Within k c₁.creation := by
      refine ⟨fun z q hz hq => ?_, hB₁, hS₁⟩
      rwa [hP₁, AList.lookup_insert_ne hz] at hq
    have hp₁ : c₁.creation.passes.lookup k = some { p with
        todo := rows.map Prod.fst, newRunnable := [], byId := p.byId.erase b.id } := by
      rw [hP₁, AList.lookup_insert]
    have hbyId₁ : ∀ row ∈ rows, ∃ b', (p.byId.erase b.id).lookup row.1 = some b' ∧
        (b'.id, b'.drvPath) = row ∧ lo ≤ b'.gen ∧ b'.gen < hi ∧
        (c₁.graph.build b').finishedInDb = false := by
      intro row hmem
      obtain ⟨b', hb', hrow', hlo', hhi', hbuild'⟩ := hbyId row (List.mem_cons_of_mem _ hmem)
      have hne : row.1 ≠ b.id := by
        intro he
        have hfst : row.1 ∈ rows.map Prod.fst := List.mem_map_of_mem hmem
        exact hnodup.1 (he ▸ hfst)
      refine ⟨b', ?_, hrow', hlo', hhi', (hrow.finishedInDb b').trans hbuild'⟩
      rw [AList.lookup_erase_ne hne]
      exact hb'
    obtain ⟨c', p', hreach', hp', hwaiting', htodo', hwithin', hreplaces⟩ := ih hp₁ hwaiting rfl
      hfinished hnodup.2
      (hrow.links.loaded fun row hmem => hloaded row (List.mem_cons_of_mem _ hmem)) hbyId₁
    exact ⟨c', p', hreach₁.trans hreach', hp', hwaiting', htodo', hwithin.trans hwithin',
      hrow.cons hnodup.1 hreplaces⟩

/-- What passes over loaded rows keep of the rest of the runner. -/
structure Spared (rows : List (BuildID × StorePath)) (r r' : Runner) : Prop where
  dispatcher : r'.dispatcher = r.dispatcher
  calls : r'.calls = r.calls
  creation : ∀ b ∈ r'.creation.builds', b ∈ r.creation.builds'
  findStep : ∀ p, r'.shared.graph.findStep p = r.shared.graph.findStep p
  builds : ∀ id, (r'.shared.graph.builds.lookup id).map BuildRef.drvPath =
    (r.shared.graph.builds.lookup id).map BuildRef.drvPath
  old : ∀ id, id ∉ rows.map Prod.fst →
    r'.shared.graph.builds.lookup id = r.shared.graph.builds.lookup id
  attached : ∀ s, (r.shared.graph.step s).builds ⊆ (r'.shared.graph.step s).builds

/-- What a pass over loaded rows has done at its end. -/
structure Replaced (rows : List (BuildID × StorePath)) (r r' : Runner) : Prop
    extends Spared rows r r' where
  fresh : r'.shared.graph.fresh = r.shared.graph.fresh + rows.length
  new : ∀ row ∈ rows, ∃ b s, r'.shared.graph.builds.lookup row.1 = some b ∧
    r.shared.graph.fresh ≤ b.gen ∧ b.gen < r'.shared.graph.fresh ∧
    r'.shared.graph.findStep row.2 = some s ∧ b ∈ (r'.shared.graph.step s).builds
  /-- The sweep, after everything else. -/
  sweep : ∃ g now order, r.shared.graph.SameLinks g ∧ order.Perm g.steps.values ∧
    r'.shared.graph = g.sweepSteps now order

theorem Spared.refl (r : Runner) : Spared rows r r :=
  ⟨rfl, rfl, fun _ h => h, fun _ => rfl, fun _ => rfl, fun _ _ => rfl, fun _ _ h => h⟩

theorem Spared.trans {r'' : Runner} (h : Spared rows r r') (h' : Spared rows r' r'') :
    Spared rows r r'' where
  dispatcher := h'.dispatcher.trans h.dispatcher
  calls := h'.calls.trans h.calls
  creation b hb := h.creation b (h'.creation b hb)
  findStep p := (h'.findStep p).trans (h.findStep p)
  builds id := (h'.builds id).trans (h.builds id)
  old id hid := (h'.old id hid).trans (h.old id hid)
  attached s := List.Subset.trans (h.attached s) (h'.attached s)

/-- The rows are still loaded. -/
theorem Spared.queueLoaded (h : Spared rows r r') (hq : r.QueueLoaded rows) :
    r'.QueueLoaded rows where
  ids := hq.ids
  build row hrow := by
    have hb := h.builds row.1
    rw [(hq.loaded row hrow).1, Option.map_eq_some_iff] at hb
    exact hb
  step row hrow := by
    rw [h.findStep]
    exact hq.step row hrow

/-- A pass over rows that are loaded can run to its end. -/
theorem exists_reread (cfg : Config) (h : r.QueueLoaded rows) :
    ∃ r', Reread cfg rows r r' ∧ Replaced rows r r' := by
  obtain ⟨p, hload, hcreation⟩ := CreateState.LoadedRows.of_startPass r.createState rows
  have hlinks : r.shared.graph.SameLinks (r.createState.startPass rows).graph :=
    .of_eq hload.step hload.steps hload.builds
  have hp : (r.createState.startPass rows).creation.passes.lookup r.creation.fresh = some p := by
    rw [hcreation]
    exact AList.lookup_insert _
  have hbyId : ∀ row ∈ rows, ∃ b, p.byId.lookup row.1 = some b ∧ (b.id, b.drvPath) = row ∧
      r.shared.graph.fresh ≤ b.gen ∧ b.gen < r.shared.graph.fresh + rows.length ∧
      ((r.createState.startPass rows).graph.build b).finishedInDb = false := by
    intro row hrow
    obtain ⟨b, hb⟩ := hload.loaded row.1 (List.mem_map_of_mem hrow)
    obtain ⟨hid, hmem, hlo, hhi, hrec⟩ := hload.byId row.1 b hb
    refine ⟨b, hb, ?_, hlo, hload.fresh ▸ hhi, by rw [hrec]⟩
    -- The ids are distinct, so the row of the build is this one.
    have hrow' : (row.1, b.drvPath) = row :=
      List.inj_on_of_nodup_map h.ids hmem hrow rfl
    rw [hid, hrow']
  obtain ⟨c, p', hreach, hp', hwaiting, htodo, hwithin, hreplaces⟩ := exists_reach_rows cfg r hp
    hload.waiting hload.todo hload.finishedDrvs h.ids (hlinks.loaded h.loaded) hbyId
  have hsweep : c.resumePass r.creation.fresh { steps := c.graph.steps.values } = some { c with
      graph := c.graph.sweepSteps 0 c.graph.steps.values
      creation := { c.creation with passes := c.creation.passes.erase r.creation.fresh } } := by
    simp [CreateState.resumePass, hp', hwaiting, htodo]
  have hmaps := Graph.SameMaps.sweepSteps c.graph 0 c.graph.steps.values
  have hbase := Graph.sameBase_sweepSteps c.graph 0 c.graph.steps.values
  have hfind : ∀ q, (c.graph.sweepSteps 0 c.graph.steps.values).findStep q =
      c.graph.findStep q := by
    intro q
    unfold Graph.findStep
    rw [hmaps.steps]
    cases c.graph.steps.lookup q with
    | none => rfl
    | some s => simp only [(hbase s).alive]
  have hgone : (c.creation.passes.erase r.creation.fresh).lookup r.creation.fresh = none :=
    AList.lookup_erase _ _
  refine ⟨_, ⟨_, rfl, hreach.trans (reach_resumePass r hsweep rfl), hgone⟩, ?_⟩
  refine
    { dispatcher := rfl, calls := rfl, creation := fun b hb => ?_
      findStep := fun q => ?_, builds := fun id => ?_, old := fun id hid => ?_
      attached := fun s => ?_, fresh := ?_, new := fun row hrow => ?_
      sweep := ⟨c.graph, 0, c.graph.steps.values, hlinks.trans hreplaces.links, .refl _, rfl⟩ }
  · have hstart : r.creation.Within r.creation.fresh (r.createState.startPass rows).creation := by
      rw [hcreation]
      exact ⟨fun z q hz hq => AList.lookup_insert_ne hz ▸ hq, fun _ _ hz => hz, fun _ _ hz => hz⟩
    have hend : c.creation.Within r.creation.fresh { c.creation with
        passes := c.creation.passes.erase r.creation.fresh } :=
      ⟨fun z q hz hq => AList.lookup_erase_ne hz ▸ hq, fun _ _ hz => hz, fun _ _ hz => hz⟩
    exact ((hstart.trans hwithin).trans hend).mem_builds' hgone hb
  · exact (hfind q).trans ((hlinks.trans hreplaces.links).findStep q)
  · exact (congrArg (fun m => (AList.lookup id m).map BuildRef.drvPath) hmaps.builds).trans
      ((hlinks.trans hreplaces.links).builds id)
  · exact (congrArg (AList.lookup id) hmaps.builds).trans
      ((hreplaces.old id hid).trans (congrArg (AList.lookup id) hload.builds))
  · intro b hb
    have hb' : b ∈ (c.graph.step s).builds := hreplaces.attached s (hload.step ▸ hb)
    exact (hbase s).builds ▸ hb'
  · exact hmaps.fresh.trans (hreplaces.fresh.trans hload.fresh)
  · obtain ⟨b, s, hb, hlo, hhi, hs, hattached⟩ := hreplaces.new row hrow
    refine ⟨b, s, (congrArg (AList.lookup row.1) hmaps.builds).trans hb, hlo, ?_,
      (hfind row.2).trans hs, (hbase s).builds ▸ hattached⟩
    exact lt_of_lt_of_eq hhi (hmaps.fresh.trans (hreplaces.fresh.trans hload.fresh)).symm

/-! ## Any number of passes -/

/-- A pass over loaded rows, when its sweep has nothing to do. -/
theorem Reread.sameLinks (hreach : Lts.Reach (next cfg) Lts.anyStep {} r)
    (hq : r.QueueLoaded rows) (hswept : r.shared.graph.Swept) (h : Reread cfg rows r r') :
    r.shared.graph.SameLinks r'.shared.graph ∧ r'.shared.queues = r.shared.queues ∧
      (rows = [] → ∀ s, (r'.shared.graph.step s).builds = (r.shared.graph.step s).builds) := by
  obtain ⟨r₁, hstart, hrun, -⟩ := h
  obtain rfl : r.setCreateState (r.createState.startPass rows) = r₁ := Option.some.inj hstart
  have hstarted : Rereading r.shared.graph rows r.creation.fresh
      (r.setCreateState (r.createState.startPass rows)).createState :=
    Rereading.startPass (c := r.createState) (Creation.PassesStarted.reach hreach) rows
  have hend := rereading_of_reach hq.loaded hswept (Graph.Counted.reach hreach) hstarted hrun
  refine ⟨hend.graph, ?_, hend.attached⟩
  rw [InPass.of_reach hrun]
  rfl

theorem Reread.reach (hreach : Lts.Reach (next cfg) Lts.anyStep {} r)
    (h : Reread cfg rows r r') : Lts.Reach (next cfg) Lts.anyStep {} r' := by
  obtain ⟨r₁, hstart, hrun, -⟩ := h
  exact (Lts.Reach.step _ hreach trivial hstart).trans (hrun.mono fun _ _ _ => trivial)

/-- Passes over a swept graph leave the queue alone, and passes without
rows attach nothing. -/
theorem rereads_sameLinks (hreach : Lts.Reach (next cfg) Lts.anyStep {} r)
    (hq : r.QueueLoaded rows) (hswept : r.shared.graph.Swept)
    (h : Relation.ReflTransGen (Reread cfg rows) r r') :
    Lts.Reach (next cfg) Lts.anyStep {} r' ∧ r.shared.graph.SameLinks r'.shared.graph ∧
      r'.shared.queues = r.shared.queues ∧
      (rows = [] → ∀ s, (r'.shared.graph.step s).builds = (r.shared.graph.step s).builds) := by
  induction h with
  | refl => exact ⟨hreach, .refl _, rfl, fun _ _ => rfl⟩
  | @tail r₁ r₂ hruns hone ih =>
    obtain ⟨hreach₁, hlinks, hqueues, hattached⟩ := ih
    obtain ⟨hlinks', hqueues', hattached'⟩ := hone.sameLinks hreach₁ (hq.of_sameLinks hlinks)
      (hlinks.swept hswept)
    exact ⟨hone.reach hreach₁, hlinks.trans hlinks', hqueues'.trans hqueues,
      fun hnil s => (hattached' hnil s).trans (hattached hnil s)⟩

/-- The edges, the runnable steps, the queues and the ids in `Builds` stay
as they are exactly when the graph was swept. -/
theorem sameQueue_iff_swept (hreach : Lts.Reach (next cfg) Lts.anyStep {} r)
    (hq : r.QueueLoaded rows) :
    (∀ r', Relation.ReflTransGen (Reread cfg rows) r r' → SameQueue r r') ↔
      r.shared.graph.Swept := by
  constructor
  · intro h
    obtain ⟨r', hreread, hreplaced⟩ := exists_reread cfg hq
    have hsame := h r' (.single hreread)
    obtain ⟨g, now, order, hlinks, horder, hg⟩ := hreplaced.sweep
    have hdeps : ∀ t, ((g.sweepSteps now order).step t).deps = (g.step t).deps := by
      intro t
      rw [← hg, hsame.deps, (hlinks.step t).deps]
    refine hlinks.symm.swept (Graph.swept_of_sweepSteps horder hdeps (fun t => ?_) fun t => ?_)
    · rw [← hg, hsame.rdeps, (hlinks.step t).rdeps]
    · rw [← hg, hsame.runnable, (hlinks.step t).runnable]
  · intro hswept r' hruns
    obtain ⟨-, hlinks, hqueues, -⟩ := rereads_sameLinks hreach hq hswept hruns
    exact
      { deps := fun s => (hlinks.step s).deps
        rdeps := fun s => (hlinks.step s).rdeps
        depsLen := fun s => (hlinks.step s).depsLen
        rdepsLen := fun s => (hlinks.step s).rdepsLen
        runnable := fun s => (hlinks.step s).runnable
        queues := hqueues
        builds := hlinks.builds }

/-- With a row to read, the counter of the objects grows without bound. -/
theorem exists_rereads (cfg : Config) (hq : r.QueueLoaded rows) (hrows : rows ≠ []) (n : Nat) :
    ∃ r', Relation.ReflTransGen (Reread cfg rows) r r' ∧ Spared rows r r' ∧
      n ≤ r'.shared.graph.fresh := by
  induction n with
  | zero => exact ⟨r, .refl, .refl r, Nat.zero_le _⟩
  | succ n ih =>
    obtain ⟨r₁, hruns, hkept, hn⟩ := ih
    obtain ⟨r₂, hone, hreplaced⟩ := exists_reread cfg (hkept.queueLoaded hq)
    refine ⟨r₂, hruns.tail hone, hkept.trans hreplaced.toSpared, ?_⟩
    rw [hreplaced.fresh]
    have hpos := List.length_pos_iff.mpr hrows
    omega

/-- Two more passes attach a build and replace it, and nothing holds it
then. -/
theorem not_attachedAlive (cfg : Config) (hq : r.QueueLoaded rows) (hrows : rows ≠ []) :
    ∃ r', Relation.ReflTransGen (Reread cfg rows) r r' ∧ ¬ AttachedAlive r r' := by
  obtain ⟨row, hrow⟩ := List.exists_mem_of_ne_nil rows hrows
  obtain ⟨s, hs⟩ := hq.step row hrow
  -- All builds that are attached to `s` or held have numbers below `n`.
  obtain ⟨n, hn⟩ : ∃ n, ∀ b, b ∈ (r.shared.graph.step s).builds ∨ r.buildHeld b = true →
      b.gen < n := by
    obtain ⟨n, hn⟩ := Finset.exists_nat_subset_range (((r.shared.graph.step s).builds ++
      r.shared.graph.builds.values ++ r.dispatcher.builds ++ r.creation.builds' ++
      r.calls.values.flatMap CallTask.builds).map BuildRef.gen).toFinset
    refine ⟨n, fun b hb => Finset.mem_range.mp (hn ?_)⟩
    rw [List.mem_toFinset]
    refine List.mem_map_of_mem ?_
    simp only [buildHeld, decide_eq_true_eq] at hb
    simp only [List.mem_append, List.mem_flatMap]
    tauto
  obtain ⟨r₁, hruns, hkept₁, hfresh⟩ := exists_rereads cfg hq hrows n
  have hq₁ := hkept₁.queueLoaded hq
  obtain ⟨r₂, hone, hreplaced₂⟩ := exists_reread cfg hq₁
  obtain ⟨b, s', hb, hlo, hhi, hs', hattached⟩ := hreplaced₂.new row hrow
  obtain ⟨r₃, htwo, hreplaced₃⟩ := exists_reread cfg (hreplaced₂.queueLoaded hq₁)
  have hkept : Spared rows r r₃ := (hkept₁.trans hreplaced₂.toSpared).trans hreplaced₃.toSpared
  obtain rfl : s' = s := by
    rw [hreplaced₂.findStep, hkept₁.findStep, hs, Option.some.injEq] at hs'
    exact hs'.symm
  have hge : n ≤ b.gen := hfresh.trans hlo
  refine ⟨r₃, (hruns.tail hone).tail htwo, fun halive => ?_⟩
  rcases halive s' b (hreplaced₃.attached s' hattached) with hold | hheld
  · exact absurd (hn b (Or.inl hold)) (Nat.not_lt.mpr hge)
  simp only [buildHeld, decide_eq_true_eq, hkept.dispatcher, hkept.calls] at hheld
  have hbefore : r.buildHeld b = true → False := fun h =>
    absurd (hn b (Or.inr h)) (Nat.not_lt.mpr hge)
  simp only [buildHeld, decide_eq_true_eq] at hbefore
  rcases hheld with hmap | hheld | hcalls | hheld
  · -- `Builds` has a newer build for every row, and the old ones for other ids.
    obtain ⟨id, hid⟩ := Map.mem_values_iff.mp hmap
    by_cases hmem : id ∈ rows.map Prod.fst
    · obtain ⟨row', hrow', rfl⟩ := List.mem_map.mp hmem
      obtain ⟨b', -, hb', hlo', -⟩ := hreplaced₃.new row' hrow'
      rw [hid, Option.some.injEq] at hb'
      subst hb'
      exact Nat.not_lt.mpr hlo' hhi
    · rw [hkept.old id hmem] at hid
      exact hbefore (Or.inl (Map.mem_values_iff.mpr ⟨id, hid⟩))
  · exact hbefore (Or.inr (Or.inl hheld))
  · exact hbefore (Or.inr (Or.inr (Or.inl (hkept.creation b hcalls))))
  · exact hbefore (Or.inr (Or.inr (Or.inr hheld)))

/-- Reading the queue again, any number of times, leaves everything as it
was exactly when there is nothing to read and nothing to sweep.  With a
loaded build the attached builds that were freed pile up. -/
theorem rereading_idempotent (hreach : Lts.Reach (next cfg) Lts.anyStep {} r)
    (hq : r.QueueLoaded rows) :
    (∀ r', Relation.ReflTransGen (Reread cfg rows) r r' → SameQueue r r' ∧ AttachedAlive r r') ↔
      rows = [] ∧ r.shared.graph.Swept := by
  constructor
  · intro h
    refine ⟨?_, (sameQueue_iff_swept hreach hq).mp fun r' hruns => (h r' hruns).1⟩
    by_contra hrows
    obtain ⟨r', hruns, halive⟩ := not_attachedAlive cfg hq hrows
    exact halive (h r' hruns).2
  · rintro ⟨hnil, hswept⟩ r' hruns
    refine ⟨(sameQueue_iff_swept hreach hq).mpr hswept r' hruns, fun s b hb => Or.inl ?_⟩
    rwa [(rereads_sameLinks hreach hq hswept hruns).2.2.2 hnil s] at hb

/-- A pass that was evaluated. -/
theorem Reread.of_run {k : CallId} {as : List Action} (hk : r.creation.fresh = k)
    (h : (r.next cfg (.create (.startPass rows) {})).bind
      (fun r₁ => Lts.runWith (next cfg) (InPass k) r₁ as) = some r')
    (hend : r'.creation.passes.lookup k = none) : Reread cfg rows r r' := by
  obtain ⟨r₁, hstart, hrun⟩ := Option.bind_eq_some_iff.mp h
  subst hk
  exact ⟨r₁, hstart, Lts.reach_of_runWith hrun, hend⟩

end Runner

namespace Sample

/-- The pass `k` over the loaded build. -/
def reread (k : CallId) : List Action :=
  [.create (.resumePass k) {},
    .create (.resumeBuild (k + 1)) {},
    .create (.resumeBuild (k + 1)) {},
    .create (.resumeBuild (k + 1)) {},
    .create (.resumePass k) {},
    .create (.resumePass k) { steps := [step] }]

/-- The runner after the build of `drv` was loaded, with its queue. -/
theorem exists_loaded : ∃ r, Lts.run (Runner.next config) {} created = some r ∧
    Lts.Reach (Runner.next config) Lts.anyStep {} r ∧ r.QueueLoaded [(1, drv)] := by
  have h : (Lts.run (Runner.next config) {} created).map (fun r =>
      (r.shared.graph.builds.lookup 1, r.shared.graph.findStep drv)) =
      some (some ⟨1, drv, 0⟩, some step) := by decide +kernel
  obtain ⟨r, hr, hfacts⟩ := Option.map_eq_some_iff.mp h
  rw [Prod.mk.injEq] at hfacts
  refine ⟨r, hr, Lts.reach_of_run hr, by simp, ?_, ?_⟩
  · intro row hrow
    obtain rfl := List.mem_singleton.mp hrow
    exact ⟨⟨1, drv, 0⟩, hfacts.1, rfl⟩
  · intro row hrow
    obtain rfl := List.mem_singleton.mp hrow
    exact ⟨step, hfacts.2⟩

end Sample

/-- The build of the first new pass is attached, and freed by the second. -/
theorem rereading_grows : ¬ ∀ (r r' : Runner) (rows : List (BuildID × StorePath)),
    Lts.Reach (Runner.next Sample.config) Lts.anyStep {} r → r.QueueLoaded rows →
    Relation.ReflTransGen (Runner.Reread Sample.config rows) r r' →
    r.SameQueue r' ∧ r.AttachedAlive r' := by
  intro hclaim
  obtain ⟨r, hr, hreach, hq⟩ := Sample.exists_loaded
  have hrun : ((Lts.run (Runner.next Sample.config) {} Sample.created).bind fun r =>
      ((r.next Sample.config (.create (.startPass [(1, Sample.drv)]) {})).bind fun r₁ =>
        Lts.runWith (Runner.next Sample.config) (Runner.InPass 3) r₁ (Sample.reread 3)).bind
      fun r₂ => ((r₂.next Sample.config (.create (.startPass [(1, Sample.drv)]) {})).bind fun r₃ =>
        Lts.runWith (Runner.next Sample.config) (Runner.InPass 6) r₃ (Sample.reread 6)).map
      fun r₄ => (r.creation.fresh = 3 ∧ r₂.creation.fresh = 6 ∧
        (r₂.creation.passes.lookup 3).isNone ∧ (r₄.creation.passes.lookup 6).isNone ∧
        ⟨1, Sample.drv, 2⟩ ∈ (r₄.shared.graph.step Sample.step).builds ∧
        ⟨1, Sample.drv, 2⟩ ∉ (r.shared.graph.step Sample.step).builds ∧
        r₄.buildHeld ⟨1, Sample.drv, 2⟩ = false : Bool)) = some true := by
    decide +kernel
  rw [hr, Option.bind_some, Option.bind_eq_some_iff] at hrun
  obtain ⟨r₂, hr₂, hrun⟩ := hrun
  obtain ⟨r₄, hr₄, hfacts⟩ := Option.map_eq_some_iff.mp hrun
  obtain ⟨h₁, h₂, h₃, h₄, hmem, hnew, hfreed⟩ := of_decide_eq_true hfacts
  have hone := Runner.Reread.of_run h₁ hr₂ (Option.isNone_iff_eq_none.mp h₃)
  have htwo := Runner.Reread.of_run h₂ hr₄ (Option.isNone_iff_eq_none.mp h₄)
  have halive := (hclaim r r₄ _ hreach hq (.tail (.single hone) htwo)).2
  rcases halive Sample.step _ hmem with hold | hheld
  · exact hnew hold
  · rw [hfreed] at hheld
    cases hheld

/-- The theorem at the runner of the sample, whose one build is loaded. -/
theorem rereading_idempotent_sample : ∃ r : Runner,
    Lts.Reach (Runner.next Sample.config) Lts.anyStep {} r ∧ r.QueueLoaded [(1, Sample.drv)] ∧
    ((∀ r', Relation.ReflTransGen (Runner.Reread Sample.config [(1, Sample.drv)]) r r' →
      r.SameQueue r' ∧ r.AttachedAlive r') ↔
      [(1, Sample.drv)] = ([] : List (BuildID × StorePath)) ∧ r.shared.graph.Swept) := by
  obtain ⟨r, -, hreach, hq⟩ := Sample.exists_loaded
  exact ⟨r, hreach, hq, Runner.rereading_idempotent hreach hq⟩

end QueueRunner
