import QueueRunner.Verdicts

/-!
# The builds and their calls

A build is loaded by a pass, taken by one call of `create_build`, and
attached to its step at the end of that call.  So no two calls work on one
build, and a build whose call has not returned is attached to no step.  A
build that a pass, a call or `State.builds` points to is not freed.
-/

namespace QueueRunner

/-- The builds that exist stay attached and allocated, and `State.builds`
gets no new ones. -/
structure Graph.KeepsLife (g g' : Graph) : Prop where
  fresh : g.fresh ≤ g'.fresh
  build : ∀ b, b.gen < g.fresh → (g'.build b).toplevel = (g.build b).toplevel ∧
    (g'.build b).alive = (g.build b).alive
  builds : ∀ id b, g'.builds.lookup id = some b → g.builds.lookup id = some b

namespace Graph.KeepsLife

variable {g g' : Graph}

theorem of_eq (hbuild : g'.build = g.build) (hbuilds : g'.builds = g.builds)
    (hfresh : g.fresh ≤ g'.fresh) : g.KeepsLife g' :=
  ⟨hfresh, fun _ _ => by rw [hbuild]; exact ⟨rfl, rfl⟩, fun _ _ hb => hbuilds ▸ hb⟩

theorem refl (g : Graph) : g.KeepsLife g := of_eq rfl rfl (le_refl _)

theorem of_fades (h : g.Fades g') : g.KeepsLife g' :=
  ⟨Nat.le_of_eq h.fresh.symm, fun b _ => ⟨h.toplevel b, h.buildAlive b⟩, h.builds⟩

theorem of_sameMaps (h : g.SameMaps g') : g.KeepsLife g' :=
  of_eq h.build h.builds (Nat.le_of_eq h.fresh.symm)

theorem setFinishedInDb (g : Graph) (b : BuildRef) : g.KeepsLife (g.setFinishedInDb b) := by
  refine ⟨le_refl _, fun b' _ => ?_, fun _ _ => id⟩
  by_cases hb : b' = b
  · subst hb
    simp [Graph.setFinishedInDb, modifyBuild]
  · simp [Graph.setFinishedInDb, modifyBuild, hb]

theorem of_created {drvPath : StorePath} {build : Option BuildRef}
    {step : Option StepRef} {s : StepRef} {isNew : Bool}
    (h : Created g drvPath build step g' s isNew) : g.KeepsLife g' :=
  of_eq h.build h.builds (Grows.of_created h).fresh

theorem of_started {c c' : CreateState} {pass build : CallId} {callers : List CallId}
    {drvPath : StorePath} {rb : Option BuildRef} {rs : Option StepRef} {pc : StepPc}
    (h : CreateState.Started c pass build callers drvPath rb rs c' pc) :
    c.graph.KeepsLife c'.graph := by
  rcases h.result with ⟨-, hg, -⟩ | ⟨s, isNew, hcreated, -⟩
  · rw [hg]
    exact .refl _
  · exact .of_created hcreated

end Graph.KeepsLife

/-- Where the builds are. -/
structure BuildLife (c : CreateState) : Prop where
  bound : ∀ k call, c.creation.builds.lookup k = some call → k < c.creation.fresh
  call : ∀ k call, c.creation.builds.lookup k = some call →
    call.build.gen < c.graph.fresh ∧ (c.graph.build call.build).alive = true ∧
      (call.pc ≠ .returned → (c.graph.build call.build).toplevel = none)
  unique : ∀ k call k' call', c.creation.builds.lookup k = some call →
    c.creation.builds.lookup k' = some call' → call.build = call'.build → k = k'
  /-- A build that waits for its call. -/
  waiting : ∀ k p id b, c.creation.passes.lookup k = some p → p.byId.lookup id = some b →
    b.id = id ∧ b.gen < c.graph.fresh ∧ (c.graph.build b).alive = true ∧
      (c.graph.build b).toplevel = none ∧
      (∀ k' call, c.creation.builds.lookup k' = some call → call.build ≠ b) ∧
      ∀ k' p', c.creation.passes.lookup k' = some p' →
        p'.byId.lookup id = some b → k' = k
  /-- A call of `create_step` for a build is the one that its call waits
  for. -/
  referring : ∀ k call b, c.creation.steps.lookup k = some call →
    call.referringBuild = some b → ∃ k' bc, c.creation.builds.lookup k' = some bc ∧
      bc.build = b ∧ bc.pc = .step k
  registered : ∀ id b, c.graph.builds.lookup id = some b →
    b.gen < c.graph.fresh ∧ (c.graph.build b).alive = true

namespace BuildLife

variable {cfg : Config} {c c' : CreateState}

theorem init : BuildLife ⟨{}, [], {}⟩ := by
  constructor <;> simp

/-- A step that starts no call for a build and attaches none. -/
theorem of_frame (h : BuildLife c) (hgraph : c.graph.KeepsLife c'.graph)
    (hfresh : c.creation.fresh ≤ c'.creation.fresh)
    (hpasses : ∀ k p', c'.creation.passes.lookup k = some p' →
      ∃ p, c.creation.passes.lookup k = some p ∧
        ∀ id b, p'.byId.lookup id = some b → p.byId.lookup id = some b)
    (hbuilds : ∀ k call', c'.creation.builds.lookup k = some call' →
      ∃ call, c.creation.builds.lookup k = some call ∧ call'.build = call.build ∧
        (call.pc = .returned → call'.pc = .returned))
    (hsteps : ∀ k call' b, c'.creation.steps.lookup k = some call' →
      call'.referringBuild = some b →
      (∃ call, c.creation.steps.lookup k = some call ∧ call.referringBuild = some b) ∨
        ∃ k' bc, c'.creation.builds.lookup k' = some bc ∧ bc.build = b ∧ bc.pc = .step k)
    (hkeep : ∀ k bc k' call', c.creation.builds.lookup k = some bc → bc.pc = .step k' →
      c'.creation.steps.lookup k' = some call' →
      ∃ bc', c'.creation.builds.lookup k = some bc' ∧ bc'.build = bc.build ∧
        bc'.pc = .step k') : BuildLife c' where
  bound k call' hk := by
    obtain ⟨call, hcall, -⟩ := hbuilds k call' hk
    exact lt_of_lt_of_le (h.bound k call hcall) hfresh
  call k call' hk := by
    obtain ⟨call, hcall, hbuild, hpc⟩ := hbuilds k call' hk
    obtain ⟨hlt, halive, htop⟩ := h.call k call hcall
    rw [hbuild, (hgraph.build _ hlt).1, (hgraph.build _ hlt).2]
    exact ⟨lt_of_lt_of_le hlt hgraph.fresh, halive, fun hne => htop fun hr => hne (hpc hr)⟩
  unique k call₁ k' call₂ h₁ h₂ heq := by
    obtain ⟨call, hcall, hbuild, -⟩ := hbuilds k call₁ h₁
    obtain ⟨call', hcall', hbuild', -⟩ := hbuilds k' call₂ h₂
    exact h.unique k call k' call' hcall hcall' (by rw [← hbuild, ← hbuild', heq])
  waiting k p' id b hp' hb := by
    obtain ⟨p, hp, hbyId⟩ := hpasses k p' hp'
    obtain ⟨hid, hlt, halive, htop, hcalls, hpass⟩ := h.waiting k p id b hp (hbyId id b hb)
    rw [(hgraph.build b hlt).1, (hgraph.build b hlt).2]
    refine ⟨hid, lt_of_lt_of_le hlt hgraph.fresh, halive, htop, fun k' call' hk' => ?_,
      fun k' p'' hp'' hb' => ?_⟩
    · obtain ⟨call, hcall, hbuild, -⟩ := hbuilds k' call' hk'
      rw [hbuild]
      exact hcalls k' call hcall
    · obtain ⟨p₀, hp₀, hbyId'⟩ := hpasses k' p'' hp''
      exact hpass k' p₀ hp₀ (hbyId' id b hb')
  referring k call' b hk hb := by
    rcases hsteps k call' b hk hb with ⟨call, hcall, href⟩ | hnew
    case inr => exact hnew
    obtain ⟨k', bc, hbc, hbuild, hpc⟩ := h.referring k call b hcall href
    obtain ⟨bc', hbc', hbuild', hpc'⟩ := hkeep k' bc k call' hbc hpc hk
    exact ⟨k', bc', hbc', hbuild'.trans hbuild, hpc'⟩
  registered id b hb := by
    obtain ⟨hlt, halive⟩ := h.registered id b (hgraph.builds id b hb)
    rw [(hgraph.build b hlt).2]
    exact ⟨lt_of_lt_of_le hlt hgraph.fresh, halive⟩

/-- A step that leaves the calls for builds alone. -/
theorem of_builds (h : BuildLife c) (hgraph : c.graph.KeepsLife c'.graph)
    (hfresh : c.creation.fresh ≤ c'.creation.fresh)
    (hpasses : ∀ k p', c'.creation.passes.lookup k = some p' →
      ∃ p, c.creation.passes.lookup k = some p ∧ p'.byId = p.byId)
    (hbuilds : c'.creation.builds = c.creation.builds)
    (hsteps : ∀ k call' b, c'.creation.steps.lookup k = some call' →
      call'.referringBuild = some b →
      ∃ call, c.creation.steps.lookup k = some call ∧ call.referringBuild = some b) :
    BuildLife c' := by
  refine h.of_frame hgraph hfresh (fun k p' hp' => ?_) (fun k call' hk => ?_)
    (fun k call' b hk hb => Or.inl (hsteps k call' b hk hb)) (fun k bc k' call' hk hpc _ =>
      ⟨bc, hbuilds ▸ hk, rfl, hpc⟩)
  · obtain ⟨p, hp, hbyId⟩ := hpasses k p' hp'
    exact ⟨p, hp, fun id b hb => hbyId ▸ hb⟩
  · exact ⟨call', hbuilds ▸ hk, rfl, id⟩

/-- A change of the graph under calls that stay as they are. -/
theorem of_graph (h : BuildLife c) {g : Graph} (hgraph : c.graph.KeepsLife g)
    (present : List StorePath) : BuildLife ⟨g, present, c.creation⟩ :=
  h.of_builds hgraph (le_refl _) (fun _ p hp => ⟨p, hp, rfl⟩) rfl
    (fun _ call _ hk hb => ⟨call, hk, hb⟩)

/-- A call of `create_step` moves on. -/
theorem setStepCall (h : BuildLife c) {k : CallId} {call call' : StepCall}
    (hcall : c.creation.steps.lookup k = some call)
    (hbuild : call'.referringBuild = call.referringBuild) :
    BuildLife (c.setStepCall k call') := by
  refine h.of_builds (.refl _) (le_refl _) (fun _ p hp => ⟨p, hp, rfl⟩) rfl
    (fun k' call₁ b hk' hb => ?_)
  rw [CreateState.setStepCall_steps, Map.lookup_insert_eq] at hk'
  split_ifs at hk' with he
  · cases hk'
    exact ⟨call, he ▸ hcall, hbuild ▸ hb⟩
  · exact ⟨call₁, hk', hb⟩

/-- Calls of `create_step` go away. -/
theorem of_steps_subset (h : BuildLife c) (hg : c'.graph = c.graph)
    (hpasses : c'.creation.passes = c.creation.passes)
    (hbuilds : c'.creation.builds = c.creation.builds)
    (hfresh : c'.creation.fresh = c.creation.fresh)
    (hsteps : ∀ k call, c'.creation.steps.lookup k = some call →
      c.creation.steps.lookup k = some call) : BuildLife c' := by
  refine h.of_builds ?_ hfresh.ge (fun _ p hp => ⟨p, hpasses ▸ hp, rfl⟩) hbuilds
    (fun k call _ hk hb => ⟨call, hsteps k call hk, hb⟩)
  rw [hg]
  exact .refl _

/-- A call of `create_build` moves on; it does not wait for its step, or the
call that it waits for is gone. -/
theorem setBuildCall (h : BuildLife c) {k : CallId} {call : BuildCall} {pc : BuildPc}
    (hcall : c.creation.builds.lookup k = some call) (hreturned : call.pc ≠ .returned)
    (hstep : ∀ k', call.pc = .step k' → c.creation.steps.lookup k' = none) :
    BuildLife (c.setBuildCall k { call with pc := pc }) := by
  refine h.of_frame (.refl _) (le_refl _) (fun _ p hp => ⟨p, hp, fun _ _ => id⟩)
    (fun k' call' hk' => ?_) (fun _ call' _ hk' hb => Or.inl ⟨call', hk', hb⟩)
    (fun k₁ bc k₂ call' hk₁ hpc hk₂ => ?_)
  · rw [CreateState.setBuildCall_builds, Map.lookup_insert_eq] at hk'
    split_ifs at hk' with he
    · cases hk'
      exact ⟨call, he ▸ hcall, rfl, fun hr => absurd hr hreturned⟩
    · exact ⟨call', hk', rfl, id⟩
  · have hne : k₁ ≠ k := by
      rintro rfl
      rw [hcall, Option.some.injEq] at hk₁
      rw [← hk₁] at hpc
      have hnone := hstep k₂ hpc
      rw [CreateState.setBuildCall_steps, hnone] at hk₂
      cases hk₂
    refine ⟨bc, ?_, rfl, hpc⟩
    rw [CreateState.setBuildCall_builds, Map.lookup_insert_eq, if_neg hne, hk₁]

/-- A call of `create_build` that has returned is taken. -/
theorem takeBuildCall (h : BuildLife c) {k : CallId} {call : BuildCall}
    (hcall : c.creation.builds.lookup k = some call) (hpc : call.pc = .returned) :
    BuildLife (c.takeBuildCall k) := by
  refine h.of_frame (.refl _) (le_refl _) (fun _ p hp => ⟨p, hp, fun _ _ => id⟩)
    (fun k' call' hk' => ?_) (fun _ call' _ hk' hb => Or.inl ⟨call', hk', hb⟩)
    (fun k₁ bc k₂ call' hk₁ hstep hk₂ => ?_)
  · rw [CreateState.takeBuildCall_builds, Map.lookup_erase_eq] at hk'
    split_ifs at hk'
    exact ⟨call', hk', rfl, id⟩
  · have hne : k₁ ≠ k := by
      rintro rfl
      rw [hcall, Option.some.injEq] at hk₁
      rw [← hk₁, hpc] at hstep
      cases hstep
    refine ⟨bc, ?_, rfl, hstep⟩
    rw [CreateState.takeBuildCall_builds, Map.lookup_erase_eq, if_neg hne, hk₁]

/-- The next build of a pass gets its call. -/
theorem newCall (h : BuildLife c) {kp pass : CallId} {p p' : Pass} {id : BuildID}
    {b : BuildRef} (hpass : c.creation.passes.lookup kp = some p)
    (hid : p.byId.lookup id = some b) (hbyId : p'.byId = p.byId.erase id) :
    BuildLife { c with
      creation := { c.creation with
        passes := c.creation.passes.insert kp p'
        builds := c.creation.builds.insert c.creation.fresh { pass := pass, build := b }
        fresh := c.creation.fresh + 1 } } := by
  obtain ⟨hbid, hlt, halive, htop, hcalls, hunique⟩ := h.waiting kp p id b hpass hid
  have hold : ∀ k p₁ id₁ b₁, (c.creation.passes.insert kp p').lookup k = some p₁ →
      p₁.byId.lookup id₁ = some b₁ → ∃ p₀, c.creation.passes.lookup k = some p₀ ∧
        p₀.byId.lookup id₁ = some b₁ ∧ b₁ ≠ b := by
    intro k p₁ id₁ b₁ hk hb₁
    rw [Map.lookup_insert_eq] at hk
    split_ifs at hk with hkp
    · cases hk
      rw [hbyId, Map.lookup_erase_eq] at hb₁
      split_ifs at hb₁ with hne
      refine ⟨p, hkp ▸ hpass, hb₁, ?_⟩
      rintro rfl
      exact hne ((h.waiting kp p id₁ b₁ hpass hb₁).1.symm.trans hbid)
    · refine ⟨p₁, hk, hb₁, ?_⟩
      rintro rfl
      have hids := (h.waiting k p₁ id₁ b₁ hk hb₁).1.symm.trans hbid
      exact hkp (hunique k p₁ hk (hids ▸ hb₁))
  have hfresh : ∀ k call, c.creation.builds.lookup k = some call →
      k ≠ c.creation.fresh := fun k call hk => Nat.ne_of_lt (h.bound k call hk)
  constructor
  · intro k call hk
    rw [Map.lookup_insert_eq] at hk
    split_ifs at hk with he
    · exact he ▸ Nat.lt_succ_self _
    · exact Nat.lt_succ_of_lt (h.bound k call hk)
  · intro k call hk
    rw [Map.lookup_insert_eq] at hk
    split_ifs at hk with he
    · cases hk
      exact ⟨hlt, halive, fun _ => htop⟩
    · exact h.call k call hk
  · intro k call k' call' hk hk' heq
    rw [Map.lookup_insert_eq] at hk hk'
    split_ifs at hk hk' with he he' he'
    · exact he.trans he'.symm
    · cases hk
      exact absurd heq.symm (hcalls k' call' hk')
    · cases hk'
      exact absurd heq (hcalls k call hk)
    · exact h.unique k call k' call' hk hk' heq
  · intro k p₁ id₁ b₁ hk hb₁
    obtain ⟨p₀, hp₀, hb₀, hne⟩ := hold k p₁ id₁ b₁ hk hb₁
    obtain ⟨hbid₁, hlt₁, halive₁, htop₁, hcalls₁, hunique₁⟩ := h.waiting k p₀ id₁ b₁ hp₀ hb₀
    refine ⟨hbid₁, hlt₁, halive₁, htop₁, fun k' call hk' => ?_, fun k' p₂ hk' hb₂ => ?_⟩
    · rw [Map.lookup_insert_eq] at hk'
      split_ifs at hk'
      · cases hk'
        exact hne.symm
      · exact hcalls₁ k' call hk'
    · obtain ⟨p₃, hp₃, hb₃, -⟩ := hold k' p₂ id₁ b₁ hk' hb₂
      exact hunique₁ k' p₃ hp₃ hb₃
  · intro k call b₁ hk hb₁
    obtain ⟨k', bc, hbc, hbuild, hpc⟩ := h.referring k call b₁ hk hb₁
    refine ⟨k', bc, ?_, hbuild, hpc⟩
    rw [Map.lookup_insert_eq, if_neg (hfresh k' bc hbc), hbc]
  · exact h.registered

/-- The call for an input enters the pool. -/
theorem startedInput (h : BuildLife c) {pass build : CallId} {callers : List CallId}
    {drvPath : StorePath} {rs : Option StepRef} {pc : StepPc}
    (hs : CreateState.Started c pass build callers drvPath none rs c' pc) : BuildLife c' := by
  refine h.of_builds (.of_started hs) (Nat.le_of_lt (hs.fresh ▸ Nat.lt_succ_self _))
    (fun _ p hp => ⟨p, hs.passes ▸ hp, rfl⟩) hs.builds (fun k call b hk hb => ?_)
  rw [hs.steps, Map.lookup_insert_eq] at hk
  split_ifs at hk
  · cases hk
    cases hb
  · exact ⟨call, hk, hb⟩

/-- A call of `create_build` calls `create_step`. -/
theorem startedToplevel (h : BuildLife c) {k : CallId} {call : BuildCall} {pass : CallId}
    {drvPath : StorePath} {pc : StepPc} (hcall : c.creation.builds.lookup k = some call)
    (hpc : call.pc = .validPath)
    (hs : CreateState.Started c pass k [] drvPath (some call.build) none c' pc) :
    BuildLife (c'.setBuildCall k { call with pc := .step c.creation.fresh }) := by
  have hlife : c.graph.KeepsLife c'.graph := .of_started hs
  refine h.of_frame hlife (Nat.le_of_lt (hs.fresh ▸ Nat.lt_succ_self _))
    (fun _ p hp => ⟨p, hs.passes ▸ hp, fun _ _ => id⟩) (fun k' call' hk' => ?_)
    (fun k' call' b hk' hb => ?_) (fun k' bc k₂ call' hk' hstep _ => ?_)
  · rw [CreateState.setBuildCall_builds, Map.lookup_insert_eq, hs.builds] at hk'
    split_ifs at hk' with he
    · cases hk'
      exact ⟨call, he ▸ hcall, rfl, by simp [hpc]⟩
    · exact ⟨call', hk', rfl, id⟩
  · rw [CreateState.setBuildCall_steps, hs.steps, Map.lookup_insert_eq] at hk'
    split_ifs at hk' with he
    · cases hk'
      cases hb
      refine Or.inr ⟨k, _, AList.lookup_insert _, rfl, ?_⟩
      rw [he]
    · exact Or.inl ⟨call', hk', hb⟩
  · have hne : k' ≠ k := by
      rintro rfl
      rw [hcall, Option.some.injEq] at hk'
      rw [← hk', hpc] at hstep
      cases hstep
    refine ⟨bc, ?_, rfl, hstep⟩
    rw [CreateState.setBuildCall_builds, Map.lookup_insert_eq, if_neg hne, hs.builds, hk']

/-- A call of `create_build` attaches its build to its step and returns. -/
theorem attach (h : BuildLife c) {k : CallId} {call : BuildCall} {step : StepRef}
    (hcall : c.creation.builds.lookup k = some call) (hstep : ∀ k', call.pc ≠ .step k') :
    BuildLife (c.finishBuild k call (some step)) := by
  have hbuild : ∀ b, (((c.finishBuild k call (some step)).graph.build b).alive =
      (c.graph.build b).alive) ∧ (b ≠ call.build →
        ((c.finishBuild k call (some step)).graph.build b).toplevel =
          (c.graph.build b).toplevel) := by
    intro b
    simp only [CreateState.finishBuild, CreateState.setBuildCall_graph,
      Graph.setToplevelStep, Graph.insertNewBuild, Graph.modifyBuild]
    by_cases hb : b = call.build
    · subst hb
      split_ifs <;> simp
    · split_ifs <;> simp [hb]
  have hfresh : (c.finishBuild k call (some step)).graph.fresh = c.graph.fresh := by
    simp only [CreateState.finishBuild, CreateState.setBuildCall_graph,
      Graph.setToplevelStep, Graph.insertNewBuild, Graph.modifyBuild]
    split_ifs <;> rfl
  have hbuilds : ∀ k' call', (c.finishBuild k call (some step)).creation.builds.lookup k' =
      some call' → (k' = k ∧ call' = { call with pc := .returned }) ∨
        k' ≠ k ∧ c.creation.builds.lookup k' = some call' := by
    intro k' call' hk'
    simp only [CreateState.finishBuild, CreateState.setBuildCall_builds,
      Map.lookup_insert_eq] at hk'
    split_ifs at hk' with he
    · cases hk'
      exact Or.inl ⟨he, rfl⟩
    · exact Or.inr ⟨he, hk'⟩
  obtain ⟨hlt, halive, -⟩ := h.call k call hcall
  constructor
  · intro k' call' hk'
    rcases hbuilds k' call' hk' with ⟨rfl, -⟩ | ⟨-, hk₀⟩
    · exact h.bound k' call hcall
    · exact h.bound k' call' hk₀
  · intro k' call' hk'
    rw [hfresh, (hbuild call'.build).1]
    rcases hbuilds k' call' hk' with ⟨rfl, rfl⟩ | ⟨hne, hk₀⟩
    · exact ⟨hlt, halive, fun hr => absurd rfl hr⟩
    · obtain ⟨hlt', halive', htop'⟩ := h.call k' call' hk₀
      have hother : call'.build ≠ call.build := fun he =>
        hne (h.unique k' call' k call hk₀ hcall he)
      rw [(hbuild call'.build).2 hother]
      exact ⟨hlt', halive', htop'⟩
  · intro k₁ call₁ k₂ call₂ h₁ h₂ heq
    rcases hbuilds k₁ call₁ h₁ with ⟨rfl, rfl⟩ | ⟨-, h₁'⟩ <;>
      rcases hbuilds k₂ call₂ h₂ with ⟨rfl, rfl⟩ | ⟨-, h₂'⟩
    · rfl
    · exact h.unique _ call k₂ call₂ hcall h₂' heq
    · exact h.unique k₁ call₁ _ call h₁' hcall heq
    · exact h.unique k₁ call₁ k₂ call₂ h₁' h₂' heq
  · intro kp p id b hp hb
    obtain ⟨hbid, hlt', halive', htop', hcalls, hunique⟩ := h.waiting kp p id b hp hb
    rw [hfresh, (hbuild b).1, (hbuild b).2 (hcalls k call hcall).symm]
    refine ⟨hbid, hlt', halive', htop', fun k' call' hk' => ?_, hunique⟩
    rcases hbuilds k' call' hk' with ⟨rfl, rfl⟩ | ⟨-, hk₀⟩
    · exact hcalls k' call hcall
    · exact hcalls k' call' hk₀
  · intro k' call' b hk' hb
    obtain ⟨k₂, bc, hbc, hbb, hbpc⟩ := h.referring k' call' b hk' hb
    have hne : k₂ ≠ k := by
      rintro rfl
      rw [hcall, Option.some.injEq] at hbc
      exact hstep k' (hbc ▸ hbpc)
    refine ⟨k₂, bc, ?_, hbb, hbpc⟩
    simp only [CreateState.finishBuild, CreateState.setBuildCall_builds]
    rw [Map.lookup_insert_eq, if_neg hne, hbc]
  · intro id b hb
    rw [hfresh, (hbuild b).1]
    simp only [CreateState.finishBuild, CreateState.setBuildCall_graph,
      Graph.setToplevelStep, Graph.modifyBuild] at hb
    split_ifs at hb
    · exact h.registered id b hb
    · simp only [Graph.insertNewBuild, Map.lookup_insert_eq] at hb
      split_ifs at hb
      · cases hb
        exact ⟨hlt, halive⟩
      · exact h.registered id b hb

/-- What the load of the new builds has done so far. -/
structure Loaded (g : Graph) (acc : Graph × Pass) : Prop where
  fresh : g.fresh ≤ acc.1.fresh
  build : ∀ b, b.gen < g.fresh → acc.1.build b = g.build b
  builds : acc.1.builds = g.builds
  byId : ∀ id b, acc.2.byId.lookup id = some b →
    b.id = id ∧ g.fresh ≤ b.gen ∧ b.gen < acc.1.fresh ∧ acc.1.build b = {}

theorem Loaded.loadBuild {g : Graph} {acc : Graph × Pass} (h : Loaded g acc)
    (row : BuildID × StorePath) : Loaded g (CreateState.loadBuild acc row) := by
  refine ⟨h.fresh.trans (Nat.le_succ _), fun b hb => ?_, h.builds, fun id b hb => ?_⟩
  · rw [CreateState.loadBuild_build row (lt_of_lt_of_le hb h.fresh), h.build b hb]
  · simp only [CreateState.loadBuild, Graph.newBuild, Map.lookup_insert_eq] at hb
    split_ifs at hb with he
    · cases hb
      exact ⟨he.symm, h.fresh, Nat.lt_succ_self _,
        by simp [CreateState.loadBuild, Graph.newBuild]⟩
    · obtain ⟨hid, hge, hlt, hrec⟩ := h.byId id b hb
      exact ⟨hid, hge, Nat.lt_succ_of_lt hlt, (CreateState.loadBuild_build row hlt).trans hrec⟩

theorem Loaded.foldl {g : Graph} (rows : List (BuildID × StorePath)) :
    ∀ {acc : Graph × Pass}, Loaded g acc → Loaded g (rows.foldl CreateState.loadBuild acc) := by
  induction rows with
  | nil => exact fun h => h
  | cons row rows ih => exact fun h => ih (h.loadBuild row)

/-- A pass loads its builds. -/
theorem startPass (h : BuildLife c) (rows : List (BuildID × StorePath)) :
    BuildLife (c.startPass rows) := by
  have hload : Loaded c.graph (rows.foldl CreateState.loadBuild
      (c.graph, ⟨∅, ∅, [], [], [], none⟩)) :=
    .foldl rows ⟨le_refl _, fun _ _ => rfl, rfl, by simp⟩
  generalize hacc : rows.foldl CreateState.loadBuild (c.graph, ⟨∅, ∅, [], [], [], none⟩) = acc
    at hload
  have hlife : c.graph.KeepsLife acc.1 :=
    ⟨hload.fresh, fun b hb => by rw [hload.build b hb]; exact ⟨rfl, rfl⟩,
      fun id b hb => hload.builds ▸ hb⟩
  have hold : BuildLife { c with
      graph := acc.1, creation := { c.creation with fresh := c.creation.fresh + 1 } } :=
    h.of_builds hlife (Nat.le_succ _) (fun _ p hp => ⟨p, hp, rfl⟩) rfl
      (fun _ call _ hk hb => ⟨call, hk, hb⟩)
  simp only [CreateState.startPass, hacc]
  refine ⟨hold.bound, hold.call, hold.unique, fun k p id b hp hb => ?_, hold.referring,
    hold.registered⟩
  simp only [CreateState.setPass_passes, Map.lookup_insert_eq] at hp
  split_ifs at hp with hk
  · cases hp
    obtain ⟨hid, hge, hlt, hrec⟩ := hload.byId id b hb
    refine ⟨hid, hlt, ?_, ?_, fun k' call hk' hbuild => ?_, fun k' p' hp' hb' => ?_⟩
    · exact congrArg Build.alive hrec
    · exact congrArg Build.toplevel hrec
    · exact absurd (h.call k' call hk').1 (Nat.not_lt.mpr (hbuild ▸ hge))
    · simp only [CreateState.setPass_passes, Map.lookup_insert_eq] at hp'
      split_ifs at hp' with hk'
      · exact hk'.trans hk.symm
      · exact absurd (h.waiting k' p' id b hp' hb').2.1 (Nat.not_lt.mpr hge)
  · obtain ⟨hid, hlt, halive, htop, hcalls, hunique⟩ := hold.waiting k p id b hp hb
    refine ⟨hid, hlt, halive, htop, hcalls, fun k' p' hp' hb' => ?_⟩
    simp only [CreateState.setPass_passes, Map.lookup_insert_eq] at hp'
    split_ifs at hp' with hk'
    · cases hp'
      exact absurd (h.waiting k p id b hp hb).2.1 (Nat.not_lt.mpr (hload.byId id b hb').2.1)
    · exact hunique k' p' hp' hb'

/-- A pass moves on with its builds. -/
theorem setPass (h : BuildLife c) {k : CallId} {p p' : Pass}
    (hpass : c.creation.passes.lookup k = some p) (hbyId : p'.byId = p.byId) :
    BuildLife (c.setPass k p') := by
  refine h.of_builds (.refl _) (le_refl _) (fun k' p₁ hp₁ => ?_) rfl
    (fun _ call _ hk hb => ⟨call, hk, hb⟩)
  rw [CreateState.setPass_passes, Map.lookup_insert_eq] at hp₁
  split_ifs at hp₁ with he
  · cases hp₁
    exact ⟨p, he ▸ hpass, hbyId⟩
  · exact ⟨p₁, hp₁, rfl⟩

theorem insertFinishedDrv (h : BuildLife c) (k : CallId) (drvPath : StorePath) :
    BuildLife (c.insertFinishedDrv k drvPath) := by
  unfold CreateState.insertFinishedDrv
  split
  · rename_i p hp
    exact h.setPass hp rfl
  · exact h

theorem insertNewRunnable (h : BuildLife c) (k : CallId) (s : StepRef) :
    BuildLife (c.insertNewRunnable k s) := by
  unfold CreateState.insertNewRunnable
  split
  · rename_i p hp
    exact h.setPass hp rfl
  · exact h

theorem insertNewStep (h : BuildLife c) (k : CallId) (s : StepRef) :
    BuildLife (c.insertNewStep k s) := by
  unfold CreateState.insertNewStep
  split
  case h_2 => exact h
  rename_i call hcall
  refine h.of_frame (.refl _) (le_refl _) (fun _ p hp => ⟨p, hp, fun _ _ => id⟩)
    (fun k' call' hk' => ?_) (fun _ call' _ hk' hb => Or.inl ⟨call', hk', hb⟩)
    (fun k₁ bc k₂ call' hk₁ hpc hk₂ => ?_)
  · rw [CreateState.setBuildCall_builds, Map.lookup_insert_eq] at hk'
    split_ifs at hk' with he
    · cases hk'
      exact ⟨call, he ▸ hcall, rfl, id⟩
    · exact ⟨call', hk', rfl, id⟩
  · rw [CreateState.setBuildCall_builds, Map.lookup_insert_eq]
    split_ifs with he
    · rw [he, hcall, Option.some.injEq] at hk₁
      subst hk₁
      exact ⟨_, rfl, rfl, hpc⟩
    · exact ⟨bc, hk₁, rfl, hpc⟩

theorem takeStepCall (h : BuildLife c) (k : CallId) : BuildLife (c.takeStepCall k) := by
  refine h.of_steps_subset rfl rfl rfl rfl (fun k' call hk' => ?_)
  rw [CreateState.takeStepCall_steps, Map.lookup_erase_eq] at hk'
  split_ifs at hk'
  exact hk'

/-- `create_step` decides whether its step is finished. -/
theorem decideStep (h : BuildLife c) {k : CallId} {call : StepCall}
    (hcall : c.creation.steps.lookup k = some call) (step : StepRef) (drv : Derivation)
    (finished : Bool) : BuildLife (c.decideStep k call step drv finished) := by
  unfold CreateState.decideStep
  cases finished with
  | false => exact h.setStepCall hcall rfl
  | true =>
    rw [if_pos rfl]
    have hlife : (c.insertFinishedDrv call.pass call.drvPath).graph.KeepsLife
        ((c.insertFinishedDrv call.pass call.drvPath).graph.setFinished step true) :=
      .of_sameMaps (.modifyStep _ _ _)
    refine setStepCall ((h.insertFinishedDrv call.pass call.drvPath).of_graph hlife _)
      (?_ : _ = some call) rfl
    rw [(c.insertFinishedDrv_frame call.pass call.drvPath).2.2.1, hcall]

/-- `create_step` takes the result of an input. -/
theorem takeInput (h : BuildLife c) {k : CallId} {call : StepCall}
    (hcall : c.creation.steps.lookup k = some call) (step : StepRef) (todo : List StorePath)
    (calls : List (StorePath × CallId)) (r : CreateStepResult) :
    BuildLife (c.takeInput k call step todo calls r) := by
  unfold CreateState.takeInput
  cases r with
  | none => exact h.setStepCall hcall rfl
  | valid dep =>
    simp only
    split_ifs
    · have hlife : c.graph.KeepsLife (c.graph.addDep step dep) := .of_eq rfl rfl (le_refl _)
      exact setStepCall (h.of_graph hlife c.present) hcall rfl
    · exact h.setStepCall hcall rfl
  | previousFailure failed =>
    refine h.of_builds (.refl _) (le_refl _) (fun _ p hp => ⟨p, hp, rfl⟩) rfl
      (fun k' call' b hk' hb => ?_)
    simp only [CreateState.returnStep, CreateState.setStepCall_steps, Map.lookup_insert_eq,
      CreateState.dropCallees, Map.lookup_retain] at hk'
    split_ifs at hk' with he
    · cases hk'
      exact ⟨call, he ▸ hcall, hb⟩
    · exact ⟨call', (Option.filter_eq_some_iff.mp hk').1, hb⟩

/-- `create_step` comes to its end. -/
theorem finishStep (h : BuildLife c) {k : CallId} {call : StepCall}
    (hcall : c.creation.steps.lookup k = some call) (step : StepRef) :
    BuildLife (c.finishStep k call step) := by
  have hlife : c.graph.KeepsLife (c.graph.setCreated step) := .of_sameMaps (.modifyStep _ _ _)
  have hcreated := h.of_graph hlife c.present
  unfold CreateState.finishStep
  simp only
  split_ifs
  · refine setStepCall ((hcreated.insertNewRunnable _ _).insertNewStep _ _)
      (?_ : _ = some call) rfl
    rw [(CreateState.insertNewStep_frame ..).2.2.1,
      (CreateState.insertNewRunnable_frame ..).2.2.1, hcall]
  · refine setStepCall (hcreated.insertNewStep _ _) (?_ : _ = some call) rfl
    rw [(CreateState.insertNewStep_frame ..).2.2.1, hcall]

/-- Every step of the creation keeps the builds where they belong. -/
theorem step (h : BuildLife c) (hok : CreateOk cfg c) {ans : Answer} {a : CreateAction}
    (hs : CreateStep cfg c ans a c') : BuildLife c' := by
  cases hs with
  | startPass rows => exact h.startPass rows
  | skipBuild hpass htodo hwaiting hid => exact h.setPass hpass rfl
  | nextBuild hpass htodo hwaiting hid => exact h.newCall hpass hid rfl
  | @makeRunnable k k' pass call now todo hpass hwaiting hcall hpc =>
    have hlife : c.graph.KeepsLife
        (pass.newRunnable.foldl (fun g s => g.makeRunnable now s) c.graph) :=
      .of_sameMaps (.foldl (fun g s => .makeRunnable g now s) _ _)
    exact setPass ((h.takeBuildCall hcall hpc).of_graph hlife c.present) hpass rfl
  | @sweep k pass now order hpass hwaiting htodo horder =>
    refine h.of_builds (.of_sameMaps (.sweepSteps _ now order)) (le_refl _)
      (fun k' p hp => ?_) rfl (fun _ call _ hk hb => ⟨call, hk, hb⟩)
    simp only [Map.lookup_erase_eq] at hp
    split_ifs at hp
    exact ⟨p, hp, rfl⟩
  | @startNested k call step id todo calls pass b hcall hpc hlength hpass hid =>
    have hk : (c.creation.builds.insert c.creation.fresh
        { pass := call.pass, build := b }).lookup k = some call := by
      rw [Map.lookup_insert_eq, if_neg (Nat.ne_of_lt (h.bound k call hcall)), hcall]
    exact (h.newCall hpass hid rfl).setBuildCall hk (by simp [hpc]) (by simp [hpc])
  | @moveBuild a k call pc ha hcall hmove =>
    have hpc : call.pc ≠ .returned ∧ ∀ k', call.pc ≠ .step k' := by
      rcases hmove with ⟨_, _, _, _, hpc, -⟩ | ⟨hpc, -⟩ | ⟨hpc, -⟩ | ⟨hpc | hpc, -⟩ <;>
        simp [hpc]
    exact h.setBuildCall hcall hpc.1 (fun k' hk' => absurd hk' (hpc.2 k'))
  | @finishInDb k call hcall hpc =>
    have hpc' : call.pc ≠ .returned ∧ ∀ k', call.pc ≠ .step k' := by
      rcases hpc with hpc | hpc | hpc | hpc <;> simp [hpc]
    exact setBuildCall (h.of_graph (.setFinishedInDb _ _) c.present) hcall hpc'.1
      (fun k' hk' => absurd hk' (hpc'.2 k'))
  | @startToplevel k call hcall hpc =>
    obtain ⟨pc, hstart⟩ := c.started_startStep call.pass k [] call.build.drvPath
      (some call.build) none
    exact h.startedToplevel hcall hpc hstart
  | @takeToplevel k k' call child pc r hcall hpc hchild hresult hmove =>
    refine (h.takeStepCall k').setBuildCall hcall (by simp [hpc]) (fun k₂ hk₂ => ?_)
    rw [hpc] at hk₂
    cases hk₂
    rw [CreateState.takeStepCall_steps, Map.lookup_erase_eq, if_pos rfl]
  | @takeNested k k' call child step todo calls hcall hpc hchild hresult =>
    have hne : k ≠ k' := by
      rintro rfl
      rw [hcall, Option.some.injEq] at hchild
      rw [← hchild, hpc] at hresult
      cases hresult
    refine (h.takeBuildCall hchild hresult).setBuildCall (?_ : _ = some call) (by simp [hpc])
      (by simp [hpc])
    rw [CreateState.takeBuildCall_builds, Map.lookup_erase_eq, if_neg hne, hcall]
  | attach hcall hpc => exact h.attach hcall (by simp [hpc])
  | @startInput k call step drvPath todo calls hcall hpc hlength =>
    obtain ⟨pc, hstart⟩ := c.started_startStep call.pass call.build
      (k :: call.callers) drvPath none (some step)
    refine (h.startedInput hstart).setStepCall (?_ : _ = some call) rfl
    rw [hstart.steps, Map.lookup_insert_eq, if_neg (Nat.ne_of_lt (hok.steps k call hcall).1)]
    exact hcall
  | readDrv hcall hpc hans => exact h.setStepCall hcall rfl
  | unreadable hcall hpc hans => exact h.setStepCall hcall rfl
  | @setDrv k call step drv hcall hpc =>
    have hlife : c.graph.KeepsLife (c.graph.setDrv step drv) := .of_eq rfl rfl (le_refl _)
    exact setStepCall (h.of_graph hlife c.present) hcall rfl
  | @cachedFailure k call step drv missing hcall hpc hcached =>
    have hlife : c.graph.KeepsLife (c.graph.setPreviousFailure step true) :=
      .of_eq rfl rfl (le_refl _)
    exact setStepCall (h.of_graph hlife c.present) hcall rfl
  | substitute hcall hpc => exact h.setStepCall hcall rfl
  | decide finished hcall hpc => exact h.decideStep hcall _ _ finished
  | @takeInput k k' call child step drvPath todo calls r hcall hpc hchild hresult =>
    have hthere := CreateState.lookup_takeStepCall hcall hpc hchild hresult
    exact (h.takeStepCall k').takeInput hthere step todo calls r
  | finish hcall hpc => exact h.finishStep hcall _

/-! ## The other steps of the runner -/

variable {r r' : Runner}

/-- A build that no strong pointer is left to is freed. -/
theorem dropBuild (h : BuildLife r.createState) {b : BuildRef} (hb : r.buildHeld b = false) :
    BuildLife ⟨r.shared.graph.dropBuild b, r.shared.log.present, r.creation⟩ := by
  simp only [Runner.buildHeld, decide_eq_false_iff_not, not_or, not_exists, not_and,
    Creation.builds', List.mem_append, List.mem_map, List.mem_flatMap] at hb
  obtain ⟨hreg, -, ⟨⟨-, hcalls⟩, hpasses⟩, -⟩ := hb
  have hbuild : ∀ b' : BuildRef, ((r.shared.graph.dropBuild b).build b').toplevel =
      (r.shared.graph.build b').toplevel ∧ (b' ≠ b →
        ((r.shared.graph.dropBuild b).build b').alive = (r.shared.graph.build b').alive) := by
    intro b'
    by_cases he : b' = b
    · subst he
      simp [Graph.dropBuild, Graph.modifyBuild]
    · simp [Graph.dropBuild, Graph.modifyBuild, he]
  refine ⟨h.bound, fun k call hk => ?_, h.unique, fun k p id b' hp hb' => ?_, h.referring,
    fun id b' hb' => ?_⟩
  · have hne : call.build ≠ b := hcalls call (Map.mem_values_iff.mpr ⟨k, hk⟩)
    obtain ⟨hlt, halive, htop⟩ := h.call k call hk
    simp only
    rw [(hbuild call.build).1, (hbuild call.build).2 hne]
    exact ⟨hlt, halive, htop⟩
  · have hne : b' ≠ b := by
      rintro rfl
      exact hpasses p (Map.mem_values_iff.mpr ⟨k, hp⟩) (Map.mem_values_iff.mpr ⟨id, hb'⟩)
    obtain ⟨hid, hlt, halive, htop, hrest⟩ := h.waiting k p id b' hp hb'
    simp only
    rw [(hbuild b').1, (hbuild b').2 hne]
    exact ⟨hid, hlt, halive, htop, hrest⟩
  · have hne : b' ≠ b := by
      rintro rfl
      exact hreg (Map.mem_values_iff.mpr ⟨id, hb'⟩)
    simp only
    rw [(hbuild b').2 hne]
    exact h.registered id b' hb'

/-- Every step of the runner keeps the builds where they belong. -/
theorem runnerStep (h : BuildLife r.createState) (hok : RunnerOk cfg r) {a : Action}
    (hs : RunnerStep cfg r a r') : BuildLife r'.createState := by
  cases hs with
  | dispatch hres => exact h.of_graph (.of_fades (dispatch_fades hres)) _
  | call ht hres =>
    refine h.of_graph ?_ _
    cases callGraph_of_resume hres with
    | fades hg => exact .of_fades hg
    | succeeds a report item ht' hitem hg =>
      simp only [Runner.setCall, hg]
      exact .of_eq rfl rfl (le_refl _)
    | fails a state report caller item tries after ht' hitem hg =>
      simp only [Runner.setCall, hg]
      exact .of_eq rfl rfl (le_refl _)
    | releases a report item now ht' hg =>
      simp only [Runner.setCall, hg]
      exact .of_sameMaps (.makeRdepsRunnable _ _ _)
  | completeBuild uuid machineId state report =>
    rw [Runner.createState_completeBuild]
    exact h
  | @endStream m hm =>
    rw [Runner.createState_endStream]
    exact h
  | queueChange curIds =>
    simp only [Runner.createState, Runner.spawn_shared, Runner.spawn_creation]
    exact h.of_graph (.of_fades (.retainBuilds _ _)) _
  | insertMachine id record sortFn => exact h
  | create hnext => exact h.step hok.create (CreateState.createStep_of_next hnext)
  | @dropStep s hheld =>
    have hlife : r.shared.graph.KeepsLife (r.shared.graph.dropStep s) :=
      .of_eq rfl rfl (le_refl _)
    exact h.of_graph hlife _
  | dropBuild hheld => exact h.dropBuild hheld

/-- The builds are where they belong in every state of the runner. -/
theorem reach {ok : Runner → Action → Prop}
    (h : Lts.Reach (Runner.next cfg) ok {} r) : BuildLife r.createState := by
  refine h.invariant_of_reach (I := fun r => BuildLife r.createState) init ?_
  intro r a r' hreach hr _ hnext
  exact hr.runnerStep (RunnerOk.reach hreach) (runnerStep_of_next hnext)

end BuildLife

end QueueRunner
