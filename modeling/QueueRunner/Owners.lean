import QueueRunner.CallPool

/-!
# Every call is waited for

`Awaiting` says that what is waited for is there.  Here is the other
direction: every call of `create_build` is the one that its pass waits for,
or another call has it in its list, and every call of `create_step` is the
top-level step of a call of `create_build`, or an input of another call.
So no call outlives the build that it works for, and as long as a call works
on a step its pass waits (`Owned.waits`).
-/

namespace QueueRunner

/-- Every call of `create_build` is waited for. -/
def BuildsOwned (passes : Map CallId Pass) (builds : Map CallId BuildCall) : Prop :=
  ∀ k call, builds.lookup k = some call →
    (∃ p, passes.lookup call.pass = some p ∧ p.waiting = some k) ∨
      ∃ j caller, builds.lookup j = some caller ∧ k ∈ caller.pc.calls

/-- Every call of `create_step` is waited for. -/
def StepsOwned (builds : Map CallId BuildCall) (steps : Map CallId StepCall) : Prop :=
  ∀ k call, steps.lookup k = some call →
    (∃ j b, builds.lookup j = some b ∧ b.pc = .step k) ∨
      ∃ j caller, steps.lookup j = some caller ∧ k ∈ caller.pc.calls

/-- Every call is waited for. -/
structure Owned (c : Creation) : Prop where
  builds : BuildsOwned c.passes c.builds
  steps : StepsOwned c.builds c.steps

namespace BuildsOwned

variable {passes passes' : Map CallId Pass} {builds builds' : Map CallId BuildCall}
  {fresh : CallId}

/-- The calls that stay are still waited for. -/
theorem of_frame (h : BuildsOwned passes builds)
    (hback : ∀ k call', builds'.lookup k = some call' →
      ∃ call, builds.lookup k = some call ∧ call'.pass = call.pass)
    (hwaiting : ∀ k p z, passes.lookup k = some p → p.waiting = some z →
      builds'.lookup z ≠ none → ∃ p', passes'.lookup k = some p' ∧ p'.waiting = some z)
    (hcalls : ∀ j caller z, builds.lookup j = some caller → z ∈ caller.pc.calls →
      builds'.lookup z ≠ none → ∃ j' caller', builds'.lookup j' = some caller' ∧
        z ∈ caller'.pc.calls) : BuildsOwned passes' builds' := by
  intro k call' hk
  obtain ⟨call, hcall, hpass⟩ := hback k call' hk
  have hne : builds'.lookup k ≠ none := by simp [hk]
  rcases h k call hcall with ⟨p, hp, hz⟩ | ⟨j, caller, hj, hmem⟩
  · rw [hpass]
    exact Or.inl (hwaiting _ p k hp hz hne)
  · exact Or.inr (hcalls j caller k hj hmem hne)

/-- The pass of a call waits, for the call itself or for one that waits for
others. -/
theorem waits (h : BuildsOwned passes builds) (hw : BuildsAwaited passes builds fresh)
    (k : CallId) :
    ∀ call, builds.lookup k = some call → ∃ p z, passes.lookup call.pass = some p ∧
      p.waiting = some z ∧ (k = z ∨ ∃ top, builds.lookup z = some top ∧ top.pc.calls ≠ []) := by
  induction k using Nat.strong_induction_on with
  | _ k ih =>
    intro call hk
    rcases h k call hk with ⟨p, hp, hz⟩ | ⟨j, caller, hj, hmem⟩
    · exact ⟨p, k, hp, hz, Or.inl rfl⟩
    · obtain ⟨hlt, child, hchild, hpass⟩ := hw.nested j caller k hj hmem
      obtain rfl := Option.some.inj (hchild.symm.trans hk)
      obtain ⟨p, z, hp, hz, hor⟩ := ih j hlt caller hj
      refine ⟨p, z, hpass ▸ hp, hz, Or.inr ?_⟩
      rcases hor with rfl | htop
      · exact ⟨caller, hj, List.ne_nil_of_mem hmem⟩
      · exact htop

/-- When the call that the pass waits for has returned, it is the last one. -/
theorem eq_of_returned (h : BuildsOwned passes builds) (hw : BuildsAwaited passes builds fresh)
    {k z : CallId} {p : Pass} {top : BuildCall} (hp : passes.lookup k = some p)
    (hz : p.waiting = some z) (htop : builds.lookup z = some top) (hpc : top.pc = .returned)
    {j : CallId} {call : BuildCall} (hj : builds.lookup j = some call) (hpass : call.pass = k) :
    j = z := by
  obtain ⟨p', z', hp', hz', hor⟩ := h.waits hw j call hj
  rw [hpass, hp, Option.some.injEq] at hp'
  subst hp'
  obtain rfl := Option.some.inj (hz.symm.trans hz')
  rcases hor with heq | ⟨top', htop', hcalls⟩
  · exact heq
  · obtain rfl := Option.some.inj (htop.symm.trans htop')
    rw [hpc] at hcalls
    exact absurd rfl hcalls

end BuildsOwned

namespace StepsOwned

variable {builds builds' : Map CallId BuildCall} {steps steps' : Map CallId StepCall}
  {fresh : CallId}

theorem of_frame (h : StepsOwned builds steps)
    (hback : ∀ k, steps'.lookup k ≠ none → steps.lookup k ≠ none)
    (htop : ∀ j b k, builds.lookup j = some b → b.pc = .step k → steps'.lookup k ≠ none →
      ∃ j' b', builds'.lookup j' = some b' ∧ b'.pc = .step k)
    (hcalls : ∀ j caller k, steps.lookup j = some caller → k ∈ caller.pc.calls →
      steps'.lookup k ≠ none → ∃ j' caller', steps'.lookup j' = some caller' ∧
        k ∈ caller'.pc.calls) : StepsOwned builds' steps' := by
  intro k call' hk
  have hne : steps'.lookup k ≠ none := by simp [hk]
  obtain ⟨call, hcall⟩ := Option.ne_none_iff_exists'.mp (hback k hne)
  rcases h k call hcall with ⟨j, b, hj, hpc⟩ | ⟨j, caller, hj, hmem⟩
  · exact Or.inl (htop j b k hj hpc hne)
  · exact Or.inr (hcalls j caller k hj hmem hne)

/-- The calls of `create_build` that wait for their step stay. -/
theorem of_builds (h : StepsOwned builds steps)
    (hbuilds : ∀ j b k, builds.lookup j = some b → b.pc = .step k →
      ∃ b', builds'.lookup j = some b' ∧ b'.pc = .step k) : StepsOwned builds' steps :=
  h.of_frame (fun _ => id)
    (fun j b k hj hpc _ => by
      obtain ⟨b', hb', hpc'⟩ := hbuilds j b k hj hpc
      exact ⟨j, b', hb', hpc'⟩)
    (fun j caller k hj hmem _ => ⟨j, caller, hj, hmem⟩)

/-- A call works for a call of `create_build` of its pass. -/
theorem build (h : StepsOwned builds steps) (hw : StepsAwaited builds steps fresh) (k : CallId) :
    ∀ call, steps.lookup k = some call →
      ∃ j b, builds.lookup j = some b ∧ b.pass = call.pass := by
  induction k using Nat.strong_induction_on with
  | _ k ih =>
    intro call hk
    rcases h k call hk with ⟨j, b, hj, hpc⟩ | ⟨j, caller, hj, hmem⟩
    · obtain ⟨child, hchild, hpass, -, -⟩ := hw.toplevel j b k hj hpc
      obtain rfl := Option.some.inj (hchild.symm.trans hk)
      exact ⟨j, b, hj, hpass.symm⟩
    · obtain ⟨hlt, child, hchild, hpass, -⟩ := hw.inputs j caller k hj hmem
      obtain rfl := Option.some.inj (hchild.symm.trans hk)
      obtain ⟨i, b, hb, heq⟩ := ih j hlt caller hj
      exact ⟨i, b, hb, heq.trans hpass.symm⟩

end StepsOwned

/-! ## The calls that are taken have returned -/

/-- A call that goes on without another call waits for no call of
`create_step`, and drops none. -/
theorem BuildPc.Moves.keeps_calls {pc pc' : BuildPc} (h : BuildPc.Moves pc pc') :
    pc.calls ⊆ pc'.calls ∧ ∀ z, pc ≠ .step z := by
  cases h with
  | skip step id todo calls => exact ⟨List.Subset.refl _, by simp⟩
  | abort => exact ⟨List.nil_subset _, by simp⟩
  | cached => exact ⟨List.nil_subset _, by simp⟩
  | attach step => exact ⟨List.nil_subset _, by simp⟩
  | finish hpc => rcases hpc with rfl | rfl | rfl | rfl <;> exact ⟨List.nil_subset _, by simp⟩

theorem StepPc.Moves.calls_eq_nil {cfg : Config} {drvPath : StorePath} {pc pc' : StepPc}
    (h : StepPc.Moves cfg drvPath pc pc') : pc.calls = [] := by
  cases h with
  | found r hpc => rcases hpc with rfl | rfl <;> rfl
  | inputs hpc => rcases hpc with rfl | rfl <;> rfl
  | _ => rfl

theorem CreateState.returned_of_resumeStep {cfg : Config} {c c' : CreateState} {k k' : CallId}
    {ans : Answer} (h : c.resumeStep cfg k ans = some c') {call child : StepCall} {step : StepRef}
    {drvPath : StorePath} {todo : List StorePath} {calls : List (StorePath × CallId)}
    (hcall : c.creation.steps.lookup k = some call)
    (hpc : call.pc = .inputs step todo ((drvPath, k') :: calls))
    (hchild : c.creation.steps.lookup k' = some child) : ∃ r, child.pc = .returned r := by
  obtain ⟨_, _, _, _, _, _, pc⟩ := child
  cases pc with
  | returned r => exact ⟨r, rfl⟩
  | _ => simp [resumeStep, hcall, hpc, hchild] at h

theorem CreateState.returned_of_resumeBuild {c c' : CreateState} {k k' : CallId} {ans : Answer}
    (h : c.resumeBuild k ans = some c') {call : BuildCall} {child : StepCall}
    (hcall : c.creation.builds.lookup k = some call) (hpc : call.pc = .step k')
    (hchild : c.creation.steps.lookup k' = some child) : ∃ r, child.pc = .returned r := by
  obtain ⟨_, _, _, _, _, _, pc⟩ := child
  cases pc with
  | returned r => exact ⟨r, rfl⟩
  | _ => simp [resumeBuild, hcall, hpc, hchild] at h

namespace Owned

variable {cfg : Config} {c c' : Creation}

theorem init : Owned {} where
  builds k call hk := by cases hk
  steps k call hk := by cases hk

/-- Passes change, and none of those that wait. -/
theorem setPasses (h : Owned c) {passes : Map CallId Pass}
    (hpasses : ∀ k p z, c.passes.lookup k = some p → p.waiting = some z →
      ∃ p', passes.lookup k = some p' ∧ p'.waiting = some z) (fresh : CallId) :
    Owned { c with passes := passes, fresh := fresh } :=
  ⟨h.builds.of_frame (fun _ call hk => ⟨call, hk, rfl⟩) (fun k p z hp hz _ => hpasses k p z hp hz)
    (fun j caller _ hj hz _ => ⟨j, caller, hj, hz⟩), h.steps⟩

/-- A call of `create_build` goes on, and waits for the same calls. -/
theorem setBuild (h : Owned c) {k : CallId} {call : BuildCall} (pc : BuildPc)
    (hcall : c.builds.lookup k = some call) (hcalls : call.pc.calls ⊆ pc.calls)
    (hpc : ∀ z, call.pc ≠ .step z) :
    Owned { c with builds := c.builds.insert k { call with pc := pc } } := by
  refine ⟨h.builds.of_frame (fun j q hq => ?_) (fun j p z hp hz _ => ⟨p, hp, hz⟩)
    (fun j caller z hj hz _ => ?_), h.steps.of_builds fun j b z hj hb => ?_⟩
  · rw [Map.lookup_insert_eq] at hq
    split_ifs at hq with he
    · cases hq
      exact ⟨call, he ▸ hcall, rfl⟩
    · exact ⟨q, hq, rfl⟩
  · by_cases he : j = k
    · subst he
      obtain rfl := Option.some.inj (hj.symm.trans hcall)
      exact ⟨j, _, AList.lookup_insert _, hcalls hz⟩
    · exact ⟨j, caller, by rw [Map.lookup_insert_eq, if_neg he, hj], hz⟩
  · have he : j ≠ k := by
      rintro rfl
      obtain rfl := Option.some.inj (hj.symm.trans hcall)
      exact hpc z hb
    exact ⟨b, by rw [Map.lookup_insert_eq, if_neg he, hj], hb⟩

theorem nextBuild (h : Owned c) (hw : Awaiting c) {k : CallId} {pass pass' : Pass} (b : BuildRef)
    (hpass : c.passes.lookup k = some pass) (hwaiting : pass.waiting = none)
    (hwaiting' : pass'.waiting = some c.fresh) :
    Owned { c with
      passes := c.passes.insert k pass'
      builds := c.builds.insert c.fresh { pass := k, build := b }
      fresh := c.fresh + 1 } := by
  have hnew : ∀ {j : CallId} {q : BuildCall}, c.builds.lookup j = some q → j ≠ c.fresh := by
    rintro j q hj rfl
    exact absurd (hw.builds.bound _ q hj) (lt_irrefl _)
  have hold : ∀ {j : CallId} {q : BuildCall}, c.builds.lookup j = some q →
      (c.builds.insert c.fresh ({ pass := k, build := b } : BuildCall)).lookup j = some q :=
    fun hj => by rw [Map.lookup_insert_eq, if_neg (hnew hj), hj]
  refine ⟨fun j q hq => ?_, h.steps.of_builds fun j q z hj hpc => ⟨q, hold hj, hpc⟩⟩
  rw [Map.lookup_insert_eq] at hq
  split_ifs at hq with he
  · cases hq
    exact Or.inl ⟨pass', AList.lookup_insert _, he ▸ hwaiting'⟩
  · rcases h.builds j q hq with ⟨p, hp, hz⟩ | ⟨i, caller, hi, hmem⟩
    · have hne : q.pass ≠ k := by
        intro heq
        rw [heq, hpass, Option.some.injEq] at hp
        rw [← hp, hwaiting] at hz
        cases hz
      exact Or.inl ⟨p, by rw [Map.lookup_insert_eq, if_neg hne, hp], hz⟩
    · exact Or.inr ⟨i, caller, hold hi, hmem⟩

/-- A pass takes the result of the call that it waits for, which was the
last one of the pass. -/
theorem endBuild (h : Owned c) (hw : Awaiting c) {k k' : CallId} {pass pass' : Pass}
    {call : BuildCall} (hpass : c.passes.lookup k = some pass)
    (hwaiting : pass.waiting = some k') (hcall : c.builds.lookup k' = some call)
    (hpc : call.pc = .returned) :
    Owned { c with passes := c.passes.insert k pass', builds := c.builds.erase k' } := by
  have hold : ∀ {j : CallId} {q : BuildCall}, c.builds.lookup j = some q → j ≠ k' →
      (c.builds.erase k').lookup j = some q :=
    fun hj hne => by rw [Map.lookup_erase_eq, if_neg hne, hj]
  have hcalls : ∀ {j : CallId} {q : BuildCall}, c.builds.lookup j = some q →
      (q.pc.calls ≠ [] ∨ ∃ z, q.pc = .step z) → j ≠ k' := by
    rintro j q hj hq rfl
    obtain rfl := Option.some.inj (hj.symm.trans hcall)
    rw [hpc] at hq
    rcases hq with hq | ⟨z, hz⟩
    · exact hq rfl
    · cases hz
  refine ⟨fun j q hq => ?_, h.steps.of_builds fun j q z hj hz =>
    ⟨q, hold hj (hcalls hj (Or.inr ⟨z, hz⟩)), hz⟩⟩
  rw [Map.lookup_erase_eq] at hq
  split_ifs at hq with hne
  rcases h.builds j q hq with ⟨p, hp, hz⟩ | ⟨i, caller, hi, hmem⟩
  · have hother : q.pass ≠ k := fun heq =>
      hne (h.builds.eq_of_returned hw.builds hpass hwaiting hcall hpc hq heq)
    exact Or.inl ⟨p, by rw [Map.lookup_insert_eq, if_neg hother, hp], hz⟩
  · exact Or.inr ⟨i, caller, hold hi (hcalls hi (Or.inl (List.ne_nil_of_mem hmem))), hmem⟩

/-- A pass ends that waits for nothing. -/
theorem endPass (h : Owned c) {k : CallId} {pass : Pass} (hpass : c.passes.lookup k = some pass)
    (hwaiting : pass.waiting = none) : Owned { c with passes := c.passes.erase k } := by
  refine h.setPasses (fun j p z hp hz => ⟨p, ?_, hz⟩) c.fresh
  have hne : j ≠ k := by
    rintro rfl
    obtain rfl := Option.some.inj (hp.symm.trans hpass)
    rw [hwaiting] at hz
    cases hz
  rw [Map.lookup_erase_eq, if_neg hne, hp]

theorem startNested (h : Owned c) (hw : Awaiting c) {k : CallId} {call : BuildCall}
    {step : Option StepRef} {id : BuildID} {todo : List BuildID} {calls : List CallId}
    {pass pass' : Pass} (b : BuildRef) (hcall : c.builds.lookup k = some call)
    (hpc : call.pc = .nested step (id :: todo) calls)
    (hpass : c.passes.lookup call.pass = some pass) (hwaiting : pass'.waiting = pass.waiting) :
    Owned { c with
      passes := c.passes.insert call.pass pass'
      builds := (c.builds.insert c.fresh { pass := call.pass, build := b }).insert k
        { call with pc := .nested step todo (calls ++ [c.fresh]) }
      fresh := c.fresh + 1 } := by
  have hnew : ∀ {j : CallId} {q : BuildCall}, c.builds.lookup j = some q → j ≠ c.fresh := by
    rintro j q hj rfl
    exact absurd (hw.builds.bound _ q hj) (lt_irrefl _)
  have hold : ∀ {j : CallId} {q : BuildCall}, c.builds.lookup j = some q → j ≠ k →
      ((c.builds.insert c.fresh ({ pass := call.pass, build := b } : BuildCall)).insert k
        { call with pc := .nested step todo (calls ++ [c.fresh]) }).lookup j = some q :=
    fun hj hne => by
      rw [Map.lookup_insert_eq, if_neg hne, Map.lookup_insert_eq, if_neg (hnew hj), hj]
  have hpasses : ∀ j p z, c.passes.lookup j = some p → p.waiting = some z →
      ∃ p', (c.passes.insert call.pass pass').lookup j = some p' ∧ p'.waiting = some z := by
    intro j p z hp hz
    by_cases he : j = call.pass
    · subst he
      obtain rfl := Option.some.inj (hp.symm.trans hpass)
      exact ⟨pass', AList.lookup_insert _, hwaiting.trans hz⟩
    · exact ⟨p, by rw [Map.lookup_insert_eq, if_neg he, hp], hz⟩
  refine ⟨fun j q hq => ?_, h.steps.of_builds fun j q z hj hz => ?_⟩
  · rw [Map.lookup_insert_eq] at hq
    by_cases hj : j = c.fresh
    · exact Or.inr ⟨k, _, AList.lookup_insert _, by simp [BuildPc.calls, hj]⟩
    · have hback : ∃ q₀, c.builds.lookup j = some q₀ ∧ q.pass = q₀.pass := by
        split_ifs at hq with he
        · cases hq
          exact ⟨call, he ▸ hcall, rfl⟩
        · rw [Map.lookup_insert_eq, if_neg hj] at hq
          exact ⟨q, hq, rfl⟩
      obtain ⟨q₀, hq₀, heq⟩ := hback
      rcases h.builds j q₀ hq₀ with ⟨p, hp, hz⟩ | ⟨i, caller, hi, hmem⟩
      · rw [heq]
        exact Or.inl (hpasses _ p j hp hz)
      · by_cases hik : i = k
        · subst hik
          obtain rfl := Option.some.inj (hi.symm.trans hcall)
          rw [hpc] at hmem
          exact Or.inr ⟨i, _, AList.lookup_insert _, List.mem_append_left _ hmem⟩
        · exact Or.inr ⟨i, caller, hold hi hik, hmem⟩
  · have hne : j ≠ k := by
      rintro rfl
      obtain rfl := Option.some.inj (hj.symm.trans hcall)
      rw [hpc] at hz
      cases hz
    exact ⟨q, hold hj hne, hz⟩

theorem startToplevel (h : Owned c) (hw : Awaiting c) {k : CallId} {call : BuildCall}
    (child : StepCall) (hcall : c.builds.lookup k = some call) (hpc : call.pc = .validPath) :
    Owned { c with
      builds := c.builds.insert k { call with pc := .step c.fresh }
      steps := c.steps.insert c.fresh child
      fresh := c.fresh + 1 } := by
  have hbuilds := (h.setBuild (.step c.fresh) hcall (by rw [hpc]; exact List.nil_subset _)
    (by simp [hpc])).builds
  refine ⟨hbuilds, fun j q hq => ?_⟩
  by_cases hj : j = c.fresh
  · exact Or.inl ⟨k, _, AList.lookup_insert _, by rw [hj]⟩
  · rw [Map.lookup_insert_eq, if_neg hj] at hq
    rcases h.steps j q hq with ⟨i, b, hi, hb⟩ | ⟨i, caller, hi, hmem⟩
    · have hne : i ≠ k := by
        rintro rfl
        obtain rfl := Option.some.inj (hi.symm.trans hcall)
        rw [hpc] at hb
        cases hb
      exact Or.inl ⟨i, b, by rw [Map.lookup_insert_eq, if_neg hne, hi], hb⟩
    · have hne : i ≠ c.fresh := by
        rintro rfl
        exact absurd (hw.steps.bound _ caller hi) (lt_irrefl _)
      exact Or.inr ⟨i, caller, by rw [Map.lookup_insert_eq, if_neg hne, hi], hmem⟩

/-- A call of `create_build` takes its top-level step, which has returned. -/
theorem takeToplevel (h : Owned c) {k k' : CallId} {call : BuildCall} {child : StepCall}
    {pc : BuildPc} {r : CreateStepResult} (hcall : c.builds.lookup k = some call)
    (hpc : call.pc = .step k') (hchild : c.steps.lookup k' = some child)
    (hreturned : child.pc = .returned r) :
    Owned { c with
      builds := c.builds.insert k { call with pc := pc }
      steps := c.steps.erase k' } := by
  refine ⟨h.builds.of_frame (fun j q hq => ?_) (fun j p z hp hz _ => ⟨p, hp, hz⟩)
    (fun j caller z hj hz _ => ?_), h.steps.of_frame (fun j hne => ?_)
    (fun j b z hj hb hne => ?_) (fun j caller z hj hz _ => ?_)⟩
  · rw [Map.lookup_insert_eq] at hq
    split_ifs at hq with he
    · cases hq
      exact ⟨call, he ▸ hcall, rfl⟩
    · exact ⟨q, hq, rfl⟩
  · have he : j ≠ k := by
      rintro rfl
      obtain rfl := Option.some.inj (hj.symm.trans hcall)
      rw [hpc] at hz
      cases hz
    exact ⟨j, caller, by rw [Map.lookup_insert_eq, if_neg he, hj], hz⟩
  · rw [Map.lookup_erase_eq] at hne
    split_ifs at hne with he
    · exact absurd rfl hne
    · exact hne
  · -- the call that is taken was the one of its build
    have he : j ≠ k := by
      rintro rfl
      obtain rfl := Option.some.inj (hj.symm.trans hcall)
      rw [hpc] at hb
      cases hb
      rw [Map.lookup_erase_eq, if_pos rfl] at hne
      exact hne rfl
    exact ⟨j, b, by rw [Map.lookup_insert_eq, if_neg he, hj], hb⟩
  · have he : j ≠ k' := by
      rintro rfl
      obtain rfl := Option.some.inj (hj.symm.trans hchild)
      rw [hreturned] at hz
      cases hz
    exact ⟨j, caller, by rw [Map.lookup_erase_eq, if_neg he, hj], hz⟩

/-- A call of `create_build` takes the result of another one, which has
returned. -/
theorem takeNested (h : Owned c) {k k' : CallId} {call child : BuildCall}
    {step : Option StepRef} {todo : List BuildID} {calls : List CallId}
    (hcall : c.builds.lookup k = some call) (hpc : call.pc = .nested step todo (k' :: calls))
    (hchild : c.builds.lookup k' = some child) (hresult : child.pc = .returned) :
    Owned { c with
      builds := (c.builds.erase k').insert k { call with pc := .nested step todo calls } } := by
  have hne : k ≠ k' := by
    rintro rfl
    obtain rfl := Option.some.inj (hcall.symm.trans hchild)
    rw [hpc] at hresult
    cases hresult
  have hkept : ∀ {j : CallId} {q : BuildCall}, c.builds.lookup j = some q → j ≠ k → j ≠ k' →
      ((c.builds.erase k').insert k
        { call with pc := .nested step todo calls }).lookup j = some q :=
    fun hj hk hk' => by
      rw [Map.lookup_insert_eq, if_neg hk, Map.lookup_erase_eq, if_neg hk', hj]
  refine ⟨h.builds.of_frame (fun j q hq => ?_) (fun j p z hp hz _ => ⟨p, hp, hz⟩)
    (fun j caller z hj hz hstays => ?_), h.steps.of_builds fun j b z hj hb => ?_⟩
  · rw [Map.lookup_insert_eq] at hq
    split_ifs at hq with he
    · cases hq
      exact ⟨call, he ▸ hcall, rfl⟩
    · rw [Map.lookup_erase_eq] at hq
      split_ifs at hq
      exact ⟨q, hq, rfl⟩
  · by_cases he : j = k
    · subst he
      obtain rfl := Option.some.inj (hj.symm.trans hcall)
      rw [hpc] at hz
      rcases List.mem_cons.mp hz with rfl | hz
      · rw [Map.lookup_insert_eq, if_neg hne.symm, Map.lookup_erase_eq, if_pos rfl] at hstays
        exact absurd rfl hstays
      · exact ⟨j, _, AList.lookup_insert _, hz⟩
    · have he' : j ≠ k' := by
        rintro rfl
        obtain rfl := Option.some.inj (hj.symm.trans hchild)
        rw [hresult] at hz
        cases hz
      exact ⟨j, caller, hkept hj he he', hz⟩
  · refine ⟨b, hkept hj ?_ ?_, hb⟩
    · rintro rfl
      obtain rfl := Option.some.inj (hj.symm.trans hcall)
      rw [hpc] at hb
      cases hb
    · rintro rfl
      obtain rfl := Option.some.inj (hj.symm.trans hchild)
      rw [hresult] at hb
      cases hb

theorem startInput (h : Owned c) (hw : Awaiting c) {k : CallId} {call : StepCall}
    (child : StepCall) {step : StepRef} {drvPath : StorePath} {todo : List StorePath}
    {calls : List (StorePath × CallId)} (hcall : c.steps.lookup k = some call)
    (hpc : call.pc = .inputs step (drvPath :: todo) calls) :
    Owned { c with
      steps := (c.steps.insert c.fresh child).insert k
        { call with pc := .inputs step todo (calls ++ [(drvPath, c.fresh)]) }
      fresh := c.fresh + 1 } := by
  refine ⟨h.builds, fun j q hq => ?_⟩
  by_cases hj : j = c.fresh
  · refine Or.inr ⟨k, _, AList.lookup_insert _, ?_⟩
    simp [StepPc.calls, hj]
  · have hne : c.steps.lookup j ≠ none := by
      rw [Map.lookup_insert_eq] at hq
      split_ifs at hq with he
      · rw [he, hcall]
        simp
      · rw [Map.lookup_insert_eq, if_neg hj] at hq
        simp [hq]
    obtain ⟨q₀, hq₀⟩ := Option.ne_none_iff_exists'.mp hne
    rcases h.steps j q₀ hq₀ with htop | ⟨i, caller, hi, hmem⟩
    · exact Or.inl htop
    · by_cases hik : i = k
      · subst hik
        obtain rfl := Option.some.inj (hi.symm.trans hcall)
        refine Or.inr ⟨i, _, AList.lookup_insert _, ?_⟩
        rw [hpc] at hmem
        simp only [StepPc.calls, List.map_append, List.mem_append]
        exact Or.inl hmem
      · have hlt := hw.steps.bound i caller hi
        refine Or.inr ⟨i, caller, ?_, hmem⟩
        rw [Map.lookup_insert_eq, if_neg hik, Map.lookup_insert_eq, if_neg hlt.ne, hi]

/-- A call of `create_step` goes on without another call. -/
theorem moveStep (h : Owned c) {k : CallId} {call : StepCall} {pc : StepPc}
    {passes : Map CallId Pass} {builds : Map CallId BuildCall}
    (hcall : c.steps.lookup k = some call) (hcalls : call.pc.calls = [])
    (hpasses : Map.Touches Pass.SamePlace c.passes passes)
    (hbuilds : Map.Touches BuildCall.SamePlace c.builds builds) :
    Owned { c with
      passes := passes, builds := builds, steps := c.steps.insert k { call with pc := pc } } := by
  have hplace : ∀ j q, c.builds.lookup j = some q →
      ∃ q', builds.lookup j = some q' ∧ q'.pc = q.pc := by
    intro j q hq
    obtain ⟨q', hq', rfl | hsame⟩ := hbuilds.exists_lookup hq
    · exact ⟨q', hq', rfl⟩
    · exact ⟨q', hq', hsame.2.2⟩
  refine ⟨h.builds.of_frame (fun j q hq => ?_) (fun j p z hp hz _ => ?_)
    (fun j caller z hj hz _ => ?_), h.steps.of_frame (fun j hne => ?_)
    (fun j b z hj hb _ => ?_) (fun j caller z hj hz _ => ⟨j, caller, ?_, hz⟩)⟩
  · obtain ⟨q₀, hq₀, rfl | hsame⟩ := hbuilds.lookup hq
    · exact ⟨q, hq₀, rfl⟩
    · exact ⟨q₀, hq₀, hsame.1⟩
  · obtain ⟨p', hp', rfl | hsame⟩ := hpasses.exists_lookup hp
    · exact ⟨p', hp', hz⟩
    · exact ⟨p', hp', hsame.2.2.trans hz⟩
  · obtain ⟨caller', hcaller', heq⟩ := hplace j caller hj
    exact ⟨j, caller', hcaller', heq ▸ hz⟩
  · rw [Map.lookup_insert_eq] at hne
    split_ifs at hne with he
    · rw [he, hcall]
      simp
    · exact hne
  · obtain ⟨b', hb', heq⟩ := hplace j b hj
    exact ⟨j, b', hb', heq.trans hb⟩
  · have he : j ≠ k := by
      rintro rfl
      obtain rfl := Option.some.inj (hj.symm.trans hcall)
      rw [hcalls] at hz
      cases hz
    rw [Map.lookup_insert_eq, if_neg he, hj]

/-- A call takes the result of its first input, which has returned.  What
stays is waited for by a call that stays. -/
theorem takeInput (h : Owned c) {k k' : CallId} {call child : StepCall} {step : StepRef}
    {drvPath : StorePath} {todo : List StorePath} {calls : List (StorePath × CallId)}
    {pc : StepPc} {r : CreateStepResult} (hcall : c.steps.lookup k = some call)
    (hpc : call.pc = .inputs step todo ((drvPath, k') :: calls))
    (hchild : c.steps.lookup k' = some child) (hreturned : child.pc = .returned r)
    {steps : Map CallId StepCall} (hself : steps.lookup k = some { call with pc := pc })
    (hback : ∀ j q, steps.lookup j = some q → j ≠ k → c.steps.lookup j = some q ∧ j ≠ k')
    (hparent : ∀ i caller j, c.steps.lookup i = some caller → j ∈ caller.pc.calls →
      steps.lookup j ≠ none → i ≠ k → i ≠ k' → steps.lookup i = some caller)
    (hcalls : ∀ z ∈ calls.map Prod.snd, steps.lookup z ≠ none → z ∈ pc.calls) :
    Owned { c with steps := steps } := by
  refine ⟨h.builds, fun j q hq => ?_⟩
  have hne : steps.lookup j ≠ none := by simp [hq]
  have hold : ∃ q₀, c.steps.lookup j = some q₀ ∧ j ≠ k' := by
    by_cases he : j = k
    · subst he
      refine ⟨call, hcall, ?_⟩
      rintro rfl
      obtain rfl := Option.some.inj (hcall.symm.trans hchild)
      rw [hpc] at hreturned
      cases hreturned
    · obtain ⟨hj, hjk'⟩ := hback j q hq he
      exact ⟨q, hj, hjk'⟩
  obtain ⟨q₀, hq₀, hjk'⟩ := hold
  rcases h.steps j q₀ hq₀ with htop | ⟨i, caller, hi, hmem⟩
  · exact Or.inl htop
  · by_cases hik : i = k
    · subst hik
      obtain rfl := Option.some.inj (hi.symm.trans hcall)
      rw [hpc] at hmem
      rcases List.mem_cons.mp hmem with rfl | hmem
      · exact absurd rfl hjk'
      · exact Or.inr ⟨i, _, hself, hcalls j hmem hne⟩
    · have hik' : i ≠ k' := by
        rintro rfl
        obtain rfl := Option.some.inj (hi.symm.trans hchild)
        rw [hreturned] at hmem
        cases hmem
      exact Or.inr ⟨i, caller, hparent i caller j hi hmem hne hik hik', hmem⟩

/-- A call drops the calls for its other inputs, with all that they have
started. -/
theorem dropInputs (h : Owned c) (hw : Awaiting c) {k k' : CallId} {call child : StepCall}
    {step : StepRef} {drvPath : StorePath} {todo : List StorePath}
    {calls : List (StorePath × CallId)} {r r' : CreateStepResult}
    (hcall : c.steps.lookup k = some call)
    (hpc : call.pc = .inputs step todo ((drvPath, k') :: calls))
    (hchild : c.steps.lookup k' = some child) (hreturned : child.pc = .returned r) :
    Owned { c with
      steps := (Map.retain (fun _ q => !q.callers.contains k) (c.steps.erase k')).insert k
        { call with pc := .returned r' } } := by
  have hstays : ∀ {j : CallId}, j ≠ k → ∀ q,
      ((Map.retain (fun _ q => !q.callers.contains k) (c.steps.erase k')).insert k
        { call with pc := .returned r' }).lookup j = some q ↔
      c.steps.lookup j = some q ∧ j ≠ k' ∧ k ∉ q.callers := by
    intro j hj q
    rw [Map.lookup_insert_eq, if_neg hj, Map.lookup_retain, Option.filter_eq_some_iff,
      Map.lookup_erase_eq]
    split_ifs with he <;> simp [he]
  -- the callers of an input are its caller and the callers of that
  have hcallers : ∀ i caller j q, c.steps.lookup i = some caller → j ∈ caller.pc.calls →
      c.steps.lookup j = some q → i < j ∧ q.callers = i :: caller.callers := by
    intro i caller j q hi hmem hj
    obtain ⟨hlt, q', hq', -, heq⟩ := hw.steps.inputs i caller j hi hmem
    obtain rfl := Option.some.inj (hq'.symm.trans hj)
    exact ⟨hlt, heq⟩
  refine h.takeInput hcall hpc hchild hreturned (AList.lookup_insert _)
    (fun j q hq hj => ⟨((hstays hj q).mp hq).1, ((hstays hj q).mp hq).2.1⟩)
    (fun i caller j hi hmem hne hik hik' => ?_) (fun z hz hne => ?_)
  · refine (hstays hik caller).mpr ⟨hi, hik', fun hk => ?_⟩
    by_cases hj : j = k
    · obtain ⟨hlt, -⟩ := hcallers i caller j call hi hmem (hj ▸ hcall)
      exact lt_asymm (hj ▸ hlt) (hw.steps.callers i caller hi k hk)
    · obtain ⟨q, hq⟩ := Option.ne_none_iff_exists'.mp hne
      obtain ⟨hq, -, hnot⟩ := (hstays hj q).mp hq
      obtain ⟨-, heq⟩ := hcallers i caller j q hi hmem hq
      exact hnot (heq ▸ List.mem_cons_of_mem i hk)
  · -- the other inputs of `k` have it among their callers
    have hmem : z ∈ call.pc.calls := by
      rw [hpc]
      exact List.mem_cons_of_mem k' hz
    obtain ⟨hlt, q₀, hq₀, -, heq⟩ := hw.steps.inputs k call z hcall hmem
    obtain ⟨q, hq⟩ := Option.ne_none_iff_exists'.mp hne
    obtain ⟨hq, -, hnot⟩ := (hstays hlt.ne' q).mp hq
    obtain rfl := Option.some.inj (hq.symm.trans hq₀)
    exact absurd (heq ▸ List.mem_cons_self) hnot

/-- Every step of the creation. -/
theorem step {c c' : CreateState} {ans : Answer} {a : CreateAction} (h : Owned c.creation)
    (hw : Awaiting c.creation) (hnext : c.next cfg ans a = some c') : Owned c'.creation := by
  have hpool := (CreateState.createStep_of_next hnext).poolStep
  generalize hcc : c'.creation = cc at hpool ⊢
  cases hpool with
  | startPass rows pass htodo hwaiting hbuild hbyId =>
    refine h.setPasses (fun k p z hp hz => ⟨p, ?_, hz⟩) _
    have hne : k ≠ c.creation.fresh := by
      rintro rfl
      exact absurd (hw.builds.passBound _ p hp) (lt_irrefl _)
    rw [Map.lookup_insert_eq, if_neg hne, hp]
  | @skipBuild k pass id todo hpass htodo hwaiting hid =>
    refine h.setPasses (fun j p z hp hz => ⟨p, ?_, hz⟩) c.creation.fresh
    have hne : j ≠ k := by
      rintro rfl
      obtain rfl := Option.some.inj (hp.symm.trans hpass)
      rw [hwaiting] at hz
      cases hz
    rw [Map.lookup_insert_eq, if_neg hne, hp]
  | nextBuild hpass htodo hwaiting hid => exact h.nextBuild hw _ hpass hwaiting rfl
  | endBuild todo hpass hwaiting hcall hpc htodo => exact h.endBuild hw hpass hwaiting hcall hpc
  | endPass hpass hwaiting htodo => exact h.endPass hpass hwaiting
  | startNested hcall hpc hpass hid => exact h.startNested hw _ hcall hpc hpass rfl
  | @moveBuild a k call pc ha hcall hmove =>
    exact h.setBuild _ hcall hmove.keeps_calls.1 hmove.keeps_calls.2
  | startToplevel hcall hpc hstart => exact h.startToplevel hw _ hcall hpc
  | takeToplevel hcall hpc hchild hmove =>
    obtain ⟨r, hr⟩ := CreateState.returned_of_resumeBuild hnext hcall hpc hchild
    exact h.takeToplevel hcall hpc hchild hr
  | takeNested hcall hpc hchild hresult => exact h.takeNested hcall hpc hchild hresult
  | startInput hcall hpc hstart => exact h.startInput hw _ hcall hpc
  | moveStep hcall hmove hpasses hbuilds =>
    exact h.moveStep hcall hmove.calls_eq_nil hpasses hbuilds
  | @takeInput k k' call child step drvPath todo calls hcall hpc hchild hne =>
    obtain ⟨r, hr⟩ := CreateState.returned_of_resumeStep hnext hcall hpc hchild
    have hstays : ∀ {j : CallId}, j ≠ k → ∀ q, ((c.creation.steps.erase k').insert k
        { call with pc := .inputs step todo calls }).lookup j = some q ↔
        c.creation.steps.lookup j = some q ∧ j ≠ k' := by
      intro j hj q
      rw [Map.lookup_insert_eq, if_neg hj, Map.lookup_erase_eq]
      split_ifs with he <;> simp [he]
    exact h.takeInput hcall hpc hchild hr (AList.lookup_insert _)
      (fun j q hq hj => (hstays hj q).mp hq)
      (fun i caller j hi _ _ hik hik' => (hstays hik caller).mpr ⟨hi, hik'⟩) (fun z hz _ => hz)
  | dropInputs r hcall hpc hchild hne =>
    obtain ⟨r', hr'⟩ := CreateState.returned_of_resumeStep hnext hcall hpc hchild
    exact h.dropInputs hw hcall hpc hchild hr'

theorem reach {ok : Runner → Action → Prop} {r : Runner}
    (h : Lts.Reach (Runner.next cfg) ok {} r) : Owned r.creation := by
  refine h.invariant_of_reach (I := fun r => Owned r.creation) init ?_
  intro r a r' hreach hr _ hnext
  have hs := runnerStep_of_next hnext
  by_cases ha : ∃ ca ans, a = .create ca ans
  · obtain ⟨ca, ans, rfl⟩ := ha
    cases hs with
    | create hcreate => exact hr.step (Awaiting.reach hreach) hcreate
  · rw [hs.creation_eq fun ca ans he => ha ⟨ca, ans, he⟩]
    exact hr

/-- As long as a call works on a step, its pass waits. -/
theorem waits (h : Owned c) (hw : Awaiting c) {k : CallId} {call : StepCall}
    (hk : c.steps.lookup k = some call) :
    ∃ p z, c.passes.lookup call.pass = some p ∧ p.waiting = some z := by
  obtain ⟨j, b, hb, hpass⟩ := h.steps.build hw.steps k call hk
  obtain ⟨p, z, hp, hz, -⟩ := h.builds.waits hw.builds j b hb
  exact ⟨p, z, hpass ▸ hp, hz⟩

end Owned

end QueueRunner
