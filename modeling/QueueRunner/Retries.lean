import QueueRunner.Verdicts

/-!
# How often a step is sent

`fail_step` either counts a try and lets the step be sent again, or it
gives the step up: it takes the job out of the queues and has
`inner_fail_job` fail every build that depends on the step.  Until that is
done the step looks like any other runnable step, and the dispatch loop may
collect it again or pick it from a queue.

When the dispatch loop stays away from such steps, a step is never sent
after it was given up, and at most `max_retries` times before.
-/

namespace QueueRunner

/-! ## The end of `inner_fail_job` -/

namespace Graph

/-- A walk whose turns only add to the set of steps. -/
theorem steps_subset_foldl {op : Dependents → StepRef → Dependents}
    (hop : ∀ d t, d.steps ⊆ (op d t).steps) (l : List StepRef) (d : Dependents) :
    d.steps ⊆ (l.foldl op d).steps := by
  induction l generalizing d with
  | nil => exact List.Subset.refl _
  | cons t l ih => exact List.Subset.trans (hop d t) (ih (op d t))

/-- `get_dependents` only adds to its set of steps. -/
theorem steps_subset_getDependentsFrom (g : Graph) (fuel : Nat) (d : Dependents)
    (s : StepRef) : d.steps ⊆ (g.getDependentsFrom fuel d s).steps := by
  induction fuel generalizing d s with
  | zero => exact List.Subset.refl _
  | succ fuel ih =>
    simp only [getDependentsFrom]
    split_ifs
    · exact List.Subset.refl _
    · refine List.Subset.trans (List.subset_append_left d.steps [s]) ?_
      refine steps_subset_foldl (fun d t => ?_) _
        { builds := (g.step s).builds.foldl g.insertDependent d.builds
          steps := d.steps ++ [s] }
      split_ifs
      · exact ih d t
      · exact List.Subset.refl _

/-- A step is one of its own dependents. -/
theorem mem_getDependents_steps (g : Graph) (s : StepRef) :
    s ∈ (g.getDependents s).steps := by
  unfold getDependents
  simp only [getDependentsFrom, List.any_nil, Bool.false_eq_true, if_false]
  refine steps_subset_foldl (fun d t => ?_) _ _ (by simp)
  split_ifs
  · exact g.steps_subset_getDependentsFrom _ d t
  · exact List.Subset.refl _

theorem lookup_foldl_removeStep (g : Graph) (l : List StepRef) {s : StepRef}
    (hs : s ∈ l) :
    (l.foldl (fun g t => g.removeStep t.drvPath) g).steps.lookup s.drvPath = none := by
  have hnone : ∀ (l : List StepRef) (g : Graph) (p : StorePath),
      g.steps.lookup p = none →
      (l.foldl (fun g t => g.removeStep t.drvPath) g).steps.lookup p = none := by
    intro l
    induction l with
    | nil => exact fun g p => id
    | cons t l ih =>
      intro g p hp
      refine ih _ p ?_
      simp only [removeStep, Map.lookup_erase_eq, hp, ite_self]
  induction l generalizing g with
  | nil => cases hs
  | cons t l ih =>
    rcases List.mem_cons.mp hs with rfl | hs
    · refine hnone l _ _ ?_
      simp only [removeStep, Map.lookup_erase_eq, if_true]
    · exact ih _ hs

end Graph

namespace InnerFail

theorem loopHead_step (s : Shared) (step : StepRef) (job : Job) (v : Bool) :
    (loopHead s step job v).2.step = step := by
  unfold loopHead
  simp only
  split_ifs <;> rfl

/-- The loop ends when no build is left, and then the step is no longer in
`Steps`. -/
theorem loopHead_notify {s : Shared} {step : StepRef} {job : Job} {v : Bool}
    (h : (loopHead s step job v).2.pc = .notify) :
    v = true ∧ (loopHead s step job v).1.graph.steps.lookup step.drvPath = none := by
  unfold loopHead Graph.getAllIndirectBuilds at *
  simp only at *
  by_cases hd : (s.graph.getDependents step).builds = []
  · rw [if_pos hd] at h ⊢
    by_cases hv : v = true
    · rw [if_pos ⟨rfl, hv⟩]
      exact ⟨hv, Graph.lookup_foldl_removeStep _ _ (s.graph.mem_getDependents_steps step)⟩
    · rw [if_neg (fun hc => hv hc.2)] at h
      cases h
  · rw [if_neg hd] at h
    simp only [hd, false_and, if_false] at h
    cases h

/-- `inner_fail_job` starts with its builds still to fail. -/
theorem start_spec (s : Shared) (step : StepRef) (job : Job) :
    (start s step job).2.step = step ∧ (start s step job).2.pc ≠ .notify := by
  unfold start
  split_ifs
  · exact ⟨rfl, by simp⟩
  · exact ⟨loopHead_step s step job false, fun h => by cases (loopHead_notify h).1⟩

end InnerFail

/-! ## The condition and the property -/

/-- The step that `fail_step` has given up and whose builds it still has to
fail. -/
def CallTask.givesUp : CallTask → Option StepRef
  | .fail _ (.removeJob item _) _ => some item.stepInfo.step
  | .fail _ (.inner _ f) _ => if f.pc = .notify then none else some f.step
  | _ => none

/-- The database serves `inner_fail_job`, and the overhead that a builder
reports with a failure fits an `i32`. -/
def CallTask.Served (t : CallTask) (ans : Answer) : Prop :=
  match t with
  | .fail _ (.start _ timings) _ => timings.getOverhead < 2 ^ 31
  | .fail _ (.inner _ f) _ => f.pc = .notify ∨ ans.ok = true
  | _ => True

instance (t : CallTask) (ans : Answer) : Decidable (t.Served ans) :=
  match t with
  | .fail _ (.start _ timings) _ =>
    inferInstanceAs (Decidable (timings.getOverhead < 2 ^ 31))
  | .fail _ (.inner _ f) _ => inferInstanceAs (Decidable (f.pc = .notify ∨ ans.ok = true))
  | .fail _ (.retry _ _) _ | .fail _ (.removeJob _ _) _ | .succeed _ _ _ | .killStart
  | .kill _ _ | .killAbort _ _ _ _ | .tunnelClose _ => inferInstanceAs (Decidable True)

namespace Runner

/-- The job that `process` is about to realise: it is neither scheduled nor
finished, and builds depend on it. -/
def takesUp (r : Runner) : Option InfoRef :=
  match r.dispatcher with
  | .walk w =>
    match w.jobs with
    | i :: _ =>
      if r.live i = true ∧ (r.shared.queues.info i).alreadyScheduled = false ∧
          (r.shared.graph.step i.step).finished = false ∧
          (r.shared.graph.getDependents i.step).builds ≠ [] then some i
      else none
    | [] => none
  | _ => none

/-- A call still has to fail the builds of the step. -/
def GivingUp (r : Runner) (s : StepRef) : Prop :=
  ∃ t task, r.calls.lookup t = some task ∧ task.givesUp = some s

/-- The messages that were sent for a step. -/
def sentFor (r : Runner) (s : StepRef) : Nat :=
  r.shared.log.sent.countP (fun e => e.2.1.step = s)

/-- A message was sent for the step, and its attempt is not over. -/
def InFlight (r : Runner) (s : StepRef) : Prop :=
  (∃ drv item, r.item drv = some item ∧ item.stepInfo.step = s) ∨
    (r.dispatcher.late = true ∧
      ∃ i m job, r.dispatcher.attempt = some (i, m, job) ∧ i.step = s)

/-- The step has neither succeeded nor been given up. -/
def Undecided (r : Runner) (s : StepRef) : Prop :=
  s ∉ r.shared.log.failed ∧ s ∉ r.shared.log.succeeded

end Runner

/-- The dispatch loop takes up no step that is being given up or has left
`Steps`, and the calls that give steps up are served. -/
def Undisturbed (r : Runner) : Action → Prop
  | .dispatch _ => ∀ i ∈ r.takesUp,
    r.shared.graph.steps.lookup i.drvPath = some i.step ∧
      ∀ task ∈ r.calls.values, task.givesUp ≠ some i.step
  | .call t ans => ∀ task ∈ r.calls.lookup t, task.Served ans
  | _ => True

instance (r : Runner) (a : Action) : Decidable (Undisturbed r a) :=
  match a with
  | .dispatch _ => inferInstanceAs (Decidable (∀ i ∈ r.takesUp,
      r.shared.graph.steps.lookup i.drvPath = some i.step ∧
        ∀ task ∈ r.calls.values, task.givesUp ≠ some i.step))
  | .call t ans => inferInstanceAs (Decidable
      (∀ task ∈ r.calls.lookup t, task.Served ans))
  | .completeBuild _ _ _ _ | .create _ _ | .endStream _ | .queueChange _
  | .insertMachine _ _ _ | .dropStep _ | .dropBuild _ => inferInstanceAs (Decidable True)

/-- The attempts of a step follow each other, none follows the last, and
there are not too many. -/
structure AttemptsInOrder (cfg : Config) (r : Runner) : Prop where
  /-- When a message is sent for a step, every earlier attempt is over, and
  the step has not been given up. -/
  sends : ∀ a r' u i m, r.next cfg a = some r' →
    r'.shared.log.sent = (u, i, m) :: r.shared.log.sent →
    (∀ e ∈ r.shared.log.sent, e.2.1.step = i.step → e.1 ∈ r.shared.log.ended) ∧
      r.item i.drvPath = none ∧ i.step ∉ r.shared.log.failed
  bounded : ∀ s, r.sentFor s ≤ max 1 cfg.maxRetries.toNat

/-! ## The invariant -/

/-- What the counters say about the messages. -/
structure Tries (cfg : Config) (r : Runner) : Prop where
  failed : ∀ s ∈ r.shared.log.failed, s.gen < r.shared.graph.fresh ∧
    (r.GivingUp s ∨ r.shared.graph.steps.lookup s.drvPath ≠ some s)
  succeeded : ∀ s ∈ r.shared.log.succeeded, s.gen < r.shared.graph.fresh ∧
    (r.shared.graph.step s).finished = true
  item : ∀ drv item, r.item drv = some item → r.Undecided item.stepInfo.step
  attempt : ∀ i m job, r.dispatcher.attempt = some (i, m, job) → r.Undecided i.step
  tries : ∀ s ∉ r.shared.log.failed, (r.shared.graph.step s).tries = 0 ∨
    (r.shared.graph.step s).tries < cfg.maxRetries.toNat
  flight : ∀ s, r.Undecided s → r.sentFor s ≤ (r.shared.graph.step s).tries ∨
    (r.InFlight s ∧ r.sentFor s ≤ (r.shared.graph.step s).tries + 1)
  bound : ∀ s, r.sentFor s ≤ max 1 cfg.maxRetries.toNat

/-- A call that gives a step up goes on until the step has left `Steps`. -/
theorem CallTask.givesUp_resume {cfg : Config} {s : Shared} {held : InfoRef → Bool}
    {t : CallTask} {ans : Answer} {res : Shared × Option CallTask}
    (h : t.resume cfg s held ans = some res) {x : StepRef}
    (hx : t.givesUp = some x) (hserved : t.Served ans) :
    (∃ u, res.2 = some u ∧ u.givesUp = some x) ∨
      res.1.graph.steps.lookup x.drvPath = none := by
  cases t with
  | fail a pc caller =>
    cases pc with
    | removeJob item job =>
      cases h
      cases hx
      let s₁ : Shared := { s with
        queues := s.queues.removeJob held item.stepInfo item.buildQueue }
      obtain ⟨hstep, hpc⟩ := InnerFail.start_spec s₁ item.stepInfo.step job
      refine Or.inl ⟨.fail a (.inner item
        (InnerFail.start s₁ item.stepInfo.step job).2) caller, rfl, ?_⟩
      rw [givesUp, if_neg hpc, hstep]
    | inner item f =>
      simp only [givesUp] at hx
      split_ifs at hx with hpc
      cases hx
      have hok := hserved.resolve_left hpc
      -- the head of the loop, which both turns end with
      have hhead : ∀ {s : Shared} {v : Bool} {f' : InnerFail},
          InnerFail.loopHead s f.step f.job v = (res.1, f') →
          res.2 = some (.fail a (.inner item f') caller) →
          (∃ u, res.2 = some u ∧ u.givesUp = some f.step) ∨
            res.1.graph.steps.lookup f.step.drvPath = none := by
        intro s v f' hres hu
        by_cases hpc' : f'.pc = .notify
        · right
          have hnotify : (InnerFail.loopHead s f.step f.job v).2.pc = .notify := by
            rw [hres]
            exact hpc'
          have := (InnerFail.loopHead_notify hnotify).2
          rwa [hres] at this
        · left
          refine ⟨_, hu, ?_⟩
          have hstep := InnerFail.loopHead_step s f.step f.job v
          rw [hres] at hstep
          simp [givesUp, hpc', ← hstep]
      cases h
      cases hf : f.pc with
      | notify => exact absurd hf hpc
      | finishBuildStep =>
        simp only [failResume, InnerFail.resume, hf, hok, if_true] at hhead ⊢
        exact hhead rfl rfl
      | mark indirect =>
        simp only [failResume, InnerFail.resume, hf, hok, if_true] at hhead ⊢
        exact hhead rfl rfl
    | _ => cases hx
  | _ => cases hx

/-- Where a new attempt of the dispatch loop comes from. -/
theorem DispatchStep.attempt_takesUp {r : Runner} {s' : Shared} {d' : DispatchPc}
    (hs : DispatchStep r.shared r.held r.dispatcher s' d') {i : InfoRef}
    {m : MachineRef} {job : Job} (ha : d'.attempt = some (i, m, job)) :
    (∃ job', r.dispatcher.attempt = some (i, m, job')) ∨ r.takesUp = some i := by
  rcases hs.attempt_cases ha with ⟨job', ha', -⟩ | ⟨hnone, -⟩
  · exact Or.inl ⟨job', ha'⟩
  · right
    generalize hd : r.dispatcher = d at hs hnone
    cases hs with
    | pick m job ans hjobs hlive hflag hfin hdep hmachine huuid hpath hm hnext =>
      cases ha
      have hlive : r.live i = true := hlive
      simp [Runner.takesUp, hd, hjobs, hlive, hflag, hfin, hdep]
    | other hm hinfo hwalk hcollected htodo =>
      rw [(DispatchPc.attempt_eq_none_of_info
        (DispatchPc.info_eq_none_of_walk? hwalk)).1] at ha
      cases ha
    | scrub hinfo hwalk hcollected htodo =>
      rw [(DispatchPc.attempt_eq_none_of_info
        (DispatchPc.info_eq_none_of_walk? hwalk)).1] at ha
      cases ha
    | removeByPath drv hinfo hwalk hcollected htodo =>
      rw [(DispatchPc.attempt_eq_none_of_info
        (DispatchPc.info_eq_none_of_walk? hwalk)).1] at ha
      cases ha
    | @advance _ w i' pc pc' hm hlate hlate' htarget =>
      rw [DispatchPc.attempt_realise] at ha hnone
      obtain ⟨⟨m', job'⟩, ht, -⟩ := Option.map_eq_some_iff.mp ha
      obtain ⟨job₀, ht₀, -⟩ := htarget _ _ ht
      rw [ht₀] at hnone
      cases hnone
    | send w i' m' job' hopen => cases hnone
    | insertJob w i' m' job' now => cases hnone
    | _ => cases ha

/-- The dispatch loop ends no attempt. -/
theorem Runner.InFlight.dispatch {cfg : Config} {r : Runner} {s : StepRef}
    (h : r.InFlight s) (hp : Pointers cfg r) {s' : Shared} {d' : DispatchPc}
    (hs : DispatchStep r.shared r.held r.dispatcher s' d') :
    Runner.InFlight { r with shared := s', dispatcher := d' } s := by
  rcases h with ⟨drv, item, hitem, rfl⟩ | ⟨hlate, i, m, job, ha, rfl⟩
  · exact Or.inl ⟨drv, item, (hs.keepsAttempts hp).item drv item hitem, rfl⟩
  · cases hins : r.dispatcher.inserted with
    | true =>
      obtain ⟨w, hd, rfl, rfl⟩ := hs.of_inserted hins ha
      refine Or.inl ⟨i.drvPath, ⟨i, w.system, m⟩, ?_, rfl⟩
      rw [Runner.item, InnerQueues.addJobToScheduled_scheduled, Map.lookup_insert_eq]
      simp
    | false =>
      obtain ⟨w, hd⟩ := DispatchPc.eq_sent_of_late hlate hins ha
      rw [hd] at hs
      cases hs with
      | insertJob => exact Or.inr ⟨rfl, i, m, job, rfl, rfl⟩
      | other hm hinfo => cases hinfo
      | scrub hinfo => cases hinfo
      | snapshot w hinfo => cases hinfo
      | removeByPath drv hinfo => cases hinfo
      | advance hm hl => cases hl
      | abandon hm hl => cases hl

namespace Tries

variable {cfg : Config} {r r' : Runner}

theorem init : Tries cfg {} := by
  constructor <;> simp [Runner.item, DispatchPc.attempt, Runner.sentFor]

/-- The message counts when a step is sent is the one of the attempt. -/
theorem sentFor_cons {e : Uuid × InfoRef × MachineRef}
    (h : r'.shared.log.sent = e :: r.shared.log.sent) (s : StepRef) :
    r'.sentFor s = if e.2.1.step = s then r.sentFor s + 1 else r.sentFor s := by
  simp only [Runner.sentFor, h, List.countP_cons, decide_eq_true_eq]
  split_ifs <;> rfl

/-- No message was sent for a step that does not exist yet. -/
theorem sentFor_eq_zero (hjobs : JobSteps (JobSteps.Found r) r) {s : StepRef}
    (hs : r.shared.graph.fresh ≤ s.gen) : r.sentFor s = 0 := by
  refine List.countP_eq_zero.mpr fun e he heq => ?_
  have hlt := (hjobs.sent e he).1
  rw [of_decide_eq_true heq] at hlt
  exact absurd hlt (Nat.not_lt.mpr hs)

/-- A step that was given up is still one of those that go on to leave `Steps`,
or has left them. -/
theorem failed_of_extends (h : Tries cfg r) (hext : r.shared.graph.Extends r'.shared.graph)
    (hgiving : ∀ s, r.GivingUp s → r'.GivingUp s ∨
      r'.shared.graph.steps.lookup s.drvPath ≠ some s) {s : StepRef}
    (hs : s ∈ r.shared.log.failed) : s.gen < r'.shared.graph.fresh ∧
      (r'.GivingUp s ∨ r'.shared.graph.steps.lookup s.drvPath ≠ some s) := by
  obtain ⟨hlt, hcases⟩ := h.failed s hs
  refine ⟨lt_of_lt_of_le hlt hext.fresh, ?_⟩
  rcases hcases with hg | hne
  · exact hgiving s hg
  · refine Or.inr fun heq => ?_
    rcases hext.steps _ s heq with hold | hnew
    · exact hne hold
    · exact absurd hlt (Nat.not_lt.mpr hnew)

/-- A step of the runner in which no call decides. -/
theorem carry (h : Tries cfg r) (hext : r.shared.graph.Extends r'.shared.graph)
    (hstep : ∀ s, ((r.shared.graph.step s).finished = true →
        (r'.shared.graph.step s).finished = true) ∧
        (r'.shared.graph.step s).tries = (r.shared.graph.step s).tries ∨
      r.shared.graph.fresh ≤ s.gen ∧ (r'.shared.graph.step s).tries = 0)
    (hlog : r.shared.log.SameVerdicts r'.shared.log)
    (hgiving : ∀ s, r.GivingUp s → r'.GivingUp s ∨
      r'.shared.graph.steps.lookup s.drvPath ≠ some s)
    (hitem : ∀ drv item, r'.item drv = some item → r.Undecided item.stepInfo.step)
    (hattempt : ∀ i m job, r'.dispatcher.attempt = some (i, m, job) →
      r.Undecided i.step)
    (hflight : ∀ s, r.Undecided s → r'.sentFor s ≤ (r'.shared.graph.step s).tries ∨
      (r'.InFlight s ∧ r'.sentFor s ≤ (r'.shared.graph.step s).tries + 1))
    (hbound : ∀ s, r'.sentFor s ≤ max 1 cfg.maxRetries.toNat) : Tries cfg r' := by
  have hundecided : ∀ s, r'.Undecided s ↔ r.Undecided s := fun s => by
    rw [Runner.Undecided, Runner.Undecided, hlog.failed, hlog.succeeded]
  refine
    { failed := fun s hs => ?_, succeeded := fun s hs => ?_
      item := fun drv item hi => (hundecided _).mpr (hitem drv item hi)
      attempt := fun i m job ha => (hundecided _).mpr (hattempt i m job ha)
      tries := fun s hs => ?_
      flight := fun s hs => hflight s ((hundecided s).mp hs)
      bound := hbound }
  · rw [hlog.failed] at hs
    exact h.failed_of_extends hext hgiving hs
  · rw [hlog.succeeded] at hs
    obtain ⟨hlt, hfin⟩ := h.succeeded s hs
    refine ⟨lt_of_lt_of_le hlt hext.fresh, ?_⟩
    rcases hstep s with hold | hnew
    · exact hold.1 hfin
    · exact absurd hlt (Nat.not_lt.mpr hnew.1)
  · rw [hlog.failed] at hs
    rcases hstep s with hold | hnew
    · rw [hold.2]
      exact h.tries s hs
    · exact Or.inl hnew.2

/-- A step that leaves the attempts and the dispatch loop alone. -/
theorem of_same (h : Tries cfg r) (hjobs : JobSteps (JobSteps.Found r) r)
    (hext : r.shared.graph.Extends r'.shared.graph)
    (hstep : ∀ s, ((r.shared.graph.step s).finished = true →
        (r'.shared.graph.step s).finished = true) ∧
        (r'.shared.graph.step s).tries = (r.shared.graph.step s).tries ∨
      r.shared.graph.fresh ≤ s.gen ∧ (r'.shared.graph.step s).tries = 0)
    (hlog : r.shared.log.SameVerdicts r'.shared.log)
    (hgiving : ∀ s, r.GivingUp s → r'.GivingUp s ∨
      r'.shared.graph.steps.lookup s.drvPath ≠ some s)
    (hsent : r'.shared.log.sent = r.shared.log.sent)
    (hscheduled : r'.shared.queues.scheduled = r.shared.queues.scheduled)
    (hd : r'.dispatcher = r.dispatcher) : Tries cfg r' := by
  have hcount : ∀ s, r'.sentFor s = r.sentFor s := fun s => by
    rw [Runner.sentFor, hsent]
    rfl
  refine h.carry hext hstep hlog hgiving (fun drv item hi => ?_) (hd ▸ h.attempt)
    (fun s hs => ?_) (fun s => hcount s ▸ h.bound s)
  · rw [Runner.item, hscheduled] at hi
    exact h.item drv item hi
  · rw [hcount]
    rcases hstep s with ⟨-, htries⟩ | ⟨hnew, -⟩
    · rw [htries]
      refine (h.flight s hs).imp id fun hf => ⟨?_, hf.2⟩
      have hflight := hf.1
      rw [Runner.InFlight] at hflight ⊢
      simpa only [Runner.item, hscheduled, hd] using hflight
    · rw [sentFor_eq_zero hjobs hnew]
      exact Or.inl (Nat.zero_le _)

/-- A step of the dispatch loop that meets the condition. -/
theorem dispatch (h : Tries cfg r) (hok : RunnerOk cfg r) {ans : Answer} {s' : Shared}
    {d' : DispatchPc} (hres : r.dispatcher.resume cfg r.shared r.held ans = some (s', d'))
    (hundisturbed : Undisturbed r (.dispatch ans)) :
    Tries cfg { r with shared := s', dispatcher := d' } := by
  have hs := dispatchStep_of_resume hres
  have hfades := dispatch_fades hres
  have htries : ∀ s, (s'.graph.step s).tries = (r.shared.graph.step s).tries :=
    fun s => (hfades.sameBase s).tries
  -- the messages and the attempts under way, which fix the last two fields
  have hcounts : ∀ s, (r.Undecided s → Runner.sentFor { r with shared := s', dispatcher := d' }
        s ≤ (r.shared.graph.step s).tries ∨
      (Runner.InFlight { r with shared := s', dispatcher := d' } s ∧
        Runner.sentFor { r with shared := s', dispatcher := d' } s ≤
          (r.shared.graph.step s).tries + 1)) ∧
      Runner.sentFor { r with shared := s', dispatcher := d' } s ≤
        max 1 cfg.maxRetries.toNat := by
    intro s
    rcases hs.sent_eq with hsent | ⟨w, i, m, job, hd, rfl, rfl⟩
    · have hcount : Runner.sentFor { r with shared := s', dispatcher := d' } s =
          r.sentFor s := by
        simp only [Runner.sentFor, hsent]
      rw [hcount]
      refine ⟨fun hu => (h.flight s hu).imp id fun hf => ⟨?_, hf.2⟩, h.bound s⟩
      exact hf.1.dispatch hok.pointers hs
    · have ha : r.dispatcher.attempt = some (i, m, job) := by rw [hd]; rfl
      have hsent : ({ r with
          shared := { r.shared with log := { r.shared.log with
            sent := (job.internalBuildId, i, m) :: r.shared.log.sent } }
          dispatcher := .realise w i (.sent m job) } : Runner).shared.log.sent =
          (job.internalBuildId, i, m) :: r.shared.log.sent := rfl
      rw [sentFor_cons hsent s]
      split_ifs with his
      · obtain rfl : i.step = s := his
        have hundecided := h.attempt i m job ha
        have hidle : ¬r.InFlight i.step := by
          rintro (⟨drv, item, hitem, hstep⟩ | ⟨hlate, -⟩)
          · have hnone := (hok.pointers.holding w i _ hd).2
            have hpath := (hok.pointers.item drv item hitem).1
            rw [InfoRef.drvPath, ← hstep] at hnone
            rw [InfoRef.drvPath] at hpath
            rw [hpath, hitem] at hnone
            cases hnone
          · rw [hd] at hlate
            cases hlate
        have hle := (h.flight i.step hundecided).resolve_right fun hf => hidle hf.1
        refine ⟨fun _ => Or.inr ⟨Or.inr ⟨rfl, i, m, job, rfl, rfl⟩, by omega⟩, ?_⟩
        have := h.tries i.step hundecided.1
        omega
      · refine ⟨fun hu => (h.flight s hu).imp id fun hf => ⟨?_, hf.2⟩, h.bound s⟩
        exact hf.1.dispatch hok.pointers hs
  refine h.carry (Graph.Grows.of_fades hfades).toExtends
    (fun s => Or.inl ⟨fun hf => ?_, htries s⟩) (dispatch_verdicts hres)
    (fun s hg => Or.inl hg) (fun drv item hi => ?_) (fun i m job ha => ?_)
    (fun s hu => ?_) (fun s => (hcounts s).2)
  · exact ((hfades.sameBase s).finished).trans hf
  · rcases hs.item_cases hi with hi | ⟨w, i, m, job, hd, -, rfl⟩
    · exact h.item drv item hi
    · exact h.attempt i m job (by rw [hd]; rfl)
  · rcases hs.attempt_takesUp ha with ⟨job', ha'⟩ | htakes
    · exact h.attempt i m job' ha'
    · obtain ⟨hregistered, hgiving⟩ := hundisturbed i htakes
      refine ⟨fun hfailed => ?_, fun hsucceeded => ?_⟩
      · rcases (h.failed _ hfailed).2 with ⟨t, task, ht, hg⟩ | hne
        · exact hgiving task (Map.mem_values_iff.mpr ⟨t, ht⟩) hg
        · exact hne hregistered
      · -- a step that succeeded is finished, and `process` skips it
        have hfin := (h.succeeded _ hsucceeded).2
        unfold Runner.takesUp at htakes
        split at htakes
        · split at htakes
          · split_ifs at htakes with hc
            cases htakes
            rw [hc.2.2.1] at hfin
            cases hfin
          · cases htakes
        · cases htakes
  · rw [htries]
    exact (hcounts s).1 hu

/-- The calls that give a step up, after a call that they are not. -/
theorem givingUp_setCall {t : TaskId} {task : CallTask} {ans : Answer}
    {res : Shared × Option CallTask} (ht : r.calls.lookup t = some task)
    (hres : task.resume cfg r.shared r.held ans = some res)
    (hserved : task.Served ans) {s : StepRef} (hg : r.GivingUp s) :
    (r.setCall t res).GivingUp s ∨
      (r.setCall t res).shared.graph.steps.lookup s.drvPath ≠ some s := by
  obtain ⟨t', task', ht', hx⟩ := hg
  by_cases heq : t' = t
  · subst heq
    rw [ht, Option.some.injEq] at ht'
    subst ht'
    rcases CallTask.givesUp_resume hres hx hserved with ⟨u, hu, hux⟩ | hnone
    · refine Or.inl ⟨t', u, ?_, hux⟩
      rw [Runner.lookup_setCall, if_pos rfl, hu]
    · right
      rw [Runner.setCall, hnone]
      simp
  · refine Or.inl ⟨t', task', ?_, hx⟩
    rw [Runner.lookup_setCall, if_neg heq, ht']

/-- The items of other steps stay when an attempt ends. -/
theorem inFlight_of_ends {t : TaskId}
    {res : Shared × Option CallTask} {drv : StorePath} {item : ScheduledItem} {job : Job}
    (hends : EndsAttempt r.shared res.1 drv item job) {s : StepRef}
    (hs : s ≠ item.stepInfo.step) (h : r.InFlight s) : (r.setCall t res).InFlight s := by
  refine h.imp ?_ id
  rintro ⟨drv', item', hitem', rfl⟩
  have hdrv : drv' ≠ drv := by
    rintro rfl
    rw [Runner.item, hends.unscheduled.found, Option.some.injEq] at hitem'
    exact hs (by rw [hitem'])
  refine ⟨drv', item', ?_, rfl⟩
  rw [Runner.item, Runner.setCall, hends.unscheduled.scheduled, Map.lookup_erase_eq,
    if_neg hdrv]
  exact hitem'

/-- An attempt has ended: its step is in no item and no attempt any more. -/
theorem gone_of_ends (hok : RunnerOk cfg r) {t : TaskId}
    {res : Shared × Option CallTask} {drv : StorePath} {item : ScheduledItem} {job : Job}
    (hends : EndsAttempt r.shared res.1 drv item job) :
    (∀ drv' item', (r.setCall t res).item drv' = some item' →
      r.item drv' = some item' ∧ item'.stepInfo.step ≠ item.stepInfo.step) ∧
    ∀ i m job, r.dispatcher.attempt = some (i, m, job) → i.step ≠ item.stepInfo.step := by
  have hpath := (hok.pointers.item drv item hends.unscheduled.found).1
  refine ⟨fun drv' item' hi => ?_, fun i m job ha heq => ?_⟩
  · rw [Runner.item, Runner.setCall, hends.unscheduled.scheduled,
      Map.lookup_erase_eq] at hi
    split_ifs at hi with hdrv
    refine ⟨hi, fun heq => hdrv ?_⟩
    have hpath' := (hok.pointers.item drv' item' hi).1
    rw [← hpath, ← hpath', InfoRef.drvPath, InfoRef.drvPath, heq]
  · have hnone := Attempts.item_eq_none hok.pointers ha
    rw [InfoRef.drvPath, heq] at hnone
    rw [InfoRef.drvPath] at hpath
    rw [hpath, Runner.item, hends.unscheduled.found] at hnone
    cases hnone

/-- A call ends the attempt of a step and decides about it, or counts. -/
theorem ends (h : Tries cfg r) (hok : RunnerOk cfg r)
    (hjobs : JobSteps (JobSteps.Found r) r) {t : TaskId}
    {res : Shared × Option CallTask} {drv : StorePath} {item : ScheduledItem} {job : Job}
    (hends : EndsAttempt r.shared res.1 drv item job)
    (hext : r.shared.graph.Extends res.1.graph)
    (hgiving : ∀ s, r.GivingUp s → (r.setCall t res).GivingUp s ∨
      res.1.graph.steps.lookup s.drvPath ≠ some s)
    (hother : ∀ s, s ≠ item.stepInfo.step →
      (res.1.graph.step s).tries = (r.shared.graph.step s).tries ∧
        (res.1.graph.step s).finished = (r.shared.graph.step s).finished)
    (hkeeps : r.shared.log.failed ⊆ res.1.log.failed ∧
      r.shared.log.succeeded ⊆ res.1.log.succeeded)
    (hfailed : ∀ s ∈ res.1.log.failed, s ∈ r.shared.log.failed ∨
      s = item.stepInfo.step ∧ (r.setCall t res).GivingUp s)
    (hsucceeded : ∀ s ∈ res.1.log.succeeded, s ∈ r.shared.log.succeeded ∨
      s = item.stepInfo.step ∧ (res.1.graph.step s).finished = true)
    (htries : item.stepInfo.step ∉ res.1.log.failed →
      (res.1.graph.step item.stepInfo.step).tries = 0 ∨
        (res.1.graph.step item.stepInfo.step).tries < cfg.maxRetries.toNat)
    (hcount : (r.setCall t res).Undecided item.stepInfo.step →
      r.sentFor item.stepInfo.step ≤ (res.1.graph.step item.stepInfo.step).tries) :
    Tries cfg (r.setCall t res) := by
  have hitem : r.item drv = some item := hends.unscheduled.found
  have hundecided := h.item drv item hitem
  have halloc : item.stepInfo.step.gen < r.shared.graph.fresh := (hjobs.item drv item hitem).1
  obtain ⟨hgone, hgone'⟩ := gone_of_ends (t := t) hok hends
  have hsentFor : ∀ s, (r.setCall t res).sentFor s = r.sentFor s := fun s => by
    rw [Runner.sentFor, Runner.setCall, hends.sent]
    rfl
  have hstays : ∀ s, s ≠ item.stepInfo.step → r.Undecided s →
      (r.setCall t res).Undecided s := by
    intro s hs hu
    refine ⟨fun hf => ?_, fun hf => ?_⟩
    · exact (hfailed s hf).elim hu.1 fun he => hs he.1
    · exact (hsucceeded s hf).elim hu.2 fun he => hs he.1
  refine
    { failed := fun s hs => ?_, succeeded := fun s hs => ?_
      item := fun drv' item' hi => ?_, attempt := fun i m job ha => ?_
      tries := fun s hs => ?_, flight := fun s hs => ?_
      bound := fun s => hsentFor s ▸ h.bound s }
  · rcases hfailed s hs with hold | ⟨rfl, hg⟩
    · exact h.failed_of_extends hext hgiving hold
    · exact ⟨lt_of_lt_of_le halloc hext.fresh, Or.inl hg⟩
  · rcases hsucceeded s hs with hold | ⟨rfl, hf⟩
    · obtain ⟨hlt, hf⟩ := h.succeeded s hold
      refine ⟨lt_of_lt_of_le hlt hext.fresh, ?_⟩
      have hne : s ≠ item.stepInfo.step := fun he => hundecided.2 (he ▸ hold)
      exact ((hother s hne).2).trans hf
    · exact ⟨lt_of_lt_of_le halloc hext.fresh, hf⟩
  · obtain ⟨hold, hne⟩ := hgone drv' item' hi
    exact hstays _ hne (h.item drv' item' hold)
  · exact hstays _ (hgone' i m job ha) (h.attempt i m job ha)
  · by_cases he : s = item.stepInfo.step
    · subst he
      exact htries hs
    · change (res.1.graph.step s).tries = 0 ∨ (res.1.graph.step s).tries < _
      rw [(hother s he).1]
      exact h.tries s fun hf => hs (hkeeps.1 hf)
  · rw [hsentFor]
    by_cases he : s = item.stepInfo.step
    · subst he
      exact Or.inl (hcount hs)
    · change r.sentFor s ≤ (res.1.graph.step s).tries ∨ _ ∧
        r.sentFor s ≤ (res.1.graph.step s).tries + 1
      rw [(hother s he).1]
      refine (h.flight s ?_).imp id fun hf => ⟨inFlight_of_ends hends he hf.1, hf.2⟩
      exact ⟨fun hf => hs.1 (hkeeps.1 hf), fun hf => hs.2 (hkeeps.2 hf)⟩

/-- A step of a call that is served. -/
theorem call (h : Tries cfg r) (hok : RunnerOk cfg r)
    (hjobs : JobSteps (JobSteps.Found r) r) {t : TaskId} {task : CallTask} {ans : Answer}
    {res : Shared × Option CallTask} (ht : r.calls.lookup t = some task)
    (hres : task.resume cfg r.shared r.held ans = some res)
    (hserved : task.Served ans) : Tries cfg (r.setCall t res) := by
  have hgraph := callGraph_of_resume hres
  have hverdict := callVerdict_of_resume hres
  have hext := hgraph.extends.1
  have hgiving : ∀ s, r.GivingUp s → (r.setCall t res).GivingUp s ∨
      (r.setCall t res).shared.graph.steps.lookup s.drvPath ≠ some s :=
    fun s hg => givingUp_setCall ht hres hserved hg
  -- a call that is past its first step decides nothing
  have hquiet : task.starting = none → res.1.log.sent = r.shared.log.sent →
      res.1.queues.scheduled = r.shared.queues.scheduled → Tries cfg (r.setCall t res) := by
    intro hstart hsent hscheduled
    refine h.of_same hjobs hext (fun s => Or.inl ?_) (hverdict.same_of_starting hstart)
      hgiving hsent hscheduled rfl
    obtain ⟨htries, hfin⟩ := hgraph.sameCounters hstart s
    exact ⟨fun hf => hfin.trans hf, htries⟩
  have hcall := callStep_of_resume hres
  obtain ⟨s', t'⟩ := res
  cases hcall with
  | quiet hstart hsame hinfos hpending hkeeps =>
    exact hquiet hstart hsame.sent hsame.scheduled
  | removeJob i system hstart hi hremoved hinfos hpending hlast =>
    exact hquiet hstart hremoved.sent
      (hremoved.scheduled.trans (InnerQueues.removeJob_scheduled ..))
  | missing a rest hstart hp hlookup hinfos hpending hlast =>
    exact h.of_same hjobs hext (fun _ => Or.inl ⟨id, rfl⟩)
      ⟨rfl, rfl, List.Subset.refl _⟩ hgiving rfl rfl rfl
  | jobMissing a rest item hstart hp hitem hnone =>
    exact absurd hnone (hok.attempts.find_job hitem)
  | ends a rest item job hstart hp hends hinfos hpending hlast =>
    have hfound := hends.unscheduled.found
    have hitem : r.item a.drv = some item := hfound
    have hother := fun s hs => hgraph.sameCounters_of_ne hstart hfound (x := s) hs
    have hundecided := h.item a.drv item hitem
    have htries := h.tries _ hundecided.1
    cases hverdict with
    | pending hsame hnone =>
      rw [hnone a hstart] at hfound
      cases hfound
    | jobMissing b item' hstart' hitem' hjob =>
      exact absurd hjob (hok.attempts.find_job hitem')
    | overflows b state timings caller htask hover =>
      rw [htask] at hserved
      exact absurd hserved hover
    | succeeds b report item' htask hitem' hfailed hsucceeded hfin htries' =>
      obtain rfl : a = b := Option.some.inj (hstart.symm.trans (by rw [htask]; rfl))
      obtain rfl : item = item' := Option.some.inj (hfound.symm.trans hitem')
      refine h.ends hok hjobs hends hext hgiving hother ⟨?_, ?_⟩ ?_ ?_ ?_ ?_
      · rw [hfailed]
        exact List.Subset.refl _
      · rw [hsucceeded]
        exact List.subset_cons_self _ _
      · rw [hfailed]
        exact fun s hs => Or.inl hs
      · rw [hsucceeded]
        intro s hs
        rcases List.mem_cons.mp hs with rfl | hs
        · exact Or.inr ⟨rfl, hfin⟩
        · exact Or.inl hs
      · rw [htries']
        exact fun _ => htries
      · intro hu
        refine absurd ?_ hu.2
        rw [Runner.setCall, hsucceeded]
        exact List.mem_cons_self
    | retries b state timings caller item' htask hitem' hsame htries' hlt =>
      obtain rfl : a = b := Option.some.inj (hstart.symm.trans (by rw [htask]; rfl))
      obtain rfl : item = item' := Option.some.inj (hfound.symm.trans hitem')
      refine h.ends hok hjobs hends hext hgiving hother ⟨?_, ?_⟩ ?_ ?_ (fun _ => Or.inr hlt) ?_
      · rw [hsame.failed]
        exact List.Subset.refl _
      · rw [hsame.succeeded]
        exact List.Subset.refl _
      · rw [hsame.failed]
        exact fun s hs => Or.inl hs
      · rw [hsame.succeeded]
        exact fun s hs => Or.inl hs
      · intro hu
        -- the counter is below `max_retries` and does not wrap
        have hmax : cfg.maxRetries.toNat < 2 ^ 32 := cfg.maxRetries.toNat_lt
        have hle := h.flight _ hundecided
        rw [htries']
        omega
    | givesUp b state timings caller item' job' htask hitem' hfailed hsucceeded ht' =>
      obtain rfl : a = b := Option.some.inj (hstart.symm.trans (by rw [htask]; rfl))
      obtain rfl : item = item' := Option.some.inj (hfound.symm.trans hitem')
      refine h.ends hok hjobs hends hext hgiving hother ⟨?_, ?_⟩ ?_ ?_ ?_ ?_
      · rw [hfailed]
        exact List.subset_cons_self _ _
      · rw [hsucceeded]
        exact List.Subset.refl _
      · rw [hfailed]
        intro s hs
        rcases List.mem_cons.mp hs with rfl | hs
        · refine Or.inr ⟨rfl, t, .fail a (.removeJob item job') caller, ?_, rfl⟩
          rw [Runner.lookup_setCall, if_pos rfl, ht']
        · exact Or.inl hs
      · rw [hsucceeded]
        exact fun s hs => Or.inl hs
      · intro hs
        refine absurd ?_ hs
        rw [hfailed]
        exact List.mem_cons_self
      · intro hu
        refine absurd ?_ hu.1
        rw [Runner.setCall, hfailed]
        exact List.mem_cons_self

/-- A step of the runner that only starts a task or works on the graph. -/
theorem of_grows (h : Tries cfg r) (hjobs : JobSteps (JobSteps.Found r) r)
    (hgrows : r.shared.graph.Grows r'.shared.graph)
    (hlog : r.shared.log.SameVerdicts r'.shared.log)
    (hgiving : ∀ s, r.GivingUp s → r'.GivingUp s)
    (hsent : r'.shared.log.sent = r.shared.log.sent)
    (hscheduled : r'.shared.queues.scheduled = r.shared.queues.scheduled)
    (hd : r'.dispatcher = r.dispatcher) : Tries cfg r' := by
  refine h.of_same hjobs hgrows.toExtends (fun s => ?_) hlog
    (fun s hg => Or.inl (hgiving s hg)) hsent hscheduled hd
  rcases hgrows.step s with hold | ⟨hgen, hnew⟩
  · exact Or.inl ⟨hold.finished, hold.tries⟩
  · exact Or.inr ⟨hgen, hnew.tries⟩

/-- The tasks that were there are still there after another one starts. -/
theorem givingUp_spawn (htasks : ∀ t task, r.calls.lookup t = some task → t < r.nextTask)
    (res : Shared × Option CallTask) {s : StepRef} (h : r.GivingUp s) :
    (r.spawn res).GivingUp s := by
  obtain ⟨t, task, ht, hg⟩ := h
  refine ⟨t, task, ?_, hg⟩
  rw [Runner.lookup_spawn, if_neg, ht]
  rintro ⟨rfl, -⟩
  exact absurd (htasks _ task ht) (lt_irrefl _)

/-- Every step that meets the condition keeps the invariant. -/
theorem step (h : Tries cfg r) (hok : RunnerOk cfg r)
    (hjobs : JobSteps (JobSteps.Found r) r) {a : Action} (hundisturbed : Undisturbed r a)
    (hs : RunnerStep cfg r a r') : Tries cfg r' := by
  have hgrows := hs.runnerGraph.grows
  have hlog := hs.sameVerdicts
  cases hs with
  | dispatch hres => exact h.dispatch hok hres hundisturbed
  | @call _ _ task _ ht hres => exact h.call hok hjobs ht hres (hundisturbed task ht)
  | completeBuild uuid machineId state report =>
    obtain ⟨results, heq, -⟩ := completeBuild_spec r.shared uuid machineId state report
    refine h.of_grows hjobs (hgrows (by simp)) (hlog (by simp))
      (fun s => givingUp_spawn hok.tasks _) ?_ ?_ (r.spawn_dispatcher _)
    · rw [Runner.spawn_shared, heq]
    · rw [Runner.spawn_shared, heq]
  | @endStream m hm =>
    obtain ⟨machines, task, heq, -⟩ := endStream_spec r.shared m
    refine h.of_grows hjobs (hgrows (by simp)) (hlog (by simp))
      (fun s => givingUp_spawn (r := { r with tunnels := r.tunnels.erase m }) hok.tasks _)
      ?_ ?_ (Runner.spawn_dispatcher _ _)
    · rw [Runner.spawn_shared, heq]
    · rw [Runner.spawn_shared, heq]
  | queueChange curIds =>
    refine h.of_grows hjobs (hgrows (by simp)) (hlog (by simp))
      (fun s => givingUp_spawn hok.tasks _) ?_ ?_ (r.spawn_dispatcher _)
    · rw [Runner.spawn_shared]
      rfl
    · rw [Runner.spawn_shared]
      rfl
  | insertMachine id record sortFn =>
    exact h.of_grows hjobs (hgrows (by simp)) (hlog (by simp))
      (fun _ hg => hg) rfl (r.shared.queues.ensureQueuesForSystems_frame record.systems).2.1 rfl
  | create hnext =>
    exact h.of_grows hjobs (hgrows (by simp)) (hlog (by simp))
      (fun _ hg => hg) rfl rfl rfl
  | dropStep hheld =>
    exact h.of_grows hjobs (hgrows (by simp)) (hlog (by simp))
      (fun _ hg => hg) rfl rfl rfl
  | dropBuild hheld =>
    exact h.of_grows hjobs (hgrows (by simp)) (hlog (by simp))
      (fun _ hg => hg) rfl rfl rfl

theorem reach (h : Lts.Reach (Runner.next cfg) Undisturbed {} r) : Tries cfg r := by
  refine h.invariant_of_reach init ?_
  intro s a s' hreach hs hundisturbed hnext
  exact hs.step (RunnerOk.reach hreach) (JobSteps.reach hreach) hundisturbed
    (runnerStep_of_next hnext)

/-- The counters bound the messages, and a message is sent between two
attempts. -/
theorem attemptsInOrder (h : Tries cfg r) (hok : RunnerOk cfg r) :
    AttemptsInOrder cfg r := by
  refine ⟨fun a r' u i m hnext hsent => ?_, h.bound⟩
  rcases (runnerStep_of_next hnext).sent_eq hok with hsame | ⟨w, i', m', job, hd, hcons⟩
  · rw [hsent] at hsame
    exact absurd hsame (List.cons_ne_self _ _)
  · rw [hsent, List.cons.injEq, Prod.mk.injEq, Prod.mk.injEq] at hcons
    obtain ⟨⟨rfl, rfl, rfl⟩, -⟩ := hcons
    have ha : r.dispatcher.attempt = some (i, m, job) := by rw [hd]; rfl
    have hnone := (hok.pointers.holding w i _ hd).2
    refine ⟨fun e he hstep => ?_, hnone, (h.attempt i m job ha).1⟩
    rcases (hok.attempts.sent e.1 e.2.1 e.2.2 he).2 with
      hended | ⟨item, hitem, -⟩ | ⟨hlate, -⟩
    · exact hended
    · rw [InfoRef.drvPath, hstep, ← InfoRef.drvPath, hnone] at hitem
      cases hitem
    · rw [hd] at hlate
      cases hlate

end Tries

/-! ## Whole runs -/

/-- In every run in which the dispatch loop takes up no step that is being
given up or has left `Steps`, and in which the calls that give a step up
are served, the attempts of a step are in order and bounded. -/
theorem attemptsInOrder_runs (cfg : Config) (r : Runner)
    (hrun : Lts.Reach (Runner.next cfg) Undisturbed {} r) : AttemptsInOrder cfg r :=
  (Tries.reach hrun).attemptsInOrder (RunnerOk.reach hrun)

/-- A failure allows another try, and the step is sent a second time. -/
theorem attemptsInOrder_runs_retry : ∃ r, Lts.Reach (Runner.next Sample.config)
    Undisturbed {} r ∧ r.sentFor Sample.step = 2 ∧ AttemptsInOrder Sample.config r := by
  have hend : (Lts.runWith (Runner.next Sample.config) Undisturbed {}
      (Sample.register :: Sample.created ++ Sample.sent ++ Sample.scheduled ++
        [.completeBuild 0 0 .importFailure {}, .call 0 {}, .call 0 {}] ++
        Sample.sentAgain)).map (fun r => r.sentFor Sample.step) = some 2 := by
    decide +kernel
  obtain ⟨r, hr, he⟩ := Option.map_eq_some_iff.mp hend
  have hrun := Lts.reach_of_runWith hr
  exact ⟨r, hrun, he, attemptsInOrder_runs Sample.config r hrun⟩

/-- The builder reports a failure that allows no other try.  While
`inner_fail_job` waits for the database, the next pass of the dispatch loop
collects the step again.  The call still holds the old step info, so the
queue still has its pointer, and the loop is about to send it. -/
def givenUpAndTakenUp : List Action :=
  Sample.register :: Sample.created ++ Sample.sent ++ Sample.scheduled ++
    [Action.completeBuild 0 0 .buildFailure {}, .call 0 {}, .call 0 {}] ++
    Sample.passEnd ++ Sample.sent.dropLast

/-- The step is sent although it was given up. -/
theorem attemptsInOrder_fails : ¬∀ cfg r,
    Lts.Reach (Runner.next cfg) Lts.anyStep {} r → AttemptsInOrder cfg r := by
  intro h
  have hend : (Lts.run (Runner.next Sample.config) {} givenUpAndTakenUp).map (fun r =>
      (r.shared.log.failed, (r.next Sample.config (.dispatch {})).map (fun r' =>
        decide (r'.shared.log.sent =
          (1, Sample.info, Sample.machine) :: r.shared.log.sent)))) =
      some ([Sample.step], some true) := by decide +kernel
  obtain ⟨r, hr, he⟩ := Option.map_eq_some_iff.mp hend
  simp only [Prod.mk.injEq] at he
  obtain ⟨hfailed, hnext⟩ := he
  obtain ⟨r', hr', hsent⟩ := Option.map_eq_some_iff.mp hnext
  have hnot := ((h _ r (Lts.reach_of_run hr)).sends _ r' _ _ _ hr'
    (of_decide_eq_true hsent)).2.2
  rw [hfailed] at hnot
  exact hnot List.mem_cons_self

end QueueRunner
