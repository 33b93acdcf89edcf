import QueueRunner.Pointers

/-!
# The marks of an attempt

Every attempt that was sent has ended, or runs on the machine it was sent
to, or is still in the hands of the dispatch loop.  A machine has a job
exactly for the items that are scheduled on it, up to the attempt that the
dispatch loop has inserted and not scheduled yet.
-/

namespace QueueRunner

namespace DispatchPc

/-- The attempt that the dispatch loop works on. -/
def attempt : DispatchPc → Option (InfoRef × MachineRef × Job)
  | .realise _ i (.checkCached m job) | .realise _ i (.prepare m job)
  | .realise _ i (.send m job) | .realise _ i (.sent m job)
  | .realise _ i (.schedule m job) => some (i, m, job)
  | _ => none

/-- The message of the attempt has been sent. -/
def late : DispatchPc → Bool
  | .realise _ _ pc => pc.late
  | _ => false

/-- The job of the attempt is in its machine. -/
def inserted : DispatchPc → Bool
  | .realise _ _ (.schedule _ _) => true
  | _ => false

theorem attempt_realise (w : Walk) (i : InfoRef) (pc : RealisePc) :
    (DispatchPc.realise w i pc).attempt = pc.target.map (fun p => (i, p.1, p.2)) := by
  cases pc <;> rfl

theorem late_of_inserted {d : DispatchPc} (h : d.inserted = true) : d.late = true := by
  cases d with
  | realise w i pc => cases pc <;> first | rfl | cases h
  | _ => cases h

theorem eq_schedule_of_inserted {d : DispatchPc} (hins : d.inserted = true)
    {i : InfoRef} {m : MachineRef} {job : Job} (ha : d.attempt = some (i, m, job)) :
    ∃ w, d = .realise w i (.schedule m job) := by
  cases d with
  | realise w i' pc =>
    cases pc <;> first
      | (cases hins; done)
      | (cases ha; exact ⟨w, rfl⟩)
  | _ => cases hins

theorem eq_sent_of_late {d : DispatchPc} (hlate : d.late = true)
    (hins : d.inserted = false) {i : InfoRef} {m : MachineRef} {job : Job}
    (ha : d.attempt = some (i, m, job)) : ∃ w, d = .realise w i (.sent m job) := by
  cases d with
  | realise w i' pc =>
    cases pc <;> first
      | (cases hlate; done)
      | (cases hins; done)
      | (cases ha; exact ⟨w, rfl⟩)
  | _ => cases hlate

theorem attempt_eq_none_of_info {d : DispatchPc} (h : d.info = none) :
    d.attempt = none ∧ d.late = false := by
  cases d with
  | realise w i pc => cases h
  | _ => exact ⟨rfl, rfl⟩

/-- The job whose message is in the channel and that is not in its machine
yet. -/
def sentJob : DispatchPc → Option Job
  | .realise _ _ (.sent _ job) => some job
  | _ => none

/-- The job that is in its machine and whose item is not in `scheduled`
yet. -/
def insertedJob : DispatchPc → Option Job
  | .realise _ _ (.schedule _ job) => some job
  | _ => none

theorem eq_of_sentJob {d : DispatchPc} {job : Job} (h : d.sentJob = some job) :
    ∃ w i m, d = .realise w i (.sent m job) := by
  cases d with
  | realise w i pc => cases pc <;> cases h; exact ⟨w, i, _, rfl⟩
  | _ => cases h

theorem eq_of_insertedJob {d : DispatchPc} {job : Job} (h : d.insertedJob = some job) :
    ∃ w i m, d = .realise w i (.schedule m job) := by
  cases d with
  | realise w i pc => cases pc <;> cases h; exact ⟨w, i, _, rfl⟩
  | _ => cases h

end DispatchPc

/-- Where the attempts that were sent are. -/
structure Attempts (r : Runner) : Prop where
  job : ∀ m, ∀ j ∈ r.shared.jobsOf m,
    (∃ item, r.item j.path = some item ∧ item.machine = m) ∨
      (r.dispatcher.inserted = true ∧ ∃ i, r.dispatcher.attempt = some (i, m, j))
  scheduled : ∀ drv item, r.item drv = some item →
    ∃ j ∈ r.shared.jobsOf item.machine, j.path = drv
  nodup : ∀ m, ((r.shared.jobsOf m).map Job.path).Nodup
  uuid : ∀ m, ∀ j ∈ r.shared.jobsOf m, ∀ m', ∀ j' ∈ r.shared.jobsOf m',
    j.internalBuildId = j'.internalBuildId → m = m' ∧ j = j'
  bound : ∀ m, ∀ j ∈ r.shared.jobsOf m, j.internalBuildId < r.shared.nextUuid
  path : ∀ i m job, r.dispatcher.attempt = some (i, m, job) →
    job.path = i.drvPath ∧ job.internalBuildId < r.shared.nextUuid ∧
      job.internalBuildId ∉ r.shared.log.ended
  inserted : ∀ i m job, r.dispatcher.attempt = some (i, m, job) →
    r.dispatcher.inserted = true → job ∈ r.shared.jobsOf m
  notInserted : ∀ i m job, r.dispatcher.attempt = some (i, m, job) →
    r.dispatcher.inserted = false →
    ∀ m', ∀ j ∈ r.shared.jobsOf m', j.internalBuildId ≠ job.internalBuildId
  notSent : ∀ i m job, r.dispatcher.attempt = some (i, m, job) →
    r.dispatcher.late = false →
    ∀ e ∈ r.shared.log.sent, e.1 ≠ job.internalBuildId
  ended : ∀ u ∈ r.shared.log.ended, u < r.shared.nextUuid ∧
    ∀ m, ∀ j ∈ r.shared.jobsOf m, j.internalBuildId ≠ u
  sent : ∀ u i m, (u, i, m) ∈ r.shared.log.sent → u < r.shared.nextUuid ∧
    (u ∈ r.shared.log.ended ∨
      (∃ item, r.item i.drvPath = some item ∧ item.stepInfo = i ∧
        item.machine = m ∧ ∃ j ∈ r.shared.jobsOf m,
          j.path = i.drvPath ∧ j.internalBuildId = u) ∨
      (r.dispatcher.late = true ∧
        ∃ job, r.dispatcher.attempt = some (i, m, job) ∧
          job.internalBuildId = u))

/-- A step that neither adds nor removes an item, a job or a message. -/
structure SameAttempts (s s' : Shared) : Prop where
  scheduled : s'.queues.scheduled = s.queues.scheduled
  jobsOf : ∀ m, s'.jobsOf m = s.jobsOf m
  sent : s'.log.sent = s.log.sent
  ended : s'.log.ended = s.log.ended
  nextUuid : s.nextUuid ≤ s'.nextUuid

theorem SameMarks.sameAttempts {s s' : Shared} (h : SameMarks s s') :
    SameAttempts s s' :=
  ⟨h.scheduled, h.jobsOf, h.sent, h.ended, h.nextUuid⟩

theorem SameAttempts.of_queues {s : Shared} {q : InnerQueues}
    (h : q.scheduled = s.queues.scheduled) : SameAttempts s { s with queues := q } :=
  ⟨h, fun _ => rfl, rfl, rfl, le_refl _⟩

namespace Attempts

variable {r r' : Runner}

theorem init : Attempts {} := by
  constructor <;> simp [Shared.jobsOf, Runner.item, DispatchPc.attempt]

/-- The job of a scheduled derivation is found on the machine of its item. -/
theorem find_job (h : Attempts r) {drv : StorePath} {item : ScheduledItem}
    (hitem : r.item drv = some item) :
    (r.shared.jobsOf item.machine).find? (fun j => j.path == drv) ≠ none := by
  obtain ⟨j, hj, rfl⟩ := h.scheduled drv item hitem
  intro hnone
  have := List.find?_eq_none.mp hnone j hj
  simp at this

/-- A step that leaves the marks alone: the dispatch loop keeps an attempt
that is late, and goes on with another one or takes a new id. -/
theorem of_same (h : Attempts r) (hsame : SameAttempts r.shared r'.shared)
    (hlate : r'.dispatcher = r.dispatcher ∨
      (r.dispatcher.late = false ∧ r'.dispatcher.late = false))
    (hattempt : ∀ i m job, r'.dispatcher.attempt = some (i, m, job) →
      (∃ job₀, r.dispatcher.attempt = some (i, m, job₀) ∧
        job.internalBuildId = job₀.internalBuildId ∧ job.path = job₀.path) ∨
      (job.internalBuildId = r.shared.nextUuid ∧
        r'.shared.nextUuid = r.shared.nextUuid + 1 ∧ job.path = i.drvPath)) :
    Attempts r' := by
  have hitem : ∀ drv, r'.item drv = r.item drv := fun drv => by
    rw [Runner.item, hsame.scheduled]
  have hjobs : ∀ m, r'.shared.jobsOf m = r.shared.jobsOf m := hsame.jobsOf
  have hnext : ∀ {u}, u < r.shared.nextUuid → u < r'.shared.nextUuid :=
    fun hu => lt_of_lt_of_le hu hsame.nextUuid
  have hkeep : r.dispatcher.late = true → r'.dispatcher = r.dispatcher := by
    intro hl
    rcases hlate with hd | ⟨hl', -⟩
    · exact hd
    · rw [hl] at hl'
      cases hl'
  have hkeep' : r'.dispatcher.late = true → r'.dispatcher = r.dispatcher := by
    intro hl
    rcases hlate with hd | ⟨-, hl'⟩
    · exact hd
    · rw [hl] at hl'
      cases hl'
  refine
    { job := ?_, scheduled := ?_, nodup := ?_, uuid := ?_, bound := ?_
      path := ?_, inserted := ?_, notInserted := ?_, notSent := ?_, ended := ?_
      sent := ?_ }
  · intro m j hj
    rw [hjobs] at hj
    rw [hitem]
    rcases h.job m j hj with hi | ⟨hins, hi⟩
    · exact Or.inl hi
    · rw [hkeep (DispatchPc.late_of_inserted hins)]
      exact Or.inr ⟨hins, hi⟩
  · intro drv item hi
    rw [hitem] at hi
    rw [hjobs]
    exact h.scheduled drv item hi
  · intro m
    rw [hjobs]
    exact h.nodup m
  · intro m j hj m' j' hj'
    rw [hjobs] at hj hj'
    exact h.uuid m j hj m' j' hj'
  · intro m j hj
    rw [hjobs] at hj
    exact hnext (h.bound m j hj)
  · intro i m job ha
    rw [hsame.ended]
    rcases hattempt i m job ha with ⟨job₀, ha₀, hu, hp⟩ | ⟨hu, hn, hp⟩
    · obtain ⟨hpath, hlt, hend⟩ := h.path i m job₀ ha₀
      rw [hu, hp]
      exact ⟨hpath, hnext hlt, hend⟩
    · rw [hu, hn]
      exact ⟨hp, Nat.lt_succ_self _, fun hmem =>
        absurd (h.ended _ hmem).1 (lt_irrefl _)⟩
  · intro i m job ha hins
    have hd := hkeep' (DispatchPc.late_of_inserted hins)
    rw [hd] at ha hins
    rw [hjobs]
    exact h.inserted i m job ha hins
  · intro i m job ha hins m' j hj
    rw [hjobs] at hj
    rcases hattempt i m job ha with ⟨job₀, ha₀, hu, -⟩ | ⟨hu, -, -⟩
    · rw [hu]
      refine h.notInserted i m job₀ ha₀ ?_ m' j hj
      by_contra hne
      rw [Bool.not_eq_false] at hne
      have hd := hkeep (DispatchPc.late_of_inserted hne)
      rw [hd, hne] at hins
      cases hins
    · rw [hu]
      exact Nat.ne_of_lt (h.bound m' j hj)
  · intro i m job ha hl e he
    rw [hsame.sent] at he
    rcases hattempt i m job ha with ⟨job₀, ha₀, hu, -⟩ | ⟨hu, -, -⟩
    · rw [hu]
      refine h.notSent i m job₀ ha₀ ?_ e he
      by_contra hne
      rw [Bool.not_eq_false] at hne
      rw [hkeep hne, hne] at hl
      cases hl
    · rw [hu]
      exact Nat.ne_of_lt (h.sent e.1 e.2.1 e.2.2 he).1
  · intro u hu
    rw [hsame.ended] at hu
    obtain ⟨hlt, hgone⟩ := h.ended u hu
    refine ⟨hnext hlt, fun m j hj => ?_⟩
    rw [hjobs] at hj
    exact hgone m j hj
  · intro u i m hmem
    rw [hsame.sent] at hmem
    rw [hsame.ended, hitem, hjobs]
    obtain ⟨hlt, hcases⟩ := h.sent u i m hmem
    refine ⟨hnext hlt, ?_⟩
    rcases hcases with hc | hc | ⟨hl, hc⟩
    · exact Or.inl hc
    · exact Or.inr (Or.inl hc)
    · rw [hkeep hl]
      exact Or.inr (Or.inr ⟨hl, hc⟩)

/-- A step that leaves the marks and the dispatch loop alone. -/
theorem of_same_loop (h : Attempts r) (hsame : SameAttempts r.shared r'.shared)
    (hd : r'.dispatcher = r.dispatcher) : Attempts r' :=
  h.of_same hsame (Or.inl hd)
    (fun _ _ job ha => Or.inl ⟨job, hd ▸ ha, rfl, rfl⟩)

/-- A step that leaves the marks alone while the dispatch loop has no
attempt. -/
theorem of_same_none (h : Attempts r) (hsame : SameAttempts r.shared r'.shared)
    (hlate : r.dispatcher.late = false) (hd : r'.dispatcher.attempt = none)
    (hlate' : r'.dispatcher.late = false) : Attempts r' :=
  h.of_same hsame (Or.inr ⟨hlate, hlate'⟩) (fun i m job ha => by
    rw [hd] at ha
    cases ha)

/-- The message of the attempt is sent. -/
theorem send (h : Attempts r) {w : Walk} {i : InfoRef} {m : MachineRef} {job : Job}
    (hd : r.dispatcher = .realise w i (.send m job)) :
    Attempts { r with
      shared := { r.shared with log := { r.shared.log with
        sent := (job.internalBuildId, i, m) :: r.shared.log.sent } }
      dispatcher := .realise w i (.sent m job) } := by
  have ha : r.dispatcher.attempt = some (i, m, job) := by rw [hd]; rfl
  have hins : r.dispatcher.inserted = false := by rw [hd]; rfl
  refine
    { job := ?_, scheduled := h.scheduled, nodup := h.nodup, uuid := h.uuid
      bound := h.bound, path := ?_, inserted := ?_, notInserted := ?_
      notSent := ?_, ended := h.ended, sent := ?_ }
  · intro m' j hj
    rcases h.job m' j hj with hi | ⟨hi, -⟩
    · exact Or.inl hi
    · rw [hins] at hi
      cases hi
  · rintro i' m' job' ⟨⟩
    exact h.path i m job ha
  · intro i' m' job' _ hi
    cases hi
  · rintro i' m' job' ⟨⟩ _
    exact h.notInserted i m job ha hins
  · intro i' m' job' _ hl
    cases hl
  · intro u i' m' hmem
    rcases List.mem_cons.mp hmem with he | hmem
    · cases he
      exact ⟨(h.path i m job ha).2.1, Or.inr (Or.inr ⟨rfl, job, rfl, rfl⟩)⟩
    · obtain ⟨hlt, hc | hc | ⟨hl, -⟩⟩ := h.sent u i' m' hmem
      · exact ⟨hlt, Or.inl hc⟩
      · exact ⟨hlt, Or.inr (Or.inl hc)⟩
      · rw [hd] at hl
        cases hl

/-- The jobs after `build_drv` has inserted one. -/
theorem jobsOf_buildDrvSent (s : Shared) (m m' : MachineRef) (job : Job)
    (now : Int) :
    Shared.jobsOf { s with
      machines := s.machines.modifyMachine m (fun r => r.buildDrvSent now job) } m' =
      if m' = m then s.jobsOf m' ++ [job] else s.jobsOf m' := by
  by_cases h : m' = m
  · subst h
    simp only [Shared.jobsOf, Machines.modifyMachine, Function.update_self,
      Machine.buildDrvSent, Machine.insertJob, if_true]
    split_ifs <;> rfl
  · simp [Shared.jobsOf, Machines.modifyMachine, h]

/-- The job of the attempt enters its machine. -/
theorem insertJob (h : Attempts r) {w : Walk} {i : InfoRef} {m : MachineRef}
    {job : Job} (hd : r.dispatcher = .realise w i (.sent m job)) (now : Int)
    (hitem : r.item i.drvPath = none) :
    Attempts { r with
      shared := { r.shared with
        machines := r.shared.machines.modifyMachine m (fun r =>
          r.buildDrvSent now job) }
      dispatcher := .realise w i (.schedule m job) } := by
  have ha : r.dispatcher.attempt = some (i, m, job) := by rw [hd]; rfl
  have hins : r.dispatcher.inserted = false := by rw [hd]; rfl
  obtain ⟨hpath, hlt, hend⟩ := h.path i m job ha
  have hnew := h.notInserted i m job ha hins
  have hmem : ∀ m', ∀ j ∈ Shared.jobsOf { r.shared with
      machines := r.shared.machines.modifyMachine m (fun r =>
        r.buildDrvSent now job) } m', j ∈ r.shared.jobsOf m' ∨ (m' = m ∧ j = job) := by
    intro m' j hj
    rw [jobsOf_buildDrvSent] at hj
    split_ifs at hj with hm
    · rcases List.mem_append.mp hj with hj | hj
      · exact Or.inl hj
      · exact Or.inr ⟨hm, List.mem_singleton.mp hj⟩
    · exact Or.inl hj
  have hold : ∀ m', ∀ j ∈ r.shared.jobsOf m', j ∈ Shared.jobsOf { r.shared with
      machines := r.shared.machines.modifyMachine m (fun r =>
        r.buildDrvSent now job) } m' := by
    intro m' j hj
    rw [jobsOf_buildDrvSent]
    split_ifs
    · exact List.mem_append_left _ hj
    · exact hj
  refine
    { job := ?_, scheduled := ?_, nodup := ?_, uuid := ?_, bound := ?_
      path := ?_, inserted := ?_, notInserted := ?_, notSent := ?_, ended := ?_
      sent := ?_ }
  · intro m' j hj
    rcases hmem m' j hj with hj | ⟨rfl, rfl⟩
    · rcases h.job m' j hj with hi | ⟨hi, -⟩
      · exact Or.inl hi
      · rw [hins] at hi
        cases hi
    · exact Or.inr ⟨rfl, i, rfl⟩
  · intro drv item hi
    obtain ⟨j, hj, hp⟩ := h.scheduled drv item hi
    exact ⟨j, hold _ j hj, hp⟩
  · intro m'
    rw [jobsOf_buildDrvSent]
    split_ifs with hm
    · refine Map.nodup_map_concat (h.nodup m') (fun j hj he => ?_)
      -- a job of this derivation would have its item in `scheduled`
      rcases h.job m' j hj with ⟨item, hi, -⟩ | ⟨hi, -⟩
      · rw [he, hpath, hitem] at hi
        cases hi
      · rw [hins] at hi
        cases hi
    · exact h.nodup m'
  · intro m₁ j₁ hj₁ m₂ j₂ hj₂ he
    rcases hmem m₁ j₁ hj₁ with h₁ | ⟨rfl, rfl⟩ <;>
      rcases hmem m₂ j₂ hj₂ with h₂ | ⟨rfl, rfl⟩
    · exact h.uuid m₁ j₁ h₁ m₂ j₂ h₂ he
    · exact absurd he (hnew m₁ j₁ h₁)
    · exact absurd he.symm (hnew m₂ j₂ h₂)
    · exact ⟨rfl, rfl⟩
  · intro m' j hj
    rcases hmem m' j hj with hj | ⟨rfl, rfl⟩
    · exact h.bound m' j hj
    · exact hlt
  · rintro i' m' job' ⟨⟩
    exact ⟨hpath, hlt, hend⟩
  · rintro i' m' job' ⟨⟩ _
    rw [jobsOf_buildDrvSent, if_pos rfl]
    simp
  · intro i' m' job' _ hi
    cases hi
  · intro i' m' job' _ hl
    cases hl
  · intro u hu
    obtain ⟨hlt', hgone⟩ := h.ended u hu
    refine ⟨hlt', fun m' j hj => ?_⟩
    rcases hmem m' j hj with hj | ⟨rfl, rfl⟩
    · exact hgone m' j hj
    · rintro rfl
      exact hend hu
  · intro u i' m' hs
    obtain ⟨hlt', hc | ⟨item, hi, hinfo, hm, j, hj, hp, hu⟩ | ⟨hl, job', ha', hu⟩⟩ :=
      h.sent u i' m' hs
    · exact ⟨hlt', Or.inl hc⟩
    · exact ⟨hlt', Or.inr (Or.inl ⟨item, hi, hinfo, hm, j, hold _ j hj, hp, hu⟩)⟩
    · rw [ha] at ha'
      cases ha'
      exact ⟨hlt', Or.inr (Or.inr ⟨rfl, job, rfl, hu⟩)⟩

/-- The item of the attempt enters `scheduled`. -/
theorem schedule (h : Attempts r) {w : Walk} {i : InfoRef} {m : MachineRef}
    {job : Job} (hd : r.dispatcher = .realise w i (.schedule m job))
    (hitem : r.item i.drvPath = none) :
    Attempts { r with
      shared := { r.shared with
        queues := r.shared.queues.addJobToScheduled i w.system m }
      dispatcher := .walk w } := by
  have ha : r.dispatcher.attempt = some (i, m, job) := by rw [hd]; rfl
  have hins : r.dispatcher.inserted = true := by rw [hd]; rfl
  obtain ⟨hpath, -, -⟩ := h.path i m job ha
  have hjob := h.inserted i m job ha hins
  have hlookup : ∀ drv, Runner.item { r with
      shared := { r.shared with
        queues := r.shared.queues.addJobToScheduled i w.system m }
      dispatcher := .walk w } drv =
      if drv = i.drvPath then some ⟨i, w.system, m⟩ else r.item drv := by
    intro drv
    simp only [Runner.item, InnerQueues.addJobToScheduled_scheduled,
      Map.lookup_insert_eq]
  refine
    { job := ?_, scheduled := ?_, nodup := h.nodup, uuid := h.uuid
      bound := h.bound, path := ?_, inserted := ?_, notInserted := ?_
      notSent := ?_, ended := h.ended, sent := ?_ }
  · intro m' j hj
    rw [hlookup]
    rcases h.job m' j hj with ⟨item, hi, hm⟩ | ⟨-, i', ha'⟩
    · have hne : j.path ≠ i.drvPath := by
        rintro he
        rw [he, hitem] at hi
        cases hi
      rw [if_neg hne]
      exact Or.inl ⟨item, hi, hm⟩
    · rw [ha] at ha'
      cases ha'
      rw [if_pos hpath]
      exact Or.inl ⟨_, rfl, rfl⟩
  · intro drv item hi
    rw [hlookup] at hi
    split_ifs at hi with hdrv
    · cases hi
      exact ⟨job, hjob, hpath.trans hdrv.symm⟩
    · exact h.scheduled drv item hi
  · intro i' m' job' ha'
    cases ha'
  · intro i' m' job' ha'
    cases ha'
  · intro i' m' job' ha'
    cases ha'
  · intro i' m' job' ha'
    cases ha'
  · intro u i' m' hs
    rw [hlookup]
    obtain ⟨hlt, hc | ⟨item, hi, hinfo, hm, hj⟩ | ⟨-, job', ha', hu⟩⟩ := h.sent u i' m' hs
    · exact ⟨hlt, Or.inl hc⟩
    · have hne : i'.drvPath ≠ i.drvPath := by
        rintro he
        rw [he, hitem] at hi
        cases hi
      rw [if_neg hne]
      exact ⟨hlt, Or.inr (Or.inl ⟨item, hi, hinfo, hm, hj⟩)⟩
    · rw [ha] at ha'
      cases ha'
      rw [if_pos rfl]
      exact ⟨hlt, Or.inr (Or.inl ⟨_, rfl, rfl, rfl, job, hjob, hpath, hu⟩)⟩

/-- An attempt ends: its item and its job go together. -/
theorem ends (h : Attempts r) {drv : StorePath} {item : ScheduledItem} {job : Job}
    (hends : EndsAttempt r.shared r'.shared drv item job)
    (hd : r'.dispatcher = r.dispatcher)
    (hnone : ∀ i m job, r.dispatcher.attempt = some (i, m, job) →
      r.item i.drvPath = none) : Attempts r' := by
  have hitem : ∀ p, r'.item p = if p = drv then none else r.item p := fun p => by
    rw [Runner.item, hends.unscheduled.scheduled, Map.lookup_erase_eq]
  have hfound : r.item drv = some item := hends.unscheduled.found
  have hjob : job ∈ r.shared.jobsOf item.machine := List.mem_of_find?_eq_some hends.found
  have hjobPath : job.path = drv := by simpa using List.find?_some hends.found
  have hmem : ∀ m j, j ∈ r'.shared.jobsOf m ↔
      j ∈ r.shared.jobsOf m ∧ (m = item.machine → j.path ≠ drv) := by
    intro m j
    rw [hends.jobsOf]
    split_ifs with hm
    · simp [hm]
    · simp [hm]
  -- the attempt of the dispatch loop is not the one that ends
  have hother : ∀ i m job', r.dispatcher.attempt = some (i, m, job') →
      job'.path ≠ drv ∧ job.internalBuildId ≠ job'.internalBuildId := by
    intro i m job' ha
    have hne : job'.path ≠ drv := by
      intro he
      rw [(h.path i m job' ha).1] at he
      rw [← he, hnone i m job' ha] at hfound
      cases hfound
    refine ⟨hne, fun hu => ?_⟩
    cases hins : r.dispatcher.inserted with
    | true =>
      have heq := h.uuid _ _ hjob _ _ (h.inserted i m job' ha hins) hu
      exact hne (heq.2 ▸ hjobPath)
    | false => exact h.notInserted i m job' ha hins _ _ hjob hu
  refine
    { job := ?_, scheduled := ?_, nodup := ?_, uuid := ?_, bound := ?_
      path := ?_, inserted := ?_, notInserted := ?_, notSent := ?_, ended := ?_
      sent := ?_ }
  · intro m j hj
    obtain ⟨hj, hne⟩ := (hmem m j).mp hj
    rw [hitem, hd]
    rcases h.job m j hj with ⟨item', hi, hm⟩ | hi
    · have hdrv : j.path ≠ drv := by
        intro he
        rw [he, hfound, Option.some.injEq] at hi
        exact hne (by rw [hi, hm]) he
      rw [if_neg hdrv]
      exact Or.inl ⟨item', hi, hm⟩
    · exact Or.inr hi
  · intro p item' hi
    rw [hitem] at hi
    split_ifs at hi with hp
    obtain ⟨j, hj, hjp⟩ := h.scheduled p item' hi
    exact ⟨j, (hmem _ j).mpr ⟨hj, fun _ => hjp ▸ hp⟩, hjp⟩
  · intro m
    rw [hends.jobsOf]
    split_ifs
    · exact (h.nodup m).sublist (List.filter_sublist.map _)
    · exact h.nodup m
  · intro m j hj m' j' hj'
    exact h.uuid m j ((hmem m j).mp hj).1 m' j' ((hmem m' j').mp hj').1
  · intro m j hj
    rw [hends.nextUuid]
    exact h.bound m j ((hmem m j).mp hj).1
  · intro i m job' ha
    rw [hd] at ha
    obtain ⟨hpath, hlt, hend⟩ := h.path i m job' ha
    rw [hends.nextUuid, hends.ended, List.mem_cons, not_or]
    exact ⟨hpath, hlt, (hother i m job' ha).2.symm, hend⟩
  · intro i m job' ha hins
    rw [hd] at ha hins
    exact (hmem m job').mpr ⟨h.inserted i m job' ha hins, fun _ => (hother i m job' ha).1⟩
  · intro i m job' ha hins m' j hj
    rw [hd] at ha hins
    exact h.notInserted i m job' ha hins m' j ((hmem m' j).mp hj).1
  · intro i m job' ha hl e he
    rw [hd] at ha hl
    rw [hends.sent] at he
    exact h.notSent i m job' ha hl e he
  · intro u hu
    rw [hends.nextUuid]
    rw [hends.ended] at hu
    rcases List.mem_cons.mp hu with rfl | hu
    · refine ⟨h.bound _ _ hjob, fun m j hj hu => ?_⟩
      obtain ⟨hj, hne⟩ := (hmem m j).mp hj
      obtain ⟨rfl, rfl⟩ := h.uuid _ _ hj _ _ hjob hu
      exact hne rfl hjobPath
    · obtain ⟨hlt, hgone⟩ := h.ended u hu
      exact ⟨hlt, fun m j hj => hgone m j ((hmem m j).mp hj).1⟩
  · intro u i m hs
    rw [hends.sent] at hs
    rw [hends.nextUuid, hends.ended, hitem, hd]
    obtain ⟨hlt, hc | ⟨item', hi, hinfo, hm, j, hj, hp, hu⟩ | hc⟩ := h.sent u i m hs
    · exact ⟨hlt, Or.inl (List.mem_cons_of_mem _ hc)⟩
    · refine ⟨hlt, ?_⟩
      by_cases hdrv : i.drvPath = drv
      · -- both jobs are the one of this derivation on this machine
        rw [hdrv, hfound, Option.some.injEq] at hi
        subst hi hm
        have heq : j = job :=
          List.inj_on_of_nodup_map (h.nodup _) hj hjob (by rw [hp, hdrv, hjobPath])
        exact Or.inl (List.mem_cons.mpr (Or.inl (by rw [← hu, heq])))
      · rw [if_neg hdrv]
        exact Or.inr (Or.inl ⟨item', hi, hinfo, hm, j,
          (hmem m j).mpr ⟨hj, fun _ => hp ▸ hdrv⟩, hp, hu⟩)
    · exact ⟨hlt, Or.inr (Or.inr hc)⟩

/-- The derivation of the attempt is not in `scheduled`. -/
theorem item_eq_none {cfg : Config} (hp : Pointers cfg r) {i : InfoRef}
    {m : MachineRef} {job : Job} (ha : r.dispatcher.attempt = some (i, m, job)) :
    r.item i.drvPath = none := by
  cases hd : r.dispatcher with
  | realise w i' pc =>
    rw [hd] at ha
    have hi : i' = i := by
      rw [DispatchPc.attempt_realise] at ha
      simp only [Option.map_eq_some_iff, Prod.mk.injEq] at ha
      exact ha.choose_spec.2.1
    exact hi ▸ (hp.holding w i' pc hd).2
  | _ =>
    rw [hd] at ha
    cases ha

/-- A step of the dispatch loop. -/
theorem dispatch {cfg : Config} (h : Attempts r) (hp : Pointers cfg r)
    {s' : Shared} {d' : DispatchPc}
    (hs : DispatchStep r.shared r.held r.dispatcher s' d') :
    Attempts { r with shared := s', dispatcher := d' } := by
  generalize hd : r.dispatcher = d at hs
  have hidle : r.dispatcher.info = none → r.dispatcher.late = false := fun hi =>
    (DispatchPc.attempt_eq_none_of_info hi).2
  cases hs with
  | other hm hinfo hwalk hcollected htodo =>
    have hd' := DispatchPc.attempt_eq_none_of_info
      (DispatchPc.info_eq_none_of_walk? hwalk)
    exact h.of_same_none hm.sameAttempts (hidle (hd ▸ hinfo)) hd'.1 hd'.2
  | collect now s todo queues ans =>
    exact h.of_same_none (SameMarks.refl _).sameAttempts (by rw [hd]; rfl) rfl rfl
  | insert now queues system jobs cmp hjobs =>
    exact h.of_same_none (.of_queues (by simp)) (by rw [hd]; rfl) rfl rfl
  | scrub hinfo hwalk hcollected htodo =>
    have hd' := DispatchPc.attempt_eq_none_of_info
      (DispatchPc.info_eq_none_of_walk? hwalk)
    exact h.of_same_none (.of_queues rfl) (hidle (hd ▸ hinfo)) hd'.1 hd'.2
  | snapshot w hinfo hjobs =>
    exact h.of_same_none (SameMarks.refl _).sameAttempts (hidle (hd ▸ hinfo)) rfl rfl
  | skip hjobs hm => exact h.of_same_none hm.sameAttempts (by rw [hd]; rfl) rfl rfl
  | cancel hjobs hlive hflag hfin hdep hm =>
    exact h.of_same_none hm.sameAttempts (by rw [hd]; rfl) rfl rfl
  | pick m job ans hjobs hlive hflag hfin hdep hmachine huuid hpath hm hnext =>
    refine h.of_same hm.sameAttempts (Or.inr ⟨by rw [hd]; rfl, rfl⟩) ?_
    rintro i' m' job' ⟨⟩
    exact Or.inr ⟨huuid, hnext, hpath⟩
  | @advance _ w i pc pc' hm hlate hlate' htarget =>
    refine h.of_same hm.sameAttempts (Or.inr ⟨by rw [hd]; exact hlate, hlate'⟩) ?_
    intro i' m job' ha
    rw [DispatchPc.attempt_realise] at ha
    obtain ⟨⟨m', job''⟩, ht, he⟩ := Option.map_eq_some_iff.mp ha
    simp only [Prod.mk.injEq] at he
    obtain ⟨rfl, rfl, rfl⟩ := he
    obtain ⟨job₀, ht₀, hu, hpath⟩ := htarget _ _ ht
    refine Or.inl ⟨job₀, ?_, hu, hpath⟩
    rw [hd, DispatchPc.attempt_realise, ht₀]
    rfl
  | abandon hm hlate =>
    exact h.of_same_none hm.sameAttempts (by rw [hd]; exact hlate) rfl rfl
  | send w i m job hopen => exact h.send hd
  | insertJob w i m job now => exact h.insertJob hd now (hp.holding w i _ hd).2
  | schedule w i m job => exact h.schedule hd (hp.holding w i _ hd).2
  | remove w i =>
    exact h.of_same_none (.of_queues (by simp)) (by rw [hd]; rfl) rfl rfl
  | removeByPath drv hinfo hwalk hcollected htodo =>
    have hd' := DispatchPc.attempt_eq_none_of_info
      (DispatchPc.info_eq_none_of_walk? hwalk)
    exact h.of_same_none (.of_queues rfl) (hidle (hd ▸ hinfo)) hd'.1 hd'.2

/-- A step of a call that ends attempts. -/
theorem call {cfg : Config} (h : Attempts r) (hp : Pointers cfg r) {t : TaskId}
    {task : CallTask} {res : Shared × Option CallTask}
    (hs : CallStep r.shared r.held task res.1 res.2) :
    Attempts (r.setCall t res) := by
  obtain ⟨s', t'⟩ := res
  cases hs with
  | quiet hstart hsame hinfos hpending hkeeps => exact h.of_same_loop hsame.sameAttempts rfl
  | missing a rest hstart ht hlookup hinfos hpending hlast =>
    exact h.of_same_loop ⟨rfl, fun _ => rfl, rfl, rfl, le_refl _⟩ rfl
  | ends a rest item job hstart ht hends hinfos hpending hlast =>
    exact h.ends hends rfl (fun i m job ha => item_eq_none hp ha)
  | jobMissing a rest item hstart ht hitem hnone => exact absurd hnone (h.find_job hitem)
  | removeJob i system hstart hi hremoved hinfos hpending hlast =>
    refine h.of_same_loop ⟨?_, hremoved.jobsOf, hremoved.sent, hremoved.ended,
      hremoved.nextUuid⟩ rfl
    exact hremoved.scheduled.trans (InnerQueues.removeJob_scheduled ..)

end Attempts

/-! ## What a step keeps -/

/-- A step that takes away no item and no job, and after which no call has
answered that it did not find its attempt. -/
structure KeepsAttempts (s s' : Shared) : Prop where
  item : ∀ drv item, s.queues.scheduled.lookup drv = some item →
    s'.queues.scheduled.lookup drv = some item
  jobsOf : ∀ m, ∀ j ∈ s.jobsOf m, j ∈ s'.jobsOf m
  ended : s'.log.ended = s.log.ended
  reported : s'.log.reported = s.log.reported
  answers : ∀ e ∈ s'.log.results, e ∈ s.log.results ∨ e.2.applied = true
  nextUuid : s.nextUuid ≤ s'.nextUuid

theorem SameMarks.keepsAttempts {s s' : Shared} (h : SameMarks s s') :
    KeepsAttempts s s' where
  item drv item hi := by rwa [h.scheduled]
  jobsOf m j hj := by rwa [h.jobsOf]
  ended := h.ended
  reported := h.reported
  answers := h.answers
  nextUuid := h.nextUuid

theorem KeepsAttempts.of_queues {s : Shared} {q : InnerQueues}
    (h : q.scheduled = s.queues.scheduled) : KeepsAttempts s { s with queues := q } :=
  ⟨fun drv item hi => by rwa [h], fun _ _ => id, rfl, rfl, fun _ => Or.inl, le_refl _⟩

/-- The dispatch loop takes no item and no job away. -/
theorem DispatchStep.keepsAttempts {cfg : Config} {r : Runner}
    (hp : Pointers cfg r) {s' : Shared} {d' : DispatchPc}
    (hs : DispatchStep r.shared r.held r.dispatcher s' d') :
    KeepsAttempts r.shared s' := by
  generalize hd : r.dispatcher = d at hs
  cases hs with
  | other hm hinfo hwalk hcollected htodo => exact hm.keepsAttempts
  | collect now s todo queues ans => exact .of_queues rfl
  | insert now queues system jobs cmp hjobs => exact .of_queues (by simp)
  | scrub hinfo hwalk hcollected htodo => exact .of_queues rfl
  | snapshot w hinfo hjobs => exact .of_queues rfl
  | skip hjobs hm => exact hm.keepsAttempts
  | cancel hjobs hlive hflag hfin hdep hm => exact hm.keepsAttempts
  | pick m job ans hjobs hlive hflag hfin hdep hmachine huuid hpath hm hnext =>
    exact hm.keepsAttempts
  | advance hm hlate hlate' htarget => exact hm.keepsAttempts
  | abandon hm hlate => exact hm.keepsAttempts
  | send w i m job hopen =>
    exact ⟨fun _ _ => id, fun _ _ => id, rfl, rfl, fun _ => Or.inl, le_refl _⟩
  | insertJob w i m job now =>
    refine ⟨fun _ _ => id, fun m' j hj => ?_, rfl, rfl, fun _ => Or.inl, le_refl _⟩
    rw [Attempts.jobsOf_buildDrvSent]
    split_ifs
    · exact List.mem_append_left _ hj
    · exact hj
  | schedule w i m job =>
    refine ⟨fun drv item hi => ?_, fun _ _ => id, rfl, rfl, fun _ => Or.inl, le_refl _⟩
    have hne : drv ≠ i.drvPath := by
      rintro rfl
      have hnone := (hp.holding w i _ hd).2
      rw [Runner.item, hi] at hnone
      cases hnone
    rw [InnerQueues.addJobToScheduled_scheduled, Map.lookup_insert_eq, if_neg hne]
    exact hi
  | remove w i => exact .of_queues (by simp)
  | removeByPath drv hinfo hwalk hcollected htodo => exact .of_queues rfl

/-- The dispatch loop registers no machine. -/
theorem DispatchStep.sameRegistry {s s' : Shared} {held : InfoRef → Bool}
    {d d' : DispatchPc} (hs : DispatchStep s held d s' d') :
    s.machines.SameRegistry s'.machines := by
  cases hs with
  | other hm => exact hm.registry
  | skip hjobs hm => exact hm.registry
  | cancel hjobs hlive hflag hfin hdep hm => exact hm.registry
  | pick m job ans hjobs hlive hflag hfin hdep hmachine huuid hpath hm hnext =>
    exact hm.registry
  | advance hm => exact hm.registry
  | abandon hm => exact hm.registry
  | insertJob w i m job now => exact .buildDrvSent ..
  | _ => exact .refl _

/-- The only job that the dispatch loop inserts is the one of its attempt. -/
theorem DispatchStep.jobsOf_cases {s s' : Shared} {held : InfoRef → Bool}
    {d d' : DispatchPc} (hs : DispatchStep s held d s' d') {m : MachineRef} {j : Job}
    (hj : j ∈ s'.jobsOf m) :
    j ∈ s.jobsOf m ∨ ∃ i, d.attempt = some (i, m, j) := by
  cases hs with
  | other hm => exact Or.inl (hm.jobsOf m ▸ hj)
  | skip hjobs hm => exact Or.inl (hm.jobsOf m ▸ hj)
  | cancel hjobs hlive hflag hfin hdep hm => exact Or.inl (hm.jobsOf m ▸ hj)
  | pick m' job ans hjobs hlive hflag hfin hdep hmachine huuid hpath hm hnext =>
    exact Or.inl (hm.jobsOf m ▸ hj)
  | advance hm => exact Or.inl (hm.jobsOf m ▸ hj)
  | abandon hm => exact Or.inl (hm.jobsOf m ▸ hj)
  | insertJob w i m' job now =>
    rw [Attempts.jobsOf_buildDrvSent] at hj
    split_ifs at hj with hm
    · rcases List.mem_append.mp hj with hj | hj
      · exact Or.inl hj
      · rw [List.mem_singleton.mp hj, hm]
        exact Or.inr ⟨i, rfl⟩
    · exact Or.inl hj
  | _ => exact Or.inl hj

/-- Where the attempt of the dispatch loop comes from. -/
theorem DispatchStep.attempt_cases {s s' : Shared} {held : InfoRef → Bool}
    {d d' : DispatchPc} (hs : DispatchStep s held d s' d') {i : InfoRef}
    {m : MachineRef} {job : Job} (ha : d'.attempt = some (i, m, job)) :
    (∃ job', d.attempt = some (i, m, job') ∧
        job.internalBuildId = job'.internalBuildId ∧ job.path = job'.path) ∨
      (d.attempt = none ∧ job.internalBuildId = s.nextUuid ∧ job.path = i.drvPath ∧
        ∃ system order, m ∈ s.machines.candidates system order) := by
  have hnone : ∀ {d' : DispatchPc}, d'.walk? = none → d'.attempt = none := fun hw =>
    (DispatchPc.attempt_eq_none_of_info (DispatchPc.info_eq_none_of_walk? hw)).1
  cases hs with
  | other hm hinfo hwalk hcollected htodo =>
    rw [hnone hwalk] at ha
    cases ha
  | scrub hinfo hwalk hcollected htodo =>
    rw [hnone hwalk] at ha
    cases ha
  | removeByPath drv hinfo hwalk hcollected htodo =>
    rw [hnone hwalk] at ha
    cases ha
  | pick m job ans hjobs hlive hflag hfin hdep hmachine huuid hpath hm hnext =>
    cases ha
    exact Or.inr ⟨rfl, huuid, hpath, _, _, hmachine⟩
  | @advance _ w i' pc pc' hm hlate hlate' htarget =>
    rw [DispatchPc.attempt_realise] at ha
    obtain ⟨⟨m', job'⟩, ht, he⟩ := Option.map_eq_some_iff.mp ha
    simp only [Prod.mk.injEq] at he
    obtain ⟨rfl, rfl, rfl⟩ := he
    obtain ⟨job₀, ht₀, hu, hp⟩ := htarget _ _ ht
    refine Or.inl ⟨job₀, ?_, hu, hp⟩
    rw [DispatchPc.attempt_realise, ht₀]
    rfl
  | send w i' m' job' hopen =>
    cases ha
    exact Or.inl ⟨job, rfl, rfl, rfl⟩
  | insertJob w i' m' job' now =>
    cases ha
    exact Or.inl ⟨job, rfl, rfl, rfl⟩
  | _ => cases ha

/-- The only item that the dispatch loop schedules is the one of its
attempt. -/
theorem DispatchStep.item_cases {s s' : Shared} {held : InfoRef → Bool}
    {d d' : DispatchPc} (hs : DispatchStep s held d s' d') {drv : StorePath}
    {item : ScheduledItem} (hitem : s'.queues.scheduled.lookup drv = some item) :
    s.queues.scheduled.lookup drv = some item ∨
      ∃ w i m job, d = .realise w i (.schedule m job) ∧ drv = i.drvPath ∧
        item = ⟨i, w.system, m⟩ := by
  cases hs with
  | other hm => exact Or.inl (hm.scheduled ▸ hitem)
  | skip hjobs hm => exact Or.inl (hm.scheduled ▸ hitem)
  | cancel hjobs hlive hflag hfin hdep hm => exact Or.inl (hm.scheduled ▸ hitem)
  | pick m job ans hjobs hlive hflag hfin hdep hmachine huuid hpath hm hnext =>
    exact Or.inl (hm.scheduled ▸ hitem)
  | advance hm => exact Or.inl (hm.scheduled ▸ hitem)
  | abandon hm => exact Or.inl (hm.scheduled ▸ hitem)
  | insert now queues system jobs cmp hjobs =>
    exact Or.inl (by simpa using hitem)
  | remove w i => exact Or.inl (by simpa using hitem)
  | schedule w i m job =>
    rw [InnerQueues.addJobToScheduled_scheduled, Map.lookup_insert_eq] at hitem
    split_ifs at hitem with hdrv
    · exact Or.inr ⟨w, i, m, job, rfl, hdrv, (Option.some.inj hitem).symm⟩
    · exact Or.inl hitem
  | _ => exact Or.inl hitem

/-- A message is sent for the attempt of the dispatch loop. -/
theorem DispatchStep.sent_cases {s s' : Shared} {held : InfoRef → Bool}
    {d d' : DispatchPc} (hs : DispatchStep s held d s' d')
    {e : Uuid × InfoRef × MachineRef} (he : e ∈ s'.log.sent) :
    e ∈ s.log.sent ∨ ∃ w i m job, d = .realise w i (.send m job) ∧
      d' = .realise w i (.sent m job) ∧ e = (job.internalBuildId, i, m) := by
  cases hs with
  | other hm => exact Or.inl (hm.sent ▸ he)
  | skip hjobs hm => exact Or.inl (hm.sent ▸ he)
  | cancel hjobs hlive hflag hfin hdep hm => exact Or.inl (hm.sent ▸ he)
  | pick m job ans hjobs hlive hflag hfin hdep hmachine huuid hpath hm hnext =>
    exact Or.inl (hm.sent ▸ he)
  | advance hm => exact Or.inl (hm.sent ▸ he)
  | abandon hm => exact Or.inl (hm.sent ▸ he)
  | send w i m job hopen =>
    rcases List.mem_cons.mp he with he | he
    · exact Or.inr ⟨w, i, m, job, rfl, rfl, he⟩
    · exact Or.inl he
  | _ => exact Or.inl he

/-- How the dispatch loop gets to a message that is sent. -/
theorem DispatchStep.late_cases {s s' : Shared} {held : InfoRef → Bool}
    {d d' : DispatchPc} (hs : DispatchStep s held d s' d') (hl : d'.late = true) :
    ∃ w i m job, (d = .realise w i (.send m job) ∧ d' = .realise w i (.sent m job) ∧
        (s.machines.machine m).receiverOpen = true) ∨
      (d = .realise w i (.sent m job) ∧ d' = .realise w i (.schedule m job)) := by
  have hnone : ∀ {d' : DispatchPc}, d'.walk? = none → d'.late = false := fun hw =>
    (DispatchPc.attempt_eq_none_of_info (DispatchPc.info_eq_none_of_walk? hw)).2
  cases hs with
  | send w i m job hopen => exact ⟨w, i, m, job, Or.inl ⟨rfl, rfl, hopen⟩⟩
  | insertJob w i m job now => exact ⟨w, i, m, job, Or.inr ⟨rfl, rfl⟩⟩
  | advance hm hlate hlate' => exact absurd (hlate'.symm.trans hl) (by decide)
  | other hm hinfo hwalk => exact absurd ((hnone hwalk).symm.trans hl) (by decide)
  | scrub hinfo hwalk => exact absurd ((hnone hwalk).symm.trans hl) (by decide)
  | removeByPath drv hinfo hwalk =>
    exact absurd ((hnone hwalk).symm.trans hl) (by decide)
  | _ => cases hl

/-- From a job that is inserted the loop can only go on to its item. -/
theorem DispatchStep.of_inserted {r : Runner} {s' : Shared} {d' : DispatchPc}
    (hs : DispatchStep r.shared r.held r.dispatcher s' d')
    (hins : r.dispatcher.inserted = true) {i : InfoRef} {m : MachineRef} {job : Job}
    (ha : r.dispatcher.attempt = some (i, m, job)) :
    ∃ w, r.dispatcher = .realise w i (.schedule m job) ∧ d' = .walk w ∧
      s' = { r.shared with
        queues := r.shared.queues.addJobToScheduled i w.system m } := by
  obtain ⟨w, hd⟩ := DispatchPc.eq_schedule_of_inserted hins ha
  refine ⟨w, hd, ?_⟩
  rw [hd] at hs
  cases hs with
  | schedule => exact ⟨rfl, rfl⟩
  | other hm hinfo => cases hinfo
  | scrub hinfo => cases hinfo
  | snapshot w hinfo => cases hinfo
  | removeByPath drv hinfo => cases hinfo
  | advance hm hlate => cases hlate
  | abandon hm hlate => cases hlate

/-! ## The attempts of the calls -/

namespace Runner

variable {r : Runner}

/-- A call has chosen the attempt and has not ended it yet. -/
def Pending (r : Runner) (a : Attempt) : Prop :=
  ∃ t task, r.calls.lookup t = some task ∧ a ∈ task.pending

/-- The attempt is in `scheduled`, and its machine has the job. -/
def Running (r : Runner) (uuid : Uuid) (drv : StorePath) : Prop :=
  ∃ item j, r.item drv = some item ∧ j ∈ r.shared.jobsOf item.machine ∧
    j.path = drv ∧ j.internalBuildId = uuid

/-- The tasks after one of them has been resumed. -/
theorem lookup_setCall (r : Runner) (t t' : TaskId) (res : Shared × Option CallTask) :
    (r.setCall t res).calls.lookup t' = if t' = t then res.2 else r.calls.lookup t' := by
  obtain ⟨s, u⟩ := res
  cases u with
  | none => exact Map.lookup_erase_eq r.calls t' t
  | some u => exact Map.lookup_insert_eq r.calls t' t u

/-- The tasks after one has started. -/
theorem lookup_spawn (r : Runner) (t : TaskId) (res : Shared × Option CallTask) :
    (r.spawn res).calls.lookup t =
      if t = r.nextTask ∧ res.2 ≠ none then res.2 else r.calls.lookup t := by
  obtain ⟨s, u⟩ := res
  cases u with
  | none => simp [spawn]
  | some u => simp [spawn, Map.lookup_insert_eq]

/-- The attempts that the tasks have chosen after one has been resumed. -/
theorem pending_setCall {t : TaskId} {res : Shared × Option CallTask} {a : Attempt}
    (h : (r.setCall t res).Pending a) :
    (∃ t' task, t' ≠ t ∧ r.calls.lookup t' = some task ∧ a ∈ task.pending) ∨
      ∃ u, res.2 = some u ∧ a ∈ u.pending := by
  obtain ⟨t', task, ht', ha⟩ := h
  rw [lookup_setCall] at ht'
  split_ifs at ht' with heq
  · exact Or.inr ⟨task, ht', ha⟩
  · exact Or.inl ⟨t', task, heq, ht', ha⟩

/-- The attempts that the tasks have chosen after one has started. -/
theorem pending_spawn {res : Shared × Option CallTask} {a : Attempt}
    (h : (r.spawn res).Pending a) :
    r.Pending a ∨ ∃ u, res.2 = some u ∧ a ∈ u.pending := by
  obtain ⟨t, task, ht, ha⟩ := h
  rw [lookup_spawn] at ht
  split_ifs at ht with heq
  · exact Or.inr ⟨task, ht, ha⟩
  · exact Or.inl ⟨t, task, ht, ha⟩

end Runner

end QueueRunner
