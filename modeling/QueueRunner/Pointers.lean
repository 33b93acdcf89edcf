import QueueRunner.Effects
import QueueRunner.GraphEffects

/-!
# The pointers to step infos

Which step infos the queues, `scheduled` and the dispatch loop point to,
in every reachable state of the runner.  The central fact is `unique`: of
all pointers in a queue that belong to one derivation, at most one can be
upgraded.  So the info that the dispatch loop picks is not the info of a
derivation that runs already, and two attempts for one derivation never
overlap.
-/

namespace QueueRunner

namespace Runner

variable (r : Runner)

/-- The pointers in the queue of a system. -/
abbrev queueJobs (system : System) : List InfoRef :=
  r.shared.queues.queueJobs system

/-- The item of a derivation in `scheduled`. -/
abbrev item (drv : StorePath) : Option ScheduledItem :=
  r.shared.queues.scheduled.lookup drv

theorem held_iff (i : InfoRef) : r.held i = true ↔
    r.dispatcher.info = some i ∨
      ∃ t task, r.calls.lookup t = some task ∧ i ∈ task.infos := by
  simp only [held, decide_eq_true_eq, Map.mem_values_iff]
  constructor
  · rintro (h | ⟨task, ⟨t, ht⟩, hi⟩)
    · exact Or.inl h
    · exact Or.inr ⟨t, task, ht, hi⟩
  · rintro (h | ⟨t, task, ht, hi⟩)
    · exact Or.inl h
    · exact Or.inr ⟨task, ⟨t, ht⟩, hi⟩

theorem live_iff (i : InfoRef) : r.live i = true ↔ r.held i = true ∨
    (∃ drv, r.shared.queues.jobs.lookup drv = some i) ∨
    ∃ drv item, r.item drv = some item ∧ item.stepInfo = i :=
  InnerQueues.live_iff r.shared.queues r.held i

theorem live_of_item {drv : StorePath} {item : ScheduledItem}
    (h : r.item drv = some item) : r.live item.stepInfo = true :=
  (r.live_iff _).mpr (Or.inr (Or.inr ⟨drv, item, h, rfl⟩))

/-- What the tasks hold after one of them has been resumed. -/
theorem held_setCall {t : TaskId} {res : Shared × Option CallTask} {i : InfoRef}
    (h : (r.setCall t res).held i = true) :
    r.held i = true ∨ ∃ u, res.2 = some u ∧ i ∈ u.infos := by
  rw [held_iff] at h ⊢
  rcases h with h | ⟨t', task, ht', hi⟩
  · exact Or.inl (Or.inl h)
  · simp only [setCall] at ht'
    split at ht'
    · rw [Map.lookup_erase_eq] at ht'
      split_ifs at ht'
      exact Or.inl (Or.inr ⟨t', task, ht', hi⟩)
    · rename_i u hu
      rw [Map.lookup_insert_eq] at ht'
      split_ifs at ht'
      · cases ht'
        exact Or.inr ⟨task, hu, hi⟩
      · exact Or.inl (Or.inr ⟨t', task, ht', hi⟩)

theorem held_spawn {res : Shared × Option CallTask} {i : InfoRef}
    (h : (r.spawn res).held i = true) :
    r.held i = true ∨ ∃ u, res.2 = some u ∧ i ∈ u.infos := by
  unfold spawn at h
  split at h
  · exact Or.inl h
  · rename_i u hu
    rw [held_iff] at h ⊢
    rcases h with h | ⟨t', task, ht', hi⟩
    · exact Or.inl (Or.inl h)
    · simp only [Map.lookup_insert_eq] at ht'
      split_ifs at ht'
      · cases ht'
        exact Or.inr ⟨_, hu, hi⟩
      · exact Or.inl (Or.inr ⟨t', task, ht', hi⟩)

end Runner

theorem DispatchPc.info_eq_none_of_walk? {d : DispatchPc} (h : d.walk? = none) :
    d.info = none := by
  cases d <;> first | rfl | cases h

theorem DispatchPc.collected_eq_empty_of_walk? {d : DispatchPc} {w : Walk}
    (h : d.walk? = some w) : d.collected = ∅ := by
  cases d <;> first | rfl | cases h

/-- The pointers to step infos in a reachable state. -/
structure Pointers (cfg : Config) (r : Runner) : Prop where
  queueFresh : ∀ system, ∀ i ∈ r.queueJobs system, i.gen < r.shared.queues.fresh
  liveFresh : ∀ i, r.live i = true → i.gen < r.shared.queues.fresh
  system : ∀ system, ∀ i ∈ r.queueJobs system,
    (cfg.drvOf i.drvPath).system = system
  unique : ∀ system, ∀ i ∈ r.queueJobs system, ∀ j ∈ r.queueJobs system,
    r.live i = true → r.live j = true → i.drvPath = j.drvPath → i = j
  item : ∀ drv item, r.item drv = some item →
    item.stepInfo.drvPath = drv ∧ item.stepInfo ∈ r.queueJobs item.buildQueue ∧
      (r.shared.queues.info item.stepInfo).alreadyScheduled = true
  walk : ∀ w, r.dispatcher.walk? = some w → ∀ i ∈ w.jobs,
    i.gen < r.shared.queues.fresh ∧ (r.live i = true → i ∈ r.queueJobs w.system)
  holding : ∀ w i pc, r.dispatcher = .realise w i pc →
    i ∈ r.queueJobs w.system ∧ r.item i.drvPath = none
  collected : ∀ system jobs, r.dispatcher.collected.lookup system = some jobs →
    ∀ job ∈ jobs, (cfg.drvOf job.1.drvPath).system = system

/-- A step after which fewer pointers are live and fewer items scheduled,
and which takes no live pointer out of a queue. -/
structure Shrinks (r r' : Runner) : Prop where
  live : ∀ i, r'.live i = true → r.live i = true
  mem : ∀ system, ∀ i ∈ r'.queueJobs system, i ∈ r.queueJobs system
  keeps : ∀ system, ∀ i ∈ r.queueJobs system, r'.live i = true →
    i ∈ r'.queueJobs system
  item : ∀ drv item, r'.item drv = some item → r.item drv = some item
  flag : ∀ drv item, r'.item drv = some item →
    (r'.shared.queues.info item.stepInfo).alreadyScheduled =
      (r.shared.queues.info item.stepInfo).alreadyScheduled
  fresh : r'.shared.queues.fresh = r.shared.queues.fresh

namespace Pointers

variable {cfg : Config} {r r' : Runner}

theorem init : Pointers cfg {} := by
  constructor <;> simp [Runner.queueJobs, Runner.item, InnerQueues.queueJobs, Runner.live,
    InnerQueues.live, Runner.held, DispatchPc.info, DispatchPc.walk?,
    DispatchPc.collected, Map.values, AList.empty_entries]

/-- The key argument: an info that may be picked is not the info of a
derivation that runs. -/
theorem item_eq_none (h : Pointers cfg r) {w : Walk} {i : InfoRef}
    (hmem : i ∈ r.queueJobs w.system) (hlive : r.live i = true)
    (hflag : (r.shared.queues.info i).alreadyScheduled = false) :
    r.item i.drvPath = none := by
  cases hitem : r.item i.drvPath with
  | none => rfl
  | some item =>
    obtain ⟨hpath, hqueue, hset⟩ := h.item _ _ hitem
    have hsystem : item.buildQueue = w.system := by
      rw [← h.system _ _ hqueue, ← h.system _ _ hmem, hpath]
    rw [hsystem] at hqueue
    have heq : item.stepInfo = i :=
      h.unique _ _ hqueue _ hmem (r.live_of_item hitem) hlive hpath
    rw [heq, hflag] at hset
    cases hset

/-- A step that shrinks keeps the pointers, when the dispatch loop stays
within them. -/
theorem shrinks (h : Pointers cfg r) (hs : Shrinks r r')
    (hwalk : ∀ w, r'.dispatcher.walk? = some w → ∀ i ∈ w.jobs,
      i.gen < r.shared.queues.fresh ∧
        (r'.live i = true → i ∈ r.queueJobs w.system))
    (hholding : ∀ w i pc, r'.dispatcher = .realise w i pc →
      i ∈ r.queueJobs w.system ∧ r.item i.drvPath = none)
    (hcollected : ∀ system jobs,
      r'.dispatcher.collected.lookup system = some jobs →
      ∀ job ∈ jobs, (cfg.drvOf job.1.drvPath).system = system) :
    Pointers cfg r' where
  queueFresh system i hi := hs.fresh ▸ h.queueFresh system i (hs.mem _ _ hi)
  liveFresh i hi := hs.fresh ▸ h.liveFresh i (hs.live i hi)
  system system i hi := h.system system i (hs.mem _ _ hi)
  unique system i hi j hj hli hlj :=
    h.unique system i (hs.mem _ _ hi) j (hs.mem _ _ hj) (hs.live i hli) (hs.live j hlj)
  item drv item hitem := by
    obtain ⟨hpath, hmem, hflag⟩ := h.item drv item (hs.item drv item hitem)
    refine ⟨hpath, hs.keeps _ _ hmem (r'.live_of_item hitem), ?_⟩
    rw [hs.flag drv item hitem]
    exact hflag
  walk w hw i hi := by
    obtain ⟨hgen, hmem⟩ := hwalk w hw i hi
    exact ⟨hs.fresh ▸ hgen, fun hl => hs.keeps _ _ (hmem hl) hl⟩
  holding w i pc hd := by
    obtain ⟨hmem, hnone⟩ := hholding w i pc hd
    have hlive : r'.live i = true := by
      rw [Runner.live_iff, Runner.held_iff]
      exact Or.inl (Or.inl (by rw [hd]; rfl))
    refine ⟨hs.keeps _ _ hmem hlive, ?_⟩
    cases hitem : r'.item i.drvPath with
    | none => rfl
    | some item =>
      rw [hs.item _ _ hitem] at hnone
      cases hnone
  collected := hcollected

/-- The dispatch loop stays where it is. -/
theorem shrinks_same (h : Pointers cfg r) (hs : Shrinks r r')
    (hd : r'.dispatcher = r.dispatcher) : Pointers cfg r' := by
  refine h.shrinks hs ?_ ?_ ?_
  · intro w hw i hi
    obtain ⟨hgen, hmem⟩ := h.walk w (hd ▸ hw) i hi
    exact ⟨hgen, fun hl => hmem (hs.live i hl)⟩
  · exact fun w i pc hr => h.holding w i pc (hd ▸ hr)
  · exact fun system jobs hj => h.collected system jobs (hd ▸ hj)

/-- The dispatch loop leaves `process`. -/
theorem shrinks_other (h : Pointers cfg r) (hs : Shrinks r r')
    (hwalk : r'.dispatcher.walk? = none)
    (hcollected : r'.dispatcher.collected = ∅ ∨
      r'.dispatcher.collected = r.dispatcher.collected) : Pointers cfg r' := by
  refine h.shrinks hs ?_ ?_ ?_
  · intro w hw
    rw [hwalk] at hw
    cases hw
  · intro w i pc hr
    rw [hr] at hwalk
    cases hwalk
  · intro system jobs hj
    rcases hcollected with hc | hc
    · simp [hc] at hj
    · exact h.collected system jobs (hc ▸ hj)

/-- The dispatch loop goes on in its queue. -/
theorem shrinks_walk (h : Pointers cfg r) (hs : Shrinks r r') {w w' : Walk}
    (hw : r.dispatcher.walk? = some w) (hw' : r'.dispatcher.walk? = some w')
    (hsystem : w'.system = w.system) (hjobs : ∀ i ∈ w'.jobs, i ∈ w.jobs)
    (hinfo : ∀ i, r'.dispatcher.info = some i →
      i ∈ r.queueJobs w.system ∧ r.item i.drvPath = none) : Pointers cfg r' := by
  refine h.shrinks hs ?_ ?_ ?_
  · intro v hv i hi
    rw [hw', Option.some.injEq] at hv
    subst hv
    obtain ⟨hgen, hmem⟩ := h.walk w hw i (hjobs i hi)
    exact ⟨hgen, fun hl => hsystem ▸ hmem (hs.live i hl)⟩
  · intro v i pc hr
    rw [hr] at hw'
    cases hw'
    rw [hsystem]
    exact hinfo i (by rw [hr]; rfl)
  · intro system jobs hj
    rw [DispatchPc.collected_eq_empty_of_walk? hw'] at hj
    simp at hj

end Pointers

/-! ## Steps that shrink -/

namespace Shrinks

variable {r r' : Runner}

theorem of_sameMarks (hsame : SameMarks r.shared r'.shared)
    (hheld : ∀ i, r'.held i = true → r.live i = true) : Shrinks r r' where
  live i hi := by
    rw [Runner.live_iff] at hi
    rcases hi with hi | hi | hi
    · exact hheld i hi
    · rw [hsame.jobs] at hi
      exact (r.live_iff i).mpr (Or.inr (Or.inl hi))
    · simp only [Runner.item, hsame.scheduled] at hi
      exact (r.live_iff i).mpr (Or.inr (Or.inr hi))
  mem system i hi := by rwa [Runner.queueJobs, hsame.queueJobs] at hi
  keeps system i hi _ := by rwa [Runner.queueJobs, hsame.queueJobs]
  item drv item hi := by rwa [Runner.item, hsame.scheduled] at hi
  flag _ _ _ := hsame.flag _
  fresh := hsame.fresh

theorem trans {r'' : Runner} (h : Shrinks r r') (h' : Shrinks r' r'') :
    Shrinks r r'' where
  live i hi := h.live i (h'.live i hi)
  mem system i hi := h.mem system i (h'.mem system i hi)
  keeps system i hi hl := h'.keeps system i (h.keeps system i hi (h'.live i hl)) hl
  item drv item hi := h.item drv item (h'.item drv item hi)
  flag drv item hi := (h'.flag drv item hi).trans (h.flag drv item (h'.item drv item hi))
  fresh := h'.fresh.trans h.fresh

/-- Nothing becomes live when only strong pointers go. -/
theorem live_of_subset (hheld : ∀ i, r'.held i = true → r.held i = true)
    (hjobs : ∀ drv i, r'.shared.queues.jobs.lookup drv = some i →
      r.shared.queues.jobs.lookup drv = some i)
    (hscheduled : r'.shared.queues.scheduled = r.shared.queues.scheduled)
    {i : InfoRef} (hi : r'.live i = true) : r.live i = true := by
  rw [Runner.live_iff] at hi ⊢
  rcases hi with hi | ⟨drv, hi⟩ | hi
  · exact Or.inl (hheld i hi)
  · exact Or.inr (Or.inl ⟨drv, hjobs drv i hi⟩)
  · simp only [Runner.item, hscheduled] at hi
    exact Or.inr (Or.inr hi)

/-- The queues stay as they are. -/
theorem of_sameQueues (hheld : ∀ i, r'.held i = true → r.held i = true)
    (hqueues : r'.shared.queues = r.shared.queues) : Shrinks r r' where
  live i hi := live_of_subset hheld (fun drv j hj => hqueues ▸ hj)
    (by rw [hqueues]) hi
  mem system i hi := by rwa [Runner.queueJobs, hqueues] at hi
  keeps system i hi _ := by rwa [Runner.queueJobs, hqueues]
  item drv item hi := by rwa [Runner.item, hqueues] at hi
  flag _ _ _ := by rw [hqueues]
  fresh := by rw [hqueues]

/-- `remove_all_weak_pointer`. -/
theorem of_removeAllWeakPointer (hheld : ∀ i, r'.held i = true → r.held i = true)
    (hqueues : r'.shared.queues = r.shared.queues.removeAllWeakPointer r.held) :
    Shrinks r r' := by
  have hlive : ∀ i, r'.live i = true → r.live i = true := fun i hi =>
    live_of_subset hheld (fun drv j hj => by rwa [hqueues] at hj)
      (by rw [hqueues]; rfl) hi
  refine
    { live := hlive, mem := ?_, keeps := ?_
      item := fun drv item hi => by rwa [Runner.item, hqueues] at hi
      flag := fun _ _ _ => by rw [hqueues]; rfl
      fresh := by rw [hqueues]; rfl }
  · intro system i hi
    rw [Runner.queueJobs, hqueues, InnerQueues.queueJobs_removeAllWeakPointer] at hi
    exact List.mem_of_mem_filter hi
  · intro system i hi hl
    rw [Runner.queueJobs, hqueues, InnerQueues.queueJobs_removeAllWeakPointer]
    exact List.mem_filter.mpr ⟨hi, hlive i hl⟩

/-- `remove_job_by_path`. -/
theorem of_removeJobByPath (hheld : ∀ i, r'.held i = true → r.held i = true)
    {drv : StorePath}
    (hqueues : r'.shared.queues = r.shared.queues.removeJobByPath drv) :
    Shrinks r r' := by
  refine
    { live := fun i hi => live_of_subset hheld (fun p j hj => ?_)
        (by rw [hqueues]; rfl) hi
      mem := fun system i hi => by rwa [Runner.queueJobs, hqueues] at hi
      keeps := fun system i hi _ => by rwa [Runner.queueJobs, hqueues]
      item := fun drv item hi => by rwa [Runner.item, hqueues] at hi
      flag := fun _ _ _ => by rw [hqueues]; rfl
      fresh := by rw [hqueues]; rfl }
  rw [hqueues, InnerQueues.removeJobByPath, Map.lookup_erase_eq] at hj
  split_ifs at hj
  exact hj

/-- `remove_job`. -/
theorem of_removeJob (hheld : ∀ i, r'.held i = true → r.held i = true)
    {j : InfoRef} {system : System}
    (hqueues : r'.shared.queues = r.shared.queues.removeJob r.held j system) :
    Shrinks r r' := by
  have hjobs : ∀ drv i, r'.shared.queues.jobs.lookup drv = some i →
      r.shared.queues.jobs.lookup drv = some i := by
    intro drv i hi
    rw [hqueues, InnerQueues.removeJob_jobs, Map.lookup_erase_eq] at hi
    split_ifs at hi
    exact hi
  refine
    { live := fun i hi => live_of_subset hheld hjobs
        (by rw [hqueues, InnerQueues.removeJob_scheduled]) hi
      mem := ?_, keeps := ?_
      item := fun drv item hi => by
        rwa [Runner.item, hqueues, InnerQueues.removeJob_scheduled] at hi
      flag := fun _ _ _ => by rw [hqueues, InnerQueues.removeJob_info]
      fresh := by rw [hqueues, InnerQueues.removeJob_fresh] }
  · intro system' i hi
    rw [Runner.queueJobs, hqueues, InnerQueues.queueJobs_removeJob] at hi
    split_ifs at hi
    · exact List.mem_of_mem_filter hi
    · exact hi
  · intro system' i hi hl
    rw [Runner.queueJobs, hqueues, InnerQueues.queueJobs_removeJob]
    split_ifs
    · refine List.mem_filter.mpr ⟨hi, ?_⟩
      rw [Runner.live_iff] at hl
      rw [InnerQueues.live_iff]
      rcases hl with hl | ⟨drv, hl⟩ | hl
      · exact Or.inl (hheld i hl)
      · rw [hqueues, InnerQueues.removeJob_jobs] at hl
        exact Or.inr (Or.inl ⟨drv, hl⟩)
      · simp only [Runner.item, hqueues, InnerQueues.removeJob_scheduled] at hl
        exact Or.inr (Or.inr hl)
    · exact hi

/-- An attempt ends, and the task that ends it keeps the item. -/
theorem of_ends {drv : StorePath} {item : ScheduledItem} {job : Job}
    (hends : EndsAttempt r.shared r'.shared drv item job)
    (hheld : ∀ i, r'.held i = true → r.held i = true ∨ i = item.stepInfo)
    (hpath : ∀ p it, r.item p = some it → it.stepInfo.drvPath = p) :
    Shrinks r r' := by
  have hitem : ∀ p it, r'.item p = some it → p ≠ drv ∧ r.item p = some it := by
    intro p it hi
    rw [Runner.item, hends.unscheduled.scheduled, Map.lookup_erase_eq] at hi
    split_ifs at hi with hp
    exact ⟨hp, hi⟩
  refine
    { live := ?_
      mem := fun system i hi => by
        rwa [Runner.queueJobs, hends.unscheduled.queueJobs] at hi
      keeps := fun system i hi _ => by
        rwa [Runner.queueJobs, hends.unscheduled.queueJobs]
      item := fun p it hi => (hitem p it hi).2
      flag := ?_
      fresh := hends.unscheduled.fresh }
  · intro i hi
    rw [Runner.live_iff] at hi
    rcases hi with hi | hi | ⟨p, it, hp, he⟩
    · rcases hheld i hi with hi | rfl
      · exact (r.live_iff i).mpr (Or.inl hi)
      · exact r.live_of_item hends.unscheduled.found
    · rw [hends.unscheduled.jobs] at hi
      exact (r.live_iff i).mpr (Or.inr (Or.inl hi))
    · exact (r.live_iff i).mpr (Or.inr (Or.inr ⟨p, it, (hitem p it hp).2, he⟩))
  · intro p it hi
    obtain ⟨hp, hit⟩ := hitem p it hi
    have hne : it.stepInfo ≠ item.stepInfo := by
      intro he
      have hdrv := hpath drv item hends.unscheduled.found
      rw [← he, hpath p it hit] at hdrv
      exact hp hdrv
    rw [hends.unscheduled.info, Function.update_of_ne hne]

end Shrinks

/-! ## The insertion of jobs -/

namespace InnerQueues

/-- No two live pointers of the list belong to one derivation. -/
def UniqueLive (live : InfoRef → Bool) (l : List InfoRef) : Prop :=
  ∀ i ∈ l, ∀ j ∈ l, live i = true → live j = true → i.drvPath = j.drvPath → i = j

/-- The duplicate test of `BuildQueue::insert_new_jobs` keeps the live
pointers unique. -/
theorem uniqueLive_foldl_pushJob (live : InfoRef → Bool)
    (info : InfoRef → StepInfo) (now : Timestamp) (js : List InfoRef)
    (acc : List InfoRef × UInt64) (h : UniqueLive live acc.1) :
    UniqueLive live (js.foldl (BuildQueue.pushJob live info now) acc).1 := by
  induction js generalizing acc with
  | nil => exact h
  | cons j js ih =>
    rw [List.foldl_cons]
    apply ih
    unfold BuildQueue.pushJob
    split_ifs with hj hany
    · exact h
    · have hnew : ∀ v ∈ acc.1, live v = true → v.drvPath ≠ j.drvPath := by
        intro v hv hl he
        exact hany (List.any_eq_true.mpr ⟨v, hv, by simp [hl, he]⟩)
      intro a ha b hb hla hlb he
      rcases List.mem_append.mp ha with ha | ha <;>
        rcases List.mem_append.mp hb with hb | hb
      · exact h a ha b hb hla hlb he
      · rw [List.mem_singleton.mp hb] at he ⊢
        exact absurd he (hnew a ha hla)
      · rw [List.mem_singleton.mp ha] at he ⊢
        exact absurd he.symm (hnew b hb hlb)
      · rw [List.mem_singleton.mp ha, List.mem_singleton.mp hb]
    · exact h

end InnerQueues

namespace Pointers

variable {cfg : Config} {r r' : Runner}

/-- `insert_new_jobs`, called by the dispatch loop. -/
theorem insert (h : Pointers cfg r) {now : Timestamp} {queues : NewQueues}
    {system : System} {jobs : List (StepRef × StepInfo)}
    {cmp : InfoRef → InfoRef → Ordering}
    (hd : r.dispatcher = .insert now queues)
    (hjobs : queues.lookup system = some jobs) :
    Pointers cfg { r with
      shared := { r.shared with
        queues := r.shared.queues.insertNewJobs r.held
          (fun s => (r.shared.graph.step s).finished) cmp system jobs now }
      dispatcher := .insert now (queues.erase system) } := by
  set q := r.shared.queues with hq
  set finished := fun s => (r.shared.graph.step s).finished with hfin
  set q' := q.insertNewJobs r.held finished cmp system jobs now with hq'
  set r' : Runner := { r with
    shared := { r.shared with queues := q' }
    dispatcher := .insert now (queues.erase system) } with hr'
  have hsub := InnerQueues.submitted_submitJobs q finished jobs
  set new := (q.submitJobs finished jobs).2 with hnew
  have hheld : r'.held = r.held := by
    funext i
    rw [Bool.eq_iff_iff, Runner.held_iff, Runner.held_iff]
    simp [hr', hd, DispatchPc.info]
  have hlive : ∀ i, r'.live i = (q.submitJobs finished jobs).1.live r.held i := by
    intro i
    rw [Runner.live, hheld]
    exact congrFun (InnerQueues.live_congr (by simp [hr', hq']) (by
      simp [hr', hq', hsub.scheduled]) r.held) i
  have hold : ∀ i, i.gen < q.fresh → r'.live i = r.live i := fun i hi => by
    rw [hlive, hsub.live_old r.held hi]
    rfl
  have hcases : ∀ i, r'.live i = true → r.live i = true ∨ i ∈ new := by
    intro i hi
    rw [Runner.live_iff, hheld] at hi
    rw [Runner.live_iff]
    rcases hi with hi | ⟨drv, hi⟩ | hi
    · exact Or.inl (Or.inl hi)
    · simp only [hr', hq', InnerQueues.insertNewJobs_jobs, hsub.lookup] at hi
      exact hi.imp (fun hi => Or.inr (Or.inl ⟨drv, hi⟩)) And.left
    · simp only [hr', hq', Runner.item, InnerQueues.insertNewJobs_scheduled] at hi
      exact Or.inl (Or.inr (Or.inr hi))
  have hfresh : r'.shared.queues.fresh = (q.submitJobs finished jobs).1.fresh := by
    simp [hr', hq']
  refine
    { queueFresh := ?_, liveFresh := ?_, system := ?_, unique := ?_, item := ?_
      walk := by simp [hr', DispatchPc.walk?]
      holding := by simp [hr']
      collected := ?_ }
  · intro system' i hi
    rw [hfresh]
    rcases InnerQueues.mem_queueJobs_insertNewJobs _ _ _ _ _ _ _ hi with
      hi | ⟨-, hi⟩
    · exact lt_of_lt_of_le (h.queueFresh system' i hi) hsub.fresh_le
    · exact (hsub.gen i hi).2
  · intro i hi
    rw [hfresh]
    rcases hcases i hi with hi | hi
    · exact lt_of_lt_of_le (h.liveFresh i hi) hsub.fresh_le
    · exact (hsub.gen i hi).2
  · intro system' i hi
    rcases InnerQueues.mem_queueJobs_insertNewJobs _ _ _ _ _ _ _ hi with
      hi | ⟨hs, hi⟩
    · exact h.system system' i hi
    · obtain ⟨-, info, hmem, -⟩ := hsub.origin i hi
      rw [hs]
      exact h.collected system jobs (by rw [hd]; exact hjobs) _ hmem
  · intro system'
    by_cases hs : system' = system
    · subst hs
      have hu : InnerQueues.UniqueLive r'.live (q.queueJobs system') := by
        intro i hi j hj hli hlj
        rw [hold i (h.queueFresh _ i hi)] at hli
        rw [hold j (h.queueFresh _ j hj)] at hlj
        exact h.unique system' i hi j hj hli hlj
      have hfun : r'.live = (q.submitJobs finished jobs).1.live r.held := funext hlive
      rw [hfun] at hu
      have hpush := InnerQueues.uniqueLive_foldl_pushJob _
        (q.submitJobs finished jobs).1.info now new (q.queueJobs system', 0) hu
      intro i hi j hj hli hlj
      rw [hlive] at hli hlj
      exact hpush i (List.mem_of_mem_filter
          ((InnerQueues.queueJobs_insertNewJobs_perm ..).mem_iff.mp hi)) j
        (List.mem_of_mem_filter
          ((InnerQueues.queueJobs_insertNewJobs_perm ..).mem_iff.mp hj)) hli hlj
    · intro i hi j hj hli hlj
      simp only [hr', hq', Runner.queueJobs,
        InnerQueues.queueJobs_insertNewJobs_of_ne _ _ _ _ _ _ _ hs] at hi hj
      rw [hold i (h.queueFresh _ i hi)] at hli
      rw [hold j (h.queueFresh _ j hj)] at hlj
      exact h.unique system' i hi j hj hli hlj
  · intro drv item hitem
    simp only [hr', hq', Runner.item, InnerQueues.insertNewJobs_scheduled] at hitem
    obtain ⟨hpath, hmem, hflag⟩ := h.item drv item hitem
    have hgen := h.queueFresh _ _ hmem
    refine ⟨hpath, ?_, ?_⟩
    · refine InnerQueues.queueJobs_insertNewJobs_of_live _ _ _ _ _ _ _ hmem ?_
      rw [hsub.live_old r.held hgen]
      exact r.live_of_item hitem
    · simp only [hr', hq', InnerQueues.insertNewJobs_info, hsub.info_old _ hgen]
      exact hflag
  · intro system' jobs' hjobs'
    simp only [hr', DispatchPc.collected, Map.lookup_erase_eq] at hjobs'
    split_ifs at hjobs'
    exact h.collected system' jobs' (by rw [hd]; exact hjobs')

/-- `add_job_to_scheduled`, called by the dispatch loop. -/
theorem schedule (h : Pointers cfg r) {w : Walk} {i : InfoRef} {m : MachineRef}
    {job : Job} (hd : r.dispatcher = .realise w i (.schedule m job)) :
    Pointers cfg { r with
      shared := { r.shared with
        queues := r.shared.queues.addJobToScheduled i w.system m }
      dispatcher := .walk w } := by
  set r' : Runner := { r with
    shared := { r.shared with
      queues := r.shared.queues.addJobToScheduled i w.system m }
    dispatcher := .walk w } with hr'
  obtain ⟨hmem, hnone⟩ := h.holding w i _ hd
  have hqueue : ∀ system, r'.queueJobs system = r.queueJobs system := by
    intro system
    simp [hr', Runner.queueJobs]
  have hfresh : r'.shared.queues.fresh = r.shared.queues.fresh := by simp [hr']
  have hitem : ∀ drv it, r'.item drv = some it →
      (drv = i.drvPath ∧ it = ⟨i, w.system, m⟩) ∨
        (drv ≠ i.drvPath ∧ r.item drv = some it) := by
    intro drv it hit
    simp only [hr', Runner.item, InnerQueues.addJobToScheduled_scheduled,
      Map.lookup_insert_eq] at hit
    split_ifs at hit with hdrv
    · cases hit
      exact Or.inl ⟨hdrv, rfl⟩
    · exact Or.inr ⟨hdrv, hit⟩
  have hlive : ∀ j, r'.live j = true → r.live j = true := by
    intro j hj
    rw [Runner.live_iff, Runner.held_iff] at hj
    rw [Runner.live_iff, Runner.held_iff]
    rcases hj with (hj | hj) | hj | ⟨drv, it, hit, he⟩
    · cases hj
    · exact Or.inl (Or.inr hj)
    · simp only [hr', InnerQueues.addJobToScheduled_jobs] at hj
      exact Or.inr (Or.inl hj)
    · rcases hitem drv it hit with ⟨-, rfl⟩ | ⟨-, hit⟩
      · exact Or.inl (Or.inl (by rw [hd, ← he]; rfl))
      · exact Or.inr (Or.inr ⟨drv, it, hit, he⟩)
  refine
    { queueFresh := fun system j hj => ?_, liveFresh := fun j hj => ?_
      system := fun system j hj => ?_, unique := fun system j hj k hk hlj hlk => ?_
      item := ?_, walk := ?_, holding := by simp [hr']
      collected := by simp [hr', DispatchPc.collected] }
  · rw [hfresh]
    exact h.queueFresh system j (hqueue system ▸ hj)
  · rw [hfresh]
    exact h.liveFresh j (hlive j hj)
  · exact h.system system j (hqueue system ▸ hj)
  · exact h.unique system j (hqueue system ▸ hj) k (hqueue system ▸ hk)
      (hlive j hlj) (hlive k hlk)
  · intro drv it hit
    rw [hqueue]
    rcases hitem drv it hit with ⟨rfl, rfl⟩ | ⟨hne, hit⟩
    · exact ⟨rfl, hmem, by simp [hr']⟩
    · obtain ⟨hpath, hin, hflag⟩ := h.item drv it hit
      have hne' : it.stepInfo ≠ i := by
        rintro rfl
        exact hne hpath.symm
      refine ⟨hpath, hin, ?_⟩
      simp only [hr', InnerQueues.addJobToScheduled_info,
        Function.update_of_ne hne']
      exact hflag
  · rintro w' ⟨⟩ j hj
    rw [hfresh, hqueue]
    obtain ⟨hgen, hin⟩ := h.walk w (by rw [hd]; rfl) j hj
    exact ⟨hgen, fun hl => hin (hlive j hl)⟩

/-- The dispatch loop picks an info. -/
theorem picked (h : Pointers cfg r) {w : Walk} {i : InfoRef}
    {jobs : List InfoRef} {s' : Shared} {pc : RealisePc}
    (hd : r.dispatcher = .walk w) (hjobs : w.jobs = i :: jobs)
    (hlive : r.live i = true)
    (hflag : (r.shared.queues.info i).alreadyScheduled = false)
    (hm : SameMarks r.shared s') :
    Pointers cfg { r with
      shared := s'
      dispatcher := .realise { w with jobs := jobs } i pc } := by
  have hw : r.dispatcher.walk? = some w := by rw [hd]; rfl
  have hmem : i ∈ r.queueJobs w.system :=
    (h.walk w hw i (by rw [hjobs]; simp)).2 hlive
  refine h.shrinks_walk (.of_sameMarks hm ?_) hw rfl rfl ?_ ?_
  · intro j hj
    rw [Runner.held_iff] at hj
    rcases hj with hj | hj
    · cases hj
      exact hlive
    · exact (r.live_iff j).mpr (Or.inl ((r.held_iff j).mpr (Or.inr hj)))
  · exact fun j hj => hjobs ▸ List.mem_cons_of_mem _ hj
  · rintro j ⟨⟩
    exact ⟨hmem, h.item_eq_none hmem hlive hflag⟩

/-- A step of the dispatch loop. -/
theorem dispatch (h : Pointers cfg r) (hok : GraphOk cfg r.shared.graph)
    {s' : Shared} {d' : DispatchPc}
    (hs : DispatchStep r.shared r.held r.dispatcher s' d') :
    Pointers cfg { r with shared := s', dispatcher := d' } := by
  -- an info that the loop does not hold after the step was held before
  have hheld : ∀ {s'} {d' : DispatchPc}, d'.info = none ∨
      d'.info = r.dispatcher.info →
      ∀ i, ({ r with shared := s', dispatcher := d' } : Runner).held i = true →
        r.held i = true := by
    intro s' d' hd i hi
    rw [Runner.held_iff] at hi ⊢
    rcases hi with hi | hi
    · rcases hd with hd | hd
      · simp only [hd] at hi
        cases hi
      · exact Or.inl (hd ▸ hi)
    · exact Or.inr hi
  have hsame : ∀ {s'} {d' : DispatchPc}, SameMarks r.shared s' →
      (d'.info = none ∨ d'.info = r.dispatcher.info) →
      Shrinks r { r with shared := s', dispatcher := d' } := fun hm hd =>
    .of_sameMarks hm (fun i hi => (r.live_iff i).mpr (Or.inl (hheld hd i hi)))
  generalize hd : r.dispatcher = d at hs
  cases hs with
  | other hm hinfo hwalk hcollected htodo =>
    refine h.shrinks_other (hsame hm (Or.inl ?_)) hwalk (hd ▸ hcollected)
    exact DispatchPc.info_eq_none_of_walk? hwalk
  | collect now s todo queues ans =>
    refine h.shrinks (hsame (.refl _) (Or.inl rfl)) (by simp [DispatchPc.walk?])
      (by simp) ?_
    intro system jobs hj job hjob
    simp only [DispatchPc.collected, collectStep] at hj
    have hold : ∀ system jobs, queues.lookup system = some jobs →
        ∀ job ∈ jobs, (cfg.drvOf job.1.drvPath).system = system :=
      fun system jobs hj => h.collected system jobs (by rw [hd]; exact hj)
    split at hj
    · exact hold system jobs hj job hjob
    · rename_i sys hsys
      split_ifs at hj
      · exact hold system jobs hj job hjob
      · simp only [Map.lookup_insert_eq] at hj
        split_ifs at hj with hs
        · cases hj
          rcases List.mem_append.mp hjob with hjob | hjob
          · cases hl : queues.lookup sys with
            | none => simp [hl] at hjob
            | some l =>
              rw [hl] at hjob
              exact hs ▸ hold sys l hl job hjob
          · rw [List.mem_singleton.mp hjob]
            obtain ⟨d, hdrv, rfl⟩ := Option.map_eq_some_iff.mp hsys
            rw [hs, hok.drv s d hdrv]
        · exact hold system jobs hj job hjob
  | insert now queues system jobs cmp hjobs => exact h.insert hd hjobs
  | scrub hinfo hwalk hcollected htodo =>
    refine h.shrinks_other (.of_removeAllWeakPointer (hheld (Or.inl ?_)) rfl) hwalk
      (Or.inl hcollected)
    exact DispatchPc.info_eq_none_of_walk? hwalk
  | snapshot w hinfo hjobs =>
    refine h.shrinks (hsame (.refl _) (Or.inl rfl)) ?_ (by simp)
      (by simp [DispatchPc.collected])
    rintro w' ⟨⟩ i hi
    rcases hjobs with hjobs | hjobs
    · rw [hjobs] at hi
      exact ⟨h.queueFresh _ i hi, fun _ => hi⟩
    · rw [hjobs] at hi
      cases hi
  | @skip _ w i jobs hjobs hm =>
    have hw : r.dispatcher.walk? = some w := by rw [hd]; rfl
    refine h.shrinks_walk (hsame hm (Or.inl rfl)) hw rfl rfl ?_
      (by simp [DispatchPc.info])
    exact fun j hj => hjobs ▸ List.mem_cons_of_mem _ hj
  | @cancel _ w i jobs hjobs hlive hflag hfin hdep hm =>
    exact h.picked hd hjobs hlive hflag hm
  | @pick _ w i jobs m job ans hjobs hlive hflag hfin hdep hmachine huuid hpath hm hnext =>
    exact h.picked hd hjobs hlive hflag hm
  | @advance _ w i pc pc' hm hlate hlate' htarget =>
    refine h.shrinks_walk (hsame hm (Or.inr (by rw [hd]; rfl))) (by rw [hd]; rfl)
      rfl rfl (fun _ => id) ?_
    rintro j ⟨⟩
    exact h.holding w i pc hd
  | @abandon _ w i pc hm hlate =>
    exact h.shrinks_walk (hsame hm (Or.inl rfl)) (by rw [hd]; rfl) rfl rfl
      (fun _ => id) (by simp [DispatchPc.info])
  | send w i m job hopen =>
    refine h.shrinks_walk (.of_sameQueues (hheld (Or.inr (by rw [hd]; rfl))) rfl)
      (by rw [hd]; rfl) rfl rfl (fun _ => id) ?_
    rintro j ⟨⟩
    exact h.holding w i _ hd
  | insertJob w i m job now =>
    refine h.shrinks_walk (.of_sameQueues (hheld (Or.inr (by rw [hd]; rfl))) rfl)
      (by rw [hd]; rfl) rfl rfl (fun _ => id) ?_
    rintro j ⟨⟩
    exact h.holding w i _ hd
  | schedule w i m job => exact h.schedule hd
  | remove w i =>
    exact h.shrinks_walk (.of_removeJob (hheld (Or.inl rfl)) rfl)
      (by rw [hd]; rfl) rfl rfl (fun _ => id) (by simp [DispatchPc.info])
  | removeByPath drv hinfo hwalk hcollected htodo =>
    refine h.shrinks_other (.of_removeJobByPath (hheld (Or.inl ?_)) rfl) hwalk
      (Or.inl hcollected)
    exact DispatchPc.info_eq_none_of_walk? hwalk

/-- A call that ends attempts makes nothing live. -/
theorem shrinks_call (h : Pointers cfg r) {t : TaskId} {task : CallTask}
    {res : Shared × Option CallTask} (ht : r.calls.lookup t = some task)
    (hjob : ∀ drv item, r.item drv = some item →
      (r.shared.jobsOf item.machine).find? (fun j => j.path == drv) ≠ none)
    (hs : CallStep r.shared r.held task res.1 res.2) : Shrinks r (r.setCall t res) := by
  have htask : ∀ i ∈ task.infos, r.held i = true := fun i hi =>
    (r.held_iff i).mpr (Or.inr ⟨t, task, ht, hi⟩)
  have hlive : ∀ i, r.held i = true → r.live i = true := fun i hi =>
    (r.live_iff i).mpr (Or.inl hi)
  obtain ⟨s', t'⟩ := res
  cases hs with
  | quiet hstart hsame hinfos hpending hkeeps =>
    refine .of_sameMarks hsame fun i hi => ?_
    rcases r.held_setCall hi with hi | ⟨u, hu, hi⟩
    · exact hlive i hi
    · rcases hinfos u hu i hi with hi | ⟨drv, item, hitem, rfl⟩
      · exact hlive i (htask i hi)
      · exact r.live_of_item hitem
  | missing a rest hstart hp hlookup hinfos hpending hlast =>
    refine .of_sameQueues (fun i hi => ?_) rfl
    rcases r.held_setCall hi with hi | ⟨u, hu, hi⟩
    · exact hi
    · rw [hinfos u hu] at hi
      cases hi
  | ends a rest item job hstart hp hends hinfos hpending hlast =>
    refine .of_ends hends (fun i hi => ?_) (fun p it hit => (h.item p it hit).1)
    rcases r.held_setCall hi with hi | ⟨u, hu, hi⟩
    · exact Or.inl hi
    · exact Or.inr (hinfos u hu i hi)
  | jobMissing a rest item hstart hp hitem hnone => exact absurd hnone (hjob _ _ hitem)
  | removeJob i system hstart hi hremoved hinfos hpending hlast =>
    have hmid : Shrinks r { r with shared := { r.shared with
        queues := r.shared.queues.removeJob r.held i system } } :=
      .of_removeJob (fun _ => id) rfl
    refine hmid.trans (.of_sameMarks hremoved fun j hj => ?_)
    refine (Runner.live_iff _ j).mpr (Or.inl ?_)
    rcases r.held_setCall hj with hj | ⟨u, hu, hj⟩
    · exact hj
    · exact htask j (hinfos u hu j hj)

/-- A step of a call that ends attempts. -/
theorem call (h : Pointers cfg r) {t : TaskId} {task : CallTask}
    {res : Shared × Option CallTask} (ht : r.calls.lookup t = some task)
    (hjob : ∀ drv item, r.item drv = some item →
      (r.shared.jobsOf item.machine).find? (fun j => j.path == drv) ≠ none)
    (hs : CallStep r.shared r.held task res.1 res.2) :
    Pointers cfg (r.setCall t res) :=
  h.shrinks_same (h.shrinks_call ht hjob hs) rfl

end Pointers

end QueueRunner
