import QueueRunner.Cluster

/-!
# Whole runs of the cluster

`Cluster.Ok` is the invariant of the cluster: the tunnels carry what the
runner has sent, the builders work on what came out of the tunnels, and the
reports are about builds that were started.

Every step of the cluster is a step of the protocol `Handout.Step`, or none
(`handout_next`).  What the protocol gives then holds of the program: a
build message is built at most once and only by the builder it was sent to,
and a step succeeds only after a builder has built its derivation.
-/

namespace QueueRunner

/-- The id and the derivation of a build request. -/
def Wire.buildRequest (wire : Wire) : RunnerRequest → Option (Uuid × String)
  | .build m => (wire.parseUuid m.buildId).map (fun id => (id, m.drv))
  | _ => none

/-- The id of a build request. -/
def Wire.buildId (wire : Wire) (request : RunnerRequest) : Option Uuid :=
  (wire.buildRequest request).map Prod.fst

/-- The id of an abort request. -/
def Wire.abortId (wire : Wire) : RunnerRequest → Option Uuid
  | .abort buildId => wire.parseUuid buildId
  | _ => none

theorem Wire.filterMap_buildId (wire : Wire) (l : List RunnerRequest) :
    l.filterMap wire.buildId = (l.filterMap wire.buildRequest).map Prod.fst := by
  rw [List.map_filterMap]
  rfl

namespace Runner

/-- The build requests that were sent to a machine, oldest first. -/
def sentTo (r : Runner) (m : MachineRef) : List (Uuid × String) :=
  ((r.shared.log.sent.filter (fun e => e.2.2 = m)).map
    (fun e => (e.1, e.2.1.drvPath.baseName))).reverse

theorem sentTo_eq {r r' : Runner} (h : r'.shared.log.sent = r.shared.log.sent)
    (m : MachineRef) : r'.sentTo m = r.sentTo m := by
  rw [sentTo, sentTo, h]

/-- One more message was sent. -/
theorem sentTo_cons {r r' : Runner} {u : Uuid} {i : InfoRef} {m : MachineRef}
    (h : r'.shared.log.sent = (u, i, m) :: r.shared.log.sent) (m' : MachineRef) :
    r'.sentTo m' = if m' = m then r.sentTo m' ++ [(u, i.drvPath.baseName)]
      else r.sentTo m' := by
  rw [sentTo, sentTo, h]
  by_cases he : m' = m
  · subst he
    simp
  · have hne : m ≠ m' := fun heq => he heq.symm
    simp [he, hne]

theorem mem_sentTo {r : Runner} {u : Uuid} {m : MachineRef} :
    u ∈ (r.sentTo m).map Prod.fst ↔ ∃ i, (u, i, m) ∈ r.shared.log.sent := by
  simp only [sentTo, List.map_reverse, List.map_map, List.mem_reverse, List.mem_map,
    List.mem_filter, decide_eq_true_eq, Function.comp_apply]
  constructor
  · rintro ⟨⟨u', i, m'⟩, ⟨he, rfl⟩, rfl⟩
    exact ⟨i, he⟩
  · rintro ⟨i, he⟩
    exact ⟨(u, i, m), ⟨he, rfl⟩, rfl⟩

/-- A machine gets no id twice. -/
theorem nodup_sentTo {r : Runner} (h : SentLog r) (m : MachineRef) :
    ((r.sentTo m).map Prod.fst).Nodup := by
  rw [sentTo, List.map_reverse, List.nodup_reverse, List.map_map]
  exact h.nodup.sublist (List.filter_sublist.map Prod.fst)

/-- What a step of the runner sends. -/
theorem outgoing_cases {cfg : Config} {r r' : Runner} {a : Action} (hok : RunnerOk cfg r)
    (hnext : r.next cfg a = some r') (opts : BuildOptions)
    (presigned : Option PresignedUrlOpts) :
    (r.outgoing opts presigned a = none ∧
        r'.shared.log.sent = r.shared.log.sent) ∨
      (∃ i m, ∃ job : Job, r.outgoing opts presigned a = some (m, job.buildDrv opts presigned) ∧
        r'.shared.log.sent = (job.internalBuildId, i, m) :: r.shared.log.sent ∧
        job.path = i.drvPath) ∨
      ∃ t, ∃ b : Attempt, ∃ m todo cancelled,
        r.outgoing opts presigned a = some (m, .abortMessage b.uuid) ∧
        r.calls.lookup t = some (.killAbort b m todo cancelled) ∧
        r'.shared.log.sent = r.shared.log.sent := by
  have hstep := runnerStep_of_next hnext
  cases hstep with
  | @dispatch ans s' d' hres =>
    have hs := dispatchStep_of_resume hres
    rcases hs.sent_eq with hsent | ⟨w, i, m, job, hd, -, rfl⟩
    · refine Or.inl ⟨?_, hsent⟩
      simp only [outgoing]
      split
      · rename_i w i m job hd
        rw [hd] at hres
        simp only [DispatchPc.resume, realiseResume] at hres
        split_ifs at hres ⊢ with hopen
        · cases hres
          exact absurd hsent (List.cons_ne_self _ _)
        · rfl
      · rfl
    · refine Or.inr (Or.inl ⟨i, m, job, ?_, rfl, ?_⟩)
      · have hopen : (r.shared.machines.machine m).receiverOpen = true := by
          rw [hd] at hres
          simp only [DispatchPc.resume, realiseResume] at hres
          split_ifs at hres with hopen
          · exact hopen
          · simp only [Option.some.injEq, Prod.mk.injEq] at hres
            have hlog := congrArg (fun s : Shared => s.log.sent) hres.1
            exact absurd hlog.symm (List.cons_ne_self _ _)
        simp only [outgoing, hd, hopen, if_true]
      · exact (hok.attempts.path i m job (by rw [hd]; rfl)).1
  | @call t ans task res ht hres =>
    have hsent : (r.setCall t res).shared.log.sent = r.shared.log.sent :=
      (callStep_of_resume hres).sent_eq hok
    simp only [outgoing, ht]
    cases task with
    | killAbort b m todo cancelled =>
      simp only
      split_ifs
      · exact Or.inr (Or.inr ⟨t, b, m, todo, cancelled, rfl, ht, hsent⟩)
      · exact Or.inl ⟨rfl, hsent⟩
    | _ => exact Or.inl ⟨rfl, hsent⟩
  | completeBuild uuid machineId state output =>
    obtain ⟨results, hs, -⟩ := completeBuild_spec r.shared uuid machineId state output
    refine Or.inl ⟨rfl, ?_⟩
    rw [spawn_shared, hs]
  | @endStream m hm =>
    obtain ⟨machines, task, hs, -⟩ := endStream_spec r.shared m
    refine Or.inl ⟨rfl, ?_⟩
    rw [spawn_shared, hs]
  | queueChange curIds =>
    refine Or.inl ⟨rfl, ?_⟩
    rw [spawn_shared]
    rfl
  | _ => exact Or.inl ⟨rfl, rfl⟩

/-- A step of a call does not start `succeed_step`. -/
theorem succeed_of_next {cfg : Config} {r r' : Runner} {a : Action}
    (hnext : r.next cfg a = some r') (hreport : a.isReport = false) {t : TaskId}
    {b : Attempt} {output : BuildReport}
    (ht : r'.calls.lookup t = some (.succeed b output .start)) :
    r.calls.lookup t = some (.succeed b output .start) := by
  cases runnerStep_of_next hnext with
  | @call t' ans task res ht' hres =>
    rw [lookup_setCall] at ht
    split_ifs at ht with he
    · obtain ⟨s', u⟩ := res
      change u = some _ at ht
      subst ht
      unfold CallTask.resume at hres
      cases task with
      | succeed b' output' pc =>
        simp only [Option.some.injEq] at hres
        obtain ⟨pc', -, hstart⟩ := succeedResume_task (congrArg Prod.snd hres)
        cases hstart
      | fail b' pc caller =>
        simp only [Option.some.injEq] at hres
        rcases failResume_task (congrArg Prod.snd hres) with ⟨pc', hu, -⟩ | hu
        · cases hu
        · cases caller with
          | rpc => cases hu
          | tunnel m rest => cases rest <;> cases hu
          | queueChange rest => cases rest <;> cases hu
      | killStart =>
        simp only at hres
        split_ifs at hres
        cases hres
      | kill items cancelled =>
        cases items with
        | nil =>
          simp only [Option.some.injEq] at hres
          cases cancelled <;> cases hres
        | cons e items =>
          simp only [Option.some.injEq, killResume] at hres
          split_ifs at hres
          · cases hres
          · cases hres
          · split at hres <;> cases hres
      | killAbort b' m todo cancelled =>
        simp only at hres
        split_ifs at hres <;> cases hres
      | tunnelClose m => cases hres
    · exact ht
  | completeBuild uuid machineId state output' => cases hreport
  | @endStream m hm =>
    rw [lookup_spawn] at ht
    split_ifs at ht
    · rcases endStream_task ht with hu | ⟨b', rest, hu⟩ <;> cases hu
    · exact ht
  | queueChange curIds =>
    rw [lookup_spawn] at ht
    split_ifs at ht
    · cases ht
    · exact ht
  | _ => exact ht

end Runner

/-! ## The requests in the tunnel -/

section

variable (wire : Wire)

theorem Wire.buildRequest_buildDrv (job : Job) (opts : BuildOptions)
    (presigned : Option PresignedUrlOpts) :
    wire.buildRequest ((job.buildDrv opts presigned).intoRequest wire.uuidText) =
      some (job.internalBuildId, job.path.baseName) := by
  simp [Job.buildDrv, MachineMessage.intoRequest, Wire.buildRequest, wire.parse_uuidText]

theorem Wire.abortId_buildDrv (job : Job) (opts : BuildOptions)
    (presigned : Option PresignedUrlOpts) :
    wire.abortId ((job.buildDrv opts presigned).intoRequest wire.uuidText) = none := rfl

theorem Wire.abortId_abortMessage (u : Uuid) :
    wire.abortId ((MachineMessage.abortMessage u).intoRequest wire.uuidText) = some u :=
  wire.parse_uuidText u

theorem Wire.buildRequest_abortMessage (u : Uuid) :
    wire.buildRequest ((MachineMessage.abortMessage u).intoRequest wire.uuidText) = none := rfl

/-- What the builder does with a request. -/
theorem Wire.handleRequest_cases {b b' : Builder} {request : RunnerRequest}
    {spawned : Option Uuid} (h : wire.handleRequest b request = some (b', spawned)) :
    b'.delivered = (wire.buildId request).toList ++ b.delivered ∧
      b'.aborts = (wire.abortId request).toList ++ b.aborts ∧
      ((spawned = none ∧ b'.fresh = b.fresh ∧ ∀ t task', b'.tasks.lookup t = some task' →
          ∃ task, b.tasks.lookup t = some task ∧ task'.buildId = task.buildId) ∨
        ∃ id, spawned = some id ∧ wire.buildId request = some id ∧
          b'.tasks = b.tasks.insert b.fresh { buildId := id } ∧ b'.fresh = b.fresh + 1) := by
  unfold Wire.handleRequest at h
  cases request with
  | configUpdate n =>
    cases h
    exact ⟨rfl, rfl, Or.inl ⟨rfl, rfl, fun t task ht => ⟨task, ht, rfl⟩⟩⟩
  | abort buildId =>
    obtain ⟨b₁, hnext, he⟩ := Option.map_eq_some_iff.mp h
    cases he
    obtain ⟨hcontinues, haborts⟩ := Builder.continues_of_abort hnext
    exact ⟨hcontinues.delivered, haborts, Or.inl ⟨rfl, hcontinues.fresh, hcontinues.tasks⟩⟩
  | build m =>
    obtain ⟨b₁, hnext, he⟩ := Option.map_eq_some_iff.mp h
    cases he
    obtain ⟨hdelivered, haborts, hcases⟩ := Builder.build_cases hnext
    have hid : wire.buildId (.build m) = wire.parseUuid m.buildId := by
      simp [Wire.buildId, Wire.buildRequest, Option.map_map, Function.comp_def]
    refine ⟨hid ▸ hdelivered, haborts, ?_⟩
    rcases hcases with ⟨hinserting, htasks, hfresh⟩ | ⟨id, info, hm, hinserting, htasks, hfresh⟩
    · refine Or.inl ⟨by rw [hinserting]; rfl, hfresh, fun t task ht => ⟨task, ?_, rfl⟩⟩
      rwa [htasks] at ht
    · exact Or.inr ⟨id, by rw [hinserting]; rfl, hid.trans hm, htasks, hfresh⟩

end

/-! ## The invariant -/

namespace Cluster

/-- What holds in every state of the cluster. -/
structure Ok (wire : Wire) (c : Cluster) : Prop where
  requests : ∀ m, (c.tunnel m).pushed.filterMap wire.buildRequest = c.runner.sentTo m
  backed : ∀ m, Backed wire.abortId wire.buildId (c.tunnel m).pushed
  delivered : ∀ m, (c.builder m).delivered =
    ((c.tunnel m).received.filterMap wire.buildId).reverse
  aborts : ∀ m, (c.builder m).aborts =
    ((c.tunnel m).received.filterMap wire.abortId).reverse
  started : ∀ u m, (u, m) ∈ c.started → u ∈ (c.builder m).delivered
  tasks : ∀ m t task, (c.builder m).tasks.lookup t = some task →
    t < (c.builder m).fresh ∧ (task.buildId, m) ∈ c.started
  distinct : ∀ m t task t' task', (c.builder m).tasks.lookup t = some task →
    (c.builder m).tasks.lookup t' = some task' → task.buildId = task'.buildId → t = t'
  posted : ∀ p ∈ c.posted, (p.uuid, p.machine) ∈ c.started
  succeed : ∀ t a output, c.runner.calls.lookup t = some (.succeed a output .start) →
    ∃ p ∈ c.posted, p.uuid = a.uuid ∧ p.state = .success

namespace Ok

variable {cfg : Config} {wire : Wire} {c c' : Cluster}

theorem init : Ok wire {} := by
  constructor <;> simp [Fifo.pushed, Runner.sentTo, Backed.nil]

/-- A build that was delivered to a builder was sent to its machine. -/
theorem sent_of_delivered (h : Ok wire c) {u : Uuid} {m : MachineRef}
    (hu : u ∈ (c.builder m).delivered) : ∃ i, (u, i, m) ∈ c.runner.shared.log.sent := by
  rw [h.delivered, List.mem_reverse] at hu
  have hsub := (c.tunnel m).received_prefix_pushed.sublist.filterMap wire.buildId
  have hmem := hsub.subset hu
  rw [wire.filterMap_buildId, h.requests] at hmem
  exact Runner.mem_sentTo.mp hmem

theorem sent_of_started (h : Ok wire c) {u : Uuid} {m : MachineRef}
    (hu : (u, m) ∈ c.started) : ∃ i, (u, i, m) ∈ c.runner.shared.log.sent :=
  h.sent_of_delivered (h.started u m hu)

/-- The next message of a tunnel is for a build that was not started. -/
theorem not_started_of_pop (h : Ok wire c) (hsent : SentLog c.runner) {m : MachineRef}
    {request : RunnerRequest} {rest : Fifo RunnerRequest} {u : Uuid}
    (hpop : (c.tunnel m).pop = some (request, rest))
    (hid : wire.buildId request = some u) : u ∉ c.started.map Prod.fst := by
  intro hmem
  obtain ⟨⟨u', m'⟩, hs, he⟩ := List.mem_map.mp hmem
  change u' = u at he
  subst he
  -- it was sent to the machine that has started it, and it is in this tunnel
  obtain ⟨i', hi'⟩ := h.sent_of_started hs
  obtain ⟨hreceived, hpushed⟩ := Fifo.pop_cases hpop
  have hin : request ∈ (c.tunnel m).pushed := by
    rw [← hpushed]
    exact rest.received_prefix_pushed.subset (by rw [hreceived]; simp)
  have hmem' : u' ∈ (c.tunnel m).pushed.filterMap wire.buildId :=
    List.mem_filterMap.mpr ⟨request, hin, hid⟩
  rw [wire.filterMap_buildId, h.requests] at hmem'
  obtain ⟨i, hi⟩ := Runner.mem_sentTo.mp hmem'
  obtain ⟨-, hm⟩ := hsent.unique hi hi'
  subst hm
  -- so it has come out of the tunnel before
  have hdelivered := h.started u' m hs
  rw [h.delivered, List.mem_reverse] at hdelivered
  refine Fifo.not_mem_of_pop hpop hid ?_ hdelivered
  rw [wire.filterMap_buildId, h.requests]
  exact Runner.nodup_sentTo hsent m

/-- A step of the runner. -/
theorem runner (h : Ok wire c) (hok : RunnerOk cfg c.runner) (hsent : SentLog c.runner)
    {a : Action} {r : Runner} (hnext : c.runner.next cfg a = some r) (opts : BuildOptions)
    (presigned : Option PresignedUrlOpts)
    (hsucceed : ∀ t a output, r.calls.lookup t = some (.succeed a output .start) →
      ∃ p ∈ c.posted, p.uuid = a.uuid ∧ p.state = .success) :
    Ok wire { c with
      runner := r
      tunnel := c.transmit wire (c.runner.outgoing opts presigned a) } := by
  have hreceived : ∀ m, (c.transmit wire (c.runner.outgoing opts presigned a) m).received =
      (c.tunnel m).received := by
    intro m
    cases hout : c.runner.outgoing opts presigned a with
    | none => rfl
    | some out =>
      obtain ⟨m', msg⟩ := out
      simp only [transmit]
      rcases eq_or_ne m m' with rfl | hne
      · rw [Function.update_self, Fifo.received_push]
      · rw [Function.update_of_ne hne]
  suffices htunnel : ∀ m,
      (c.transmit wire (c.runner.outgoing opts presigned a) m).pushed.filterMap
        wire.buildRequest = r.sentTo m ∧
      Backed wire.abortId wire.buildId
        (c.transmit wire (c.runner.outgoing opts presigned a) m).pushed from
    { requests := fun m => (htunnel m).1
      backed := fun m => (htunnel m).2
      delivered := fun m => by rw [hreceived]; exact h.delivered m
      aborts := fun m => by rw [hreceived]; exact h.aborts m
      started := h.started
      tasks := h.tasks
      distinct := h.distinct
      posted := h.posted
      succeed := hsucceed }
  intro m
  rcases Runner.outgoing_cases hok hnext opts presigned with
    ⟨hnone, hs⟩ | ⟨i, m', job, hout, hs, hpath⟩ | ⟨t, b, m', todo, cancelled, hout, ht, hs⟩
  · rw [hnone, Runner.sentTo_eq hs]
    exact ⟨h.requests m, h.backed m⟩
  · rw [hout, Runner.sentTo_cons hs]
    unfold transmit
    by_cases he : m = m'
    · subst he
      simp only [Function.update_self, Fifo.pushed_push, List.filterMap_append, if_true]
      refine ⟨?_, (h.backed m).concat fun u hu => ?_⟩
      · rw [h.requests, List.filterMap_cons_some (wire.buildRequest_buildDrv job opts presigned),
          hpath]
        rfl
      · rw [wire.abortId_buildDrv] at hu
        cases hu
    · simp only [Function.update_of_ne he, he, if_false]
      exact ⟨h.requests m, h.backed m⟩
  · rw [hout, Runner.sentTo_eq hs]
    unfold transmit
    by_cases he : m = m'
    · subst he
      simp only [Function.update_self, Fifo.pushed_push, List.filterMap_append]
      refine ⟨?_, (h.backed m).concat fun u hu => ?_⟩
      · rw [h.requests, List.filterMap_cons_none (wire.buildRequest_abortMessage b.uuid)]
        exact List.append_nil _
      · rw [wire.abortId_abortMessage, Option.some.injEq] at hu
        subst hu
        obtain ⟨i, hi, -⟩ := hsent.abort t b m todo cancelled ht
        rw [wire.filterMap_buildId, h.requests]
        exact Runner.mem_sentTo.mpr ⟨i, hi⟩
    · simp only [Function.update_of_ne he]
      exact ⟨h.requests m, h.backed m⟩

/-- A request comes out of a tunnel. -/
theorem receive (h : Ok wire c) (hsent : SentLog c.runner) {m : MachineRef}
    {request : RunnerRequest} {rest : Fifo RunnerRequest} {b : Builder} {spawned : Option Uuid}
    (hpop : (c.tunnel m).pop = some (request, rest))
    (hhandle : wire.handleRequest (c.builder m) request = some (b, spawned)) :
    Ok wire { c with
      builder := Function.update c.builder m b
      tunnel := Function.update c.tunnel m rest
      started := (spawned.map (fun id => (id, m))).toList ++ c.started } := by
  obtain ⟨hreceived, hpushed⟩ := Fifo.pop_cases hpop
  obtain ⟨hdelivered, haborts, htasks⟩ := wire.handleRequest_cases hhandle
  have hmono : c.started ⊆ (spawned.map (fun id => (id, m))).toList ++ c.started :=
    List.subset_append_right _ _
  have hpushed' : ∀ m', (Function.update c.tunnel m rest m').pushed = (c.tunnel m').pushed := by
    intro m'
    rcases eq_or_ne m' m with rfl | hne
    · rw [Function.update_self, hpushed]
    · rw [Function.update_of_ne hne]
  -- what came out of the tunnel is what the builder has got
  have hhistory : ∀ key : RunnerRequest → Option Uuid, ∀ l : List Uuid,
      l = ((c.tunnel m).received.filterMap key).reverse →
      (key request).toList ++ l = (rest.received.filterMap key).reverse := by
    intro key l hl
    rw [hreceived, List.filterMap_append, List.reverse_append, hl]
    cases hkey : key request with
    | none => rw [List.filterMap_cons_none hkey]; rfl
    | some u => rw [List.filterMap_cons_some hkey]; rfl
  refine
    { requests := fun m' => by rw [hpushed']; exact h.requests m'
      backed := fun m' => by rw [hpushed']; exact h.backed m'
      delivered := fun m' => ?_, aborts := fun m' => ?_, started := fun u m' hu => ?_
      tasks := fun m' t task ht => ?_, distinct := fun m' t task t' task' ht ht' hid => ?_
      posted := fun p hp => hmono (h.posted p hp), succeed := h.succeed }
  · rcases eq_or_ne m' m with rfl | hne
    · simp only [Function.update_self]
      exact hdelivered.trans (hhistory _ _ (h.delivered m'))
    · simp only [Function.update_of_ne hne]
      exact h.delivered m'
  · rcases eq_or_ne m' m with rfl | hne
    · simp only [Function.update_self]
      exact haborts.trans (hhistory _ _ (h.aborts m'))
    · simp only [Function.update_of_ne hne]
      exact h.aborts m'
  · rcases List.mem_append.mp hu with hnew | hold
    · rcases htasks with ⟨hnone, -⟩ | ⟨id, hspawned, hid, -⟩
      · rw [hnone] at hnew
        cases hnew
      · rw [hspawned] at hnew
        obtain ⟨rfl, rfl⟩ : u = id ∧ m' = m := by simpa using hnew
        simp only [Function.update_self]
        rw [hdelivered, hid]
        exact List.mem_cons_self
    · rcases eq_or_ne m' m with rfl | hne
      · simp only [Function.update_self]
        rw [hdelivered]
        exact List.mem_append_right _ (h.started u m' hold)
      · simp only [Function.update_of_ne hne]
        exact h.started u m' hold
  · rcases eq_or_ne m' m with rfl | hne
    · simp only [Function.update_self] at ht ⊢
      rcases htasks with ⟨-, hfresh, hkeep⟩ | ⟨id, hspawned, hid, hinsert, hfresh⟩
      · obtain ⟨task₀, ht₀, hid₀⟩ := hkeep t task ht
        obtain ⟨hlt, hs⟩ := h.tasks m' t task₀ ht₀
        exact ⟨by omega, hmono (hid₀ ▸ hs)⟩
      · rw [hinsert, Map.lookup_insert_eq] at ht
        split_ifs at ht with he
        · cases ht
          exact ⟨by omega, by simp [hspawned]⟩
        · obtain ⟨hlt, hs⟩ := h.tasks m' t task ht
          exact ⟨by omega, hmono hs⟩
    · simp only [Function.update_of_ne hne] at ht ⊢
      obtain ⟨hlt, hs⟩ := h.tasks m' t task ht
      exact ⟨hlt, hmono hs⟩
  · rcases eq_or_ne m' m with rfl | hne
    · simp only [Function.update_self] at ht ht'
      rcases htasks with ⟨-, -, hkeep⟩ | ⟨id, -, hspawned, hinsert, -⟩
      · obtain ⟨task₀, ht₀, hid₀⟩ := hkeep t task ht
        obtain ⟨task₀', ht₀', hid₀'⟩ := hkeep t' task' ht'
        exact h.distinct m' t task₀ t' task₀' ht₀ ht₀' (by rw [← hid₀, hid, hid₀'])
      · have hfresh := h.not_started_of_pop hsent hpop hspawned
        have hold : ∀ t task, (c.builder m').tasks.lookup t = some task → task.buildId ≠ id := by
          intro t₁ task₁ ht₁ he
          exact hfresh (List.mem_map.mpr ⟨_, (h.tasks m' t₁ task₁ ht₁).2, he⟩)
        rw [hinsert, Map.lookup_insert_eq] at ht ht'
        split_ifs at ht with he
        · split_ifs at ht' with he'
          · rw [he, he']
          · cases ht
            exact absurd hid.symm (hold t' task' ht')
        · split_ifs at ht' with he'
          · cases ht'
            exact absurd hid (hold t task ht)
          · exact h.distinct m' t task t' task' ht ht' hid
    · simp only [Function.update_of_ne hne] at ht ht'
      exact h.distinct m' t task t' task' ht ht' hid

/-- A step of a builder. -/
theorem builder (h : Ok wire c) {m : MachineRef} {a : BuilderAction} {b : Builder}
    (hlocal : a.isRequest = false) (hnext : (c.builder m).next a = some b)
    (failure : JobFailure) (output : BuildReport) :
    Ok wire { c with
      builder := Function.update c.builder m b
      posted := (c.report m a failure output).toList ++ c.posted } := by
  obtain ⟨hcontinues, haborts⟩ := Builder.continues_of_next hlocal hnext
  refine
    { requests := h.requests, backed := h.backed, delivered := fun m' => ?_
      aborts := fun m' => ?_, started := fun u m' hu => ?_, tasks := fun m' t task ht => ?_
      distinct := fun m' t task t' task' ht ht' hid => ?_, posted := fun p hp => ?_
      succeed := fun t a output ht => ?_ }
  · rcases eq_or_ne m' m with rfl | hne
    · simp only [Function.update_self]
      exact hcontinues.delivered.trans (h.delivered m')
    · simp only [Function.update_of_ne hne]
      exact h.delivered m'
  · rcases eq_or_ne m' m with rfl | hne
    · simp only [Function.update_self]
      exact haborts.trans (h.aborts m')
    · simp only [Function.update_of_ne hne]
      exact h.aborts m'
  · rcases eq_or_ne m' m with rfl | hne
    · simp only [Function.update_self]
      rw [hcontinues.delivered]
      exact h.started u m' hu
    · simp only [Function.update_of_ne hne]
      exact h.started u m' hu
  · rcases eq_or_ne m' m with rfl | hne
    · simp only [Function.update_self] at ht ⊢
      obtain ⟨task₀, ht₀, hid₀⟩ := hcontinues.tasks t task ht
      rw [hcontinues.fresh, hid₀]
      exact h.tasks m' t task₀ ht₀
    · simp only [Function.update_of_ne hne] at ht ⊢
      exact h.tasks m' t task ht
  · rcases eq_or_ne m' m with rfl | hne
    · simp only [Function.update_self] at ht ht'
      obtain ⟨task₀, ht₀, hid₀⟩ := hcontinues.tasks t task ht
      obtain ⟨task₀', ht₀', hid₀'⟩ := hcontinues.tasks t' task' ht'
      exact h.distinct m' t task₀ t' task₀' ht₀ ht₀' (by rw [← hid₀, hid, hid₀'])
    · simp only [Function.update_of_ne hne] at ht ht'
      exact h.distinct m' t task t' task' ht ht' hid
  · rcases List.mem_append.mp hp with hp | hp
    · cases a with
      | task t ok =>
        simp only [report] at hp
        cases ht : (c.builder m).tasks.lookup t with
        | none => simp [ht] at hp
        | some task =>
          rw [ht, Option.mem_toList] at hp
          obtain ⟨state, -, rfl⟩ := Option.map_eq_some_iff.mp hp
          exact (h.tasks m t task ht).2
      | _ => cases hp
    · exact h.posted p hp
  · obtain ⟨p, hp, hrest⟩ := h.succeed t a output ht
    exact ⟨p, List.mem_append_right _ hp, hrest⟩

/-- Every step of the cluster. -/
theorem step (h : Ok wire c) (hok : RunnerOk cfg c.runner) (hsent : SentLog c.runner)
    {a : ClusterAction} (hnext : c.next cfg wire a = some c') : Ok wire c' := by
  cases a with
  | runner a opts presigned =>
    simp only [Cluster.next] at hnext
    split_ifs at hnext with hreport
    split at hnext <;> cases hnext
    rename_i r hr
    refine h.runner hok hsent hr opts presigned fun t a output ht => ?_
    exact h.succeed t a output (Runner.succeed_of_next hr (by simpa using hreport) ht)
  | receive m =>
    simp only [Cluster.next] at hnext
    split at hnext
    · cases hnext
    · rename_i request rest hpop
      split at hnext <;> cases hnext
      exact h.receive hsent hpop (by assumption)
  | builder m a failure output =>
    simp only [Cluster.next] at hnext
    split_ifs at hnext with hrequest
    split at hnext <;> cases hnext
    exact h.builder (by simpa using hrequest) (by assumption) failure output
  | complete p =>
    simp only [Cluster.next] at hnext
    split_ifs at hnext with hp
    split at hnext <;> cases hnext
    rename_i r hr
    refine h.runner hok hsent hr {} none fun t a output ht => ?_
    cases hr
    rw [Runner.lookup_spawn] at ht
    split_ifs at ht with hnew
    · -- the task that the report has started
      simp only [completeBuild] at ht
      split at ht
      · cases ht
      · rename_i b hb
        split_ifs at ht with hstate
        · cases ht
          obtain ⟨m, j, -, -, -, rfl⟩ := lookupAttempt_eq_ok hb
          exact ⟨p, hp, rfl, hstate⟩
        · cases ht
    · exact h.succeed t a output ht

end Ok

/-! ## Runs -/

section

variable {cfg : Config} {wire : Wire} {ok : Cluster → ClusterAction → Prop} {c : Cluster}

/-- The runner of a cluster runs as it does alone. -/
theorem runner_reach (h : Lts.Reach (next cfg wire) ok {} c) :
    Lts.Reach (Runner.next cfg) Lts.anyStep {} c.runner := by
  refine h.project (f := Cluster.runner) fun c a c' _ _ hnext => ?_
  cases a with
  | runner a opts presigned =>
    simp only [next] at hnext
    split_ifs at hnext
    split at hnext <;> cases hnext
    exact .step a .refl trivial (by assumption)
  | receive m =>
    simp only [next] at hnext
    split at hnext
    · cases hnext
    · split at hnext <;> cases hnext
      exact .refl
  | builder m a failure output =>
    simp only [next] at hnext
    split_ifs at hnext
    split at hnext <;> cases hnext
    exact .refl
  | complete p =>
    simp only [next] at hnext
    split_ifs at hnext
    split at hnext <;> cases hnext
    exact .step _ .refl trivial (by assumption)

/-- What holds of the cluster and of its runner in every state of a run. -/
theorem reach (h : Lts.Reach (next cfg wire) ok {} c) :
    Ok wire c ∧ RunnerOk cfg c.runner ∧ SentLog c.runner := by
  have hrunner := runner_reach h
  refine ⟨?_, RunnerOk.reach hrunner, SentLog.reach hrunner⟩
  refine h.invariant_of_reach (I := Ok wire) .init fun c a c' hreach hc _ hnext => ?_
  have hrunner := runner_reach hreach
  exact hc.step (RunnerOk.reach hrunner) (SentLog.reach hrunner) hnext

end

/-! ## The refinement -/

section

variable {cfg : Config} {wire : Wire} {c : Cluster}

/-- A step of the runner issues a derivation, accepts one, or does neither. -/
theorem handout_runner (h : Ok wire c) (hok : RunnerOk cfg c.runner)
    (hsent : SentLog c.runner) {a : Action} {r : Runner}
    (hnext : c.runner.next cfg a = some r) (tunnel : MachineRef → Fifo RunnerRequest) :
    Relation.ReflGen Handout.Step c.handout
      ({ c with runner := r, tunnel := tunnel } : Cluster).handout := by
  have hstep := runnerStep_of_next hnext
  have hsent' := hsent.step hok hstep
  by_cases hcall : ∃ t ans, a = .call t ans
  · obtain ⟨t, ans, rfl⟩ := hcall
    cases hstep with
    | @call _ _ task res ht hres =>
      have hissued : res.1.log.sent = c.runner.shared.log.sent :=
        (callStep_of_resume hres).sent_eq hok
      have hquiet : c.runner.shared.log.SameVerdicts res.1.log →
          Relation.ReflGen Handout.Step c.handout
            ({ c with runner := c.runner.setCall t res, tunnel := tunnel } : Cluster).handout := by
        intro hsame
        have heq : ({ c with runner := c.runner.setCall t res, tunnel := tunnel } :
            Cluster).handout = c.handout := by
          simp only [handout, Runner.setCall, hissued, hsame.succeeded]
        rw [heq]
      cases callVerdict_of_resume hres with
      | pending hsame => exact hquiet hsame
      | retries b state timings caller item _ _ hsame => exact hquiet hsame
      | overflows b state timings caller _ _ hsame => exact hquiet hsame
      | givesUp b state timings caller item job htask _ _ hsucceeded =>
        have heq : ({ c with runner := c.runner.setCall t res, tunnel := tunnel } :
            Cluster).handout = c.handout := by
          simp only [handout, Runner.setCall, hissued, hsucceeded]
        rw [heq]
      | jobMissing b item _ hitem hnone => exact absurd hnone (hok.attempts.find_job hitem)
      | succeeds b output item htask hitem _ hsucceeded =>
        -- the report of the attempt is what makes the step succeed
        subst htask
        obtain ⟨m, -, i, hi, hdrv⟩ := hsent.pending b ⟨t, _, ht, List.mem_singleton.mpr rfl⟩
        obtain ⟨p, hp, hid, hstate⟩ := h.succeed t b output ht
        have hpath : item.stepInfo.step.drvPath = b.drv := (hok.pointers.item _ _ hitem).1
        refine .single ?_
        have heq : ({ c with runner := c.runner.setCall t res, tunnel := tunnel } :
            Cluster).handout = { c.handout with accepted := b.drv :: c.handout.accepted } := by
          simp only [handout, Runner.setCall, hissued, hsucceeded, List.map_cons, hpath]
        rw [heq]
        refine .accept b.uuid m b.drv ?_ ?_
        · exact List.mem_map.mpr ⟨_, hi, by rw [← hdrv]⟩
        · -- and it comes from the machine that the message went to
          obtain ⟨i', hi'⟩ := h.sent_of_started (h.posted p hp)
          rw [hid] at hi'
          obtain ⟨-, hm⟩ := hsent.unique hi hi'
          refine List.mem_map.mpr ⟨p, List.mem_filter.mpr ⟨hp, ?_⟩, Prod.ext hid hm.symm⟩
          simpa using hstate
  · have hsame := hstep.sameVerdicts fun t ans he => hcall ⟨t, ans, he⟩
    rcases hstep.sent_eq hok with hissued | ⟨w, i, m, job, -, hissued⟩
    · have heq : ({ c with runner := r, tunnel := tunnel } : Cluster).handout = c.handout := by
        simp only [handout, hissued, hsame.succeeded]
      rw [heq]
    · have heq : ({ c with runner := r, tunnel := tunnel } : Cluster).handout =
          { c.handout with
            issued := (job.internalBuildId, m, i.drvPath) :: c.handout.issued } := by
        simp only [handout, hissued, hsame.succeeded, List.map_cons]
      rw [heq]
      refine .single (.issue _ _ _ ?_)
      have hnodup := hsent'.nodup
      rw [hissued] at hnodup
      have hids : c.handout.issued.map Prod.fst = c.runner.shared.log.sent.map Prod.fst := by
        simp [handout, Function.comp_def]
      rw [hids]
      exact (List.nodup_cons.mp hnodup).1

/-- A step of the cluster is a step of the protocol, or none. -/
theorem handout_next (h : Ok wire c) (hok : RunnerOk cfg c.runner)
    (hsent : SentLog c.runner) {a : ClusterAction} {c' : Cluster}
    (hnext : c.next cfg wire a = some c') :
    Relation.ReflGen Handout.Step c.handout c'.handout := by
  cases a with
  | runner a opts presigned =>
    simp only [next] at hnext
    split_ifs at hnext
    split at hnext <;> cases hnext
    exact handout_runner h hok hsent (by assumption) _
  | complete p =>
    simp only [next] at hnext
    split_ifs at hnext
    split at hnext <;> cases hnext
    exact handout_runner h hok hsent (by assumption) c.tunnel
  | receive m =>
    simp only [next] at hnext
    split at hnext
    · cases hnext
    · rename_i request rest hpop
      split at hnext <;> cases hnext
      rename_i b spawned hhandle
      obtain ⟨-, -, htasks⟩ := wire.handleRequest_cases hhandle
      rcases htasks with ⟨rfl, -⟩ | ⟨id, rfl, hid, -⟩
      · exact .refl
      · refine .single ?_
        have hc' := h.receive hsent hpop hhandle
        obtain ⟨i, hi⟩ := hc'.sent_of_started (u := id) (m := m) (by simp)
        exact .start id m i.drvPath (List.mem_map.mpr ⟨_, hi, rfl⟩)
          (h.not_started_of_pop hsent hpop hid)
  | builder m a failure output =>
    simp only [next] at hnext
    split_ifs at hnext with hrequest
    split at hnext <;> cases hnext
    rename_i b hb
    have hc' := h.builder (by simpa using hrequest) hb failure output
    cases hreport : c.report m a failure output with
    | none => simpa [handout] using Relation.ReflGen.refl
    | some p =>
      have hstarted : (p.uuid, p.machine) ∈ c.started := hc'.posted p (by simp [hreport])
      by_cases hstate : p.state = .success
      · have heq : ({ c with
            builder := Function.update c.builder m b
            posted := (some p).toList ++ c.posted } : Cluster).handout =
            { c.handout with reported := (p.uuid, p.machine) :: c.handout.reported } := by
          simp [handout, hstate]
        rw [heq]
        exact .single (.report p.uuid p.machine hstarted)
      · have heq : ({ c with
            builder := Function.update c.builder m b
            posted := (some p).toList ++ c.posted } : Cluster).handout = c.handout := by
          simp [handout, hstate]
        rw [heq]

end

/-- A part of a run of the cluster is a path of the protocol. -/
theorem handout_path {cfg : Config} {wire : Wire} {c c' : Cluster}
    (hc : Lts.Reach (next cfg wire) Lts.anyStep {} c)
    (h : Lts.Reach (next cfg wire) Lts.anyStep c c') :
    Relation.ReflTransGen Handout.Step c.handout c'.handout := by
  refine h.refines (R := Handout.Step) (f := handout) fun c₁ a c₂ hreach _ hnext => ?_
  obtain ⟨hok, hrunner, hsent⟩ := reach (hc.trans hreach)
  exact (handout_next hok hrunner hsent hnext).to_reflTransGen

/-- What the protocol gives holds of the cluster. -/
theorem handout_sound {cfg : Config} {wire : Wire} {c : Cluster}
    (h : Lts.Reach (next cfg wire) Lts.anyStep {} c) : Handout.Sound c.handout :=
  Handout.sound (handout_path .refl h)

/-! ## A run

The sample run of the runner, with the builder at the other end. -/

/-- Identifiers are written in unary. -/
def sampleWire : Wire where
  uuidText u := String.ofList (List.replicate u '0')
  parseUuid s := some s.length
  parse_uuidText := by simp
  env := ⟨false, "/nix/store"⟩

/-- The runner takes steps, all with the default options. -/
def runs (l : List Action) : List ClusterAction := l.map (fun a => .runner a {} none)

/-- The build of `a.drv` is sent, and the builder has built it. -/
def sampleBuilt : List ClusterAction :=
  runs (Sample.register :: Sample.created ++ Sample.sent ++ Sample.scheduled) ++
    [.receive Sample.machine, .builder Sample.machine .insert .build {},
      .builder Sample.machine (.task 0 true) .build {}]

/-- The report arrives, and the step succeeds. -/
def sampleSucceeded : List ClusterAction :=
  sampleBuilt ++ [.complete ⟨Sample.machine, 0, .success, {}⟩] ++ runs [.call 0 {}]

theorem sampleSucceeded_reach : ∃ c,
    Lts.Reach (next Sample.config sampleWire) Lts.anyStep {} c ∧
      c.started = [(0, Sample.machine)] ∧
      c.posted = [⟨Sample.machine, 0, .success, {}⟩] ∧
      c.runner.shared.log.succeeded = [Sample.step] := by
  have hend : (Lts.run (next Sample.config sampleWire) {} sampleSucceeded).map
      (fun c => (c.started, c.posted, c.runner.shared.log.succeeded)) =
      some ([(0, Sample.machine)], [⟨Sample.machine, 0, .success, {}⟩], [Sample.step]) := by
    decide +kernel
  obtain ⟨c, hc, he⟩ := Option.map_eq_some_iff.mp hend
  simp only [Prod.mk.injEq] at he
  exact ⟨c, Lts.reach_of_run hc, he⟩

/-! ## What holds in every run -/

/-- The cluster refines the protocol: what happens between two states of a
run is a path of the protocol, and each step of the cluster is at most one
step of the protocol. -/
theorem cluster_refines_handout (cfg : Config) (wire : Wire) (c c' : Cluster)
    (hc : Lts.Reach (next cfg wire) Lts.anyStep {} c)
    (h : Lts.Reach (next cfg wire) Lts.anyStep c c') :
    Relation.ReflTransGen Handout.Step {} c.handout ∧
      Relation.ReflTransGen Handout.Step c.handout c'.handout ∧
      ∀ a c'', c'.next cfg wire a = some c'' →
        Relation.ReflGen Handout.Step c'.handout c''.handout := by
  refine ⟨handout_path .refl hc, handout_path hc h, fun a c'' hnext => ?_⟩
  obtain ⟨hok, hrunner, hsent⟩ := reach (hc.trans h)
  exact handout_next hok hrunner hsent hnext

theorem cluster_refines_handout_sample : ∃ c : Cluster, c.handout.accepted = [Sample.drv] ∧
    Relation.ReflTransGen Handout.Step {} c.handout ∧
      Relation.ReflTransGen Handout.Step c.handout c.handout ∧
      ∀ a c'', c.next Sample.config sampleWire a = some c'' →
        Relation.ReflGen Handout.Step c.handout c''.handout := by
  obtain ⟨c, hc, -, -, hsucceeded⟩ := sampleSucceeded_reach
  refine ⟨c, ?_, cluster_refines_handout _ _ c c hc .refl⟩
  rw [handout, hsucceeded]
  rfl

/-- A step that succeeds was built: some builder has started a build of its
derivation for a message that the runner has sent to it, and has reported a
success. -/
theorem succeeded_was_built (cfg : Config) (wire : Wire) (c : Cluster)
    (h : Lts.Reach (next cfg wire) Lts.anyStep {} c) :
    ∀ s ∈ c.runner.shared.log.succeeded, ∃ p ∈ c.posted, p.state = .success ∧
      (p.uuid, p.machine) ∈ c.started ∧ c.runner.SentTo p.uuid p.machine s.drvPath := by
  intro s hs
  have hsound := handout_sound h
  obtain ⟨hok, -, -⟩ := reach h
  obtain ⟨id, m, hissued, hstarted, hreported⟩ :=
    hsound.reported s.drvPath (List.mem_map.mpr ⟨s, hs, rfl⟩)
  obtain ⟨p, hp, hpost⟩ := List.mem_map.mp hreported
  obtain ⟨hp, hstate⟩ := List.mem_filter.mp hp
  obtain ⟨⟨u, i, m'⟩, he, heq⟩ := List.mem_map.mp hissued
  simp only [Prod.mk.injEq] at heq hpost
  obtain ⟨rfl, rfl, hdrv⟩ := heq
  obtain ⟨rfl, rfl⟩ := hpost
  exact ⟨p, hp, by simpa using hstate, hstarted, i, he, hdrv⟩

theorem succeeded_was_built_sample : ∃ c : Cluster,
    Sample.step ∈ c.runner.shared.log.succeeded ∧
      ∀ s ∈ c.runner.shared.log.succeeded, ∃ p ∈ c.posted, p.state = .success ∧
        (p.uuid, p.machine) ∈ c.started ∧ c.runner.SentTo p.uuid p.machine s.drvPath := by
  obtain ⟨c, hc, -, -, hsucceeded⟩ := sampleSucceeded_reach
  exact ⟨c, by simp [hsucceeded], succeeded_was_built _ _ c hc⟩

/-- A message is built at most once, and by nobody but the builder that it
was sent to: no id is started twice, and no two tasks of all the builders
work for the same id. -/
theorem built_at_most_once (cfg : Config) (wire : Wire) (c : Cluster)
    (h : Lts.Reach (next cfg wire) Lts.anyStep {} c) :
    (c.started.map Prod.fst).Nodup ∧
      (∀ u m, (u, m) ∈ c.started → ∃ i, (u, i, m) ∈ c.runner.shared.log.sent) ∧
      ∀ m t task m' t' task', (c.builder m).tasks.lookup t = some task →
        (c.builder m').tasks.lookup t' = some task' → task.buildId = task'.buildId →
        m = m' ∧ t = t' := by
  have hsound := handout_sound h
  obtain ⟨hok, -, hsent⟩ := reach h
  refine ⟨hsound.once, fun u m hu => hok.sent_of_started hu, ?_⟩
  intro m t task m' t' task' ht ht' hid
  obtain ⟨-, hstarted⟩ := hok.tasks m t task ht
  obtain ⟨-, hstarted'⟩ := hok.tasks m' t' task' ht'
  have heq := List.inj_on_of_nodup_map hsound.once hstarted hstarted' hid
  have hm : m = m' := congrArg Prod.snd heq
  subst hm
  exact ⟨rfl, hok.distinct m t task t' task' ht ht' hid⟩

theorem built_at_most_once_sample : ∃ c : Cluster, c.started = [(0, Sample.machine)] ∧
    (c.started.map Prod.fst).Nodup ∧
      (∀ u m, (u, m) ∈ c.started → ∃ i, (u, i, m) ∈ c.runner.shared.log.sent) ∧
      ∀ m t task m' t' task', (c.builder m).tasks.lookup t = some task →
        (c.builder m').tasks.lookup t' = some task' → task.buildId = task'.buildId →
        m = m' ∧ t = t' := by
  obtain ⟨c, hc, hstarted, -⟩ := sampleSucceeded_reach
  exact ⟨c, hstarted, built_at_most_once _ _ c hc⟩

/-- A builder gets the build requests of its machine in the order in which
they were sent, none twice and none of another machine, and it gets the
request to abort a build only after the request to build it. -/
theorem requests_arrive_in_order (cfg : Config) (wire : Wire) (c : Cluster)
    (h : Lts.Reach (next cfg wire) Lts.anyStep {} c) (m : MachineRef) :
    (c.tunnel m).received.filterMap wire.buildRequest <+: c.runner.sentTo m ∧
      (c.builder m).delivered.Nodup ∧
      Backed wire.abortId wire.buildId (c.tunnel m).received ∧
      ∀ u ∈ (c.builder m).aborts, u ∈ (c.builder m).delivered := by
  obtain ⟨hok, -, hsent⟩ := reach h
  have hbacked := (hok.backed m).of_initial (c.tunnel m).received_prefix_pushed
  refine ⟨?_, ?_, hbacked, fun u hu => ?_⟩
  · rw [← hok.requests m]
    obtain ⟨rest, hrest⟩ := (c.tunnel m).received_prefix_pushed
    rw [← hrest, List.filterMap_append]
    exact List.prefix_append _ _
  · rw [hok.delivered, List.nodup_reverse]
    have hnodup := Runner.nodup_sentTo hsent m
    rw [← hok.requests m, ← wire.filterMap_buildId] at hnodup
    exact hnodup.sublist ((c.tunnel m).received_prefix_pushed.sublist.filterMap wire.buildId)
  · rw [hok.aborts, List.mem_reverse] at hu
    rw [hok.delivered, List.mem_reverse]
    exact hbacked.mem_of_needs hu

/-- The build is taken out of the queue while its builder works. -/
def sampleAborted : List ClusterAction :=
  runs (Sample.register :: Sample.created ++ Sample.sent ++ Sample.scheduled) ++
    [.receive Sample.machine, .builder Sample.machine .insert .build {}] ++
    runs [.queueChange [], .dropBuild ⟨1, Sample.drv, 0⟩,
      .call 0 { scheduled := [(Sample.drv, ⟨Sample.info, "x86_64-linux", Sample.machine⟩)] },
      .call 0 {}, .call 0 {}] ++
    [.receive Sample.machine]

/-- The builder has got the request to build, and then the one to abort. -/
theorem requests_arrive_in_order_sample : ∃ c : Cluster,
    (c.builder Sample.machine).delivered = [0] ∧ (c.builder Sample.machine).aborts = [0] ∧
    (c.tunnel Sample.machine).received.filterMap sampleWire.buildRequest <+:
        c.runner.sentTo Sample.machine ∧
      (c.builder Sample.machine).delivered.Nodup ∧
      Backed sampleWire.abortId sampleWire.buildId (c.tunnel Sample.machine).received ∧
      ∀ u ∈ (c.builder Sample.machine).aborts, u ∈ (c.builder Sample.machine).delivered := by
  have hend : (Lts.run (next Sample.config sampleWire) {} sampleAborted).map (fun c =>
      ((c.builder Sample.machine).delivered, (c.builder Sample.machine).aborts)) =
      some ([0], [0]) := by decide +kernel
  obtain ⟨c, hc, he⟩ := Option.map_eq_some_iff.mp hend
  obtain ⟨hdelivered, haborts⟩ := Prod.mk.inj he
  exact ⟨c, hdelivered, haborts,
    requests_arrive_in_order _ _ c (Lts.reach_of_run hc) Sample.machine⟩

/-- A report finds the attempt whose message the builder has got, or the
attempt has ended, or the machine is not registered any more, or the dispatch
loop has not come to insert the job yet. -/
theorem report_finds_its_attempt (cfg : Config) (wire : Wire) (c : Cluster)
    (h : Lts.Reach (next cfg wire) Lts.anyStep {} c) :
    ∀ p ∈ c.posted, ∃ i, (p.uuid, i, p.machine) ∈ c.runner.shared.log.sent ∧
      (∀ a, lookupAttempt c.runner.shared p.uuid p.machine.id = .ok a →
        a = ⟨p.uuid, p.machine.id, i.drvPath⟩) ∧
      ((∃ a, lookupAttempt c.runner.shared p.uuid p.machine.id = .ok a) ∨
        p.uuid ∈ c.runner.shared.log.ended ∨
        c.runner.shared.machines.byUuid.lookup p.machine.id ≠ some p.machine ∨
        ∃ w job, c.runner.dispatcher = .realise w i (.sent p.machine job) ∧
          job.internalBuildId = p.uuid) := by
  intro p hp
  obtain ⟨hok, hrunner, hsent⟩ := reach h
  obtain ⟨i, hi⟩ := hok.sent_of_started (hok.posted p hp)
  refine ⟨i, hi, fun a ha => ?_, ?_⟩
  · obtain ⟨m, j, hm, hj, hid, rfl⟩ := lookupAttempt_eq_ok ha
    obtain ⟨i', hi', hdrv⟩ := hsent.job m j hj
    rw [hid] at hi'
    obtain ⟨rfl, -⟩ := hsent.unique hi hi'
    rw [hdrv]
  by_cases hreg : c.runner.shared.machines.byUuid.lookup p.machine.id = some p.machine
  case neg => exact Or.inr (Or.inr (Or.inl hreg))
  -- the machine is registered, so the report finds the job if there is one
  have hfinds : ∀ j ∈ c.runner.shared.jobsOf p.machine, j.internalBuildId = p.uuid →
      ∃ a, lookupAttempt c.runner.shared p.uuid p.machine.id = .ok a := by
    intro j hj hid
    unfold lookupAttempt
    rw [hreg]
    simp only [Machine.getJobDrvForBuildId]
    cases hfind : (c.runner.shared.machines.machine p.machine).jobs.find?
        (fun j => j.internalBuildId == p.uuid) with
    | none =>
      have hne := List.find?_eq_none.mp hfind j hj
      simp [hid] at hne
    | some j' => exact ⟨_, rfl⟩
  obtain ⟨-, hended | ⟨item, -, -, -, j, hj, -, hid⟩ | ⟨hlate, job, ha, hid⟩⟩ :=
    hrunner.attempts.sent _ i p.machine hi
  · exact Or.inr (Or.inl hended)
  · exact Or.inl (hfinds j hj hid)
  · cases hins : c.runner.dispatcher.inserted with
    | true => exact Or.inl (hfinds job (hrunner.attempts.inserted i _ job ha hins) hid)
    | false =>
      obtain ⟨w, hd⟩ := DispatchPc.eq_sent_of_late hlate hins ha
      exact Or.inr (Or.inr (Or.inr ⟨w, job, hd, hid⟩))

theorem report_finds_its_attempt_sample : ∃ c : Cluster, c.posted ≠ [] ∧
    ∀ p ∈ c.posted, ∃ i, (p.uuid, i, p.machine) ∈ c.runner.shared.log.sent ∧
      (∀ a, lookupAttempt c.runner.shared p.uuid p.machine.id = .ok a →
        a = ⟨p.uuid, p.machine.id, i.drvPath⟩) ∧
      ((∃ a, lookupAttempt c.runner.shared p.uuid p.machine.id = .ok a) ∨
        p.uuid ∈ c.runner.shared.log.ended ∨
        c.runner.shared.machines.byUuid.lookup p.machine.id ≠ some p.machine ∨
        ∃ w job, c.runner.dispatcher = .realise w i (.sent p.machine job) ∧
          job.internalBuildId = p.uuid) := by
  obtain ⟨c, hc, -, hposted, -⟩ := sampleSucceeded_reach
  exact ⟨c, by simp [hposted], report_finds_its_attempt _ _ c hc⟩

end Cluster

end QueueRunner
