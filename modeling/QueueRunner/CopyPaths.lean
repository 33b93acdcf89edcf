import QueueRunner.BinaryCache
import QueueRunner.Lib.Run

/-!
# Copying a closure to the binary cache

`upload_msg` of `queue-runner/src/state/uploader.rs` copies the requisites
of its paths, the references first.  `copy_paths` runs the `copy_path`
futures through `buffered(10)`: they start in the order of the list, at most
ten of them have not been yielded, and they are yielded in the order of the
list.  The first error drops the futures that still run, and the list is
copied again from its start, five times at most.

A future does not wait for those of its references.  What keeps a reference
ahead is only the window: a path starts when the one ten places before it
was yielded.
-/

namespace QueueRunner

/-- What a call of `upload_msg` copies to one cache. -/
structure CopyPathsInput where
  codecs : Codecs
  cfg : CacheConfig
  /-- What the local store knows of its paths. -/
  info : StorePath → PathInfo
  nar : StorePath → Bytes
  /-- The answer of `query_requisites`. -/
  requisites : List StorePath
  nodup : requisites.Nodup
  closed : ∀ p ∈ requisites, ∀ r ∈ (info p).refs, r ∈ requisites
  /-- No path comes before one of its references. -/
  ordered : requisites.Pairwise (fun p q => q ∉ (info p).refs)
  /-- The paths whose narinfo is in the bucket. -/
  bucket : List StorePath
  /-- The paths for which `has_narinfo` fails in `query_missing_paths`. -/
  failed : StorePath → Bool := fun _ => false

namespace CopyPathsInput

variable (inp : CopyPathsInput)

/-- `query_missing_paths`: a path whose check fails counts as missing. -/
def missing : List StorePath :=
  inp.requisites.filter (fun p => inp.failed p || decide (p ∉ inp.bucket))

/-- The compressed text of the narinfo of `p`, when `sent` bytes of its NAR
were read. -/
def narinfo (p : StorePath) (sent : Nat) : Bytes :=
  inp.codecs.compress inp.cfg.narinfoCompression
    (((NarInfo.new inp.codecs p (inp.info p) inp.cfg.compression).withFile inp.codecs
      (inp.codecs.compress inp.cfg.compression ((inp.nar p).take sent))).render inp.codecs)

end CopyPathsInput

/-- Where a `copy_path` future is. -/
inductive CopyItem where
  /-- Not taken from the list. -/
  | queued
  /-- It waits for `has_narinfo`. -/
  | asking
  /-- It waits for what comes before the narinfo. -/
  | copying
  /-- It waits in `upload_narinfo`; `landed` says that the object is there. -/
  | putting (sent : Nat) (landed : Bool)
  | returned (ok : Bool)
deriving DecidableEq

/-- A call of `copy_paths` with its retries. -/
structure CopyState where
  /-- The paths whose narinfo is in the bucket. -/
  present : List StorePath
  /-- Those whose narinfo this call has uploaded. -/
  uploaded : List StorePath := []
  items : Nat → CopyItem := fun _ => .queued
  started : Nat := 0
  yielded : Nat := 0
  retries : Nat := 5
  ended : Bool := false
  /-- Narinfos of dropped futures, which S3 may still make objects. -/
  late : List StorePath := []

/-- The steps of the futures and of the loop around them. -/
inductive CopyAction where
  /-- `buffered` takes a future from the list. -/
  | start
  /-- `has_narinfo` of the `i`-th future answers. -/
  | answer (i : Nat) (ok : Bool)
  /-- The `i`-th future fails before the narinfo. -/
  | fail (i : Nat)
  /-- The `i`-th future starts to upload the narinfo. -/
  | put (i : Nat) (sent : Nat)
  | land (i : Nat)
  /-- `upload_narinfo` of the `i`-th future returns. -/
  | respond (i : Nat) (answers : S3Answers)
  /-- The stream yields its next result. -/
  | yield
  | landLate (p : StorePath)

namespace CopyState

def setItem (s : CopyState) (i : Nat) (item : CopyItem) : CopyState :=
  { s with items := Function.update s.items i item }

/-- The narinfo of `p` becomes an object. -/
def publish (s : CopyState) (p : StorePath) : CopyState :=
  { s with present := p :: s.present, uploaded := p :: s.uploaded }

/-- The narinfos that are on their way to S3. -/
def inFlight (inp : CopyPathsInput) (s : CopyState) : List StorePath :=
  (List.range s.started).filterMap (fun i =>
    match s.items i with
    | .putting _ false => inp.missing[i]?
    | _ => none)

/-- `copy_paths` returns an error, and the futures are dropped. -/
def restart (inp : CopyPathsInput) (s : CopyState) : CopyState :=
  { s with
    items := fun _ => .queued
    started := 0
    yielded := 0
    retries := s.retries - 1
    ended := decide (s.retries = 0)
    late := s.inFlight inp ++ s.late }

/-- One step of the call.  S3 answers an upload with success only when the
object is there, and it may make the object and lose the answer. -/
def next (inp : CopyPathsInput) (s : CopyState) : CopyAction → Option CopyState
  | .start =>
    if s.ended = false ∧ s.started < inp.missing.length ∧ s.started < s.yielded + 10 then
      some { s.setItem s.started .asking with started := s.started + 1 }
    else none
  | .answer i ok =>
    match s.items i, inp.missing[i]? with
    | .asking, some p =>
      if ok then some (s.setItem i (if p ∈ s.present then .returned true else .copying))
      else some (s.setItem i (.returned false))
    | _, _ => none
  | .fail i =>
    match s.items i with
    | .copying => some (s.setItem i (.returned false))
    | _ => none
  | .put i sent =>
    match s.items i with
    | .copying =>
      -- without a buffer `finalize` fails
      if 0 < inp.cfg.bufferSize then some (s.setItem i (.putting sent false)) else none
    | _ => none
  | .land i =>
    match s.items i, inp.missing[i]? with
    | .putting sent false, some p => some ((s.setItem i (.putting sent true)).publish p)
    | _, _ => none
  | .respond i answers =>
    match s.items i, inp.missing[i]? with
    | .putting sent landed, some p =>
      let length := (inp.narinfo p sent).length
      if answers.stores inp.cfg.bufferSize length = true → landed = true then
        some (s.setItem i (.returned (answers.returns inp.cfg.bufferSize length)))
      else none
    | _, _ => none
  | .yield =>
    match s.items s.yielded with
    | .returned true => some { s with yielded := s.yielded + 1 }
    | .returned false => some (s.restart inp)
    | _ => none
  | .landLate p => if p ∈ s.late then some (s.publish p) else none

end CopyState

namespace CopyPathsInput

variable (inp : CopyPathsInput)

def start : CopyState := { present := inp.bucket }

/-- The references of `p` are in the bucket. -/
def Downloadable (s : CopyState) (p : StorePath) : Prop :=
  ∀ r ∈ (inp.info p).refs, r ≠ p → r ∈ s.present

/-- A missing reference of a missing path stands ten places before it or
more, and its narinfo fits into the buffer. -/
def ReferencesAhead : Prop :=
  0 < inp.cfg.bufferSize → ∀ i j p r, i < j →
    inp.missing[j]? = some p → inp.missing[i]? = some r → p ∉ inp.bucket → r ∉ inp.bucket →
    r ∈ (inp.info p).refs →
      i + 10 ≤ j ∧ ∀ sent, (inp.narinfo r sent).length < inp.cfg.bufferSize

end CopyPathsInput

/-! ## The window is enough -/

/-- What one step does. -/
inductive CopyStep (inp : CopyPathsInput) (s : CopyState) : CopyState → Prop where
  | start (hwindow : s.started < s.yielded + 10) :
    CopyStep inp s { s.setItem s.started .asking with started := s.started + 1 }
  | found (i : Nat) (p : StorePath) (hi : s.items i = .asking) (hp : inp.missing[i]? = some p)
      (hpresent : p ∈ s.present) : CopyStep inp s (s.setItem i (.returned true))
  | copy (i : Nat) (p : StorePath) (hi : s.items i = .asking) (hp : inp.missing[i]? = some p)
      (hpresent : p ∉ s.present) : CopyStep inp s (s.setItem i .copying)
  | fail (i : Nat) (hi : s.items i = .asking ∨ s.items i = .copying) :
    CopyStep inp s (s.setItem i (.returned false))
  | put (i sent : Nat) (hi : s.items i = .copying) (hbuffer : 0 < inp.cfg.bufferSize) :
    CopyStep inp s (s.setItem i (.putting sent false))
  | land (i sent : Nat) (p : StorePath) (hi : s.items i = .putting sent false)
      (hp : inp.missing[i]? = some p) :
    CopyStep inp s ((s.setItem i (.putting sent true)).publish p)
  | respond (i sent : Nat) (landed : Bool) (p : StorePath) (answers : S3Answers)
      (hi : s.items i = .putting sent landed) (hp : inp.missing[i]? = some p)
      (hlanded : answers.stores inp.cfg.bufferSize (inp.narinfo p sent).length = true →
        landed = true) :
    CopyStep inp s (s.setItem i
      (.returned (answers.returns inp.cfg.bufferSize (inp.narinfo p sent).length)))
  | yield (hi : s.items s.yielded = .returned true) :
    CopyStep inp s { s with yielded := s.yielded + 1 }
  | restart (hi : s.items s.yielded = .returned false) : CopyStep inp s (s.restart inp)
  | landLate (p : StorePath) (hp : p ∈ s.late) : CopyStep inp s (s.publish p)

theorem copyStep_of_next {inp : CopyPathsInput} {s s' : CopyState} {a : CopyAction}
    (h : CopyState.next inp s a = some s') : CopyStep inp s s' := by
  cases a with
  | start =>
    simp only [CopyState.next] at h
    split at h
    · rename_i hguard
      obtain rfl := Option.some.inj h
      exact .start hguard.2.2
    · cases h
  | answer i ok =>
    simp only [CopyState.next] at h
    split at h
    · rename_i p hi hp
      split at h
      · obtain rfl := Option.some.inj h
        split
        · rename_i hpresent
          exact .found i p hi hp hpresent
        · rename_i hpresent
          exact .copy i p hi hp hpresent
      · obtain rfl := Option.some.inj h
        exact .fail i (.inl hi)
    · cases h
  | fail i =>
    simp only [CopyState.next] at h
    split at h
    · rename_i hi
      obtain rfl := Option.some.inj h
      exact .fail i (.inr hi)
    · cases h
  | put i sent =>
    simp only [CopyState.next] at h
    split at h
    · rename_i hi
      split at h
      · rename_i hbuffer
        obtain rfl := Option.some.inj h
        exact .put i sent hi hbuffer
      · cases h
    · cases h
  | land i =>
    simp only [CopyState.next] at h
    split at h
    · rename_i sent p hi hp
      obtain rfl := Option.some.inj h
      exact .land i sent p hi hp
    · cases h
  | respond i answers =>
    simp only [CopyState.next] at h
    split at h
    · rename_i sent landed p hi hp
      split at h
      · rename_i hlanded
        obtain rfl := Option.some.inj h
        exact .respond i sent landed p answers hi hp hlanded
      · cases h
    · cases h
  | yield =>
    simp only [CopyState.next] at h
    split at h
    · rename_i hi
      obtain rfl := Option.some.inj h
      exact .yield hi
    · rename_i hi
      obtain rfl := Option.some.inj h
      exact .restart hi
    · cases h
  | landLate p =>
    simp only [CopyState.next] at h
    split at h
    · rename_i hp
      obtain rfl := Option.some.inj h
      exact .landLate p hp
    · cases h

/-- The item holds its path only because the path was not in the bucket. -/
def CopyItem.Busy : CopyItem → Prop
  | .copying => True
  | .putting _ _ => True
  | _ => False

/-- What holds in every state when the references are ahead. -/
structure CopySafe (inp : CopyPathsInput) (s : CopyState) : Prop where
  queued : ∀ i, s.started ≤ i → s.items i = .queued
  window : s.started ≤ s.yielded + 10
  yielded : ∀ i, i < s.yielded → s.items i = .returned true
  kept : ∀ p ∈ inp.bucket, p ∈ s.present
  busy : ∀ i p, (s.items i).Busy → inp.missing[i]? = some p → p ∉ inp.bucket
  putting : ∀ i sent landed, s.items i = .putting sent landed → 0 < inp.cfg.bufferSize
  landed : ∀ i sent p, s.items i = .putting sent true → inp.missing[i]? = some p → p ∈ s.present
  returned : ∀ i p, s.items i = .returned true → inp.missing[i]? = some p →
    (∀ sent, (inp.narinfo p sent).length < inp.cfg.bufferSize) → p ∈ s.present
  uploaded : ∀ p ∈ s.uploaded, inp.Downloadable s p
  late : ∀ p ∈ s.late, inp.Downloadable s p

/-- A reference of a missing path is in the bucket or stands before the path
in the list. -/
theorem CopyPathsInput.reference_cases (inp : CopyPathsInput) {j : Nat} {p r : StorePath}
    (hp : inp.missing[j]? = some p) (hr : r ∈ (inp.info p).refs) (hne : r ≠ p) :
    r ∈ inp.bucket ∨ ∃ i, i < j ∧ inp.missing[i]? = some r := by
  by_cases hb : r ∈ inp.bucket
  · exact .inl hb
  · obtain ⟨hj, hpj⟩ := List.getElem?_eq_some_iff.mp hp
    have hmem : p ∈ inp.requisites := by
      have : p ∈ inp.missing := hpj ▸ List.getElem_mem hj
      exact List.mem_of_mem_filter this
    have hrmem : r ∈ inp.missing :=
      List.mem_filter.mpr ⟨inp.closed p hmem r hr, by simp [hb]⟩
    obtain ⟨i, hi, hri⟩ := List.getElem_of_mem hrmem
    refine .inr ⟨i, ?_, List.getElem?_eq_some_iff.mpr ⟨hi, hri⟩⟩
    -- the other orders are excluded by the order of the requisites
    rcases Nat.lt_trichotomy i j with hlt | heq | hgt
    · exact hlt
    · subst heq
      exact absurd (hri.symm.trans hpj) hne
    · have hord := List.pairwise_iff_getElem.mp (inp.ordered.filter
        (fun p => inp.failed p || decide (p ∉ inp.bucket))) j i hj hi hgt
      change inp.missing[i] ∉ (inp.info inp.missing[j]).refs at hord
      rw [hri, hpj] at hord
      exact absurd hr hord

namespace CopySafe

variable {inp : CopyPathsInput} {s : CopyState}

theorem start : CopySafe inp inp.start where
  queued _ _ := rfl
  window := Nat.zero_le _
  yielded _ hi := absurd hi (Nat.not_lt_zero _)
  kept _ hp := hp
  busy _ _ hbusy := hbusy.elim
  putting _ _ _ hi := nomatch hi
  landed _ _ _ hi := nomatch hi
  returned _ _ hi := nomatch hi
  uploaded _ hp := nomatch hp
  late _ hp := nomatch hp

theorem lt_started (h : CopySafe inp s) {i : Nat} (hi : s.items i ≠ .queued) : i < s.started := by
  by_contra hlt
  exact hi (h.queued i (Nat.not_lt.mp hlt))

/-- An item that has not returned is changed. -/
theorem setItem (h : CopySafe inp s) {i : Nat} {item : CopyItem}
    (hi : s.items i ≠ .queued) (hreturned : s.items i ≠ .returned true)
    (hbusy : item.Busy → ∀ p, inp.missing[i]? = some p → p ∉ inp.bucket)
    (hputting : ∀ sent landed, item = .putting sent landed → 0 < inp.cfg.bufferSize)
    (hlanded : ∀ sent, item = .putting sent true → ∀ p, inp.missing[i]? = some p → p ∈ s.present)
    (hok : item = .returned true → ∀ p, inp.missing[i]? = some p →
      (∀ sent, (inp.narinfo p sent).length < inp.cfg.bufferSize) → p ∈ s.present) :
    CopySafe inp (s.setItem i item) := by
  have hother : ∀ x, x ≠ i → (s.setItem i item).items x = s.items x := fun x hx =>
    Function.update_of_ne hx _ _
  have hself : (s.setItem i item).items i = item := Function.update_self _ _ _
  constructor
  · intro x hx
    have hlt := h.lt_started hi
    have hne : x ≠ i := fun heq => absurd hx (Nat.not_le.mpr (heq ▸ hlt))
    rw [hother x hne]
    exact h.queued x hx
  · exact h.window
  · intro x hx
    have hne : x ≠ i := fun heq => hreturned (heq ▸ h.yielded x hx)
    rw [hother x hne]
    exact h.yielded x hx
  · exact h.kept
  · intro x p hx hp
    by_cases hxi : x = i
    · subst hxi
      rw [hself] at hx
      exact hbusy hx p hp
    · rw [hother x hxi] at hx
      exact h.busy x p hx hp
  · intro x sent landed hx
    by_cases hxi : x = i
    · subst hxi
      exact hputting sent landed (hself.symm.trans hx)
    · rw [hother x hxi] at hx
      exact h.putting x sent landed hx
  · intro x sent p hx hp
    by_cases hxi : x = i
    · subst hxi
      exact hlanded sent (hself.symm.trans hx) p hp
    · rw [hother x hxi] at hx
      exact h.landed x sent p hx hp
  · intro x p hx hp hfits
    by_cases hxi : x = i
    · subst hxi
      exact hok (hself.symm.trans hx) p hp hfits
    · rw [hother x hxi] at hx
      exact h.returned x p hx hp hfits
  · exact h.uploaded
  · exact h.late

/-- A narinfo whose references are in the bucket becomes an object. -/
theorem publish (h : CopySafe inp s) {p : StorePath} (hp : inp.Downloadable s p) :
    CopySafe inp (s.publish p) := by
  have hmono : ∀ q, inp.Downloadable s q → inp.Downloadable (s.publish p) q := fun q hq r hr hne =>
    List.mem_cons_of_mem p (hq r hr hne)
  exact
    { queued := h.queued
      window := h.window
      yielded := h.yielded
      kept := fun q hq => List.mem_cons_of_mem p (h.kept q hq)
      busy := h.busy
      putting := h.putting
      landed := fun i sent q hi hq => List.mem_cons_of_mem p (h.landed i sent q hi hq)
      returned := fun i q hi hq hfits => List.mem_cons_of_mem p (h.returned i q hi hq hfits)
      uploaded := fun q hq => by
        rcases List.mem_cons.mp hq with rfl | hq
        · exact hmono q hp
        · exact hmono q (h.uploaded q hq)
      late := fun q hq => hmono q (h.late q hq) }

/-- The references of a path that uploads its narinfo have been yielded. -/
theorem downloadable (h : CopySafe inp s) (hahead : inp.ReferencesAhead) {j sent : Nat}
    {landed : Bool} {p : StorePath} (hj : s.items j = .putting sent landed)
    (hp : inp.missing[j]? = some p) : inp.Downloadable s p := by
  intro r hr hne
  by_cases hb : r ∈ inp.bucket
  · exact h.kept r hb
  · obtain hbucket | ⟨i, hij, hri⟩ := inp.reference_cases hp hr hne
    · exact absurd hbucket hb
    have hpb : p ∉ inp.bucket := h.busy j p (hj ▸ trivial) hp
    obtain ⟨hfar, hfits⟩ := hahead (h.putting j sent landed hj) i j p r hij hp hri hpb hb hr
    have hstarted : j < s.started := h.lt_started (by simp [hj])
    have hwindow := h.window
    exact h.returned i r (h.yielded i (by omega)) hri hfits

theorem mem_inFlight {p : StorePath} (hp : p ∈ s.inFlight inp) :
    ∃ i sent, s.items i = .putting sent false ∧ inp.missing[i]? = some p := by
  obtain ⟨i, -, hi⟩ := List.mem_filterMap.mp hp
  cases hitem : s.items i with
  | putting sent landed =>
    cases landed with
    | false => exact ⟨i, sent, hitem, by simpa [hitem] using hi⟩
    | true => simp [hitem] at hi
  | _ => simp [hitem] at hi

theorem step (h : CopySafe inp s) (hahead : inp.ReferencesAhead) {s' : CopyState}
    (hstep : CopyStep inp s s') : CopySafe inp s' := by
  cases hstep with
  | start hwindow =>
    have hitems : ∀ i, i ≠ s.started →
        (s.setItem s.started .asking).items i = s.items i := fun i hi =>
      Function.update_of_ne hi _ _
    have hself : (s.setItem s.started .asking).items s.started = .asking :=
      Function.update_self _ _ _
    constructor
    · intro i hi
      have hi' : s.started + 1 ≤ i := hi
      exact (hitems i (by omega)).trans (h.queued i (by omega))
    · exact hwindow
    · intro i hi
      have hret := h.yielded i hi
      have hne : i ≠ s.started := by
        rintro rfl
        rw [h.queued _ le_rfl] at hret
        cases hret
      exact (hitems i hne).trans hret
    · exact h.kept
    · intro i p hi hp
      by_cases hx : i = s.started
      · subst hx
        exact absurd (hself ▸ hi : CopyItem.Busy .asking) id
      · exact h.busy i p (hitems i hx ▸ hi) hp
    · intro i sent landed hi
      by_cases hx : i = s.started
      · subst hx
        cases hself.symm.trans hi
      · exact h.putting i sent landed ((hitems i hx).symm.trans hi)
    · intro i sent p hi hp
      by_cases hx : i = s.started
      · subst hx
        cases hself.symm.trans hi
      · exact h.landed i sent p ((hitems i hx).symm.trans hi) hp
    · intro i p hi hp hfits
      by_cases hx : i = s.started
      · subst hx
        cases hself.symm.trans hi
      · exact h.returned i p ((hitems i hx).symm.trans hi) hp hfits
    · exact h.uploaded
    · exact h.late
  | found i p hi hp hpresent =>
    refine h.setItem (by simp [hi]) (by simp [hi]) (fun hb => hb.elim) (by simp) (by simp) ?_
    intro _ q hq _
    obtain rfl := Option.some.inj (hp.symm.trans hq)
    exact hpresent
  | copy i p hi hp hpresent =>
    refine h.setItem (by simp [hi]) (by simp [hi]) ?_ (by simp) (by simp) (by simp)
    intro _ q hq hb
    obtain rfl := Option.some.inj (hp.symm.trans hq)
    exact hpresent (h.kept _ hb)
  | fail i hi =>
    refine h.setItem ?_ ?_ (fun hb => hb.elim) (by simp) (by simp) (by simp)
    · rcases hi with hi | hi <;> simp [hi]
    · rcases hi with hi | hi <;> simp [hi]
  | put i sent hi hbuffer =>
    refine h.setItem (by simp [hi]) (by simp [hi]) ?_ (fun _ _ _ => hbuffer) (by simp) (by simp)
    intro _ q hq
    exact h.busy i q (hi ▸ trivial) hq
  | land i sent p hi hp =>
    -- the object appears, and the future does not know of it yet
    have hpub := h.publish (h.downloadable hahead hi hp)
    change CopySafe inp ((s.publish p).setItem i (.putting sent true))
    refine hpub.setItem (by simp [CopyState.publish, hi]) (by simp [CopyState.publish, hi]) ?_
      (fun _ _ _ => h.putting i sent false hi) ?_ (by simp)
    · intro _ q hq
      exact h.busy i q (hi ▸ trivial) hq
    · intro _ _ q hq
      obtain rfl := Option.some.inj (hp.symm.trans hq)
      exact List.mem_cons_self
  | respond i sent landed p answers hi hp hlanded =>
    refine h.setItem (by simp [hi]) (by simp [hi]) (fun hb => hb.elim) (by simp) (by simp) ?_
    intro hret q hq hfits
    obtain rfl := Option.some.inj (hp.symm.trans hq)
    -- a narinfo that fits is put in one request, which succeeds only with the object
    have hsmall := hfits sent
    have hstores : answers.stores inp.cfg.bufferSize (inp.narinfo p sent).length = true := by
      have hput := CopyItem.returned.inj hret
      simp only [S3Answers.returns, S3Answers.stores, if_pos hsmall] at hput ⊢
      exact hput
    obtain rfl := hlanded hstores
    exact h.landed i sent p hi hp
  | yield hi =>
    refine { h with window := ?_, yielded := ?_ }
    · have := h.window
      simp only
      omega
    · intro i hlt
      have hlt' : i < s.yielded + 1 := hlt
      by_cases hx : i = s.yielded
      · exact hx ▸ hi
      · exact h.yielded i (by omega)
  | restart hi =>
    refine ⟨fun _ _ => rfl, Nat.zero_le _, fun _ hlt => absurd hlt (Nat.not_lt_zero _), h.kept,
      fun _ _ hbusy => hbusy.elim, ?_, ?_, ?_, h.uploaded, ?_⟩
    · rintro _ _ _ ⟨⟩
    · rintro _ _ _ ⟨⟩
    · rintro _ _ ⟨⟩
    · intro p hp
      rcases List.mem_append.mp hp with hp | hp
      · obtain ⟨j, sent, hj, hpj⟩ := mem_inFlight hp
        exact h.downloadable hahead hj hpj
      · exact h.late p hp
  | landLate p hp => exact h.publish (h.late p hp)

theorem reach (hahead : inp.ReferencesAhead)
    (hreach : Lts.Reach (CopyState.next inp) Lts.anyStep inp.start s) : CopySafe inp s :=
  hreach.invariant CopySafe.start
    (fun _ _ _ hs _ hnext => hs.step hahead (copyStep_of_next hnext))

end CopySafe

/-! ## The window is needed -/

/-- A run from `s` to `t` moves the `i`-th future to `item` and makes the
narinfos of `added` objects. -/
structure CopyMoves (inp : CopyPathsInput) (s t : CopyState) (i : Nat) (item : CopyItem)
    (added : List StorePath) : Prop where
  reach : Lts.Reach (CopyState.next inp) Lts.anyStep s t
  items : t.items = Function.update s.items i item
  counts : t.started = s.started ∧ t.yielded = s.yielded ∧ t.ended = s.ended
  present : t.present = added ++ s.present
  uploaded : t.uploaded = added ++ s.uploaded

namespace CopyMoves

variable {inp : CopyPathsInput} {s t : CopyState} {i sent : Nat} {p : StorePath}
  {item : CopyItem} {added : List StorePath}

/-- One more step of the same future. -/
theorem step (h : CopyMoves inp s t i item added) {item' : CopyItem} {a : CopyAction}
    (hnext : CopyState.next inp t a = some (t.setItem i item')) :
    ∃ t', CopyMoves inp s t' i item' added := by
  refine ⟨_, h.reach.step a trivial hnext, ?_, h.counts, h.present, h.uploaded⟩
  simp only [CopyState.setItem, h.items, Function.update_idem]

theorem refl (hi : s.items i = item) : CopyMoves inp s s i item [] where
  reach := .refl
  items := by rw [← hi, Function.update_eq_self]
  counts := ⟨rfl, rfl, rfl⟩
  present := rfl
  uploaded := rfl

theorem item_eq (h : CopyMoves inp s t i item added) : t.items i = item := by
  rw [h.items, Function.update_self]

theorem answer (hi : s.items i = .asking) (hp : inp.missing[i]? = some p) :
    ∃ t, CopyMoves inp s t i (if p ∈ s.present then .returned true else .copying) [] :=
  (refl hi).step (a := .answer i true) (by simp [CopyState.next, hi, hp])

theorem put (h : CopyMoves inp s t i .copying added) (hbuffer : 0 < inp.cfg.bufferSize)
    (sent : Nat) : ∃ t', CopyMoves inp s t' i (.putting sent false) added :=
  h.step (a := .put i sent) (by simp [CopyState.next, h.item_eq, hbuffer])

theorem land (h : CopyMoves inp s t i (.putting sent false) added)
    (hp : inp.missing[i]? = some p) :
    ∃ t', CopyMoves inp s t' i (.putting sent true) (p :: added) := by
  refine ⟨(t.setItem i (.putting sent true)).publish p, h.reach.step (.land i) trivial ?_, ?_,
    h.counts, ?_, ?_⟩
  · simp [CopyState.next, h.item_eq, hp]
  · simp only [CopyState.publish, CopyState.setItem, h.items, Function.update_idem]
  · simp [CopyState.publish, CopyState.setItem, h.present]
  · simp [CopyState.publish, CopyState.setItem, h.uploaded]

theorem respond {landed : Bool} (h : CopyMoves inp s t i (.putting sent landed) added)
    (hp : inp.missing[i]? = some p) (answers : S3Answers)
    (hreturns : answers.returns inp.cfg.bufferSize (inp.narinfo p sent).length = true)
    (hlanded : answers.stores inp.cfg.bufferSize (inp.narinfo p sent).length = true →
      landed = true) : ∃ t', CopyMoves inp s t' i (.returned true) added :=
  h.step (a := .respond i answers)
    (by simp only [CopyState.next, h.item_eq, hp, if_pos hlanded, hreturns])

/-- A path that is not in the bucket goes as far as its narinfo. -/
theorem published (hi : s.items i = .asking) (hp : inp.missing[i]? = some p)
    (hmissing : p ∉ s.present) (hbuffer : 0 < inp.cfg.bufferSize) :
    ∃ t, CopyMoves inp s t i (.putting 0 true) [p] := by
  obtain ⟨t₁, h₁⟩ := answer hi hp
  rw [if_neg hmissing] at h₁
  obtain ⟨t₂, h₂⟩ := h₁.put hbuffer 0
  exact h₂.land hp

end CopyMoves

/-- A run has yielded the first `k` paths and started no other.  It has
uploaded no narinfo but theirs, and not that of the path at `skip`. -/
structure CopyReady (inp : CopyPathsInput) (s : CopyState) (k skip : Nat) : Prop where
  reach : Lts.Reach (CopyState.next inp) Lts.anyStep inp.start s
  started : s.started = k
  yielded : s.yielded = k
  ended : s.ended = false
  queued : ∀ i, k ≤ i → s.items i = .queued
  present : ∀ q ∈ s.present, q ∈ inp.bucket ∨
    ∃ i, i < k ∧ i ≠ skip ∧ inp.missing[i]? = some q

namespace CopyReady

variable {inp : CopyPathsInput} {s : CopyState} {k skip : Nat} {p : StorePath}

theorem start : CopyReady inp inp.start 0 skip where
  reach := .refl
  started := rfl
  yielded := rfl
  ended := rfl
  queued _ _ := rfl
  present _ hq := .inl hq

/-- The next future is taken from the list, and later it is yielded. -/
theorem yield (h : CopyReady inp s k skip) {t : CopyState} {added : List StorePath}
    (hk : k < inp.missing.length)
    (hmoves : CopyMoves inp { s.setItem k .asking with started := k + 1 } t k (.returned true)
      added)
    (hadded : ∀ q ∈ added, k ≠ skip ∧ inp.missing[k]? = some q) :
    ∃ s', CopyReady inp s' (k + 1) skip := by
  have hstart : CopyState.next inp s .start =
      some { s.setItem k .asking with started := k + 1 } := by
    simp [CopyState.next, h.started, h.yielded, h.ended, hk]
  obtain ⟨hstarted, hyielded, hended⟩ := hmoves.counts
  have hyielded' : t.yielded = k := hyielded.trans h.yielded
  refine ⟨{ t with yielded := t.yielded + 1 },
    ((h.reach.step .start trivial hstart).trans hmoves.reach).step .yield trivial ?_, hstarted,
    by simp [hyielded'], hended.trans h.ended, ?_, ?_⟩
  · simp [CopyState.next, hyielded', hmoves.item_eq]
  · intro i hi
    have hne : i ≠ k := by omega
    simp only [hmoves.items, CopyState.setItem, Function.update_of_ne hne]
    exact h.queued i (by omega)
  · intro q hq
    simp only [hmoves.present, CopyState.setItem, List.mem_append] at hq
    rcases hq with hq | hq
    · exact .inr ⟨k, by omega, hadded q hq⟩
    · obtain hb | ⟨i, hi, hskip, hq⟩ := h.present q hq
      · exact .inl hb
      · exact .inr ⟨i, by omega, hskip, hq⟩

/-- The next path is copied and yielded.  When it is the one to skip, S3
refuses the end of the upload of its narinfo, and the future returns `Ok`. -/
theorem succ (h : CopyReady inp s k skip) (hbuffer : 0 < inp.cfg.bufferSize)
    (hp : inp.missing[k]? = some p)
    (hlarge : k = skip → ∃ sent, inp.cfg.bufferSize ≤ (inp.narinfo p sent).length) :
    ∃ s', CopyReady inp s' (k + 1) skip := by
  have hk : k < inp.missing.length := (List.getElem?_eq_some_iff.mp hp).1
  have hasking : ({ s.setItem k .asking with started := k + 1 } : CopyState).items k = .asking :=
    Function.update_self _ _ _
  by_cases hpresent : p ∈ s.present
  · obtain ⟨t, ht⟩ := CopyMoves.answer hasking hp
    rw [if_pos (show p ∈ (s.setItem k .asking).present from hpresent)] at ht
    exact h.yield hk ht (by simp)
  · obtain ⟨t₁, h₁⟩ := CopyMoves.answer hasking hp
    rw [if_neg (show p ∉ (s.setItem k .asking).present from hpresent)] at h₁
    by_cases hskip : k = skip
    · obtain ⟨sent, hsent⟩ := hlarge hskip
      obtain ⟨t₂, h₂⟩ := h₁.put hbuffer sent
      have hmulti : ¬ (inp.narinfo p sent).length < inp.cfg.bufferSize := Nat.not_lt.mpr hsent
      obtain ⟨t₃, h₃⟩ := h₂.respond hp { complete := false }
        (by simp [S3Answers.returns, hmulti]) (by simp [S3Answers.stores, hmulti])
      exact h.yield hk h₃ (by simp)
    · obtain ⟨t₂, h₂⟩ := h₁.put hbuffer 0
      obtain ⟨t₃, h₃⟩ := h₂.land hp
      obtain ⟨t₄, h₄⟩ := h₃.respond hp {} (by simp [S3Answers.returns]) (fun _ => rfl)
      refine h.yield hk h₄ ?_
      intro q hq
      obtain rfl := List.mem_singleton.mp hq
      exact ⟨hskip, hp⟩

/-- Futures start up to the end of the window. -/
theorem window (h : CopyReady inp s k skip) (d : Nat) (hd : d ≤ 10)
    (hlen : k + d ≤ inp.missing.length) :
    ∃ t, Lts.Reach (CopyState.next inp) Lts.anyStep inp.start t ∧ t.present = s.present ∧
      t.started = k + d ∧ t.yielded = k ∧ t.ended = false ∧
      ∀ i, k ≤ i → i < k + d → t.items i = .asking := by
  induction d with
  | zero => exact ⟨s, h.reach, rfl, h.started, h.yielded, h.ended, fun i hi hlt => by omega⟩
  | succ d ih =>
    obtain ⟨t, hreach, hpresent, hstarted, hyielded, hended, hasking⟩ := ih (by omega) (by omega)
    refine ⟨{ t.setItem t.started .asking with started := t.started + 1 },
      hreach.step .start trivial ?_, hpresent, by simp only [hstarted]; omega, hyielded, hended, ?_⟩
    · have hlen' : k + d < inp.missing.length := by omega
      have hwindow : k + d < k + 10 := by omega
      simp [CopyState.next, hstarted, hyielded, hended, hlen', hwindow]
    · intro i hi hlt
      by_cases hx : i = t.started
      · subst hx
        exact Function.update_self _ _ _
      · simp only [CopyState.setItem, Function.update_of_ne hx]
        exact hasking i hi (by omega)

end CopyReady

end QueueRunner
