import Mathlib.Algebra.GroupWithZero.Nat
import Mathlib.Algebra.Ring.Int.Defs

/-!
# Names and pointers

The queue runner shares its data through `Arc` and `Weak` pointers.  A
pointer is modelled by a reference: the immutable fields of the object
that other code reads through the pointer, and a number that tells two
allocations with the same fields apart.  Two references are equal when
they are the same allocation.  The mutable fields live in a heap, a
function from references to records.

The source compares steps and builds by their derivation path.  The model
writes that comparison out, so equality of references stays identity.
-/

namespace QueueRunner

/-- `nix_utils::StorePath`. -/
structure StorePath where
  baseName : String
deriving DecidableEq, Repr

/-- `state::System`. -/
abbrev System := String

/-- `uuid::Uuid`.  Only fresh values and equality are used. -/
abbrev Uuid := Nat

/-- `db::models::BuildID`, an `i32`. -/
abbrev BuildID := Int

/-- `jiff::Timestamp`, in milliseconds. -/
abbrev Timestamp := Int

/-- An `Arc<Step>`.  `Step.drv_path` never changes, so it is read from the
pointer. -/
structure StepRef where
  drvPath : StorePath
  gen : Nat
deriving DecidableEq, Repr

/-- An `Arc<StepInfo>` with its field `step`. -/
structure InfoRef where
  step : StepRef
  gen : Nat
deriving DecidableEq, Repr

/-- An `Arc<Build>` with its fields `id` and `drv_path`. -/
structure BuildRef where
  id : BuildID
  drvPath : StorePath
  gen : Nat
deriving DecidableEq, Repr

/-- An `Arc<Machine>` with its field `id`. -/
structure MachineRef where
  id : Uuid
  gen : Nat
deriving DecidableEq, Repr

/-- The path of the derivation that a step info is about:
`step_info.step.get_drv_path()`. -/
def InfoRef.drvPath (i : InfoRef) : StorePath := i.step.drvPath

/-- `nix_utils::DerivationOutput`, the fields the queue runner reads. -/
structure DerivationOutput where
  name : String
  path : Option StorePath
deriving DecidableEq, Repr

/-- `nix_utils::Derivation`, the fields the queue runner reads.  The
required features are `env.get_required_system_features()`. -/
structure Derivation where
  system : System
  inputDrvs : List StorePath
  outputs : List DerivationOutput
  requiredFeatures : List String
deriving DecidableEq, Repr

end QueueRunner
