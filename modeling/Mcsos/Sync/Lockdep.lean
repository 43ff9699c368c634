import Mcsos.Lib.Program

/-!
# The lock-order validator

The model of `lockdep.c`.  A thread's state is a stack of the classes of the locks it has announced;
classes have to be announced in increasing order and are taken back from the top.
-/

set_option autoImplicit false

namespace Mcsos
namespace Sync

open Program

/-- The codes `MCS_SYNC_*` other than `MCS_SYNC_OK` -/
inductive Err
  | einval
  | ebusy
  | eperm
  | edeadlk
  | eoverflow
  deriving DecidableEq, Repr

/-- `MCS_LOCKDEP_MAX_HELD` -/
abbrev lockdepMaxHeld : ℕ := 16

/-- `mcs_lockdep_state_t`; names are pointers to strings -/
structure LockdepState (N : Type) where
  heldClass : ℕ → UInt32
  heldName : ℕ → Option N
  depth : ℕ
  violationCount : UInt32

section Calls

variable {N : Type}

/-- `mcs_lockdep_init` -/
def lockdepInit (state : LockdepState N) : LockdepState N where
  heldClass := fun i ↦ if i < lockdepMaxHeld then 0 else state.heldClass i
  heldName := fun i ↦ if i < lockdepMaxHeld then none else state.heldName i
  depth := 0
  violationCount := 0

/-- `mcs_lockdep_is_held` -/
def lockdepIsHeld (state : LockdepState N) (classId : UInt32) : Bool :=
  classId ≠ 0 ∧
    (List.range (min state.depth lockdepMaxHeld)).any fun i ↦ state.heldClass i = classId

/-- `state->violation_count++` -/
def countViolation (state : LockdepState N) : LockdepState N :=
  { state with violationCount := state.violationCount + 1 }

/-- The state with one more class on the stack. -/
def push (classId : UInt32) (name : Option N) (state : LockdepState N) : LockdepState N :=
  { state with
    heldClass := Function.update state.heldClass state.depth classId
    heldName := Function.update state.heldName state.depth name
    depth := state.depth + 1 }

/-- The state without the topmost class. -/
def pop (state : LockdepState N) : LockdepState N :=
  { state with
    heldClass := Function.update state.heldClass (state.depth - 1) 0
    heldName := Function.update state.heldName (state.depth - 1) none
    depth := state.depth - 1 }

/-- `mcs_lockdep_before_acquire` -/
def lockdepBeforeAcquire (classId : UInt32) (name : Option N) :
    EStateM Err (LockdepState N) Unit := do
  failIf (classId = 0) .einval
  let state ← get
  onError (do
    failIf (lockdepMaxHeld ≤ state.depth) .eoverflow
    failIf ((List.range state.depth).any fun i ↦ state.heldClass i = classId) .edeadlk
    failIf (0 < state.depth ∧ classId < state.heldClass (state.depth - 1)) .edeadlk) countViolation
  modify (push classId name)

/-- `mcs_lockdep_after_release` -/
def lockdepAfterRelease (classId : UInt32) (_name : Option N) :
    EStateM Err (LockdepState N) Unit := do
  failIf (classId = 0) .einval
  let state ← get
  onError (do
    failIf (state.depth = 0) .eperm
    failIf (state.heldClass (state.depth - 1) ≠ classId) .edeadlk) countViolation
  modify pop

end Calls

end Sync
end Mcsos
