import Mcsos.Lib.Interleaving
import Mcsos.Sync.Lockdep

/-!
# The mutex

The model of `mutex.c`.  A mutex is two words, `locked` and `owner`, and neither
`mcs_mutex_try_lock` nor `mcs_mutex_unlock` changes both of them at once, so that every thread may
see the mutex locked by nobody.  What keeps the threads apart is `locked` alone, which is taken by a
compare-and-exchange and given back last; `owner` keeps those away who have nothing to give back.

The functions are programs of atomic operations, in the order of the source.  What a thread has done
is recorded in its history, and whether it holds the mutex is read off there: from an
`mcs_mutex_try_lock` that has returned `MCS_SYNC_OK` until it calls `mcs_mutex_unlock` again.
-/

set_option autoImplicit false

namespace Mcsos
namespace Sync

open Interleaving Prog

/-- The words of `mcs_mutex_t` that the calls look at -/
structure Mutex where
  locked : UInt32
  owner : UInt64
  deriving DecidableEq, Repr

/-- `mcs_mutex_init` -/
def mutexInit : Mutex where
  locked := 0
  owner := 0

/-- A return value; `.ok ()` is `MCS_SYNC_OK`. -/
abbrev Result : Type := Except Err Unit

/-- `mcs_mutex_try_lock` -/
def mutexTryLock (ownerId : UInt64) : Prog Mutex Result := do
  if ownerId = 0 then
    return .error .einval
  else
    let exchanged ← compareExchange (fun mutex ↦ mutex.locked = 0) fun mutex ↦
      { mutex with locked := 1 }
    if !exchanged then
      let owner ← load fun mutex ↦ mutex.owner
      if owner = ownerId then
        return .error .edeadlk
      else
        return .error .ebusy
    else
      store fun mutex ↦ { mutex with owner := ownerId }
      return .ok ()

/-- `mcs_mutex_unlock` -/
def mutexUnlock (ownerId : UInt64) : Prog Mutex Result := do
  if ownerId = 0 then
    return .error .einval
  else
    let owner ← load fun mutex ↦ mutex.owner
    if owner ≠ ownerId then
      return .error .eperm
    else
      store fun mutex ↦ { mutex with owner := 0 }
      store fun mutex ↦ { mutex with locked := 0 }
      return .ok ()

/-- The calls on a mutex -/
inductive Call
  | tryLock
  | unlock
  deriving DecidableEq, Repr

/-- A call by the thread with this owner id. -/
def mutexCall (ownerId : UInt64) : Call → Prog Mutex Result
  | .tryLock => mutexTryLock ownerId
  | .unlock => mutexUnlock ownerId

/-- Does a thread that has done this, latest first, hold the mutex? -/
def holds : List (Event Call Result) → Bool
  | [] => false
  | .returned .tryLock (.ok ()) :: _ => true
  | .called .unlock :: _ => false
  | _ :: past => holds past

/-! ## The parts of the calls -/

/-- `mcs_mutex_try_lock` after a failed exchange -/
def contended (ownerId : UInt64) : Prog Mutex Result := do
  let owner ← load fun mutex ↦ mutex.owner
  if owner = ownerId then
    return .error .edeadlk
  else
    return .error .ebusy

/-- `mcs_mutex_try_lock` after a successful exchange -/
def takeOwnership (ownerId : UInt64) : Prog Mutex Result := do
  store fun mutex ↦ { mutex with owner := ownerId }
  return .ok ()

/-- `mcs_mutex_unlock` after its test -/
def giveUpOwnership : Prog Mutex Result := do
  store fun mutex ↦ { mutex with owner := 0 }
  store fun mutex ↦ { mutex with locked := 0 }
  return .ok ()

/-- `mcs_mutex_unlock` at its last store -/
def release : Prog Mutex Result := do
  store fun mutex ↦ { mutex with locked := 0 }
  return .ok ()

section Parts

variable {id : UInt64} (h0 : id ≠ 0)

include h0

theorem mutexTryLock_eq : mutexTryLock id
    = compareExchange (fun mutex ↦ mutex.locked = 0) (fun mutex ↦ { mutex with locked := 1 })
      >>= fun exchanged ↦ if !exchanged then contended id else takeOwnership id :=
  if_neg h0

theorem mutexUnlock_eq : mutexUnlock id = (load fun mutex ↦ mutex.owner) >>= fun owner ↦
    if owner ≠ id then return .error .eperm else giveUpOwnership :=
  if_neg h0

end Parts

end Sync
end Mcsos
