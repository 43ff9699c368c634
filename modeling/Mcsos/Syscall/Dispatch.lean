import Mathlib.Logic.Function.Basic
import Mcsos.Lib.Outcome

/-!
# System calls

The model of `syscall.c`.  A system call is a number and six arguments, and what it does in the end
is to call one of four functions that the rest of the kernel has registered.  Here these are any
functions on a state `K` of their own; those that `kmain.c` registers are in `Kmain.Services`.  The
calls that reach them are kept in a list, so that one can speak of their arguments.

Calling a function that is not there is a `Fault`.  It is no value that a system call returns.
-/

set_option autoImplicit false

namespace Mcsos
namespace Syscall

open Program

/-- `mcsos_syscall_status_t` -/
inductive Status
  | ok
  | einval
  | enosys
  | efault
  | eperm
  | ebusy
  deriving DecidableEq, Repr

/-- The value of a status, as a system call returns it. -/
def Status.value : Status → Int64
  | ok => 0
  | einval => -22
  | enosys => -38
  | efault => -14
  | eperm => -1
  | ebusy => -16

/-- `mcsos_user_region_t` -/
structure UserRegion where
  base : UInt64
  limit : UInt64
  deriving DecidableEq, Repr

/-- `mcsos_syscall_ops_t`; any of the functions may be missing. -/
structure SyscallOps (K : Type) where
  getTicks : Option (K → UInt64 × K)
  yieldCurrent : Option (K → K)
  exitCurrent : Option (Int32 → K → K)
  writeSerial : Option (UInt64 → UInt64 → K → Int64 × K)

/-- A call of one of the registered functions. -/
inductive Service
  | getTicks
  | yieldCurrent
  | exitCurrent (code : Int32)
  | writeSerial (buf len : UInt64)
  deriving DecidableEq, Repr

/-- `g_ops`, `g_user_region`, the rest of the kernel, and the calls that have been made to it. -/
structure State (K : Type) where
  ops : SyscallOps K
  userRegion : UserRegion
  kernel : K
  calls : List Service

/-- A call of a function that is not there. -/
inductive Fault
  | nullFunction
  deriving DecidableEq, Repr

section Model

variable {K : Type}

/-- What a system call computes. -/
abbrev M (K : Type) : Type → Type := EStateM Fault (State K)

/-- `default_write_serial` -/
def defaultWriteSerial (_buf len : UInt64) (k : K) : Int64 × K := (len.toInt64, k)

/-- `mcsos_syscall_init`; `none` is the null pointer -/
def syscallInit (ops : Option (SyscallOps K)) (s : State K) : State K :=
  { s with
    ops :=
      { getTicks := ops.bind (·.getTicks)
        yieldCurrent := ops.bind (·.yieldCurrent)
        exitCurrent := ops.bind (·.exitCurrent)
        writeSerial := (ops.bind (·.writeSerial)).orElse fun _ ↦ some defaultWriteSerial } }

/-- `mcsos_syscall_set_user_region` -/
def setUserRegion (region : UserRegion) (s : State K) : State K := { s with userRegion := region }

/-! ## User memory -/

/-- `mcsos_user_check_range` -/
def userCheckRange (region : UserRegion) (addr len : UInt64) : Bool :=
  if len = 0 then true
  else if region.base = 0 ∨ region.limit ≤ region.base then false
  else if addr < region.base then false
  else if region.limit < addr then false
  else
    let last := addr + len - 1
    if last < addr then false
    else if region.limit ≤ last then false
    else true

/-- Memory, and the addresses that have been read from in it. -/
structure Memory where
  byte : UInt64 → UInt8
  read : List UInt64

/-- `*d = *s` -/
def Memory.copyByte (m : Memory) (d s : UInt64) : Memory where
  byte := Function.update m.byte d (m.byte s)
  read := m.read ++ [s]

/-- The loop of `mcsos_copy_from_user`, with `n` bytes to go from byte `i` on. -/
def copyLoop (dst src : UInt64) : ℕ → UInt64 → Memory → Memory
  | 0, _, m => m
  | n + 1, i, m => copyLoop dst src n (i + 1) (m.copyByte (dst + i) (src + i))

/-- `mcsos_copy_from_user` -/
def copyFromUser (region : UserRegion) (dst src len : UInt64) (m : Memory) : Status × Memory :=
  if len = 0 then (.ok, m)
  else if dst = 0 ∨ src = 0 then (.einval, m)
  else if !userCheckRange region src len then (.efault, m)
  else (.ok, copyLoop dst src len.toNat 0 m)

/-! ## The calls -/

/-- The arguments of a system call. -/
structure Args where
  arg0 : UInt64
  arg1 : UInt64
  arg2 : UInt64
  arg3 : UInt64
  arg4 : UInt64
  arg5 : UInt64

/-- Make a note of a call, and make it. -/
def callService {α : Type} (service : Service) (f : Option (K → α × K)) : M K α := do
  modify fun s ↦ { s with calls := s.calls ++ [service] }
  let f ← expect f .nullFunction
  modifyGet fun s ↦ ((f s.kernel).1, { s with kernel := (f s.kernel).2 })

/-- `sys_ping` -/
def sysPing (_args : Args) : M K Int64 := pure 0x2605020A

/-- `sys_get_ticks` -/
def sysGetTicks (_args : Args) : M K Int64 := do
  let s ← get
  if s.ops.getTicks.isNone then pure Status.ebusy.value
  else
    let ticks ← callService .getTicks s.ops.getTicks
    pure ticks.toInt64

/-- `sys_write_serial` -/
def sysWriteSerial (args : Args) : M K Int64 := do
  let ptr := args.arg0
  let len := args.arg1
  let s ← get
  if ptr = 0 then pure Status.einval.value
  else if 4096 < len then pure Status.einval.value
  else if !userCheckRange s.userRegion ptr len then pure Status.efault.value
  else callService (.writeSerial ptr len) (s.ops.writeSerial.map fun f ↦ f ptr len)

/-- `sys_yield` -/
def sysYield (_args : Args) : M K Int64 := do
  let s ← get
  if s.ops.yieldCurrent.isNone then pure Status.ebusy.value
  else
    callService .yieldCurrent (s.ops.yieldCurrent.map fun f k ↦ ((), f k))
    pure Status.ok.value

/-- `sys_exit_thread` -/
def sysExitThread (args : Args) : M K Int64 := do
  let code := args.arg0.toUInt32.toInt32
  let s ← get
  if s.ops.exitCurrent.isNone then pure Status.ebusy.value
  else
    callService (.exitCurrent code) (s.ops.exitCurrent.map fun f k ↦ ((), f code k))
    pure Status.ok.value

/-- `MCSOS_SYS_MAX` -/
abbrev sysMax : UInt64 := 5

/-- `g_table` -/
def table : List (Args → M K Int64) :=
  [sysPing, sysGetTicks, sysWriteSerial, sysYield, sysExitThread]

/-- `mcsos_syscall_dispatch` -/
def syscallDispatch (nr : UInt64) (args : Args) : M K Int64 :=
  if sysMax ≤ nr then pure Status.enosys.value
  else (table[nr.toNat]?).elim (pure Status.enosys.value) fun fn ↦ fn args

/-- `mcsos_syscall_frame_t` -/
structure Frame where
  nr : UInt64
  args : Args
  ret : Int64

/-- `mcsos_syscall_dispatch_frame`; `none` is the null pointer -/
def syscallDispatchFrame (frame : Option Frame) : M K (Option Frame) :=
  frame.elim (pure none) fun frame ↦ do
    let ret ← syscallDispatch frame.nr frame.args
    pure (some { frame with ret := ret })

end Model

end Syscall
end Mcsos
