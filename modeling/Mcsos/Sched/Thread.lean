import Mathlib.Logic.Function.Basic
import Mathlib.Tactic.Ring
import Mcsos.Lib.Outcome

/-!
# Threads and the scheduler

The model of `mcsos_thread.c`, as it is built for tests on a host: threads are objects in memory,
linked to a queue by their `next` pointers, and the scheduler knows the thread that runs and both
ends of the queue.  A pointer to a thread is an address, and 0 is the null pointer.  Switching
registers and the threads' stacks are left out; of the stack a thread keeps the pointer.

The loops that follow `next` pointers would not end on a cycle.  They are given 2^64 steps, one for
every address, and `none` stands for a call that does not return.
-/

set_option autoImplicit false

namespace Mcsos
namespace Sched

open Program

/-- A pointer to a thread. -/
abbrev Ptr : Type := UInt64

/-- `MCSOS_THREAD_MAGIC` -/
abbrev threadMagic : UInt64 := 0x4d43534f53544852

/-- `MCSOS_STACK_ALIGN` -/
abbrev stackAlign : UInt64 := 16

/-- `MCSOS_MIN_KERNEL_STACK` -/
abbrev minKernelStack : UInt64 := 4096

/-- `mcsos_thread_state_t` -/
inductive ThreadState
  | new
  | ready
  | running
  | blocked
  | zombie
  deriving DecidableEq, Repr

/-- The error values of `mcsos_sched_result_t`. -/
inductive Err
  | einval
  | estate
  | estack
  | ecorrupt
  deriving DecidableEq, Repr

/-- `mcsos_context_t` -/
structure Context where
  rsp : UInt64
  rbp : UInt64
  rbx : UInt64
  r12 : UInt64
  r13 : UInt64
  r14 : UInt64
  r15 : UInt64
  rip : UInt64

/-- `mcsos_thread_t` -/
structure Thread where
  magic : UInt64
  id : UInt64
  name : UInt64
  state : ThreadState
  context : Context
  entry : UInt64
  arg : UInt64
  stackBase : UInt64
  stackSize : UInt64
  next : Ptr
  switches : UInt64
  ticks : UInt64
  exitCode : Int32

/-- `mcsos_scheduler_t` -/
structure Scheduler where
  current : Ptr
  idle : Ptr
  readyHead : Ptr
  readyTail : Ptr
  nextId : UInt64
  runnableCount : UInt64
  contextSwitches : UInt64
  ticks : UInt64
  initialized : Bool

/-- The memory of threads, and the scheduler. -/
structure State where
  threads : Ptr → Thread
  sched : Scheduler

/-- Change the thread behind a pointer. -/
def State.modifyThread (s : State) (p : Ptr) (f : Thread → Thread) : State :=
  { s with threads := Function.update s.threads p (f (s.threads p)) }

/-- `thread->state = state` -/
def setState (p : Ptr) (state : ThreadState) (s : State) : State :=
  s.modifyThread p fun t ↦ { t with state := state }

/-- `thread->next = next` -/
def setNext (p next : Ptr) (s : State) : State :=
  s.modifyThread p fun t ↦ { t with next := next }

/-- `thread->switches++` -/
def countSwitch (p : Ptr) (s : State) : State :=
  s.modifyThread p fun t ↦ { t with switches := t.switches + 1 }

/-- `align_down_uintptr` -/
def alignDownUintptr (value alignment : UInt64) : UInt64 := value &&& ~~~(alignment - 1)

/-- `valid_thread_object` -/
def validThreadObject (s : State) (p : Ptr) : Bool := p != 0 && (s.threads p).magic == threadMagic

/-- `zero_context` -/
def zeroContext : Context := ⟨0, 0, 0, 0, 0, 0, 0, 0⟩

/-- `mcsos_scheduler_init`, where `name` is the address of the text `"boot"` -/
def schedulerInit (bootThread name : UInt64) : EStateM Err State Unit := do
  failIf (bootThread = 0) .einval
  modify fun s ↦
    { s.modifyThread bootThread fun _ ↦
        { magic := threadMagic, id := 0, name := name, state := .running, context := zeroContext,
          entry := 0, arg := 0, stackBase := 0, stackSize := 0, next := 0, switches := 0,
          ticks := 0, exitCode := 0 } with
      sched :=
        { current := bootThread, idle := bootThread, readyHead := 0, readyTail := 0, nextId := 1,
          runnableCount := 0, contextSwitches := 0, ticks := 0, initialized := true } }

/-- `mcsos_thread_prepare`, where `trampoline` is the address of `mcsos_thread_trampoline` -/
def threadPrepare (trampoline : UInt64) (thread name entry arg stackBase stackSize id : UInt64) :
    EStateM Err State Unit := do
  failIf (thread = 0 ∨ entry = 0 ∨ stackBase = 0) .einval
  failIf (stackSize < minKernelStack) .estack
  let high := stackBase + stackSize
  failIf (high ≤ stackBase) .estack
  let top := alignDownUintptr high stackAlign
  failIf (top ≤ stackBase + 128) .estack
  modify fun s ↦ s.modifyThread thread fun _ ↦
    { magic := threadMagic, id := id, name := name, state := .new,
      context := { zeroContext with rsp := top - 8, rip := trampoline },
      entry := entry, arg := arg, stackBase := stackBase, stackSize := stackSize, next := 0,
      switches := 0, ticks := 0, exitCode := 0 }

/-- The stores of `mcsos_sched_enqueue`. -/
def append (thread : Ptr) (s : State) : State :=
  let s := setState thread .ready s
  let s := setNext thread 0 s
  let s := if s.sched.readyTail = 0 then
      { s with sched := { s.sched with readyHead := thread, readyTail := thread } }
    else
      let s := setNext s.sched.readyTail thread s
      { s with sched := { s.sched with readyTail := thread } }
  { s with sched := { s.sched with runnableCount := s.sched.runnableCount + 1 } }

/-- `mcsos_sched_enqueue` -/
def schedEnqueue (thread : Ptr) : EStateM Err State Unit := do
  let s ← get
  failIf (!s.sched.initialized ∨ !validThreadObject s thread) .einval
  failIf ((s.threads thread).state ≠ .new ∧ (s.threads thread).state ≠ .ready ∧
    (s.threads thread).state ≠ .blocked) .estate
  modify (append thread)

/-- The stores of `mcsos_sched_pick_next` for the first thread of the queue. -/
def dropHead (thread : Ptr) (s : State) : State :=
  let s := { s with sched := { s.sched with readyHead := (s.threads thread).next } }
  let s := if s.sched.readyHead = 0 then { s with sched := { s.sched with readyTail := 0 } } else s
  let s := setNext thread 0 s
  if 0 < s.sched.runnableCount then
    { s with sched := { s.sched with runnableCount := s.sched.runnableCount - 1 } }
  else s

/-- `mcsos_sched_pick_next` -/
def schedPickNext (s : State) : Ptr × State :=
  if !s.sched.initialized then (0, s)
  else
    let thread := s.sched.readyHead
    if thread = 0 then (s.sched.idle, s) else (thread, dropHead thread s)

/-- The part of `mcsos_sched_yield` that puts the old thread back into the queue. -/
def requeue (oldThread : Ptr) : EStateM Err State Unit := do
  let s ← get
  if (s.threads oldThread).state = .running ∧ oldThread ≠ s.sched.idle then
    modify (setState oldThread .ready)
    schedEnqueue oldThread
  else pure ()

/-- The part of `mcsos_sched_yield` that makes a thread the current one. -/
def switchTo (oldThread nextThread : Ptr) (s : State) : State :=
  let s := setState nextThread .running s
  let s := { s with sched := { s.sched with current := nextThread } }
  let s := countSwitch oldThread s
  let s := countSwitch nextThread s
  { s with sched := { s.sched with contextSwitches := s.sched.contextSwitches + 1 } }

/-- `mcsos_sched_yield` -/
def schedYield : EStateM Err State Unit := do
  let s ← get
  failIf (!s.sched.initialized ∨ !validThreadObject s s.sched.current) .einval
  let oldThread := s.sched.current
  let nextThread ← modifyGet schedPickNext
  let s ← get
  failIf (!validThreadObject s nextThread) .ecorrupt
  if nextThread = oldThread then modify (setState oldThread .running)
  else
    requeue oldThread
    modify (switchTo oldThread nextThread)

/-- The stores of `mcsos_sched_tick`. -/
def countTick (s : State) : State :=
  let s := { s with sched := { s.sched with ticks := s.sched.ticks + 1 } }
  s.modifyThread s.sched.current fun t ↦ { t with ticks := t.ticks + 1 }

/-- `mcsos_sched_tick` -/
def schedTick : EStateM Err State Unit := do
  let s ← get
  failIf (!s.sched.initialized ∨ !validThreadObject s s.sched.current) .einval
  modify countTick

/-- `mcsos_thread_block_current` -/
def threadBlockCurrent : EStateM Err State Unit := do
  let s ← get
  failIf (!s.sched.initialized ∨ !validThreadObject s s.sched.current) .einval
  failIf (s.sched.current = s.sched.idle) .estate
  modify (setState s.sched.current .blocked)
  schedYield

/-- `mcsos_thread_mark_ready` -/
def threadMarkReady (thread : Ptr) : EStateM Err State Unit := do
  let s ← get
  failIf (!validThreadObject s thread) .einval
  failIf ((s.threads thread).state ≠ .blocked) .estate
  schedEnqueue thread

/-- The loop of `mcsos_sched_ready_count`. -/
def readyCountLoop (s : State) : ℕ → Ptr → UInt64 → Option UInt64
  | 0, _, _ => none
  | fuel + 1, cursor, count =>
    if cursor = 0 then some count
    else readyCountLoop s fuel (s.threads cursor).next (count + 1)

/-- `mcsos_sched_ready_count` -/
def schedReadyCount (s : State) : Option UInt64 :=
  if !s.sched.initialized then some 0 else readyCountLoop s (2 ^ 64) s.sched.readyHead 0

/-- The loop of `mcsos_sched_validate`, and the checks behind it. -/
def validateLoop (s : State) : ℕ → (cursor last : Ptr) → (count : UInt64) → Option (Except Err Unit)
  | 0, _, _, _ => none
  | fuel + 1, cursor, last, count =>
    if cursor = 0 then
      if last ≠ s.sched.readyTail then some (.error .ecorrupt)
      else if count ≠ s.sched.runnableCount then some (.error .ecorrupt)
      else some (.ok ())
    else if !validThreadObject s cursor ∨ (s.threads cursor).state ≠ .ready then
      some (.error .ecorrupt)
    else if cursor = s.sched.current then some (.error .ecorrupt)
    else if s.sched.runnableCount + 1 < count + 1 then some (.error .ecorrupt)
    else validateLoop s fuel (s.threads cursor).next cursor (count + 1)

/-- `mcsos_sched_validate` -/
def schedValidate (s : State) : Option (Except Err Unit) :=
  if !s.sched.initialized ∨ !validThreadObject s s.sched.current then some (.error .einval)
  else validateLoop s (2 ^ 64) s.sched.readyHead 0 0

end Sched
end Mcsos
