import Mcsos.Core.Irq
import Mcsos.Sched.RoundRobin
import Mcsos.Sched.Switching

/-!
# The threads of the kernel

`kmain.c` has three threads: the boot thread, which is the one that runs `kmain` and the idle thread
of the scheduler, and two demo threads, each of which writes a line and gives way, for ever.

`m9_scheduler_bootstrap` leaves the boot thread running and the demo threads in the queue
(`m9SchedulerBootstrap_eq`).  The boot thread never enters the queue, so once it has given way the
demo threads have the processor among themselves: `Rotates` says whose turn it is, and
`Rotates.yield` whose turn is next.  Where a thread goes on when it has the processor again is the
subject of `Mcsos.Sched.Switching`; here it is enough that each of them is in a loop of its own, of
which a round begins and ends with a switch (`Kernel.turn`).
-/

set_option autoImplicit false

namespace Mcsos
namespace Kmain

open Program
open Mcsos.Core hiding State
open Assembly (Word)
open Sched (Ptr)

/-! ## Threads and where they are -/

/-- The threads of `kmain.c`. -/
inductive Runner
  | boot
  | demoA
  | demoB
  deriving DecidableEq, Repr

/-- The thread that gets the processor when a thread gives way. -/
def Runner.next : Runner → Runner
  | boot => demoA
  | demoA => demoB
  | demoB => demoA

/-- What a thread writes before it gives way. -/
def Runner.text : Runner → List UInt8
  | boot => []
  | demoA => ascii "[M9] thread A tick\n"
  | demoB => ascii "[M9] thread B tick\n"

/-- Where the linker has put what `kmain.c` hands to the scheduler. -/
structure Image where
  code : Sched.CodeLabels
  /-- `g_boot_thread` -/
  bootThread : Ptr
  /-- `g_thread_a` -/
  threadA : Ptr
  /-- `g_thread_b` -/
  threadB : Ptr
  bootName : UInt64
  nameA : UInt64
  nameB : UInt64
  /-- `m9_demo_thread_a` -/
  demoThreadA : UInt64
  /-- `m9_demo_thread_b` -/
  demoThreadB : UInt64
  /-- `g_stack_a` -/
  stackA : UInt64
  /-- `g_stack_b` -/
  stackB : UInt64
  threads_nodup : [0, bootThread, threadA, threadB].Nodup
  entries_nodup : [0, demoThreadA, demoThreadB].Nodup
  stackA_ne_zero : stackA ≠ 0
  stackA_aligned : stackA.toNat % 16 = 0
  stackA_fits : stackA.toNat + 8192 < 2 ^ 64
  stackB_ne_zero : stackB ≠ 0
  stackB_aligned : stackB.toNat % 16 = 0
  stackB_fits : stackB.toNat + 8192 < 2 ^ 64

namespace Image

variable (im : Image)

def thread : Runner → Ptr
  | .boot => im.bootThread
  | .demoA => im.threadA
  | .demoB => im.threadB

/-- The entry function of a thread; the boot thread has none. -/
def entry : Runner → UInt64
  | .boot => 0
  | .demoA => im.demoThreadA
  | .demoB => im.demoThreadB

/-- The threads that wait while a thread runs. -/
def queue : Runner → List Ptr
  | .boot => [im.threadA, im.threadB]
  | .demoA => [im.threadB]
  | .demoB => [im.threadA]

end Image

/-! ## The model -/

/-- The kernel behind the system calls.  Its memory is as the user sees it. -/
structure Kernel where
  core : Core.State
  sched : Sched.Kernel
  mem : UInt64 → UInt8
  halted : Option Core.Panic

namespace Kernel

/-- The thread that runs. -/
def current (k : Kernel) : Ptr := k.sched.state.sched.current

/-- A part of the kernel that may panic. -/
def onCore (x : EStateM Core.Panic Core.State Unit) (k : Kernel) : Kernel :=
  match x k.core with
  | .ok _ s => { k with core := s }
  | .error panic s => { k with core := s, halted := some panic }

end Kernel

section Model

variable (im : Image) (file : List UInt8) (rflags : Word)

/-- `mcsos_sched_yield(&g_sched)`, called with the registers `cpu` -/
def Kernel.yield (cpu : Sched.Context) (k : Kernel) : Kernel :=
  { k with sched := after (Sched.Kernel.schedYield im.code) { k.sched with cpu := cpu } }

/-- The value of an error as it is handed to `KERNEL_PANIC`, `(uint64_t)(uint32_t)rc`. -/
def schedCode : Sched.Err → BitVec 64
  | .einval => 0xffffffff
  | .estate => 0xfffffffe
  | .estack => 0xfffffffd
  | .ecorrupt => 0xfffffffc

/-- `KERNEL_PANIC` in line `line` of `kmain.c` -/
def kernelPanic (line : UInt32) (reason : List UInt8) (code : BitVec 64) :
    EStateM Core.Panic Kernel Unit :=
  zoom Kernel.core (fun s k ↦ { k with core := s })
    (kernelPanicAt (some file) line (some reason) code rflags)

/-- A call of the scheduler whose failure is a panic. -/
def checked (line : UInt32) (reason : List UInt8) (x : EStateM Sched.Err Sched.State Unit) :
    EStateM Core.Panic Kernel Unit := fun k ↦
  match x k.sched.state with
  | .ok _ s => .ok () { k with sched := { k.sched with state := s } }
  | .error e s => kernelPanic file rflags line reason (schedCode e)
      { k with sched := { k.sched with state := s } }

/-- `g_sched.next_id++` -/
def nextId : EStateM Sched.Err Sched.State UInt64 :=
  modifyGet fun s ↦
    (s.sched.nextId, { s with sched := { s.sched with nextId := s.sched.nextId + 1 } })

/-- `m9_scheduler_bootstrap` -/
def m9SchedulerBootstrap : EStateM Core.Panic Kernel Unit := do
  checked file rflags 206 (ascii "M9 mcsos_scheduler_init failed")
    (Sched.schedulerInit im.bootThread im.bootName)
  checked file rflags 212 (ascii "M9 mcsos_thread_prepare a failed") do
    let id ← nextId
    Sched.threadPrepare im.code.trampoline im.threadA im.nameA im.demoThreadA 0 im.stackA 8192 id
  checked file rflags 218 (ascii "M9 mcsos_thread_prepare b failed") do
    let id ← nextId
    Sched.threadPrepare im.code.trampoline im.threadB im.nameB im.demoThreadB 0 im.stackB 8192 id
  checked file rflags 223 (ascii "M9 mcsos_sched_enqueue a failed") (Sched.schedEnqueue im.threadA)
  checked file rflags 228 (ascii "M9 mcsos_sched_enqueue b failed") (Sched.schedEnqueue im.threadB)
  let k ← get
  match Sched.schedValidate k.sched.state with
  | some (.ok _) => pure ()
  | _ => kernelPanic file rflags 232 (ascii "M9 mcsos_sched_validate failed after setup") 0
  modify fun k ↦
    { k with
      core := logAll
        [.writeln (ascii "[M9] scheduler initialized"),
          .keyValueHex64 (ascii "m9_ready_count")
            ((Sched.schedReadyCount k.sched.state).getD 0).toBitVec] k.core }

/-- A round of the loop of a demo thread, which has the registers `cpu` when it gives way. -/
def demoThread (text : List UInt8) (cpu : Sched.Context) (k : Kernel) : Kernel :=
  Kernel.yield im cpu { k with core := logWriteln text k.core }

/-- A round of `m9_demo_thread_a` -/
def m9DemoThreadA : Sched.Context → Kernel → Kernel := demoThread im (ascii "[M9] thread A tick")

/-- A round of `m9_demo_thread_b` -/
def m9DemoThreadB : Sched.Context → Kernel → Kernel := demoThread im (ascii "[M9] thread B tick")

/-- A round of `m9_scheduler_idle_loop` -/
def m9SchedulerIdleLoop : Sched.Context → Kernel → Kernel := Kernel.yield im

/-- A round of the loop that the running thread is in: of its entry function or, for the boot
thread, the loop at the end of `kmain`. -/
def Kernel.turn (cpu : Sched.Context) (k : Kernel) : Kernel :=
  let entry := (k.sched.state.threads k.current).entry
  if entry = im.demoThreadA then m9DemoThreadA im cpu k
  else if entry = im.demoThreadB then m9DemoThreadB im cpu k
  else m9SchedulerIdleLoop im cpu k

end Model

/-! ## Taking turns -/

/-- It is the turn of thread `r`. -/
structure Rotates (im : Image) (r : Runner) (s : Sched.State) : Prop where
  sound : Sched.Sound s (im.queue r)
  current : s.sched.current = im.thread r
  idle : s.sched.idle = im.bootThread
  entry : ∀ q, (s.threads (im.thread q)).entry = im.entry q

section Rotates

variable {im : Image} {r : Runner} {s s' : Sched.State} {k : Sched.Kernel}

theorem Image.thread_injective (im : Image) : Function.Injective im.thread := by
  have h := im.threads_nodup
  intro q r
  cases q <;> cases r <;> simp_all [Image.thread, eq_comm]

theorem Image.thread_ne (im : Image) (q r : Runner) (h : q ≠ r) : im.thread q ≠ im.thread r :=
  im.thread_injective.ne h

theorem Image.thread_ne_zero (im : Image) (r : Runner) : im.thread r ≠ 0 := by
  have h := im.threads_nodup
  cases r <;> simp_all [Image.thread, eq_comm]

/-- The next thread is the first one of the queue, and only demo threads come back into it. -/
theorem Rotates.yielded (h : Rotates im r s) :
    errorOf Sched.schedYield s = none ∧
      Sched.Yielded s (im.queue r.next) (im.thread r.next) (after Sched.schedYield s) := by
  have hsound := h.sound
  cases r with
  | boot => exact hsound.yielded_idle (h.current.trans h.idle.symm)
  | demoA =>
    have hy := hsound.yielded_cons (by
      rw [h.current, h.idle]
      exact im.thread_ne .demoA .boot (by decide))
    rwa [h.current] at hy
  | demoB =>
    have hy := hsound.yielded_cons (by
      rw [h.current, h.idle]
      exact im.thread_ne .demoB .boot (by decide))
    rwa [h.current] at hy

/-- A call that succeeds does the same to the scheduler whether or not it switches registers. -/
theorem after_schedYield_of_ok (hok : errorOf Sched.schedYield k.state = none) :
    after (Sched.Kernel.schedYield im.code) k
      = Sched.Kernel.resumed im.code k (after Sched.schedYield k.state) := by
  have hends := Sched.Kernel.schedYield_ends im.code (k := k)
  cases hx : Sched.Kernel.schedYield im.code k with
  | ok _ k' =>
    obtain ⟨s', hs', rfl⟩ := hends.of_eq_ok hx
    rw [after_of_ok hx, after_of_ok hs']
  | error e k' =>
    obtain ⟨s', hs', -⟩ := hends.of_eq_error hx
    rw [errorOf_of_error hs'] at hok
    cases hok

theorem Rotates.yield (h : Rotates im r k.state) :
    Rotates im r.next (after (Sched.Kernel.schedYield im.code) k).state := by
  obtain ⟨hok, hy⟩ := h.yielded
  have hne : (after Sched.schedYield k.state).sched.current ≠ k.state.sched.current := by
    rw [hy.current, h.current]
    exact im.thread_ne r.next r (by cases r <;> decide)
  have hgiven : ∀ p, Sched.Kernel.given ((after Sched.schedYield k.state).threads p)
      = Sched.Kernel.given (k.state.threads p) :=
    Sched.Kernel.keeps_schedYield k.state fun _ ↦ rfl
  rw [after_schedYield_of_ok hok, Sched.Kernel.resumed, if_neg hne]
  refine ⟨Sched.Kernel.Sound.setContext hy.sound _ _, hy.current, hy.idle.trans h.idle, fun q ↦ ?_⟩
  have hentry : ((after Sched.schedYield k.state).threads (im.thread q)).entry = im.entry q :=
    (congrArg (·.2.1) (hgiven _)).trans (h.entry q)
  rw [← hentry, Sched.Kernel.contextSwitch]
  dsimp only
  rw [Sched.threads_modifyThread]
  split <;> rfl

theorem Kernel.turn_boot {k : Kernel} (h : Rotates im .boot k.sched.state) (cpu : Sched.Context) :
    k.turn im cpu = m9SchedulerIdleLoop im cpu k := by
  have hentries := im.entries_nodup
  have hentry : (k.sched.state.threads k.current).entry = 0 := by
    rw [Kernel.current, h.current]
    exact h.entry .boot
  rw [Kernel.turn, hentry, if_neg (by simp_all), if_neg (by simp_all)]

theorem Kernel.turn_demoA {k : Kernel} (h : Rotates im .demoA k.sched.state)
    (cpu : Sched.Context) : k.turn im cpu = m9DemoThreadA im cpu k := by
  have hentry : (k.sched.state.threads k.current).entry = im.demoThreadA := by
    rw [Kernel.current, h.current]
    exact h.entry .demoA
  exact if_pos hentry

theorem Kernel.turn_demoB {k : Kernel} (h : Rotates im .demoB k.sched.state)
    (cpu : Sched.Context) : k.turn im cpu = m9DemoThreadB im cpu k := by
  have hentries := im.entries_nodup
  have hentry : (k.sched.state.threads k.current).entry = im.demoThreadB := by
    rw [Kernel.current, h.current]
    exact h.entry .demoB
  rw [Kernel.turn, hentry, if_neg (by simp_all [eq_comm]), if_pos rfl]

/-- A round of the running thread: it writes its line, and the next thread runs. -/
theorem Rotates.turn {k : Kernel} (h : Rotates im r k.sched.state)
    (hready : k.core.logReady = true) (cpu : Sched.Context) :
    ∃ s core, k.turn im cpu = { k with sched := s, core := core } ∧
      Rotates im r.next s.state ∧ Emits k.core core r.text := by
  have hyield := Rotates.yield (k := { k.sched with cpu := cpu }) h
  have hline : ∀ {x y : List UInt8}, untilNul x ++ [10] = y →
      Emits k.core (logWriteln x k.core) y := fun hxy ↦ hxy ▸ logWriteln_emits _ _
  cases r with
  | boot => exact ⟨_, _, k.turn_boot h cpu, hyield, emits_nil hready⟩
  | demoA => exact ⟨_, _, k.turn_demoA h cpu, hyield, hline (by decide)⟩
  | demoB => exact ⟨_, _, k.turn_demoB h cpu, hyield, hline (by decide)⟩

end Rotates

/-! ## Setting up the scheduler -/

section Bootstrap

variable {im : Image} {file : List UInt8} {rflags : Word} {k : Kernel} {s s' : Sched.State}
  {T : Set Ptr} {l : List Ptr}

theorem checked_of_ok {line : UInt32} {reason : List UInt8}
    {x : EStateM Sched.Err Sched.State Unit} (h : x k.sched.state = .ok () s') :
    checked file rflags line reason x k
      = .ok () { k with sched := { k.sched with state := s' } } := by
  rw [checked, h]

/-- A stack of `kmain.c` is large enough and aligned. -/
theorem startable_of_aligned {entry base : UInt64} (hentry : entry ≠ 0)
    (haligned : base.toNat % 16 = 0) (hfits : base.toNat + 8192 < 2 ^ 64) :
    Sched.Kernel.Startable entry base 8192 := by
  have hadd : (base + 8192).toNat = base.toNat + 8192 := by
    rw [UInt64.toNat_add]
    exact Nat.mod_eq_of_lt hfits
  have hadd' : (base + 128).toNat = base.toNat + 128 := by
    rw [UInt64.toNat_add]
    exact Nat.mod_eq_of_lt (by change base.toNat + 128 < _; omega)
  refine ⟨hentry, by decide, ?_, ?_⟩
  · rw [UInt64.lt_iff_toNat_lt, hadd]
    omega
  · rw [UInt64.lt_iff_toNat_lt, hadd', Sched.Kernel.toNat_alignDownUintptr, hadd]
    omega

theorem Image.startable_stackA (im : Image) :
    Sched.Kernel.Startable im.demoThreadA im.stackA 8192 := by
  have h := im.entries_nodup
  exact startable_of_aligned (by simp_all [eq_comm]) im.stackA_aligned im.stackA_fits

theorem Image.startable_stackB (im : Image) :
    Sched.Kernel.Startable im.demoThreadB im.stackB 8192 := by
  have h := im.entries_nodup
  exact startable_of_aligned (by simp_all [eq_comm]) im.stackB_aligned im.stackB_fits

theorem threadPrepare_of_startable {thread entry base size : UInt64} (hthread : thread ≠ 0)
    (hbase : base ≠ 0) (h : Sched.Kernel.Startable entry base size)
    (trampoline name arg id : UInt64) (s : Sched.State) :
    errorOf (Sched.threadPrepare trampoline thread name entry arg base size id) s = none := by
  have hnull : ¬ (thread = 0 ∨ entry = 0 ∨ base = 0) := by
    simp [hthread, h.entry, hbase]
  rw [Sched.threadPrepare, errorOf,
    bind_of_ok (failIf_of_neg hnull _ _), bind_of_ok (failIf_of_neg (UInt64.not_lt.2 h.size) _ _),
    bind_of_ok (failIf_of_neg (UInt64.not_le.2 h.bounds) _ _),
    bind_of_ok (failIf_of_neg (UInt64.not_le.2 h.room) _ _)]
  rfl

theorem schedulerInit_of_ne_zero {bootThread : UInt64} (h : bootThread ≠ 0) (name : UInt64)
    (s : Sched.State) : ∃ s', Sched.schedulerInit bootThread name s = .ok () s' ∧
      s'.sched.current = bootThread ∧ s'.sched.idle = bootThread ∧
      (s'.threads bootThread).entry = 0 ∧ Sched.Managed s' {bootThread} [] := by
  have hrun : Sched.schedulerInit bootThread name s = .ok () _ := bind_of_ok (failIf_of_neg h _ _)
  refine ⟨_, hrun, rfl, rfl, ?_, Sched.managed_init hrun⟩
  exact congrArg Sched.Thread.entry (Function.update_self bootThread _ s.threads)

/-- A new thread is prepared. -/
theorem prepare_of_managed {thread entry base : UInt64} (hm : Sched.Managed s T l)
    (hthread : thread ≠ 0) (hT : thread ∉ T) (hbase : base ≠ 0)
    (h : Sched.Kernel.Startable entry base 8192) (code : Sched.CodeLabels) (name arg : UInt64) :
    ∃ t : Sched.Thread, t.state = .new ∧ t.magic = Sched.threadMagic ∧ t.entry = entry ∧
      ∃ s', (nextId >>= fun id ↦
          Sched.threadPrepare code.trampoline thread name entry arg base 8192 id) s = .ok () s' ∧
        s'.threads = Function.update s.threads thread t ∧ s'.sched.current = s.sched.current ∧
        s'.sched.idle = s.sched.idle ∧ Sched.Managed s' (insert thread T) l := by
  have hnext : nextId s = .ok s.sched.nextId
      { s with sched := { s.sched with nextId := s.sched.nextId + 1 } } := rfl
  have hm' : Sched.Managed { s with sched := { s.sched with nextId := s.sched.nextId + 1 } } T l :=
    hm.frame (hm.sound.frame (hm.sound.ready.frame (fun _ _ ↦ ⟨rfl, rfl, rfl⟩)
      ⟨rfl, rfl, rfl, rfl⟩) (fun _ _ ↦ ⟨rfl, rfl⟩) rfl rfl) (fun _ hp ↦ hp) (fun _ ↦ rfl) rfl rfl
  have hrun := eq_ok_of_errorOf (threadPrepare_of_startable hthread hbase h code.trampoline name arg
    s.sched.nextId { s with sched := { s.sched with nextId := s.sched.nextId + 1 } })
  obtain ⟨-, t, hnew, hmagic, hgiven, hs'⟩ := Sched.Kernel.threadPrepare_eq_ok hrun
  rw [hs'] at hrun
  refine ⟨t, hnew, hmagic, congrArg (·.2.1) hgiven, _, (bind_of_ok hnext).trans hrun, rfl, rfl, rfl,
    hm'.prepare hnew ?_ ?_ fun hl ↦ hT (hm.queue_mem _ hl)⟩
  · exact fun hc ↦ hT (hc ▸ hm.current_mem)
  · exact fun hi ↦ hT (hi ▸ hm.idle_mem)

/-- A new thread enters the queue. -/
theorem enqueue_of_managed {p : Ptr} (hm : Sched.Managed s T l) (hp : p ≠ 0) (hT : p ∈ T)
    (hmagic : (s.threads p).magic = Sched.threadMagic) (hnew : (s.threads p).state = .new) :
    Sched.schedEnqueue p s = .ok () (Sched.append p s) ∧
      Sched.Managed (Sched.append p s) T (l ++ [p]) := by
  have hvalid := Sched.validThreadObject_iff.2 ⟨hp, hmagic⟩
  constructor
  · rw [Sched.schedEnqueue, bind_of_ok (get_apply s), bind_of_ok (failIf_of_neg _ _ _),
      bind_of_ok (failIf_of_neg _ _ _)]
    · rfl
    · simp [hnew]
    · simp [hvalid, hm.sound.ready.initialized]
  · have happend := hm.append hvalid (by simp [hnew]) fun hl ↦ by
      rw [hm.sound.ready.state p hl] at hnew
      cases hnew
    rwa [Set.insert_eq_of_mem hT] at happend

/-- The scheduler as `m9_scheduler_bootstrap` sets it up. -/
theorem exists_bootstrapped (im : Image) (s : Sched.State) :
    ∃ s₁ s₂ s₃ s₄ s₅,
      Sched.schedulerInit im.bootThread im.bootName s = .ok () s₁ ∧
      (nextId >>= fun id ↦ Sched.threadPrepare im.code.trampoline im.threadA im.nameA
        im.demoThreadA 0 im.stackA 8192 id) s₁ = .ok () s₂ ∧
      (nextId >>= fun id ↦ Sched.threadPrepare im.code.trampoline im.threadB im.nameB
        im.demoThreadB 0 im.stackB 8192 id) s₂ = .ok () s₃ ∧
      Sched.schedEnqueue im.threadA s₃ = .ok () s₄ ∧
      Sched.schedEnqueue im.threadB s₄ = .ok () s₅ ∧ Rotates im .boot s₅ := by
  have hAB : im.threadA ≠ im.threadB := im.thread_ne .demoA .demoB (by decide)
  have hbA : im.bootThread ≠ im.threadA := im.thread_ne .boot .demoA (by decide)
  have hbB : im.bootThread ≠ im.threadB := im.thread_ne .boot .demoB (by decide)
  have hb0 : im.bootThread ≠ 0 := im.thread_ne_zero .boot
  have hA0 : im.threadA ≠ 0 := im.thread_ne_zero .demoA
  have hB0 : im.threadB ≠ 0 := im.thread_ne_zero .demoB
  obtain ⟨s₁, h₁, hcurrent₁, hidle₁, hentry₁, hm₁⟩ :=
    schedulerInit_of_ne_zero hb0 im.bootName s
  obtain ⟨tA, hnewA, hmagicA, hentryA, s₂, h₂, hthreads₂, hcurrent₂, hidle₂, hm₂⟩ :=
    prepare_of_managed hm₁ hA0 (by simpa using hbA.symm) im.stackA_ne_zero im.startable_stackA
      im.code im.nameA 0
  obtain ⟨tB, hnewB, hmagicB, hentryB, s₃, h₃, hthreads₃, hcurrent₃, hidle₃, hm₃⟩ :=
    prepare_of_managed hm₂ hB0 (by simp [hAB.symm, hbB.symm]) im.stackB_ne_zero
      im.startable_stackB im.code im.nameB 0
  have hA : s₃.threads im.threadA = tA := by simp [hthreads₃, hthreads₂, hAB]
  have hB : s₃.threads im.threadB = tB := by simp [hthreads₃]
  have hboot : (s₃.threads im.bootThread).entry = 0 := by
    rw [hthreads₃, hthreads₂, Function.update_of_ne hbB, Function.update_of_ne hbA, hentry₁]
  obtain ⟨h₄, hm₄⟩ := enqueue_of_managed hm₃ hA0 (by simp)
    (by rw [hA, hmagicA]) (by rw [hA, hnewA])
  obtain ⟨h₅, hm₅⟩ := enqueue_of_managed hm₄ hB0 (by simp)
    (by rw [Sched.magic_append, hB, hmagicB])
    (by rw [Sched.state_append, if_neg hAB.symm, hB, hnewB])
  refine ⟨s₁, s₂, s₃, _, _, h₁, h₂, h₃, h₄, h₅, hm₅.sound, ?_, ?_, fun q ↦ ?_⟩
  · rw [Sched.sched_append, Sched.sched_append]
    exact hcurrent₃.trans (hcurrent₂.trans hcurrent₁)
  · rw [Sched.sched_append, Sched.sched_append]
    exact hidle₃.trans (hidle₂.trans hidle₁)
  · have hgiven := (Sched.Kernel.given_append (p := im.threadB) (q := im.thread q)
      (s := Sched.append im.threadA s₃)).trans Sched.Kernel.given_append
    refine (congrArg (·.2.1) hgiven).trans ?_
    cases q with
    | boot => exact hboot
    | demoA => exact (congrArg Sched.Thread.entry hA).trans hentryA
    | demoB => exact (congrArg Sched.Thread.entry hB).trans hentryB

/-- **The kernel starts its threads.**  `m9_scheduler_bootstrap` never panics.  It leaves the boot
thread running and the demo threads waiting, and has written to the log and nowhere else. -/
theorem m9SchedulerBootstrap_eq (im : Image) (file : List UInt8) (rflags : Word) (k : Kernel) :
    ∃ k' text, m9SchedulerBootstrap im file rflags k = .ok () k' ∧
      Rotates im .boot k'.sched.state ∧ Emits k.core k'.core text ∧ k'.mem = k.mem ∧
      k'.halted = k.halted := by
  obtain ⟨s₁, s₂, s₃, s₄, s₅, h₁, h₂, h₃, h₄, h₅, hrotates⟩ := exists_bootstrapped im k.sched.state
  have hrun : m9SchedulerBootstrap im file rflags k = .ok ()
      { k with
        sched := { k.sched with state := s₅ }
        core := logAll
          [.writeln (ascii "[M9] scheduler initialized"),
            .keyValueHex64 (ascii "m9_ready_count")
              ((Sched.schedReadyCount s₅).getD 0).toBitVec] k.core } := by
    rw [m9SchedulerBootstrap, bind_of_ok (checked_of_ok h₁), bind_of_ok (checked_of_ok h₂),
      bind_of_ok (checked_of_ok h₃), bind_of_ok (checked_of_ok h₄), bind_of_ok (checked_of_ok h₅),
      bind_of_ok (get_apply _)]
    dsimp only
    rw [hrotates.sound.schedValidate_eq_ok]
    rfl
  exact ⟨_, _, hrun, hrotates, logAll_emits (List.cons_ne_nil _ _) k.core, rfl, rfl⟩

end Bootstrap

end Kmain
end Mcsos
