import Mcsos.Kmain.Threads
import Mcsos.Syscall.Dispatch

/-!
# The kernel from outside

The functions that `kmain.c` registers for the system calls close the circle: a system call goes
through the dispatcher of `syscall.c` to one of them, and from there to the tick counter, to the
scheduler or, byte by byte, to the serial port, while interrupts advance the tick counter and write
messages of their own.  Only the boot thread makes system calls.  When it gives way, the demo
threads get the processor and write their lines, and it does not get it back.

All that can be seen of this from outside is what system calls return and what comes out of the
serial port.  `View` is a machine that has a clock, a text, the memory of the user and a thread
whose turn it is, and nothing else: no controllers, no queue of threads, no contexts and no
registered functions.  It is told the same events, and the kernel cannot be told from it
(`kernel_refines_view`).  Events come one after the other; interrupts in the middle of a call are
not among them.
-/

set_option autoImplicit false

namespace Mcsos
namespace Kmain

open Program
open Mcsos.Core hiding State
open Arch (TrapFrame)
open Assembly (Word)
open Syscall (Args)

/-! ## The functions of `kmain.c` -/

section Model

variable (im : Image) (file : List UInt8) (rflags : Word)

/-- `k_write_serial_bounded` -/
def kWriteSerialBounded (buf len : UInt64) (k : Kernel) : Int64 × Kernel :=
  let len := if 256 < len then 256 else len
  (len.toInt64,
    { k with
      core := (List.range len.toNat).foldl
        (fun s i ↦ logWrite [k.mem (buf + .ofNat i), 0] s) k.core })

/-- `k_get_ticks` -/
def kGetTicks (k : Kernel) : UInt64 × Kernel := (k.core.ticks, k)

/-- `k_yield_current` -/
def kYieldCurrent (k : Kernel) : Kernel := k.yield im k.sched.cpu

/-- `k_exit_current` -/
def kExitCurrent (code : Int32) (k : Kernel) : Kernel :=
  k.onCore do
    modify (logAll
      [.write (ascii "[M10] exit_thread stub called with code="),
        .hex64 code.toInt64.toBitVec,
        .writeln []])
    kernelPanicAt (some file) 276
      (some (ascii "M10 exit_thread stub: M9 has no real thread teardown yet"))
      code.toInt64.toBitVec rflags

/-- The functions that `m10_syscall_bootstrap` registers. -/
def kernelOps : Syscall.SyscallOps Kernel where
  getTicks := some kGetTicks
  yieldCurrent := some (kYieldCurrent im)
  exitCurrent := some (kExitCurrent file rflags)
  writeSerial := some kWriteSerialBounded

/-- `m10_syscall_bootstrap` up to its self test -/
def m10SyscallBootstrap (region : Syscall.UserRegion) (k : Kernel) : Syscall.State Kernel :=
  Syscall.setUserRegion region
    (Syscall.syscallInit (some (kernelOps im file rflags))
      { ops := ⟨none, none, none, none⟩, userRegion := ⟨0, 0⟩, kernel := k, calls := [] })

/-- The kernel as `kmain` sets it up: the scheduler, the system calls, and interrupts in the end. -/
def boot (region : Syscall.UserRegion) (k : Kernel) : Syscall.State Kernel :=
  match m9SchedulerBootstrap im file rflags k with
  | .ok _ k =>
    let s := m10SyscallBootstrap im file rflags region k
    { s with kernel := s.kernel.onCore (m5BringUp file rflags) }
  | .error panic k => m10SyscallBootstrap im file rflags region { k with halted := some panic }

/-- What happens to the kernel. -/
inductive Event
  /-- Something that has to do with interrupts. -/
  | core (e : Core.Event)
  /-- The user writes to its memory. -/
  | store (addr : UInt64) (byte : UInt8)
  /-- The boot thread makes a system call. -/
  | syscall (nr : UInt64) (args : Args)
  /-- The running thread gets to the end of its loop, with these registers. -/
  | turn (cpu : Sched.Context)

/-- An event, and what a system call returns.  It returns if the thread that has made it runs.  A
kernel that has panicked is halted, and nothing returns from it. -/
def Event.run (s : Syscall.State Kernel) (e : Event) : Option Int64 × Syscall.State Kernel :=
  if s.kernel.halted.isSome then (none, s)
  else
    match e with
    | core e => (none, { s with kernel := s.kernel.onCore (e.run file rflags) })
    | store addr byte =>
      (none,
        { s with kernel := { s.kernel with mem := Function.update s.kernel.mem addr byte } })
    | syscall nr args =>
      -- the demo threads make no system calls
      if s.kernel.current ≠ im.bootThread then (none, s)
      else
        match Syscall.syscallDispatch nr args s with
        | .ok r s' =>
          (if s'.kernel.halted.isSome ∨ s'.kernel.current ≠ im.bootThread then none else some r, s')
        | .error _ s' => (none, s')
    | turn cpu => (none, { s with kernel := s.kernel.turn im cpu })

/-- A run, and what its system calls return. -/
def runAll : List Event → Syscall.State Kernel → List (Option Int64) × Syscall.State Kernel
  | [], s => ([], s)
  | e :: es, s =>
    let r := e.run im file rflags s
    (r.1 :: (runAll es r.2).1, (runAll es r.2).2)

end Model

/-! ## The view from outside -/

/-- A clock, the text that has been written, the memory of the user, and the thread that runs;
`start` is what the tick counter began with. -/
structure View where
  timer : Timer
  start : UInt64
  text : List UInt8
  mem : UInt64 → UInt8
  running : Runner
  halted : Bool

/-- What the clock shows. -/
def View.ticks (v : View) : UInt64 := v.start + .ofNat v.timer.ticks

def View.write (v : View) (x : List UInt8) : View := { v with text := v.text ++ x }

/-- The view of a kernel that has just been set up. -/
def View.initial (k : Kernel) : View where
  timer := { pending := false, enabled := true, ticks := 0 }
  start := k.core.ticks
  text := []
  mem := k.mem
  running := .boot
  halted := false

/-- The kernel reports every hundredth tick. -/
def tickText (ticks : UInt64) : List UInt8 :=
  if ticks % 100 = 0 then keyValueLine (ascii "ticks") ticks.toBitVec else []

/-- The report of an interrupt that is not the timer's. -/
def strayText : List UInt8 := ascii "[M5] unexpected IRQ received: external-hardware-irq\n"

/-- The bytes of a buffer that are written: zero bytes are not. -/
def written (mem : UInt64 → UInt8) (ptr : UInt64) (n : ℕ) : List UInt8 :=
  ((List.range n).map fun i ↦ mem (ptr + .ofNat i)).filter (· ≠ 0)

section View

variable (file : List UInt8) (rflags : Word) (region : Syscall.UserRegion)

/-- What the kernel has to say before it halts. -/
def exitText (code : Int32) : List UInt8 :=
  ascii "[M10] exit_thread stub called with code=0x" ++ hexDigits code.toInt64.toBitVec ++ [10] ++
    textOf (panicReport (some file) 276
      (some (ascii "M10 exit_thread stub: M9 has no real thread teardown yet"))
      code.toInt64.toBitVec rflags)

/-- What an event of the interrupt system writes. -/
def eventText (v : View) : Core.Event → List UInt8
  | .interrupt _ =>
    if v.timer.pending && v.timer.enabled then tickText (v.ticks + 1) else strayText
  | .breakpoint frame => textOf (exceptionReport file rflags { frame with vector := 3 })
  | _ => []

/-- What a system call returns, and what is seen afterwards. -/
def View.syscall (v : View) (nr : UInt64) (args : Args) : Option Int64 × View :=
  if nr = 0 then (some 0x2605020A, v)
  else if nr = 1 then (some v.ticks.toInt64, v)
  else if nr = 2 then
    if args.arg0 = 0 ∨ 4096 < args.arg1 then (some (-22), v)
    else if Syscall.userCheckRange region args.arg0 args.arg1 then
      (some (.ofNat (min args.arg1.toNat 256)),
        v.write (written v.mem args.arg0 (min args.arg1.toNat 256)))
    else (some (-14), v)
  else if nr = 3 then (none, { v with running := .demoA })
  else if nr = 4 then
    (none, { v.write (exitText file rflags args.arg0.toUInt32.toInt32) with halted := true })
  else (some (-38), v)

def View.step (v : View) (e : Event) : Option Int64 × View :=
  if v.halted then (none, v)
  else
    match e with
    | .core e => (none, { v.write (eventText file rflags v e) with timer := v.timer.step e })
    | .store addr byte => (none, { v with mem := Function.update v.mem addr byte })
    | .syscall nr args =>
      if v.running ≠ .boot then (none, v) else v.syscall file rflags region nr args
    | .turn _ => (none, { v.write v.running.text with running := v.running.next })

def View.runAll : List Event → View → List (Option Int64) × View
  | [], v => ([], v)
  | e :: es, v =>
    let r := v.step file rflags region e
    (r.1 :: (runAll es r.2).1, (runAll es r.2).2)

end View

/-! ## What is written -/

/-- Since the serial port was `u`, the text `x` has been written. -/
structure Logged (u : Arch.Uart) (s : Core.State) (x : List UInt8) : Prop where
  ready : s.logReady = true
  transmits : Transmits u s.ports.uart (expand x)

section Logged

variable {u : Arch.Uart} {s s' : Core.State} {x y : List UInt8} {file : List UInt8} {rflags : Word}

theorem Logged.emits (h : Logged u s x) (he : Emits s s' y) : Logged u s' (x ++ y) := by
  refine ⟨he.ready, ?_⟩
  rw [expand_append]
  exact h.transmits.trans (he.transmits fun _ ↦ h.transmits.latched)

theorem Logged.congr (h : Logged u s x) (hready : s'.logReady = s.logReady)
    (huart : s'.ports.uart = s.ports.uart) : Logged u s' (x ++ []) := by
  rw [List.append_nil]
  exact ⟨hready.trans h.ready, huart ▸ h.transmits⟩

theorem uart_picSendEoi (irq : Arch.Byte) (p : Arch.Ports) : (picSendEoi irq p).uart = p.uart := by
  rw [picSendEoi_eq]

theorem timerOnIrq0_logged (h : Logged u s x) :
    Logged u (timerOnIrq0 s) (x ++ tickText (s.ticks + 1)) := by
  have h' : Logged u { s with ticks := s.ticks + 1 } x := ⟨h.ready, h.transmits⟩
  rw [timerOnIrq0, tickText]
  dsimp only
  split
  · exact h'.emits (logKeyValueHex64_emits _ _ _)
  · exact h'.congr rfl rfl

theorem handleIrq_logged (h : Logged u s x) {irq : ℕ} (hirq : irq < 16) :
    Logged u (handleIrq (BitVec.ofNat 64 (32 + irq)) s)
      (x ++ if irq = 0 then tickText (s.ticks + 1) else strayText) := by
  have hname : ∀ k < 16, trapName (BitVec.ofNat 64 (32 + k)) = ascii "external-hardware-irq" := by
    decide
  have heoi : ∀ {y : List UInt8} {s' : Core.State}, Logged u s' y →
      Logged u (s'.io (picSendEoi (BitVec.ofNat 8 irq))) y :=
    fun hy ↦ ⟨hy.ready, (uart_picSendEoi _ _).symm ▸ hy.transmits⟩
  rw [handleIrq, irq_of_vector irq hirq]
  by_cases h0 : irq = 0
  · rw [if_pos ((ofNat_eq_zero_iff irq hirq).2 h0), if_pos h0]
    exact heoi (timerOnIrq0_logged h)
  · rw [if_neg (mt (ofNat_eq_zero_iff irq hirq).1 h0), if_neg h0, hname irq hirq]
    refine heoi ?_
    have htext : textOf [.write (ascii "[M5] unexpected IRQ received: "),
        .writeln (ascii "external-hardware-irq")] = strayText := by decide
    rw [← htext]
    exact h.emits (logAll_emits (List.cons_ne_nil _ _) s)

end Logged

/-! ## The kernel and its view -/

/-- The part of the kernel that counts and writes, and what is seen of it. -/
structure CoreShows (u : Arch.Uart) (traps : UInt64) (s : Core.State) (v : View) : Prop where
  inStep : ∃ n, InStep v.start traps s v.timer n
  logged : Logged u s v.text

/-- The kernel, and what is seen of it. -/
structure Shows (im : Image) (file : List UInt8) (rflags : Word) (region : Syscall.UserRegion)
    (u : Arch.Uart) (traps : UInt64) (s : Syscall.State Kernel) (v : View) : Prop where
  ops_eq : s.ops = kernelOps im file rflags
  region_eq : s.userRegion = region
  mem_eq : s.kernel.mem = v.mem
  halted_eq : s.kernel.halted.isSome = v.halted
  core : CoreShows u traps s.kernel.core v
  rotates : Rotates im v.running s.kernel.sched.state

section Shows

variable {im : Image} {file : List UInt8} {rflags : Word} {region : Syscall.UserRegion}
  {u : Arch.Uart}
  {traps : UInt64} {v : View}

section Core

variable {s s' : Core.State} {y : List UInt8}

theorem CoreShows.emits (h : CoreShows u traps s v) (he : Emits s s' y) :
    CoreShows u traps s' (v.write y) := by
  obtain ⟨n, hn⟩ := h.inStep
  exact ⟨⟨n, hn.of_emits he⟩, h.logged.emits he⟩

theorem CoreShows.foldl {α : Type} {f : Core.State → α → Core.State} {g : α → List UInt8}
    (hf : ∀ s a, Emits s (f s a) (g a)) (l : List α) (h : CoreShows u traps s v) :
    CoreShows u traps (l.foldl f s) (v.write (l.flatMap g)) := by
  induction l generalizing s v with
  | nil =>
    rw [List.flatMap_nil, View.write, List.append_nil]
    exact h
  | cons a l ih =>
    have h' := ih (h.emits (hf s a))
    rwa [View.write, View.write, List.append_assoc] at h'

theorem uart_acknowledge (p : Arch.Ports) : p.acknowledge.2.uart = p.uart := by
  rw [Arch.Ports.acknowledge]
  split <;> rfl

theorem Logged.changeMask (h : Logged u s y) (hs : Ready s.ports) (irq : Arch.Byte)
    (f : Arch.Byte → Arch.Byte) : Logged u (s.io (Core.changeMask irq f)) (y ++ []) := by
  refine h.congr rfl ?_
  rw [State.io, changeMask_eq hs]
  split <;> rfl

/-- What an event of the interrupt system writes. -/
theorem CoreShows.logged_run (h : CoreShows u traps s v) {e : Core.Event}
    (hs' : e.run file rflags s = .ok () s') :
    Logged u s' (v.text ++ eventText file rflags v e) := by
  obtain ⟨n, hn⟩ := h.inStep
  cases e with
  | requests m o =>
    cases hs'
    exact h.logged.congr rfl rfl
  | interrupt frame =>
    obtain ⟨irq, hirq, hcase, hrun, -, -⟩ := hn.interrupt_eq frame
    cases hrun.symm.trans hs'
    have hack : Logged u (acknowledged s) v.text :=
      ⟨h.logged.ready, (uart_acknowledge s.ports).symm ▸ h.logged.transmits⟩
    have hlogged := handleIrq_logged hack hirq
    rw [show (acknowledged s).ticks = v.ticks from hn.ticks_eq] at hlogged
    simp only [hcase] at hlogged
    exact hlogged
  | breakpoint frame =>
    have hvector : ¬ ((32 : Word) ≤ 3 ∧ (3 : Word) < 48) := by decide
    have hrun : trapDispatch file rflags { frame with vector := 3 } s = .ok () (logAll
        (exceptionReport file rflags { frame with vector := 3 })
        { s with trapCount := s.trapCount + 1 }) := trapDispatch_exception file rflags hvector s
    cases hrun.symm.trans hs'
    have hcount : Logged u { s with trapCount := s.trapCount + 1 } v.text :=
      ⟨h.logged.ready, h.logged.transmits⟩
    exact hcount.emits (logAll_emits (exceptionReport_ne_nil file rflags _) _)
  | unmaskIrq irq =>
    cases hs'
    exact h.logged.changeMask hn.idle.ready (irqByte irq) _
  | maskIrq irq =>
    cases hs'
    exact h.logged.changeMask hn.idle.ready (irqByte irq) _
  | maskAll =>
    cases hs'
    refine h.logged.congr rfl ?_
    rw [State.io, picMaskAll_eq hn.idle.ready]
    rfl

/-- What interrupts do, and what is written of it. -/
theorem CoreShows.run (h : CoreShows u traps s v) (file : List UInt8) (rflags : Word)
    (e : Core.Event) :
    ∃ s', e.run file rflags s = .ok () s' ∧
      CoreShows u traps s'
        { v.write (eventText file rflags v e) with timer := v.timer.step e } := by
  obtain ⟨n, hn⟩ := h.inStep
  obtain ⟨s', hs', hn'⟩ := hn.run e
  exact ⟨s', hs', ⟨_, hn'⟩, h.logged_run hs'⟩

end Core

/-! ### Events -/

variable {s : Syscall.State Kernel}

theorem untilNul_singleton (b : UInt8) : untilNul [b, 0] = [b].filter (· ≠ 0) := by
  by_cases hb : b = 0 <;> simp [untilNul, hb]

theorem flatMap_untilNul (l : List UInt8) :
    l.flatMap (fun b ↦ untilNul [b, 0]) = l.filter (· ≠ 0) := by
  induction l with
  | nil => rfl
  | cons b l ih => rw [List.flatMap_cons, ih, untilNul_singleton, ← List.filter_append]; rfl

/-- Writing a buffer, byte by byte. -/
theorem CoreShows.kWriteSerialBounded {k : Kernel} (h : CoreShows u traps k.core v)
    (hmem : k.mem = v.mem) (buf len : UInt64) :
    (kWriteSerialBounded buf len k).1 = .ofNat (min len.toNat 256) ∧
      CoreShows u traps (kWriteSerialBounded buf len k).2.core
        (v.write (written v.mem buf (min len.toNat 256))) := by
  have hlen : (if 256 < len then 256 else len).toNat = min len.toNat 256 := by
    have hlt : (256 : UInt64) < len ↔ 256 < len.toNat := UInt64.lt_iff_toNat_lt
    by_cases hc : 256 < len
    · rw [if_pos hc, Nat.min_eq_right (hlt.1 hc).le]
      rfl
    · rw [if_neg hc, Nat.min_eq_left (Nat.not_lt.1 (mt hlt.2 hc))]
  have htext : written v.mem buf (min len.toNat 256)
      = (List.range (min len.toNat 256)).flatMap fun i ↦
        untilNul [k.mem (buf + .ofNat i), 0] := by
    rw [written, ← flatMap_untilNul, List.flatMap_map, hmem]
  rw [Kmain.kWriteSerialBounded]
  dsimp only
  rw [hlen, htext]
  refine ⟨?_, h.foldl (fun s i ↦ logWrite_emits [k.mem (buf + .ofNat i), 0] s) _⟩
  rw [← hlen]
  exact congrArg UInt64.toInt64 (UInt64.ofNat_toNat).symm

section Dispatch

variable {k : Kernel} {calls : List Syscall.Service} {args : Args}

theorem dispatch_ping : Syscall.syscallDispatch 0 args ⟨kernelOps im file rflags, region, k, calls⟩
    = .ok 0x2605020A ⟨kernelOps im file rflags, region, k, calls⟩ := rfl

theorem dispatch_getTicks :
    Syscall.syscallDispatch 1 args ⟨kernelOps im file rflags, region, k, calls⟩
      = .ok k.core.ticks.toInt64
        ⟨kernelOps im file rflags, region, k, calls ++ [.getTicks]⟩ := rfl

theorem dispatch_writeSerial :
    Syscall.syscallDispatch 2 args ⟨kernelOps im file rflags, region, k, calls⟩
      = if args.arg0 = 0 ∨ 4096 < args.arg1 then
          .ok (-22) ⟨kernelOps im file rflags, region, k, calls⟩
        else if Syscall.userCheckRange region args.arg0 args.arg1 then
          .ok (kWriteSerialBounded args.arg0 args.arg1 k).1
            ⟨kernelOps im file rflags, region, (kWriteSerialBounded args.arg0 args.arg1 k).2,
              calls ++ [.writeSerial args.arg0 args.arg1]⟩
        else .ok (-14) ⟨kernelOps im file rflags, region, k, calls⟩ := by
  have hcall : Syscall.syscallDispatch 2 args ⟨kernelOps im file rflags, region, k, calls⟩
      = Syscall.sysWriteSerial args ⟨kernelOps im file rflags, region, k, calls⟩ := rfl
  rw [hcall, Syscall.sysWriteSerial, bind_of_ok (get_apply _)]
  by_cases h0 : args.arg0 = 0
  · rw [if_pos h0, if_pos (.inl h0)]
    rfl
  by_cases hlen : 4096 < args.arg1
  · rw [if_neg h0, if_pos hlen, if_pos (.inr hlen)]
    rfl
  rw [if_neg h0, if_neg hlen, if_neg (not_or.2 ⟨h0, hlen⟩)]
  cases Syscall.userCheckRange region args.arg0 args.arg1 <;> rfl

theorem dispatch_yield : Syscall.syscallDispatch 3 args ⟨kernelOps im file rflags, region, k, calls⟩
    = .ok 0 ⟨kernelOps im file rflags, region, kYieldCurrent im k, calls ++ [.yieldCurrent]⟩ := rfl

theorem dispatch_exit : Syscall.syscallDispatch 4 args ⟨kernelOps im file rflags, region, k, calls⟩
    = .ok 0 ⟨kernelOps im file rflags, region,
        kExitCurrent file rflags args.arg0.toUInt32.toInt32 k,
        calls ++ [.exitCurrent args.arg0.toUInt32.toInt32]⟩ := rfl

theorem dispatch_enosys {nr : UInt64} (h : 5 ≤ nr) (s : Syscall.State Kernel) :
    Syscall.syscallDispatch nr args s = .ok (-38) s := by
  rw [Syscall.syscallDispatch, if_pos h]
  rfl

/-- The kernel writes its last words, and halts. -/
theorem kExitCurrent_eq (file : List UInt8) (rflags : Word) (code : Int32) (k : Kernel) : ∃ panic s,
    kExitCurrent file rflags code k = ⟨s, k.sched, k.mem, some panic⟩ ∧
      Emits k.core s (exitText file rflags code) := by
  refine ⟨_, _, rfl, ?_⟩
  have hreport : panicReport (some file) 276
      (some (ascii "M10 exit_thread stub: M9 has no real thread teardown yet"))
      code.toInt64.toBitVec rflags ≠ [] := List.cons_ne_nil _ _
  have h := (logAll_emits (List.cons_ne_nil
    (.write (ascii "[M10] exit_thread stub called with code="))
    [.hex64 code.toInt64.toBitVec, .writeln []]) k.core).trans (logAll_emits hreport _)
  have hnul : untilNul (ascii "[M10] exit_thread stub called with code=")
      = ascii "[M10] exit_thread stub called with code=" := by decide
  have hascii : ascii "[M10] exit_thread stub called with code=0x"
      = ascii "[M10] exit_thread stub called with code=" ++ ascii "0x" := by decide
  have htext : textOf [.write (ascii "[M10] exit_thread stub called with code="),
      .hex64 code.toInt64.toBitVec, .writeln []]
      = ascii "[M10] exit_thread stub called with code=0x" ++ hexDigits code.toInt64.toBitVec
        ++ [10] := by
    simp only [textOf, List.flatMap_cons, LogCall.text, hnul, hascii, List.append_assoc]
    rfl
  rw [htext] at h
  exact h

end Dispatch

theorem number_cases (nr : UInt64) :
    nr = 0 ∨ nr = 1 ∨ nr = 2 ∨ nr = 3 ∨ nr = 4 ∨ 5 ≤ nr := by
  simp only [← UInt64.toNat_inj, UInt64.le_iff_toNat_le]
  change nr.toNat = 0 ∨ nr.toNat = 1 ∨ nr.toNat = 2 ∨ nr.toNat = 3 ∨ nr.toNat = 4 ∨ 5 ≤ nr.toNat
  omega

theorem Event.run_syscall {s s' : Syscall.State Kernel} (hs : s.kernel.halted.isSome = false)
    (hcurrent : s.kernel.current = im.bootThread) {nr : UInt64} {args : Args} {r : Int64}
    (h : Syscall.syscallDispatch nr args s = .ok r s') :
    (Event.syscall nr args).run im file rflags s
      = (if s'.kernel.halted.isSome ∨ s'.kernel.current ≠ im.bootThread then none else some r,
          s') := by
  rw [Event.run, if_neg (ne_true_of_eq_false hs)]
  simp only [h, hcurrent, ne_eq, not_true_eq_false, if_false]

section Answers

variable {k k' : Kernel} {calls calls' : List Syscall.Service} {v' : View} {nr : UInt64}
  {args : Args} {r : Int64}

/-- The boot thread runs, in the kernel and in the view. -/
theorem Shows.current_eq (h : Shows im file rflags region u traps s v) (hb : v.running = .boot) :
    s.kernel.current = im.bootThread := by
  have hcurrent := h.rotates.current
  rwa [hb] at hcurrent

/-- A call that is answered, in the kernel and in the view. -/
theorem Shows.answered
    (h : Shows im file rflags region u traps ⟨kernelOps im file rflags, region, k, calls⟩ v)
    (hv : v.halted = false) (hb : v.running = .boot)
    (hd : Syscall.syscallDispatch nr args ⟨kernelOps im file rflags, region, k, calls⟩
      = .ok r ⟨kernelOps im file rflags, region, k', calls'⟩)
    (hview : v.syscall file rflags region nr args = (some r, v'))
    (hmem : k'.mem = v'.mem) (hk' : k'.halted = k.halted) (hsched : k'.sched = k.sched)
    (hv' : v'.halted = v.halted) (hb' : v'.running = v.running)
    (hcore : CoreShows u traps k'.core v') :
    ((Event.syscall nr args).run im file rflags ⟨kernelOps im file rflags, region, k, calls⟩).1
        = (v.syscall file rflags region nr args).1 ∧
      Shows im file rflags region u traps
        ((Event.syscall nr args).run im file rflags ⟨kernelOps im file rflags, region, k, calls⟩).2
        (v.syscall file rflags region nr args).2 := by
  have hk : k.halted.isSome = false := h.halted_eq.trans hv
  have hcurrent : k.current = im.bootThread := h.current_eq hb
  have hreturns : ¬ (k'.halted.isSome = true ∨ k'.current ≠ im.bootThread) := by
    rw [hk', hk, Kernel.current, hsched, ← Kernel.current, hcurrent]
    simp
  rw [Event.run_syscall hk hcurrent hd, hview]
  refine ⟨if_neg hreturns, rfl, rfl, hmem, by rw [hk', hv', hk, hv], hcore, ?_⟩
  rw [hb', hsched]
  exact h.rotates

/-- The three answers of the call that writes. -/
theorem Shows.writeSerial
    (h : Shows im file rflags region u traps ⟨kernelOps im file rflags, region, k, calls⟩ v)
    (hv : v.halted = false) (hb : v.running = .boot) :
    ((Event.syscall 2 args).run im file rflags ⟨kernelOps im file rflags, region, k, calls⟩).1
        = (v.syscall file rflags region 2 args).1 ∧
      Shows im file rflags region u traps
        ((Event.syscall 2 args).run im file rflags ⟨kernelOps im file rflags, region, k, calls⟩).2
        (v.syscall file rflags region 2 args).2 := by
  have hview : v.syscall file rflags region 2 args
      = if args.arg0 = 0 ∨ 4096 < args.arg1 then (some (-22), v)
        else if Syscall.userCheckRange region args.arg0 args.arg1 then
          (some (.ofNat (min args.arg1.toNat 256)),
            v.write (written v.mem args.arg0 (min args.arg1.toNat 256)))
        else (some (-14), v) := rfl
  have hd : Syscall.syscallDispatch 2 args ⟨kernelOps im file rflags, region, k, calls⟩ = _ :=
    dispatch_writeSerial
  by_cases hinval : args.arg0 = 0 ∨ 4096 < args.arg1
  · rw [if_pos hinval] at hd hview
    exact h.answered hv hb hd hview h.mem_eq rfl rfl rfl rfl h.core
  rw [if_neg hinval] at hd hview
  by_cases hrange : Syscall.userCheckRange region args.arg0 args.arg1 = true
  · rw [if_pos hrange] at hd hview
    obtain ⟨hr, hcore⟩ := h.core.kWriteSerialBounded h.mem_eq args.arg0 args.arg1
    rw [hr] at hd
    exact h.answered hv hb hd hview h.mem_eq rfl rfl rfl rfl hcore
  · rw [if_neg hrange] at hd hview
    exact h.answered hv hb hd hview h.mem_eq rfl rfl rfl rfl h.core

end Answers

/-- System calls return what they are seen to return. -/
theorem Shows.syscall (h : Shows im file rflags region u traps s v) (hv : v.halted = false)
    (hb : v.running = .boot) (nr : UInt64) (args : Args) :
    ((Event.syscall nr args).run im file rflags s).1 = (v.syscall file rflags region nr args).1 ∧
      Shows im file rflags region u traps ((Event.syscall nr args).run im file rflags s).2
        (v.syscall file rflags region nr args).2 := by
  obtain ⟨ops, reg, k, calls⟩ := s
  obtain rfl : ops = kernelOps im file rflags := h.ops_eq
  obtain rfl : reg = region := h.region_eq
  rcases number_cases nr with rfl | rfl | rfl | rfl | rfl | hnr
  · exact h.answered hv hb dispatch_ping rfl h.mem_eq rfl rfl rfl rfl h.core
  · refine h.answered hv hb dispatch_getTicks ?_ h.mem_eq rfl rfl rfl rfl h.core
    obtain ⟨n, hn⟩ := h.core.inStep
    exact congrArg (fun ticks : UInt64 ↦ (some ticks.toInt64, v)) hn.ticks_eq.symm
  · exact h.writeSerial hv hb
  · -- a demo thread runs, and the call does not return
    have hrotates : Rotates im .demoA (kYieldCurrent im k).sched.state :=
      Rotates.yield (r := .boot) (hb ▸ h.rotates)
    have haway : (kYieldCurrent im k).current ≠ im.bootThread := by
      rw [Kernel.current, hrotates.current]
      exact im.thread_ne .demoA .boot (by decide)
    rw [Event.run_syscall (h.halted_eq.trans hv) (h.current_eq hb) dispatch_yield]
    exact ⟨if_pos (.inr haway), rfl, rfl, h.mem_eq, h.halted_eq,
      ⟨h.core.inStep, h.core.logged⟩, hrotates⟩
  · -- the kernel halts, and the call does not return
    obtain ⟨panic, s', heq, hemits⟩ := kExitCurrent_eq file rflags args.arg0.toUInt32.toInt32 k
    have hcore := h.core.emits hemits
    have hnone : (if (some panic).isSome = true ∨ k.current ≠ im.bootThread then none
        else some (0 : Int64)) = none := if_pos (.inl rfl)
    rw [Event.run_syscall (h.halted_eq.trans hv) (h.current_eq hb) dispatch_exit, heq]
    exact ⟨hnone, rfl, rfl, h.mem_eq, rfl, ⟨hcore.inStep, hcore.logged⟩, h.rotates⟩
  · refine h.answered hv hb (dispatch_enosys hnr _) ?_ h.mem_eq rfl rfl rfl rfl h.core
    have hne : ∀ n : UInt64, n < 5 → nr ≠ n := fun n hn he ↦ UInt64.not_le.2 hn (he ▸ hnr)
    rw [View.syscall, if_neg (hne 0 (by decide)), if_neg (hne 1 (by decide)),
      if_neg (hne 2 (by decide)), if_neg (hne 3 (by decide)), if_neg (hne 4 (by decide))]

theorem Event.run_of_halted (hs : s.kernel.halted.isSome = true) (e : Event) :
    e.run im file rflags s = (none, s) := if_pos hs

theorem View.step_of_halted (hv : v.halted = true) (e : Event) :
    v.step file rflags region e = (none, v) := if_pos hv

/-- One event. -/
theorem Shows.run (h : Shows im file rflags region u traps s v) (e : Event) :
    (e.run im file rflags s).1 = (v.step file rflags region e).1 ∧
      Shows im file rflags region u traps (e.run im file rflags s).2
        (v.step file rflags region e).2 := by
  cases hv : v.halted with
  | true =>
    rw [Event.run_of_halted (h.halted_eq.trans hv), View.step_of_halted hv]
    exact ⟨rfl, h⟩
  | false =>
    have hs : ¬ s.kernel.halted.isSome = true := ne_true_of_eq_false (h.halted_eq.trans hv)
    have hv' : ¬ v.halted = true := ne_true_of_eq_false hv
    cases e with
    | core e =>
      obtain ⟨s', hs', hcore⟩ := h.core.run file rflags e
      have hon : s.kernel.onCore (e.run file rflags)
          = ⟨s', s.kernel.sched, s.kernel.mem, s.kernel.halted⟩ := by
        rw [Kernel.onCore, hs']
      rw [Event.run, View.step, if_neg hs, if_neg hv']
      dsimp only
      rw [hon]
      exact ⟨rfl, h.ops_eq, h.region_eq, h.mem_eq, h.halted_eq, hcore, h.rotates⟩
    | store addr byte =>
      rw [Event.run, View.step, if_neg hs, if_neg hv']
      refine ⟨rfl, h.ops_eq, h.region_eq, ?_, h.halted_eq, ⟨h.core.inStep, h.core.logged⟩,
        h.rotates⟩
      exact congrArg (Function.update · addr byte) h.mem_eq
    | syscall nr args =>
      rw [View.step, if_neg hv']
      by_cases hb : v.running = .boot
      · rw [if_neg (not_not.2 hb)]
        exact h.syscall hv hb nr args
      · have haway : s.kernel.current ≠ im.bootThread := by
          rw [Kernel.current, h.rotates.current]
          exact im.thread_ne v.running .boot hb
        rw [if_pos hb, Event.run, if_neg hs, if_pos haway]
        exact ⟨rfl, h⟩
    | turn cpu =>
      obtain ⟨sched, core, hturn, hrotates, hemits⟩ := h.rotates.turn h.core.logged.ready cpu
      have hcore := h.core.emits hemits
      rw [Event.run, View.step, if_neg hs, if_neg hv']
      dsimp only
      rw [hturn]
      exact ⟨rfl, h.ops_eq, h.region_eq, h.mem_eq, h.halted_eq, ⟨hcore.inStep, hcore.logged⟩,
        hrotates⟩

theorem Shows.runAll (h : Shows im file rflags region u traps s v) (es : List Event) :
    (runAll im file rflags es s).1 = (View.runAll file rflags region es v).1 ∧
      Shows im file rflags region u traps (runAll im file rflags es s).2
        (View.runAll file rflags region es v).2 := by
  induction es generalizing s v with
  | nil => exact ⟨rfl, h⟩
  | cons e es ih =>
    obtain ⟨hr, h'⟩ := h.run e
    obtain ⟨hrs, h''⟩ := ih h'
    rw [Kmain.runAll, View.runAll]
    exact ⟨congrArg₂ List.cons hr hrs, h''⟩

/-- The kernel and its view, when the kernel has been set up. -/
theorem shows_boot (im : Image) (file : List UInt8) (rflags : Word) (region : Syscall.UserRegion)
    {k : Kernel} (hlog : LogOk k.core) (hk : k.halted = none) :
    Shows im file rflags region (boot im file rflags region k).kernel.core.ports.uart
      k.core.trapCount (boot im file rflags region k) (.initial k) ∧
    (boot im file rflags region k).kernel.core.ports.uart.status = k.core.ports.uart.status := by
  obtain ⟨k', text, hrun, hrotates, hemits, hmem, hhalted⟩ :=
    m9SchedulerBootstrap_eq im file rflags k
  have htransmits := hemits.transmits hlog
  have hticks : k'.core.ticks = k.core.ticks := by rw [hemits.frame]
  have htraps : k'.core.trapCount = k.core.trapCount := by rw [hemits.frame]
  have hup := m5BringUp_ends file rflags k'.core
  cases h : m5BringUp file rflags k'.core with
  | error e s => exact (hup.of_eq_error h).elim
  | ok x s =>
    obtain ⟨uart, rfl, huse⟩ := hup.of_eq_ok h
    have hboot : boot im file rflags region k = ⟨kernelOps im file rflags, region,
        ⟨broughtUp k'.core uart, k'.sched, k'.mem, k'.halted⟩, []⟩ := by
      have hkernel : k'.onCore (m5BringUp file rflags)
          = ⟨broughtUp k'.core uart, k'.sched, k'.mem, k'.halted⟩ := by rw [Kernel.onCore, h]
      rw [boot, hrun, ← hkernel]
      rfl
    have huse := huse htransmits.logOk
    rw [hboot, ← htraps]
    refine ⟨⟨rfl, rfl, hmem, ?_, ⟨⟨0, ?_⟩, rfl, .nil huse.latched⟩, hrotates⟩,
      huse.status.trans htransmits.status⟩
    · rw [hhalted, hk]
      rfl
    · have hstep := broughtUp_inStep k'.core uart
      rwa [hticks] at hstep

end Shows

/-- A clock that is read before and after an interrupt, a text that the user writes, a call that
does not exist, and one that gives way; the demo threads take over, and nobody reads the clock. -/
def someEvents : List Event :=
  [.syscall 1 ⟨0, 0, 0, 0, 0, 0⟩, .core (.requests 1 0), .core (.interrupt somePageFault),
    .syscall 1 ⟨0, 0, 0, 0, 0, 0⟩, .store 0x1001 111, .syscall 2 ⟨0x1000, 2, 0, 0, 0, 0⟩,
    .syscall 7 ⟨0, 0, 0, 0, 0, 0⟩, .syscall 3 ⟨0, 0, 0, 0, 0, 0⟩, .turn Sched.zeroContext,
    .turn Sched.zeroContext, .syscall 1 ⟨0, 0, 0, 0, 0, 0⟩]

/-- Some place for the threads. -/
def someImage : Image where
  code := Sched.Kernel.someCode
  bootThread := 0x2000
  threadA := 0x3000
  threadB := 0x4000
  bootName := 0x5000
  nameA := 0x5010
  nameB := 0x5020
  demoThreadA := 0x6000
  demoThreadB := 0x6100
  stackA := 0x10000
  stackB := 0x20000
  threads_nodup := by decide
  entries_nodup := by decide
  stackA_ne_zero := by decide
  stackA_aligned := by decide
  stackA_fits := by decide
  stackB_ne_zero := by decide
  stackB_aligned := by decide
  stackB_fits := by decide

/-- A kernel before it is set up. -/
def someKernel : Kernel where
  core := freshState fun _ ↦ 0x20
  sched := ⟨Sched.blankState, Sched.zeroContext⟩
  mem := fun _ ↦ 104
  halted := none

end Kmain
end Mcsos
