import Mcsos.Arch.Interrupt
import Mcsos.Core.Pic
import Mcsos.Core.Report

/-!
# Traps

`trap.c`: what the kernel does with an exception or an interrupt once the entry code has saved the
registers.  An exception is reported on the log, and unless it is a breakpoint, it is the end.
From the report one can tell the exception, the place where it happened and the registers that are
part of the report (`trap_report_read_back`).

An interrupt is counted if it is the timer's, and acknowledged to the controllers in any case.  The
controllers hold back an interrupt line until its last interrupt has been acknowledged, and with it
all lines behind it, so it matters that this is done right: for lines of the second controller both
controllers are to be told, and for the others only the first one.
-/

set_option autoImplicit false

namespace Mcsos
namespace Core

open Arch Program
open Assembly (Word)

/-! ## `pit.c` -/

/-- The number that `x86_64_pit_configure_hz` divides the base frequency by. -/
def pitDivisor (hz : UInt32) : UInt32 :=
  let divisor := 1193182 / hz
  let divisor := if 0xffff < divisor then 0xffff else divisor
  if divisor = 0 then 1 else divisor

/-- `x86_64_pit_configure_hz`, for a rate other than zero -/
def pitConfigureHz (hz : UInt32) (s : State) : State :=
  let divisor := pitDivisor hz
  let s := s.io (outb 0x43 0x36)
  let s := s.io (outb 0x40 (divisor &&& 0xff).toUInt8.toBitVec)
  let s := s.io (outb 0x40 ((divisor >>> 8) &&& 0xff).toUInt8.toBitVec)
  logAll
    [.keyValueHex64 (ascii "pit_hz") hz.toUInt64.toBitVec,
      .keyValueHex64 (ascii "pit_divisor") divisor.toUInt64.toBitVec,
      .writeln (ascii "[M5] PIT configured")] s

/-- `x86_64_timer_on_irq0` -/
def timerOnIrq0 (s : State) : State :=
  let s := { s with ticks := s.ticks + 1 }
  if s.ticks % 100 = 0 then logKeyValueHex64 (ascii "ticks") s.ticks.toBitVec s else s

/-! ## `trap.c` -/

/-- `exception_names` -/
def exceptionNames : List String :=
  ["#DE Divide Error", "#DB Debug", "NMI Interrupt", "#BP Breakpoint", "#OF Overflow",
    "#BR Bound Range Exceeded", "#UD Invalid Opcode", "#NM Device Not Available",
    "#DF Double Fault", "Coprocessor Segment Overrun", "#TS Invalid TSS",
    "#NP Segment Not Present", "#SS Stack Segment Fault", "#GP General Protection Fault",
    "#PF Page Fault", "Reserved", "#MF x87 Floating-Point Exception", "#AC Alignment Check",
    "#MC Machine Check", "#XM SIMD Floating-Point Exception", "#VE Virtualization Exception",
    "#CP Control Protection Exception", "Reserved", "Reserved", "Reserved", "Reserved",
    "Reserved", "Reserved", "#HV Hypervisor Injection Exception",
    "#VC VMM Communication Exception", "#SX Security Exception", "Reserved"]

/-- `trap_name` -/
def trapName (vector : Word) : List UInt8 :=
  if vector < 32 then ascii (exceptionNames.getD vector.toNat "")
  else if vector < 48 then ascii "external-hardware-irq"
  else ascii "external-or-user-defined-interrupt"

/-- `log_trap_frame` -/
def logTrapFrame (frame : TrapFrame) : List LogCall :=
  [.keyValueHex64 (ascii "trap_vector") frame.vector,
    .keyValueHex64 (ascii "trap_error") frame.errorCode,
    .keyValueHex64 (ascii "trap_rip") frame.rip,
    .keyValueHex64 (ascii "trap_cs") frame.cs,
    .keyValueHex64 (ascii "trap_rflags") frame.rflags,
    .keyValueHex64 (ascii "trap_rax") frame.rax,
    .keyValueHex64 (ascii "trap_rbx") frame.rbx,
    .keyValueHex64 (ascii "trap_rcx") frame.rcx,
    .keyValueHex64 (ascii "trap_rdx") frame.rdx]

/-- `handle_irq` -/
def handleIrq (vector : Word) (s : State) : State :=
  let irq : Byte := (vector - 32).setWidth 8
  let s :=
    if irq = 0 then timerOnIrq0 s
    else logAll [.write (ascii "[M5] unexpected IRQ received: "), .writeln (trapName vector)] s
  s.io (picSendEoi irq)

/-- `x86_64_trap_dispatch`.  The name of the source file and the flags that a panic reports are
parameters. -/
def trapDispatch (file : List UInt8) (rflags : Word) (frame : TrapFrame) :
    EStateM Panic State Unit := do
  modify fun s ↦ { s with trapCount := s.trapCount + 1 }
  if 32 ≤ frame.vector ∧ frame.vector < 48 then modify (handleIrq frame.vector)
  else do
    modify (logAll ([.write (ascii "[M4] trap dispatch: "), .writeln (trapName frame.vector)] ++
      logTrapFrame frame))
    if frame.vector = 3 then
      modify (logAll [.writeln (ascii "[M4] breakpoint handled; returning with iretq")])
    else
      kernelPanicAt (some file) 96 (some (ascii "unrecoverable CPU exception")) frame.vector rflags

/-! ## The report of an exception -/

section Exception

variable {frame : TrapFrame}

theorem quiet_trapName (vector : Word) : Quiet (untilNul (trapName vector) ++ [10]) := by
  have hnames : ∀ n < 32, Quiet (untilNul (ascii (exceptionNames.getD n "")) ++ [10]) := by
    decide +kernel
  rw [trapName]
  split
  · exact hnames _ ‹_›
  · split
    · decide +kernel
    · decide +kernel

/-- The values of the registers that the report has. -/
def reported (frame : TrapFrame) : List ℕ :=
  [frame.vector.toNat, frame.errorCode.toNat, frame.rip.toNat, frame.cs.toNat, frame.rflags.toNat,
    frame.rax.toNat, frame.rbx.toNat, frame.rcx.toNat, frame.rdx.toNat]

theorem readValues_logTrapFrame (frame : TrapFrame) (u : List UInt8) :
    readValues (expand (textOf (logTrapFrame frame) ++ u))
      = reported frame ++ readValues (expand u) := by
  simp only [logTrapFrame, textOf, List.flatMap_cons, List.flatMap_nil, LogCall.text,
    List.append_assoc, List.nil_append]
  rw [readValues_keyValueLine (by decide), readValues_keyValueLine (by decide),
    readValues_keyValueLine (by decide), readValues_keyValueLine (by decide),
    readValues_keyValueLine (by decide), readValues_keyValueLine (by decide),
    readValues_keyValueLine (by decide), readValues_keyValueLine (by decide),
    readValues_keyValueLine (by decide)]
  rfl

/-- Everything that is logged about an exception. -/
def exceptionReport (file : List UInt8) (rflags : Word) (frame : TrapFrame) : List LogCall :=
  [.write (ascii "[M4] trap dispatch: "), .writeln (trapName frame.vector)] ++
    logTrapFrame frame ++
    if frame.vector = 3 then [.writeln (ascii "[M4] breakpoint handled; returning with iretq")]
    else panicReport (some file) 96 (some (ascii "unrecoverable CPU exception")) frame.vector rflags

/-- What becomes of an exception. -/
def verdict (frame : TrapFrame) : Option Panic :=
  if frame.vector = 3 then none else some ⟨ascii "unrecoverable CPU exception", frame.vector⟩

theorem exceptionReport_ne_nil (file : List UInt8) (rflags : Word) (frame : TrapFrame) :
    exceptionReport file rflags frame ≠ [] := by
  rw [exceptionReport, List.append_assoc]
  exact List.cons_ne_nil _ _

/-- An exception is reported, and then it is decided upon. -/
theorem trapDispatch_exception (file : List UInt8) (rflags : Word)
    (h : ¬ (32 ≤ frame.vector ∧ frame.vector < 48)) (s : State) :
    trapDispatch file rflags frame s =
      let s' := logAll (exceptionReport file rflags frame) { s with trapCount := s.trapCount + 1 }
      match verdict frame with
      | none => .ok () s'
      | some panic => .error panic s' := by
  rw [trapDispatch, bind_of_ok (modify_apply _ s), if_neg h, bind_of_ok (modify_apply _ _),
    exceptionReport, verdict]
  split
  · simp only [logAll, List.foldl_append]
    rfl
  · simp only [logAll, List.foldl_append]
    rfl

theorem readValues_exceptionReport {file : List UInt8} (hfile : Plain file) (rflags : Word)
    (frame : TrapFrame) :
    readValues (expand (textOf (exceptionReport file rflags frame))) = reported frame ++
      if frame.vector = 3 then [] else [frame.vector.toNat, rflags.toNat] := by
  have hpre : textOf [.write (ascii "[M4] trap dispatch: "), .writeln (trapName frame.vector)]
      = untilNul (ascii "[M4] trap dispatch: ") ++ (untilNul (trapName frame.vector) ++ [10]) := by
    simp only [textOf, List.flatMap_cons, List.flatMap_nil, LogCall.text, List.append_nil]
  rw [exceptionReport, textOf_append, textOf_append, hpre, List.append_assoc, List.append_assoc,
    readValues_expand (by decide), readValues_expand (quiet_trapName _), readValues_logTrapFrame]
  congr 1
  split
  · decide +kernel
  · exact readValues_panicReport hfile (by decide) 96 frame.vector rflags

/-- **Exceptions can be read back from the serial port.**  On a port that gets ready in time, the
bytes that the dispatcher transmits for an exception, with any registers, can be read back as the
vector, the error code and the registers of the report, followed by the panic code and the flags if
the exception is not a breakpoint; and only a breakpoint returns. -/
theorem trap_report_read_back {file : List UInt8} (hfile : Plain file) (rflags : Word)
    (h : ¬ (32 ≤ frame.vector ∧ frame.vector < 48)) {s : State} (hs : LogOk s)
    (hr : Responsive s.ports.uart) :
    ∃ sent, (after (trapDispatch file rflags frame) s).ports.uart.sent
        = s.ports.uart.sent ++ sent ∧
      readValues sent = reported frame ++
        (if frame.vector = 3 then [] else [frame.vector.toNat, rflags.toNat]) ∧
      errorOf (trapDispatch file rflags frame) s = verdict frame := by
  have hne := exceptionReport_ne_nil file rflags frame
  have hemits := logAll_emits hne { s with trapCount := s.trapCount + 1 }
  obtain ⟨sent, hsent, hdelivers⟩ := (hemits.transmits hs).sent
  have hx := trapDispatch_exception file rflags h s
  have hafter : after (trapDispatch file rflags frame) s
      = logAll (exceptionReport file rflags frame) { s with trapCount := s.trapCount + 1 } := by
    rw [after, hx]
    cases verdict frame <;> rfl
  refine ⟨sent, ?_, ?_, ?_⟩
  · rw [hafter, hsent]
  · rw [hdelivers.eq_of_responsive hr, readValues_exceptionReport hfile]
  · rw [errorOf, hx]
    cases verdict frame <;> rfl

end Exception

/-- A page fault. -/
def somePageFault : TrapFrame where
  r15 := 0
  r14 := 0
  r13 := 0
  r12 := 0
  r11 := 0
  r10 := 0
  r9 := 0
  r8 := 0
  rsi := 0
  rdi := 0
  rbp := 0
  rdx := 4
  rcx := 3
  rbx := 2
  rax := 1
  vector := 14
  errorCode := 2
  rip := 0xffffffff80001234
  cs := 0x28
  rflags := 0x202

/-- The report of a page fault. -/
theorem trap_report_read_back_page_fault :
    ∃ sent, (after (trapDispatch (ascii "kernel/core/trap.c") 0x2 somePageFault)
        (freshState fun _ ↦ 0x20)).ports.uart.sent = sent ∧
      readValues sent = [14, 2, 0xffffffff80001234, 0x28, 0x202, 1, 2, 3, 4, 14, 2] := by
  have hready : (0x20 : Byte).getLsbD 5 = true := by decide
  have hvector : ¬ (32 ≤ somePageFault.vector ∧ somePageFault.vector < 48) := by decide
  obtain ⟨sent, h1, h2, -⟩ := trap_report_read_back
    (show Plain (ascii "kernel/core/trap.c") by decide) 0x2 hvector
    (logOk_freshState fun _ ↦ 0x20) fun n ↦ ⟨0, by decide, hready⟩
  exact ⟨sent, h1, h2⟩

end Core
end Mcsos
