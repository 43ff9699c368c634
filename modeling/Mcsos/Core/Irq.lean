import Mcsos.Core.Trap

/-!
# Interrupts over whole runs

The kernel sets the interrupt controllers up so that only the timer can interrupt it, and from then
on the outside world decides what happens when: devices make requests and take them back, and the
processor acknowledges an interrupt and enters the dispatcher.  The dispatcher runs with interrupts
off, so nothing comes between an acknowledgement and the end of interrupt that answers it.

`Idle` is the invariant: between two events no input of a controller is in service.  An
acknowledgement may put one input of the master in service and one of the slave; the dispatcher
learns of it by the vector only, and has to make up for exactly that (`acknowledge_spec`).

What this is for is the clock.  `Timer` is the abstract one, which advances with every interrupt
that finds a request of the timer, if it is enabled; the kernel's tick counter is this number, and
neither requests of other lines nor spurious interrupts, which come without any request, make a
difference to it (`interrupts_served`).
-/

set_option autoImplicit false

namespace Mcsos
namespace Core

open Arch Program
open Assembly (Word)

/-! ## Setting up -/

/-- `KERNEL_ASSERT` -/
def kernelAssert (file : List UInt8) (line : UInt32) (rflags : Word) (expr : String) (c : Prop)
    [Decidable c] : EStateM Panic State Unit :=
  if c then pure ()
  else
    kernelPanicAt (some file) line (some (ascii ("assertion failed: " ++ expr))) 0xa55e4710 rflags

/-- `x86_64_pic_read_master_mask` -/
def picReadMasterMask : EStateM Panic State Byte :=
  modifyGet fun s ↦ ((inb picMasterData s.ports).1, s.io fun p ↦ (inb picMasterData p).2)

/-- `m5_selftest` -/
def m5Selftest (file : List UInt8) (rflags : Word) : EStateM Panic State Unit := do
  let masterMask ← picReadMasterMask
  kernelAssert file 69 rflags "(master_mask & 0x01u) == 0u" (masterMask &&& 0x01 = 0)
  kernelAssert file 70 rflags "(master_mask & 0xFEu) == 0xFEu" (masterMask &&& 0xfe = 0xfe)
  modify (logAll [.writeln (ascii "[M5] selftest: PIC mask invariants passed")])

/-- The part of `kmain` that sets interrupts up. -/
def m5BringUp (file : List UInt8) (rflags : Word) : EStateM Panic State Unit := do
  modify (logAll [.writeln (ascii "[M5] boot: external interrupt bring-up start")])
  modify (picRemap 0x20 0x28)
  modify (State.io picMaskAll)
  modify (State.io (picUnmaskIrq 0))
  m5Selftest file rflags
  modify (pitConfigureHz 100)
  modify (logAll [.writeln (ascii "[M5] sti: enabling interrupts")])

/-! ## Events -/

/-- What happens once interrupts are on. -/
inductive Event
  /-- The requests of the devices change to these. -/
  | requests (master slave : Byte)
  /-- The processor takes an interrupt; the frame is what the entry code has saved. -/
  | interrupt (frame : TrapFrame)
  /-- The kernel runs into a breakpoint. -/
  | breakpoint (frame : TrapFrame)
  | unmaskIrq (irq : Fin 16)
  | maskIrq (irq : Fin 16)
  | maskAll

/-- The number of an interrupt line as the functions of `pic.h` take it. -/
def irqByte (irq : Fin 16) : Byte := BitVec.ofNat 8 irq

def Event.run (file : List UInt8) (rflags : Word) : Event → EStateM Panic State Unit
  | requests master slave => modify (State.io (setRequests master slave))
  | interrupt frame => do
    let vector ← modifyGet fun s ↦ (s.ports.acknowledge.1, s.io fun p ↦ p.acknowledge.2)
    trapDispatch file rflags { frame with vector := vector.setWidth 64 }
  | breakpoint frame => trapDispatch file rflags { frame with vector := 3 }
  | unmaskIrq irq => modify (State.io (picUnmaskIrq (irqByte irq)))
  | maskIrq irq => modify (State.io (picMaskIrq (irqByte irq)))
  | maskAll => modify (State.io picMaskAll)

/-- The clock, as one would like it to be. -/
structure Timer where
  pending : Bool
  enabled : Bool
  ticks : ℕ

/-- What an event means to the clock. -/
def Timer.step (t : Timer) : Event → Timer
  | .requests master _ => { t with pending := master.getLsbD 0 }
  | .interrupt _ =>
    if t.pending && t.enabled then { t with pending := false, ticks := t.ticks + 1 } else t
  | .breakpoint _ => t
  | .unmaskIrq irq => if irq = 0 then { t with enabled := true } else t
  | .maskIrq irq => if irq = 0 then { t with enabled := false } else t
  | .maskAll => { t with enabled := false }

/-- Whether an event enters the dispatcher. -/
def Event.isTrap : Event → Bool
  | interrupt _ => true
  | breakpoint _ => true
  | _ => false

/-! ## One interrupt -/

/-- The controllers have been set up, and nothing is in service. -/
structure Idle (p : Ports) : Prop where
  ready : Ready p
  master_offset : p.master.offset = 0x20
  slave_offset : p.slave.offset = 0x28
  master_isr : p.master.isr = 0
  slave_isr : p.slave.isr = 0

section Chip

variable {c : Chip}

theorem pick_lt {i : ℕ} (h : c.pick = some i) : i < 8 :=
  List.mem_range.1 (List.mem_of_find?_eq_some h)

/-- Input 0 comes first. -/
theorem pick_eq_zero_iff (h : c.isr = 0) :
    c.pick = some 0 ↔ (c.irr.getLsbD 0 && !c.imr.getLsbD 0) = true := by
  have hw : c.wants 0 = (c.irr.getLsbD 0 && !c.imr.getLsbD 0) := by
    rw [Chip.wants, h]
    show (_ && _ && true) = _
    rw [Bool.and_true]
  rw [← hw]
  constructor
  · exact List.find?_some
  · intro h0
    rw [Chip.pick, show List.range 8 = 0 :: [1, 2, 3, 4, 5, 6, 7] from rfl, List.find?_cons, h0]

/-- The end of interrupt undoes what an answer has put in service. -/
theorem endOfInterrupt_serve (h : c.isr = 0) {i : ℕ} (hi : i < 8) :
    (c.serve i).endOfInterrupt.isr = 0 := by
  have key : ∀ i < 8, (0 ||| BitVec.twoPow 8 i : Byte) &&& ((0 ||| BitVec.twoPow 8 i) - 1) = 0 := by
    decide
  show (c.isr ||| BitVec.twoPow 8 i) &&& (c.isr ||| BitVec.twoPow 8 i) - 1 = 0
  rw [h]
  exact key i hi

theorem endOfInterrupt_answer (h : c.isr = 0) : c.answer.2.endOfInterrupt.isr = 0 := by
  rw [Chip.answer]
  cases hp : c.pick with
  | none =>
    show c.isr &&& (c.isr - 1) = 0
    rw [h]
    rfl
  | some i => exact endOfInterrupt_serve h (pick_lt hp)

theorem toNat_vector {o : Byte} (ho : ∀ i < 8, (o ||| BitVec.ofNat 8 i).toNat = o.toNat + i)
    (h : c.offset = o) {i : ℕ} (hi : i < 8) : (c.vector i).toNat = o.toNat + i := by
  rw [Chip.vector, h, ho i hi]

/-- A controller answers for the input it has picked, and for input 7 if there is none. -/
theorem toNat_answer {o : Byte} (ho : ∀ i < 8, (o ||| BitVec.ofNat 8 i).toNat = o.toNat + i)
    (h : c.offset = o) :
    ∃ i < 8, c.answer.1.toNat = o.toNat + i ∧ (c.pick = some i ∨ c.pick = none ∧ i = 7) := by
  rw [Chip.answer]
  cases hp : c.pick with
  | none => exact ⟨7, by decide, toNat_vector ho h (by decide), .inr ⟨rfl, rfl⟩⟩
  | some i => exact ⟨i, pick_lt hp, toNat_vector ho h (pick_lt hp), .inl rfl⟩

theorem serve_irr_zero {i : ℕ} :
    (c.serve i).irr.getLsbD 0 = (c.irr.getLsbD 0 && !decide (i = 0)) := by
  show (c.irr &&& ~~~ BitVec.twoPow 8 i).getLsbD 0 = _
  rw [BitVec.getLsbD_and, BitVec.getLsbD_not, BitVec.getLsbD_twoPow]
  by_cases hi : i = 0 <;> simp [hi]

/-- An answer takes the request of the input that it is for. -/
theorem answer_irr_zero :
    c.answer.2.irr.getLsbD 0 = (c.irr.getLsbD 0 && !decide (c.pick = some 0)) := by
  rw [Chip.answer]
  cases hp : c.pick with
  | none => simp
  | some i =>
    rw [serve_irr_zero]
    simp

theorem answer_offset (c : Chip) : c.answer.2.offset = c.offset := by
  rw [Chip.answer]
  split <;> rfl

end Chip

section Interrupt

variable {p : Ports}

/-- **One interrupt**, from its acknowledgement to the end of interrupt that the vector leads to. -/
theorem acknowledge_spec (h : Idle p) : ∃ irq < 16, p.acknowledge.1.toNat = 32 + irq ∧
    (irq = 0 ↔ (p.master.irr.getLsbD 0 && !p.master.imr.getLsbD 0) = true) ∧
    Idle (picSendEoi (BitVec.ofNat 8 irq) p.acknowledge.2) ∧
    (picSendEoi (BitVec.ofNat 8 irq) p.acknowledge.2).master.irr.getLsbD 0
      = (p.master.irr.getLsbD 0 && !decide (irq = 0)) := by
  have hmaster : ∀ i < 8, ((0x20 : Byte) ||| BitVec.ofNat 8 i).toNat = (0x20 : Byte).toNat + i := by
    decide
  have hslave : ∀ i < 8, ((0x28 : Byte) ||| BitVec.ofNat 8 i).toNat = (0x28 : Byte).toNat + i := by
    decide
  have hlow : ∀ i < 8, ¬ (8 : Byte) ≤ BitVec.ofNat 8 i := by decide
  have hhigh : ∀ i < 8, (8 : Byte) ≤ BitVec.ofNat 8 (8 + i) := by decide
  rw [← pick_eq_zero_iff h.master_isr]
  by_cases htwo : p.master.pick = some 2
  · -- the slave answers, and both controllers have something in service
    obtain ⟨i, hi, hv, -⟩ := toNat_answer hslave h.slave_offset
    have hack : p.acknowledge
        = (p.slave.answer.1, { p with master := p.master.serve 2, slave := p.slave.answer.2 }) :=
      if_pos htwo
    have hmask := answer_keeps p.slave
    refine ⟨8 + i, by omega, ?_⟩
    rw [hack, picSendEoi_eq, if_pos (hhigh i hi)]
    refine ⟨?_, ?_, ⟨⟨h.ready.master, hmask.2.trans h.ready.slave⟩,
      h.master_offset, (answer_offset _).trans h.slave_offset,
      endOfInterrupt_serve h.master_isr (by decide), endOfInterrupt_answer h.slave_isr⟩, ?_⟩
    · exact hv.trans (show 40 + i = 32 + (8 + i) by omega)
    · rw [htwo]
      simp
    · exact serve_irr_zero.trans (by simp)
  · obtain ⟨i, hi, hv, hpick⟩ := toNat_answer hmaster h.master_offset
    have hack : p.acknowledge = (p.master.answer.1, { p with master := p.master.answer.2 }) :=
      if_neg htwo
    have hmask := answer_keeps p.master
    have hzero : i = 0 ↔ p.master.pick = some 0 := by
      rcases hpick with hpick | ⟨hpick, rfl⟩ <;> rw [hpick] <;> simp
    refine ⟨i, by omega, ?_⟩
    rw [hack, picSendEoi_eq, if_neg (hlow i hi)]
    refine ⟨hv, hzero, ⟨⟨hmask.2.trans h.ready.master, h.ready.slave⟩,
      (answer_offset _).trans h.master_offset, h.slave_offset, endOfInterrupt_answer h.master_isr,
      h.slave_isr⟩, ?_⟩
    rw [decide_eq_decide.2 hzero]
    exact answer_irr_zero

end Interrupt

/-! ## Every event -/

/-- The kernel is in step with the clock: `ticks` and `traps` were the two counters at the start. -/
structure InStep (ticks traps : UInt64) (s : State) (t : Timer) (n : ℕ) : Prop where
  idle : Idle s.ports
  pending_eq : s.ports.master.irr.getLsbD 0 = t.pending
  enabled_eq : enabled s.ports 0 = t.enabled
  ticks_eq : s.ticks = ticks + .ofNat t.ticks
  traps_eq : s.trapCount = traps + .ofNat n

section Events

variable {s s' : State} {ticks traps : UInt64} {t : Timer} {n : ℕ} {x : List UInt8}

theorem Idle.withUart {p : Ports} (h : Idle p) (u : Uart) : Idle { p with uart := u } :=
  ⟨⟨h.ready.master, h.ready.slave⟩, h.master_offset, h.slave_offset, h.master_isr, h.slave_isr⟩

theorem InStep.of_emits (h : InStep ticks traps s t n) (he : Emits s s' x) :
    InStep ticks traps s' t n := by
  rw [he.frame]
  exact ⟨h.idle.withUart _, h.pending_eq, h.enabled_eq, h.ticks_eq, h.traps_eq⟩

theorem timerOnIrq0_eq (s : State) : ∃ u ready, timerOnIrq0 s = { s with
    ports := { s.ports with uart := u }, logReady := ready, ticks := s.ticks + 1 } := by
  rw [timerOnIrq0]
  dsimp only
  split
  · have h := logKeyValueHex64_emits (ascii "ticks") (s.ticks + 1).toBitVec
      { s with ticks := s.ticks + 1 }
    exact ⟨_, _, h.frame⟩
  · exact ⟨s.ports.uart, s.logReady, rfl⟩

/-- The handler of an interrupt line, up to what it logs. -/
theorem handleIrq_eq {vector : Word} {irq : Byte} (h : (vector - 32).setWidth 8 = irq) (s : State) :
    ∃ u ready, handleIrq vector s = { s with
      ports := { picSendEoi irq s.ports with uart := u }
      logReady := ready
      ticks := if irq = 0 then s.ticks + 1 else s.ticks } := by
  rw [handleIrq, h]
  dsimp only
  split
  · obtain ⟨u, ready, hs⟩ := timerOnIrq0_eq s
    rw [hs, State.io, picSendEoi_eq, picSendEoi_eq]
    exact ⟨u, ready, rfl⟩
  · have hs := logAll_emits (List.cons_ne_nil (.write (ascii "[M5] unexpected IRQ received: "))
      [.writeln (trapName vector)]) s
    rw [hs.frame, State.io, picSendEoi_eq, picSendEoi_eq]
    exact ⟨_, _, rfl⟩

theorem trapDispatch_irq {file : List UInt8} {rflags : Word} {frame : TrapFrame}
    (h : 32 ≤ frame.vector ∧ frame.vector < 48) (s : State) :
    trapDispatch file rflags frame s
      = .ok () (handleIrq frame.vector { s with trapCount := s.trapCount + 1 }) := by
  rw [trapDispatch, bind_of_ok (modify_apply _ s), if_pos h]
  rfl

theorem ofNat_succ (b : UInt64) (k : ℕ) : b + .ofNat k + 1 = b + .ofNat (k + 1) := by
  rw [UInt64.ofNat_add, UInt64.add_assoc]
  rfl

theorem enabled_picSendEoi (irq : Byte) (p : Ports) : enabled (picSendEoi irq p) = enabled p := by
  rw [picSendEoi_eq]
  refine enabled_congr rfl ?_
  dsimp only
  split <;> rfl

variable {file : List UInt8} {rflags : Word}

/-- The state in which the handler of an interrupt begins. -/
def acknowledged (s : State) : State :=
  ⟨s.ports.acknowledge.2, s.logReady, s.ticks, s.trapCount + 1⟩

/-- An interrupt leads to the handler of some line, which is that of the timer exactly if the clock
is to advance. -/
theorem InStep.interrupt_eq (h : InStep ticks traps s t n) (frame : TrapFrame) :
    ∃ irq < 16, (irq = 0 ↔ (t.pending && t.enabled) = true) ∧
      (Event.interrupt frame).run file rflags s
        = .ok () (handleIrq (BitVec.ofNat 64 (32 + irq)) (acknowledged s)) ∧
      Idle (picSendEoi (BitVec.ofNat 8 irq) s.ports.acknowledge.2) ∧
      (picSendEoi (BitVec.ofNat 8 irq) s.ports.acknowledge.2).master.irr.getLsbD 0
        = (t.pending && !decide (irq = 0)) := by
  obtain ⟨irq, hirq, hv, hzero, hidle, hirr⟩ := acknowledge_spec h.idle
  have hw : s.ports.acknowledge.1.setWidth 64 = BitVec.ofNat 64 (32 + irq) := by
    refine BitVec.eq_of_toNat_eq ?_
    rw [BitVec.toNat_setWidth, hv, BitVec.toNat_ofNat]
  have hrange : ∀ k < 16,
      (32 : Word) ≤ BitVec.ofNat 64 (32 + k) ∧ BitVec.ofNat 64 (32 + k) < 48 := by decide
  have hack : (modifyGet fun s : State ↦ (s.ports.acknowledge.1, s.io fun p ↦ p.acknowledge.2) :
      EStateM Panic State Byte) s
        = .ok s.ports.acknowledge.1 (s.io fun p ↦ p.acknowledge.2) := rfl
  rw [h.pending_eq] at hirr
  refine ⟨irq, hirq, ?_, ?_, hidle, hirr⟩
  · rw [hzero, ← h.pending_eq, ← h.enabled_eq]
    rfl
  · rw [Event.run, bind_of_ok hack, hw]
    exact trapDispatch_irq (hrange irq hirq) _

/-- The number of the line as `handle_irq` computes it. -/
theorem irq_of_vector : ∀ k < 16,
    (BitVec.ofNat 64 (32 + k) - 32 : Word).setWidth 8 = BitVec.ofNat 8 k := by decide

theorem ofNat_eq_zero_iff : ∀ k < 16, BitVec.ofNat 8 k = 0 ↔ k = 0 := by decide

theorem InStep.interrupt (h : InStep ticks traps s t n) (frame : TrapFrame) :
    ∃ s', (Event.interrupt frame).run file rflags s = .ok () s' ∧
      InStep ticks traps s' (t.step (.interrupt frame)) (n + 1) := by
  obtain ⟨irq, hirq, hcase, hrun, hidle, hirr⟩ := h.interrupt_eq frame
  obtain ⟨u, ready, heq⟩ := handleIrq_eq (irq_of_vector irq hirq) (acknowledged s)
  obtain ⟨h1, h2, -, -⟩ := acknowledge_keeps s.ports
  have hen : enabled (picSendEoi (BitVec.ofNat 8 irq) s.ports.acknowledge.2) 0 = t.enabled := by
    rw [enabled_picSendEoi, enabled_congr h1 h2, h.enabled_eq]
  have htraps : s.trapCount + 1 = traps + .ofNat (n + 1) := by rw [h.traps_eq, ofNat_succ]
  refine ⟨_, hrun, ?_⟩
  rw [heq, Timer.step]
  by_cases h0 : irq = 0
  · rw [if_pos (hcase.1 h0)]
    refine ⟨hidle.withUart u, ?_, hen, ?_, htraps⟩
    · exact hirr.trans (by rw [h0]; simp)
    · show (if BitVec.ofNat 8 irq = 0 then s.ticks + 1 else s.ticks) = _
      rw [if_pos ((ofNat_eq_zero_iff irq hirq).2 h0), h.ticks_eq, ofNat_succ]
  · rw [if_neg (mt hcase.2 h0)]
    refine ⟨hidle.withUart u, ?_, hen, ?_, htraps⟩
    · exact hirr.trans (by rw [decide_eq_false h0]; simp)
    · show (if BitVec.ofNat 8 irq = 0 then s.ticks + 1 else s.ticks) = _
      rw [if_neg (mt (ofNat_eq_zero_iff irq hirq).1 h0), h.ticks_eq]

theorem InStep.breakpoint (h : InStep ticks traps s t n) (frame : TrapFrame) :
    ∃ s', (Event.breakpoint frame).run file rflags s = .ok () s' ∧
      InStep ticks traps s' t (n + 1) := by
  have hs : InStep ticks traps { s with trapCount := s.trapCount + 1 } t (n + 1) :=
    ⟨h.idle, h.pending_eq, h.enabled_eq, h.ticks_eq, by rw [h.traps_eq, ofNat_succ]⟩
  have hne := exceptionReport_ne_nil file rflags { frame with vector := 3 }
  refine ⟨_, ?_, hs.of_emits (logAll_emits hne _)⟩
  have hvector : ¬ ((32 : Word) ≤ 3 ∧ (3 : Word) < 48) := by decide
  exact trapDispatch_exception file rflags hvector s

theorem toNat_irqByte (irq : Fin 16) : (irqByte irq).toNat = irq := by
  revert irq
  decide

/-- A change of the masks leaves nothing in service. -/
theorem InStep.withMasks (h : InStep ticks traps s t n) (m o : Byte) {b : Bool}
    (hb : enabled (withMasks s.ports m o) 0 = b) :
    InStep ticks traps (s.io fun p ↦ Core.withMasks p m o) { t with enabled := b } n :=
  ⟨⟨h.idle.ready.withMasks m o, h.idle.master_offset, h.idle.slave_offset, h.idle.master_isr,
    h.idle.slave_isr⟩, h.pending_eq, hb, h.ticks_eq, h.traps_eq⟩

theorem InStep.changeMask (h : InStep ticks traps s t n) (irq : Byte) (f : Byte → Byte) {b : Bool}
    (hb : enabled (changeMask irq f s.ports) 0 = b) :
    InStep ticks traps (s.io (Core.changeMask irq f)) { t with enabled := b } n := by
  rw [State.io]
  rw [changeMask_eq h.idle.ready] at hb ⊢
  split at hb
  · rw [if_pos ‹_›]
    exact h.withMasks _ _ hb
  · rw [if_neg ‹_›]
    exact h.withMasks _ _ hb

/-- A change to the mask of one line matters to the clock if it is line 0. -/
theorem setEnabled_eq (t : Timer) (irq : Fin 16) (b : Bool) :
    (if irq = 0 then { t with enabled := b } else t)
      = { t with enabled := if 0 = (irqByte irq).toNat then b else t.enabled } := by
  rw [toNat_irqByte]
  by_cases h : irq = 0
  · rw [if_pos h, h]
    rfl
  · rw [if_neg h, if_neg fun h0 ↦ h (Fin.ext h0.symm)]

theorem irqByte_lt (irq : Fin 16) : (irqByte irq).toNat < 16 := by
  rw [toNat_irqByte]
  exact irq.isLt

/-- Every event succeeds, and the kernel stays in step with the clock. -/
theorem InStep.run (h : InStep ticks traps s t n) (e : Event) :
    ∃ s', e.run file rflags s = .ok () s' ∧
      InStep ticks traps s' (t.step e) (n + if e.isTrap then 1 else 0) := by
  cases e with
  | requests m o =>
    exact ⟨_, rfl, ⟨⟨h.idle.ready.master, h.idle.ready.slave⟩, h.idle.master_offset,
      h.idle.slave_offset, h.idle.master_isr, h.idle.slave_isr⟩, rfl, h.enabled_eq, h.ticks_eq,
      h.traps_eq⟩
  | interrupt frame => exact h.interrupt frame
  | breakpoint frame => exact h.breakpoint frame
  | unmaskIrq irq =>
    refine ⟨_, rfl, ?_⟩
    rw [Timer.step, setEnabled_eq, ← h.enabled_eq]
    exact h.changeMask _ _ (enabled_picUnmaskIrq h.idle.ready (irqByte_lt irq) (by decide))
  | maskIrq irq =>
    refine ⟨_, rfl, ?_⟩
    rw [Timer.step, setEnabled_eq, ← h.enabled_eq]
    exact h.changeMask _ _ (enabled_picMaskIrq h.idle.ready (irqByte_lt irq) (by decide))
  | maskAll =>
    refine ⟨_, rfl, ?_⟩
    have hb := enabled_picMaskAll h.idle.ready (show 0 < 16 by decide)
    rw [State.io]
    rw [picMaskAll_eq h.idle.ready] at hb ⊢
    exact h.withMasks _ _ hb

theorem InStep.runAll (h : InStep ticks traps s t n) (file : List UInt8) (rflags : Word)
    (es : List Event) :
    ∃ s', es.forM (Event.run file rflags) s = .ok () s' ∧
      InStep ticks traps s' (es.foldl Timer.step t) (n + es.countP Event.isTrap) := by
  induction es generalizing s t n with
  | nil => exact ⟨s, rfl, h⟩
  | cons e es ih =>
    obtain ⟨s', hs', h'⟩ := h.run e
    obtain ⟨s'', hs'', h''⟩ := ih h'
    refine ⟨s'', (bind_of_ok hs').trans hs'', ?_⟩
    rw [List.countP_cons, Nat.add_comm (es.countP _), ← Nat.add_assoc]
    exact h''

end Events

/-! ## The whole run -/

section Run

variable {file : List UInt8} {rflags : Word}

/-- The serial port is in use, and otherwise the same. -/
structure InUse (u u' : Uart) : Prop where
  latched : u'.latched = false
  status : u'.status = u.status

theorem InUse.trans {u u' u'' : Uart} (h : InUse u u') (h' : InUse u' u'') : InUse u u'' :=
  ⟨h'.latched, h'.status.trans h.status⟩

/-- Logging changes nothing else. -/
theorem logAll_eq {calls : List LogCall} (h : calls ≠ []) (s : State) :
    ∃ u, logAll calls s = { s with ports := { s.ports with uart := u }, logReady := true } ∧
      (LogOk s → InUse s.ports.uart u) := by
  have hemits := logAll_emits h s
  refine ⟨(logAll calls s).ports.uart, ?_, fun hs ↦ ?_⟩
  · rw [← hemits.ready]
    exact hemits.frame
  · exact ⟨(hemits.transmits hs).latched, (hemits.transmits hs).status⟩

theorem picRemap_eq (m o : Byte) (s : State) : ∃ u, picRemap m o s = { s with
    ports := { remapPorts m o s.ports with uart := u }, logReady := true } ∧
      (LogOk s → InUse s.ports.uart u) :=
  logAll_eq (List.cons_ne_nil _ _) (s.io (remapPorts m o))

theorem pitConfigureHz_eq (hz : UInt32) (s : State) : ∃ u, pitConfigureHz hz s = { s with
    ports := { s.ports with
      pit :=
        { reload := ((pitDivisor hz >>> 8) &&& 0xff).toUInt8.toBitVec ++
            (pitDivisor hz &&& 0xff).toUInt8.toBitVec
          low := none }
      uart := u }
    logReady := true } ∧ (LogOk s → InUse s.ports.uart u) :=
  logAll_eq (List.cons_ne_nil _ _) (((s.io (outb 0x43 0x36)).io
    (outb 0x40 (pitDivisor hz &&& 0xff).toUInt8.toBitVec)).io
    (outb 0x40 ((pitDivisor hz >>> 8) &&& 0xff).toUInt8.toBitVec))

/-- What setting up makes of a machine. -/
def broughtUp (s : State) (u : Uart) : State :=
  { s with
    ports :=
      { master := { irr := 0, imr := 0xfe, isr := 0, offset := 0x20, stage := .ready }
        slave := { irr := 0, imr := 0xff, isr := 0, offset := 0x28, stage := .ready }
        pit := { reload := 11931, low := none }
        uart := u }
    logReady := true }

theorem kernelAssert_of_pos {line : UInt32} {expr : String} {c : Prop} [Decidable c] (h : c)
    (s : State) : kernelAssert file line rflags expr c s = .ok () s := by
  rw [kernelAssert, if_pos h]
  rfl

theorem m5Selftest_ends {s : State} (h : s.ports.master.imr = 0xfe) :
    Ends (m5Selftest file rflags) s
      (fun _ s' ↦ ∃ u, s' = { s with ports := { s.ports with uart := u }, logReady := true } ∧
        (LogOk s → InUse s.ports.uart u)) fun _ _ ↦ False := by
  have hmask : picReadMasterMask s = .ok 0xfe s := by
    rw [← h]
    rfl
  refine ends_bind_ok hmask (ends_bind_ok (kernelAssert_of_pos (by decide) s)
    (ends_bind_ok (kernelAssert_of_pos (by decide) s) ?_))
  exact ends_of_ok (modify_apply _ s) (logAll_eq (List.cons_ne_nil _ _) s)

/-- The calls that enable the timer only. -/
theorem enableTimer_eq {p : Ports} (h : Ready p) :
    picUnmaskIrq 0 (picMaskAll p) = withMasks p 0xfe 0xff := by
  have hmask : (0xff : Byte) &&& ~~~ lineBit 0 = 0xfe := by decide
  have hline : ¬ (8 : Byte) ≤ 0 := by decide
  rw [picMaskAll_eq h, picUnmaskIrq, changeMask_eq (h.withMasks _ _), if_neg hline]
  show withMasks p (0xff &&& ~~~ lineBit 0) 0xff = _
  rw [hmask]

theorem reload_hundred : ((pitDivisor 100 >>> 8) &&& 0xff).toUInt8.toBitVec ++
    (pitDivisor 100 &&& 0xff).toUInt8.toBitVec = (11931 : BitVec 16) := by decide

/-- **Setting up succeeds on every machine**, whatever its controllers have been doing. -/
theorem m5BringUp_ends (file : List UInt8) (rflags : Word) (s : State) :
    Ends (m5BringUp file rflags) s
      (fun _ s' ↦ ∃ u, s' = broughtUp s u ∧ (LogOk s → InUse s.ports.uart u))
      fun _ _ ↦ False := by
  refine ends_modify (ends_modify ?_)
  obtain ⟨u₁, h, hu₁⟩ := logAll_eq (List.cons_ne_nil
    (.writeln (ascii "[M5] boot: external interrupt bring-up start")) []) s
  rw [h]
  obtain ⟨u₂, h, hu₂⟩ := picRemap_eq 0x20 0x28
    { s with ports := { s.ports with uart := u₁ }, logReady := true }
  rw [h, remapPorts_eq]
  refine ends_modify (ends_modify ?_)
  rw [State.io, State.io, enableTimer_eq ⟨rfl, rfl⟩]
  refine ends_bind (m5Selftest_ends rfl) ?_
  rintro - _ ⟨u₃, rfl, hu₃⟩
  refine ends_modify (ends_of_ok (modify_apply _ _) ?_)
  obtain ⟨u₄, h, hu₄⟩ := pitConfigureHz_eq 100 { s with
    ports :=
      { master := { irr := 0, imr := 0xfe, isr := 0, offset := 0x20, stage := .ready }
        slave := { irr := 0, imr := 0xff, isr := 0, offset := 0x28, stage := .ready }
        pit := s.ports.pit
        uart := u₃ }
    logReady := true }
  rw [reload_hundred] at h
  obtain ⟨u₅, hlog, hu₅⟩ := logAll_eq (List.cons_ne_nil
    (.writeln (ascii "[M5] sti: enabling interrupts")) []) (broughtUp s u₄)
  refine ⟨u₅, (congrArg _ h).trans hlog, fun hs ↦ ?_⟩
  have h₁ := hu₁ hs
  have h₂ := hu₂ fun _ ↦ h₁.latched
  have h₃ := hu₃ fun _ ↦ h₂.latched
  have h₄ := hu₄ fun _ ↦ h₃.latched
  exact (((h₁.trans h₂).trans h₃).trans h₄).trans (hu₅ fun _ ↦ h₄.latched)

theorem broughtUp_inStep (s : State) (u : Uart) :
    InStep s.ticks s.trapCount (broughtUp s u) ⟨false, true, 0⟩ 0 where
  idle := ⟨⟨rfl, rfl⟩, rfl, rfl, rfl, rfl⟩
  pending_eq := (by decide : (0 : Byte).getLsbD 0 = false)
  enabled_eq := (by decide : (!(0xfe : Byte).getLsbD 0) = true)
  ticks_eq := (UInt64.add_zero _).symm
  traps_eq := (UInt64.add_zero _).symm

/-- **Every interrupt is served, and the timer's are counted.**  In whatever state the machine is
when interrupts are set up, and whatever happens from then on: the kernel never panics, and once an
event is over, neither controller has an input in service.  The tick counter has advanced by the
number of interrupts that found a request of the timer while it was enabled, and the trap counter by
the number of interrupts and breakpoints. -/
theorem interrupts_served (file : List UInt8) (rflags : Word) (s : State) (es : List Event) :
    ∃ s', (do m5BringUp file rflags; es.forM (Event.run file rflags)) s = .ok () s' ∧
      s'.ports.master.isr = 0 ∧ s'.ports.slave.isr = 0 ∧
      s'.ticks = s.ticks + .ofNat (es.foldl Timer.step ⟨false, true, 0⟩).ticks ∧
      s'.trapCount = s.trapCount + .ofNat (es.countP Event.isTrap) := by
  have hup := m5BringUp_ends file rflags s
  cases h : m5BringUp file rflags s with
  | error e s₁ => exact (hup.of_eq_error h).elim
  | ok x s₁ =>
    obtain ⟨u, rfl, -⟩ := hup.of_eq_ok h
    obtain ⟨s', hs', hin⟩ := (broughtUp_inStep s u).runAll file rflags es
    refine ⟨s', (bind_of_ok h).trans hs', hin.idle.master_isr, hin.idle.slave_isr, hin.ticks_eq, ?_⟩
    rw [hin.traps_eq, Nat.zero_add]

/-- Two requests of the timer, one of the keyboard while only the timer is enabled, and a spurious
interrupt: two ticks. -/
example (frame : TrapFrame) : (([.requests 0x01 0, .interrupt frame, .requests 0x02 0,
    .interrupt frame, .requests 0x03 0, .interrupt frame, .interrupt frame] : List Event).foldl
      Timer.step ⟨false, true, 0⟩).ticks = 2 := rfl

end Run

end Core
end Mcsos
