import Mcsos.Core.Log

/-!
# Driving the interrupt controllers

`pic.c` and the set-up of the timer in `pit.c`.  Masks are changed by reading a mask register,
changing a bit of it and writing it back, and `x86_64_pic_remap` gives the controllers new vectors
by sending each of them a whole initialization sequence, which clears its mask, and putting the
mask back afterwards.

To the rest of the kernel, the two controllers are one set of sixteen interrupt lines that are
enabled or not, `enabled`.  Every function of `pic.c` changes this set as one expects it to,
whatever else has been going on with the controllers (`pic_refines_line_set`).
-/

set_option autoImplicit false

namespace Mcsos
namespace Core

open Arch

/-! ## `pic.c` -/

abbrev picMasterCommand : ℕ := 0x20
abbrev picMasterData : ℕ := 0x21
abbrev picSlaveCommand : ℕ := 0xa0
abbrev picSlaveData : ℕ := 0xa1
abbrev picEoi : Byte := 0x20

/-- `io_wait` -/
def ioWait (p : Ports) : Ports := outb 0x80 0 p

/-- What `x86_64_pic_remap` does to the ports. -/
def remapPorts (masterOffset slaveOffset : Byte) (p : Ports) : Ports :=
  let savedMasterMask := inb picMasterData p
  let savedSlaveMask := inb picSlaveData savedMasterMask.2
  let p := ioWait (outb picMasterCommand 0x11 savedSlaveMask.2)
  let p := ioWait (outb picSlaveCommand 0x11 p)
  let p := ioWait (outb picMasterData masterOffset p)
  let p := ioWait (outb picSlaveData slaveOffset p)
  let p := ioWait (outb picMasterData 0x04 p)
  let p := ioWait (outb picSlaveData 0x02 p)
  let p := ioWait (outb picMasterData 0x01 p)
  let p := ioWait (outb picSlaveData 0x01 p)
  let p := outb picMasterData savedMasterMask.1 p
  outb picSlaveData savedSlaveMask.1 p

/-- `x86_64_pic_remap` -/
def picRemap (masterOffset slaveOffset : Byte) (s : State) : State :=
  logAll
    [.keyValueHex64 (ascii "pic_master_offset") (masterOffset.setWidth 64),
      .keyValueHex64 (ascii "pic_slave_offset") (slaveOffset.setWidth 64),
      .writeln (ascii "[M5] PIC remapped")]
    (s.io (remapPorts masterOffset slaveOffset))

/-- `x86_64_pic_mask_all` -/
def picMaskAll (p : Ports) : Ports := outb picSlaveData 0xff (outb picMasterData 0xff p)

/-- The data port of the controller that an interrupt line belongs to. -/
def picPort (irq : Byte) : ℕ := if 8 ≤ irq then picSlaveData else picMasterData

/-- The input of the line at its controller. -/
def picLine (irq : Byte) : Byte := if 8 ≤ irq then irq - 8 else irq

/-- `1u << line`, as a byte -/
def lineBit (irq : Byte) : Byte := ((1 : BitVec 32) <<< (picLine irq).toNat).setWidth 8

/-- Read a mask register, change it and write it back. -/
def changeMask (irq : Byte) (f : Byte → Byte) (p : Ports) : Ports :=
  let mask := inb (picPort irq) p
  outb (picPort irq) (f mask.1) mask.2

/-- `x86_64_pic_unmask_irq` -/
def picUnmaskIrq (irq : Byte) : Ports → Ports := changeMask irq fun mask ↦ mask &&& ~~~ lineBit irq

/-- `x86_64_pic_mask_irq` -/
def picMaskIrq (irq : Byte) : Ports → Ports := changeMask irq fun mask ↦ mask ||| lineBit irq

/-- `x86_64_pic_send_eoi` -/
def picSendEoi (irq : Byte) (p : Ports) : Ports :=
  outb picMasterCommand picEoi (if 8 ≤ irq then outb picSlaveCommand picEoi p else p)

/-! ## The lines that are enabled -/

/-- Both controllers have been set up. -/
structure Ready (p : Ports) : Prop where
  master : p.master.stage = .ready
  slave : p.slave.stage = .ready

/-- The interrupt lines whose mask bit is clear. -/
def enabled (p : Ports) (irq : ℕ) : Bool :=
  if 8 ≤ irq then !p.slave.imr.getLsbD (irq - 8) else !p.master.imr.getLsbD irq

section Masks

variable {p : Ports} {m s : Byte}

/-- In whatever state the controllers are: they have their new vectors and their old masks. -/
theorem remapPorts_eq (m s : Byte) (p : Ports) : remapPorts m s p = { p with
    master := { irr := 0, imr := p.master.imr, isr := 0, offset := m &&& 0xf8, stage := .ready }
    slave := { irr := 0, imr := p.slave.imr, isr := 0, offset := s &&& 0xf8, stage := .ready } } :=
  rfl

theorem data_of_ready {c : Chip} (h : c.stage = .ready) (v : Byte) :
    c.data v = { c with imr := v } := by
  rw [Chip.data]
  split
  · rfl
  all_goals rename_i hstage; rw [h] at hstage; cases hstage

/-- The controllers with other masks. -/
def withMasks (p : Ports) (master slave : Byte) : Ports :=
  { p with master := { p.master with imr := master }, slave := { p.slave with imr := slave } }

theorem Ready.withMasks (h : Ready p) (master slave : Byte) : Ready (withMasks p master slave) :=
  ⟨h.master, h.slave⟩

theorem outb_picMasterData (h : Ready p) (v : Byte) :
    outb picMasterData v p = withMasks p v p.slave.imr := by
  show ({ p with master := p.master.data v } : Ports) = _
  rw [data_of_ready h.master]
  rfl

theorem outb_picSlaveData (h : Ready p) (v : Byte) :
    outb picSlaveData v p = withMasks p p.master.imr v := by
  show ({ p with slave := p.slave.data v } : Ports) = _
  rw [data_of_ready h.slave]
  rfl

theorem picMaskAll_eq (h : Ready p) : picMaskAll p = withMasks p 0xff 0xff := by
  rw [picMaskAll, outb_picMasterData h, outb_picSlaveData (h.withMasks _ _)]
  rfl

theorem changeMask_eq (h : Ready p) (irq : Byte) (f : Byte → Byte) : changeMask irq f p =
    if 8 ≤ irq then withMasks p p.master.imr (f p.slave.imr)
    else withMasks p (f p.master.imr) p.slave.imr := by
  rw [changeMask, picPort]
  split
  · exact outb_picSlaveData h _
  · exact outb_picMasterData h _

theorem getLsbD_lineBit {irq : Byte} (h : irq.toNat < 16) {i : ℕ} (hi : i < 8) :
    (lineBit irq).getLsbD i = decide (irq.toNat % 8 = i) := by
  have key : ∀ irq : Byte, irq.toNat < 16 → ∀ i < 8,
      (lineBit irq).getLsbD i = decide (irq.toNat % 8 = i) := by decide
  exact key irq h i hi

/-- Changing a mask in a way that only matters to one bit changes one line. -/
theorem enabled_changeMask (h : Ready p) {irq : Byte} (hirq : irq.toNat < 16) {f : Byte → Byte}
    {b : Bool} (hf : ∀ mask : Byte, ∀ i < 8, (f mask).getLsbD i
      = if irq.toNat % 8 = i then b else mask.getLsbD i) {j : ℕ} (hj : j < 16) :
    enabled (changeMask irq f p) j = if j = irq.toNat then !b else enabled p j := by
  have hle : 8 ≤ irq ↔ 8 ≤ irq.toNat := BitVec.le_def
  rw [changeMask_eq h]
  split
  · have h8 := hle.1 ‹_›
    by_cases hj8 : 8 ≤ j
    · rw [enabled, if_pos hj8, enabled, if_pos hj8]
      show (!(f p.slave.imr).getLsbD (j - 8)) = _
      rw [hf _ _ (by omega)]
      by_cases he : j = irq.toNat
      · rw [if_pos (by omega), if_pos he]
      · rw [if_neg (by omega), if_neg he]
    · rw [enabled, if_neg hj8, enabled, if_neg hj8, if_neg (by omega)]
      rfl
  · have h8 := mt hle.2 ‹_›
    by_cases hj8 : 8 ≤ j
    · rw [enabled, if_pos hj8, enabled, if_pos hj8, if_neg (by omega)]
      rfl
    · rw [enabled, if_neg hj8, enabled, if_neg hj8]
      show (!(f p.master.imr).getLsbD j) = _
      rw [hf _ _ (by omega)]
      by_cases he : j = irq.toNat
      · rw [if_pos (by omega), if_pos he]
      · rw [if_neg (by omega), if_neg he]

theorem enabled_picUnmaskIrq (h : Ready p) {irq : Byte} (hirq : irq.toNat < 16) {j : ℕ}
    (hj : j < 16) :
    enabled (picUnmaskIrq irq p) j = if j = irq.toNat then true else enabled p j := by
  refine enabled_changeMask (b := false) h hirq (fun mask i hi ↦ ?_) hj
  rw [BitVec.getLsbD_and, BitVec.getLsbD_not, getLsbD_lineBit hirq hi]
  by_cases he : irq.toNat % 8 = i <;> simp [he, hi]

theorem enabled_picMaskIrq (h : Ready p) {irq : Byte} (hirq : irq.toNat < 16) {j : ℕ}
    (hj : j < 16) :
    enabled (picMaskIrq irq p) j = if j = irq.toNat then false else enabled p j := by
  refine enabled_changeMask (b := true) h hirq (fun mask i hi ↦ ?_) hj
  rw [BitVec.getLsbD_or, getLsbD_lineBit hirq hi]
  by_cases he : irq.toNat % 8 = i <;> simp [he]

theorem enabled_picMaskAll (h : Ready p) {j : ℕ} (hj : j < 16) :
    enabled (picMaskAll p) j = false := by
  have hall : ∀ i < 8, (0xff : Byte).getLsbD i = true := by decide
  rw [picMaskAll_eq h, enabled]
  split
  · show (!(0xff : Byte).getLsbD (j - 8)) = false
    rw [hall _ (by omega)]
    rfl
  · show (!(0xff : Byte).getLsbD j) = false
    rw [hall _ (by omega)]
    rfl

theorem picSendEoi_eq (irq : Byte) (p : Ports) : picSendEoi irq p = { p with
    master := p.master.endOfInterrupt
    slave := if 8 ≤ irq then p.slave.endOfInterrupt else p.slave } := by
  rw [picSendEoi]
  split <;> rfl

end Masks

/-! ## Runs -/

/-- What happens to the controllers: the calls of `pic.h`, and what the devices and the processor
do. -/
inductive PicEvent
  | remap (masterOffset slaveOffset : Byte)
  | maskAll
  | unmaskIrq (irq : Byte)
  | maskIrq (irq : Byte)
  | sendEoi (irq : Byte)
  /-- The requests change to these. -/
  | requests (master slave : Byte)
  | acknowledge

/-- The requests change. -/
def setRequests (master slave : Byte) (p : Ports) : Ports :=
  { p with master := { p.master with irr := master }, slave := { p.slave with irr := slave } }

namespace PicEvent

def run (s : State) : PicEvent → State
  | remap masterOffset slaveOffset => picRemap masterOffset slaveOffset s
  | maskAll => s.io picMaskAll
  | unmaskIrq irq => s.io (picUnmaskIrq irq)
  | maskIrq irq => s.io (picMaskIrq irq)
  | sendEoi irq => s.io (picSendEoi irq)
  | requests master slave => s.io (setRequests master slave)
  | acknowledge => s.io fun p ↦ p.acknowledge.2

/-- The set of enabled lines after an event. -/
def lines (enabled : ℕ → Bool) : PicEvent → ℕ → Bool
  | maskAll => fun _ ↦ false
  | unmaskIrq irq => Function.update enabled irq.toNat true
  | maskIrq irq => Function.update enabled irq.toNat false
  | _ => enabled

/-- There are sixteen lines. -/
def Valid : PicEvent → Prop
  | unmaskIrq irq => irq.toNat < 16
  | maskIrq irq => irq.toNat < 16
  | _ => True

end PicEvent

section Runs

variable {s s' : State} {lines : ℕ → Bool}

/-- The controllers are set up, and these lines are enabled. -/
structure Stands (p : Ports) (lines : ℕ → Bool) : Prop where
  ready : Ready p
  lines : ∀ j < 16, enabled p j = lines j

theorem Emits.ports {x : List UInt8} (h : Emits s s' x) :
    s'.ports = { s.ports with uart := s'.ports.uart } := by
  rw [h.frame]

theorem Stands.of_emits {x : List UInt8} (h : Emits s s' x) (hs : Stands s.ports lines) :
    Stands s'.ports lines := by
  rw [h.ports]
  exact ⟨⟨hs.ready.master, hs.ready.slave⟩, hs.lines⟩

/-- `x86_64_pic_remap` leaves the lines as they are, and the controllers set up. -/
theorem picRemap_stands (m o : Byte) (s : State) :
    Stands (picRemap m o s).ports (enabled s.ports) := by
  refine Stands.of_emits (logAll_emits (List.cons_ne_nil _ _) _) ?_
  show Stands (remapPorts m o s.ports) _
  rw [remapPorts_eq]
  exact ⟨⟨rfl, rfl⟩, fun _ _ ↦ rfl⟩

theorem Ready.changeMask {p : Ports} (h : Ready p) (irq : Byte) (f : Byte → Byte) :
    Ready (changeMask irq f p) := by
  rw [changeMask_eq h]
  split <;> exact h.withMasks _ _

/-- A controller that answers keeps its mask. -/
theorem answer_keeps (c : Chip) : c.answer.2.imr = c.imr ∧ c.answer.2.stage = c.stage := by
  rw [Chip.answer]
  split <;> exact ⟨rfl, rfl⟩

theorem enabled_congr {p p' : Ports} (hm : p'.master.imr = p.master.imr)
    (hs : p'.slave.imr = p.slave.imr) : enabled p' = enabled p := by
  funext j
  rw [enabled, enabled, hm, hs]

theorem acknowledge_keeps (p : Ports) : p.acknowledge.2.master.imr = p.master.imr ∧
    p.acknowledge.2.slave.imr = p.slave.imr ∧ p.acknowledge.2.master.stage = p.master.stage ∧
    p.acknowledge.2.slave.stage = p.slave.stage := by
  rw [Ports.acknowledge]
  split
  · exact ⟨rfl, (answer_keeps p.slave).1, rfl, (answer_keeps p.slave).2⟩
  · exact ⟨(answer_keeps p.master).1, rfl, (answer_keeps p.master).2, rfl⟩

theorem Stands.run (h : Stands s.ports lines) {e : PicEvent} (he : e.Valid) :
    Stands (e.run s).ports (e.lines lines) := by
  cases e with
  | remap m o =>
    have hr := picRemap_stands m o s
    exact ⟨hr.ready, fun j hj ↦ (hr.lines j hj).trans (h.lines j hj)⟩
  | maskAll =>
    refine ⟨?_, fun j hj ↦ enabled_picMaskAll h.ready hj⟩
    show Ready (picMaskAll s.ports)
    rw [picMaskAll_eq h.ready]
    exact h.ready.withMasks _ _
  | unmaskIrq irq =>
    show Stands (picUnmaskIrq irq s.ports) (Function.update lines irq.toNat true)
    have hirq : irq.toNat < 16 := he
    refine ⟨h.ready.changeMask irq _, fun j hj ↦ ?_⟩
    rw [Function.update_apply, ← h.lines j hj, enabled_picUnmaskIrq h.ready hirq hj]
  | maskIrq irq =>
    show Stands (picMaskIrq irq s.ports) (Function.update lines irq.toNat false)
    have hirq : irq.toNat < 16 := he
    refine ⟨h.ready.changeMask irq _, fun j hj ↦ ?_⟩
    rw [Function.update_apply, ← h.lines j hj, enabled_picMaskIrq h.ready hirq hj]
  | sendEoi irq =>
    show Stands (picSendEoi irq s.ports) lines
    rw [picSendEoi_eq]
    split
    · exact ⟨⟨h.ready.master, h.ready.slave⟩, h.lines⟩
    · exact ⟨⟨h.ready.master, h.ready.slave⟩, h.lines⟩
  | requests m o => exact ⟨⟨h.ready.master, h.ready.slave⟩, h.lines⟩
  | acknowledge =>
    obtain ⟨h1, h2, h3, h4⟩ := acknowledge_keeps s.ports
    refine ⟨⟨h3.trans h.ready.master, h4.trans h.ready.slave⟩, fun j hj ↦ ?_⟩
    show enabled s.ports.acknowledge.2 j = lines j
    rw [enabled_congr h1 h2, h.lines j hj]

theorem Stands.runAll (h : Stands s.ports lines) {es : List PicEvent} (hes : ∀ e ∈ es, e.Valid) :
    Stands (es.foldl PicEvent.run s).ports (es.foldl PicEvent.lines lines) := by
  induction es generalizing s lines with
  | nil => exact h
  | cons e es ih =>
    exact ih (h.run (hes e List.mem_cons_self)) fun e' he' ↦ hes e' (List.mem_cons_of_mem _ he')

/-- **The two controllers are a set of sixteen lines.**  Whatever state they were in when
`x86_64_pic_remap` was first called, even in the middle of being set up: after any further sequence
of calls, with interrupts being requested and acknowledged in between, the enabled lines are
exactly those that the calls have left enabled. -/
theorem pic_refines_line_set (m o : Byte) (s : State) {es : List PicEvent}
    (hes : ∀ e ∈ es, e.Valid) {irq : ℕ} (hirq : irq < 16) :
    enabled (es.foldl PicEvent.run (picRemap m o s)).ports irq
      = es.foldl PicEvent.lines (enabled s.ports) irq :=
  ((picRemap_stands m o s).runAll hes).lines irq hirq

/-- Masking all lines, an interrupt, and enabling line 9 enables line 9. -/
theorem pic_refines_line_set_nine : enabled
    (([.maskAll, .requests 0x04 0x01, .acknowledge, .sendEoi 8, .unmaskIrq 9] : List PicEvent).foldl
      PicEvent.run (picRemap 0x20 0x28 (freshState fun _ ↦ 0x20))).ports 9 = true := by
  have hvalid : ∀ e ∈ ([.maskAll, .requests 0x04 0x01, .acknowledge, .sendEoi 8, .unmaskIrq 9] :
      List PicEvent), e.Valid := by
    intro e he
    simp only [List.mem_cons, List.not_mem_nil, or_false] at he
    rcases he with rfl | rfl | rfl | rfl | rfl
    all_goals first | trivial | exact (by decide : (9 : Byte).toNat < 16)
  exact pic_refines_line_set 0x20 0x28 _ hvalid (show 9 < 16 by decide)

end Runs

end Core
end Mcsos
