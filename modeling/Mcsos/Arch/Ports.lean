import Mathlib.Data.Nat.Notation
import Mathlib.Tactic.Common

/-!
# The devices behind the I/O ports

The kernel talks to three kinds of devices with `inb` and `outb`: the serial port COM1, a pair of
8259A interrupt controllers, the second of which is connected to input 2 of the first, and channel 0
of the interval timer.  This file says how the devices answer, as far as the kernel makes use of
them.

* A controller has a request, a mask and an in-service register, with one bit for each of its eight
  inputs, of which the lower ones go first.  It is set up by a sequence of command words, and until
  that is complete, what is written to its data port is the next word of the sequence and not a
  mask.
* The serial port shows in its line status whether it can take another byte.  When it does so is up
  to the outside world, so the status it will show at its `n`-th reading is a parameter.
* The processor acknowledges an interrupt without knowing from where it comes, and gets a vector
  from the controllers (`Ports.acknowledge`).  A request that has gone away by then leaves a
  controller with nothing to answer for: it answers for input 7 all the same, but does not count it
  as being in service.
-/

set_option autoImplicit false

namespace Mcsos
namespace Arch

abbrev Byte : Type := BitVec 8

/-! ## Interrupt controllers -/

/-- What a controller takes the next byte for that is written to its data port. -/
inductive Stage
  | ready
  | icw2 (single needs4 : Bool)
  | icw3 (needs4 : Bool)
  | icw4
  deriving DecidableEq, Repr

/-- A 8259A interrupt controller. -/
structure Chip where
  irr : Byte
  imr : Byte
  isr : Byte
  offset : Byte
  stage : Stage
  deriving DecidableEq, Repr

namespace Chip

/-- A non-specific end of interrupt: the first input in service no longer is. -/
def endOfInterrupt (c : Chip) : Chip := { c with isr := c.isr &&& (c.isr - 1) }

/-- A byte for the command port: the start of an initialization, if bit 4 is set, and an end of
interrupt.  No other command is modelled. -/
def command (c : Chip) (v : Byte) : Chip :=
  if v.getLsbD 4 then
    { c with irr := 0, imr := 0, isr := 0, stage := .icw2 (v.getLsbD 1) (v.getLsbD 0) }
  else if v = 0x20 then c.endOfInterrupt
  else c

/-- The stage after the third word. -/
def lastStage (needs4 : Bool) : Stage := if needs4 then .icw4 else .ready

/-- A byte for the data port. -/
def data (c : Chip) (v : Byte) : Chip :=
  match c.stage with
  | .ready => { c with imr := v }
  | .icw2 single needs4 =>
    { c with
      offset := v &&& 0xf8
      stage := if single then lastStage needs4 else .icw3 needs4 }
  | .icw3 needs4 => { c with stage := lastStage needs4 }
  | .icw4 => { c with stage := .ready }

/-- Whether input `i` asks for an interrupt and may have one. -/
def wants (c : Chip) (i : ℕ) : Bool :=
  c.irr.getLsbD i && !c.imr.getLsbD i && (List.range (i + 1)).all fun j ↦ !c.isr.getLsbD j

/-- The input that is served next. -/
def pick (c : Chip) : Option ℕ := (List.range 8).find? c.wants

/-- The vector of an input. -/
def vector (c : Chip) (i : ℕ) : Byte := c.offset ||| BitVec.ofNat 8 i

/-- Input `i` goes into service. -/
def serve (c : Chip) (i : ℕ) : Chip :=
  { c with irr := c.irr &&& ~~~ BitVec.twoPow 8 i, isr := c.isr ||| BitVec.twoPow 8 i }

/-- The answer of a controller that has to give one. -/
def answer (c : Chip) : Byte × Chip :=
  match c.pick with
  | some i => (c.vector i, c.serve i)
  | none => (c.vector 7, c)

end Chip

/-! ## The timer and the serial port -/

/-- Channel 0 of the interval timer, when it takes its reload value low byte first. -/
structure Pit where
  reload : BitVec 16
  low : Option Byte
  deriving DecidableEq, Repr

/-- A byte for the command port; only the command that the kernel uses is modelled. -/
def Pit.command (t : Pit) (v : Byte) : Pit := if v = 0x36 then { t with low := none } else t

/-- A byte for the data port. -/
def Pit.data (t : Pit) (v : Byte) : Pit :=
  match t.low with
  | none => { t with low := some v }
  | some low => { reload := v ++ low, low := none }

/-- A serial port. -/
structure Uart where
  /-- What the line status register will show at its `n`-th reading. -/
  status : ℕ → Byte
  /-- How often the line status has been read. -/
  polls : ℕ
  /-- The bytes that have been transmitted. -/
  sent : List UInt8
  divisorLow : Byte
  divisorHigh : Byte
  interruptEnable : Byte
  fifoControl : Byte
  lineControl : Byte
  modemControl : Byte

namespace Uart

/-- The first two ports give access to the divisor. -/
def latched (u : Uart) : Bool := u.lineControl.getLsbD 7

def poll (u : Uart) : Byte × Uart := (u.status u.polls, { u with polls := u.polls + 1 })

/-- A byte for the port `reg`. -/
def write (u : Uart) (reg : ℕ) (v : Byte) : Uart :=
  match reg with
  | 0 =>
    if u.latched then { u with divisorLow := v } else { u with sent := u.sent ++ [.ofBitVec v] }
  | 1 => if u.latched then { u with divisorHigh := v } else { u with interruptEnable := v }
  | 2 => { u with fifoControl := v }
  | 3 => { u with lineControl := v }
  | 4 => { u with modemControl := v }
  | _ => u

end Uart

/-! ## Ports -/

structure Ports where
  master : Chip
  slave : Chip
  pit : Pit
  uart : Uart

/-- Where the serial port is. -/
abbrev com1Port : ℕ := 0x3f8

/-- `outb` -/
def outb (port : ℕ) (value : Byte) (p : Ports) : Ports :=
  if port = 0x20 then { p with master := p.master.command value }
  else if port = 0x21 then { p with master := p.master.data value }
  else if port = 0xa0 then { p with slave := p.slave.command value }
  else if port = 0xa1 then { p with slave := p.slave.data value }
  else if port = 0x40 then { p with pit := p.pit.data value }
  else if port = 0x43 then { p with pit := p.pit.command value }
  else if com1Port ≤ port ∧ port < com1Port + 8 then
    { p with uart := p.uart.write (port - com1Port) value }
  else p

/-- `inb`, for the ports that the kernel reads from -/
def inb (port : ℕ) (p : Ports) : Byte × Ports :=
  if port = 0x21 then (p.master.imr, p)
  else if port = 0xa1 then (p.slave.imr, p)
  else if port = com1Port + 5 then (p.uart.poll.1, { p with uart := p.uart.poll.2 })
  else (0xff, p)

/-- The processor acknowledges an interrupt.  Input 2 of the master is the slave. -/
def Ports.acknowledge (p : Ports) : Byte × Ports :=
  if p.master.pick = some 2 then
    (p.slave.answer.1, { p with master := p.master.serve 2, slave := p.slave.answer.2 })
  else (p.master.answer.1, { p with master := p.master.answer.2 })

end Arch
end Mcsos
