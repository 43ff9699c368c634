import Mcsos.Arch.Ports

/-!
# The log

`serial.c` and `log.c`: text goes to the serial port byte by byte, with a carriage return in front
of every line feed.  For each byte the kernel polls the line status until the port can take it, but
only so often, and a byte for which the port does not get ready in time is dropped.

`Emits s s' text` says that the log has written `text`, and it composes: all functions of the log
emit a text, `x ++ y` if they do two things in turn.  What it means is that nothing but the serial
port has been touched, and that each byte of the text has had its turn (`Delivers`): it is
transmitted at the first poll that finds the port ready, or dropped after as many polls as the
limit allows, none of which did.  So the polls are bounded, the bytes come out in order, and on a
port that always gets ready in time (`Responsive`) none is dropped.

The port must not be in the mode in which its data port is the divisor of the baud rate.
`serial_init` goes through that mode, and transmits nothing (`serialInit_eq`); the flag
`g_log_ready` stands for having left it (`LogOk`).
-/

set_option autoImplicit false

namespace Mcsos
namespace Core

open Arch

/-- The characters of a string literal. -/
def ascii (s : String) : List UInt8 := s.toList.map fun c ↦ UInt8.ofNat c.toNat

/-! ## The serial port -/

/-- `SERIAL_TIMEOUT_LIMIT` -/
def serialTimeoutLimit : ℕ := 100000

/-- `serial_transmit_empty` -/
def serialTransmitEmpty (p : Ports) : Bool × Ports :=
  ((inb (com1Port + 5) p).1 &&& 0x20 != 0, (inb (com1Port + 5) p).2)

/-- `serial_init` -/
def serialInit (p : Ports) : Ports :=
  let p := outb (com1Port + 1) 0x00 p
  let p := outb (com1Port + 3) 0x80 p
  let p := outb (com1Port + 0) 0x03 p
  let p := outb (com1Port + 1) 0x00 p
  let p := outb (com1Port + 3) 0x03 p
  let p := outb (com1Port + 2) 0xc7 p
  outb (com1Port + 4) 0x0b p

/-- The loop of `serial_putc`, which gives up after `n` more readings of the status. -/
def waitEmpty : ℕ → Ports → Bool × Ports
  | 0, p => (false, p)
  | n + 1, p =>
    if (serialTransmitEmpty p).1 then (true, (serialTransmitEmpty p).2)
    else waitEmpty n (serialTransmitEmpty p).2

/-- `serial_putc` for a character other than a line feed -/
def putByte (c : UInt8) (p : Ports) : Ports :=
  let waited := waitEmpty serialTimeoutLimit p
  if waited.1 then outb com1Port c.toBitVec waited.2 else waited.2

/-- `serial_putc` -/
def serialPutc (c : UInt8) (p : Ports) : Ports :=
  putByte c (if c = 10 then putByte 13 p else p)

/-- `serial_write`, of the bytes from a pointer on -/
def serialWrite : List UInt8 → Ports → Ports
  | [], p => p
  | c :: s, p => if c = 0 then p else serialWrite s (serialPutc c p)

/-! ## The log -/

/-- The ports and the static variables of `log.c`, `pit.c` and `trap.c`. -/
structure State where
  ports : Ports
  logReady : Bool
  ticks : UInt64
  trapCount : UInt64

/-- A function on the ports. -/
def State.io (f : Ports → Ports) (s : State) : State := { s with ports := f s.ports }

/-- `log_init` -/
def logInit (s : State) : State := { s.io serialInit with logReady := true }

/-- The first line of `log_putc` and `log_write`. -/
def ensureReady (s : State) : State := if s.logReady then s else logInit s

/-- `log_putc` -/
def logPutc (c : UInt8) (s : State) : State := (ensureReady s).io (serialPutc c)

/-- `log_write` -/
def logWrite (t : List UInt8) (s : State) : State := (ensureReady s).io (serialWrite t)

/-- `log_writeln` -/
def logWriteln (t : List UInt8) (s : State) : State := logPutc 10 (logWrite t s)

/-- `digits[nibble]` in `log_hex64` -/
def hexDigit (nibble : Byte) : UInt8 := (ascii "0123456789abcdef").getD nibble.toNat 0

/-- The values that `shift` takes in `log_hex64`. -/
def hexShifts : List ℕ := (List.range 16).map fun k ↦ 60 - 4 * k

/-- `log_hex64` -/
def logHex64 (value : BitVec 64) (s : State) : State :=
  hexShifts.foldl (fun s shift ↦ logPutc (hexDigit ((value >>> shift).setWidth 8 &&& 0x0f)) s)
    (logWrite (ascii "0x") s)

/-- `log_key_value_hex64` -/
def logKeyValueHex64 (key : List UInt8) (value : BitVec 64) (s : State) : State :=
  logPutc 10 (logHex64 value (logWrite (ascii "=") (logWrite key s)))

/-! ## What the serial port transmits -/

/-- A carriage return in front of every line feed. -/
def expand (text : List UInt8) : List UInt8 :=
  text.flatMap fun c ↦ if c = 10 then [13, 10] else [c]

/-- What is left of a text that ends at the first zero byte. -/
def untilNul (t : List UInt8) : List UInt8 := t.takeWhile (· ≠ 0)

/-- Once the log has been used, the data port is no longer the divisor. -/
def LogOk (s : State) : Prop := s.logReady = true → s.ports.uart.latched = false

/-- The port can take a byte at poll number `n`. -/
def emptyAt (status : ℕ → Byte) (n : ℕ) : Bool := (status n).getLsbD 5

/-- The port can take a byte in time, whenever one begins to wait. -/
def Responsive (u : Uart) : Prop :=
  ∀ n, ∃ k < serialTimeoutLimit, emptyAt u.status (n + k) = true

/-- `Delivers status n bytes sent m`: of the bytes `bytes`, each of which waits for the port in
turn, the port takes `sent`.  The polls for them begin with number `n` and end before number `m`.
-/
inductive Delivers (status : ℕ → Byte) : ℕ → List UInt8 → List UInt8 → ℕ → Prop
  | nil (n : ℕ) : Delivers status n [] [] n
  /-- The byte is transmitted when the port is ready for the first time. -/
  | sent {n k m : ℕ} {c : UInt8} {bytes l : List UInt8} (hk : k < serialTimeoutLimit)
      (hbusy : ∀ j < k, emptyAt status (n + j) = false) (hready : emptyAt status (n + k) = true)
      (h : Delivers status (n + (k + 1)) bytes l m) : Delivers status n (c :: bytes) (c :: l) m
  /-- The byte is dropped, because none of the polls has found the port ready. -/
  | dropped {n m : ℕ} {c : UInt8} {bytes l : List UInt8}
      (hbusy : ∀ j < serialTimeoutLimit, emptyAt status (n + j) = false)
      (h : Delivers status (n + serialTimeoutLimit) bytes l m) : Delivers status n (c :: bytes) l m

/-- What has happened on the way from `u` to `u'` is that the bytes `bytes` were to be transmitted,
of which some may have been dropped. -/
structure Transmits (u u' : Uart) (bytes : List UInt8) : Prop where
  status : u'.status = u.status
  latched : u'.latched = false
  sent : ∃ l, u'.sent = u.sent ++ l ∧ Delivers u.status u.polls bytes l u'.polls

/-- The log has written `text`. -/
structure Emits (s s' : State) (text : List UInt8) : Prop where
  frame : s' = { s with
    ports := { s.ports with uart := s'.ports.uart }
    logReady := s'.logReady }
  ready : s'.logReady = true
  transmits : LogOk s → Transmits s.ports.uart s'.ports.uart (expand text)

/-! ### Single bytes -/

section Bytes

variable {u u' u'' : Uart} {x y : List UInt8}

theorem expand_append (x y : List UInt8) : expand (x ++ y) = expand x ++ expand y :=
  List.flatMap_append

namespace Delivers

variable {status : ℕ → Byte} {n m k : ℕ} {l l' : List UInt8}

theorem append (h : Delivers status n x l m) (h' : Delivers status m y l' k) :
    Delivers status n (x ++ y) (l ++ l') k := by
  induction h with
  | nil n => exact h'
  | sent hk hbusy hready _ ih => exact .sent hk hbusy hready (ih h')
  | dropped hbusy _ ih => exact .dropped hbusy (ih h')

theorem sublist (h : Delivers status n x l m) : l.Sublist x := by
  induction h with
  | nil n => exact .slnil
  | sent _ _ _ _ ih => exact ih.cons_cons _
  | dropped _ _ ih => exact ih.cons _

theorem polls_le (h : Delivers status n x l m) : m ≤ n + serialTimeoutLimit * x.length := by
  induction h with
  | nil n => exact Nat.le_add_right _ _
  | sent hk _ _ _ ih =>
    rw [List.length_cons, Nat.mul_add, Nat.mul_one]
    omega
  | dropped _ _ ih =>
    rw [List.length_cons, Nat.mul_add, Nat.mul_one]
    omega

theorem eq_of_responsive {u : Uart} (h : Delivers u.status n x l m) (hr : Responsive u) :
    l = x := by
  generalize hu : u.status = status at h
  induction h with
  | nil n => rfl
  | sent _ _ _ _ ih => rw [ih]
  | @dropped n _ _ _ _ hbusy _ _ =>
    obtain ⟨k, hk, hready⟩ := hr n
    rw [hu, hbusy k hk] at hready
    cases hready

end Delivers

theorem Transmits.nil (h : u.latched = false) : Transmits u u [] :=
  ⟨rfl, h, ⟨[], (List.append_nil _).symm, .nil _⟩⟩

theorem Transmits.trans (h : Transmits u u' x) (h' : Transmits u' u'' y) :
    Transmits u u'' (x ++ y) := by
  obtain ⟨l, hl, hd⟩ := h.sent
  obtain ⟨l', hl', hd'⟩ := h'.sent
  rw [h.status] at hd'
  refine ⟨h'.status.trans h.status, h'.latched, ⟨l ++ l', ?_, hd.append hd'⟩⟩
  rw [hl', hl, List.append_assoc]

/-- The ports after the line status has been read `k` times. -/
def polled (p : Ports) (k : ℕ) : Ports :=
  { p with uart := { p.uart with polls := p.uart.polls + k } }

theorem polled_polled (p : Ports) (j k : ℕ) : polled (polled p j) k = polled p (j + k) := by
  rw [polled, polled, polled, Nat.add_assoc]

theorem serialTransmitEmpty_eq (p : Ports) :
    serialTransmitEmpty p = (emptyAt p.uart.status p.uart.polls, polled p 1) := by
  have h : ∀ v : Byte, (v &&& 0x20 != 0) = v.getLsbD 5 := by decide
  exact Prod.ext (h _) rfl

/-- The loop stops at the first poll that finds the port ready, or after `n` polls. -/
theorem waitEmpty_spec (n : ℕ) (p : Ports) :
    (∃ k < n, (∀ j < k, emptyAt p.uart.status (p.uart.polls + j) = false) ∧
      emptyAt p.uart.status (p.uart.polls + k) = true ∧
      waitEmpty n p = (true, polled p (k + 1))) ∨
    (∀ j < n, emptyAt p.uart.status (p.uart.polls + j) = false) ∧
      waitEmpty n p = (false, polled p n) := by
  induction n generalizing p with
  | zero => exact .inr ⟨fun j hj ↦ absurd hj j.not_lt_zero, rfl⟩
  | succ n ih =>
    rw [waitEmpty, serialTransmitEmpty_eq]
    cases hp : emptyAt p.uart.status p.uart.polls with
    | true => exact .inl ⟨0, n.succ_pos, fun j hj ↦ absurd hj j.not_lt_zero, hp, rfl⟩
    | false =>
      -- the polls of the loop, one further on
      have hstep : ∀ {m}, (∀ j < m, emptyAt p.uart.status (p.uart.polls + 1 + j) = false) →
          ∀ j < m + 1, emptyAt p.uart.status (p.uart.polls + j) = false := by
        intro m hm j hj
        cases j with
        | zero => exact hp
        | succ j => rw [← Nat.add_assoc, Nat.add_right_comm]; exact hm j (by omega)
      rw [if_neg Bool.false_ne_true]
      rcases ih (polled p 1) with ⟨k, hk, hbusy, hready, hw⟩ | ⟨hbusy, hw⟩
      · refine .inl ⟨k + 1, by omega, hstep hbusy, ?_, ?_⟩
        · rw [← Nat.add_assoc, Nat.add_right_comm]
          exact hready
        · rw [hw, polled_polled, Nat.add_comm]
      · refine .inr ⟨hstep hbusy, ?_⟩
        rw [hw, polled_polled, Nat.add_comm]

/-- `bytes` have been sent to the serial port. -/
structure Sends (p p' : Ports) (bytes : List UInt8) : Prop where
  frame : p' = { p with uart := p'.uart }
  transmits : p.uart.latched = false → Transmits p.uart p'.uart bytes

variable {p p' p'' : Ports}

theorem Sends.nil (p : Ports) : Sends p p [] := ⟨rfl, Transmits.nil⟩

theorem Sends.trans (h : Sends p p' x) (h' : Sends p' p'' y) : Sends p p'' (x ++ y) := by
  refine ⟨?_, fun hu ↦ (h.transmits hu).trans (h'.transmits (h.transmits hu).latched)⟩
  rw [h'.frame, h.frame]

theorem putByte_sends (c : UInt8) (p : Ports) : Sends p (putByte c p) [c] := by
  rw [putByte]
  rcases waitEmpty_spec serialTimeoutLimit p with ⟨k, hk, hbusy, hready, hw⟩ | ⟨hbusy, hw⟩
  · rw [hw, if_pos rfl]
    refine ⟨rfl, fun hu ↦ ?_⟩
    have hwrite : (outb com1Port c.toBitVec (polled p (k + 1))).uart
        = { p.uart with polls := p.uart.polls + (k + 1), sent := p.uart.sent ++ [c] } :=
      if_neg (ne_true_of_eq_false hu)
    rw [hwrite]
    exact ⟨rfl, hu, ⟨[c], rfl, .sent hk hbusy hready (.nil _)⟩⟩
  · rw [hw, if_neg Bool.false_ne_true]
    exact ⟨rfl, fun hu ↦ ⟨rfl, hu, ⟨[], (List.append_nil _).symm, .dropped hbusy (.nil _)⟩⟩⟩

theorem serialPutc_sends (c : UInt8) (p : Ports) : Sends p (serialPutc c p) (expand [c]) := by
  rw [serialPutc, expand, List.flatMap_cons, List.flatMap_nil, List.append_nil]
  by_cases hc : c = 10
  · rw [if_pos hc, if_pos hc, hc]
    exact (putByte_sends 13 p).trans (putByte_sends 10 _)
  · rw [if_neg hc, if_neg hc]
    exact putByte_sends c p

theorem serialWrite_sends (t : List UInt8) (p : Ports) :
    Sends p (serialWrite t p) (expand (untilNul t)) := by
  induction t generalizing p with
  | nil => exact .nil p
  | cons c t ih =>
    rw [serialWrite, untilNul, List.takeWhile_cons]
    by_cases hc : c = 0
    · rw [if_pos hc, if_neg (by simpa using hc)]
      exact .nil p
    · rw [if_neg hc, if_pos (by simpa using hc), ← List.singleton_append, expand_append]
      exact (serialPutc_sends c p).trans (ih _)

end Bytes

/-! ### The functions of the log -/

section Log

variable {s s' s'' : State} {x y : List UInt8}

theorem outb_com1 {reg : ℕ} (hreg : reg < 8) (v : Byte) (p : Ports) :
    outb (com1Port + reg) v p = { p with uart := p.uart.write reg v } := by
  have hport : ∀ k < com1Port, com1Port + reg ≠ k := fun k hk ↦ by omega
  rw [outb, if_neg (hport _ (by decide)), if_neg (hport _ (by decide)),
    if_neg (hport _ (by decide)), if_neg (hport _ (by decide)), if_neg (hport _ (by decide)),
    if_neg (hport _ (by decide)),
    if_pos ⟨Nat.le_add_right _ _, Nat.add_lt_add_left hreg _⟩, Nat.add_sub_cancel_left]

/-- The serial port after `serial_init`: 38400 baud, eight data bits, and whatever mode it was in
before, nothing has been transmitted. -/
theorem serialInit_eq (p : Ports) : ∃ enable, serialInit p = { p with
    uart :=
      { status := p.uart.status
        polls := p.uart.polls
        sent := p.uart.sent
        divisorLow := 3
        divisorHigh := 0
        interruptEnable := enable
        fifoControl := 0xc7
        lineControl := 3
        modemControl := 0x0b } } := by
  obtain ⟨high, enable, h⟩ : ∃ high enable, p.uart.write 1 0
      = { p.uart with divisorHigh := high, interruptEnable := enable } := by
    rw [Uart.write]
    split
    · exact ⟨_, _, rfl⟩
    · exact ⟨_, _, rfl⟩
  refine ⟨enable, ?_⟩
  simp only [serialInit, outb_com1 (show 0 < 8 by decide), outb_com1 (show 1 < 8 by decide),
    outb_com1 (show 2 < 8 by decide), outb_com1 (show 3 < 8 by decide),
    outb_com1 (show 4 < 8 by decide), h]
  have hlatched : (0x80 : Byte).getLsbD 7 = true := by decide
  simp only [Uart.write, Uart.latched, hlatched, if_true]

theorem serialInit_sends (p : Ports) :
    serialInit p = { p with uart := (serialInit p).uart } ∧
      Transmits p.uart (serialInit p).uart [] := by
  obtain ⟨enable, h⟩ := serialInit_eq p
  rw [h]
  refine ⟨rfl, rfl, ?_, ⟨[], (List.append_nil _).symm, .nil _⟩⟩
  show (3 : Byte).getLsbD 7 = false
  decide

theorem Transmits.logOk (h : Transmits s.ports.uart s'.ports.uart x) : LogOk s' :=
  fun _ ↦ h.latched

theorem Emits.trans (h : Emits s s' x) (h' : Emits s' s'' y) : Emits s s'' (x ++ y) := by
  refine ⟨?_, h'.ready, fun hs ↦ ?_⟩
  · rw [h'.frame, h.frame]
  · rw [expand_append]
    exact (h.transmits hs).trans (h'.transmits (h.transmits hs).logOk)

/-- A loop that emits something in each turn. -/
theorem Emits.foldl {α : Type} {f : State → α → State} {g : α → List UInt8}
    (hf : ∀ s a, Emits s (f s a) (g a)) (l : List α) (h : Emits s s' x) :
    Emits s (l.foldl f s') (x ++ l.flatMap g) := by
  induction l generalizing s' x with
  | nil => rwa [List.flatMap_nil, List.append_nil]
  | cons a l ih =>
    rw [List.foldl_cons, List.flatMap_cons, ← List.append_assoc]
    exact ih (h.trans (hf s' a))

theorem logInit_emits (s : State) : Emits s (logInit s) [] := by
  rw [logInit, State.io]
  obtain ⟨hframe, htr⟩ := serialInit_sends s.ports
  generalize serialInit s.ports = p at hframe htr ⊢
  exact ⟨congrArg (fun p ↦ State.mk p true s.ticks s.trapCount) hframe, rfl, fun _ ↦ htr⟩

theorem emits_nil (h : s.logReady = true) : Emits s s [] := ⟨rfl, h, fun hs ↦ .nil (hs h)⟩

theorem ensureReady_emits (s : State) : Emits s (ensureReady s) [] := by
  rw [ensureReady]
  cases hr : s.logReady with
  | true => exact emits_nil hr
  | false => exact logInit_emits s

theorem Emits.io (h : Emits s s' x) {f : Ports → Ports} {y : List UInt8}
    (hf : Sends s'.ports (f s'.ports) (expand y)) : Emits s (s'.io f) (x ++ y) := by
  refine h.trans ⟨?_, h.ready, fun hs ↦ hf.transmits (hs h.ready)⟩
  rw [State.io, hf.frame]

theorem logPutc_emits (c : UInt8) (s : State) : Emits s (logPutc c s) [c] :=
  (ensureReady_emits s).io (serialPutc_sends c _)

theorem logWrite_emits (t : List UInt8) (s : State) : Emits s (logWrite t s) (untilNul t) :=
  (ensureReady_emits s).io (serialWrite_sends t _)

theorem logWriteln_emits (t : List UInt8) (s : State) :
    Emits s (logWriteln t s) (untilNul t ++ [10]) :=
  (logWrite_emits t s).trans (logPutc_emits 10 _)

/-- The digit of `log_hex64` for a value of `shift`. -/
def hexDigitAt (value : BitVec 64) (shift : ℕ) : UInt8 :=
  hexDigit ((value >>> shift).setWidth 8 &&& 0x0f)

/-- The digits that `log_hex64` writes. -/
def hexDigits (value : BitVec 64) : List UInt8 := hexShifts.flatMap fun k ↦ [hexDigitAt value k]

theorem logHex64_emits (value : BitVec 64) (s : State) :
    Emits s (logHex64 value s) (ascii "0x" ++ hexDigits value) := by
  have h := logWrite_emits (ascii "0x") s
  rw [show untilNul (ascii "0x") = ascii "0x" by decide] at h
  have hstep : ∀ (s : State) (k : ℕ),
      Emits s (logPutc (hexDigitAt value k) s) [hexDigitAt value k] := fun s k ↦ logPutc_emits _ s
  exact Emits.foldl hstep hexShifts h

/-- The line that `log_key_value_hex64` writes. -/
def keyValueLine (key : List UInt8) (value : BitVec 64) : List UInt8 :=
  untilNul key ++ ascii "=0x" ++ hexDigits value ++ [10]

theorem logKeyValueHex64_emits (key : List UInt8) (value : BitVec 64) (s : State) :
    Emits s (logKeyValueHex64 key value s) (keyValueLine key value) := by
  have h := (((logWrite_emits key s).trans (logWrite_emits (ascii "=") _)).trans
    (logHex64_emits value _)).trans (logPutc_emits 10 _)
  have htext : untilNul key ++ untilNul (ascii "=") ++ (ascii "0x" ++ hexDigits value) ++ [10]
      = keyValueLine key value := by
    rw [keyValueLine, show untilNul (ascii "=") = ascii "=" by decide,
      show ascii "=0x" = ascii "=" ++ ascii "0x" by decide]
    simp only [List.append_assoc]
  rwa [htext] at h

end Log

/-! ### Runs -/

/-- The functions of `log.h`. -/
inductive LogCall
  | init
  | putc (c : UInt8)
  | write (t : List UInt8)
  | writeln (t : List UInt8)
  | hex64 (value : BitVec 64)
  | keyValueHex64 (key : List UInt8) (value : BitVec 64)

def LogCall.run (s : State) : LogCall → State
  | init => logInit s
  | putc c => logPutc c s
  | write t => logWrite t s
  | writeln t => logWriteln t s
  | hex64 value => logHex64 value s
  | keyValueHex64 key value => logKeyValueHex64 key value s

/-- What a call is supposed to write. -/
def LogCall.text : LogCall → List UInt8
  | init => []
  | putc c => [c]
  | write t => untilNul t
  | writeln t => untilNul t ++ [10]
  | hex64 value => ascii "0x" ++ hexDigits value
  | keyValueHex64 key value => keyValueLine key value

/-- A sequence of calls. -/
def logAll (calls : List LogCall) (s : State) : State := calls.foldl LogCall.run s

/-- The text of a sequence of calls. -/
def textOf (calls : List LogCall) : List UInt8 := calls.flatMap LogCall.text

theorem LogCall.emits (c : LogCall) (s : State) : Emits s (c.run s) c.text := by
  cases c with
  | init => exact logInit_emits s
  | putc c => exact logPutc_emits c s
  | write t => exact logWrite_emits t s
  | writeln t => exact logWriteln_emits t s
  | hex64 value => exact logHex64_emits value s
  | keyValueHex64 key value => exact logKeyValueHex64_emits key value s

theorem logAll_emits {calls : List LogCall} (h : calls ≠ []) (s : State) :
    Emits s (logAll calls s) (textOf calls) := by
  cases calls with
  | nil => exact absurd rfl h
  | cons c calls => exact (c.emits s).foldl (fun s c ↦ c.emits s) calls

/-- **The log loses nothing but single bytes, and never hangs.**  However the serial port behaves,
and even if the first call finds it in the middle of being set up: a run of calls touches no other
device, and it transmits the texts of the calls in order, with line feeds expanded and each byte on
its own, at the first poll that finds the port ready, or not at all if the port is busy at each of
its polls.  So the number of polls is bounded, and a port that always gets ready in time transmits
all bytes. -/
theorem log_transmits (calls : List LogCall) {s : State} (hs : LogOk s) :
    ∃ u ready sent,
      logAll calls s = { s with ports := { s.ports with uart := u }, logReady := ready } ∧
      u.sent = s.ports.uart.sent ++ sent ∧
      Delivers s.ports.uart.status s.ports.uart.polls (expand (textOf calls)) sent u.polls ∧
      sent.Sublist (expand (textOf calls)) ∧
      (Responsive s.ports.uart → sent = expand (textOf calls)) ∧
      u.polls ≤ s.ports.uart.polls + serialTimeoutLimit * (expand (textOf calls)).length := by
  cases calls with
  | nil =>
    exact ⟨_, _, [], rfl, (List.append_nil _).symm, .nil _, List.nil_sublist _, fun _ ↦ rfl,
      Nat.le_add_right _ _⟩
  | cons c calls =>
    have h := logAll_emits (List.cons_ne_nil c calls) s
    obtain ⟨l, hl, hd⟩ := (h.transmits hs).sent
    exact ⟨_, _, l, h.frame, hl, hd, hd.sublist, hd.eq_of_responsive, hd.polls_le⟩

/-- A machine on which nothing has been set up yet. -/
def freshState (status : ℕ → Byte) : State where
  ports :=
    { master := { irr := 0, imr := 0, isr := 0, offset := 0, stage := .ready }
      slave := { irr := 0, imr := 0, isr := 0, offset := 0, stage := .ready }
      pit := { reload := 0, low := none }
      uart :=
        { status := status
          polls := 0
          sent := []
          divisorLow := 0
          divisorHigh := 0
          interruptEnable := 0
          fifoControl := 0
          lineControl := 0
          modemControl := 0 } }
  logReady := false
  ticks := 0
  trapCount := 0

theorem logOk_freshState (status : ℕ → Byte) : LogOk (freshState status) :=
  fun h ↦ absurd h Bool.false_ne_true

/-- A port that is always ready transmits a line, with its line feed expanded. -/
theorem log_transmits_line : ∃ u ready,
      logAll [.writeln (ascii "up")] (freshState fun _ ↦ 0x20)
        = { freshState fun _ ↦ 0x20 with
            ports := { (freshState fun _ ↦ 0x20).ports with uart := u }, logReady := ready } ∧
      u.sent = ascii "up\r\n" := by
  obtain ⟨u, ready, sent, h1, h2, -, -, h4, -⟩ :=
    log_transmits [.writeln (ascii "up")] (logOk_freshState fun _ ↦ 0x20)
  refine ⟨u, ready, h1, h2.trans ?_⟩
  have hready : (0x20 : Byte).getLsbD 5 = true := by decide
  rw [h4 fun n ↦ ⟨0, by decide, hready⟩]
  decide

end Core
end Mcsos
