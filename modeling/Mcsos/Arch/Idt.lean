import Mcsos.Lib.Assembly

/-!
# The interrupt descriptor table

The model of `idt.c`.  An entry of the table has the address of a handler in three parts; the
processor puts them together again.  `x86_64_idt_init` fills the table: entries without a handler
are not present, and the first 48 lead to the stubs.
-/

set_option autoImplicit false

namespace Mcsos
namespace Arch

open Assembly

/-- `X86_64_KERNEL_CODE_SELECTOR` -/
abbrev kernelCodeSelector : BitVec 16 := 0x28

/-- `X86_64_IDT_GATE_INTERRUPT` -/
abbrev idtGateInterrupt : BitVec 8 := 0x8E

/-- `X86_64_IDT_GATE_TRAP` -/
abbrev idtGateTrap : BitVec 8 := 0x8F

/-- `x86_64_idt_entry_t` -/
structure IdtEntry where
  offsetLow : BitVec 16
  selector : BitVec 16
  ist : BitVec 8
  typeAttributes : BitVec 8
  offsetMid : BitVec 16
  offsetHigh : BitVec 32
  reserved : BitVec 32
  deriving DecidableEq, Repr

/-- `idt` -/
abbrev Idt : Type := UInt8 → IdtEntry

/-- What `x86_64_idt_set_gate` stores. -/
def gate (handler : Word) (typeAttributes : BitVec 8) : IdtEntry where
  offsetLow := (handler &&& 0xFFFF).setWidth 16
  selector := kernelCodeSelector
  ist := 0
  typeAttributes := typeAttributes
  offsetMid := ((handler >>> 16) &&& 0xFFFF).setWidth 16
  offsetHigh := ((handler >>> 32) &&& 0xFFFFFFFF).setWidth 32
  reserved := 0

/-- `x86_64_idt_set_gate` -/
def idtSetGate (vector : UInt8) (handler : Word) (typeAttributes : BitVec 8) (idt : Idt) : Idt :=
  Function.update idt vector (gate handler typeAttributes)

/-- `x86_64_idt_init`, where `stubs` is `x86_64_interrupt_stubs` -/
def idtInit (stubs : ℕ → Word) (idt : Idt) : Idt :=
  let idt := (List.range 256).foldl (fun idt i ↦ idtSetGate (UInt8.ofNat i) 0 0 idt) idt
  (List.range 48).foldl (fun idt vector ↦
    let gateType := if vector = 3 then idtGateTrap else idtGateInterrupt
    idtSetGate (UInt8.ofNat vector) (stubs vector) gateType idt) idt

/-! ## What the processor sees -/

namespace IdtEntry

/-- The address of the handler. -/
def offset (e : IdtEntry) : Word := (e.offsetHigh ++ e.offsetMid ++ e.offsetLow).cast rfl

/-- Is there a handler? -/
def present (e : IdtEntry) : Bool := e.typeAttributes.getLsbD 7

/-- Does the handler run with interrupts disabled? -/
def disables (e : IdtEntry) : Bool := !e.typeAttributes.getLsbD 0

end IdtEntry

/-- The flags TF, NT, RF and VM, which the processor clears for a handler. -/
abbrev clearedFlags : Word := 0x34100

/-- The flag IF -/
abbrev flagIF : Word := 0x200

/-- The flags with which a handler starts. -/
def handlerFlags (e : IdtEntry) (flags : Word) : Word :=
  let flags := flags &&& ~~~clearedFlags
  if e.disables then flags &&& ~~~flagIF else flags

/-- Go to the handler of an interrupt, where `saved` are the flags as they are saved and `error` is
the error code, for those vectors that have one.  An entry that is not present has no handler. -/
def deliver (idt : Idt) (vector : UInt8) (saved : Word) (error : Option Word) (c : Cpu) :
    Option Cpu :=
  let e := idt vector
  if e.present then
    some (c.interrupt e.offset e.selector saved (handlerFlags e c.rflags) error)
  else none

theorem setWidth_and_mask16 (x : Word) : (x &&& 0xFFFF).setWidth 16 = x.setWidth 16 := by
  rw [← BitVec.toNat_inj, BitVec.toNat_setWidth, BitVec.toNat_setWidth, BitVec.toNat_and,
    show (0xFFFF : Word).toNat = 2 ^ 16 - 1 from rfl, Nat.and_two_pow_sub_one_eq_mod, Nat.mod_mod]

theorem setWidth_and_mask32 (x : Word) : (x &&& 0xFFFFFFFF).setWidth 32 = x.setWidth 32 := by
  rw [← BitVec.toNat_inj, BitVec.toNat_setWidth, BitVec.toNat_setWidth, BitVec.toNat_and,
    show (0xFFFFFFFF : Word).toNat = 2 ^ 32 - 1 from rfl, Nat.and_two_pow_sub_one_eq_mod,
    Nat.mod_mod]

/-- The processor finds the handler that was stored. -/
@[simp] theorem offset_gate (handler : Word) (typeAttributes : BitVec 8) :
    (gate handler typeAttributes).offset = handler := by
  refine BitVec.eq_of_getLsbD_eq fun i hi ↦ ?_
  rw [IdtEntry.offset, gate]
  dsimp only
  rw [setWidth_and_mask16, setWidth_and_mask16, setWidth_and_mask32, BitVec.getLsbD_cast,
    BitVec.getLsbD_append, BitVec.getLsbD_append]
  by_cases h16 : i < 16
  · simp [h16]
  by_cases h32 : i < 32
  · simp [h16, show i - 16 < 16 by omega, show 16 + (i - 16) = i by omega]
  · simp [h16, show ¬ i - 16 < 16 by omega, show i - 16 - 16 < 32 by omega,
      show 32 + (i - 16 - 16) = i by omega]

@[simp] theorem present_gate (handler : Word) (typeAttributes : BitVec 8) :
    (gate handler typeAttributes).present = typeAttributes.getLsbD 7 := rfl

@[simp] theorem disables_gate (handler : Word) (typeAttributes : BitVec 8) :
    (gate handler typeAttributes).disables = !typeAttributes.getLsbD 0 := rfl

/-! ## The table after `x86_64_idt_init` -/

/-- A loop that sets the entries below `n`. -/
theorem foldl_update_apply {n : ℕ} (hn : n ≤ 256) (f : ℕ → IdtEntry) (idt : Idt) (vector : UInt8) :
    (List.range n).foldl (fun idt i ↦ Function.update idt (UInt8.ofNat i) (f i)) idt vector
      = if vector.toNat < n then f vector.toNat else idt vector := by
  induction n with
  | zero => rfl
  | succ n ih =>
    have hv : vector = UInt8.ofNat n ↔ vector.toNat = n := by
      rw [← UInt8.toNat_inj, UInt8.toNat_ofNat', Nat.mod_eq_of_lt (by omega)]
    rw [List.range_succ, List.foldl_append, List.foldl_cons, List.foldl_nil, Function.update_apply,
      ih (by omega)]
    by_cases h : vector.toNat = n
    · rw [if_pos (hv.2 h), if_pos (by omega), h]
    · rw [if_neg (mt hv.1 h)]
      by_cases hlt : vector.toNat < n
      · rw [if_pos hlt, if_pos (by omega)]
      · rw [if_neg hlt, if_neg (by omega)]

theorem idtInit_apply (stubs : ℕ → Word) (idt : Idt) (vector : UInt8) :
    idtInit stubs idt vector = if vector.toNat < 48 then
        gate (stubs vector.toNat) (if vector.toNat = 3 then idtGateTrap else idtGateInterrupt)
      else gate 0 0 := by
  rw [idtInit]
  refine (foldl_update_apply (by decide) _ _ _).trans ?_
  split
  · rfl
  · exact (foldl_update_apply le_rfl _ _ _).trans (if_pos vector.toNat_lt)

theorem deliver_of_present {e : IdtEntry} {idt : Idt} {vector : UInt8} (he : idt vector = e)
    (hpresent : e.present = true) (saved : Word) (error : Option Word) (c : Cpu) :
    deliver idt vector saved error c
      = some (c.interrupt e.offset e.selector saved (handlerFlags e c.rflags) error) := by
  rw [deliver, he, if_pos hpresent]

theorem deliver_idtInit (stubs : ℕ → Word) (idt : Idt) {v : ℕ} (hv : v < 48) (saved : Word)
    (error : Option Word) (c : Cpu) :
    ∃ flags, deliver (idtInit stubs idt) (UInt8.ofNat v) saved error c
      = some (c.interrupt (stubs v) kernelCodeSelector saved flags error) := by
  have htoNat : (UInt8.ofNat v).toNat = v := by
    rw [UInt8.toNat_ofNat', Nat.mod_eq_of_lt (by omega)]
  have hgate := idtInit_apply stubs idt (UInt8.ofNat v)
  rw [htoNat, if_pos hv] at hgate
  have hpresent : (if v = 3 then idtGateTrap else idtGateInterrupt).getLsbD 7 = true := by
    split <;> decide
  have hdeliver := deliver_of_present hgate hpresent saved error c
  rw [offset_gate] at hdeliver
  exact ⟨_, hdeliver⟩

end Arch
end Mcsos
