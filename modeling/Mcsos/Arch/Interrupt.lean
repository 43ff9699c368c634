import Mcsos.Arch.Idt

/-!
# Entering and leaving the kernel at an interrupt

The model of `isr.S`.  There is a stub for each of the first 48 vectors.  It pushes the vector, and
a zero where the processor pushes no error code, so that the stack looks the same for all of them;
the rest is common code, which pushes the registers, calls `x86_64_trap_dispatch` with a pointer to
what is on the stack, and takes everything back.

What the dispatcher does is not said here: it is any function that returns with the registers and
the stack that a function has to preserve.
-/

set_option autoImplicit false

namespace Mcsos
namespace Arch

open Assembly

/-! ## The code -/

/-- Where the code of `isr.S` lies, and what it calls. -/
structure IsrLabels where
  /-- `x86_64_interrupt_stubs` -/
  stubs : ℕ → Word
  /-- `isr_common` -/
  common : Word
  /-- `x86_64_trap_dispatch` -/
  trapDispatch : Word
  /-- The instruction after the call -/
  back : Word
  stubs_inj : ∀ v w, v < 48 → w < 48 → stubs v = stubs w → v = w
  stubs_ne : ∀ v, v < 48 → stubs v ≠ common

/-- The vectors with `ISR_ERR` -/
def isrErr : List ℕ := [8, 10, 11, 12, 13, 14, 17, 21, 29, 30]

/-- `isr_stub_0` to `isr_stub_47` -/
def isrStub (common : Word) (vector : ℕ) : Block :=
  if vector ∈ isrErr then [.pushImm (BitVec.ofNat 64 vector), .jmp common]
  else [.pushImm 0, .pushImm (BitVec.ofNat 64 vector), .jmp common]

/-- The registers in the order in which `isr_common` pushes them -/
def isrRegs : List Reg :=
  [.rax, .rbx, .rcx, .rdx, .rbp, .rdi, .rsi, .r8, .r9, .r10, .r11, .r12, .r13, .r14, .r15]

/-- `isr_common` up to its call -/
def isrPrologue : Block := isrRegs.map .push ++ [.mov .rsp .rdi]

/-- `isr_common` after its call -/
def isrEpilogue : Block := isrRegs.reverse.map .pop ++ [.add 16 .rsp, .iretq]

/-- `isr_common` -/
def isrCommon (trapDispatch back : Word) : Block :=
  isrPrologue ++ [.call trapDispatch back] ++ isrEpilogue

/-- The code of `isr.S`. -/
def isrText (l : IsrLabels) : Text := fun a ↦
  if a = l.common then some (isrCommon l.trapDispatch l.back)
  else ((List.range 48).find? fun v ↦ l.stubs v = a).map (isrStub l.common)

/-- `x86_64_trap_frame_t` -/
structure TrapFrame where
  r15 : Word
  r14 : Word
  r13 : Word
  r12 : Word
  r11 : Word
  r10 : Word
  r9 : Word
  r8 : Word
  rsi : Word
  rdi : Word
  rbp : Word
  rdx : Word
  rcx : Word
  rbx : Word
  rax : Word
  vector : Word
  errorCode : Word
  rip : Word
  cs : Word
  rflags : Word
  deriving DecidableEq

/-- The `x86_64_trap_frame_t` at an address. -/
def trapFrameAt (m : Memory) (p : Word) : TrapFrame :=
  let word (i : ℕ) : Word := loadQ m (p + BitVec.ofNat 64 (8 * i))
  { r15 := word 0, r14 := word 1, r13 := word 2, r12 := word 3, r11 := word 4, r10 := word 5,
    r9 := word 6, r8 := word 7, rsi := word 8, rdi := word 9, rbp := word 10, rdx := word 11,
    rcx := word 12, rbx := word 13, rax := word 14, vector := word 15, errorCode := word 16,
    rip := word 17, cs := word 18, rflags := word 19 }

/-! ## What ought to be in the frame -/

/-- The exceptions for which the processor pushes an error code: #DF, #TS, #NP, #SS, #GP, #PF, #AC,
#CP, #VC and #SX. -/
def HasErrorCode (vector : ℕ) : Prop :=
  vector = 8 ∨ 10 ≤ vector ∧ vector ≤ 14 ∨ vector = 17 ∨ vector = 21 ∨ vector = 29 ∨ vector = 30

instance (vector : ℕ) : Decidable (HasErrorCode vector) := inferInstanceAs (Decidable (_ ∨ _))

/-- The frame that describes an interrupted processor. -/
def frameOf (c : Cpu) (vector : ℕ) (saved : Word) (error : Option Word) : TrapFrame where
  r15 := c.regs .r15
  r14 := c.regs .r14
  r13 := c.regs .r13
  r12 := c.regs .r12
  r11 := c.regs .r11
  r10 := c.regs .r10
  r9 := c.regs .r9
  r8 := c.regs .r8
  rsi := c.regs .rsi
  rdi := c.regs .rdi
  rbp := c.regs .rbp
  rdx := c.regs .rdx
  rcx := c.regs .rcx
  rbx := c.regs .rbx
  rax := c.regs .rax
  vector := BitVec.ofNat 64 vector
  errorCode := error.getD 0
  rip := c.rip
  cs := c.cs.setWidth 64
  rflags := saved

/-! ## Up to the call -/

variable {l : IsrLabels} {c t : Cpu} {vector : ℕ} {saved : Word} {error : Option Word}

theorem mem_isrErr_iff (h : vector < 48) : vector ∈ isrErr ↔ HasErrorCode vector := by
  revert vector
  decide

/-- What the processor saves at an interrupt, the last word first. -/
def interrupted (c : Cpu) (saved : Word) : List Word :=
  [c.rip, c.cs.setWidth 64, saved, c.regs .rsp, c.ss.setWidth 64]

open Cpu

/-- The stack when a stub is entered. -/
theorem pushed_interrupt (c : Cpu) (handler : Word) (selector : BitVec 16) (saved flags : Word)
    (error : Option Word) :
    Pushed (align16 (c.regs .rsp)) c.mem (error.toList ++ interrupted c saved)
      (c.interrupt handler selector saved flags error) := by
  have hnil := pushed_nil (c.set .rsp (align16 (c.regs .rsp)))
  rw [regs_set_self] at hnil
  have hpushed := hnil.pushAll ([c.ss.setWidth 64, c.regs .rsp, saved, c.cs.setWidth 64,
    c.rip] ++ error.toList) (by cases error <;> simp)
  rw [List.reverse_append, List.append_nil] at hpushed
  cases error with
  | none => exact hpushed.of_eq rfl rfl
  | some e => exact hpushed.of_eq rfl rfl

theorem regs_interrupt (c : Cpu) (handler : Word) (selector : BitVec 16) (saved flags : Word)
    (error : Option Word) {r : Reg} (hr : r ≠ .rsp) :
    (c.interrupt handler selector saved flags error).regs r = c.regs r :=
  (regs_pushAll_of_ne hr _ _).trans (regs_set_of_ne hr c _)

/-- What has happened when `isr_common` is entered: the stack looks the same for all vectors. -/
structure StubDone (l : IsrLabels) (c : Cpu) (vector : ℕ) (saved : Word) (error : Option Word)
    (t : Cpu) : Prop where
  pushed : Pushed (align16 (c.regs .rsp)) c.mem
    (BitVec.ofNat 64 vector :: error.getD 0 :: interrupted c saved) t
  regs : ∀ r, r ≠ .rsp → t.regs r = c.regs r
  rip : t.rip = l.common

theorem execBlock_isrStub (effect : Word → Cpu → Cpu) (hvector : vector < 48)
    (herror : error.isSome = true ↔ HasErrorCode vector)
    (hpushed : Pushed (align16 (c.regs .rsp)) c.mem (error.toList ++ interrupted c saved) t)
    (hregs : ∀ r, r ≠ .rsp → t.regs r = c.regs r) :
    StubDone l c vector saved error (execBlock effect (isrStub l.common vector) t) := by
  -- the stub pushes what is missing of the two words
  have hstub : ∃ vs, execBlock effect (isrStub l.common vector) t = (t.pushAll vs).goto l.common ∧
      vs.reverse ++ error.toList = [BitVec.ofNat 64 vector, error.getD 0] := by
    rw [isrStub]
    by_cases h : vector ∈ isrErr
    · obtain ⟨e, rfl⟩ := Option.isSome_iff_exists.1 (herror.2 ((mem_isrErr_iff hvector).1 h))
      rw [if_pos h]
      exact ⟨[BitVec.ofNat 64 vector], rfl, rfl⟩
    · obtain rfl : error = none := by
        rw [← Option.not_isSome_iff_eq_none, herror]
        exact mt (mem_isrErr_iff hvector).2 h
      rw [if_neg h]
      exact ⟨[0, BitVec.ofNat 64 vector], rfl, rfl⟩
  obtain ⟨vs, hrun, hvs⟩ := hstub
  have hlen := congrArg List.length hvs
  rw [List.length_append, List.length_reverse] at hlen
  have hall := hpushed.pushAll vs (by
    rw [List.length_append, Nat.add_right_comm, Nat.add_comm _ vs.length, hlen]
    simp [interrupted])
  rw [← List.append_assoc, hvs] at hall
  rw [hrun]
  exact ⟨hall.of_eq rfl rfl, fun r hr ↦ (regs_pushAll_of_ne hr t vs).trans (hregs r hr), rfl⟩

/-- The words that `isr_common` has on the stack at its call. -/
def saveArea (c : Cpu) (vector : ℕ) (saved : Word) (error : Option Word) : List Word :=
  isrRegs.reverse.map c.regs
    ++ (BitVec.ofNat 64 vector :: error.getD 0 :: interrupted c saved)

/-- The dispatcher is entered as the ABI asks for, with a frame that describes what was interrupted;
nothing was written but to the stack below it. -/
structure DispatcherEntered (c : Cpu) (vector : ℕ) (saved : Word) (error : Option Word)
    (s : Cpu) : Prop where
  frame : trapFrameAt s.mem (s.regs .rdi) = frameOf c vector saved error
  aligned : (s.regs .rsp + 8).toNat % 16 = 0
  memory : ∀ x, 200 ≤ (c.regs .rsp - 1 - x).toNat → s.mem x = c.mem x

/-- The state in which the dispatcher is entered. -/
def dispatcherEntry (l : IsrLabels) (effect : Word → Cpu → Cpu) (t : Cpu) : Cpu :=
  ((execBlock effect isrPrologue t).push l.back).goto l.trapDispatch

theorem pushed_dispatcherEntry (effect : Word → Cpu → Cpu) (h : StubDone l c vector saved error t) :
    Pushed (align16 (c.regs .rsp)) c.mem (l.back :: saveArea c vector saved error)
      (dispatcherEntry l effect t) ∧
    (dispatcherEntry l effect t).regs .rdi = (dispatcherEntry l effect t).regs .rsp + 8 := by
  have hmap : (isrRegs.map t.regs).reverse = isrRegs.reverse.map c.regs := by
    rw [← List.map_reverse]
    refine List.map_congr_left fun r hr ↦ h.regs r ?_
    rintro rfl
    revert hr
    decide
  have hsaved := h.pushed.pushAll (isrRegs.map t.regs) (by simp [interrupted, isrRegs])
  rw [hmap] at hsaved
  have hprologue : execBlock effect isrPrologue t = (t.pushAll (isrRegs.map t.regs)).set .rdi
      ((t.pushAll (isrRegs.map t.regs)).regs .rsp) := by
    rw [isrPrologue, execBlock_append, execBlock_push effect (by decide)]
    rfl
  rw [dispatcherEntry, hprologue]
  have hset := hsaved.set (r := .rdi) (by decide) ((t.pushAll (isrRegs.map t.regs)).regs .rsp)
  refine ⟨(hset.push (by simp [interrupted, isrRegs]) l.back).of_eq rfl rfl, ?_⟩
  rw [Cpu.goto, rsp_push, regs_push_of_ne (by decide), BitVec.sub_add_cancel, regs_set_self,
    regs_set_of_ne (by decide)]

theorem trapFrameAt_eq {m : Memory} {p : Word}
    (h : WordsAt m p (saveArea c vector saved error)) :
    trapFrameAt m p = frameOf c vector saved error := by
  have hword : ∀ i (hi : i < 20), loadQ m (p + BitVec.ofNat 64 (8 * i))
      = (saveArea c vector saved error).get ⟨i, lt_of_lt_of_le hi (by decide : 20 ≤ 22)⟩ :=
    fun i hi ↦ h.get _
  rw [trapFrameAt]
  simp only [hword 0 (by decide), hword 1 (by decide), hword 2 (by decide), hword 3 (by decide),
    hword 4 (by decide), hword 5 (by decide), hword 6 (by decide), hword 7 (by decide),
    hword 8 (by decide), hword 9 (by decide), hword 10 (by decide), hword 11 (by decide),
    hword 12 (by decide), hword 13 (by decide), hword 14 (by decide), hword 15 (by decide),
    hword 16 (by decide), hword 17 (by decide), hword 18 (by decide), hword 19 (by decide)]
  rfl

theorem dispatcherEntered (effect : Word → Cpu → Cpu) (h : StubDone l c vector saved error t) :
    DispatcherEntered c vector saved error (dispatcherEntry l effect t) := by
  obtain ⟨hpushed, hrdi⟩ := pushed_dispatcherEntry effect h
  have halign := toNat_align16 (c.regs .rsp)
  have hlen : 8 * (l.back :: saveArea c vector saved error).length = 184 := rfl
  refine ⟨?_, ?_, fun x hx ↦ hpushed.frame x ?_⟩
  · rw [hrdi]
    exact trapFrameAt_eq hpushed.stacked.2
  · rw [hpushed.rsp, hlen]
    bv_omega
  · rw [hlen]
    bv_omega

/-! ## After the call -/

theorem setWidth_selector (x : BitVec 16) : (x.setWidth 64).setWidth 16 = x := by
  rw [BitVec.setWidth_setWidth_of_le _ (by decide), BitVec.setWidth_eq]

theorem mem_isrRegs {r : Reg} (hr : r ≠ .rsp) : r ∈ isrRegs.reverse := by
  cases r <;> first | exact absurd rfl hr | decide

/-- The processor goes on where it was interrupted, with the flags and the stack it had. -/
structure Resumed (c : Cpu) (saved : Word) (t : Cpu) : Prop where
  rip : t.rip = c.rip
  rsp : t.regs .rsp = c.regs .rsp
  rflags : t.rflags = saved
  cs : t.cs = c.cs
  ss : t.ss = c.ss

/-- `iretq` gives back what the processor has saved. -/
theorem exec_iretq (effect : Word → Cpu → Cpu) (h : t.Stacked (interrupted c saved)) :
    Resumed c saved (exec effect t .iretq) ∧ (exec effect t .iretq).mem = t.mem ∧
      ∀ r, r ≠ .rsp → (exec effect t .iretq).regs r = t.regs r := by
  have hword : ∀ i (hi : i < 5), loadQ t.mem (t.regs .rsp + BitVec.ofNat 64 (8 * i))
      = (interrupted c saved).get ⟨i, hi⟩ := fun i hi ↦ h.get _
  have hexec : exec effect t .iretq = { t.set .rsp (c.regs .rsp) with
      rip := c.rip, cs := c.cs, rflags := saved, ss := c.ss } := by
    rw [exec]
    simp only [hword 0 (by decide), hword 1 (by decide), hword 2 (by decide), hword 3 (by decide),
      hword 4 (by decide), interrupted, List.get_eq_getElem, List.getElem_cons_zero,
      List.getElem_cons_succ, setWidth_selector]
  rw [hexec]
  exact ⟨⟨rfl, regs_set_self t .rsp (c.regs .rsp), rfl, rfl, rfl⟩, rfl,
    fun r hr ↦ regs_set_of_ne hr t (c.regs .rsp)⟩

theorem Resumed.eq_of_regs (h : Resumed c saved t) (hregs : ∀ r, r ≠ .rsp → t.regs r = c.regs r) :
    t = { c with rflags := saved, mem := t.mem } := by
  have hall : t.regs = c.regs := funext fun r ↦ by
    by_cases hr : r = .rsp
    · rw [hr, h.rsp]
    · exact hregs r hr
  obtain ⟨hrip, -, hrflags, hcs, hss⟩ := h
  cases t
  dsimp only at *
  rw [hall, hrip, hrflags, hcs, hss]

theorem execBlock_isrEpilogue (effect : Word → Cpu → Cpu)
    (h : t.Stacked (saveArea c vector saved error)) :
    execBlock effect isrEpilogue t = { c with rflags := saved, mem := t.mem } := by
  obtain ⟨hstacked, hregs, -, hmem⟩ := execBlock_pop effect isrRegs.reverse (by decide)
    (by decide) h
  rw [isrEpilogue, execBlock_append]
  generalize execBlock effect (isrRegs.reverse.map .pop) t = u at *
  have hrest : (exec effect u (.add 16 .rsp)).Stacked (interrupted c saved) := by
    have hrsp : u.regs .rsp + 8 + 8 = u.regs .rsp + 16 := by bv_omega
    have hlast := hstacked.2.2
    rw [hrsp] at hlast
    exact Stacked.of_eq (s := u.set .rsp (u.regs .rsp + 16))
      (by rw [Stacked, regs_set_self]; exact hlast) rfl rfl
  obtain ⟨hresumed, hmem', hregs'⟩ := exec_iretq effect hrest
  rw [← hmem]
  exact (hresumed.eq_of_regs fun r hr ↦ (hregs' r hr).trans
    ((regs_set_of_ne hr u _).trans (hregs r (mem_isrRegs hr)))).trans (by rw [hmem']; rfl)

/-! ## The whole way -/

theorem isrText_common (l : IsrLabels) :
    isrText l l.common = some (isrCommon l.trapDispatch l.back) := if_pos rfl

theorem isrText_stub (l : IsrLabels) (hvector : vector < 48) :
    isrText l (l.stubs vector) = some (isrStub l.common vector) := by
  have hfind : ((List.range 48).find? fun v ↦ l.stubs v = l.stubs vector) = some vector := by
    cases hf : (List.range 48).find? fun v ↦ l.stubs v = l.stubs vector with
    | none =>
      have hnone := List.find?_eq_none.1 hf vector (List.mem_range.2 hvector)
      simp at hnone
    | some v =>
      have hv := List.mem_range.1 (List.mem_of_find?_eq_some hf)
      have heq : l.stubs v = l.stubs vector := by simpa using List.find?_some hf
      rw [l.stubs_inj v vector hv hvector heq]
  rw [isrText, if_neg (l.stubs_ne vector hvector), hfind, Option.map_some]

theorem someStubs_inj : ∀ v w, v < 48 → w < 48 →
    (0x1000 : Word) + BitVec.ofNat 64 (16 * v) = 0x1000 + BitVec.ofNat 64 (16 * w) → v = w := by
  intro v w hv hw h
  bv_omega

theorem someStubs_ne : ∀ v, v < 48 → (0x1000 : Word) + BitVec.ofNat 64 (16 * v) ≠ 0x2000 := by
  intro v hv
  bv_omega

/-- Code that lies somewhere. -/
def someIsrLabels : IsrLabels where
  stubs v := 0x1000 + BitVec.ofNat 64 (16 * v)
  common := 0x2000
  trapDispatch := 0x3000
  back := 0x2020
  stubs_inj := someStubs_inj
  stubs_ne := someStubs_ne

/-- A function that returns at once. -/
theorem returns_ret (n : ℕ) (s : Cpu) : Returns n s (s.drop.goto s.top) := by
  have hne : ∀ r ∈ calleeSaved, r ≠ .rsp := by decide
  refine ⟨rfl, ?_, fun r hr ↦ ?_, fun x _ ↦ rfl⟩
  · show s.drop.regs .rsp = s.regs .rsp + 8
    exact regs_set_self s .rsp _
  · show s.drop.regs r = s.regs r
    exact regs_set_of_ne (hne r hr) s _

/-- A processor that executes some code. -/
def someCpu : Cpu where
  regs _ := 0x8008
  rip := 0x400
  rflags := 0x202
  cs := kernelCodeSelector
  ss := 0x30
  mem _ := 0

end Arch
end Mcsos
