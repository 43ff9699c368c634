import Mcsos.Lib.Bytes

/-!
# A piece of x86-64

Enough of the processor for code that saves and restores registers: the general purpose registers,
`rip`, `rflags` and the two selectors that an interrupt saves, and a memory of bytes.  There are the
instructions that move words around, push and pop, the ways to go somewhere else, and what the
processor itself does at an interrupt.

Code comes in *blocks*, lists of instructions that lie at a label and end by going somewhere
(`Text`).  A function that is called is known by what it does until it returns; `Returns` is what a
caller may rely on.

Addresses wrap around, so two of them are compared by their difference.  What lies on the stack is
a list of words (`WordsAt`), and the rules for `push`, `pop` and `call` are about this list.
-/

set_option autoImplicit false

namespace Assembly

/-- An address, or the content of a register. -/
abbrev Word : Type := BitVec 64

/-- Memory, byte by byte. -/
abbrev Memory : Type := Word → UInt8

/-! ## Words in memory -/

/-- The little-endian word at an address. -/
def loadQ (m : Memory) (a : Word) : Word :=
  BitVec.ofNat 64 (Bytes.le (fun i ↦ m (a + BitVec.ofNat 64 i)) 0 8)

/-- Store a word. -/
def storeQ (m : Memory) (a v : Word) : Memory := fun x ↦
  if (x - a).toNat < 8 then Bytes.byteAt v.toNat (x - a).toNat else m x

variable {m m' : Memory} {a b v w : Word}

theorem toNat_offset {i : ℕ} (hi : i < 2 ^ 64) : (a + BitVec.ofNat 64 i - a).toNat = i := by
  rw [BitVec.add_comm, BitVec.add_sub_cancel, BitVec.toNat_ofNat, Nat.mod_eq_of_lt hi]

theorem loadQ_congr (h : ∀ x, (x - a).toNat < 8 → m x = m' x) : loadQ m a = loadQ m' a := by
  refine congrArg (BitVec.ofNat 64) (Bytes.le_congr fun i _ hi ↦ h _ ?_)
  rw [toNat_offset (by omega)]
  omega

@[simp] theorem loadQ_storeQ_self (m : Memory) (a v : Word) : loadQ (storeQ m a v) a = v := by
  have hbytes : Bytes.le (fun i ↦ storeQ m a v (a + BitVec.ofNat 64 i)) 0 8
      = Bytes.le (fun i ↦ Bytes.byteAt v.toNat (i - 0)) 0 8 := by
    refine Bytes.le_congr fun i _ hi ↦ ?_
    rw [storeQ, toNat_offset (by omega), if_pos (by omega), Nat.sub_zero]
  rw [loadQ, hbytes, Bytes.le_byteAt, Nat.mod_eq_of_lt (show v.toNat < 256 ^ 8 from v.isLt),
    BitVec.ofNat_toNat, BitVec.setWidth_eq]

theorem storeQ_of_le {x : Word} (h : 8 ≤ (x - a).toNat) : storeQ m a v x = m x :=
  if_neg (Nat.not_lt.2 h)

/-- These words lie one after the other from an address on. -/
def WordsAt (m : Memory) : Word → List Word → Prop
  | _, [] => True
  | a, w :: ws => loadQ m a = w ∧ WordsAt m (a + 8) ws

theorem WordsAt.congr {ws : List Word} (hws : WordsAt m a ws) (hlen : 8 * ws.length ≤ 2 ^ 64)
    (h : ∀ x, (x - a).toNat < 8 * ws.length → m x = m' x) : WordsAt m' a ws := by
  induction ws generalizing a with
  | nil => trivial
  | cons w ws ih =>
    rw [List.length_cons] at hlen h
    refine ⟨?_, ih hws.2 (by omega) fun x hx ↦ h x ?_⟩
    · rw [← hws.1]
      exact loadQ_congr fun x hx ↦ (h x (by omega)).symm
    · bv_omega

theorem WordsAt.get {ws : List Word} (hws : WordsAt m a ws) {i : ℕ} (hi : i < ws.length) :
    loadQ m (a + BitVec.ofNat 64 (8 * i)) = ws[i] := by
  induction ws generalizing a i with
  | nil => exact absurd hi (Nat.not_lt_zero i)
  | cons w ws ih =>
    cases i with
    | zero =>
      rw [Nat.mul_zero, BitVec.add_zero]
      exact hws.1
    | succ i =>
      have hstep : a + BitVec.ofNat 64 (8 * (i + 1)) = a + 8 + BitVec.ofNat 64 (8 * i) := by
        rw [Nat.mul_succ, Nat.add_comm, BitVec.ofNat_add, BitVec.add_assoc]
        rfl
      rw [hstep]
      exact ih hws.2 (Nat.lt_of_succ_lt_succ hi)

theorem wordsAt_append {vs ws : List Word} :
    WordsAt m a (vs ++ ws) ↔
      WordsAt m a vs ∧ WordsAt m (a + BitVec.ofNat 64 (8 * vs.length)) ws := by
  induction vs generalizing a with
  | nil => simp [WordsAt]
  | cons v vs ih =>
    have hstep : a + BitVec.ofNat 64 (8 * (vs.length + 1))
        = a + 8 + BitVec.ofNat 64 (8 * vs.length) := by
      rw [Nat.mul_succ, Nat.add_comm, BitVec.ofNat_add, BitVec.add_assoc]
      rfl
    rw [List.cons_append, WordsAt, WordsAt, ih, List.length_cons, hstep, and_assoc]

/-- Store words one after the other. -/
def storeWords (m : Memory) : Word → List Word → Memory
  | _, [] => m
  | a, w :: ws => storeWords (storeQ m a w) (a + 8) ws

theorem storeWords_of_le {ws : List Word} (hlen : 8 * ws.length ≤ 2 ^ 64) {x : Word}
    (h : 8 * ws.length ≤ (x - a).toNat) : storeWords m a ws x = m x := by
  induction ws generalizing a m with
  | nil => rfl
  | cons w ws ih =>
    rw [List.length_cons] at h hlen
    have hstep : 8 * ws.length ≤ (x - (a + 8)).toNat := by bv_omega
    rw [storeWords, ih (by omega) hstep, storeQ_of_le (by omega)]

theorem wordsAt_storeWords {ws : List Word} (hlen : 8 * ws.length < 2 ^ 64) :
    WordsAt (storeWords m a ws) a ws := by
  induction ws generalizing a m with
  | nil => trivial
  | cons w ws ih =>
    rw [List.length_cons] at hlen
    refine ⟨?_, ih (by omega)⟩
    have hbeyond : ∀ x : Word, (x - a).toNat < 8 → 8 * ws.length ≤ (x - (a + 8)).toNat := by
      intro x hx
      bv_omega
    refine (loadQ_congr fun x hx ↦ ?_).trans (loadQ_storeQ_self m a w)
    exact storeWords_of_le (by omega) (hbeyond x hx)

/-! ## The processor -/

/-- The general purpose registers. -/
inductive Reg
  | rax
  | rbx
  | rcx
  | rdx
  | rsi
  | rdi
  | rbp
  | rsp
  | r8
  | r9
  | r10
  | r11
  | r12
  | r13
  | r14
  | r15
  deriving DecidableEq, Repr

/-- The registers, and the memory. -/
structure Cpu where
  regs : Reg → Word
  rip : Word
  rflags : Word
  cs : BitVec 16
  ss : BitVec 16
  mem : Memory

namespace Cpu

/-- Put a word into a register. -/
def set (s : Cpu) (r : Reg) (v : Word) : Cpu := { s with regs := Function.update s.regs r v }

/-- Put a word into memory. -/
def put (s : Cpu) (a v : Word) : Cpu := { s with mem := storeQ s.mem a v }

/-- Go on at an address. -/
def goto (s : Cpu) (a : Word) : Cpu := { s with rip := a }

/-- Push a word. -/
def push (s : Cpu) (v : Word) : Cpu :=
  (s.set .rsp (s.regs .rsp - 8)).put (s.regs .rsp - 8) v

/-- Push words one after the other. -/
def pushAll (s : Cpu) (vs : List Word) : Cpu := vs.foldl push s

/-- The word on top of the stack. -/
def top (s : Cpu) : Word := loadQ s.mem (s.regs .rsp)

/-- Take the word on top away. -/
def drop (s : Cpu) : Cpu := s.set .rsp (s.regs .rsp + 8)

end Cpu

/-- `rflags` after an addition or a subtraction, with its carries and its result. -/
def withStatus (flags : Word) (carry aux overflow : Bool) (result : Word) : Word :=
  let bit (b : Bool) (i : ℕ) : Word := if b then (1 : Word) <<< i else 0
  let evenParity := (List.range 8).countP (fun i ↦ result.getLsbD i) % 2 == 0
  (flags &&& ~~~(0x8D5 : Word)) ||| bit carry 0 ||| bit evenParity 2 ||| bit aux 4
    ||| bit (result == 0) 6 ||| bit result.msb 7 ||| bit overflow 11

/-- `rflags` after `a + b` -/
def addFlags (flags a b : Word) : Word :=
  withStatus flags (decide (a + b < a)) (decide (15 < (a &&& 15) + (b &&& 15)))
    (a.msb == b.msb && (a + b).msb != a.msb) (a + b)

/-- `rflags` after `a - b` -/
def subFlags (flags a b : Word) : Word :=
  withStatus flags (decide (a < b)) (decide (a &&& 15 < b &&& 15))
    (a.msb != b.msb && (a - b).msb != a.msb) (a - b)

/-- The direction flag -/
abbrev flagDF : Word := 0x400

/-- Arithmetic does not affect the direction flag. -/
theorem getLsbD_withStatus (flags : Word) (carry aux overflow : Bool) (result : Word) :
    (withStatus flags carry aux overflow result).getLsbD 10 = flags.getLsbD 10 := by
  have hbit : ∀ (b : Bool), ∀ i ∈ [0, 2, 4, 6, 7, 11],
      (if b then (1 : Word) <<< i else 0).getLsbD 10 = false := by decide
  simp only [withStatus, BitVec.getLsbD_or, BitVec.getLsbD_and]
  rw [hbit _ 0 (by decide), hbit _ 2 (by decide), hbit _ 4 (by decide), hbit _ 6 (by decide),
    hbit _ 7 (by decide), hbit _ 11 (by decide)]
  simp

/-- The instructions, with their operands in the order of the assembler. -/
inductive Instr
  | cld
  | lea (label : Word) (dst : Reg)
  | mov (src dst : Reg)
  | load (disp : Word) (base dst : Reg)
  | store (src : Reg) (disp : Word) (base : Reg)
  | storeImm (imm disp : Word) (base : Reg)
  | add (imm : Word) (dst : Reg)
  | sub (imm : Word) (dst : Reg)
  | pushImm (imm : Word)
  | push (src : Reg)
  | pop (dst : Reg)
  /-- Call the function at a label; the call lies right in front of `back`. -/
  | call (label back : Word)
  | jmp (label : Word)
  | jmpMem (disp : Word) (base : Reg)
  | ret
  | iretq
  deriving DecidableEq, Repr

/-- What an instruction does, where `effect` is what the functions at their labels do. -/
def exec (effect : Word → Cpu → Cpu) (s : Cpu) : Instr → Cpu
  | .cld => { s with rflags := s.rflags &&& ~~~flagDF }
  | .lea label dst => s.set dst label
  | .mov src dst => s.set dst (s.regs src)
  | .load disp base dst => s.set dst (loadQ s.mem (s.regs base + disp))
  | .store src disp base => s.put (s.regs base + disp) (s.regs src)
  | .storeImm imm disp base => s.put (s.regs base + disp) imm
  | .add imm dst =>
    { s.set dst (s.regs dst + imm) with rflags := addFlags s.rflags (s.regs dst) imm }
  | .sub imm dst =>
    { s.set dst (s.regs dst - imm) with rflags := subFlags s.rflags (s.regs dst) imm }
  | .pushImm imm => s.push imm
  | .push src => s.push (s.regs src)
  | .pop dst => s.drop.set dst s.top
  | .call label back => effect label ((s.push back).goto label)
  | .jmp label => s.goto label
  | .jmpMem disp base => s.goto (loadQ s.mem (s.regs base + disp))
  | .ret => s.drop.goto s.top
  | .iretq =>
    let word (i : ℕ) : Word := loadQ s.mem (s.regs .rsp + BitVec.ofNat 64 (8 * i))
    { s.set .rsp (word 3) with
      rip := word 0
      cs := (word 1).setWidth 16
      rflags := word 2
      ss := (word 4).setWidth 16 }

/-- A block of code. -/
abbrev Block : Type := List Instr

/-- What a block does. -/
def execBlock (effect : Word → Cpu → Cpu) (block : Block) (s : Cpu) : Cpu :=
  block.foldl (exec effect) s

/-- The blocks, by their labels. -/
abbrev Text : Type := Word → Option Block

/-- Execute `n` blocks, each the one at `rip`. -/
def execText (text : Text) (effect : Word → Cpu → Cpu) : ℕ → Cpu → Option Cpu
  | 0, s => some s
  | n + 1, s => (text s.rip).bind fun block ↦ execText text effect n (execBlock effect block s)

theorem execText_succ {text : Text} {effect : Word → Cpu → Cpu} {n : ℕ} {s : Cpu} {block : Block}
    (h : text s.rip = some block) :
    execText text effect (n + 1) s = execText text effect n (execBlock effect block s) := by
  rw [execText, h, Option.bind_some]

/-- An address, rounded down as the processor does with the stack at an interrupt. -/
def align16 (a : Word) : Word := a &&& ~~~(15 : Word)

/-- What the processor does at an interrupt: the stack is aligned, what was interrupted is saved on
it with the flags as given, and an error code if there is one. -/
def Cpu.interrupt (s : Cpu) (handler : Word) (selector : BitVec 16) (saved flags : Word)
    (error : Option Word) : Cpu :=
  { (s.set .rsp (align16 (s.regs .rsp))).pushAll
      ([s.ss.setWidth 64, s.regs .rsp, saved, s.cs.setWidth 64, s.rip] ++ error.toList) with
    rip := handler
    cs := selector
    rflags := flags }

/-! ## The stack -/

theorem getLsbD_15 : ∀ i < 64, (15 : Word).getLsbD i = decide (i < 4) := by decide

theorem toNat_align16 (a : Word) : (align16 a).toNat = a.toNat / 16 * 16 := by
  have hshift : align16 a = (a >>> 4) <<< 4 := by
    ext i hi
    have h15 := getLsbD_15 i hi
    rw [BitVec.getLsbD_eq_getElem hi] at h15
    rw [align16, BitVec.getElem_and, BitVec.getElem_not, h15, BitVec.getElem_shiftLeft]
    by_cases h : i < 4
    · simp [h]
    · simp [h, show 4 + (i - 4) = i by omega, BitVec.getLsbD_eq_getElem hi]
  have hlt := a.isLt
  rw [hshift, BitVec.toNat_shiftLeft, BitVec.toNat_ushiftRight, Nat.shiftRight_eq_div_pow,
    Nat.shiftLeft_eq, Nat.mod_eq_of_lt (by omega)]

namespace Cpu

variable {s t : Cpu} {ws : List Word} {p : Word}

/-- These words are on the stack, the top first. -/
def Stacked (s : Cpu) (ws : List Word) : Prop := WordsAt s.mem (s.regs .rsp) ws

/-- These words were pushed on a stack that began at `p` in the memory `m`, the last one first. -/
structure Pushed (p : Word) (m : Memory) (ws : List Word) (s : Cpu) : Prop where
  rsp : s.regs .rsp = p - BitVec.ofNat 64 (8 * ws.length)
  stacked : s.Stacked ws
  frame : ∀ x, 8 * ws.length ≤ (p - 1 - x).toNat → s.mem x = m x

theorem regs_set_self (s : Cpu) (r : Reg) (v : Word) : (s.set r v).regs r = v := by
  rw [set]
  exact Function.update_self (β := fun _ ↦ Word) r v s.regs

theorem regs_set_of_ne {q r : Reg} (h : q ≠ r) (s : Cpu) (v : Word) :
    (s.set r v).regs q = s.regs q := by
  rw [set]
  exact Function.update_of_ne (β := fun _ ↦ Word) h v s.regs

theorem regs_push (s : Cpu) (v : Word) :
    (s.push v).regs = Function.update s.regs .rsp (s.regs .rsp - 8) := rfl

theorem rsp_push (s : Cpu) (v : Word) : (s.push v).regs .rsp = s.regs .rsp - 8 := by
  rw [regs_push, Function.update_self]

theorem regs_push_of_ne {r : Reg} (hr : r ≠ .rsp) (s : Cpu) (v : Word) :
    (s.push v).regs r = s.regs r := by
  rw [regs_push, Function.update_of_ne hr]

theorem mem_push (s : Cpu) (v : Word) :
    (s.push v).mem = storeQ s.mem (s.regs .rsp - 8) v := rfl

theorem pushed_nil (s : Cpu) : Pushed (s.regs .rsp) s.mem [] s :=
  ⟨(BitVec.sub_zero _).symm, trivial, fun _ _ ↦ rfl⟩

theorem Pushed.push (h : Pushed p m ws s) (hlen : 8 * ws.length + 8 < 2 ^ 64) (v : Word) :
    Pushed p m (v :: ws) (s.push v) := by
  have hrsp := h.rsp
  refine ⟨?_, ⟨?_, ?_⟩, fun x hx ↦ ?_⟩
  · rw [rsp_push, hrsp, List.length_cons]
    bv_omega
  · rw [rsp_push, mem_push, loadQ_storeQ_self]
  · rw [rsp_push, mem_push, BitVec.sub_add_cancel]
    refine h.stacked.congr (by omega) fun x hx ↦ (storeQ_of_le ?_).symm
    bv_omega
  · rw [List.length_cons] at hx
    rw [mem_push, storeQ_of_le, h.frame x (by omega)]
    rw [hrsp]
    bv_omega

theorem Pushed.pushAll (h : Pushed p m ws s) (vs : List Word)
    (hlen : 8 * (ws.length + vs.length) < 2 ^ 64) :
    Pushed p m (vs.reverse ++ ws) (s.pushAll vs) := by
  induction vs generalizing s ws with
  | nil => exact h
  | cons v vs ih =>
    rw [List.length_cons] at hlen
    rw [List.reverse_cons, List.append_assoc]
    exact ih (h.push (by omega) v) (by rw [List.length_append, List.length_singleton]; omega)

/-- Words may as well be stored below the stack pointer when it has been moved. -/
theorem Pushed.store (h : Pushed p m ws s) {vs : List Word}
    (hlen : 8 * (ws.length + vs.length) < 2 ^ 64)
    (hrsp : t.regs .rsp = s.regs .rsp - BitVec.ofNat 64 (8 * vs.length))
    (hmem : t.mem = storeWords s.mem (t.regs .rsp) vs) : Pushed p m (vs ++ ws) t := by
  have hs := h.rsp
  have hrest : t.regs .rsp + BitVec.ofNat 64 (8 * vs.length) = s.regs .rsp := by
    rw [hrsp, BitVec.sub_add_cancel]
  refine ⟨?_, ?_, fun x hx ↦ ?_⟩
  · rw [hrsp, hs, List.length_append]
    bv_omega
  · rw [Stacked, wordsAt_append, hrest, hmem]
    refine ⟨wordsAt_storeWords (by omega), h.stacked.congr (by omega) fun x hx ↦ ?_⟩
    have hx' : 8 * vs.length ≤ (x - t.regs .rsp).toNat := by bv_omega
    rw [storeWords_of_le (by omega) hx']
  · rw [List.length_append] at hx
    have hx' : 8 * vs.length ≤ (x - t.regs .rsp).toNat := by bv_omega
    rw [hmem, storeWords_of_le (by omega) hx', h.frame x (by omega)]

theorem regs_pushAll_of_ne {r : Reg} (hr : r ≠ .rsp) (s : Cpu) (vs : List Word) :
    (s.pushAll vs).regs r = s.regs r := by
  induction vs generalizing s with
  | nil => rfl
  | cons v vs ih => exact (ih (s.push v)).trans (regs_push_of_ne hr s v)

theorem Stacked.top_eq (h : s.Stacked (w :: ws)) : s.top = w := h.1

theorem Stacked.drop (h : s.Stacked (w :: ws)) : s.drop.Stacked ws := by
  rw [Stacked, Cpu.drop, Cpu.set]
  dsimp only
  rw [Function.update_self]
  exact h.2

/-- Only memory and the stack pointer matter. -/
theorem Stacked.of_eq (h : s.Stacked ws) (hmem : t.mem = s.mem)
    (hrsp : t.regs .rsp = s.regs .rsp) : t.Stacked ws := by
  rw [Stacked, hmem, hrsp]
  exact h

theorem Pushed.of_eq (h : Pushed p m ws s) (hmem : t.mem = s.mem)
    (hrsp : t.regs .rsp = s.regs .rsp) : Pushed p m ws t :=
  ⟨hrsp.trans h.rsp, h.stacked.of_eq hmem hrsp, fun x hx ↦ hmem ▸ h.frame x hx⟩

theorem Pushed.set {r : Reg} (hr : r ≠ .rsp) (h : Pushed p m ws s) (v : Word) :
    Pushed p m ws (s.set r v) :=
  h.of_eq rfl (regs_set_of_ne hr.symm s v)

end Cpu

/-! ### Saving and restoring registers -/

section SaveRestore

open Cpu

variable {effect : Word → Cpu → Cpu} {s : Cpu} {p : Word} {ws : List Word}

theorem execBlock_append (l l' : Block) (s : Cpu) :
    execBlock effect (l ++ l') s = execBlock effect l' (execBlock effect l s) := List.foldl_append

/-- A sequence of `push` saves registers. -/
theorem execBlock_push (effect : Word → Cpu → Cpu) {rs : List Reg} (hrs : .rsp ∉ rs) (s : Cpu) :
    execBlock effect (rs.map .push) s = s.pushAll (rs.map s.regs) := by
  induction rs generalizing s with
  | nil => rfl
  | cons r rs ih =>
    rw [List.mem_cons, not_or] at hrs
    have hmap : rs.map (s.push (s.regs r)).regs = rs.map s.regs :=
      List.map_congr_left fun q hq ↦ regs_push_of_ne (by rintro rfl; exact hrs.2 hq) s _
    refine (ih hrs.2 (s.push (s.regs r))).trans ?_
    rw [hmap]
    rfl

/-- A sequence of `pop` restores them. -/
theorem execBlock_pop (effect : Word → Cpu → Cpu) (rs : List Reg) (hrs : .rsp ∉ rs)
    (hnodup : rs.Nodup) {g : Reg → Word} (h : s.Stacked (rs.map g ++ ws)) :
    (execBlock effect (rs.map .pop) s).Stacked ws ∧
      (∀ r ∈ rs, (execBlock effect (rs.map .pop) s).regs r = g r) ∧
      (∀ r, r ≠ .rsp → r ∉ rs → (execBlock effect (rs.map .pop) s).regs r = s.regs r) ∧
      (execBlock effect (rs.map .pop) s).mem = s.mem := by
  induction rs generalizing s with
  | nil => exact ⟨h, fun _ hr ↦ absurd hr List.not_mem_nil, fun _ _ _ ↦ rfl, rfl⟩
  | cons r rs ih =>
    rw [List.mem_cons, not_or] at hrs
    rw [List.nodup_cons] at hnodup
    have hset : ∀ q, q ≠ .rsp → q ≠ r → (s.drop.set r s.top).regs q = s.regs q := fun q h1 h2 ↦ by
      rw [Cpu.set, Cpu.drop, Cpu.set]
      dsimp only
      rw [Function.update_of_ne h2, Function.update_of_ne h1]
    have hstacked : (s.drop.set r s.top).Stacked (rs.map g ++ ws) :=
      h.drop.of_eq rfl (Function.update_of_ne hrs.1 ..)
    obtain ⟨h1, h2, h3, h4⟩ := ih hrs.2 hnodup.2 hstacked
    refine ⟨h1, fun q hq ↦ ?_, fun q hq hqr ↦ ?_, h4⟩
    · rcases List.mem_cons.1 hq with rfl | hq
      · rw [List.map_cons, execBlock, List.foldl_cons, ← execBlock,
          show exec effect s (.pop q) = s.drop.set q s.top from rfl,
          h3 q (Ne.symm hrs.1) hnodup.1, Cpu.set]
        dsimp only
        rw [Function.update_self]
        exact h.top_eq
      · exact h2 q hq
    · rw [List.mem_cons, not_or] at hqr
      exact (h3 q hq hqr.2).trans (hset q hq hqr.1)

end SaveRestore

/-! ## Functions -/

/-- The registers that a function has to give back as it found them, next to `rsp`. -/
def calleeSaved : List Reg := [.rbx, .rbp, .r12, .r13, .r14, .r15]

/-- A function that was entered in `s` returns in `t`: to its caller, with the caller's registers
and with the first `n` bytes on the caller's stack. -/
structure Returns (n : ℕ) (s t : Cpu) : Prop where
  rip : t.rip = s.top
  rsp : t.regs .rsp = s.regs .rsp + 8
  saved : ∀ r ∈ calleeSaved, t.regs r = s.regs r
  frame : ∀ x, (x - (s.regs .rsp + 8)).toNat < n → t.mem x = s.mem x

/-- The caller's stack. -/
theorem Returns.stacked {n : ℕ} {s t : Cpu} {ws : List Word} (h : Returns n s t)
    (hs : s.Stacked (w :: ws)) (hlen : 8 * ws.length ≤ n) (hn : n ≤ 2 ^ 64) : t.Stacked ws := by
  rw [Cpu.Stacked, h.rsp]
  exact hs.2.congr (by omega) fun x hx ↦ (h.frame x (by omega)).symm

end Assembly
