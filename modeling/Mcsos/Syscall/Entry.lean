import Mcsos.Arch.Interrupt
import Mcsos.Syscall.Dispatch

/-!
# The way into a system call and back

The model of `syscall_entry.S`.  The kernel makes `x86_64_syscall_int80_stub` the handler of
interrupt `0x80`.  The stub builds a `mcsos_syscall_frame_t` on the stack from the registers, has
`mcsos_syscall_dispatch_frame` work on it, and returns to what was interrupted with the result in
`rax`.

Unlike the stubs of `isr.S`, this one gives back no register, and it calls a function with the stack
aligned in a way in which the ABI does not allow to.
-/

set_option autoImplicit false

namespace Mcsos
namespace Syscall

open Assembly Arch Cpu Program

/-! ## The code -/

/-- Where the code of `syscall_entry.S` lies, and what it calls. -/
structure EntryLabels where
  /-- `x86_64_syscall_int80_stub` -/
  stub : Word
  /-- `mcsos_syscall_dispatch_frame` -/
  dispatchFrame : Word
  /-- The instruction after the call -/
  back : Word

/-- The stores of the stub. -/
def stubStores : Block :=
  [.store .rax 0 .rsp, .store .rdi 8 .rsp, .store .rsi 16 .rsp, .store .rdx 24 .rsp,
    .store .r10 32 .rsp, .store .r8 40 .rsp, .store .r9 48 .rsp, .storeImm 0 56 .rsp]

/-- `x86_64_syscall_int80_stub` up to its call -/
def stubPrologue : Block := [.cld, .sub 64 .rsp] ++ stubStores ++ [.mov .rsp .rdi]

/-- `x86_64_syscall_int80_stub` after its call -/
def stubEpilogue : Block := [.load 56 .rsp .rax, .add 64 .rsp, .iretq]

/-- `x86_64_syscall_int80_stub` -/
def int80Stub (l : EntryLabels) : Block :=
  stubPrologue ++ [.call l.dispatchFrame l.back] ++ stubEpilogue

/-- The code of `syscall_entry.S`. -/
def entryText (l : EntryLabels) : Text := fun a ↦ if a = l.stub then some (int80Stub l) else none

/-- The `mcsos_syscall_frame_t` at an address. -/
def frameAt (m : Assembly.Memory) (p : Word) : Frame where
  nr := .ofBitVec (loadQ m p)
  args :=
    { arg0 := .ofBitVec (loadQ m (p + 8))
      arg1 := .ofBitVec (loadQ m (p + 16))
      arg2 := .ofBitVec (loadQ m (p + 24))
      arg3 := .ofBitVec (loadQ m (p + 32))
      arg4 := .ofBitVec (loadQ m (p + 40))
      arg5 := .ofBitVec (loadQ m (p + 48)) }
  ret := .ofBitVec (loadQ m (p + 56))

/-! ## What ought to happen -/

/-- The number of the system call that a processor makes. -/
def numberOf (c : Cpu) : UInt64 := .ofBitVec (c.regs .rax)

/-- The arguments of the system call that a processor makes. -/
def argsOf (c : Cpu) : Args where
  arg0 := .ofBitVec (c.regs .rdi)
  arg1 := .ofBitVec (c.regs .rsi)
  arg2 := .ofBitVec (c.regs .rdx)
  arg3 := .ofBitVec (c.regs .r10)
  arg4 := .ofBitVec (c.regs .r8)
  arg5 := .ofBitVec (c.regs .r9)

/-- How `mcsos_syscall_dispatch_frame` is entered: with a pointer to a frame that lies right above
the return address, with the direction flag clear, but with the stack half a unit off. -/
structure FrameEntered (c s : Cpu) : Prop where
  pointer : s.regs .rdi = s.regs .rsp + 8
  frame : frameAt s.mem (s.regs .rdi) = { nr := numberOf c, args := argsOf c, ret := 0 }
  direction : s.rflags.getLsbD 10 = false
  misaligned : (s.regs .rsp + 8).toNat % 16 = 8

variable {K : Type}

/-- What `mcsos_syscall_dispatch_frame` does when it is entered in `s` and returns in `t`: the frame
changes as it should, and what lies beyond it on the stack is left alone. -/
structure Serves (k k' : State K) (s t : Cpu) : Prop where
  returns : Returns 0 s t
  served : syscallDispatchFrame (some (frameAt s.mem (s.regs .rdi))) k
    = .ok (some (frameAt t.mem (s.regs .rdi))) k'
  beyond : ∀ x, (x - (s.regs .rdi + 64)).toNat < 40 → t.mem x = s.mem x

/-! ## Up to the call -/

variable {l : EntryLabels} {c t : Cpu} {saved : Word}

/-- The words of the frame. -/
def frameWords (c : Cpu) : List Word :=
  [c.regs .rax, c.regs .rdi, c.regs .rsi, c.regs .rdx, c.regs .r10, c.regs .r8, c.regs .r9, 0]

theorem frameAt_of_wordsAt {m : Assembly.Memory} {p : Word} (h : WordsAt m p (frameWords c)) :
    frameAt m p = { nr := numberOf c, args := argsOf c, ret := 0 } := by
  obtain ⟨h0, h1, h2, h3, h4, h5, h6, h7, -⟩ := h
  simp only [BitVec.add_assoc, BitVec.reduceAdd, BitVec.ofNat_eq_ofNat] at h1 h2 h3 h4 h5 h6 h7
  simp only [frameAt, numberOf, argsOf, BitVec.ofNat_eq_ofNat, h0, h1, h2, h3, h4, h5, h6, h7]
  rfl

/-- The state in which `mcsos_syscall_dispatch_frame` is entered. -/
def frameEntry (l : EntryLabels) (effect : Word → Cpu → Cpu) (t : Cpu) : Cpu :=
  ((execBlock effect stubPrologue t).push l.back).goto l.dispatchFrame

theorem execBlock_stubStores (effect : Word → Cpu → Cpu) (t : Cpu) :
    execBlock effect stubStores t
      = { t with mem := storeWords t.mem (t.regs .rsp) (frameWords t) } := by
  simp [execBlock, stubStores, exec, Cpu.put, storeWords, frameWords, BitVec.add_assoc]

/-- The stack with the frame on it. -/
def withFrame (c t : Cpu) : Cpu :=
  { t.set .rsp (t.regs .rsp - 64) with
    rflags := subFlags (t.rflags &&& ~~~flagDF) (t.regs .rsp) 64
    mem := storeWords t.mem (t.regs .rsp - 64) (frameWords c) }

theorem execBlock_stubPrologue (effect : Word → Cpu → Cpu)
    (hregs : ∀ r, r ≠ .rsp → t.regs r = c.regs r) :
    execBlock effect stubPrologue t = (withFrame c t).set .rdi (t.regs .rsp - 64) := by
  have hmoved : ∀ r, r ≠ .rsp → (execBlock effect [.cld, .sub 64 .rsp] t).regs r = c.regs r :=
    fun r hr ↦ (regs_set_of_ne hr t (t.regs .rsp - 64)).trans (hregs r hr)
  have hrsp : (execBlock effect [.cld, .sub 64 .rsp] t).regs .rsp = t.regs .rsp - 64 :=
    regs_set_self t .rsp _
  have hwords : frameWords (execBlock effect [.cld, .sub 64 .rsp] t) = frameWords c := by
    simp only [frameWords, hmoved, ne_eq, reduceCtorEq, not_false_eq_true]
  rw [stubPrologue, execBlock_append, execBlock_append, execBlock_stubStores, hwords, hrsp]
  show Cpu.set _ .rdi _ = _
  rw [hrsp]
  rfl

/-- What holds when `mcsos_syscall_dispatch_frame` is entered. -/
structure FramePushed (l : EntryLabels) (c : Cpu) (saved : Word) (s : Cpu) : Prop where
  pushed : Pushed (align16 (c.regs .rsp)) c.mem
    (l.back :: (frameWords c ++ interrupted c saved)) s
  pointer : s.regs .rdi = s.regs .rsp + 8
  direction : s.rflags.getLsbD 10 = false
  saved : ∀ r ∈ calleeSaved, s.regs r = c.regs r

theorem framePushed (effect : Word → Cpu → Cpu)
    (h : Pushed (align16 (c.regs .rsp)) c.mem (interrupted c saved) t)
    (hregs : ∀ r, r ≠ .rsp → t.regs r = c.regs r) :
    FramePushed l c saved (frameEntry l effect t) := by
  have hrsp : (withFrame c t).regs .rsp = t.regs .rsp - 64 := regs_set_self t .rsp _
  have hpushed : Pushed (align16 (c.regs .rsp)) c.mem (frameWords c ++ interrupted c saved)
      (withFrame c t) :=
    h.store (by simp [interrupted, frameWords]) hrsp (by rw [hrsp]; rfl)
  have hset := hpushed.set (r := .rdi) (by decide) (t.regs .rsp - 64)
  rw [frameEntry, execBlock_stubPrologue effect hregs]
  refine ⟨(hset.push (by simp [interrupted, frameWords]) l.back).of_eq rfl rfl, ?_, ?_,
    fun r hr ↦ ?_⟩
  · rw [Cpu.goto, rsp_push, regs_push_of_ne (by decide), BitVec.sub_add_cancel, regs_set_self,
      regs_set_of_ne (by decide), hrsp]
  · show (subFlags (t.rflags &&& ~~~flagDF) (t.regs .rsp) 64).getLsbD 10 = false
    rw [subFlags, getLsbD_withStatus, BitVec.getLsbD_and]
    simp [flagDF]
  · have hne : r ≠ .rsp ∧ r ≠ .rdi := by
      revert r
      decide
    rw [Cpu.goto, regs_push_of_ne hne.1, regs_set_of_ne hne.2]
    exact (regs_set_of_ne hne.1 t _).trans (hregs r hne.1)

theorem FramePushed.entered {s : Cpu} (h : FramePushed l c saved s) : FrameEntered c s := by
  have halign := toNat_align16 (c.regs .rsp)
  have hrsp := h.pushed.rsp
  have hlen : 8 * (l.back :: (frameWords c ++ interrupted c saved)).length = 112 := rfl
  refine ⟨h.pointer, ?_, h.direction, ?_⟩
  · rw [h.pointer]
    exact frameAt_of_wordsAt (wordsAt_append.1 h.pushed.stacked.2).1
  · rw [hrsp, hlen]
    bv_omega

/-! ## After the call -/

theorem execBlock_epilogue (effect : Word → Cpu → Cpu)
    (h : WordsAt t.mem (t.regs .rsp + 64) (interrupted c saved)) :
    Resumed c saved (execBlock effect stubEpilogue t) ∧
      (execBlock effect stubEpilogue t).regs .rax = loadQ t.mem (t.regs .rsp + 56) ∧
      ∀ r, r ≠ .rsp → r ≠ .rax → (execBlock effect stubEpilogue t).regs r = t.regs r := by
  have hload : (exec effect t (.load 56 .rsp .rax)).regs .rsp = t.regs .rsp :=
    regs_set_of_ne (by decide) t _
  have hrsp : (exec effect (exec effect t (.load 56 .rsp .rax)) (.add 64 .rsp)).regs .rsp
      = t.regs .rsp + 64 :=
    (regs_set_self (exec effect t (.load 56 .rsp .rax)) .rsp _).trans (congrArg (· + 64) hload)
  have hregs : ∀ r, r ≠ .rsp → (exec effect (exec effect t (.load 56 .rsp .rax))
      (.add 64 .rsp)).regs r = (exec effect t (.load 56 .rsp .rax)).regs r :=
    fun r hr ↦ regs_set_of_ne hr _ _
  have hstacked : (exec effect (exec effect t (.load 56 .rsp .rax)) (.add 64 .rsp)).Stacked
      (interrupted c saved) := by
    rw [Stacked, hrsp]
    exact h
  obtain ⟨hresumed, -, hkept⟩ := exec_iretq effect hstacked
  refine ⟨hresumed, ?_, fun r hr hrax ↦ ?_⟩
  · exact (hkept .rax (by decide)).trans ((hregs .rax (by decide)).trans (regs_set_self t .rax _))
  · exact (hkept r hr).trans ((hregs r hr).trans (regs_set_of_ne hrax t _))

/-- The result that the dispatcher has left in the frame. -/
def resultAt (s t : Cpu) : Int64 := (frameAt t.mem (s.regs .rdi)).ret

theorem FramePushed.execBlock_stubEpilogue {effect : Word → Cpu → Cpu} {k k' : State K} {s : Cpu}
    (h : FramePushed l c saved s) (hserve : Serves k k' s t) :
    Resumed c saved (execBlock effect stubEpilogue t) ∧
      (execBlock effect stubEpilogue t).regs .rax = (resultAt s t).toBitVec ∧
      ∀ r ∈ calleeSaved, (execBlock effect stubEpilogue t).regs r = c.regs r := by
  obtain ⟨-, hrsp, hsaved, -⟩ := hserve.returns
  rw [← h.pointer] at hrsp
  have hwords : WordsAt t.mem (t.regs .rsp + 64) (interrupted c saved) := by
    rw [hrsp]
    refine WordsAt.congr ?_ (by simp [interrupted]) fun x hx ↦ (hserve.beyond x hx).symm
    rw [h.pointer]
    exact (wordsAt_append.1 h.pushed.stacked.2).2
  obtain ⟨hresumed, hrax, hregs⟩ := execBlock_epilogue effect hwords
  refine ⟨hresumed, ?_, fun r hr ↦ ?_⟩
  · rw [hrax, hrsp]
    rfl
  · have hne : r ≠ .rsp ∧ r ≠ .rax := by
      revert r
      decide
    rw [hregs r hne.1 hne.2, hsaved r hr, h.saved r hr]

theorem dispatch_of_dispatchFrame {frame frame' : Frame} {k k' : State K}
    (h : syscallDispatchFrame (some frame) k = .ok (some frame') k') :
    syscallDispatch frame.nr frame.args k = .ok frame'.ret k' := by
  rw [syscallDispatchFrame, Option.elim_some] at h
  cases hd : syscallDispatch frame.nr frame.args k with
  | ok ret k'' =>
    rw [bind_of_ok hd] at h
    cases h
    rfl
  | error e k'' =>
    rw [bind_of_error hd] at h
    cases h

/-! ## The whole way -/

theorem deliver_idtSetGate (idt : Idt) (vector : UInt8) (handler saved : Word) (c : Cpu) :
    ∃ flags, deliver (idtSetGate vector handler idtGateInterrupt idt) vector saved none c
      = some (c.interrupt handler kernelCodeSelector saved flags none) := by
  have hgate : idtSetGate vector handler idtGateInterrupt idt vector
      = gate handler idtGateInterrupt := Function.update_self vector _ idt
  have hdeliver := deliver_of_present hgate (present_gate handler idtGateInterrupt) saved none c
  rw [offset_gate] at hdeliver
  exact ⟨_, hdeliver⟩

/-- **A system call from `int 0x80` to its result.**  The call that the dispatcher sees is the one
in the registers, whatever was on the stack; its result is in `rax` when the calling code goes on
behind its `int`, with its stack, its flags and the registers a function has to preserve.  Nothing
is said of the other registers. -/
theorem int80_returns_result (l : EntryLabels) (idt : Idt) (effect : Word → Cpu → Cpu)
    {k : State K} {c : Cpu}
    (hserve : ∀ s, FrameEntered c s → ∃ k', Serves k k' s (effect l.dispatchFrame s))
    (saved : Word) :
    ∃ t u ret k',
      deliver (idtSetGate 0x80 l.stub idtGateInterrupt idt) 0x80 saved none c = some t ∧
      execText (entryText l) effect 1 t = some u ∧
      syscallDispatch (numberOf c) (argsOf c) k = .ok ret k' ∧
      u.regs .rax = ret.toBitVec ∧ Resumed c saved u ∧
      ∀ r ∈ calleeSaved, u.regs r = c.regs r := by
  obtain ⟨flags, hdeliver⟩ := deliver_idtSetGate idt 0x80 l.stub saved c
  have hentry : FramePushed l c saved (frameEntry l effect _) := framePushed effect
    (pushed_interrupt c l.stub kernelCodeSelector saved flags none)
    fun r hr ↦ regs_interrupt c _ _ _ _ _ hr
  have hrun : execText (entryText l) effect 1
      (c.interrupt l.stub kernelCodeSelector saved flags none)
      = some (execBlock effect stubEpilogue (effect l.dispatchFrame (frameEntry l effect
        (c.interrupt l.stub kernelCodeSelector saved flags none)))) := by
    rw [execText_succ (if_pos rfl), int80Stub, execBlock_append, execBlock_append]
    rfl
  obtain ⟨k', hserve⟩ := hserve _ hentry.entered
  obtain ⟨hresumed, hrax, hregs⟩ := hentry.execBlock_stubEpilogue hserve
  refine ⟨_, _, _, k', hdeliver, hrun, ?_, hrax, hresumed, hregs⟩
  have hserved := hserve.served
  rw [hentry.entered.frame] at hserved
  exact dispatch_of_dispatchFrame hserved

/-- A dispatcher that knows of one call only, which is `sys_ping`. -/
def pingDispatcher (s : Cpu) : Cpu :=
  (s.put (s.regs .rdi + 56) 0x2605020A).drop.goto s.top

theorem frameAt_pingDispatcher (s : Cpu) : frameAt (pingDispatcher s).mem (s.regs .rdi)
    = { frameAt s.mem (s.regs .rdi) with ret := 0x2605020A } := by
  have hword : ∀ d : Word, d.toNat ≤ 48 →
      loadQ (pingDispatcher s).mem (s.regs .rdi + d) = loadQ s.mem (s.regs .rdi + d) := fun d hd ↦
    loadQ_congr fun x hx ↦ storeQ_of_le (by bv_omega)
  have h0 : loadQ (pingDispatcher s).mem (s.regs .rdi) = loadQ s.mem (s.regs .rdi) := by
    simpa using hword 0 (by decide)
  have hret : loadQ (pingDispatcher s).mem (s.regs .rdi + 56) = 0x2605020A :=
    loadQ_storeQ_self _ _ _
  rw [frameAt, h0, hword 8 (by decide), hword 16 (by decide), hword 24 (by decide),
    hword 32 (by decide), hword 40 (by decide), hword 48 (by decide), hret]
  rfl

theorem serves_pingDispatcher {k : State K} {s : Cpu} (h : FrameEntered c s)
    (hnumber : numberOf c = 0) : Serves k k s (pingDispatcher s) := by
  have hpointer := h.pointer
  have hmem : ∀ x, 8 ≤ (x - (s.regs .rdi + 56)).toNat → (pingDispatcher s).mem x = s.mem x :=
    fun x hx ↦ storeQ_of_le hx
  have hret := returns_ret 0 (s.put (s.regs .rdi + 56) 0x2605020A)
  refine ⟨⟨rfl, hret.rsp, hret.saved, fun x hx ↦ absurd hx (Nat.not_lt_zero _)⟩, ?_,
    fun x hx ↦ hmem x (by bv_omega)⟩
  rw [frameAt_pingDispatcher, h.frame, hnumber]
  rfl

/-- The code that makes the call. -/
def pingCaller : Cpu := { someCpu with regs := fun r ↦ if r = .rax then 0 else 0x8008 }

/-- A kernel in which nothing is registered. -/
def bareKernel : State Unit :=
  syscallInit none ⟨⟨none, none, none, none⟩, ⟨0, 0⟩, (), []⟩

theorem int80_returns_result_ping : ∃ t u ret k',
    deliver (idtSetGate 0x80 0x1000 idtGateInterrupt fun _ ↦ gate 0 0) 0x80 0x202 none pingCaller
      = some t ∧
    execText (entryText ⟨0x1000, 0x2000, 0x1040⟩) (fun _ ↦ pingDispatcher) 1 t = some u ∧
    syscallDispatch (numberOf pingCaller) (argsOf pingCaller) bareKernel = .ok ret k' ∧
    u.regs .rax = ret.toBitVec ∧ Resumed pingCaller 0x202 u ∧
    ∀ r ∈ calleeSaved, u.regs r = pingCaller.regs r :=
  int80_returns_result ⟨0x1000, 0x2000, 0x1040⟩ (fun _ ↦ gate 0 0) (fun _ ↦ pingDispatcher)
    (fun _ hs ↦ ⟨bareKernel, serves_pingDispatcher hs rfl⟩) 0x202

end Syscall
end Mcsos
