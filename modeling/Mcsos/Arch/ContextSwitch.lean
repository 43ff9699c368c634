import Mcsos.Sched.Switching

/-!
# Switching registers

The model of `context_switch.S`.  `mcsos_context_switch` is entered by the thread that goes and left
by the one that comes: it stores the registers that a function has to preserve in the first context,
together with the address of its own last instruction, and loads those of the second.  The thread
that goes is back when somebody switches to it, and then returns from its call.

The code does what the scheduler expects of it (`contextSwitch_simulates`), and it looks like a
function to its callers (`contextSwitch_returns`).
-/

set_option autoImplicit false

namespace Mcsos
namespace Arch

open Assembly Sched

/-! ## The code -/

/-- `mcsos_context_switch` up to its jump, where `resume` is the address of the label `1` -/
def contextSwitch (resume : Word) : Block :=
  [.lea resume .rax,
    .store .rsp 0 .rdi,
    .store .rbp 8 .rdi,
    .store .rbx 16 .rdi,
    .store .r12 24 .rdi,
    .store .r13 32 .rdi,
    .store .r14 40 .rdi,
    .store .r15 48 .rdi,
    .store .rax 56 .rdi,
    .load 0 .rsi .rsp,
    .load 8 .rsi .rbp,
    .load 16 .rsi .rbx,
    .load 24 .rsi .r12,
    .load 32 .rsi .r13,
    .load 40 .rsi .r14,
    .load 48 .rsi .r15,
    .jmpMem 56 .rsi]

/-- `mcsos_context_switch` from the label `1` on -/
def contextSwitchResumed : Block := [.ret]

/-- Where the two parts of `mcsos_context_switch` lie. -/
structure SwitchLabels where
  entry : Word
  resume : Word
  ne : entry ≠ resume

/-- The code of `context_switch.S`. -/
def switchText (l : SwitchLabels) : Text := fun a ↦
  if a = l.entry then some (contextSwitch l.resume)
  else if a = l.resume then some contextSwitchResumed
  else none

/-! ## Contexts in memory -/

/-- The `mcsos_context_t` at an address. -/
def contextAt (m : Memory) (p : Word) : Context where
  rsp := .ofBitVec (loadQ m p)
  rbp := .ofBitVec (loadQ m (p + 8))
  rbx := .ofBitVec (loadQ m (p + 16))
  r12 := .ofBitVec (loadQ m (p + 24))
  r13 := .ofBitVec (loadQ m (p + 32))
  r14 := .ofBitVec (loadQ m (p + 40))
  r15 := .ofBitVec (loadQ m (p + 48))
  rip := .ofBitVec (loadQ m (p + 56))

/-- The registers of the processor that a context has, and an address to go on at. -/
def contextOf (s : Cpu) (rip : Word) : Context where
  rsp := .ofBitVec (s.regs .rsp)
  rbp := .ofBitVec (s.regs .rbp)
  rbx := .ofBitVec (s.regs .rbx)
  r12 := .ofBitVec (s.regs .r12)
  r13 := .ofBitVec (s.regs .r13)
  r14 := .ofBitVec (s.regs .r14)
  r15 := .ofBitVec (s.regs .r15)
  rip := .ofBitVec rip

/-- Contexts that have no byte in common. -/
def Separate (p q : Word) : Prop := 64 ≤ (p - q).toNat ∧ 64 ≤ (q - p).toNat

instance (p q : Word) : Decidable (Separate p q) := inferInstanceAs (Decidable (_ ∧ _))

theorem Separate.symm {p q : Word} (h : Separate p q) : Separate q p := ⟨h.2, h.1⟩

theorem contextAt_congr {m m' : Memory} {p : Word} (h : ∀ x, (x - p).toNat < 64 → m x = m' x) :
    contextAt m p = contextAt m' p := by
  have hword : ∀ d : Word, d.toNat ≤ 56 → loadQ m (p + d) = loadQ m' (p + d) := fun d hd ↦
    loadQ_congr fun x hx ↦ h x (by bv_omega)
  have h0 : loadQ m p = loadQ m' p := loadQ_congr fun x hx ↦ h x (by omega)
  rw [contextAt, contextAt, h0, hword 8 (by decide), hword 16 (by decide), hword 24 (by decide),
    hword 32 (by decide), hword 40 (by decide), hword 48 (by decide), hword 56 (by decide)]

/-- What `mcsos_context_switch` stores. -/
def savedWords (s : Cpu) (resume : Word) : List Word :=
  [s.regs .rsp, s.regs .rbp, s.regs .rbx, s.regs .r12, s.regs .r13, s.regs .r14, s.regs .r15,
    resume]

theorem contextAt_storeWords (s : Cpu) (m : Memory) (p resume : Word) :
    contextAt (storeWords m p (savedWords s resume)) p = contextOf s resume := by
  have hwords : WordsAt (storeWords m p (savedWords s resume)) p (savedWords s resume) :=
    wordsAt_storeWords (by simp [savedWords])
  obtain ⟨h0, h1, h2, h3, h4, h5, h6, h7, -⟩ := hwords
  simp only [BitVec.add_assoc, BitVec.reduceAdd, BitVec.ofNat_eq_ofNat] at h1 h2 h3 h4 h5 h6 h7
  simp only [contextAt, contextOf, BitVec.ofNat_eq_ofNat, h0, h1, h2, h3, h4, h5, h6, h7]

/-! ## The switch -/

variable {l : SwitchLabels} {s : Cpu}

theorem switchText_entry (h : s.rip = l.entry) :
    switchText l s.rip = some (contextSwitch l.resume) := if_pos h

theorem switchText_resume (h : s.rip = l.resume) :
    switchText l s.rip = some contextSwitchResumed := by
  rw [switchText, if_neg (h ▸ l.ne.symm), if_pos h]

/-- What `mcsos_context_switch` leaves when it jumps. -/
structure Switched (s t : Cpu) (resume : Word) : Prop where
  saved : contextAt t.mem (s.regs .rdi) = contextOf s resume
  loaded : contextOf t t.rip = contextAt s.mem (s.regs .rsi)
  frame : ∀ x, 64 ≤ (x - s.regs .rdi).toNat → t.mem x = s.mem x

theorem execBlock_contextSwitch (l : SwitchLabels) (effect : Word → Cpu → Cpu)
    (h : Separate (s.regs .rdi) (s.regs .rsi)) :
    Switched s (execBlock effect (contextSwitch l.resume) s) l.resume := by
  have hmem : (execBlock effect (contextSwitch l.resume) s).mem
      = storeWords s.mem (s.regs .rdi) (savedWords s l.resume) := by
    simp [execBlock, contextSwitch, exec, Cpu.set, Cpu.put, Cpu.goto, storeWords, savedWords,
      BitVec.add_assoc]
  have hcontext : contextOf (execBlock effect (contextSwitch l.resume) s)
      (execBlock effect (contextSwitch l.resume) s).rip
      = contextAt (execBlock effect (contextSwitch l.resume) s).mem (s.regs .rsi) := by
    simp [execBlock, contextSwitch, exec, Cpu.set, Cpu.put, Cpu.goto, contextOf, contextAt]
  have hframe : ∀ x, 64 ≤ (x - s.regs .rdi).toNat →
      (execBlock effect (contextSwitch l.resume) s).mem x = s.mem x := fun x hx ↦ by
    rw [hmem, storeWords_of_le (by simp [savedWords]) (by simpa [savedWords] using hx)]
  refine ⟨?_, ?_, hframe⟩
  · rw [hmem, contextAt_storeWords]
  · rw [hcontext]
    obtain ⟨h1, h2⟩ := h
    exact contextAt_congr fun x hx ↦ hframe x (by bv_omega)

/-- The last instruction, for a thread whose context was loaded. -/
theorem execBlock_resumed (effect : Word → Cpu → Cpu) {n : ℕ} {t : Cpu} (hn : n + 8 ≤ 2 ^ 64)
    (hcontext : contextOf t t.rip = contextOf s l.resume)
    (hstack : ∀ x, (x - s.regs .rsp).toNat < n + 8 → t.mem x = s.mem x) :
    Returns n s (execBlock effect contextSwitchResumed t) := by
  have hreg : ∀ {v w : Word}, UInt64.ofBitVec v = .ofBitVec w → v = w := congrArg UInt64.toBitVec
  have hrsp : t.regs .rsp = s.regs .rsp := hreg (congrArg Context.rsp hcontext)
  have hrun : execBlock effect contextSwitchResumed t = t.drop.goto t.top := rfl
  rw [hrun]
  refine ⟨?_, ?_, fun r hr ↦ ?_, fun x hx ↦ hstack x (by bv_omega)⟩
  · show loadQ t.mem (t.regs .rsp) = loadQ s.mem (s.regs .rsp)
    rw [hrsp]
    exact loadQ_congr fun x hx ↦ hstack x (by omega)
  · show Function.update t.regs .rsp (t.regs .rsp + 8) .rsp = s.regs .rsp + 8
    rw [Function.update_self, hrsp]
  · have hne : r ≠ .rsp := by rintro rfl; revert hr; decide
    show Function.update t.regs .rsp (t.regs .rsp + 8) r = s.regs r
    rw [Function.update_of_ne hne]
    -- the context has every register that is to be preserved
    simp only [calleeSaved, List.mem_cons, List.not_mem_nil, or_false] at hr
    rcases hr with rfl | rfl | rfl | rfl | rfl | rfl
    · exact hreg (congrArg Context.rbx hcontext)
    · exact hreg (congrArg Context.rbp hcontext)
    · exact hreg (congrArg Context.r12 hcontext)
    · exact hreg (congrArg Context.r13 hcontext)
    · exact hreg (congrArg Context.r14 hcontext)
    · exact hreg (congrArg Context.r15 hcontext)

/-- A call that switches to the thread that `s` has left, when its context and its stack are as the
thread has left them. -/
structure ComesBack (l : SwitchLabels) (n : ℕ) (s s' t : Cpu) : Prop where
  rip : t.rip = l.entry
  rsi : t.regs .rsi = s.regs .rdi
  separate : Separate (t.regs .rdi) (t.regs .rsi)
  context : contextAt t.mem (s.regs .rdi) = contextAt s'.mem (s.regs .rdi)
  stack : ∀ x, (x - s.regs .rsp).toNat < n + 8 → t.mem x = s.mem x
  apart : ∀ x, (x - s.regs .rsp).toNat < n + 8 → 64 ≤ (x - t.regs .rdi).toNat

/-- **To the thread that calls it, `mcsos_context_switch` is a function like any other.**  The call
goes on with the registers of the other context; and when somebody switches back, it returns to its
caller, with the registers and the stack that a function has to preserve. -/
theorem contextSwitch_returns (l : SwitchLabels) (effect : Word → Cpu → Cpu) {n : ℕ}
    (hn : n + 8 ≤ 2 ^ 64) {s : Cpu} (hrip : s.rip = l.entry)
    (hsep : Separate (s.regs .rdi) (s.regs .rsi)) :
    ∃ s', execText (switchText l) effect 1 s = some s' ∧
      contextOf s' s'.rip = contextAt s.mem (s.regs .rsi) ∧
      ∀ t, ComesBack l n s s' t →
        ∃ u, execText (switchText l) effect 2 t = some u ∧ Returns n s u := by
  have hs := execBlock_contextSwitch l effect hsep
  refine ⟨_, execText_succ (switchText_entry hrip), hs.loaded, fun t ht ↦ ?_⟩
  have hloaded := execBlock_contextSwitch l effect ht.separate
  have hcontext := hloaded.loaded.trans (by rw [ht.rsi, ht.context, hs.saved])
  have hresume : (execBlock effect (contextSwitch l.resume) t).rip = l.resume :=
    congrArg UInt64.toBitVec (congrArg Context.rip hcontext)
  refine ⟨_, ?_, execBlock_resumed effect hn hcontext fun x hx ↦ ?_⟩
  · rw [execText_succ (switchText_entry ht.rip), execText_succ (switchText_resume hresume)]
    rfl
  · rw [hloaded.frame x (ht.apart x hx), ht.stack x hx]

/-! ### Two threads -/

theorem someLabels_ne : (0x100 : Word) ≠ 0x140 := by decide

/-- Some place for the code. -/
def someLabels : SwitchLabels := ⟨0x100, 0x140, someLabels_ne⟩

/-- A thread that calls `mcsos_context_switch`. -/
def caller (old next : Word) (m : Memory) : Cpu where
  regs := fun r ↦ if r = .rdi then old else if r = .rsi then next else 0x8000
  rip := 0x100
  rflags := 2
  cs := 0x28
  ss := 0x30
  mem := m

/-- One thread goes, and the other one switches back at once. -/
theorem contextSwitch_returns_at_once : ∃ s' u,
    execText (switchText someLabels) (fun _ s ↦ s) 1 (caller 0x1000 0x2000 fun _ ↦ 7) = some s' ∧
    execText (switchText someLabels) (fun _ s ↦ s) 2 (caller 0x2000 0x1000 s'.mem) = some u ∧
    Returns 16 (caller 0x1000 0x2000 fun _ ↦ 7) u := by
  have hrdi : ∀ p q m, (caller p q m).regs .rdi = p := fun _ _ _ ↦ rfl
  have hrsp : ∀ p q m, (caller p q m).regs .rsp = 0x8000 := fun _ _ _ ↦ rfl
  have hsep : Separate 0x1000 0x2000 := by decide
  have hframe := (execBlock_contextSwitch (s := caller 0x1000 0x2000 fun _ ↦ 7) someLabels
    (fun _ s ↦ s) hsep).frame
  obtain ⟨s', hrun, -, hback⟩ := contextSwitch_returns someLabels (fun _ s ↦ s) (n := 16)
    (by decide) (s := caller 0x1000 0x2000 fun _ ↦ 7) rfl hsep
  have hs' := Option.some.inj ((execText_succ (switchText_entry rfl)).symm.trans hrun)
  rw [hs'] at hframe
  have hcomes : ComesBack someLabels 16 (caller 0x1000 0x2000 fun _ ↦ 7) s'
      (caller 0x2000 0x1000 s'.mem) := by
    refine ⟨rfl, rfl, hsep.symm, rfl, fun x hx ↦ hframe x ?_, fun x hx ↦ ?_⟩
    · rw [hrsp] at hx
      rw [hrdi]
      bv_omega
    · rw [hrsp] at hx
      rw [hrdi]
      bv_omega
  obtain ⟨u, hu, hreturns⟩ := hback _ hcomes
  exact ⟨s', u, hrun, hu, hreturns⟩

/-! ## The switch of the scheduler -/

/-- Where the context of a thread lies. -/
def contextPtr (p : Ptr) : Word := p.toBitVec + 32

/-- The memory of the processor has the contexts of these threads. -/
def HasContexts (m : Memory) (T : Set Ptr) (s : State) : Prop :=
  ∀ p ∈ T, contextAt m (contextPtr p) = (s.threads p).context

/-- A call of `mcsos_context_switch` for two of the threads. -/
structure CallsSwitch (l : SwitchLabels) (T : Set Ptr) (c : Cpu) (k : Kernel)
    (oldThread nextThread : Ptr) : Prop where
  rip : c.rip = l.entry
  rdi : c.regs .rdi = contextPtr oldThread
  rsi : c.regs .rsi = contextPtr nextThread
  old_mem : oldThread ∈ T
  next_mem : nextThread ∈ T
  ne : oldThread ≠ nextThread
  contexts : HasContexts c.mem T k.state
  cpu : k.cpu = contextOf c c.rip

/-- **`mcsos_context_switch` does what the scheduler expects of it.**  The threads are objects that
do not overlap; then the code leaves in their contexts and in the registers what
`Kernel.contextSwitch` says. -/
theorem contextSwitch_simulates {l : SwitchLabels} (code : CodeLabels)
    (effect : Word → Cpu → Cpu) (hresume : code.resume = .ofBitVec l.resume) {T : Set Ptr}
    (hT : ∀ p ∈ T, ∀ q ∈ T, p ≠ q → Separate (contextPtr p) (contextPtr q)) {c : Cpu} {k : Kernel}
    {oldThread nextThread : Ptr} (h : CallsSwitch l T c k oldThread nextThread) :
    ∃ c', execText (switchText l) effect 1 c = some c' ∧
      HasContexts c'.mem T (k.contextSwitch code oldThread nextThread).state ∧
      contextOf c' c'.rip = (k.contextSwitch code oldThread nextThread).cpu := by
  have hsep := hT oldThread h.old_mem nextThread h.next_mem h.ne
  have hs := execBlock_contextSwitch (s := c) l effect (by rw [h.rdi, h.rsi]; exact hsep)
  refine ⟨_, execText_succ (switchText_entry h.rip), fun p hp ↦ ?_, ?_⟩
  · rw [Kernel.contextSwitch]
    dsimp only
    rw [threads_modifyThread]
    by_cases hold : p = oldThread
    · subst hold
      rw [if_pos rfl, ← h.rdi, hs.saved, h.cpu, hresume]
      rfl
    · rw [if_neg hold, ← h.contexts p hp]
      obtain ⟨h1, h2⟩ := hT p hp oldThread h.old_mem hold
      refine contextAt_congr fun x hx ↦ hs.frame x ?_
      rw [h.rdi]
      bv_omega
  · rw [Kernel.contextSwitch]
    dsimp only
    rw [hs.loaded, h.rsi, threads_modifyThread, if_neg h.ne.symm]
    exact h.contexts nextThread h.next_mem

/-- A kernel whose contexts are those in memory, at a call. -/
def callingKernel (c : Cpu) : Kernel where
  state := { blankState with
    threads := fun p ↦ { blankState.threads p with context := contextAt c.mem (contextPtr p) } }
  cpu := contextOf c c.rip

theorem contextSwitch_simulates_two_threads : ∃ c',
    execText (switchText someLabels) (fun _ s ↦ s) 1
      (caller (contextPtr 0x1000) (contextPtr 0x2000) fun _ ↦ 7) = some c' ∧
    HasContexts c'.mem {0x1000, 0x2000} ((callingKernel
      (caller (contextPtr 0x1000) (contextPtr 0x2000) fun _ ↦ 7)).contextSwitch
        ⟨0x8000, 0x140⟩ 0x1000 0x2000).state ∧
    contextOf c' c'.rip = ((callingKernel
      (caller (contextPtr 0x1000) (contextPtr 0x2000) fun _ ↦ 7)).contextSwitch
        ⟨0x8000, 0x140⟩ 0x1000 0x2000).cpu := by
  have hsep : Separate (contextPtr 0x1000) (contextPtr 0x2000) := by decide
  refine contextSwitch_simulates ⟨0x8000, 0x140⟩ _ rfl (fun p hp q hq hne ↦ ?_)
    ⟨rfl, rfl, rfl, .inl rfl, .inr rfl, by decide, fun _ _ ↦ rfl, rfl⟩
  rcases hp with rfl | rfl <;> rcases hq with rfl | rfl
  · exact absurd rfl hne
  · exact hsep
  · exact hsep.symm
  · exact absurd rfl hne

end Arch
end Mcsos
