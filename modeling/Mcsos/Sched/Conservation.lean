import Mcsos.Sched.Integrity

/-!
# Runs of the scheduler

A run starts with `mcsos_scheduler_init` and goes on with calls on threads.  Along with the state
goes a history, which is written by the calls that succeed and does not look at the queue: a thread
comes in when it is enqueued, when it is marked ready and when it gives way to another one, and the
thread that gets the processor goes out.  `queue_integrity` is about every state of every run, and
says that the queue holds what has come in and has not gone out.
-/

set_option autoImplicit false

namespace Mcsos
namespace Sched

open Program LinkedQueue

variable {s s' : State} {p : Ptr} {l l' : List Ptr}

/-- The threads that one comes across from a pointer. -/
def chain (s : State) : ℕ → Ptr → List Ptr
  | 0, _ => []
  | fuel + 1, p => if p = 0 then [] else p :: chain s fuel (s.threads p).next

/-- The threads in the ready queue. -/
def readyList (s : State) : List Ptr := chain s (2 ^ 64) s.sched.readyHead

theorem chain_eq {fuel : ℕ} (h : Linked (fun p ↦ (s.threads p).next) 0 p l)
    (hfuel : l.length ≤ fuel) : chain s fuel p = l := by
  induction l generalizing p fuel with
  | nil =>
    cases fuel with
    | zero => rfl
    | succ fuel => exact if_pos h
  | cons q l ih =>
    obtain ⟨rfl, hp, hl⟩ := h
    cases fuel with
    | zero => exact absurd hfuel (Nat.not_succ_le_zero _)
    | succ fuel => rw [chain, if_neg hp, ih hl (Nat.le_of_succ_le_succ hfuel)]

theorem Ready.readyList_eq (h : Ready s l) : readyList s = l :=
  chain_eq h.queue.linked (Nat.le_of_lt (length_lt_of_nodup h.queue.nodup h.zero_not_mem))

/-! ## Validation -/

/-- A thread that may stand in the ready queue. -/
structure Waiting (s : State) (p : Ptr) : Prop where
  ne_zero : p ≠ 0
  magic : (s.threads p).magic = threadMagic
  ready : (s.threads p).state = .ready
  ne_current : p ≠ s.sched.current

/-- The loop goes on at a waiting thread, as long as the count is within the bound. -/
theorem validateLoop_of_waiting {q : Ptr} {c : UInt64} {fuel : ℕ} (h : Waiting s p)
    (hc : ¬ s.sched.runnableCount + 1 < c + 1) :
    validateLoop s (fuel + 1) p q c = validateLoop s fuel (s.threads p).next p (c + 1) := by
  have hvalid : validThreadObject s p = true := validThreadObject_iff.2 ⟨h.ne_zero, h.magic⟩
  rw [validateLoop, if_neg h.ne_zero, if_neg, if_neg h.ne_current, if_neg hc]
  rw [hvalid, h.ready]
  decide

/-- The loop of `mcsos_sched_validate`, after it has seen `pre` and before it sees `suf`. -/
theorem validateLoop_eq (h : Ready s l) (hlen : l.length + 1 < 2 ^ 64)
    (hcurrent : s.sched.current ∉ l) {pre suf : List Ptr} (hl : l = pre ++ suf)
    (hlink : Linked (fun p ↦ (s.threads p).next) 0 p suf) {fuel : ℕ} (hfuel : suf.length < fuel) :
    validateLoop s fuel p (pre.getLast?.getD 0) (UInt64.ofNat pre.length) = some (.ok ()) := by
  induction suf generalizing p pre fuel with
  | nil =>
    cases fuel with
    | zero => exact absurd hfuel (Nat.not_lt_zero _)
    | succ fuel =>
      rw [List.append_nil] at hl
      have hcount : UInt64.ofNat pre.length = s.sched.runnableCount := by
        rw [← hl, ← h.count, UInt64.ofNat_toNat]
      rw [validateLoop, if_pos (show p = 0 from hlink), if_neg (not_not.2 (hl ▸ h.queue.last.symm)),
        if_neg (not_not.2 hcount)]
  | cons q suf ih =>
    obtain ⟨rfl, hp, hsuf⟩ := hlink
    have hpl : p ∈ l := hl ▸ List.mem_append_right _ List.mem_cons_self
    have hpre : pre.length + 1 ≤ l.length := by
      rw [hl, List.length_append, List.length_cons]
      exact Nat.add_le_add_left (Nat.succ_le_succ (Nat.zero_le _)) _
    have hnext : UInt64.ofNat pre.length + 1 = UInt64.ofNat (pre ++ [p]).length := by
      rw [List.length_append]
      exact (UInt64.ofNat_add _ _).symm
    have hbound : ¬ s.sched.runnableCount + 1 < UInt64.ofNat pre.length + 1 := by
      rw [hnext, UInt64.lt_iff_toNat_lt, UInt64.toNat_add, h.count, UInt64.toNat_ofNat',
        List.length_append, List.length_singleton]
      show ¬ (l.length + 1) % 2 ^ 64 < (pre.length + 1) % 2 ^ 64
      rw [Nat.mod_eq_of_lt hlen, Nat.mod_eq_of_lt (by omega)]
      omega
    cases fuel with
    | zero => exact absurd hfuel (Nat.not_lt_zero _)
    | succ fuel =>
      have hwaiting : Waiting s p :=
        ⟨hp, h.magic p hpl, h.state p hpl, fun he ↦ hcurrent (he ▸ hpl)⟩
      have hlast : (pre ++ [p]).getLast?.getD 0 = p := by simp
      have hrest := ih (show l = (pre ++ [p]) ++ suf by rw [hl]; simp) hsuf
        (Nat.lt_of_succ_lt_succ hfuel)
      rw [validateLoop_of_waiting hwaiting hbound, hnext]
      rwa [hlast] at hrest

theorem schedValidate_eq (hinit : s.sched.initialized = true)
    (hcurrent : validThreadObject s s.sched.current = true) :
    schedValidate s = validateLoop s (2 ^ 64) s.sched.readyHead 0 0 := by
  rw [schedValidate, if_neg]
  rw [hinit, hcurrent]
  decide

/-- A queue that is in order passes. -/
theorem Ready.schedValidate_eq_ok (h : Ready s l)
    (hcurrent : validThreadObject s s.sched.current = true) (hmem : s.sched.current ∉ l) :
    schedValidate s = some (.ok ()) := by
  -- the current thread is one more, so there are fewer than 2^64 - 1 in the queue
  have hlen : (s.sched.current :: l).length < 2 ^ 64 := by
    refine length_lt_of_nodup (List.nodup_cons.2 ⟨hmem, h.queue.nodup⟩) ?_
    rw [List.mem_cons, not_or]
    exact ⟨(validThreadObject_iff.1 hcurrent).1.symm, h.zero_not_mem⟩
  rw [schedValidate_eq h.initialized hcurrent]
  exact validateLoop_eq h hlen hmem (List.nil_append l).symm h.queue.linked
    (Nat.lt_of_succ_lt hlen)

theorem Sound.schedValidate_eq_ok (h : Sound s l) : schedValidate s = some (.ok ()) :=
  h.ready.schedValidate_eq_ok h.valid h.current_not_mem

/-! ## Histories -/

/-- The threads that have come into the queue and those that have gone out of it, in order. -/
structure History where
  entered : List Ptr
  left : List Ptr
  deriving DecidableEq

/-- The calls of a run. -/
inductive Call
  | prepare (trampoline thread name entry arg stackBase stackSize id : UInt64)
  | enqueue (thread : Ptr)
  | yield
  | blockCurrent
  | markReady (thread : Ptr)
  | tick

namespace Call

def run : Call → EStateM Err State Unit
  | prepare trampoline thread name entry arg stackBase stackSize id =>
    threadPrepare trampoline thread name entry arg stackBase stackSize id
  | enqueue thread => schedEnqueue thread
  | yield => schedYield
  | blockCurrent => threadBlockCurrent
  | markReady thread => threadMarkReady thread
  | tick => schedTick

/-- Threads are prepared before the scheduler knows them, and enqueued when they are new. -/
def Allowed (s : State) (h : History) : Call → Prop
  | prepare _ thread _ _ _ _ _ _ => thread ≠ s.sched.idle ∧ thread ∉ h.entered
  | enqueue thread => (s.threads thread).state = .new
  | _ => True

/-- The threads that a call puts into the queue when it succeeds and leads from `s` to `s'`: the one
it is called for, or the one that gives way. -/
def entering (s s' : State) : Call → List Ptr
  | enqueue thread => [thread]
  | markReady thread => [thread]
  | yield =>
    if s'.sched.current = s.sched.current ∨ s.sched.current = s.sched.idle then []
    else [s.sched.current]
  | _ => []

/-- The thread that gets the processor, unless it is the idle thread. -/
def given (s s' : State) : List Ptr :=
  if s'.sched.current = s.sched.current ∨ s'.sched.current = s.sched.idle then []
  else [s'.sched.current]

/-- The threads that a call takes out of the queue. -/
def leaving (s s' : State) : Call → List Ptr
  | yield => given s s'
  | blockCurrent => given s s'
  | _ => []

end Call

/-- A call has been made.  If it has failed, it does not count. -/
def History.record (h : History) (c : Call) (s : State) : History :=
  if errorOf c.run s = none then
    ⟨h.entered ++ c.entering s (after c.run s), h.left ++ c.leaving s (after c.run s)⟩
  else h

/-- The states that calls lead to after `mcsos_scheduler_init`, with their history. -/
inductive Reaches : State → History → Prop
  | init {s s' : State} {bootThread name : UInt64}
      (h : schedulerInit bootThread name s = .ok () s') : Reaches s' ⟨[], []⟩
  | call {s : State} {h : History} (hs : Reaches s h) (c : Call) (hc : c.Allowed s h) :
      Reaches (after c.run s) (h.record c s)

theorem record_of_ok {h : History} {c : Call} (hrun : c.run s = .ok () s') :
    h.record c s = ⟨h.entered ++ c.entering s s', h.left ++ c.leaving s s'⟩ := by
  rw [History.record, errorOf_of_ok hrun, after_of_ok hrun, if_pos rfl]

theorem record_of_error {h : History} {c : Call} {e : Err} (hrun : c.run s = .error e s') :
    h.record c s = h := by
  rw [History.record, errorOf_of_error hrun, if_neg (Option.some_ne_none e)]

/-- What a run keeps: the threads are where they should be, and what has entered the queue is what
has left it, and then what is in it. -/
def Consistent (s : State) (h : History) : Prop :=
  ∃ l, Inv s h.entered l ∧ h.entered = h.left ++ l

/-- A call that takes `a` from the front of the queue and puts `b` at its end. -/
theorem Consistent.step {h : History} {a b m : List Ptr} (hh : h.entered = h.left ++ (a ++ m))
    (hI' : Inv s' (h.entered ++ b) (m ++ b)) :
    Consistent s' ⟨h.entered ++ b, h.left ++ a⟩ := by
  refine ⟨m ++ b, hI', ?_⟩
  simp [hh]

/-- A call after which every thread is where it was. -/
theorem Consistent.step_same {h : History} (hh : h.entered = h.left ++ l)
    (hI' : Inv s' h.entered l) : Consistent s' ⟨h.entered ++ [], h.left ++ []⟩ := by
  refine .step (m := l) hh ?_
  rwa [List.append_nil, List.append_nil]

/-- A call keeps the threads in order if it does so when it succeeds, and changes nothing when it
fails. -/
theorem Consistent.call {h : History} {c : Call} (hs : Consistent s h)
    (hends : Ends c.run s
      (fun _ s' ↦ Consistent s' ⟨h.entered ++ c.entering s s', h.left ++ c.leaving s s'⟩)
      fun _ s' ↦ s' = s) :
    Consistent (after c.run s) (h.record c s) := by
  cases hrun : c.run s with
  | ok _ s' =>
    rw [after_of_ok hrun, record_of_ok hrun]
    exact hends.of_eq_ok hrun
  | error e s' =>
    rw [after_of_error hrun, record_of_error hrun, hends.of_eq_error hrun]
    exact hs

/-! ## The calls of a run -/

section Calls

variable {h : History}

theorem schedEnqueue_ends : Ends (schedEnqueue p) s
    (fun _ s' ↦ s' = append p s ∧ validThreadObject s p = true ∧ (s.threads p).state ≠ .running)
    (fun _ s' ↦ s' = s) := by
  refine ends_get (ends_failIf (fun _ ↦ rfl) fun hvalid ↦ ends_failIf (fun _ ↦ rfl) fun hstate ↦ ?_)
  rw [not_or] at hvalid
  refine ends_of_ok rfl ⟨rfl, by simpa using hvalid.2, fun hr ↦ hstate ?_⟩
  rw [hr]
  decide

theorem threadMarkReady_ends : Ends (threadMarkReady p) s
    (fun _ s' ↦ s' = append p s ∧ validThreadObject s p = true ∧ (s.threads p).state = .blocked)
    (fun _ s' ↦ s' = s) := by
  refine ends_get (ends_failIf (fun _ ↦ rfl) fun _ ↦ ends_failIf (fun _ ↦ rfl) fun hblocked ↦ ?_)
  exact schedEnqueue_ends.mono (fun _ _ h ↦ ⟨h.1, h.2.1, not_not.1 hblocked⟩) fun _ _ h ↦ h

/-- A thread that is neither running nor ready enters the queue. -/
theorem Consistent.append (hI : Inv s h.entered l) (hh : h.entered = h.left ++ l)
    (hp : validThreadObject s p = true) (h1 : (s.threads p).state ≠ .running)
    (h2 : (s.threads p).state ≠ .ready) :
    Consistent (append p s) ⟨h.entered ++ [p], h.left ++ []⟩ :=
  .step (m := l) hh (hI.append hp h1 h2)

/-- The thread that gets the processor is the first one of the queue. -/
theorem given_eq (hI : Inv s h.entered l)
    (hcurrent : s'.sched.current = l.head?.getD s.sched.idle) : Call.given s s' = l.take 1 := by
  rw [Call.given, hcurrent]
  cases l with
  | nil => exact if_pos (.inr rfl)
  | cons q l =>
    have h1 : q ≠ s.sched.current := fun hc ↦ hI.current_not_mem (hc ▸ List.mem_cons_self)
    have h2 : q ≠ s.sched.idle := fun hc ↦ hI.sound.idle_not_mem (hc ▸ List.mem_cons_self)
    simp [h1, h2]

/-- The thread that gives way comes into the queue, unless it is the idle thread. -/
theorem entering_yield (hI : Inv s h.entered l)
    (hcurrent : s'.sched.current = l.head?.getD s.sched.idle) :
    Call.yield.entering s s' = putBack s := by
  rw [Call.entering, putBack, hcurrent]
  by_cases hidle : s.sched.current = s.sched.idle
  · rw [if_pos (.inr hidle), if_neg fun hc ↦ hc.2 hidle]
  have hne : l.head?.getD s.sched.idle ≠ s.sched.current := by
    cases l with
    | nil => exact Ne.symm hidle
    | cons q l => exact fun hc ↦ hI.current_not_mem (hc ▸ List.mem_cons_self)
  rw [if_neg (not_or.2 ⟨hne, hidle⟩), if_pos ⟨hI.running, hidle⟩]

/-- The first thread of the queue goes out, and the one that is put back comes in. -/
theorem Consistent.switched (hh : h.entered = h.left ++ l) {s1 : State}
    (hI' : Inv s' (h.entered ++ putBack s1) (l.tail ++ putBack s1)) :
    Consistent s' ⟨h.entered ++ putBack s1, h.left ++ l.take 1⟩ := by
  refine .step (m := l.tail) ?_ hI'
  rw [hh, ← List.drop_one, List.take_append_drop]

theorem Consistent.prepare (hs : Consistent s h)
    {trampoline thread name entry arg stackBase stackSize id : UInt64}
    (hidle : thread ≠ s.sched.idle) (hnew : thread ∉ h.entered) :
    let c := Call.prepare trampoline thread name entry arg stackBase stackSize id
    Consistent (after c.run s) (h.record c s) := by
  refine hs.call ?_
  obtain ⟨l, hI, hh⟩ := hs
  refine ends_failIf (fun _ ↦ rfl) fun _ ↦ ends_failIf (fun _ ↦ rfl) fun _ ↦
    ends_failIf (fun _ ↦ rfl) fun _ ↦ ends_failIf (fun _ ↦ rfl) fun _ ↦ ends_of_ok rfl ?_
  refine .step_same hh (hI.frame (fun p hp ↦ ?_) ⟨rfl, rfl, rfl, rfl, rfl, rfl⟩)
  have hne : p ≠ thread := by
    rintro rfl
    exact hp.elim hidle hnew
  rw [threads_modifyThread, if_neg hne]
  exact ⟨rfl, rfl, rfl⟩

theorem Consistent.enqueue (hs : Consistent s h) (hnew : (s.threads p).state = .new) :
    Consistent (after (Call.enqueue p).run s) (h.record (.enqueue p) s) := by
  refine hs.call (schedEnqueue_ends.mono ?_ fun _ _ h ↦ h)
  obtain ⟨l, hI, hh⟩ := hs
  rintro - s' ⟨rfl, hvalid, -⟩
  exact .append hI hh hvalid (by simp [hnew]) (by simp [hnew])

theorem Consistent.markReady (hs : Consistent s h) :
    Consistent (after (Call.markReady p).run s) (h.record (.markReady p) s) := by
  refine hs.call (threadMarkReady_ends.mono ?_ fun _ _ h ↦ h)
  obtain ⟨l, hI, hh⟩ := hs
  rintro - s' ⟨rfl, hvalid, hblocked⟩
  exact .append hI hh hvalid (by simp [hblocked]) (by simp [hblocked])

theorem Consistent.yield (hs : Consistent s h) :
    Consistent (after Call.yield.run s) (h.record .yield s) := by
  refine hs.call ?_
  obtain ⟨l, hI, hh⟩ := hs
  obtain ⟨s', hrun, hsw⟩ := schedYield_spec hI.sound.canYield
  refine ends_of_ok hrun ?_
  rw [entering_yield hI hsw.current, Call.leaving, given_eq hI hsw.current]
  exact .switched hh (hI.switched rfl (fun _ ↦ rfl) (fun _ _ ↦ rfl) (.inl hI.running) hsw)

/-- The idle thread cannot be blocked. -/
theorem threadBlockCurrent_of_idle
    (hcheck : ¬ (!s.sched.initialized ∨ !validThreadObject s s.sched.current))
    (hidle : s.sched.current = s.sched.idle) : threadBlockCurrent s = .error .estate s := by
  rw [threadBlockCurrent, bind_of_ok (get_apply s), bind_of_ok (failIf_of_neg hcheck _ s)]
  exact bind_of_error (failIf_of_pos hidle _ s)

theorem threadBlockCurrent_of_ne
    (hcheck : ¬ (!s.sched.initialized ∨ !validThreadObject s s.sched.current))
    (hidle : s.sched.current ≠ s.sched.idle) :
    threadBlockCurrent s = schedYield (setState s.sched.current .blocked s) := by
  rw [threadBlockCurrent, bind_of_ok (get_apply s), bind_of_ok (failIf_of_neg hcheck _ s),
    bind_of_ok (failIf_of_neg hidle _ s)]
  rfl

theorem Sound.canYield_blocked (h : Sound s l) :
    CanYield (setState s.sched.current .blocked s) l := by
  have hvalid : ∀ q, validThreadObject s q = true →
      validThreadObject (setState s.sched.current .blocked s) q = true := fun q hq ↦ by
    rw [validThreadObject_iff, magic_setState]
    exact validThreadObject_iff.1 hq
  refine ⟨h.ready.frame (fun q hq ↦ ⟨next_setState _, ?_, magic_setState _⟩) ⟨rfl, rfl, rfl, rfl⟩,
    hvalid _ h.valid, hvalid _ h.valid_idle, h.current_not_mem⟩
  rw [state_setState, if_neg]
  rintro rfl
  exact h.current_not_mem hq

theorem Consistent.blockCurrent (hs : Consistent s h) :
    Consistent (after Call.blockCurrent.run s) (h.record .blockCurrent s) := by
  refine hs.call ?_
  obtain ⟨l, hI, hh⟩ := hs
  have hcheck : ¬ (!s.sched.initialized ∨ !validThreadObject s s.sched.current) := by
    simp [hI.ready.initialized, hI.valid_current]
  by_cases hidle : s.sched.current = s.sched.idle
  · exact ends_of_error (threadBlockCurrent_of_idle hcheck hidle) rfl
  obtain ⟨s', hyield, hsw⟩ := schedYield_spec hI.sound.canYield_blocked
  refine ends_of_ok ((threadBlockCurrent_of_ne hcheck hidle).trans hyield) ?_
  have hblocked : ((setState s.sched.current .blocked s).threads s.sched.current).state
      = .blocked := by
    rw [state_setState, if_pos rfl]
  -- a thread that is blocked does not come back into the queue
  have hback : putBack (setState s.sched.current .blocked s) = [] := by
    rw [putBack, sched_setState, hblocked]
    simp
  have hswitched := hI.switched (sched_setState .blocked) (fun _ ↦ magic_setState _)
    (fun p hp ↦ by rw [state_setState, if_neg hp]) (.inr ⟨hblocked, hidle⟩) hsw
  have hstep := Consistent.switched hh hswitched
  rw [hback] at hstep
  rw [Call.leaving, given_eq hI hsw.current]
  exact hstep

/-- A tick changes nothing but the counters. -/
theorem field_countTick {α : Type} (g : Thread → α) (hg : ∀ t n, g { t with ticks := n } = g t)
    (p : Ptr) : g ((countTick s).threads p) = g (s.threads p) :=
  field_modifyThread g fun t ↦ hg t _

theorem Consistent.tick (hs : Consistent s h) :
    Consistent (after Call.tick.run s) (h.record .tick s) := by
  refine hs.call ?_
  obtain ⟨l, hI, hh⟩ := hs
  refine ends_get (ends_failIf (fun _ ↦ rfl) fun _ ↦ ends_of_ok rfl ?_)
  refine .step_same hh (hI.frame (fun p _ ↦ ⟨?_, ?_, ?_⟩) ⟨rfl, rfl, rfl, rfl, rfl, rfl⟩)
  · exact field_countTick Thread.next (fun _ _ ↦ rfl) p
  · exact field_countTick Thread.state (fun _ _ ↦ rfl) p
  · exact field_countTick Thread.magic (fun _ _ ↦ rfl) p

theorem consistent_init {bootThread name : UInt64}
    (hinit : schedulerInit bootThread name s = .ok () s') : Consistent s' ⟨[], []⟩ := by
  have hends : Ends (schedulerInit bootThread name) s
      (fun _ s' ↦ Consistent s' ⟨[], []⟩) (fun _ _ ↦ True) := by
    refine ends_failIf (fun _ ↦ trivial) fun hboot ↦ ends_of_ok rfl ⟨[], ?_, rfl⟩
    refine ⟨⟨rfl, ⟨rfl, List.nodup_nil, rfl⟩, rfl, ?_, ?_⟩, ?_, ?_, ?_, List.not_mem_nil, .inl rfl,
      ?_, ?_, ?_⟩
    · exact fun p hp ↦ absurd hp List.not_mem_nil
    · exact fun p hp ↦ absurd hp List.not_mem_nil
    · exact congrArg Thread.state (Function.update_self bootThread _ s.threads)
    · exact congrArg Thread.state (Function.update_self bootThread _ s.threads)
    · exact validThreadObject_iff.2
        ⟨hboot, congrArg Thread.magic (Function.update_self bootThread _ s.threads)⟩
    · exact fun p hp ↦ hp
    · exact fun p hp ↦ absurd hp List.not_mem_nil
    · exact fun p hp ↦ absurd hp List.not_mem_nil
  exact hends.of_eq_ok hinit

theorem Reaches.consistent (hr : Reaches s h) : Consistent s h := by
  induction hr with
  | init hinit => exact consistent_init hinit
  | call _ c hc ih =>
    cases c with
    | prepare => exact ih.prepare hc.1 hc.2
    | enqueue => exact ih.enqueue hc
    | yield => exact ih.yield
    | blockCurrent => exact ih.blockCurrent
    | markReady => exact ih.markReady
    | tick => exact ih.tick

/-- **The ready queue is in order, and no thread is lost or duplicated.**  In every state of every
run the list from `ready_head` ends, at `ready_tail`, has no thread twice and as many threads as
`runnable_count` says; they are ready, and neither the current nor the idle thread is among them.
A thread that has ever been enqueued is the current one, or once in the queue, or blocked.  Threads
leave the queue in the order in which they entered it, and `mcsos_sched_validate` is satisfied. -/
theorem queue_integrity (hr : Reaches s h) : ∃ l : List Ptr,
    Linked (fun p ↦ (s.threads p).next) 0 s.sched.readyHead l ∧ l.Nodup ∧
      s.sched.readyTail = l.getLast?.getD 0 ∧ l.length = s.sched.runnableCount.toNat ∧
      (∀ p ∈ l, (s.threads p).state = .ready) ∧ s.sched.current ∉ l ∧ s.sched.idle ∉ l ∧
      (∀ p ∈ h.entered, p = s.sched.current ∧ p ∉ l ∨ p ≠ s.sched.current ∧ l.count p = 1 ∨
        p ≠ s.sched.current ∧ p ∉ l ∧ (s.threads p).state = .blocked) ∧
      h.entered = h.left ++ l ∧ schedValidate s = some (.ok ()) := by
  obtain ⟨l, hI, hh⟩ := hr.consistent
  refine ⟨l, hI.ready.queue.linked, hI.ready.queue.nodup, hI.ready.queue.last, hI.ready.count.symm,
    hI.ready.state, hI.current_not_mem, hI.sound.idle_not_mem, fun p hp ↦ ?_, hh,
    hI.sound.schedValidate_eq_ok⟩
  by_cases hpc : p = s.sched.current
  · exact .inl ⟨hpc, hpc ▸ hI.current_not_mem⟩
  right
  by_cases hpl : p ∈ l
  · exact .inl ⟨hpc, List.count_eq_one_of_mem hI.ready.queue.nodup hpl⟩
  · refine .inr ⟨hpc, hpl, ?_⟩
    exact ((hI.place p hp).resolve_left hpc).resolve_left hpl

end Calls

/-- A memory of threads that have not been prepared. -/
def blankState : State where
  threads _ := ⟨0, 0, 0, .zombie, zeroContext, 0, 0, 0, 0, 0, 0, 0, 0⟩
  sched := ⟨0, 0, 0, 0, 0, 0, 0, 0, false⟩

/-- Two threads are prepared and enqueued, the boot thread gives way to the first one, and the first
one to the second one: the first one is in the queue again. -/
theorem queue_integrity_two_threads : ∃ s h, Reaches s h ∧
    h = ⟨[0x2000, 0x3000, 0x2000], [0x2000, 0x3000]⟩ ∧ s.sched.current = 0x3000 ∧
    s.sched.readyHead = 0x2000 ∧ schedValidate s = some (.ok ()) := by
  have hboot : schedulerInit 0x1000 0 blankState
      = .ok () (after (schedulerInit 0x1000 0) blankState) := rfl
  have hprepared := ((Reaches.init hboot).call
    (.prepare 0x8000 0x2000 0 0x9000 0 0x10000 8192 1) ⟨by decide, List.not_mem_nil⟩).call
    (.prepare 0x8000 0x3000 0 0x9100 0 0x20000 8192 2) ⟨by decide +kernel, by decide +kernel⟩
  have henqueued := (hprepared.call (.enqueue 0x2000) (by show _ = _; decide +kernel)).call
    (.enqueue 0x3000) (by show _ = _; decide +kernel)
  have hrun := (henqueued.call .yield trivial).call .yield trivial
  obtain ⟨-, -, -, -, -, -, -, -, -, -, hvalid⟩ := queue_integrity hrun
  exact ⟨_, _, hrun, by decide +kernel, by decide +kernel, by decide +kernel, hvalid⟩

end Sched
end Mcsos
