import Mathlib.Data.Set.Insert
import Mcsos.Sched.Conservation

/-!
# All public calls

`Runs` has every call of the interface, with any arguments, apart from two that are misuse: a thread
that is in the queue, current or idle is not prepared again, and a thread that is in the queue is
not enqueued again.  Along with the state goes the set of threads that the scheduler was given.

Enqueuing a thread twice is what `mcsos_sched_enqueue` should reject, but it accepts every ready
thread.  Only one thread should be running, but the idle thread remains so when it gives way.
-/

set_option autoImplicit false

namespace Mcsos
namespace Sched

open Program LinkedQueue

variable {s s' : State} {p : Ptr} {l : List Ptr} {T : Set Ptr}

/-! ## Counting the queue -/

theorem readyCountLoop_eq {fuel : ℕ} {count : UInt64}
    (h : Linked (fun p ↦ (s.threads p).next) 0 p l) (hfuel : l.length < fuel) :
    readyCountLoop s fuel p count = some (count + UInt64.ofNat l.length) := by
  induction l generalizing p fuel count with
  | nil =>
    cases fuel with
    | zero => exact absurd hfuel (Nat.not_lt_zero _)
    | succ fuel =>
      rw [readyCountLoop, if_pos (show p = 0 from h)]
      exact congrArg some (UInt64.add_zero count).symm
  | cons q l ih =>
    obtain ⟨rfl, hp, hl⟩ := h
    cases fuel with
    | zero => exact absurd hfuel (Nat.not_lt_zero _)
    | succ fuel =>
      rw [readyCountLoop, if_neg hp, ih hl (Nat.lt_of_succ_lt_succ hfuel), List.length_cons,
        UInt64.ofNat_add, UInt64.add_assoc, UInt64.add_comm 1]
      rfl

theorem Ready.schedReadyCount_eq (h : Ready s l) :
    schedReadyCount s = some s.sched.runnableCount := by
  have hcount : UInt64.ofNat l.length = s.sched.runnableCount := by
    rw [← h.count, UInt64.ofNat_toNat]
  rw [schedReadyCount, h.initialized, if_neg (by decide),
    readyCountLoop_eq h.queue.linked (length_lt_of_nodup h.queue.nodup h.zero_not_mem),
    UInt64.zero_add, hcount]

/-- A thread that is its own successor. -/
theorem readyCountLoop_of_next_self (hp : p ≠ 0) (h : (s.threads p).next = p) (fuel : ℕ)
    (count : UInt64) : readyCountLoop s fuel p count = none := by
  induction fuel generalizing count with
  | zero => rfl
  | succ fuel ih => rw [readyCountLoop, if_neg hp, h, ih]

/-! ## The threads of a run -/

/-- The scheduler is in order, and of the threads it was given, only the current one and the idle
one run. -/
structure Managed (s : State) (T : Set Ptr) (l : List Ptr) : Prop where
  sound : Sound s l
  current_mem : s.sched.current ∈ T
  idle_mem : s.sched.idle ∈ T
  queue_mem : ∀ p ∈ l, p ∈ T
  running : ∀ p ∈ T, (s.threads p).state = .running → p = s.sched.current ∨ p = s.sched.idle

namespace Managed

/-- Calls that leave the queue and all states alone. -/
theorem frame {l' : List Ptr} (h : Managed s T l) (hsound : Sound s' l') (hl : ∀ p ∈ l', p ∈ l)
    (hstate : ∀ p, (s'.threads p).state = (s.threads p).state)
    (hcurrent : s'.sched.current = s.sched.current) (hidle : s'.sched.idle = s.sched.idle) :
    Managed s' T l' := by
  refine ⟨hsound, ?_, ?_, fun p hp ↦ h.queue_mem p (hl p hp), fun p hp hr ↦ ?_⟩
  · rw [hcurrent]
    exact h.current_mem
  · rw [hidle]
    exact h.idle_mem
  · rw [hstate] at hr
    rw [hcurrent, hidle]
    exact h.running p hp hr

/-- A thread that does not run enters the queue. -/
theorem append (h : Managed s T l) (hp : validThreadObject s p = true)
    (hstate : (s.threads p).state ≠ .running) (hpl : p ∉ l) :
    Managed (append p s) (insert p T) (l ++ [p]) := by
  refine ⟨h.sound.append hp hstate hpl, ?_, ?_, fun q hq ↦ ?_, fun q hq hr ↦ ?_⟩
  · rw [sched_append]
    exact Set.mem_insert_of_mem p h.current_mem
  · rw [sched_append]
    exact Set.mem_insert_of_mem p h.idle_mem
  · rcases List.mem_append.1 hq with hq | hq
    · exact Set.mem_insert_of_mem p (h.queue_mem q hq)
    · rw [List.mem_singleton.1 hq]
      exact Set.mem_insert p T
  · have hne : q ≠ p := by
      rintro rfl
      rw [state_append, if_pos rfl] at hr
      cases hr
    rw [state_append, if_neg hne] at hr
    rw [sched_append]
    exact h.running q (Set.mem_of_mem_insert_of_ne hq hne) hr

/-- The next thread runs, and the one before it does not, unless it is the idle thread. -/
theorem switched (h : Managed s T l) {s1 : State} (hsched : s1.sched = s.sched)
    (hmagic : ∀ p, (s1.threads p).magic = (s.threads p).magic)
    (hstate : ∀ p, p ≠ s.sched.current → (s1.threads p).state = (s.threads p).state)
    (hcurrent : (s1.threads s.sched.current).state = .running ∨
      (s1.threads s.sched.current).state = .blocked ∧ s.sched.current ≠ s.sched.idle)
    (hsw : Switched s1 l.tail (l.head?.getD s.sched.idle) s') :
    Managed s' T (l.tail ++ putBack s1) := by
  have hidle : s'.sched.idle = s.sched.idle := hsw.idle.trans (by rw [hsched])
  refine ⟨h.sound.switched hsched hmagic hstate hcurrent hsw, ?_, ?_, fun p hp ↦ ?_,
    fun p hp hr ↦ ?_⟩
  · rw [hsw.current]
    cases l with
    | nil => exact h.idle_mem
    | cons p l => exact h.queue_mem p List.mem_cons_self
  · rw [hidle]
    exact h.idle_mem
  · rcases List.mem_append.1 hp with hp | hp
    · exact h.queue_mem p (List.mem_of_mem_tail hp)
    · rw [mem_putBack, hsched] at hp
      rw [hp.1]
      exact h.current_mem
  · rw [hsw.current, hidle]
    rw [hsw.state] at hr
    by_cases hpn : p = l.head?.getD s.sched.idle
    · exact .inl hpn
    by_cases hpb : p ∈ putBack s1
    · rw [if_neg hpn, if_pos hpb] at hr
      cases hr
    rw [if_neg hpn, if_neg hpb] at hr
    by_cases hpc : p = s.sched.current
    · -- the old thread still runs, so it was not put back because it is the idle thread
      refine .inr (by_contra fun hpi ↦ hpb (mem_putBack.2 ?_))
      rw [hsched]
      exact ⟨hpc, hpc ▸ hr, hpc ▸ hpi⟩
    · rw [hstate p hpc] at hr
      exact .inr ((h.running p hp hr).resolve_left hpc)

theorem yield (h : Managed s T l) : ∃ l', Managed (after schedYield s) T l' := by
  obtain ⟨s', hrun, hsw⟩ := schedYield_spec h.sound.canYield
  rw [after_of_ok hrun]
  exact ⟨_, h.switched rfl (fun _ ↦ rfl) (fun _ _ ↦ rfl) (.inl h.sound.running) hsw⟩

theorem blockCurrent (h : Managed s T l) : ∃ l', Managed (after threadBlockCurrent s) T l' := by
  have hcheck : ¬ (!s.sched.initialized ∨ !validThreadObject s s.sched.current) := by
    rw [h.sound.ready.initialized, h.sound.valid]
    decide
  by_cases hidle : s.sched.current = s.sched.idle
  · rw [after_of_error (threadBlockCurrent_of_idle hcheck hidle)]
    exact ⟨l, h⟩
  · obtain ⟨s', hyield, hsw⟩ := schedYield_spec (h.sound.canYield_blocked)
    rw [after_of_ok ((threadBlockCurrent_of_ne hcheck hidle).trans hyield)]
    refine ⟨_, h.switched (sched_setState .blocked) (fun _ ↦ magic_setState _) (fun p hp ↦ ?_)
      (.inr ⟨?_, hidle⟩) hsw⟩
    · rw [state_setState, if_neg hp]
    · rw [state_setState, if_pos rfl]

theorem tick (h : Managed s T l) : Managed (after schedTick s) T l := by
  have hstate : ∀ p, ((countTick s).threads p).state = (s.threads p).state :=
    field_countTick Thread.state fun _ _ ↦ rfl
  have hmagic : ∀ p, ((countTick s).threads p).magic = (s.threads p).magic :=
    field_countTick Thread.magic fun _ _ ↦ rfl
  refine Ends.after (P := fun s' ↦ Managed s' T l) ?_
  refine ends_get (ends_failIf (fun _ ↦ h) fun _ ↦ ends_of_ok rfl ?_)
  refine h.frame (h.sound.frame (h.sound.ready.frame (fun p _ ↦ ?_) ⟨rfl, rfl, rfl, rfl⟩)
    (fun p _ ↦ ⟨hstate p, hmagic p⟩) rfl rfl) (fun _ hp ↦ hp) hstate rfl rfl
  exact ⟨field_countTick Thread.next (fun _ _ ↦ rfl) p, hstate p, hmagic p⟩

theorem pickNext (h : Managed s T l) : ∃ l', Managed (schedPickNext s).2 T l' := by
  rw [schedPickNext, h.sound.ready.initialized, if_neg (by decide)]
  dsimp only
  cases l with
  | nil =>
    rw [if_pos (h.sound.ready.queue.linked.eq_null_iff.2 rfl)]
    exact ⟨[], h⟩
  | cons p l =>
    have hhead : s.sched.readyHead = p := h.sound.ready.queue.linked.1
    have hsched : (dropHead p s).sched.current = s.sched.current ∧
        (dropHead p s).sched.idle = s.sched.idle := by
      rw [sched_dropHead]
      exact ⟨rfl, rfl⟩
    rw [hhead, if_neg h.sound.ready.queue.linked.2.1]
    have hsound : Sound (dropHead p s) l := by
      refine ⟨h.sound.ready.dropHead, ?_, ?_, ?_, ?_⟩
      · rw [hsched.1, state_dropHead, h.sound.running]
      · rw [hsched.2, state_dropHead, h.sound.running_idle]
      · rw [hsched.1, validThreadObject_iff, magic_dropHead]
        exact validThreadObject_iff.1 h.sound.valid
      · rw [hsched.2, validThreadObject_iff, magic_dropHead]
        exact validThreadObject_iff.1 h.sound.valid_idle
    exact ⟨l, h.frame hsound (fun q hq ↦ List.mem_cons_of_mem p hq) (fun _ ↦ state_dropHead)
      hsched.1 hsched.2⟩

end Managed

/-- Preparing a thread makes it new, or changes nothing. -/
theorem threadPrepare_ends {trampoline thread name entry arg stackBase stackSize id : UInt64} :
    Ends (threadPrepare trampoline thread name entry arg stackBase stackSize id) s
      (fun _ s' ↦ ∃ t : Thread, t.state = .new ∧ s' = s.modifyThread thread fun _ ↦ t)
      (fun _ s' ↦ s' = s) :=
  ends_failIf (fun _ ↦ rfl) fun _ ↦ ends_failIf (fun _ ↦ rfl) fun _ ↦ ends_failIf (fun _ ↦ rfl)
    fun _ ↦ ends_failIf (fun _ ↦ rfl) fun _ ↦ ends_of_ok rfl ⟨_, rfl, rfl⟩

theorem Managed.prepare (h : Managed s T l) {thread : Ptr} {t : Thread} (ht : t.state = .new)
    (hcurrent : thread ≠ s.sched.current) (hidle : thread ≠ s.sched.idle) (hl : thread ∉ l) :
    Managed (s.modifyThread thread fun _ ↦ t) (insert thread T) l := by
  have hother : ∀ p, p ≠ thread → (s.modifyThread thread fun _ ↦ t).threads p = s.threads p := by
    intro p hp
    rw [threads_modifyThread, if_neg hp]
  have hready : Ready (s.modifyThread thread fun _ ↦ t) l := by
    refine h.sound.ready.frame (fun p hp ↦ ?_) ⟨rfl, rfl, rfl, rfl⟩
    rw [hother p (by rintro rfl; exact hl hp)]
    exact ⟨rfl, rfl, rfl⟩
  refine ⟨h.sound.frame hready (fun p hp ↦ ?_) rfl rfl, Set.mem_insert_of_mem _ h.current_mem,
    Set.mem_insert_of_mem _ h.idle_mem, fun p hp ↦ Set.mem_insert_of_mem _ (h.queue_mem p hp),
    fun p hp hr ↦ ?_⟩
  · rw [hother p (by rintro rfl; exact hp.elim hcurrent hidle)]
    exact ⟨rfl, rfl⟩
  · have hne : p ≠ thread := by
      rintro rfl
      rw [threads_modifyThread, if_pos rfl, ht] at hr
      cases hr
    rw [hother p hne] at hr
    exact h.running p (Set.mem_of_mem_insert_of_ne hp hne) hr

theorem managed_init {bootThread name : UInt64}
    (h : schedulerInit bootThread name s = .ok () s') : Managed s' {bootThread} [] := by
  have hends : Ends (schedulerInit bootThread name) s
      (fun _ s' ↦ s'.sched.current = bootThread ∧ s'.sched.idle = bootThread)
      (fun _ _ ↦ True) :=
    ends_failIf (fun _ ↦ trivial) fun _ ↦ ends_of_ok rfl ⟨rfl, rfl⟩
  obtain ⟨hcurrent, hidle⟩ := hends.of_eq_ok h
  obtain ⟨l, hI, hl⟩ := consistent_init h
  obtain rfl : [] = l := hl
  refine ⟨hI.sound, hcurrent, hidle, fun p hp ↦ absurd hp List.not_mem_nil, fun p hp _ ↦ .inl ?_⟩
  rw [hcurrent]
  exact hp

/-! ## Runs -/

/-- The states that calls lead to after `mcsos_scheduler_init`, with the threads that the scheduler
was given.  Preparing, enqueuing and marking appear only where they succeed, since they change
nothing otherwise. -/
inductive Runs : State → Set Ptr → Prop
  | init {s s' : State} {bootThread name : UInt64}
      (h : schedulerInit bootThread name s = .ok () s') : Runs s' {bootThread}
  | prepare {s s' : State} {T : Set Ptr}
      {trampoline thread name entry arg stackBase stackSize id : UInt64} (hs : Runs s T)
      (hcurrent : thread ≠ s.sched.current) (hidle : thread ≠ s.sched.idle)
      (hready : thread ∉ readyList s)
      (h : threadPrepare trampoline thread name entry arg stackBase stackSize id s = .ok () s') :
      Runs s' (insert thread T)
  | enqueue {s s' : State} {T : Set Ptr} {thread : Ptr} (hs : Runs s T)
      (hready : thread ∉ readyList s) (h : schedEnqueue thread s = .ok () s') :
      Runs s' (insert thread T)
  | markReady {s s' : State} {T : Set Ptr} {thread : Ptr} (hs : Runs s T)
      (h : threadMarkReady thread s = .ok () s') : Runs s' (insert thread T)
  | pickNext {s : State} {T : Set Ptr} (hs : Runs s T) : Runs (schedPickNext s).2 T
  | yield {s : State} {T : Set Ptr} (hs : Runs s T) : Runs (after schedYield s) T
  | blockCurrent {s : State} {T : Set Ptr} (hs : Runs s T) : Runs (after threadBlockCurrent s) T
  | tick {s : State} {T : Set Ptr} (hs : Runs s T) : Runs (after schedTick s) T

theorem Runs.managed (hr : Runs s T) : ∃ l, Managed s T l := by
  induction hr with
  | init h => exact ⟨[], managed_init h⟩
  | prepare _ hcurrent hidle hready h ih =>
    obtain ⟨l, hl⟩ := ih
    obtain ⟨t, ht, rfl⟩ := threadPrepare_ends.of_eq_ok h
    rw [hl.sound.ready.readyList_eq] at hready
    exact ⟨l, hl.prepare ht hcurrent hidle hready⟩
  | enqueue _ hready h ih =>
    obtain ⟨l, hl⟩ := ih
    obtain ⟨rfl, hvalid, hstate⟩ := schedEnqueue_ends.of_eq_ok h
    rw [hl.sound.ready.readyList_eq] at hready
    exact ⟨_, hl.append hvalid hstate hready⟩
  | markReady _ h ih =>
    obtain ⟨l, hl⟩ := ih
    obtain ⟨rfl, hvalid, hblocked⟩ := threadMarkReady_ends.of_eq_ok h
    refine ⟨_, hl.append hvalid (by rw [hblocked]; decide) fun hc ↦ ?_⟩
    rw [hl.sound.ready.state _ hc] at hblocked
    cases hblocked
  | pickNext _ ih =>
    obtain ⟨l, hl⟩ := ih
    exact hl.pickNext
  | yield _ ih =>
    obtain ⟨l, hl⟩ := ih
    exact hl.yield
  | blockCurrent _ ih =>
    obtain ⟨l, hl⟩ := ih
    exact hl.blockCurrent
  | tick _ ih =>
    obtain ⟨l, hl⟩ := ih
    exact ⟨l, hl.tick⟩

/-! ## Enqueuing twice -/

/-- A thread in the queue is accepted once more. -/
theorem Sound.schedEnqueue_of_mem (h : Sound s l) (hp : p ∈ l) :
    schedEnqueue p s = .ok () (Sched.append p s) := by
  rw [schedEnqueue, bind_of_ok (get_apply s), bind_of_ok (failIf_of_neg _ _ s),
    bind_of_ok (failIf_of_neg _ _ s)]
  · rfl
  · rw [h.ready.state p hp]
    decide
  · rw [h.ready.initialized, h.ready.valid hp]
    decide

/-- **The queue is sound as long as no thread is enqueued twice.**  In every state of every such run
`mcsos_sched_validate` is satisfied and `mcsos_sched_ready_count` returns.  Enqueuing a thread that
is in the queue is never rejected, so that it is safe only where there is none. -/
theorem enqueue_safe_iff (hr : Runs s T) :
    schedValidate s = some (.ok ()) ∧ schedReadyCount s = some s.sched.runnableCount ∧
    ((∀ p ∈ readyList s, errorOf (schedEnqueue p) s ≠ none ∧ after (schedEnqueue p) s = s) ↔
      readyList s = []) := by
  obtain ⟨l, hl⟩ := hr.managed
  refine ⟨hl.sound.schedValidate_eq_ok, hl.sound.ready.schedReadyCount_eq, ?_⟩
  rw [hl.sound.ready.readyList_eq]
  constructor
  · intro h
    refine List.eq_nil_iff_forall_not_mem.2 fun p hp ↦ (h p hp).1 ?_
    exact errorOf_of_ok (hl.sound.schedEnqueue_of_mem hp)
  · rintro rfl p hp
    exact absurd hp List.not_mem_nil

theorem Runs.readyList_eq_nil (hr : Runs s T) (h : s.sched.readyHead = 0) : readyList s = [] := by
  obtain ⟨l, hl⟩ := hr.managed
  rw [hl.sound.ready.readyList_eq]
  exact hl.sound.ready.queue.linked.eq_null_iff.1 h

/-- The boot thread alone. -/
def booted : State := after (schedulerInit 0x1000 0) blankState

/-- A second thread has been prepared. -/
def prepared : State := after (threadPrepare 0x8000 0x2000 0 0x9000 0 0x10000 8192 1) booted

/-- The second thread has been enqueued. -/
def enqueued : State := after (schedEnqueue 0x2000) prepared

theorem runs_booted : Runs booted {0x1000} := .init (eq_ok_of_errorOf (by decide +kernel))

theorem runs_enqueued : Runs enqueued (insert 0x2000 (insert 0x2000 {0x1000})) := by
  have hprepared : Runs prepared (insert 0x2000 {0x1000}) := by
    refine .prepare runs_booted (by decide) (by decide) ?_ (eq_ok_of_errorOf (by decide +kernel))
    rw [runs_booted.readyList_eq_nil rfl]
    exact List.not_mem_nil
  refine .enqueue hprepared ?_ (eq_ok_of_errorOf (by decide +kernel))
  rw [hprepared.readyList_eq_nil (by decide +kernel)]
  exact List.not_mem_nil

/-- With a thread in the queue, the queue is valid and of length one, but not safe from that thread
being enqueued again. -/
theorem enqueue_safe_enqueued : schedValidate enqueued = some (.ok ()) ∧
    schedReadyCount enqueued = some 1 ∧
    ¬ ∀ p ∈ readyList enqueued, errorOf (schedEnqueue p) enqueued ≠ none ∧
      after (schedEnqueue p) enqueued = enqueued := by
  obtain ⟨hvalid, hcount, hiff⟩ := enqueue_safe_iff runs_enqueued
  have hone : enqueued.sched.runnableCount = 1 := by decide +kernel
  refine ⟨hvalid, hone ▸ hcount, fun hsafe ↦ ?_⟩
  have hnil := hiff.1 hsafe
  revert hnil
  decide +kernel

/-- **A thread can be enqueued twice.**  It becomes its own successor; the queue is not valid any
more, and counting it does not end. -/
theorem queued_thread_enqueued_again :
    Runs enqueued (insert 0x2000 (insert 0x2000 {0x1000})) ∧ 0x2000 ∈ readyList enqueued ∧
      errorOf (schedEnqueue 0x2000) enqueued = none ∧
      schedValidate (after (schedEnqueue 0x2000) enqueued) = some (.error .ecorrupt) ∧
      schedReadyCount (after (schedEnqueue 0x2000) enqueued) = none := by
  refine ⟨runs_enqueued, by decide +kernel, by decide +kernel, ?_, ?_⟩
  · decide +kernel
  · have hinit : (after (schedEnqueue 0x2000) enqueued).sched.initialized = true := by
      decide +kernel
    have hhead : (after (schedEnqueue 0x2000) enqueued).sched.readyHead = 0x2000 := by
      decide +kernel
    have hnext : ((after (schedEnqueue 0x2000) enqueued).threads 0x2000).next = 0x2000 := by
      decide +kernel
    rw [schedReadyCount, hinit, if_neg (by decide), hhead]
    exact readyCountLoop_of_next_self (by decide) hnext _ _

/-! ## Running threads -/

/-- **When there is one running thread.**  The current thread always runs, and so does the idle
thread, even when another one is current. -/
theorem single_running_iff (hr : Runs s T) :
    (s.sched.current ∈ T ∧ ∀ p ∈ T, (s.threads p).state = .running ↔ p = s.sched.current) ↔
      s.sched.current = s.sched.idle := by
  obtain ⟨l, hl⟩ := hr.managed
  constructor
  · intro h
    exact ((h.2 _ hl.idle_mem).1 hl.sound.running_idle).symm
  · intro h
    refine ⟨hl.current_mem, fun p hp ↦ ⟨fun hr ↦ ?_, ?_⟩⟩
    · rcases hl.running p hp hr with hc | hc
      · exact hc
      · rw [h, hc]
    · rintro rfl
      exact hl.sound.running

/-- The second thread has run and is blocked, so that the boot thread is current again. -/
theorem single_running_blocked : ∃ s, Runs s (insert 0x2000 (insert 0x2000 {0x1000})) ∧
    (s.threads 0x2000).state = .blocked ∧
    ∀ p ∈ (insert 0x2000 (insert 0x2000 {0x1000}) : Set Ptr),
      (s.threads p).state = .running ↔ p = s.sched.current := by
  have hcurrent : (after threadBlockCurrent (after schedYield enqueued)).sched.current
      = (after threadBlockCurrent (after schedYield enqueued)).sched.idle := by
    decide +kernel
  have hruns := runs_enqueued.yield.blockCurrent
  exact ⟨_, hruns, by decide +kernel, ((single_running_iff hruns).2 hcurrent).2⟩

/-- **Two threads can be running.**  The boot thread gives way to the second thread, but remains in
the state it had. -/
theorem two_threads_running :
    Runs (after schedYield enqueued) (insert 0x2000 (insert 0x2000 {0x1000})) ∧
      (after schedYield enqueued).sched.current = 0x2000 ∧
      ((after schedYield enqueued).threads 0x2000).state = .running ∧
      ((after schedYield enqueued).threads 0x1000).state = .running := by
  refine ⟨runs_enqueued.yield, ?_⟩
  decide +kernel

end Sched
end Mcsos
