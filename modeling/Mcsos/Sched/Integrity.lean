import Mathlib.Data.List.Perm.Subperm
import Mcsos.Lib.LinkedQueue
import Mcsos.Sched.Thread

/-!
# The ready queue

`Ready s l` says that the queue of a state is in order and holds the threads of `l`.  It is kept by
`append` and `dropHead`, the two places where the code changes links, and by whatever leaves the
queue alone.  `schedYield_spec` says what a call of `mcsos_sched_yield` does to the queue, the
current thread and the states of all threads.

`Inv` adds where the threads are.  `queue_integrity` says that it holds in every run, and that the
queue is one: what has entered it is what has left it, and then what is in it.
-/

set_option autoImplicit false

namespace Mcsos
namespace Sched

open Program LinkedQueue

variable {s s' : State} {p q : Ptr} {l : List Ptr}

/-! ## Changes of memory -/

section Fields

theorem threads_modifyThread (f : Thread → Thread) :
    (s.modifyThread p f).threads q = if q = p then f (s.threads q) else s.threads q := by
  show Function.update s.threads p _ q = _
  rw [Function.update_apply]
  split
  · rename_i h
    rw [h]
  · rfl

/-- What an update does not touch stays as it is, in all threads. -/
theorem field_modifyThread {α : Type} {f : Thread → Thread} (g : Thread → α)
    (hg : ∀ t, g (f t) = g t) : g ((s.modifyThread p f).threads q) = g (s.threads q) := by
  rw [threads_modifyThread]
  split
  · exact hg _
  · rfl

@[simp] theorem sched_modifyThread (f : Thread → Thread) :
    (s.modifyThread p f).sched = s.sched := rfl

@[simp] theorem sched_setState (st : ThreadState) : (setState p st s).sched = s.sched := rfl

@[simp] theorem sched_setNext : (setNext p q s).sched = s.sched := rfl

theorem state_setState (st : ThreadState) :
    ((setState p st s).threads q).state = if q = p then st else (s.threads q).state := by
  rw [setState, threads_modifyThread]
  split <;> rfl

@[simp] theorem next_setState (st : ThreadState) :
    ((setState p st s).threads q).next = (s.threads q).next :=
  field_modifyThread Thread.next fun _ ↦ rfl

@[simp] theorem magic_setState (st : ThreadState) :
    ((setState p st s).threads q).magic = (s.threads q).magic :=
  field_modifyThread Thread.magic fun _ ↦ rfl

theorem next_setNext {r : Ptr} :
    ((setNext p r s).threads q).next = if q = p then r else (s.threads q).next := by
  rw [setNext, threads_modifyThread]
  split <;> rfl

@[simp] theorem state_setNext {r : Ptr} :
    ((setNext p r s).threads q).state = (s.threads q).state :=
  field_modifyThread Thread.state fun _ ↦ rfl

@[simp] theorem magic_setNext {r : Ptr} :
    ((setNext p r s).threads q).magic = (s.threads q).magic :=
  field_modifyThread Thread.magic fun _ ↦ rfl

@[simp] theorem next_countSwitch : ((countSwitch p s).threads q).next = (s.threads q).next :=
  field_modifyThread Thread.next fun _ ↦ rfl

@[simp] theorem state_countSwitch : ((countSwitch p s).threads q).state = (s.threads q).state :=
  field_modifyThread Thread.state fun _ ↦ rfl

@[simp] theorem magic_countSwitch : ((countSwitch p s).threads q).magic = (s.threads q).magic :=
  field_modifyThread Thread.magic fun _ ↦ rfl

theorem next_append : ((append p s).threads q).next =
    if s.sched.readyTail ≠ 0 ∧ q = s.sched.readyTail then p
    else if q = p then 0 else (s.threads q).next := by
  rw [append]
  by_cases h : s.sched.readyTail = 0
  · simp [h, next_setNext]
  · by_cases hq : q = s.sched.readyTail
    · simp [h, hq, next_setNext]
    · simp [h, hq, next_setNext]

@[simp] theorem state_append :
    ((append p s).threads q).state = if q = p then .ready else (s.threads q).state := by
  rw [append]
  by_cases h : s.sched.readyTail = 0 <;> simp [h, state_setState]

@[simp] theorem magic_append : ((append p s).threads q).magic = (s.threads q).magic := by
  rw [append]
  by_cases h : s.sched.readyTail = 0 <;> simp [h]

theorem sched_append : (append p s).sched =
    { s.sched with
      readyHead := if s.sched.readyTail = 0 then p else s.sched.readyHead
      readyTail := p
      runnableCount := s.sched.runnableCount + 1 } := by
  rw [append]
  by_cases h : s.sched.readyTail = 0 <;> simp [h]

theorem next_dropHead : ((dropHead p s).threads q).next =
    if q = p then 0 else (s.threads q).next := by
  rw [dropHead]
  by_cases h : (s.threads p).next = 0 <;> by_cases h' : 0 < s.sched.runnableCount <;>
    simp [h, h', next_setNext]

@[simp] theorem state_dropHead :
    ((dropHead p s).threads q).state = (s.threads q).state := by
  rw [dropHead]
  by_cases h : (s.threads p).next = 0 <;> by_cases h' : 0 < s.sched.runnableCount <;> simp [h, h']

@[simp] theorem magic_dropHead :
    ((dropHead p s).threads q).magic = (s.threads q).magic := by
  rw [dropHead]
  by_cases h : (s.threads p).next = 0 <;> by_cases h' : 0 < s.sched.runnableCount <;> simp [h, h']

theorem sched_dropHead : (dropHead p s).sched =
    { s.sched with
      readyHead := (s.threads p).next
      readyTail := if (s.threads p).next = 0 then 0 else s.sched.readyTail
      runnableCount := if 0 < s.sched.runnableCount then s.sched.runnableCount - 1
        else s.sched.runnableCount } := by
  rw [dropHead]
  by_cases h : (s.threads p).next = 0 <;> by_cases h' : 0 < s.sched.runnableCount <;> simp [h, h']

@[simp] theorem next_switchTo {r : Ptr} :
    ((switchTo p q s).threads r).next = (s.threads r).next := by
  rw [switchTo]
  exact next_countSwitch.trans (next_countSwitch.trans (next_setState _))

@[simp] theorem magic_switchTo {r : Ptr} :
    ((switchTo p q s).threads r).magic = (s.threads r).magic := by
  rw [switchTo]
  exact magic_countSwitch.trans (magic_countSwitch.trans (magic_setState _))

theorem state_switchTo {r : Ptr} :
    ((switchTo p q s).threads r).state = if r = q then .running else (s.threads r).state := by
  rw [switchTo]
  exact state_countSwitch.trans (state_countSwitch.trans (state_setState _))

theorem sched_switchTo : (switchTo p q s).sched =
    { s.sched with
      current := q
      contextSwitches := s.sched.contextSwitches + 1 } := rfl

end Fields

/-! ## The queue -/

/-- The queue is in order, and its threads are those of `l`. -/
structure Ready (s : State) (l : List Ptr) : Prop where
  initialized : s.sched.initialized = true
  queue : Queue (fun p ↦ (s.threads p).next) 0 s.sched.readyHead s.sched.readyTail l
  count : s.sched.runnableCount.toNat = l.length
  state : ∀ p ∈ l, (s.threads p).state = .ready
  magic : ∀ p ∈ l, (s.threads p).magic = threadMagic

theorem validThreadObject_iff :
    validThreadObject s p = true ↔ p ≠ 0 ∧ (s.threads p).magic = threadMagic := by
  rw [validThreadObject, Bool.and_eq_true, bne_iff_ne, beq_iff_eq]

/-- There are fewer than 2^64 threads. -/
theorem length_lt_of_nodup (h : l.Nodup) (h0 : 0 ∉ l) : l.length < 2 ^ 64 := by
  have hnodup : (0 :: l).Nodup := List.nodup_cons.2 ⟨h0, h⟩
  have hmap : ((0 :: l).map UInt64.toNat).Nodup :=
    hnodup.map fun _ _ h ↦ UInt64.toNat_inj.1 h
  have hsub : (0 :: l).map UInt64.toNat ⊆ List.range (2 ^ 64) := by
    intro n hn
    obtain ⟨p, -, rfl⟩ := List.mem_map.1 hn
    exact List.mem_range.2 p.toNat_lt
  have hlen := (List.subperm_of_subset hmap hsub).length_le
  rw [List.length_map, List.length_cons, List.length_range] at hlen
  exact hlen

namespace Ready

theorem zero_not_mem (h : Ready s l) : 0 ∉ l := fun h0 ↦ h.queue.linked.ne_null h0 rfl

theorem valid (h : Ready s l) (hp : p ∈ l) : validThreadObject s p = true :=
  validThreadObject_iff.2 ⟨h.queue.linked.ne_null hp, h.magic p hp⟩

/-- What leaves the queue alone. -/
theorem frame (h : Ready s l) (hthreads : ∀ p ∈ l, (s'.threads p).next = (s.threads p).next ∧
      (s'.threads p).state = (s.threads p).state ∧ (s'.threads p).magic = (s.threads p).magic)
    (hsched : s'.sched.initialized = s.sched.initialized ∧ s'.sched.readyHead = s.sched.readyHead ∧
      s'.sched.readyTail = s.sched.readyTail ∧ s'.sched.runnableCount = s.sched.runnableCount) :
    Ready s' l := by
  obtain ⟨hinit, hhead, htail, hcount⟩ := hsched
  refine ⟨hinit.trans h.initialized, ?_, by rw [hcount, h.count], fun p hp ↦ ?_, fun p hp ↦ ?_⟩
  · rw [hhead, htail]
    exact h.queue.congr fun p hp ↦ (hthreads p hp).1
  · rw [(hthreads p hp).2.1, h.state p hp]
  · rw [(hthreads p hp).2.2, h.magic p hp]

theorem append (h : Ready s l) (hp : validThreadObject s p = true) (hpl : p ∉ l) :
    Ready (append p s) (l ++ [p]) := by
  obtain ⟨hp0, hmagic⟩ := validThreadObject_iff.1 hp
  have hqueue : Queue (fun q ↦ ((Sched.append p s).threads q).next) 0
      (Sched.append p s).sched.readyHead (Sched.append p s).sched.readyTail (l ++ [p]) := by
    rw [sched_append]
    by_cases hl : l = []
    · subst hl
      have htail : s.sched.readyTail = 0 := h.queue.tail_eq_null_iff.2 rfl
      dsimp only
      rw [if_pos htail]
      refine .singleton hp0 ?_
      rw [next_append, if_neg (fun hc ↦ hc.1 htail), if_pos rfl]
    · have htail : s.sched.readyTail ≠ 0 := mt h.queue.tail_eq_null_iff.1 hl
      dsimp only
      rw [if_neg htail]
      refine h.queue.push hl hp0 hpl ?_ ?_ fun r hr hne ↦ ?_
      · have hne : p ≠ s.sched.readyTail := by
          rintro rfl
          refine hpl ?_
          obtain ⟨t, ht⟩ := Option.ne_none_iff_exists'.1 (mt List.getLast?_eq_none_iff.1 hl)
          rw [h.queue.last, ht]
          exact List.mem_of_getLast? ht
        rw [next_append, if_neg (fun hc ↦ hne hc.2), if_pos rfl]
      · rw [next_append, if_pos ⟨htail, rfl⟩]
      · rw [next_append, if_neg (fun hc ↦ hne hc.2), if_neg (by rintro rfl; exact hpl hr)]
  refine ⟨?_, hqueue, ?_, fun q hq ↦ ?_, fun q hq ↦ ?_⟩
  · rw [sched_append]
    exact h.initialized
  · have hlt : (l ++ [p]).length < 2 ^ 64 := by
      refine length_lt_of_nodup hqueue.nodup ?_
      rw [List.mem_append, List.mem_singleton, not_or]
      exact ⟨h.zero_not_mem, hp0.symm⟩
    rw [List.length_append, List.length_singleton] at hlt ⊢
    rw [sched_append]
    dsimp only
    rw [UInt64.toNat_add, h.count]
    exact Nat.mod_eq_of_lt hlt
  · rw [state_append]
    split
    · rfl
    · rename_i hne
      exact h.state q ((List.mem_append.1 hq).resolve_right fun hc ↦ hne (List.mem_singleton.1 hc))
  · rw [magic_append]
    rcases List.mem_append.1 hq with hq | hq
    · exact h.magic q hq
    · rw [List.mem_singleton.1 hq, hmagic]

theorem dropHead (h : Ready s (p :: l)) : Ready (dropHead p s) l := by
  have hhead : s.sched.readyHead = p := h.queue.linked.1
  have hpl : p ∉ l := (List.nodup_cons.1 h.queue.nodup).1
  have hcount := h.count
  rw [List.length_cons] at hcount
  refine ⟨?_, ?_, ?_, fun q hq ↦ ?_, fun q hq ↦ ?_⟩
  · rw [sched_dropHead]
    exact h.initialized
  · have hpop := h.queue.pop
    rw [hhead] at hpop
    rw [sched_dropHead]
    refine hpop.congr fun q hq ↦ ?_
    rw [next_dropHead, if_neg (by rintro rfl; exact hpl hq)]
  · rw [sched_dropHead]
    have hpos : 0 < s.sched.runnableCount := by
      rw [UInt64.lt_iff_toNat_lt, hcount]
      exact Nat.succ_pos _
    dsimp only
    rw [if_pos hpos, UInt64.toNat_sub_of_le _ _ hpos, hcount]
    rfl
  · rw [state_dropHead]
    exact h.state q (List.mem_cons_of_mem _ hq)
  · rw [magic_dropHead]
    exact h.magic q (List.mem_cons_of_mem _ hq)

end Ready

/-! ## Yielding -/

/-- The thread that `mcsos_sched_yield` puts back into the queue. -/
def putBack (s : State) : List Ptr :=
  if (s.threads s.sched.current).state = .running ∧ s.sched.current ≠ s.sched.idle then
    [s.sched.current] else []

theorem mem_putBack : p ∈ putBack s ↔ p = s.sched.current ∧
    (s.threads s.sched.current).state = .running ∧ s.sched.current ≠ s.sched.idle := by
  rw [putBack]
  split
  · rename_i h
    rw [List.mem_singleton]
    exact ⟨fun hp ↦ ⟨hp, h⟩, fun hp ↦ hp.1⟩
  · rename_i h
    exact iff_of_false List.not_mem_nil fun hp ↦ h hp.2

/-- What `mcsos_sched_yield` does to a state whose queue is `l`, when it switches to `next`. -/
structure Switched (s : State) (l : List Ptr) (next : Ptr) (s' : State) : Prop where
  ready : Ready s' (l ++ putBack s)
  current : s'.sched.current = next
  idle : s'.sched.idle = s.sched.idle
  state : ∀ p, (s'.threads p).state = if p = next then .running
    else if p ∈ putBack s then .ready else (s.threads p).state
  magic : ∀ p, (s'.threads p).magic = (s.threads p).magic
  contextSwitches : s'.sched.contextSwitches = if next = s.sched.current then
    s.sched.contextSwitches else s.sched.contextSwitches + 1

theorem requeue_spec (h : Ready s l) (hp : validThreadObject s s.sched.current = true)
    (hpl : s.sched.current ∉ l) :
    ∃ s', requeue s.sched.current s = .ok () s' ∧ s'.sched.idle = s.sched.idle ∧
      s'.sched.contextSwitches = s.sched.contextSwitches ∧
      (∀ q, (s'.threads q).magic = (s.threads q).magic) ∧ Ready s' (l ++ putBack s) ∧
      ∀ q, (s'.threads q).state = if q ∈ putBack s then .ready else (s.threads q).state := by
  by_cases hc : (s.threads s.sched.current).state = .running ∧ s.sched.current ≠ s.sched.idle
  · have hne : ∀ q ∈ l, q ≠ s.sched.current := fun q hq hqp ↦ hpl (hqp ▸ hq)
    have hback : putBack s = [s.sched.current] := if_pos hc
    generalize s.sched.current = p at *
    have hready : Ready (setState p .ready s) l := by
      refine h.frame (fun q hq ↦ ⟨next_setState _, ?_, magic_setState _⟩) ⟨rfl, rfl, rfl, rfl⟩
      rw [state_setState, if_neg (hne q hq)]
    have hvalid : validThreadObject (setState p .ready s) p = true := by
      rw [validThreadObject_iff, magic_setState]
      exact validThreadObject_iff.1 hp
    have hrun : requeue p s = .ok () (append p (setState p .ready s)) := by
      rw [requeue, bind_of_ok (get_apply s), if_pos hc]
      have hmod : (modify (setState p .ready) : EStateM Err State PUnit) s
          = .ok ⟨⟩ (setState p .ready s) := rfl
      rw [bind_of_ok hmod, schedEnqueue, bind_of_ok (get_apply _),
        bind_of_ok (failIf_of_neg _ _ _), bind_of_ok (failIf_of_neg _ _ _)]
      · rfl
      · rw [state_setState, if_pos rfl]
        decide
      · rw [hvalid, hready.initialized]
        decide
    rw [hback]
    refine ⟨_, hrun, by rw [sched_append]; rfl, by rw [sched_append]; rfl,
      fun q ↦ by rw [magic_append, magic_setState],
      hready.append hvalid hpl, fun q ↦ ?_⟩
    rw [state_append, state_setState]
    simp only [List.mem_singleton]
    split <;> rfl
  · have hback : putBack s = [] := if_neg hc
    rw [hback, List.append_nil]
    refine ⟨s, ?_, rfl, rfl, fun _ ↦ rfl, h, fun q ↦ (if_neg List.not_mem_nil).symm⟩
    rw [requeue, bind_of_ok (get_apply s), if_neg hc]
    rfl

theorem requeue_switchTo_spec (next : Ptr) (h : Ready s l)
    (hp : validThreadObject s s.sched.current = true) (hpl : s.sched.current ∉ l)
    (hne : next ≠ s.sched.current) (hnl : next ∉ l) :
    ∃ s', (requeue s.sched.current >>= fun _ ↦ modify (switchTo s.sched.current next)) s
      = .ok () s' ∧ Switched s l next s' := by
  obtain ⟨s1, hrun, hidle, hcount, hmagic, hready, hstate⟩ := requeue_spec h hp hpl
  have hnext : next ∉ l ++ putBack s := by
    rw [List.mem_append, mem_putBack, not_or]
    exact ⟨hnl, fun hc ↦ hne hc.1⟩
  refine ⟨switchTo s.sched.current next s1, by rw [bind_of_ok hrun]; rfl, ?_, rfl, hidle,
    fun p ↦ by rw [state_switchTo, hstate], fun p ↦ by rw [magic_switchTo, hmagic],
    by rw [sched_switchTo, hcount, if_neg hne]⟩
  refine hready.frame (fun p hp ↦ ⟨next_switchTo, ?_, magic_switchTo⟩) ⟨rfl, rfl, rfl, rfl⟩
  rw [state_switchTo, if_neg]
  rintro rfl
  exact hnext hp

/-- What `mcsos_sched_yield` needs of a state: the current thread may have been blocked. -/
structure CanYield (s : State) (l : List Ptr) : Prop where
  ready : Ready s l
  valid : validThreadObject s s.sched.current = true
  valid_idle : validThreadObject s s.sched.idle = true
  current_not_mem : s.sched.current ∉ l

/-- The first thread of the queue is the next one to run, or the idle thread if there is none. -/
theorem schedYield_spec (h : CanYield s l) :
    ∃ s', schedYield s = .ok () s' ∧ Switched s l.tail (l.head?.getD s.sched.idle) s' := by
  rw [schedYield, bind_of_ok (get_apply s), bind_of_ok (failIf_of_neg _ _ _)]
  swap
  · rw [h.valid, h.ready.initialized]
    decide
  cases l with
  | nil =>
    have hpick : (modifyGet schedPickNext : EStateM Err State Ptr) s = .ok s.sched.idle s := by
      show (match schedPickNext s with | (a, s') => EStateM.Result.ok a s') = _
      rw [schedPickNext, h.ready.initialized, if_neg (by decide)]
      dsimp only
      rw [if_pos (h.ready.queue.linked.eq_null_iff.2 rfl)]
    rw [bind_of_ok hpick, bind_of_ok (get_apply s),
      bind_of_ok (failIf_of_neg (by rw [h.valid_idle]; decide) _ _)]
    by_cases hidle : s.sched.idle = s.sched.current
    · have hback : putBack s = [] := if_neg fun hc ↦ hc.2 hidle.symm
      rw [if_pos hidle]
      refine ⟨setState s.sched.current .running s, rfl, ?_, hidle.symm, rfl, fun p ↦ ?_,
        fun p ↦ magic_setState _, (if_pos hidle).symm⟩
      · rw [hback]
        exact h.ready.frame (fun p hp ↦ absurd hp List.not_mem_nil) ⟨rfl, rfl, rfl, rfl⟩
      · rw [state_setState, hback, if_neg (c := p ∈ []) List.not_mem_nil, hidle]
        rfl
    · rw [if_neg hidle]
      exact requeue_switchTo_spec _ h.ready h.valid h.current_not_mem hidle List.not_mem_nil
  | cons p l =>
    have hhead : s.sched.readyHead = p := h.ready.queue.linked.1
    have hp0 : p ≠ 0 := h.ready.queue.linked.2.1
    have hne : p ≠ s.sched.current := fun hc ↦ h.current_not_mem (hc ▸ List.mem_cons_self)
    have hsched : (dropHead p s).sched.current = s.sched.current ∧
        (dropHead p s).sched.idle = s.sched.idle ∧
        (dropHead p s).sched.contextSwitches = s.sched.contextSwitches := by
      rw [sched_dropHead]
      exact ⟨rfl, rfl, rfl⟩
    have hpick : (modifyGet schedPickNext : EStateM Err State Ptr) s = .ok p (dropHead p s) := by
      show (match schedPickNext s with | (a, s') => EStateM.Result.ok a s') = _
      rw [schedPickNext, h.ready.initialized, if_neg (by decide)]
      dsimp only
      rw [hhead, if_neg hp0]
    have hvalid : ∀ q, validThreadObject s q = true →
        validThreadObject (dropHead p s) q = true := fun q hq ↦ by
      rw [validThreadObject_iff, magic_dropHead]
      exact validThreadObject_iff.1 hq
    have hpvalid := hvalid p (h.ready.valid List.mem_cons_self)
    rw [bind_of_ok hpick, bind_of_ok (get_apply _),
      bind_of_ok (failIf_of_neg (by rw [hpvalid]; decide) _ _), if_neg hne]
    obtain ⟨s', hrun, hsw⟩ := requeue_switchTo_spec p h.ready.dropHead
      (hsched.1.symm ▸ hvalid _ h.valid)
      (hsched.1.symm ▸ fun hc ↦ h.current_not_mem (List.mem_cons_of_mem _ hc))
      (hsched.1.symm ▸ hne) (List.nodup_cons.1 h.ready.queue.nodup).1
    have hback : putBack (dropHead p s) = putBack s := by
      rw [putBack, putBack, hsched.1, hsched.2.1, state_dropHead]
    rw [hsched.1] at hrun
    refine ⟨s', hrun, ?_, hsw.current, hsw.idle.trans hsched.2.1, fun q ↦ ?_, fun q ↦ ?_, ?_⟩
    · rw [← hback]
      exact hsw.ready
    · rw [hsw.state, hback, state_dropHead]
      rfl
    · rw [hsw.magic, magic_dropHead]
    · rw [hsw.contextSwitches, hsched.1, hsched.2.2]
      rfl

/-! ## Sound states -/

/-- The queue is in order, and the current thread and the idle thread are proper threads that are
running. -/
structure Sound (s : State) (l : List Ptr) : Prop where
  ready : Ready s l
  running : (s.threads s.sched.current).state = .running
  running_idle : (s.threads s.sched.idle).state = .running
  valid : validThreadObject s s.sched.current = true
  valid_idle : validThreadObject s s.sched.idle = true

namespace Sound

theorem not_mem_of_running (h : Sound s l) (hp : (s.threads p).state = .running) : p ∉ l := by
  intro hpl
  rw [h.ready.state p hpl] at hp
  cases hp

theorem current_not_mem (h : Sound s l) : s.sched.current ∉ l := h.not_mem_of_running h.running

theorem idle_not_mem (h : Sound s l) : s.sched.idle ∉ l := h.not_mem_of_running h.running_idle

theorem canYield (h : Sound s l) : CanYield s l :=
  ⟨h.ready, h.valid, h.valid_idle, h.current_not_mem⟩

/-- Calls that leave the queue alone, and the states of the current and the idle thread. -/
theorem frame (h : Sound s l) (hready : Ready s' l)
    (hthreads : ∀ p, p = s.sched.current ∨ p = s.sched.idle →
      (s'.threads p).state = (s.threads p).state ∧ (s'.threads p).magic = (s.threads p).magic)
    (hcurrent : s'.sched.current = s.sched.current) (hidle : s'.sched.idle = s.sched.idle) :
    Sound s' l := by
  have hvalid : ∀ p, p = s.sched.current ∨ p = s.sched.idle → validThreadObject s p = true →
      validThreadObject s' p = true := by
    intro p hp hv
    rw [validThreadObject_iff] at hv ⊢
    rw [(hthreads p hp).2]
    exact hv
  refine ⟨hready, ?_, ?_, ?_, ?_⟩
  · rw [hcurrent, (hthreads _ (.inl rfl)).1, h.running]
  · rw [hidle, (hthreads _ (.inr rfl)).1, h.running_idle]
  · rw [hcurrent]
    exact hvalid _ (.inl rfl) h.valid
  · rw [hidle]
    exact hvalid _ (.inr rfl) h.valid_idle

/-- A thread that does not run enters the queue. -/
theorem append (h : Sound s l) (hp : validThreadObject s p = true)
    (hstate : (s.threads p).state ≠ .running) (hpl : p ∉ l) :
    Sound (append p s) (l ++ [p]) := by
  obtain ⟨hready, hrunning, hidle, hvalid, hvalid_idle⟩ := h
  have hne : ∀ q, (s.threads q).state = .running → q ≠ p := by
    rintro q hq rfl
    exact hstate hq
  have hv : ∀ q, validThreadObject s q = true →
      validThreadObject (Sched.append p s) q = true := by
    intro q hq
    rw [validThreadObject_iff, magic_append]
    exact validThreadObject_iff.1 hq
  refine ⟨hready.append hp hpl, ?_, ?_, ?_, ?_⟩ <;> rw [sched_append]
  · rw [state_append, if_neg (hne _ hrunning), hrunning]
  · rw [state_append, if_neg (hne _ hidle), hidle]
  · exact hv _ hvalid
  · exact hv _ hvalid_idle

/-- The current thread goes to the end of the queue, or is blocked, and the next one runs. -/
theorem switched (h : Sound s l) {s1 : State} (hsched : s1.sched = s.sched)
    (hmagic : ∀ p, (s1.threads p).magic = (s.threads p).magic)
    (hstate : ∀ p, p ≠ s.sched.current → (s1.threads p).state = (s.threads p).state)
    (hcurrent : (s1.threads s.sched.current).state = .running ∨
      (s1.threads s.sched.current).state = .blocked ∧ s.sched.current ≠ s.sched.idle)
    (hsw : Switched s1 l.tail (l.head?.getD s.sched.idle) s') :
    Sound s' (l.tail ++ putBack s1) := by
  have hvalid : ∀ p, validThreadObject s p = true → validThreadObject s' p = true := by
    intro p hp
    rw [validThreadObject_iff, hsw.magic, hmagic]
    exact validThreadObject_iff.1 hp
  have hidle : s'.sched.idle = s.sched.idle := hsw.idle.trans (by rw [hsched])
  have hback : s.sched.idle ∉ putBack s1 := by
    rw [mem_putBack, hsched]
    exact fun hc ↦ hc.2.2 hc.1.symm
  refine ⟨hsw.ready, ?_, ?_, ?_, ?_⟩
  · rw [hsw.state, if_pos hsw.current]
  · rw [hidle, hsw.state, if_neg hback]
    split
    · rfl
    · by_cases hci : s.sched.idle = s.sched.current
      · rw [hci]
        exact hcurrent.resolve_right fun hc ↦ hc.2 hci.symm
      · rw [hstate _ hci, h.running_idle]
  · rw [hsw.current]
    cases l with
    | nil => exact hvalid _ h.valid_idle
    | cons p l => exact hvalid _ (h.ready.valid List.mem_cons_self)
  · rw [hidle]
    exact hvalid _ h.valid_idle

end Sound

/-! ## Where the threads are -/

/-- The queue is in order, and every thread that has ever entered it is the current one, in the
queue, or blocked. -/
structure Inv (s : State) (entered l : List Ptr) : Prop where
  ready : Ready s l
  running : (s.threads s.sched.current).state = .running
  running_idle : (s.threads s.sched.idle).state = .running
  valid_idle : validThreadObject s s.sched.idle = true
  idle_not_mem : s.sched.idle ∉ entered
  current : s.sched.current = s.sched.idle ∨ s.sched.current ∈ entered
  mem_entered : ∀ p ∈ l, p ∈ entered
  valid : ∀ p ∈ entered, validThreadObject s p = true
  place : ∀ p ∈ entered, p = s.sched.current ∨ p ∈ l ∨ (s.threads p).state = .blocked

namespace Inv

variable {entered : List Ptr}

theorem valid_current (h : Inv s entered l) : validThreadObject s s.sched.current = true := by
  rcases h.current with hc | hc
  · rw [hc]
    exact h.valid_idle
  · exact h.valid _ hc

theorem sound (h : Inv s entered l) : Sound s l :=
  ⟨h.ready, h.running, h.running_idle, h.valid_current, h.valid_idle⟩

theorem current_not_mem (h : Inv s entered l) : s.sched.current ∉ l := h.sound.current_not_mem

/-- Calls that change neither the queue nor the states of the threads that have entered it. -/
theorem frame (h : Inv s entered l)
    (hthreads : ∀ p, p = s.sched.idle ∨ p ∈ entered → (s'.threads p).next = (s.threads p).next ∧
      (s'.threads p).state = (s.threads p).state ∧ (s'.threads p).magic = (s.threads p).magic)
    (hsched : s'.sched.initialized = s.sched.initialized ∧ s'.sched.readyHead = s.sched.readyHead ∧
      s'.sched.readyTail = s.sched.readyTail ∧ s'.sched.runnableCount = s.sched.runnableCount ∧
      s'.sched.current = s.sched.current ∧ s'.sched.idle = s.sched.idle) :
    Inv s' entered l := by
  obtain ⟨hinit, hhead, htail, hcount, hcurrent, hidle⟩ := hsched
  have hvalid : ∀ p, p = s.sched.idle ∨ p ∈ entered → validThreadObject s p = true →
      validThreadObject s' p = true := fun p hp hv ↦ by
    rw [validThreadObject_iff] at hv ⊢
    rw [(hthreads p hp).2.2]
    exact hv
  refine ⟨h.ready.frame (fun p hp ↦ hthreads p (.inr (h.mem_entered p hp)))
    ⟨hinit, hhead, htail, hcount⟩, ?_, ?_, ?_, ?_, ?_, h.mem_entered, ?_, fun p hp ↦ ?_⟩
  · rw [hcurrent, (hthreads _ h.current).2.1, h.running]
  · rw [hidle, (hthreads _ (.inl rfl)).2.1, h.running_idle]
  · rw [hidle]
    exact hvalid _ (.inl rfl) h.valid_idle
  · rw [hidle]
    exact h.idle_not_mem
  · rw [hcurrent, hidle]
    exact h.current
  · exact fun p hp ↦ hvalid p (.inr hp) (h.valid p hp)
  · rw [hcurrent, (hthreads p (.inr hp)).2.1]
    exact h.place p hp

/-- A thread enters the queue. -/
theorem append (h : Inv s entered l) (hp : validThreadObject s p = true)
    (h1 : (s.threads p).state ≠ .running) (h2 : (s.threads p).state ≠ .ready) :
    Inv (append p s) (entered ++ [p]) (l ++ [p]) := by
  have hidle : s.sched.idle ≠ p := by
    rintro rfl
    exact h1 h.running_idle
  have hsched : (Sched.append p s).sched.current = s.sched.current ∧
      (Sched.append p s).sched.idle = s.sched.idle := by
    rw [sched_append]
    exact ⟨rfl, rfl⟩
  have hvalid : ∀ q, validThreadObject s q = true →
      validThreadObject (Sched.append p s) q = true := fun q hq ↦ by
    rw [validThreadObject_iff, magic_append]
    exact validThreadObject_iff.1 hq
  obtain ⟨hready, hrunning, hrunning_idle, -, hvalid_idle⟩ :=
    h.sound.append hp h1 fun hc ↦ h2 (h.ready.state p hc)
  refine ⟨hready, hrunning, hrunning_idle, hvalid_idle, ?_, ?_, fun q hq ↦ ?_, fun q hq ↦ ?_,
    fun q hq ↦ ?_⟩
  · rw [hsched.2, List.mem_append, List.mem_singleton, not_or]
    exact ⟨h.idle_not_mem, hidle⟩
  · rw [hsched.1, hsched.2, List.mem_append]
    exact h.current.imp_right .inl
  · exact List.mem_append.2 ((List.mem_append.1 hq).imp_left (h.mem_entered q))
  · rcases List.mem_append.1 hq with hq | hq
    · exact hvalid q (h.valid q hq)
    · rw [List.mem_singleton.1 hq]
      exact hvalid p hp
  · rw [hsched.1, List.mem_append, state_append, List.mem_singleton]
    by_cases hqp : q = p
    · exact .inr (.inl (.inr hqp))
    · rw [if_neg hqp]
      have hq' := (List.mem_append.1 hq).resolve_right fun hc ↦ hqp (List.mem_singleton.1 hc)
      exact (h.place q hq').imp_right (Or.imp_left .inl)

/-- The current thread goes to the end of the queue, or is blocked, and the next one runs. -/
theorem switched (h : Inv s entered l) {s1 : State} (hsched : s1.sched = s.sched)
    (hmagic : ∀ p, (s1.threads p).magic = (s.threads p).magic)
    (hstate : ∀ p, p ≠ s.sched.current → (s1.threads p).state = (s.threads p).state)
    (hcurrent : (s1.threads s.sched.current).state = .running ∨
      (s1.threads s.sched.current).state = .blocked ∧ s.sched.current ≠ s.sched.idle)
    (hsw : Switched s1 l.tail (l.head?.getD s.sched.idle) s') :
    Inv s' (entered ++ putBack s1) (l.tail ++ putBack s1) := by
  have hvalid : ∀ p, validThreadObject s p = true → validThreadObject s' p = true := fun p hp ↦ by
    rw [validThreadObject_iff, hsw.magic, hmagic]
    exact validThreadObject_iff.1 hp
  have hback : ∀ {p}, p ∈ putBack s1 → p = s.sched.current ∧ p ≠ s.sched.idle := fun hp ↦ by
    rw [mem_putBack, hsched] at hp
    exact ⟨hp.1, hp.1 ▸ hp.2.2⟩
  have hidle : s'.sched.idle = s.sched.idle := hsw.idle.trans (by rw [hsched])
  have hnext : ∀ p ∈ l, p = l.head?.getD s.sched.idle ∨ p ∈ l.tail := by
    intro p hp
    cases l with
    | nil => exact absurd hp List.not_mem_nil
    | cons q l => exact List.mem_cons.1 hp
  obtain ⟨hready, hrunning, hrunning_idle, -, hvalid_idle⟩ :=
    h.sound.switched hsched hmagic hstate hcurrent hsw
  refine ⟨hready, hrunning, hrunning_idle, hvalid_idle, ?_, ?_, fun p hp ↦ ?_, fun p hp ↦ ?_,
    fun p hp ↦ ?_⟩
  · rw [hidle, List.mem_append, not_or]
    exact ⟨h.idle_not_mem, fun hc ↦ (hback hc).2 rfl⟩
  · rw [hsw.current, hidle]
    cases l with
    | nil => exact .inl rfl
    | cons p l => exact .inr (List.mem_append_left _ (h.mem_entered p List.mem_cons_self))
  · rcases List.mem_append.1 hp with hp | hp
    · exact List.mem_append_left _ (h.mem_entered p (List.mem_of_mem_tail hp))
    · exact List.mem_append_right _ hp
  · rcases List.mem_append.1 hp with hp | hp
    · exact hvalid p (h.valid p hp)
    · rw [(hback hp).1]
      exact hvalid _ h.valid_current
  · rw [hsw.current, hsw.state, List.mem_append]
    by_cases hpn : p = l.head?.getD s.sched.idle
    · exact .inl hpn
    by_cases hpb : p ∈ putBack s1
    · exact .inr (.inl (.inr hpb))
    rw [if_neg hpn, if_neg hpb]
    have hpe := (List.mem_append.1 hp).resolve_right hpb
    by_cases hpc : p = s.sched.current
    · -- the old thread was not put back, so it is blocked
      have hidle' : s.sched.current ≠ s.sched.idle := fun hc ↦
        h.idle_not_mem (hc ▸ hpc ▸ hpe)
      rw [hpc]
      rcases hcurrent with hc | hc
      · refine absurd (mem_putBack.2 ?_) hpb
        rw [hsched]
        exact ⟨hpc, hc, hidle'⟩
      · exact .inr (.inr hc.1)
    · rw [hstate p hpc]
      rcases h.place p hpe with hc | hc | hc
      · exact absurd hc hpc
      · exact .inr (.inl (.inl ((hnext p hc).resolve_left hpn)))
      · exact .inr (.inr hc)

end Inv

end Sched
end Mcsos
