import Mcsos.Sched.Conservation

/-!
# Validation of a queue that may be anything

`mcsos_sched_validate` walks along the `next` pointers from the head of the queue, and it is meant
for queues that are corrupt: the pointers may form any graph.  It has no set of visited nodes.  What
makes it stop on a cycle is that it counts the nodes and gives up at `runnable_count + 2` of them.

The verdict is right: it is positive if and only if the queue is well formed
(`schedValidate_eq_ok_iff`).  A chain that ends has no repetitions and therefore fewer nodes than
there are addresses, so neither the count nor the bound wraps for it.

The walk does not always stop, though.  The count is 64 bits wide, and for a `runnable_count` of
2^64 - 2 it can never exceed the bound, which is 2^64 - 1.  If then the chain goes on forever
through threads that look ready, so does the walk (`schedValidate_eq_none_iff`).
-/

set_option autoImplicit false

namespace Mcsos
namespace Sched

open Program LinkedQueue

variable {s : State} {p q : Ptr} {c : UInt64} {fuel : ℕ}

/-- The queue is what it is meant to be. -/
def QueueWellFormed (s : State) : Prop :=
  ∃ l, Linked (fun p ↦ (s.threads p).next) 0 s.sched.readyHead l ∧
    (∀ p ∈ l, (s.threads p).magic = threadMagic ∧ (s.threads p).state = .ready ∧
      p ≠ s.sched.current) ∧
    s.sched.readyTail = l.getLast?.getD 0 ∧ l.length = s.sched.runnableCount.toNat

/-- The pointer that one gets to in `k` steps. -/
def walk (s : State) (k : ℕ) : Ptr := (fun p ↦ (s.threads p).next)^[k] s.sched.readyHead

/-! ## One round of the loop -/

theorem validateLoop_null (h : validateLoop s (fuel + 1) 0 q c = some (.ok ())) :
    q = s.sched.readyTail ∧ c = s.sched.runnableCount := by
  rw [validateLoop, if_pos rfl] at h
  split at h
  · cases h
  · split at h
    · cases h
    · exact ⟨not_not.1 ‹_›, not_not.1 ‹_›⟩

theorem exists_validateLoop_null (s : State) (fuel : ℕ) (q : Ptr) (c : UInt64) :
    ∃ r, validateLoop s (fuel + 1) 0 q c = some r := by
  rw [validateLoop, if_pos rfl]
  split
  · exact ⟨_, rfl⟩
  · split <;> exact ⟨_, rfl⟩

/-- Everywhere else it ends. -/
theorem validateLoop_of_not (hp : p ≠ 0)
    (h : ¬ (Waiting s p ∧ ¬ s.sched.runnableCount + 1 < c + 1)) :
    validateLoop s (fuel + 1) p q c = some (.error .ecorrupt) := by
  rw [validateLoop, if_neg hp]
  split
  · rfl
  · rename_i hlook
    split
    · rfl
    · rename_i hcurrent
      split
      · rfl
      · rename_i hbound
        simp only [not_or, Bool.not_eq_true', Bool.not_eq_false, not_not] at hlook
        obtain ⟨-, hmagic⟩ := validThreadObject_iff.1 hlook.1
        exact absurd ⟨⟨hp, hmagic, hlook.2, hcurrent⟩, hbound⟩ h

/-! ## The verdict -/

/-- What the loop has seen when it is satisfied. -/
theorem linked_of_validateLoop (h : validateLoop s fuel p q c = some (.ok ())) :
    ∃ l, Linked (fun p ↦ (s.threads p).next) 0 p l ∧ (∀ r ∈ l, Waiting s r) ∧
      l.getLast?.getD q = s.sched.readyTail ∧
      c + UInt64.ofNat l.length = s.sched.runnableCount := by
  induction fuel generalizing p q c with
  | zero => cases h
  | succ fuel ih =>
    by_cases hp : p = 0
    · subst hp
      obtain ⟨hlast, hcount⟩ := validateLoop_null h
      exact ⟨[], rfl, fun r hr ↦ absurd hr List.not_mem_nil, hlast,
        (UInt64.add_zero c).trans hcount⟩
    · by_cases hw : Waiting s p ∧ ¬ s.sched.runnableCount + 1 < c + 1
      · rw [validateLoop_of_waiting hw.1 hw.2] at h
        obtain ⟨l, hl, hall, hlast, hcount⟩ := ih h
        refine ⟨p :: l, ⟨rfl, hp, hl⟩, List.forall_mem_cons.2 ⟨hw.1, hall⟩, ?_, ?_⟩
        · rw [List.getLast?_cons]
          exact hlast
        · rw [← hcount, List.length_cons, UInt64.ofNat_add, UInt64.add_comm (UInt64.ofNat l.length),
            UInt64.add_assoc]
          rfl
      · rw [validateLoop_of_not hp hw] at h
        cases h

section Verdict

variable (hinit : s.sched.initialized = true)
  (hcurrent : validThreadObject s s.sched.current = true)

include hinit hcurrent

/-- The verdict is right. -/
theorem schedValidate_eq_ok_iff : schedValidate s = some (.ok ()) ↔ QueueWellFormed s := by
  constructor
  · intro h
    rw [schedValidate_eq hinit hcurrent] at h
    obtain ⟨l, hl, hall, hlast, hcount⟩ := linked_of_validateLoop h
    have hlen : l.length < 2 ^ 64 := length_lt_of_nodup hl.nodup fun h0 ↦ hl.ne_null h0 rfl
    refine ⟨l, hl, fun p hp ↦ ⟨(hall p hp).magic, (hall p hp).ready, (hall p hp).ne_current⟩,
      hlast.symm, ?_⟩
    rw [← hcount, UInt64.zero_add, UInt64.toNat_ofNat', Nat.mod_eq_of_lt hlen]
  · rintro ⟨l, hl, hall, hlast, hcount⟩
    have hready : Ready s l :=
      ⟨hinit, ⟨hl, hl.nodup, hlast⟩, hcount.symm, fun p hp ↦ (hall p hp).2.1,
        fun p hp ↦ (hall p hp).1⟩
    exact hready.schedValidate_eq_ok hcurrent fun hmem ↦ (hall _ hmem).2.2 rfl

end Verdict

/-! ## Termination -/

/-- A loop that has not ended has seen waiting threads only, and never too many of them. -/
theorem waiting_of_validateLoop_eq_none (h : validateLoop s fuel p q c = none) {k : ℕ}
    (hk : k < fuel) : Waiting s ((fun p ↦ (s.threads p).next)^[k] p) ∧
      ¬ s.sched.runnableCount + 1 < c + UInt64.ofNat k + 1 := by
  induction fuel generalizing p q c k with
  | zero => exact absurd hk (Nat.not_lt_zero k)
  | succ fuel ih =>
    by_cases hp : p = 0
    · subst hp
      obtain ⟨r, hr⟩ := exists_validateLoop_null s fuel q c
      rw [hr] at h
      cases h
    · by_cases hw : Waiting s p ∧ ¬ s.sched.runnableCount + 1 < c + 1
      · cases k with
        | zero =>
          rw [show UInt64.ofNat 0 = 0 from rfl, UInt64.add_zero]
          exact hw
        | succ k =>
          rw [validateLoop_of_waiting hw.1 hw.2] at h
          have hcount : c + UInt64.ofNat (k + 1) = c + 1 + UInt64.ofNat k := by
            rw [UInt64.ofNat_add, UInt64.add_comm (UInt64.ofNat k), UInt64.add_assoc]
            rfl
          rw [hcount]
          exact ih h (Nat.lt_of_succ_lt_succ hk)
      · rw [validateLoop_of_not hp hw] at h
        cases h

/-- The loop never ends if the threads do not end and the bound is the largest number there is. -/
theorem validateLoop_eq_none (hcount : s.sched.runnableCount = 0xfffffffffffffffe)
    (h : ∀ k, Waiting s ((fun p ↦ (s.threads p).next)^[k] p)) (fuel : ℕ) (q : Ptr) (c : UInt64) :
    validateLoop s fuel p q c = none := by
  induction fuel generalizing p q c with
  | zero => rfl
  | succ fuel ih =>
    have hbound : ¬ s.sched.runnableCount + 1 < c + 1 := by
      have hlt := (c + 1).toNat_lt
      rw [hcount, UInt64.lt_iff_toNat_lt]
      show ¬ 2 ^ 64 - 1 < (c + 1).toNat
      omega
    have hp : Waiting s p := h 0
    rw [validateLoop_of_waiting hp hbound]
    exact ih (fun k ↦ h (k + 1)) p (c + 1)

/-- A walk that has met 2^64 waiting threads will meet no others, since there are fewer of them. -/
theorem waiting_walk_of_lt (h : ∀ k, k < 2 ^ 64 → Waiting s (walk s k)) (k : ℕ) :
    Waiting s (walk s k) := by
  by_cases hinj : ∀ i, i < 2 ^ 64 → ∀ j, j < 2 ^ 64 → walk s i = walk s j → i = j
  · have hnodup : ((List.range (2 ^ 64)).map (walk s)).Nodup :=
      List.nodup_range.map_on fun i hi j hj ↦
        hinj i (List.mem_range.1 hi) j (List.mem_range.1 hj)
    have hlen := length_lt_of_nodup hnodup fun h0 ↦ by
      obtain ⟨i, hi, hi0⟩ := List.mem_map.1 h0
      exact (h i (List.mem_range.1 hi)).ne_zero hi0
    rw [List.length_map, List.length_range] at hlen
    exact absurd hlen (lt_irrefl _)
  · push Not at hinj
    obtain ⟨i, hi, j, hj, heq, hne⟩ := hinj
    rcases Nat.lt_or_gt_of_ne hne with hij | hij
    · exact iterate_of_eq hij heq (fun k hk ↦ h k (lt_trans hk hj)) k
    · exact iterate_of_eq hij heq.symm (fun k hk ↦ h k (lt_trans hk hi)) k

section Termination

variable (hinit : s.sched.initialized = true)
  (hcurrent : validThreadObject s s.sched.current = true)

include hinit hcurrent

/-- When the call does not return. -/
theorem schedValidate_eq_none_iff : schedValidate s = none ↔
    s.sched.runnableCount = 0xfffffffffffffffe ∧ ∀ k, Waiting s (walk s k) := by
  rw [schedValidate_eq hinit hcurrent]
  constructor
  · intro h
    refine ⟨?_, waiting_walk_of_lt fun k hk ↦ (waiting_of_validateLoop_eq_none h hk).1⟩
    -- the bound has held for a count of 2^64 - 1, and would not have held for the largest bound
    -- but one
    have hbound := (waiting_of_validateLoop_eq_none h (k := 2 ^ 64 - 2) (by decide)).2
    have hlt := s.sched.runnableCount.toNat_lt
    rw [UInt64.lt_iff_toNat_lt, UInt64.toNat_add] at hbound
    replace hbound : ¬ (s.sched.runnableCount.toNat + 1) % 2 ^ 64 < 2 ^ 64 - 1 := hbound
    refine UInt64.toNat_inj.1 ?_
    show s.sched.runnableCount.toNat = 2 ^ 64 - 2
    omega
  · rintro ⟨hcount, h⟩
    exact validateLoop_eq_none hcount h _ _ _

/-- What is `none` for 2^64 steps is `none` for any number of them. -/
theorem validateLoop_eq_none_of_schedValidate (h : schedValidate s = none) (fuel : ℕ) :
    validateLoop s fuel s.sched.readyHead 0 0 = none := by
  obtain ⟨hcount, hwalk⟩ := (schedValidate_eq_none_iff hinit hcurrent).1 h
  exact validateLoop_eq_none hcount hwalk fuel 0 0

/-- **`mcsos_sched_validate` decides whether the queue is well formed**, whatever the pointers are,
unless the queue goes on forever through waiting threads and is said to have 2^64 - 2 of them. -/
theorem validate_decides_iff :
    ((∃ r, schedValidate s = some r) ∧ (schedValidate s = some (.ok ()) ↔ QueueWellFormed s)) ↔
      s.sched.runnableCount ≠ 0xfffffffffffffffe ∨ ∃ k, ¬ Waiting s (walk s k) := by
  have hok := schedValidate_eq_ok_iff hinit hcurrent
  have hnone := schedValidate_eq_none_iff hinit hcurrent
  rw [and_iff_left hok, ← Option.ne_none_iff_exists', ne_eq, hnone, not_and_or, not_forall]

end Termination

/-- A ready thread, linked to `next`. -/
def readyThread (next : Ptr) : Thread :=
  { magic := threadMagic, id := 0, name := 0, state := .ready, context := zeroContext, entry := 0,
    arg := 0, stackBase := 0, stackSize := 0, next := next, switches := 0, ticks := 0,
    exitCode := 0 }

/-- Thread 2 runs, thread 1 is the queue, and `next` is what it is linked to. -/
def oneWaiting (next : Ptr) (runnableCount : UInt64) : State where
  threads := fun _ ↦ readyThread next
  sched :=
    { current := 2, idle := 2, readyHead := 1, readyTail := 1, nextId := 3,
      runnableCount := runnableCount, contextSwitches := 0, ticks := 0, initialized := true }

/-- A queue of one thread is found to be well formed. -/
theorem validate_decides_oneWaiting :
    schedValidate (oneWaiting 0 1) = some (.ok ()) ∧ QueueWellFormed (oneWaiting 0 1) := by
  have hwf : QueueWellFormed (oneWaiting 0 1) :=
    ⟨[1], ⟨rfl, by decide, rfl⟩, by simp [oneWaiting, readyThread], rfl, rfl⟩
  have h := (validate_decides_iff (s := oneWaiting 0 1) rfl rfl).2 (.inl (by decide))
  exact ⟨h.2.2 hwf, hwf⟩

/-- **The walk goes round in circles**: the thread in the queue is linked to itself. -/
theorem validate_runs_forever :
    (oneWaiting 1 0xfffffffffffffffe).sched.initialized = true ∧
      validThreadObject (oneWaiting 1 0xfffffffffffffffe) 2 = true ∧
      schedValidate (oneWaiting 1 0xfffffffffffffffe) = none ∧
      ∀ fuel, validateLoop (oneWaiting 1 0xfffffffffffffffe) fuel 1 0 0 = none := by
  have hstep : ∀ k, (fun p ↦ ((oneWaiting 1 0xfffffffffffffffe).threads p).next)^[k] 1 = 1 :=
    fun k ↦ Function.iterate_fixed rfl k
  have hw : ∀ k, Waiting (oneWaiting 1 0xfffffffffffffffe)
      ((fun p ↦ ((oneWaiting 1 0xfffffffffffffffe).threads p).next)^[k] 1) := by
    intro k
    rw [hstep k]
    exact ⟨by decide, rfl, rfl, by decide⟩
  have hnone : schedValidate (oneWaiting 1 0xfffffffffffffffe) = none :=
    (schedValidate_eq_none_iff rfl rfl).2 ⟨rfl, hw⟩
  exact ⟨rfl, rfl, hnone, validateLoop_eq_none_of_schedValidate rfl rfl hnone⟩

end Sched
end Mcsos
