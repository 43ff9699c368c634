import Mathlib.Data.List.Rotate
import Mcsos.Sched.Runs

/-!
# Round robin

The current thread and the ready queue behind it form a ring.  As long as the idle thread is not in
it and there is more than one thread, `mcsos_sched_yield` turns the ring by one place, so that every
thread has its turn before the first one has its second.  A thread that is alone alternates with the
idle thread, which does not enter the queue.
-/

set_option autoImplicit false

namespace Mcsos
namespace Sched

open Program

variable {s : State} {c p : Ptr} {l : List Ptr} {T : Set Ptr}

/-- The state after some calls of `mcsos_sched_yield`. -/
def yields (k : ℕ) (s : State) : State := (after schedYield)^[k] s

theorem yields_succ (k : ℕ) (s : State) : yields (k + 1) s = after schedYield (yields k s) :=
  Function.iterate_succ_apply' _ k s

/-! ## One call -/

/-- What a successful call leaves of a sound state. -/
structure Yielded (s : State) (l : List Ptr) (next : Ptr) (s' : State) : Prop where
  sound : Sound s' l
  current : s'.sched.current = next
  idle : s'.sched.idle = s.sched.idle
  contextSwitches : s'.sched.contextSwitches = s.sched.contextSwitches + 1

theorem Sound.yielded (h : Sound s l) (hne : l.head?.getD s.sched.idle ≠ s.sched.current) :
    errorOf schedYield s = none ∧
      Yielded s (l.tail ++ putBack s) (l.head?.getD s.sched.idle) (after schedYield s) := by
  obtain ⟨s', hrun, hsw⟩ := schedYield_spec h.canYield
  rw [errorOf_of_ok hrun, after_of_ok hrun]
  refine ⟨rfl, h.switched rfl (fun _ ↦ rfl) (fun _ _ ↦ rfl) (.inl h.running) hsw, hsw.current,
    hsw.idle, ?_⟩
  rw [hsw.contextSwitches, if_neg hne]

/-- Another thread than the idle one goes to the end of the queue. -/
theorem Sound.putBack_eq (h : Sound s l) (hidle : s.sched.current ≠ s.sched.idle) :
    putBack s = [s.sched.current] := if_pos ⟨h.running, hidle⟩

theorem Sound.yielded_cons (h : Sound s (p :: l)) (hidle : s.sched.current ≠ s.sched.idle) :
    errorOf schedYield s = none ∧ Yielded s (l ++ [s.sched.current]) p (after schedYield s) := by
  rw [← h.putBack_eq hidle]
  refine h.yielded fun hp ↦ h.current_not_mem ?_
  rw [← hp]
  exact List.mem_cons_self

/-- A thread that is alone gives way to the idle thread. -/
theorem Sound.yielded_nil (h : Sound s []) (hidle : s.sched.current ≠ s.sched.idle) :
    errorOf schedYield s = none ∧
      Yielded s [s.sched.current] s.sched.idle (after schedYield s) := by
  rw [← h.putBack_eq hidle]
  exact h.yielded hidle.symm

/-- The idle thread gives way to a thread that waits. -/
theorem Sound.yielded_idle (h : Sound s (p :: l)) (hidle : s.sched.current = s.sched.idle) :
    errorOf schedYield s = none ∧ Yielded s l p (after schedYield s) := by
  have hback : putBack s = [] := if_neg fun hc ↦ hc.2 hidle
  have hy := h.yielded fun hp ↦ h.current_not_mem (hp ▸ List.mem_cons_self)
  rwa [hback, List.tail_cons, List.append_nil] at hy

/-! ## Many calls -/

/-- After `k` calls the ring has been turned by `k` places. -/
theorem Sound.yields_rotate (h : Sound s l) (hl : l ≠ [])
    (hidle : s.sched.current ≠ s.sched.idle) (k : ℕ) :
    ∃ l', Sound (yields k s) l' ∧
      (yields k s).sched.current :: l' = (s.sched.current :: l).rotate k ∧
      (yields k s).sched.idle = s.sched.idle ∧
      (yields k s).sched.contextSwitches = s.sched.contextSwitches + UInt64.ofNat k ∧
      (yields k s).sched.current ≠ s.sched.idle ∧ errorOf schedYield (yields k s) = none := by
  have hring : s.sched.idle ∉ s.sched.current :: l := by
    rw [List.mem_cons, not_or]
    exact ⟨hidle.symm, h.idle_not_mem⟩
  -- what turns once more, and the current thread is again not the idle one
  have hnext : ∀ (s' : State) (l' : List Ptr) (j : ℕ), Sound s' l' →
      s'.sched.current :: l' = (s.sched.current :: l).rotate j → s'.sched.idle = s.sched.idle →
      s'.sched.current ≠ s.sched.idle ∧ errorOf schedYield s' = none ∧
        ∃ p l'', l' = p :: l'' ∧
          Yielded s' (l'' ++ [s'.sched.current]) p (after schedYield s') := by
    intro s' l' j hs' hrot hidle'
    have hne : s'.sched.current ≠ s.sched.idle := by
      intro hc
      have hmem : s.sched.idle ∈ (s.sched.current :: l).rotate j := by
        rw [← hrot, ← hc]
        exact List.mem_cons_self
      exact hring (List.mem_rotate.1 hmem)
    have hlen := congrArg List.length hrot
    rw [List.length_rotate, List.length_cons, List.length_cons] at hlen
    cases l' with
    | nil => exact absurd (List.length_eq_zero_iff.1 (Nat.succ.inj hlen).symm) hl
    | cons p l'' =>
      obtain ⟨herr, hy⟩ := hs'.yielded_cons (hidle' ▸ hne)
      exact ⟨hne, herr, p, l'', rfl, hy⟩
  induction k with
  | zero =>
    obtain ⟨hne, herr, -⟩ := hnext s l 0 h (List.rotate_zero _).symm rfl
    exact ⟨l, h, (List.rotate_zero _).symm, rfl, (UInt64.add_zero _).symm, hne, herr⟩
  | succ k ih =>
    obtain ⟨l', hs', hrot, hidle', hcount, -, -⟩ := ih
    obtain ⟨-, -, p, l'', rfl, hy⟩ := hnext _ l' k hs' hrot hidle'
    rw [yields_succ]
    have hrot' : (after schedYield (yields k s)).sched.current ::
          (l'' ++ [(yields k s).sched.current])
        = (s.sched.current :: l).rotate (k + 1) := by
      rw [← List.rotate_rotate, ← hrot, hy.current]
      rfl
    obtain ⟨hne, herr, -⟩ := hnext _ _ (k + 1) hy.sound hrot' (hy.idle.trans hidle')
    refine ⟨_, hy.sound, hrot', hy.idle.trans hidle', ?_, hne, herr⟩
    rw [hy.contextSwitches, hcount, UInt64.ofNat_add, UInt64.add_assoc]
    rfl

/-- The two threads take turns. -/
theorem Sound.yields_alternate (h : Sound s []) (hidle : s.sched.current ≠ s.sched.idle) (k : ℕ) :
    Sound (yields (2 * k) s) [] ∧ (yields (2 * k) s).sched.current = s.sched.current ∧
      (yields (2 * k) s).sched.idle = s.sched.idle ∧
      (yields (2 * k + 1) s).sched.current = s.sched.idle := by
  have hturn : ∀ s' : State, Sound s' [] → s'.sched.current = s.sched.current →
      s'.sched.idle = s.sched.idle →
      Yielded s' [s.sched.current] s.sched.idle (after schedYield s') := by
    intro s' hs' hc hi
    have hy := (hs'.yielded_nil (by rwa [hc, hi])).2
    rwa [hc, hi] at hy
  induction k with
  | zero => exact ⟨h, rfl, rfl, (hturn s h rfl rfl).current⟩
  | succ k ih =>
    obtain ⟨hs, hc, hi, -⟩ := ih
    have h1 := hturn _ hs hc hi
    have h2 := (h1.sound.yielded_idle (h1.current.trans (hi ▸ h1.idle.symm))).2
    rw [← yields_succ, ← yields_succ] at h2
    have hi2 := h2.idle.trans ((yields_succ (2 * k) s ▸ h1.idle).trans hi)
    refine ⟨h2.sound, h2.current, hi2, ?_⟩
    rw [yields_succ]
    exact (hturn _ h2.sound h2.current hi2).current

/-- **Round robin.**  From a thread `c` that is not the idle one and a queue of `n` threads, `n + 1`
calls of `mcsos_sched_yield` run through the queue and come back to `c`, with the queue as it was,
and the idle thread has no turn.  If the queue is empty, `c` and the idle thread take turns. -/
theorem round_robin (hr : Runs s T) (hidle : s.sched.current ≠ s.sched.idle) :
    (readyList s ≠ [] →
      (List.range ((readyList s).length + 1)).map (fun k ↦ (yields (k + 1) s).sched.current)
        = readyList s ++ [s.sched.current] ∧
      readyList (yields ((readyList s).length + 1) s) = readyList s ∧
      (yields ((readyList s).length + 1) s).sched.contextSwitches
        = s.sched.contextSwitches + UInt64.ofNat ((readyList s).length + 1) ∧
      ∀ k, errorOf schedYield (yields k s) = none ∧
        (yields k s).sched.current ≠ s.sched.idle) ∧
    (readyList s = [] → ∀ k, (yields (2 * k + 1) s).sched.current = s.sched.idle ∧
      (yields (2 * k + 2) s).sched.current = s.sched.current) := by
  obtain ⟨l, hl⟩ := hr.managed
  have hs := hl.sound
  rw [hs.ready.readyList_eq]
  constructor
  · intro hne
    refine ⟨List.ext_getElem ?_ fun k h1 h2 ↦ ?_, ?_, ?_, fun k ↦ ?_⟩
    · rw [List.length_map, List.length_range, List.length_append, List.length_singleton]
    · obtain ⟨l', -, hrot, -⟩ := hs.yields_rotate hne hidle (k + 1)
      have hhead : (l ++ [s.sched.current])[k]? = some (yields (k + 1) s).sched.current := by
        rw [← List.head?_rotate h2, ← List.rotate_cons_succ, ← hrot]
        rfl
      rw [List.getElem_map, List.getElem_range]
      exact ((List.getElem_eq_iff h2).2 hhead).symm
    · obtain ⟨l', hs', hrot, -⟩ := hs.yields_rotate hne hidle (l.length + 1)
      rw [hs'.ready.readyList_eq]
      rw [← List.length_cons (a := s.sched.current), List.rotate_length] at hrot
      exact (List.cons.inj hrot).2
    · obtain ⟨l', -, -, -, hcount, -⟩ := hs.yields_rotate hne hidle (l.length + 1)
      exact hcount
    · obtain ⟨l', -, -, -, -, hidle', herr⟩ := hs.yields_rotate hne hidle k
      exact ⟨herr, hidle'⟩
  · rintro rfl k
    exact ⟨(hs.yields_alternate hidle k).2.2.2, (hs.yields_alternate hidle (k + 1)).2.1⟩

/-- A third thread has been prepared while the second one runs. -/
def thirdPrepared : State :=
  after (threadPrepare 0x8000 0x3000 0 0x9000 0 0x20000 8192 2) (after schedYield enqueued)

/-- The third thread has been enqueued. -/
def thirdEnqueued : State := after (schedEnqueue 0x3000) thirdPrepared

theorem exists_runs_thirdEnqueued : ∃ T, Runs thirdEnqueued T := by
  have hyield := runs_enqueued.yield
  have hfree : 0x3000 ∉ readyList (after schedYield enqueued) := by
    rw [hyield.readyList_eq_nil (by decide +kernel)]
    exact List.not_mem_nil
  have hprepared : Runs thirdPrepared (insert 0x3000 (insert 0x2000 (insert 0x2000 {0x1000}))) :=
    hyield.prepare (by decide +kernel) (by decide +kernel) hfree
      (eq_ok_of_errorOf (by decide +kernel))
  have hfree' : 0x3000 ∉ readyList thirdPrepared := by
    rw [hprepared.readyList_eq_nil (by decide +kernel)]
    exact List.not_mem_nil
  exact ⟨_, hprepared.enqueue hfree' (eq_ok_of_errorOf (by decide +kernel))⟩

theorem round_robin_two_threads : ∃ T, Runs thirdEnqueued T ∧
    (List.range 2).map (fun k ↦ (yields (k + 1) thirdEnqueued).sched.current) = [0x3000, 0x2000] ∧
    readyList (yields 2 thirdEnqueued) = [0x3000] := by
  obtain ⟨T, hr⟩ := exists_runs_thirdEnqueued
  have hlist : readyList thirdEnqueued = [0x3000] := by decide +kernel
  have hcurrent : thirdEnqueued.sched.current = 0x2000 := by decide +kernel
  have hrobin := (round_robin hr (by decide +kernel)).1 (by rw [hlist]; exact List.cons_ne_nil _ _)
  rw [hlist, hcurrent] at hrobin
  exact ⟨T, hr, hrobin.1, hrobin.2.1⟩

end Sched
end Mcsos
