import Mcsos.Sync.Lockdep
import Mcsos.Lib.LockOrder
import Mcsos.Lib.Outcome

/-!
# The validator excludes deadlock

Any number of threads share locks.  Each lock has a class, which it may share with other locks, and
each thread has a validator of its own: it waits for a lock once the validator has let it, and
gives a lock back once the validator has let it.  A thread's stack of classes then lists, in order,
the locks it holds and the one it waits for, and since the stack is increasing, so is the order in
which locks are acquired.
-/

set_option autoImplicit false

namespace Mcsos
namespace Sync

open Program LockOrder

/-! ## The stack of a validator -/

section Stack

variable {N : Type} {state state' : LockdepState N} {classId : UInt32} {name : Option N}

/-- `held_class[0..depth)` -/
def LockdepState.classes (state : LockdepState N) : List UInt32 :=
  (List.range state.depth).map state.heldClass

/-- All that differs is the number of violations. -/
def SameButViolations (state state' : LockdepState N) : Prop :=
  ∃ count, state' = { state with violationCount := count }

theorem length_classes : state.classes.length = state.depth := by
  simp [LockdepState.classes]

theorem classes_push : (push classId name state).classes = state.classes ++ [classId] := by
  rw [LockdepState.classes, LockdepState.classes, push, List.range_succ, List.map_append]
  congr 1
  · refine List.map_congr_left fun i hi ↦ ?_
    exact Function.update_of_ne (List.mem_range.1 hi).ne _ _
  · simp

theorem classes_eq_pop (h : 0 < state.depth) :
    state.classes = (pop state).classes ++ [state.heldClass (state.depth - 1)] := by
  obtain ⟨d, hd⟩ : ∃ d, state.depth = d + 1 := ⟨state.depth - 1, by omega⟩
  rw [LockdepState.classes, LockdepState.classes, pop, hd, List.range_succ, List.map_append]
  congr 1
  refine List.map_congr_left fun i hi ↦ ?_
  exact (Function.update_of_ne (List.mem_range.1 hi).ne _ _).symm

/-- A class above the top of an increasing stack is above all of it. -/
theorem pairwise_push (h : state.classes.Pairwise (· < ·)) (hnot : classId ∉ state.classes)
    (htop : ¬ (0 < state.depth ∧ classId < state.heldClass (state.depth - 1))) :
    (state.classes ++ [classId]).Pairwise (· < ·) := by
  refine List.pairwise_append.2 ⟨h, List.pairwise_singleton _ _, ?_⟩
  rintro c hc _ hmem
  rw [List.mem_singleton.1 hmem]
  have hne : c ≠ classId := fun heq ↦ hnot (heq ▸ hc)
  have hpos : 0 < state.depth := by
    rw [← length_classes]
    exact List.length_pos_of_mem hc
  have htop : state.heldClass (state.depth - 1) ≤ classId := by
    by_contra hlt
    exact htop ⟨hpos, UInt32.not_le.1 hlt⟩
  rw [classes_eq_pop hpos, List.mem_append, List.mem_singleton] at hc
  rw [classes_eq_pop hpos, List.pairwise_append] at h
  have hle : c ≤ state.heldClass (state.depth - 1) := by
    rcases hc with hc | rfl
    · exact UInt32.le_of_lt (h.2.2 c hc _ (List.mem_singleton_self _))
    · exact UInt32.le_refl _
  exact UInt32.lt_of_le_of_ne (UInt32.le_trans hle htop) hne

theorem any_range_eq_true :
    ((List.range state.depth).any fun i ↦ state.heldClass i = classId) = true ↔
      classId ∈ state.classes := by
  simp [LockdepState.classes]

/-- The question whether a class is held is answered by the stack. -/
theorem lockdepIsHeld_iff (hdepth : state.depth ≤ 16) :
    lockdepIsHeld state classId = true ↔ classId ≠ 0 ∧ classId ∈ state.classes := by
  rw [lockdepIsHeld, Nat.min_eq_left hdepth, decide_eq_true_iff, any_range_eq_true]

/-- What announcing a class does. -/
theorem lockdepBeforeAcquire_spec (classId : UInt32) (name : Option N) (state : LockdepState N) :
    Ends (lockdepBeforeAcquire classId name) state
      (fun _ state' ↦ state'.classes = state.classes ++ [classId] ∧ state.depth < 16 ∧
        (state.classes.Pairwise (· < ·) → state'.classes.Pairwise (· < ·)))
      fun _ state' ↦ SameButViolations state state' := by
  rw [lockdepBeforeAcquire]
  refine ends_failIf (fun _ ↦ ⟨_, rfl⟩) fun _ ↦ ends_get ?_
  refine ends_bind (Q := fun _ s ↦ s = state ∧ state.depth < 16 ∧ classId ∉ state.classes ∧
    ¬ (0 < state.depth ∧ classId < state.heldClass (state.depth - 1))) (ends_onError ?_) ?_
  · refine ((checks_failIf _ _).andThen fun _ ↦ (checks_failIf _ _).andThen fun _ ↦
      checks_failIf _ _).ends ?_ fun _ _ ↦ ⟨_, rfl⟩
    rintro ⟨hroom, hany, htop⟩
    exact ⟨rfl, not_le.1 hroom, mt any_range_eq_true.2 hany, htop⟩
  · rintro - _ ⟨rfl, hroom, hnot, htop⟩
    refine ends_of_ok rfl ⟨classes_push, hroom, fun h ↦ ?_⟩
    rw [classes_push]
    exact pairwise_push h hnot htop

/-- What taking a class back does. -/
theorem lockdepAfterRelease_spec (classId : UInt32) (name : Option N) (state : LockdepState N) :
    Ends (lockdepAfterRelease classId name) state
      (fun _ state' ↦ state.classes = state'.classes ++ [classId] ∧ 0 < state.depth)
      fun _ state' ↦ SameButViolations state state' := by
  rw [lockdepAfterRelease]
  refine ends_failIf (fun _ ↦ ⟨_, rfl⟩) fun _ ↦ ends_get ?_
  refine ends_bind (Q := fun _ s ↦ s = state ∧ 0 < state.depth ∧
    state.heldClass (state.depth - 1) = classId) (ends_onError ?_) ?_
  · refine ((checks_failIf _ _).andThen fun _ ↦ checks_failIf _ _).ends ?_ fun _ _ ↦ ⟨_, rfl⟩
    rintro ⟨hdepth, htop⟩
    exact ⟨rfl, Nat.pos_of_ne_zero hdepth, not_not.1 htop⟩
  · rintro - _ ⟨rfl, hpos, rfl⟩
    exact ends_of_ok rfl ⟨classes_eq_pop hpos, hpos⟩

end Stack

/-! ## Threads and locks -/

/-- Who holds and waits for which locks, and the validator of every thread. -/
structure System (T L N : Type) where
  alloc : Alloc T L
  lockdep : T → LockdepState N

section System

variable {T L N : Type} [DecidableEq T] [DecidableEq L] (classOf : L → UInt32)

/-- No locks in use, and validators that have been initialised. -/
def System.init (memory : T → LockdepState N) : System T L N where
  alloc := ⟨fun _ ↦ [], fun _ ↦ none⟩
  lockdep := fun t ↦ lockdepInit (memory t)

/-- One step of some thread. -/
inductive Step (w : System T L N) : System T L N → Prop
  /-- a thread that is not waiting announces the class of a lock and starts to wait for the lock -/
  | wait {t : T} {l : L} {name : Option N} {state : LockdepState N}
      (hidle : w.alloc.waiting t = none)
      (hok : lockdepBeforeAcquire (classOf l) name (w.lockdep t) = .ok ⟨⟩ state) :
      Step w ⟨w.alloc.request t l, Function.update w.lockdep t state⟩
  /-- a thread takes the lock it waits for, which nobody holds -/
  | take {t : T} {l : L} (hwait : w.alloc.waiting t = some l) (hfree : ∀ u, l ∉ w.alloc.held u) :
      Step w ⟨w.alloc.grant t l, w.lockdep⟩
  /-- a thread takes the class of a lock that it holds back, and gives the lock back -/
  | free {t : T} {l : L} {name : Option N} {state : LockdepState N} (hheld : l ∈ w.alloc.held t)
      (hok : lockdepAfterRelease (classOf l) name (w.lockdep t) = .ok ⟨⟩ state) :
      Step w ⟨w.alloc.release t l, Function.update w.lockdep t state⟩
  /-- a thread announces a class and is refused -/
  | refusedAcquire {t : T} {classId : UInt32} {name : Option N} {e : Err} {state : LockdepState N}
      (hfail : lockdepBeforeAcquire classId name (w.lockdep t) = .error e state) :
      Step w ⟨w.alloc, Function.update w.lockdep t state⟩
  /-- a thread takes a class back and is refused -/
  | refusedRelease {t : T} {classId : UInt32} {name : Option N} {e : Err} {state : LockdepState N}
      (hfail : lockdepAfterRelease classId name (w.lockdep t) = .error e state) :
      Step w ⟨w.alloc, Function.update w.lockdep t state⟩

/-- The states reached by any interleaving of steps. -/
inductive Reaches : System T L N → Prop
  | init (memory : T → LockdepState N) : Reaches (System.init memory)
  | step {w w' : System T L N} (hw : Reaches w) (h : Step classOf w w') : Reaches w'

/-- A validator's stack is increasing and lists the classes of the locks `claimed`. -/
structure Tracks (state : LockdepState N) (claimed : List L) : Prop where
  classes_eq : state.classes = claimed.map classOf
  increasing : state.classes.Pairwise (· < ·)
  depth_le : state.depth ≤ 16

/-- Every validator tracks its thread. -/
def Inv (w : System T L N) : Prop := ∀ t, Tracks classOf (w.lockdep t) (w.alloc.claimed t)

variable {classOf}

omit [DecidableEq T] [DecidableEq L] in
theorem Inv.ordered {w : System T L N} (hw : Inv classOf w) :
    w.alloc.Ordered fun l ↦ (classOf l).toNat := by
  intro t
  have hmap : (w.alloc.claimed t).map (fun l ↦ (classOf l).toNat)
      = (w.lockdep t).classes.map UInt32.toNat := by
    rw [(hw t).classes_eq, List.map_map]
    rfl
  rw [hmap]
  exact List.pairwise_map.2 ((hw t).increasing.imp UInt32.lt_iff_toNat_lt.1)

omit [DecidableEq L] in
/-- Only one thread's validator and locks change. -/
theorem Inv.update {w : System T L N} (hw : Inv classOf w) {t : T} {state : LockdepState N}
    {alloc : Alloc T L} {claimed : List L}
    (hclaimed : alloc.claimed = Function.update w.alloc.claimed t claimed)
    (h : Tracks classOf state claimed) :
    Inv classOf (⟨alloc, Function.update w.lockdep t state⟩ : System T L N) := by
  intro u
  show Tracks classOf (Function.update w.lockdep t state u) (alloc.claimed u)
  rw [hclaimed]
  by_cases hu : u = t
  · subst hu
    simpa using h
  · simpa [hu] using hw u

omit [DecidableEq T] [DecidableEq L] in
theorem Tracks.same {state state' : LockdepState N} {claimed : List L}
    (h : Tracks classOf state claimed) (hsame : SameButViolations state state') :
    Tracks classOf state' claimed := by
  obtain ⟨count, rfl⟩ := hsame
  exact ⟨h.classes_eq, h.increasing, h.depth_le⟩

omit [DecidableEq T] [DecidableEq L] in
theorem inv_init (memory : T → LockdepState N) :
    Inv classOf (System.init memory : System T L N) := fun _ ↦
  ⟨rfl, List.Pairwise.nil, Nat.zero_le _⟩

theorem Inv.step {w w' : System T L N} (hw : Inv classOf w) (h : Step classOf w w') :
    Inv classOf w' := by
  cases h with
  | @wait t l name state hidle hok =>
    obtain ⟨hclasses, hroom, hincreasing⟩ := (lockdepBeforeAcquire_spec _ _ _).of_eq_ok hok
    refine hw.update (Alloc.claimed_request hidle) ⟨?_, hincreasing (hw t).increasing, ?_⟩
    · rw [hclasses, (hw t).classes_eq, List.map_append, List.map_singleton]
    · rw [← length_classes, hclasses, List.length_append, length_classes]
      exact hroom
  | @take t l hwait hfree =>
    intro u
    show Tracks classOf (w.lockdep u) ((w.alloc.grant t l).claimed u)
    rw [Alloc.claimed_grant hwait]
    exact hw u
  | @free t l name state hheld hok =>
    obtain ⟨hclasses, hpos⟩ := (lockdepAfterRelease_spec _ _ _).of_eq_ok hok
    have hlast : (w.alloc.claimed t).map classOf = state.classes ++ [classOf l] :=
      (hw t).classes_eq.symm.trans hclasses
    have hclaimed := Alloc.claimed_release hw.ordered hheld (by
      simpa [Function.comp_def] using congrArg (List.map UInt32.toNat) hlast)
    have hincreasing := (hw t).increasing
    rw [hclasses, List.pairwise_append] at hincreasing
    refine hw.update hclaimed ⟨?_, hincreasing.1, ?_⟩
    · rw [List.map_dropLast, hlast, List.dropLast_concat]
    have hlen := congrArg List.length hclasses
    rw [List.length_append, length_classes, length_classes] at hlen
    have := (hw t).depth_le
    omega
  | @refusedAcquire t classId name e state hfail =>
    exact hw.update (Function.update_eq_self _ _).symm
      ((hw t).same ((lockdepBeforeAcquire_spec _ _ _).of_eq_error hfail))
  | @refusedRelease t classId name e state hfail =>
    exact hw.update (Function.update_eq_self _ _).symm
      ((hw t).same ((lockdepAfterRelease_spec _ _ _).of_eq_error hfail))

theorem Reaches.inv {w : System T L N} (h : Reaches classOf w) : Inv classOf w := by
  induction h with
  | init memory => exact inv_init memory
  | step _ h ih => exact ih.step h

/-- **Lock-order validation excludes deadlock.**  However the threads interleave, every validator's
stack is increasing, has at most sixteen entries and lists the classes of the locks that its thread
holds or waits for, which are those that `mcs_lockdep_is_held` knows; a refused call changes the
number of violations only; and no threads wait for each other in a circle. -/
theorem lock_order_excludes_deadlock {w : System T L N} (h : Reaches classOf w) :
    (∀ t, (w.lockdep t).classes.Pairwise (· < ·) ∧ (w.lockdep t).depth ≤ 16 ∧
      (w.lockdep t).classes = (w.alloc.claimed t).map classOf ∧
      ∀ classId, lockdepIsHeld (w.lockdep t) classId = true ↔
        classId ≠ 0 ∧ ∃ l ∈ w.alloc.claimed t, classOf l = classId) ∧
    (∀ t classId name e state,
      (lockdepBeforeAcquire classId name (w.lockdep t) = .error e state ∨
        lockdepAfterRelease classId name (w.lockdep t) = .error e state) →
      SameButViolations (w.lockdep t) state) ∧
    ∀ t, ¬ Relation.TransGen w.alloc.WaitsFor t t := by
  have hinv := h.inv
  refine ⟨fun t ↦ ⟨(hinv t).increasing, (hinv t).depth_le, (hinv t).classes_eq, fun classId ↦ ?_⟩,
    ?_, fun t ↦ hinv.ordered.not_transGen_self t⟩
  · rw [lockdepIsHeld_iff (hinv t).depth_le, (hinv t).classes_eq, List.mem_map]
  · rintro t classId name e state (hfail | hfail)
    · exact (lockdepBeforeAcquire_spec _ _ _).of_eq_error hfail
    · exact (lockdepAfterRelease_spec _ _ _).of_eq_error hfail

end System

/-- Two threads and two locks, of the classes 2 and 3.  Each thread has taken one, and the one with
the lower lock waits for the other. -/
theorem lock_order_excludes_deadlock_two_threads :
    ∃ w : System Bool Bool Unit, Reaches (fun l ↦ if l then 3 else 2) w ∧
      w.alloc.WaitsFor false true ∧ false ∈ w.alloc.held false ∧
      ∀ t, ¬ Relation.TransGen w.alloc.WaitsFor t t := by
  have hstart : Reaches (fun l : Bool ↦ if l then 3 else 2)
      (System.init (T := Bool) (N := Unit) fun _ ↦ ⟨fun _ ↦ 9, fun _ ↦ none, 9, 9⟩) := .init _
  have hlow := (hstart.step (.wait (t := false) (l := false) rfl
    (rfl : lockdepBeforeAcquire 2 none _ = _))).step
      (.take (t := false) (l := false) rfl (by decide))
  have hhigh := (hlow.step (.wait (t := true) (l := true) rfl
    (rfl : lockdepBeforeAcquire 3 none _ = _))).step
      (.take (t := true) (l := true) rfl (by decide))
  have hwait := hhigh.step (.wait (t := false) (l := true) rfl
    (rfl : lockdepBeforeAcquire 3 none _ = _))
  exact ⟨_, hwait, ⟨true, rfl, List.mem_cons_self⟩, List.mem_cons_self,
    (lock_order_excludes_deadlock hwait).2.2⟩

end Sync
end Mcsos
