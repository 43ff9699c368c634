import Mathlib.Data.List.Basic
import Mathlib.Logic.Function.Basic

/-!
# The spinlock

The model of `spinlock.c`.  The lock is one word.  `mcs_spin_lock` tries to exchange it for 1, and
as long as that fails it waits until it has seen a 0 before it tries again, so it need not return.
A thread is therefore not a program here but a place in the code, at most one atomic operation away
from the next one; a schedule says whose turn it is, and which function a thread calls that is not
in a call.

Unlike the mutex, the lock does not know its owner, and `mcs_spin_unlock` takes it from whoever
has it.  Under schedules in which only a thread that has the lock calls it (`Disciplined`), at most
one thread has the lock; and a lock that is free is taken as soon as a waiting thread had two turns.
-/

set_option autoImplicit false

namespace Mcsos
namespace Sync

/-! ## The calls -/

/-- The functions on a spinlock -/
inductive SpinCall
  | tryLock
  | lock
  | unlock
  | isLocked
  deriving DecidableEq, Repr

/-- Where a thread is: in no call, at an atomic operation, or about to return. -/
inductive SpinLoc
  | idle
  /-- The exchange of `mcs_spin_try_lock` -/
  | trying
  /-- The exchange of `mcs_spin_try_lock` when `mcs_spin_lock` has called it -/
  | locking
  /-- The load in the inner loop of `mcs_spin_lock` -/
  | spinning
  /-- The store of `mcs_spin_unlock` -/
  | unlocking
  /-- The load of `mcs_spin_is_locked` -/
  | looking
  | returning (c : SpinCall) (value : Bool)
  deriving DecidableEq, Repr

/-- The first operation of a call -/
def SpinCall.entry : SpinCall → SpinLoc
  | tryLock => .trying
  | lock => .locking
  | unlock => .unlocking
  | isLocked => .looking

/-- Does a thread have the lock when this call has returned this? -/
def SpinCall.acquires (c : SpinCall) (value : Bool) : Bool :=
  match c with
  | tryLock => value
  | lock => true
  | unlock => false
  | isLocked => false

/-- The threads and their lock.  A thread `has` the lock from the return of a call that acquires it
until it calls `mcs_spin_unlock`; `grants` counts the exchanges that found the lock free. -/
structure Spinlock (T : Type) where
  locked : UInt32
  loc : T → SpinLoc
  has : T → Bool
  grants : ℕ

section Model

variable {T : Type} [DecidableEq T]

namespace Spinlock

/-- `mcs_spin_init`, with no thread in a call -/
def init (T : Type) : Spinlock T := ⟨0, fun _ ↦ .idle, fun _ ↦ false, 0⟩

/-- A thread goes on. -/
def goto (s : Spinlock T) (t : T) (l : SpinLoc) : Spinlock T :=
  { s with loc := Function.update s.loc t l }

/-- `__atomic_exchange_n(&lock->locked, 1u, …)`, where a thread goes on depending on what it was -/
def exchange (s : Spinlock T) (t : T) (won lost : SpinLoc) : Spinlock T :=
  if s.locked = 0 then { s.goto t won with locked := 1, grants := s.grants + 1 }
  else { s.goto t lost with locked := 1 }

/-- A turn of a thread, which calls `c` if it is in no call. -/
def turn (s : Spinlock T) (t : T) (c : SpinCall) : Spinlock T :=
  match s.loc t with
  | .idle =>
    { s.goto t c.entry with has := if c = .unlock then Function.update s.has t false else s.has }
  | .trying => s.exchange t (.returning .tryLock true) (.returning .tryLock false)
  | .locking => s.exchange t (.returning .lock true) .spinning
  | .spinning => if s.locked ≠ 0 then s else s.goto t .locking
  | .unlocking => { s.goto t (.returning .unlock true) with locked := 0 }
  | .looking => s.goto t (.returning .isLocked (s.locked ≠ 0))
  | .returning c value =>
    { s.goto t .idle with has := if c.acquires value then Function.update s.has t true else s.has }

/-- What comes of a schedule, latest turn first. -/
def run (s : Spinlock T) : List (T × SpinCall) → Spinlock T
  | [] => s
  | x :: schedule => (run s schedule).turn x.1 x.2

/-- Only a thread that has the lock gives it back. -/
def Disciplined (s : Spinlock T) : List (T × SpinCall) → Prop
  | [] => True
  | x :: schedule => Disciplined s schedule ∧
      (x.2 = .unlock → (s.run schedule).loc x.1 = .idle → (s.run schedule).has x.1 = true)

theorem Disciplined.of_append {s : Spinlock T} {later schedule : List (T × SpinCall)}
    (h : s.Disciplined (later ++ schedule)) : s.Disciplined schedule := by
  induction later with
  | nil => exact h
  | cons x later ih => exact ih h.1

/-! ## One turn -/

/-- Is a thread that is here between the exchange that wins and the store? -/
def insideAt (has : Bool) : SpinLoc → Bool
  | .unlocking => true
  | .returning c value => has || c.acquires value
  | .idle | .trying | .locking | .spinning | .looking => has

/-- The threads between the exchange that wins and the store. -/
def inside (s : Spinlock T) (t : T) : Bool := insideAt (s.has t) (s.loc t)

variable {s : Spinlock T} {t u : T} {c : SpinCall}

/-- A turn concerns one thread. -/
theorem turn_of_ne (hu : u ≠ t) (s : Spinlock T) (c : SpinCall) :
    (s.turn t c).loc u = s.loc u ∧ (s.turn t c).has u = s.has u := by
  rw [turn]
  split
  · split <;> simp [goto, hu]
  · rw [exchange]
    split <;> simp [goto, hu]
  · rw [exchange]
    split <;> simp [goto, hu]
  · split <;> simp [goto, hu]
  · simp [goto, hu]
  · simp [goto, hu]
  · split <;> simp [goto, hu]

/-- A thread that is at its store has given up the lock. -/
def Leaving (s : Spinlock T) : Prop := ∀ t, s.loc t = .unlocking → s.has t = false

/-- What a turn does to the lock, and to being inside. -/
inductive Moves (s : Spinlock T) (t : T) (s' : Spinlock T) : Prop
  | stays (hinside : s'.inside t = s.inside t) (hlocked : s'.locked = 0 ↔ s.locked = 0)
      (hgrants : s'.grants = s.grants)
  | enters (hfree : s.locked = 0) (hinside : s'.inside t = true) (hlocked : s'.locked ≠ 0)
      (hgrants : s'.grants = s.grants + 1)
  | leaves (hin : s.inside t = true) (hinside : s'.inside t = false) (hlocked : s'.locked = 0)
      (hgrants : s'.grants = s.grants)

theorem moves_exchange {won lost : SpinLoc} (hwon : ∀ b, insideAt b won = true)
    (hlost : insideAt (s.has t) lost = s.inside t) : Moves s t (s.exchange t won lost) := by
  have h1 : (1 : UInt32) ≠ 0 := by decide
  rw [exchange]
  split
  · rename_i h0
    refine .enters h0 ?_ h1 rfl
    simp [inside, goto, hwon]
  · rename_i h0
    refine .stays ?_ (iff_of_false h1 h0) rfl
    simp [inside, goto, hlost]

theorem moves_turn (hleaving : s.Leaving)
    (hd : c = .unlock → s.loc t = .idle → s.has t = true) : Moves s t (s.turn t c) := by
  rw [turn]
  split
  · rename_i hloc
    refine .stays ?_ .rfl rfl
    cases c with
    | unlock => simp [inside, goto, SpinCall.entry, insideAt, hloc, hd rfl hloc]
    | tryLock | lock | isLocked => simp [inside, goto, SpinCall.entry, insideAt, hloc]
  · rename_i hloc
    exact moves_exchange (fun b ↦ by simp [insideAt, SpinCall.acquires])
      (by simp [inside, insideAt, SpinCall.acquires, hloc])
  · rename_i hloc
    exact moves_exchange (fun b ↦ by simp [insideAt, SpinCall.acquires])
      (by simp [inside, insideAt, hloc])
  · rename_i hloc
    split
    · exact .stays rfl .rfl rfl
    · exact .stays (by simp [inside, goto, insideAt, hloc]) .rfl rfl
  · rename_i hloc
    refine .leaves (by simp [inside, insideAt, hloc]) ?_ rfl rfl
    simp [inside, goto, insideAt, SpinCall.acquires, hleaving t hloc]
  · rename_i hloc
    exact .stays (by simp [inside, goto, insideAt, SpinCall.acquires, hloc]) .rfl rfl
  · rename_i c value hloc
    refine .stays ?_ .rfl rfl
    cases hacquires : c.acquires value <;> simp [inside, goto, insideAt, hloc, hacquires]

theorem Leaving.turn (h : s.Leaving) : (s.turn t c).Leaving := by
  intro u hu
  by_cases hut : u = t
  · subst hut
    rw [Spinlock.turn] at hu ⊢
    split at hu
    · cases c <;> simp_all [goto, SpinCall.entry]
    · rw [exchange] at hu
      split at hu <;> simp [goto] at hu
    · rw [exchange] at hu
      split at hu <;> simp [goto] at hu
    · split at hu <;> simp_all [goto]
    · simp [goto] at hu
    · simp [goto] at hu
    · simp [goto] at hu
  · rw [(turn_of_ne hut s c).1] at hu
    rw [(turn_of_ne hut s c).2]
    exact h u hu

/-! ## Exclusion -/

/-- At most one thread is inside, and the word says whether there is one. -/
structure Inv (s : Spinlock T) : Prop where
  leaving : s.Leaving
  unique : ∀ t u, s.inside t = true → s.inside u = true → t = u
  free : s.locked = 0 ↔ ∀ t, s.inside t = false

omit [DecidableEq T] in
theorem inv_init : Inv (init T) :=
  ⟨(fun _ h ↦ nomatch h), (fun _ _ h ↦ nomatch h), iff_of_true rfl fun _ ↦ rfl⟩

theorem Inv.turn (h : Inv s) (hd : c = .unlock → s.loc t = .idle → s.has t = true) :
    Inv (s.turn t c) := by
  have hothers : ∀ u, u ≠ t → (s.turn t c).inside u = s.inside u := fun u hu ↦ by
    rw [inside, inside, (turn_of_ne hu s c).1, (turn_of_ne hu s c).2]
  rcases moves_turn h.leaving hd with ⟨hinside, hlocked, -⟩ | ⟨hfree, hinside, hlocked, -⟩ |
    ⟨hin, hinside, hlocked, -⟩
  · have hsame : ∀ u, (s.turn t c).inside u = s.inside u := fun u ↦ by
      by_cases hu : u = t
      · rw [hu, hinside]
      · exact hothers u hu
    refine ⟨h.leaving.turn, fun u v hu hv ↦ ?_, ?_⟩
    · rw [hsame] at hu hv
      exact h.unique u v hu hv
    · simp only [hsame]
      rw [hlocked, h.free]
  · have hout := h.free.1 hfree
    have honly : ∀ u, (s.turn t c).inside u = true → u = t := fun u hu ↦ by
      by_contra hne
      rw [hothers u hne, hout u] at hu
      cases hu
    refine ⟨h.leaving.turn, fun u v hu hv ↦ (honly u hu).trans (honly v hv).symm,
      iff_of_false hlocked fun hall ↦ ?_⟩
    rw [hall t] at hinside
    cases hinside
  · have hnone : ∀ u, (s.turn t c).inside u = false := fun u ↦ by
      by_cases hu : u = t
      · rw [hu, hinside]
      · rw [hothers u hu, Bool.eq_false_iff]
        exact fun hin' ↦ hu (h.unique u t hin' hin)
    refine ⟨h.leaving.turn, fun u v hu ↦ ?_, iff_of_true hlocked hnone⟩
    rw [hnone u] at hu
    cases hu

theorem Inv.run (h : Inv s) {schedule : List (T × SpinCall)} (hd : s.Disciplined schedule) :
    Inv (s.run schedule) := by
  induction schedule with
  | nil => exact h
  | cons x schedule ih => exact (ih hd.1).turn hd.2

/-- **Mutual exclusion.**  For any number of threads and any schedule in which only a thread that
has the lock gives it back: at most one thread has the lock, the word is 1 while one has it, and
when no thread is in a call, only then. -/
theorem spin_exclusive (schedule : List (T × SpinCall)) (hd : (init T).Disciplined schedule) :
    (∀ t u, ((init T).run schedule).has t = true → ((init T).run schedule).has u = true → t = u) ∧
      (∀ t, ((init T).run schedule).has t = true → ((init T).run schedule).locked ≠ 0) ∧
      ((∀ t, ((init T).run schedule).loc t = .idle) →
        (((init T).run schedule).locked ≠ 0 ↔ ∃ t, ((init T).run schedule).has t = true)) := by
  have h := inv_init.run hd
  have hinside : ∀ t, ((init T).run schedule).has t = true →
      ((init T).run schedule).inside t = true := fun t ht ↦ by
    rw [inside, ht]
    cases ((init T).run schedule).loc t <;> rfl
  refine ⟨fun t u ht hu ↦ h.unique t u (hinside t ht) (hinside u hu), fun t ht h0 ↦ ?_,
    fun hidle ↦ ?_⟩
  · have hout := h.free.1 h0 t
    rw [hinside t ht] at hout
    cases hout
  · rw [Ne, h.free, not_forall]
    refine exists_congr fun t ↦ ?_
    rw [inside, hidle t, insideAt, Bool.not_eq_false]

/-- The turns, latest first, in which one thread takes the lock and another one waits for it. -/
def spinContention : List (Bool × SpinCall) :=
  List.replicate 3 (false, .lock) ++ List.replicate 3 (true, .lock)

theorem spin_exclusive_contention :
    ((init Bool).run spinContention).has true = true ∧
      ((init Bool).run spinContention).has false = false ∧
      ((init Bool).run spinContention).locked ≠ 0 := by
  have h := spin_exclusive spinContention (by simp [spinContention, List.replicate, Disciplined])
  have hhas : ((init Bool).run spinContention).has true = true := by decide
  refine ⟨hhas, Bool.eq_false_iff.2 fun hfalse ↦ ?_, h.2.1 true hhas⟩
  exact absurd (h.1 true false hhas hfalse) (by decide)

/-- The discipline is needed: a thread that gives the lock back without having it lets a second
thread in. -/
example : ∃ schedule : List (Bool × SpinCall), ((init Bool).run schedule).has true = true ∧
    ((init Bool).run schedule).has false = true :=
  ⟨List.replicate 3 (false, .lock) ++ List.replicate 3 (false, .unlock) ++
    List.replicate 3 (true, .lock), by decide⟩

/-! ## Progress -/

/-- A thread that is about to take the lock, in `mcs_spin_lock` or in `mcs_spin_try_lock`. -/
def Waiting (s : Spinlock T) (t : T) : Prop :=
  s.loc t = .trying ∨ s.loc t = .locking ∨ s.loc t = .spinning

/-- How many turns a thread that waits needs for a free lock. -/
def turnsLeft (s : Spinlock T) (t : T) : ℕ := if s.loc t = .spinning then 2 else 1

/-- A waiting thread that finds the lock free gets on. -/
theorem turn_of_waiting (hfree : s.locked = 0) (hw : s.Waiting t) (c : SpinCall) :
    (s.turn t c).grants = s.grants + 1 ∨
      (s.turn t c).Waiting t ∧ (s.turn t c).turnsLeft t + 1 = s.turnsLeft t := by
  rcases hw with hloc | hloc | hloc
  · left
    simp [turn, hloc, exchange, hfree]
  · left
    simp [turn, hloc, exchange, hfree]
  · right
    simp [turn, hloc, hfree, Waiting, turnsLeft, goto]

/-- The lock was granted since, or it is free, and the thread that waits has had turns. -/
def Granted (s : Spinlock T) (t : T) (n : ℕ) (s' : Spinlock T) : Prop :=
  s.grants < s'.grants ∨
    s'.grants = s.grants ∧ s'.locked = 0 ∧ s'.Waiting t ∧ s'.turnsLeft t + n = s.turnsLeft t

theorem Granted.turn {s' : Spinlock T} {n : ℕ} (h : Granted s t n s') (hI : Inv s')
    (hd : c = .unlock → s'.loc u = .idle → s'.has u = true) :
    Granted s t (n + if u = t then 1 else 0) (s'.turn u c) := by
  have hmoves := moves_turn hI.leaving hd
  have hgrants : s'.grants ≤ (s'.turn u c).grants := by
    rcases hmoves with ⟨-, -, h⟩ | ⟨-, -, -, h⟩ | ⟨-, -, -, h⟩ <;> omega
  rcases h with h | ⟨hsame, hfree, hw, hleft⟩
  · exact .inl (by omega)
  by_cases hgrant : (s'.turn u c).grants = s'.grants
  · -- nobody has taken the lock, so it is still free
    have hfree' : (s'.turn u c).locked = 0 := by
      rcases hmoves with ⟨-, hlocked, -⟩ | ⟨-, -, -, h⟩ | ⟨-, -, hlocked, -⟩
      · exact hlocked.2 hfree
      · omega
      · exact hlocked
    by_cases hut : u = t
    · subst hut
      obtain h | ⟨hw', hleft'⟩ := turn_of_waiting hfree hw c
      · omega
      · rw [if_pos rfl]
        exact .inr ⟨hgrant.trans hsame, hfree', hw', by omega⟩
    · have hloc := (turn_of_ne (Ne.symm hut) s' c).1
      rw [if_neg hut]
      refine .inr ⟨hgrant.trans hsame, hfree', ?_, ?_⟩
      · rwa [Waiting, hloc]
      · rwa [turnsLeft, hloc]
  · exact .inl (by omega)

theorem Inv.granted_run (schedule : List (T × SpinCall)) (hI : Inv (s.run schedule))
    (hfree : (s.run schedule).locked = 0) (hw : (s.run schedule).Waiting t)
    (later : List (T × SpinCall)) (hd : s.Disciplined (later ++ schedule)) :
    Granted (s.run schedule) t (later.countP fun x ↦ x.1 = t) (s.run (later ++ schedule)) ∧
      Inv (s.run (later ++ schedule)) := by
  induction later with
  | nil => exact ⟨.inr ⟨rfl, hfree, hw, rfl⟩, hI⟩
  | cons x later ih =>
    obtain ⟨hgranted, hI'⟩ := ih hd.1
    have hturn := hgranted.turn hI' hd.2
    rw [List.countP_cons]
    simp only [decide_eq_true_eq]
    exact ⟨hturn, hI'.turn hd.2⟩

/-- **A free lock is taken.**  Wherever a schedule has led to, and however it goes on from there:
if the lock was free while a thread was waiting for it, then the lock is taken, by that thread or
by another one, at the latest in that thread's second turn. -/
theorem spin_free_lock_taken (schedule later : List (T × SpinCall))
    (hd : (init T).Disciplined (later ++ schedule)) {t : T}
    (hfree : ((init T).run schedule).locked = 0) (hw : ((init T).run schedule).Waiting t)
    (hturns : 2 ≤ later.countP fun x ↦ x.1 = t) :
    ((init T).run schedule).grants < ((init T).run (later ++ schedule)).grants := by
  have hI := inv_init.run hd.of_append
  obtain ⟨h | ⟨-, -, hw', hleft⟩, -⟩ := hI.granted_run schedule hfree hw later hd
  · exact h
  · have hpos : 1 ≤ ((init T).run (later ++ schedule)).turnsLeft t := by
      rw [turnsLeft]
      split <;> omega
    have hle : ((init T).run schedule).turnsLeft t ≤ 2 := by
      rw [turnsLeft]
      split <;> omega
    omega

/-- One thread takes the lock, another one spins, the first one gives the lock back, and the other
one gets it. -/
theorem spin_free_lock_taken_after_unlock :
    let schedule : List (Bool × SpinCall) := List.replicate 2 (true, .unlock)
      ++ List.replicate 3 (false, .lock) ++ List.replicate 3 (true, .lock)
    ((init Bool).run schedule).loc false = .spinning ∧ ((init Bool).run schedule).grants = 1 ∧
      1 < ((init Bool).run (List.replicate 2 (false, .lock) ++ schedule)).grants := by
  intro schedule
  have hgrants : ((init Bool).run schedule).grants = 1 := by decide
  have hspin : ((init Bool).run schedule).loc false = .spinning := by decide
  refine ⟨hspin, hgrants, hgrants ▸ spin_free_lock_taken schedule (List.replicate 2 (false, .lock))
    ?_ (t := false) (by decide) (.inr (.inr hspin)) (by decide)⟩
  simp only [schedule, List.replicate, List.cons_append, List.nil_append, Disciplined]
  decide

end Spinlock

end Model

end Sync
end Mcsos
