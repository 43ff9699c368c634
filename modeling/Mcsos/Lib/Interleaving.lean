import Mathlib.Logic.Function.Basic
import Mathlib.Data.List.Basic

/-!
# Interleavings of atomic operations

Threads that share a memory call functions that are sequences of atomic operations.  The operations
are taken one at a time, in any order that leaves those of a thread in theirs.  A program (`Prog`)
is what a thread still has to do; it stops before each operation, and what it does afterwards
depends on the memory that the operation has found.

A *schedule* says whose turn it is.  A thread that has no call in progress makes one when it is its
turn; a thread that has one performs its next operation, or returns.  All of this is recorded in a
history.  `run` is the result of a schedule, so a statement about every interleaving is one about
every schedule.

What is true after every schedule is proved with an `Outline`.  It gives each thread a *place* and
says two things: what the places have to do with the memory, and what the place of a thread has to
do with its program and with what the thread itself has done so far.  The second is not affected by
the turns of others, so only one thread has to be looked at for each kind of turn.
-/

set_option autoImplicit false

namespace Interleaving

/-! ## Programs -/

/-- What a thread still has to do: return, or perform an operation.  The operation may write to the
memory, which is then `some` new one. -/
inductive Prog (σ α : Type)
  | ret (a : α)
  | atomic (write : σ → Option σ) (rest : σ → Prog σ α)

namespace Prog

variable {σ α β : Type}

/-- One program after the other. -/
protected def bind : Prog σ α → (α → Prog σ β) → Prog σ β
  | ret a, f => f a
  | atomic write rest, f => atomic write fun m ↦ (rest m).bind f

instance : Monad (Prog σ) where
  pure := ret
  bind := Prog.bind

/-- Read a value. -/
def load (read : σ → α) : Prog σ α := atomic (fun _ ↦ none) fun m ↦ ret (read m)

/-- Write a value. -/
def store (write : σ → σ) : Prog σ Unit := atomic (fun m ↦ some (write m)) fun _ ↦ ret ()

/-- Write a value if the memory is as expected; was it? -/
def compareExchange (expected : σ → Bool) (write : σ → σ) : Prog σ Bool :=
  atomic (fun m ↦ if expected m then some (write m) else none) fun m ↦ ret (expected m)

/-- The next operation: what it writes, and what is left to do. -/
def access : Prog σ α → σ → Option (Option σ × Prog σ α)
  | ret _, _ => none
  | atomic write rest, m => some (write m, rest m)

/-- What is returned, if there is nothing else to do. -/
def answer : Prog σ α → Option α
  | ret a => some a
  | atomic _ _ => none

section Next

variable (a : α) (m : σ)

@[simp] theorem access_pure : (pure a : Prog σ α).access m = none := rfl

@[simp] theorem answer_pure : (pure a : Prog σ α).answer = some a := rfl

@[simp] theorem access_load (read : σ → β) (f : β → Prog σ α) :
    (load read >>= f).access m = some (none, f (read m)) := rfl

@[simp] theorem answer_load (read : σ → β) (f : β → Prog σ α) :
    (load read >>= f).answer = none := rfl

@[simp] theorem access_store (write : σ → σ) (f : Unit → Prog σ α) :
    (store write >>= f).access m = some (some (write m), f ()) := rfl

@[simp] theorem answer_store (write : σ → σ) (f : Unit → Prog σ α) :
    (store write >>= f).answer = none := rfl

@[simp] theorem access_compareExchange (expected : σ → Bool) (write : σ → σ)
    (f : Bool → Prog σ α) : (compareExchange expected write >>= f).access m
      = some (if expected m then some (write m) else none, f (expected m)) := rfl

@[simp] theorem answer_compareExchange (expected : σ → Bool) (write : σ → σ)
    (f : Bool → Prog σ α) : (compareExchange expected write >>= f).answer = none := rfl

end Next

end Prog

/-! ## Histories -/

/-- What a thread does in one turn. -/
inductive Event (C R : Type)
  | called (c : C)
  | accessed (wrote : Bool)
  | returned (c : C) (r : R)
  deriving DecidableEq, Repr

section Machine

variable {T σ C R : Type} [DecidableEq T]

/-- What a thread has done itself, latest first. -/
def own (t : T) (history : List (T × Event C R)) : List (Event C R) :=
  (history.filter fun x ↦ x.1 = t).map Prod.snd

@[simp] theorem own_cons_self (t : T) (e : Event C R) (history : List (T × Event C R)) :
    own t ((t, e) :: history) = e :: own t history := by
  simp [own]

theorem own_cons_of_ne {t u : T} (h : u ≠ t) (e : Event C R) (history : List (T × Event C R)) :
    own t ((u, e) :: history) = own t history := by
  simp [own, h]

/-- The threads, their memory and what has happened, latest first. -/
structure Machine (T σ C R : Type) where
  mem : σ
  running : T → Option (C × Prog σ R)
  history : List (T × Event C R)

namespace Machine

/-- The thread goes on like this. -/
def continueAs (s : Machine T σ C R) (t : T) (running : Option (C × Prog σ R)) (e : Event C R)
    (mem : σ) : Machine T σ C R where
  mem := mem
  running := Function.update s.running t running
  history := (t, e) :: s.history

/-- The turn of a thread with a call in progress. -/
def proceed (s : Machine T σ C R) (t : T) (c : C) : Prog σ R → Machine T σ C R
  | .ret r => s.continueAs t none (.returned c r) s.mem
  | .atomic write rest =>
    s.continueAs t (some (c, rest s.mem)) (.accessed (write s.mem).isSome)
      ((write s.mem).getD s.mem)

variable (body : T → C → Prog σ R)

/-- The turn of a thread, which calls `c` if it has no call in progress. -/
def turn (s : Machine T σ C R) (t : T) (c : C) : Machine T σ C R :=
  (s.running t).elim (s.continueAs t (some (c, body t c)) (.called c) s.mem) fun x ↦
    s.proceed t x.1 x.2

/-- What comes of a schedule, latest turn first. -/
def run (m : σ) : List (T × C) → Machine T σ C R
  | [] => ⟨m, fun _ ↦ none, []⟩
  | x :: schedule => (run m schedule).turn body x.1 x.2

/-- No call blocks: whoever has a turn makes use of it. -/
theorem own_turn (s : Machine T σ C R) (t : T) (c : C) :
    ∃ e, own t (s.turn body t c).history = e :: own t s.history := by
  rw [turn]
  cases s.running t with
  | none => exact ⟨_, own_cons_self ..⟩
  | some x =>
    obtain ⟨c', p⟩ := x
    cases p with
    | ret r => exact ⟨_, own_cons_self ..⟩
    | atomic write rest => exact ⟨_, own_cons_self ..⟩

end Machine

/-! ## Outlines -/

/-- A proof outline for the calls `body`, which start with the memory `m₀`. -/
structure Outline (body : T → C → Prog σ R) (m₀ : σ) (P : Type) where
  /-- The place of a thread that has not done anything. -/
  start : P
  /-- What the places of the threads have to do with the memory. -/
  shared : σ → (T → P) → Prop
  /-- What the place of a thread has to do with its past and its program. -/
  thread : T → List (Event C R) → Option (C × Prog σ R) → P → Prop
  shared_start : shared m₀ fun _ ↦ start
  thread_start : ∀ t, thread t [] none start
  call : ∀ {m place t o c}, shared m place → thread t o none (place t) →
    ∃ p, thread t (.called c :: o) (some (c, body t c)) p ∧ shared m (Function.update place t p)
  access : ∀ {m place t o c prog write rest}, shared m place →
    thread t o (some (c, prog)) (place t) → prog.access m = some (write, rest) →
    ∃ p, thread t (.accessed write.isSome :: o) (some (c, rest)) p ∧
      shared (write.getD m) (Function.update place t p)
  answer : ∀ {m place t o c prog r}, shared m place → thread t o (some (c, prog)) (place t) →
    prog.answer = some r →
    ∃ p, thread t (.returned c r :: o) none p ∧ shared m (Function.update place t p)

namespace Outline

variable {body : T → C → Prog σ R} {m₀ : σ} {P : Type} (O : Outline body m₀ P)
  {s : Machine T σ C R} {place : T → P}

/-- The outline describes the system, with the threads at these places. -/
structure Describes (s : Machine T σ C R) (place : T → P) : Prop where
  shared : O.shared s.mem place
  thread : ∀ t, O.thread t (own t s.history) (s.running t) (place t)

variable {O}

/-- Whatever a thread does, the others are where they were. -/
theorem Describes.continueAs (h : O.Describes s place) {t : T} {running : Option (C × Prog σ R)}
    {e : Event C R} {mem : σ}
    (hp : ∃ p, O.thread t (e :: own t s.history) running p ∧
      O.shared mem (Function.update place t p)) :
    ∃ place', O.Describes (s.continueAs t running e mem) place' := by
  obtain ⟨p, hthread, hshared⟩ := hp
  refine ⟨Function.update place t p, hshared, fun u ↦ ?_⟩
  rw [Machine.continueAs]
  dsimp only
  by_cases hu : u = t
  · subst hu
    rw [own_cons_self, Function.update_self, Function.update_self]
    exact hthread
  · rw [own_cons_of_ne (Ne.symm hu), Function.update_of_ne hu, Function.update_of_ne hu]
    exact h.thread u

theorem Describes.turn (h : O.Describes s place) (t : T) (c : C) :
    ∃ place', O.Describes (s.turn body t c) place' := by
  have hthread := h.thread t
  rw [Machine.turn]
  cases hrun : s.running t with
  | none =>
    rw [hrun] at hthread
    exact h.continueAs (O.call h.shared hthread)
  | some x =>
    obtain ⟨c', p⟩ := x
    rw [hrun] at hthread
    cases p with
    | ret r => exact h.continueAs (O.answer h.shared hthread rfl)
    | atomic write rest => exact h.continueAs (O.access h.shared hthread rfl)

variable (O)

/-- **An outline describes every interleaving.** -/
theorem describes_run (schedule : List (T × C)) :
    ∃ place, O.Describes (Machine.run body m₀ schedule) place := by
  induction schedule with
  | nil => exact ⟨fun _ ↦ O.start, O.shared_start, O.thread_start⟩
  | cons x schedule ih =>
    obtain ⟨place, h⟩ := ih
    exact h.turn x.1 x.2

end Outline

end Machine

end Interleaving
