import Mcsos.Lib.Bytes

/-!
# Reading memory on record

What a C function computes says nothing about where it looks: a byte behind the end of an array may
be read and make no difference.  A `Traced` value is a result together with the addresses that were
read to get at it, in order, and a function that is written with `look` keeps that record by itself.

The results and the addresses are computed side by side, so a statement about either is proved
without the other (`val_bind`, `reads_bind`).  A loop that searches a table reads what its test
reads at every index up to the first hit (`mem_reads_firstFrom`).
-/

set_option autoImplicit false

open Bytes

/-- A result, and the addresses that have been read for it. -/
structure Traced (α : Type) where
  val : α
  reads : List ℕ

namespace Traced

variable {α β : Type}

instance : Monad Traced where
  pure a := ⟨a, []⟩
  bind x f := ⟨(f x.val).val, x.reads ++ (f x.val).reads⟩

/-- Read a byte. -/
def look (mem : ℕ → UInt8) (k : ℕ) : Traced UInt8 := ⟨mem k, [k]⟩

@[simp] theorem val_pure (a : α) : (pure a : Traced α).val = a := rfl

@[simp] theorem reads_pure (a : α) : (pure a : Traced α).reads = [] := rfl

@[simp] theorem val_bind (x : Traced α) (f : α → Traced β) : (x >>= f).val = (f x.val).val := rfl

@[simp] theorem reads_bind (x : Traced α) (f : α → Traced β) :
    (x >>= f).reads = x.reads ++ (f x.val).reads := rfl

@[simp] theorem val_look (mem : ℕ → UInt8) (k : ℕ) : (look mem k).val = mem k := rfl

@[simp] theorem reads_look (mem : ℕ → UInt8) (k : ℕ) : (look mem k).reads = [k] := rfl

@[simp] theorem val_ite (c : Prop) [Decidable c] (x y : Traced α) :
    (if c then x else y).val = if c then x.val else y.val := by
  split <;> rfl

@[simp] theorem reads_ite (c : Prop) [Decidable c] (x y : Traced α) :
    (if c then x else y).reads = if c then x.reads else y.reads := by
  split <;> rfl

/-! ## Integers -/

/-- Read a little-endian integer of `w` bytes. -/
def lookLE (mem : ℕ → UInt8) (off : ℕ) : ℕ → Traced ℕ
  | 0 => pure 0
  | w + 1 => do
    let b ← look mem off
    let rest ← lookLE mem (off + 1) w
    pure (b.toNat + 256 * rest)

@[simp] theorem val_lookLE (mem : ℕ → UInt8) (off w : ℕ) :
    (lookLE mem off w).val = le mem off w := by
  induction w generalizing off with
  | zero => rfl
  | succ w ih => simp [lookLE, le, ih]

theorem mem_reads_lookLE {mem : ℕ → UInt8} {off w k : ℕ} :
    k ∈ (lookLE mem off w).reads ↔ off ≤ k ∧ k < off + w := by
  induction w generalizing off with
  | zero =>
    simp only [lookLE, reads_pure, List.not_mem_nil, false_iff]
    omega
  | succ w ih =>
    simp only [lookLE, reads_bind, reads_look, reads_pure, List.append_nil, List.mem_append,
      List.mem_singleton, ih]
    omega

/-! ## Searching -/

/-- The first of `n` indices from `i` on that passes a test. -/
def firstFrom (p : ℕ → Traced Bool) : ℕ → ℕ → Traced (Option ℕ)
  | 0, _ => pure none
  | n + 1, i => do
    let found ← p i
    if found then pure (some i) else firstFrom p n (i + 1)

theorem val_firstFrom (p : ℕ → Traced Bool) (n i : ℕ) :
    (firstFrom p n i).val = (List.range' i n).find? fun j ↦ (p j).val := by
  induction n generalizing i with
  | zero => rfl
  | succ n ih =>
    rw [List.range'_succ, List.find?_cons, firstFrom, val_bind, val_ite, val_pure, ih]
    cases (p i).val <;> rfl

theorem mem_reads_firstFrom {p : ℕ → Traced Bool} {n i k : ℕ} :
    k ∈ (firstFrom p n i).reads ↔ ∃ j, i ≤ j ∧ j < i + n ∧
      (∀ l, i ≤ l → l < j → (p l).val = false) ∧ k ∈ (p j).reads := by
  induction n generalizing i with
  | zero =>
    simp only [firstFrom, reads_pure, List.not_mem_nil, false_iff]
    rintro ⟨j, h1, h2, -⟩
    omega
  | succ n ih =>
    rw [firstFrom, reads_bind, reads_ite, reads_pure, List.mem_append]
    constructor
    · rintro (h | h)
      · exact ⟨i, le_rfl, by omega, fun l h1 h2 ↦ absurd h2 (by omega), h⟩
      · split at h
        · exact absurd h List.not_mem_nil
        · rename_i hi
          obtain ⟨j, h1, h2, hall, hk⟩ := ih.1 h
          refine ⟨j, by omega, by omega, fun l hl1 hl2 ↦ ?_, hk⟩
          rcases Nat.eq_or_lt_of_le hl1 with rfl | hl1
          · exact Bool.eq_false_iff.2 hi
          · exact hall l hl1 hl2
    · rintro ⟨j, h1, h2, hall, hk⟩
      rcases Nat.eq_or_lt_of_le h1 with rfl | h1
      · exact .inl hk
      · rw [if_neg (by rw [hall i le_rfl h1]; exact Bool.false_ne_true)]
        exact .inr (ih.2 ⟨j, h1, by omega, fun l hl1 hl2 ↦ hall l (by omega) hl2, hk⟩)

end Traced
