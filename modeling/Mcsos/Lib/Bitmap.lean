import Mcsos.Lib.Bytes
import Mathlib.Data.Finset.Card
import Mathlib.Data.Finset.Range

/-!
# Bitmaps in memory

A bitmap in memory of no particular size, and the set of its clear bits below a bound.  Setting a
bit takes it out of that set (`zeros_set`) and clearing a bit puts it in (`zeros_clear`).
-/

set_option autoImplicit false

namespace Bitmap

open Bytes

/-- Is bit `i` set? -/
def test (b : ℕ → UInt8) (i : ℕ) : Bool := b (i / 8) &&& bitMask (i % 8) != 0

/-- Set bit `i`. -/
def set (b : ℕ → UInt8) (i : ℕ) : ℕ → UInt8 :=
  Function.update b (i / 8) (b (i / 8) ||| bitMask (i % 8))

/-- Clear bit `i`. -/
def clear (b : ℕ → UInt8) (i : ℕ) : ℕ → UInt8 :=
  Function.update b (i / 8) (b (i / 8) &&& ~~~bitMask (i % 8))

/-- The clear bits below `n`. -/
def zeros (b : ℕ → UInt8) (n : ℕ) : Finset ℕ := (Finset.range n).filter fun i ↦ test b i = false

variable {b : ℕ → UInt8} {i j n : ℕ}

theorem test_eq_testBit : test b i = (b (i / 8)).toNat.testBit (i % 8) := by
  rw [test, Bool.eq_iff_iff, bne_iff_ne]
  exact and_bitMask_ne_zero _ (Nat.mod_lt _ (by decide))

theorem test_set : test (set b i) j = (decide (i = j) || test b j) := by
  rw [test_eq_testBit, test_eq_testBit, set]
  by_cases hb : j / 8 = i / 8
  · rw [hb, Function.update_self, UInt8.toNat_or, Nat.testBit_or,
      testBit_bitMask (Nat.mod_lt _ (by decide)) (Nat.mod_lt _ (by decide)), Bool.or_comm,
      show decide (i % 8 = j % 8) = decide (i = j) from decide_eq_decide.2 (by omega)]
  · rw [decide_eq_false (show i ≠ j by rintro rfl; exact hb rfl), Bool.false_or,
      Function.update_of_ne hb]

theorem test_clear : test (clear b i) j = (!decide (i = j) && test b j) := by
  rw [test_eq_testBit, test_eq_testBit, clear]
  by_cases hb : j / 8 = i / 8
  · rw [hb, Function.update_self, UInt8.toNat_and, Nat.testBit_and,
      testBit_not_bitMask (Nat.mod_lt _ (by decide)) (Nat.mod_lt _ (by decide)), Bool.and_comm,
      show decide (i % 8 = j % 8) = decide (i = j) from decide_eq_decide.2 (by omega)]
  · rw [decide_eq_false (show i ≠ j by rintro rfl; exact hb rfl), Bool.not_false, Bool.true_and,
      Function.update_of_ne hb]

theorem mem_zeros : i ∈ zeros b n ↔ i < n ∧ test b i = false := by
  rw [zeros, Finset.mem_filter, Finset.mem_range]

theorem zeros_set : zeros (set b i) n = (zeros b n).erase i := by
  ext j
  rw [mem_zeros, Finset.mem_erase, mem_zeros, test_set, Bool.or_eq_false_iff,
    decide_eq_false_iff_not]
  tauto

theorem zeros_clear (hi : i < n) : zeros (clear b i) n = insert i (zeros b n) := by
  ext j
  rw [mem_zeros, Finset.mem_insert, mem_zeros, test_clear]
  by_cases hij : i = j
  · subst hij
    simp [hi]
  · simp [hij, Ne.symm hij]

end Bitmap
