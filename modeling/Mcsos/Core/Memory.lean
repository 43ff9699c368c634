import Mathlib.Logic.Function.Basic
import Mcsos.Lib.Assembly

/-!
# Copying memory

The model of `memory.c`.  `memcpy` copies upwards, byte by byte, and so it reads what it has just
written if the destination begins inside of the source.  `memmove` avoids that by copying downwards
when the destination lies above the source.

Addresses are words and wrap around, which makes one condition do for both directions: copying
upwards is right if the destination begins at least as many bytes behind the source as are copied,
counted around the address space (`copyUp_eq`), and copying downwards is the mirror image of it
(`copyDown_eq`).
-/

set_option autoImplicit false

namespace Mcsos
namespace Core

open Assembly

/-! ## The functions -/

/-- The loop of `memcpy`, and of `memmove` to a lower address. -/
def copyUp : ℕ → Word → Word → Memory → Memory
  | 0, _, _, m => m
  | n + 1, d, s, m => copyUp n (d + 1) (s + 1) (Function.update m d (m s))

/-- The loop of `memmove` to a higher address. -/
def copyDown : ℕ → Word → Word → Memory → Memory
  | 0, _, _, m => m
  | n + 1, d, s, m => copyDown n (d - 1) (s - 1) (Function.update m (d - 1) (m (s - 1)))

/-- `memcpy` -/
def memcpy (dest src count : Word) (m : Memory) : Memory := copyUp count.toNat dest src m

/-- `memmove` -/
def memmove (dest src count : Word) (m : Memory) : Memory :=
  if dest = src ∨ count = 0 then m
  else if dest < src then copyUp count.toNat dest src m
  else copyDown count.toNat (dest + count) (src + count) m

/-! ## What they do -/

/-- Memory after the bytes have been moved all at once. -/
def moved (dest src : Word) (n : ℕ) (m : Memory) : Memory := fun x ↦
  if (x - dest).toNat < n then m (src + (x - dest)) else m x

variable {d s dest src count : Word} {n : ℕ}

/-- Copying upwards is right if the destination does not begin among the bytes still to be read. -/
theorem copyUp_eq (h : n ≤ (d - s).toNat) (m : Memory) : copyUp n d s m = moved d s n m := by
  induction n generalizing d s m with
  | zero => rfl
  | succ n ih =>
    have hlt := (d - s).isLt
    have hsub : d + 1 - (s + 1) = d - s := by bv_omega
    rw [copyUp, ih (by rw [hsub]; omega)]
    funext x
    rw [moved, moved]
    by_cases hx : x = d
    · -- the byte that is copied first, and is not written again
      subst hx
      have hnot : ¬ (x - (x + 1)).toNat < n := by bv_omega
      have hpos : (x - x).toNat < n + 1 := by
        rw [BitVec.sub_self]
        exact Nat.succ_pos n
      rw [if_neg hnot, Function.update_self, if_pos hpos, BitVec.sub_self, BitVec.add_zero]
    · have hiff : (x - (d + 1)).toNat < n ↔ (x - d).toNat < n + 1 := by bv_omega
      by_cases hin : (x - d).toNat < n + 1
      · have haddr : s + 1 + (x - (d + 1)) = s + (x - d) := by bv_omega
        have hne : s + (x - d) ≠ d := by bv_omega
        rw [if_pos (hiff.2 hin), if_pos hin, haddr, Function.update_of_ne hne]
      · rw [if_neg (mt hiff.1 hin), if_neg hin, Function.update_of_ne hx]

/-- Copying downwards is right if the source does not begin among the bytes written already. -/
theorem copyDown_eq (h : n ≤ (s - d).toNat) (m : Memory) :
    copyDown n (d + BitVec.ofNat 64 n) (s + BitVec.ofNat 64 n) m = moved d s n m := by
  induction n generalizing m with
  | zero => rfl
  | succ n ih =>
    have hlt := (s - d).isLt
    have hpred : ∀ a : Word, a + BitVec.ofNat 64 (n + 1) - 1 = a + BitVec.ofNat 64 n :=
      fun a ↦ by bv_omega
    rw [copyDown, hpred, hpred, ih (by omega)]
    funext x
    rw [moved, moved]
    by_cases hx : x = d + BitVec.ofNat 64 n
    · subst hx
      have hoff : d + BitVec.ofNat 64 n - d = BitVec.ofNat 64 n := by bv_omega
      have hn : (BitVec.ofNat 64 n).toNat = n := by
        rw [BitVec.toNat_ofNat]
        omega
      rw [hoff, hn, if_neg (Nat.lt_irrefl n), Function.update_self, if_pos (Nat.lt_succ_self n)]
    · have hiff : (x - d).toNat < n ↔ (x - d).toNat < n + 1 := by bv_omega
      by_cases hin : (x - d).toNat < n
      · have hne : s + (x - d) ≠ d + BitVec.ofNat 64 n := by bv_omega
        rw [if_pos hin, if_pos (hiff.1 hin), Function.update_of_ne hne]
      · rw [if_neg hin, if_neg (mt hiff.2 hin), Function.update_of_ne hx]

theorem copyUp_self (n : ℕ) (d : Word) (m : Memory) : copyUp n d d m = m := by
  induction n generalizing d with
  | zero => rfl
  | succ n ih => rw [copyUp, Function.update_eq_self, ih]

theorem moved_self (d : Word) (n : ℕ) (m : Memory) : moved d d n m = m := by
  funext x
  have haddr : d + (x - d) = x := by bv_omega
  rw [moved, haddr, ite_self]

/-- **`memmove` moves, whatever overlaps.**  If neither range goes beyond the end of memory, then
every byte of the destination is what the corresponding byte of the source was before the call, and
no other byte changes; and where the destination does not begin inside of the source, `memcpy` does
the same. -/
theorem memmove_moves (hdest : dest.toNat + count.toNat ≤ 2 ^ 64)
    (hsrc : src.toNat + count.toNat ≤ 2 ^ 64) (m : Memory) :
    memmove dest src count m = moved dest src count.toNat m ∧
      (¬ (src < dest ∧ dest.toNat < src.toNat + count.toNat) →
        memcpy dest src count m = memmove dest src count m) := by
  have hmove : memmove dest src count m = moved dest src count.toNat m := by
    rw [memmove]
    by_cases hnone : dest = src ∨ count = 0
    · rw [if_pos hnone]
      rcases hnone with rfl | rfl
      · exact (moved_self dest _ m).symm
      · rfl
    rw [if_neg hnone]
    obtain ⟨hne, -⟩ := not_or.1 hnone
    by_cases hlt : dest < src
    · rw [if_pos hlt]
      exact copyUp_eq (by bv_omega) m
    · rw [if_neg hlt]
      have hdown := copyDown_eq (n := count.toNat) (s := src) (d := dest) (by bv_omega) m
      rwa [BitVec.ofNat_toNat, BitVec.setWidth_eq] at hdown
  refine ⟨hmove, fun hstart ↦ ?_⟩
  rw [hmove, memcpy]
  by_cases heq : dest = src
  · subst heq
    rw [copyUp_self, moved_self]
  · exact copyUp_eq (by bv_omega) m

/-- Memory in which every byte is the low byte of its address. -/
def addressBytes : Memory := fun x ↦ .ofBitVec (x.setWidth 8)

theorem memmove_moves_up_by_one :
    memmove 0x1001 0x1000 3 addressBytes = moved 0x1001 0x1000 3 addressBytes :=
  (memmove_moves (by decide) (by decide) addressBytes).1

/-- There `memcpy` copies the first byte over and over. -/
example : memcpy 0x1001 0x1000 3 addressBytes 0x1003 = 0 ∧
    moved 0x1001 0x1000 3 addressBytes 0x1003 = 2 := by decide

end Core
end Mcsos
