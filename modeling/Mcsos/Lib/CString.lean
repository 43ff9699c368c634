import Mathlib.Data.List.GetD
import Mathlib.Data.List.TakeWhile
import Mathlib.Order.Basic
import Mathlib.Order.Nat
import Mathlib.Tactic.Common

/-!
# NUL-terminated strings

A `char *` is a view of memory, a function `ℕ → UInt8`.  The string it points to ends at the first
zero byte, which bounded functions look for only so far: `strnlen f max` is where they stop.

`CString` is the type of strings themselves, lists of non-zero bytes; `CString.view` is such a
string in memory, followed by its terminator.  The two meet in `strnlen_view` and `eq_of_view_eq`.
-/

set_option autoImplicit false

/-- The number of bytes before the first zero byte of `f`, but at most `max`. -/
def strnlen (f : ℕ → UInt8) : ℕ → ℕ
  | 0 => 0
  | max + 1 => if f 0 = 0 then 0 else strnlen (fun i ↦ f (i + 1)) max + 1

theorem strnlen_le (f : ℕ → UInt8) (max : ℕ) : strnlen f max ≤ max := by
  induction max generalizing f with
  | zero => exact le_rfl
  | succ max ih =>
    rw [strnlen]
    split
    · omega
    · have := ih fun i ↦ f (i + 1)
      omega

theorem ne_zero_of_lt_strnlen {f : ℕ → UInt8} {max i : ℕ} (h : i < strnlen f max) : f i ≠ 0 := by
  induction max generalizing f i with
  | zero => exact absurd h (Nat.not_lt_zero i)
  | succ max ih =>
    rw [strnlen] at h
    split at h
    · omega
    · cases i with
      | zero => assumption
      | succ i => exact ih (f := fun i ↦ f (i + 1)) (by omega)

theorem eq_zero_of_strnlen_lt {f : ℕ → UInt8} {max : ℕ} (h : strnlen f max < max) :
    f (strnlen f max) = 0 := by
  induction max generalizing f with
  | zero => exact absurd h (Nat.not_lt_zero _)
  | succ max ih =>
    rw [strnlen] at h ⊢
    split
    · assumption
    · rename_i h0
      rw [if_neg h0] at h
      exact ih (f := fun i ↦ f (i + 1)) (by omega)

/-- The length is determined by the bytes up to the terminator. -/
theorem strnlen_eq {f : ℕ → UInt8} {max n : ℕ} (hn : n ≤ max) (h1 : ∀ i, i < n → f i ≠ 0)
    (h2 : n < max → f n = 0) : strnlen f max = n := by
  rcases Nat.lt_trichotomy (strnlen f max) n with h | h | h
  · exact absurd (eq_zero_of_strnlen_lt (by omega)) (h1 _ h)
  · exact h
  · exact absurd (h2 (lt_of_lt_of_le h (strnlen_le f max))) (ne_zero_of_lt_strnlen h)

theorem strnlen_congr {f g : ℕ → UInt8} {max : ℕ} (h : ∀ i, i < max → f i = g i) :
    strnlen f max = strnlen g max := by
  refine strnlen_eq (strnlen_le g max) (fun i hi ↦ ?_) fun hlt ↦ ?_
  · rw [h i (lt_of_lt_of_le hi (strnlen_le g max))]
    exact ne_zero_of_lt_strnlen hi
  · rw [h _ hlt, eq_zero_of_strnlen_lt hlt]

/-- A string without its terminator. -/
def CString : Type := { s : List UInt8 // 0 ∉ s }

namespace CString

instance : DecidableEq CString := inferInstanceAs (DecidableEq { s : List UInt8 // 0 ∉ s })

theorem zero_notMem_takeWhile (l : List UInt8) : 0 ∉ l.takeWhile (· ≠ 0) := fun h ↦ by
  simpa using List.mem_takeWhile_imp h

/-- The string that a list of bytes holds, up to its first zero byte. -/
def ofBytes (l : List UInt8) : CString := ⟨l.takeWhile (· ≠ 0), zero_notMem_takeWhile l⟩

/-- The string in memory. -/
def view (s : CString) (i : ℕ) : UInt8 := s.1.getD i 0

def length (s : CString) : ℕ := s.1.length

theorem view_ne_zero {s : CString} {i : ℕ} (h : i < s.length) : s.view i ≠ 0 := by
  rw [view, List.getD_eq_getElem _ _ h]
  exact ne_of_mem_of_not_mem (List.getElem_mem h) s.2

theorem view_eq_zero {s : CString} {i : ℕ} (h : s.length ≤ i) : s.view i = 0 := by
  rw [view, List.getD_eq_default _ _ h]

theorem view_eq_zero_iff {s : CString} {i : ℕ} : s.view i = 0 ↔ s.length ≤ i :=
  ⟨fun h ↦ not_lt.1 fun hi ↦ view_ne_zero hi h, view_eq_zero⟩

theorem strnlen_view (s : CString) (max : ℕ) : strnlen s.view max = min s.length max := by
  refine strnlen_eq (min_le_right _ _) (fun i hi ↦ view_ne_zero (by omega)) fun h ↦ ?_
  exact view_eq_zero (by omega)

theorem strnlen_view_lt {s : CString} {max : ℕ} (h : s.length < max) :
    strnlen s.view max < max := by
  rw [strnlen_view]
  exact lt_of_le_of_lt (min_le_left _ _) h

/-- Two strings that agree up to and including the terminator of one of them are equal. -/
theorem eq_of_view_eq {s t : CString} (h : ∀ i, i ≤ s.length → s.view i = t.view i) : s = t := by
  have hlen : s.length = t.length := by
    apply le_antisymm
    · by_contra hlt
      have h' := h t.length (by omega)
      rw [view_eq_zero (s := t) le_rfl] at h'
      exact view_ne_zero (by omega) h'
    · exact view_eq_zero_iff.1 ((h s.length le_rfl).symm.trans (view_eq_zero le_rfl))
  refine Subtype.ext (List.ext_getElem hlen fun i h1 h2 ↦ ?_)
  have h' := h i (le_of_lt h1)
  rwa [view, view, List.getD_eq_getElem _ _ h1, List.getD_eq_getElem _ _ h2] at h'

end CString
