import Mathlib.Data.List.GetD
import Mcsos.Lib.Bytes

/-!
# Files of bytes

What a file is for its users: a list of bytes that can be read and written at any offset.  A write
behind the end fills the gap with zeros, and a read stops at the end.  `overwrite` and `slice` are
these two operations.  Both can be done piece by piece: `overwrite_append` and `slice_add` say that
it does not matter where the pieces are cut.

A file usually lies in a larger memory, of which it shows a `window`.  `window_copyAt` says what a
copy into the memory does to the file: it overwrites it, and what was between the end of the file
and the place of the copy becomes part of it.
-/

set_option autoImplicit false

namespace ByteFile

open Bytes

variable {cs buf a b : List UInt8} {f : ℕ → UInt8} {o k n len start : ℕ}

/-- The file after `buf` has been written at `o`. -/
def overwrite (cs : List UInt8) (o : ℕ) (buf : List UInt8) : List UInt8 :=
  cs.take o ++ List.replicate (o - cs.length) 0 ++ buf ++ cs.drop (o + buf.length)

/-- What is read at `o`, at most `len` bytes. -/
def slice (cs : List UInt8) (o len : ℕ) : List UInt8 := (cs.drop o).take len

/-- The `n` bytes of a memory from `start` on. -/
def window (f : ℕ → UInt8) (start n : ℕ) : List UInt8 :=
  (List.range n).map fun k ↦ f (start + k)

/-- Files of the same length are equal if their bytes are. -/
theorem ext_getD (hlen : a.length = b.length) (h : ∀ k, a.getD k 0 = b.getD k 0) : a = b := by
  refine List.ext_getElem hlen fun k h1 h2 ↦ ?_
  have := h k
  rwa [List.getD_eq_getElem _ _ h1, List.getD_eq_getElem _ _ h2] at this

/-! ## Writing -/

@[simp] theorem length_overwrite :
    (overwrite cs o buf).length = max cs.length (o + buf.length) := by
  simp only [overwrite, List.length_append, List.length_take, List.length_replicate,
    List.length_drop]
  omega

/-- A file is zero behind its end, so that the gap needs no mention here. -/
theorem getD_overwrite : (overwrite cs o buf).getD k 0
    = if o ≤ k ∧ k < o + buf.length then buf.getD (k - o) 0 else cs.getD k 0 := by
  have hgap : (cs.take o ++ List.replicate (o - cs.length) 0).length = o := by
    simp only [List.length_append, List.length_take, List.length_replicate]
    omega
  rw [overwrite, List.append_assoc]
  by_cases hk : k < o
  · rw [if_neg (by omega), List.getD_append _ _ _ _ (by omega)]
    by_cases hc : k < cs.length
    · rw [List.getD_append _ _ _ _ (by rw [List.length_take]; omega)]
      simp [List.getD_eq_getElem?_getD, hk]
    · rw [List.getD_append_right _ _ _ _ (by rw [List.length_take]; omega),
        List.getD_eq_default cs 0 (by omega), List.getD_replicate]
      exact (by rw [List.length_take]; omega)
  · rw [List.getD_append_right _ _ _ _ (by omega), hgap]
    by_cases hb : k < o + buf.length
    · rw [if_pos ⟨by omega, hb⟩, List.getD_append _ _ _ _ (by omega)]
    · rw [if_neg (by omega), List.getD_append_right _ _ _ _ (by omega)]
      simp only [List.getD_eq_getElem?_getD, List.getElem?_drop]
      congr 2
      omega

/-- Writing goes piece by piece. -/
theorem overwrite_append :
    overwrite (overwrite cs o a) (o + a.length) b = overwrite cs o (a ++ b) := by
  refine ext_getD ?_ fun k ↦ ?_
  · simp only [length_overwrite, List.length_append]
    omega
  · rw [getD_overwrite, getD_overwrite, getD_overwrite, List.length_append]
    by_cases hb : o + a.length ≤ k ∧ k < o + a.length + b.length
    · rw [if_pos hb, if_pos (by omega), List.getD_append_right _ _ _ _ (by omega)]
      congr 1
      omega
    · rw [if_neg hb]
      by_cases ha : o ≤ k ∧ k < o + a.length
      · rw [if_pos ha, if_pos (by omega), List.getD_append _ _ _ _ (by omega)]
      · rw [if_neg ha, if_neg (by omega)]

theorem overwrite_nil (h : o ≤ cs.length) : overwrite cs o [] = cs := by
  simp [overwrite, Nat.sub_eq_zero_of_le h]

/-- Writing at the end appends. -/
theorem overwrite_length : overwrite cs cs.length buf = cs ++ buf := by
  simp [overwrite]

theorem take_overwrite (h : o ≤ cs.length) : (overwrite cs o buf).take o = cs.take o := by
  rw [overwrite, Nat.sub_eq_zero_of_le h, List.append_assoc, List.append_assoc,
    List.take_append_of_le_length (by rw [List.length_take]; omega), List.take_take, min_self]

theorem drop_overwrite (h : o ≤ cs.length) :
    (overwrite cs o buf).drop o = buf ++ cs.drop (o + buf.length) := by
  have hlen : (cs.take o).length = o := by
    rw [List.length_take]
    omega
  rw [overwrite, Nat.sub_eq_zero_of_le h, List.replicate_zero, List.append_nil, List.append_assoc,
    List.drop_append, hlen, Nat.sub_self, List.drop_zero, List.drop_eq_nil_of_le hlen.le,
    List.nil_append]

/-! ## Reading -/

@[simp] theorem length_slice : (slice cs o len).length = min len (cs.length - o) := by
  rw [slice, List.length_take, List.length_drop]

/-- Reading goes piece by piece. -/
theorem slice_add {m : ℕ} :
    slice cs o len ++ slice cs (o + (slice cs o len).length) m = slice cs o (len + m) := by
  rw [length_slice]
  by_cases h : len ≤ cs.length - o
  · rw [min_eq_left h, slice, slice, slice, ← List.drop_drop, ← List.take_add]
  · -- the first piece reaches the end, and the second is empty
    have hall : ∀ l, cs.length - o ≤ l → slice cs o l = cs.drop o := fun l hl ↦
      List.take_of_length_le (by rw [List.length_drop]; exact hl)
    have hnil : cs.drop (o + (cs.length - o)) = [] := List.drop_eq_nil_of_le (by omega)
    rw [min_eq_right (by omega), hall len (by omega), hall (len + m) (by omega), slice, hnil,
      List.take_nil, List.append_nil]

/-! ## Windows -/

@[simp] theorem length_window : (window f start n).length = n := by
  rw [window, List.length_map, List.length_range]

theorem getD_window : (window f start n).getD k 0 = if k < n then f (start + k) else 0 := by
  split
  · rename_i hk
    rw [List.getD_eq_getElem _ _ (by rwa [length_window])]
    simp [window]
  · rename_i hk
    rw [List.getD_eq_default _ _ (by rw [length_window]; omega)]

theorem window_congr {g : ℕ → UInt8} (h : ∀ k < n, g (start + k) = f (start + k)) :
    window g start n = window f start n :=
  List.map_congr_left fun k hk ↦ h k (List.mem_range.1 hk)

/-- Reading a file is reading the memory. -/
theorem slice_window :
    slice (window f start n) o len = window f (start + o) (min len (n - o)) := by
  refine ext_getD (by simp) fun k ↦ ?_
  rw [getD_window, slice, List.getD_eq_getElem?_getD, List.getElem?_take]
  by_cases hk : k < len
  · rw [if_pos hk, List.getElem?_drop, ← List.getD_eq_getElem?_getD, getD_window, Nat.add_assoc]
    refine if_congr ?_ rfl rfl
    omega
  · rw [if_neg hk, if_neg (by omega)]
    rfl

/-- Copying to the memory is writing to the file with the gap. -/
theorem window_copyAt :
    window (copyAt f (start + o) (buf.getD · 0) buf.length) start (max n (o + buf.length))
      = overwrite (window f start (max n o)) o buf := by
  refine ext_getD (by simp) fun k ↦ ?_
  rw [getD_window, getD_overwrite, getD_window]
  by_cases hk : o ≤ k ∧ k < o + buf.length
  · rw [if_pos hk, if_pos (by omega), copyAt_of_mem (by omega) (by omega), Nat.add_sub_add_left]
  · rw [if_neg hk, copyAt_of_not_mem (by omega)]
    refine if_congr ?_ rfl rfl
    omega

/-- The gap does not show exactly if it is zero. -/
theorem overwrite_window_iff :
    overwrite (window f start (max n o)) o buf = overwrite (window f start n) o buf ↔
      ∀ k, n ≤ k → k < o → f (start + k) = 0 := by
  constructor
  · intro h k hn ho
    have hk : (overwrite (window f start (max n o)) o buf).getD k 0
        = (overwrite (window f start n) o buf).getD k 0 := by rw [h]
    rwa [getD_overwrite, getD_overwrite, if_neg (by omega), if_neg (by omega), getD_window,
      getD_window, if_pos (by omega), if_neg (by omega)] at hk
  · intro h
    refine ext_getD (by simp) fun k ↦ ?_
    rw [getD_overwrite, getD_overwrite, getD_window, getD_window]
    refine if_congr Iff.rfl rfl ?_
    by_cases hk : k < n
    · rw [if_pos (by omega), if_pos hk]
    · by_cases ho : k < o
      · rw [if_pos (by omega), if_neg hk, h k (by omega) ho]
      · rw [if_neg (by omega), if_neg hk]

end ByteFile
