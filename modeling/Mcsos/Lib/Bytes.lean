import Mathlib.Data.Nat.Bitwise
import Mathlib.Data.Fintype.Pi
import Mathlib.Logic.Function.Basic
import Mathlib.Tactic.Ring

/-!
# Byte buffers, little-endian fields and bitmaps

A C program that keeps its data in raw memory — a disk block, an inode table, a header in front of
an allocation — reads and writes it through three idioms only: single bytes, little-endian integers
at a fixed offset, and the bits of a bitmap.  This file is the algebra of those three.

* A *view* is a function `ℕ → UInt8`.  `le f off w` is the integer stored in the `w` bytes from
  `off` on, and `putLE f off w v` stores one.  What a reader needs to know is `le_putLE_same` (one
  reads back what one wrote) and `le_putLE_of_disjoint` (and nothing else moved).
* `Buf n` is an array of exactly `n` bytes.  It is a function on `Fin n`, so that two buffers are
  equal when their bytes are (`Buf.ext_get`), but it is read through `Buf.get`, which takes any
  natural number, so that no proof has to carry an index bound around.
* `Buf.put` replaces one byte of a buffer, and a field that has the byte changes with it
  (`Buf.eq_of_field_eq`).
* `Buf.bitTest`, `Buf.bitSet` and `Buf.bitClear` are the usual byte-and-mask bitmap operations;
  `Buf.bitTest_bitSet` and `Buf.bitTest_bitClear` say that they are a set of naturals.

Nothing here knows about any particular layout.
-/

set_option autoImplicit false

namespace Bytes

/-! ## Little-endian integers in a view -/

/-- The integer stored little-endian in the `w` bytes of `f` that start at `off`. -/
def le (f : ℕ → UInt8) (off : ℕ) : ℕ → ℕ
  | 0 => 0
  | w + 1 => (f off).toNat + 256 * le f (off + 1) w

/-- The `k`-th byte of `v`, counted from the least significant one. -/
def byteAt (v k : ℕ) : UInt8 := UInt8.ofNat (v / 256 ^ k)

/-- Store the `w` low bytes of `v` at `off`. -/
def putLE (f : ℕ → UInt8) (off w v : ℕ) : ℕ → UInt8 := fun i ↦
  if off ≤ i ∧ i < off + w then byteAt v (i - off) else f i

/-- Copy `n` bytes of `src` to `off`: what `memcpy (dst + off, src, n)` leaves in `dst`. -/
def copyAt (dst : ℕ → UInt8) (off : ℕ) (src : ℕ → UInt8) (n : ℕ) : ℕ → UInt8 := fun i ↦
  if off ≤ i ∧ i < off + n then src (i - off) else dst i

theorem le_lt (f : ℕ → UInt8) (off w : ℕ) : le f off w < 256 ^ w := by
  induction w generalizing off with
  | zero => simp [le]
  | succ w ih =>
    have h1 := (f off).toNat_lt
    have h2 := ih (off + 1)
    rw [le, pow_succ]
    omega

/-- Only the bytes of the field matter. -/
theorem le_congr {f g : ℕ → UInt8} {off w : ℕ}
    (h : ∀ i, off ≤ i → i < off + w → f i = g i) : le f off w = le g off w := by
  induction w generalizing off with
  | zero => rfl
  | succ w ih =>
    rw [le, le, h off le_rfl (by omega), ih fun i h1 h2 ↦ h i (by omega) (by omega)]

/-- And all of them do. -/
theorem eq_of_le_eq {f g : ℕ → UInt8} {off w : ℕ} (h : le f off w = le g off w) {i : ℕ}
    (h1 : off ≤ i) (h2 : i < off + w) : f i = g i := by
  induction w generalizing off with
  | zero => omega
  | succ w ih =>
    have hf := (f off).toNat_lt
    have hg := (g off).toNat_lt
    rw [le, le] at h
    rcases Nat.eq_or_lt_of_le h1 with rfl | h1
    · exact UInt8.toNat_inj.1 (by omega)
    · have hrest : le f (off + 1) w = le g (off + 1) w := by omega
      exact ih hrest h1 (by omega)

theorem le_zero (off w : ℕ) : le (fun _ ↦ 0) off w = 0 := by
  induction w generalizing off with
  | zero => rfl
  | succ w ih => rw [le, ih]; rfl

theorem le_byteAt (v k w : ℕ) : le (fun i ↦ byteAt v (i - k)) k w = v % 256 ^ w := by
  have key : ∀ w j, le (fun i ↦ byteAt v (i - k)) (k + j) w = v / 256 ^ j % 256 ^ w := by
    intro w
    induction w with
    | zero => intro j; simp [le, Nat.mod_one]
    | succ w ih =>
      intro j
      have hb : (byteAt v (k + j - k)).toNat = v / 256 ^ j % 256 := by
        rw [Nat.add_sub_cancel_left, byteAt, UInt8.toNat_ofNat']
      rw [le, Nat.add_assoc, ih (j + 1), hb, pow_succ, ← Nat.div_div_eq_div_mul,
        pow_succ', Nat.mod_mul]
  simpa using key w 0

/-- One reads back what one wrote, cut down to the width of the field. -/
theorem le_putLE_same (f : ℕ → UInt8) (off w v : ℕ) :
    le (putLE f off w v) off w = v % 256 ^ w := by
  rw [← le_byteAt v off w]
  refine le_congr fun i h1 h2 ↦ ?_
  rw [putLE, if_pos ⟨h1, h2⟩]

/-- A store does not disturb a field it does not overlap. -/
theorem le_putLE_of_disjoint {f : ℕ → UInt8} {off w v off' w' : ℕ}
    (h : off' + w' ≤ off ∨ off + w ≤ off') : le (putLE f off w v) off' w' = le f off' w' := by
  refine le_congr fun i h1 h2 ↦ ?_
  rw [putLE, if_neg (by omega)]

theorem putLE_of_not_mem {f : ℕ → UInt8} {off w v i : ℕ} (h : i < off ∨ off + w ≤ i) :
    putLE f off w v i = f i := by
  rw [putLE, if_neg (by omega)]

theorem copyAt_of_mem {dst src : ℕ → UInt8} {off n i : ℕ} (h1 : off ≤ i) (h2 : i < off + n) :
    copyAt dst off src n i = src (i - off) := by
  rw [copyAt, if_pos ⟨h1, h2⟩]

theorem copyAt_of_not_mem {dst src : ℕ → UInt8} {off n i : ℕ} (h : i < off ∨ off + n ≤ i) :
    copyAt dst off src n i = dst i := by
  rw [copyAt, if_neg (by omega)]

/-! ## Single bits of a byte -/

/-- The mask of bit `k` of a byte. -/
def bitMask (k : ℕ) : UInt8 := 1 <<< UInt8.ofNat k

theorem and_bitMask_ne_zero (x : UInt8) {k : ℕ} (hk : k < 8) :
    x &&& bitMask k ≠ 0 ↔ x.toNat.testBit k = true := by
  have key : ∀ k : Fin 8, ∀ x : UInt8,
      (x &&& bitMask k.val ≠ 0 ↔ x.toNat.testBit k.val = true) := by
    intro k x
    have hm : (bitMask k.val).toNat = 2 ^ k.val := by
      revert k; decide
    rw [Ne, ← UInt8.toNat_inj, UInt8.toNat_and, hm, Nat.and_two_pow]
    have h0 : (0 : UInt8).toNat = 0 := rfl
    rw [h0]
    cases x.toNat.testBit k.val <;> simp
  exact key ⟨k, hk⟩ x

theorem testBit_bitMask {k j : ℕ} (hk : k < 8) (hj : j < 8) :
    (bitMask k).toNat.testBit j = decide (k = j) := by
  have key : ∀ k j : Fin 8, (bitMask k.val).toNat.testBit j.val = decide (k.val = j.val) := by
    decide
  exact key ⟨k, hk⟩ ⟨j, hj⟩

theorem testBit_not_bitMask {k j : ℕ} (hk : k < 8) (hj : j < 8) :
    (~~~bitMask k).toNat.testBit j = !decide (k = j) := by
  have key : ∀ k j : Fin 8, (~~~bitMask k.val).toNat.testBit j.val = !decide (k.val = j.val) := by
    decide
  exact key ⟨k, hk⟩ ⟨j, hj⟩

/-! ## Buffers -/

/-- An array of `n` bytes. -/
def Buf (n : ℕ) : Type := Fin n → UInt8

namespace Buf

variable {n : ℕ}

instance : DecidableEq (Buf n) := inferInstanceAs (DecidableEq (Fin n → UInt8))

/-- The byte at `i`, and `0` past the end. -/
def get (b : Buf n) (i : ℕ) : UInt8 := if h : i < n then b ⟨i, h⟩ else 0

/-- The buffer whose bytes are read off a view. -/
def ofView (n : ℕ) (f : ℕ → UInt8) : Buf n := fun i ↦ f i

/-- `n` zero bytes. -/
def zero (n : ℕ) : Buf n := ofView n fun _ ↦ 0

theorem get_ofView (f : ℕ → UInt8) (i : ℕ) : (ofView n f).get i = if i < n then f i else 0 := by
  rw [get]; split <;> rfl

theorem get_ofView_of_lt (f : ℕ → UInt8) {i : ℕ} (h : i < n) : (ofView n f).get i = f i := by
  rw [get_ofView, if_pos h]

@[simp] theorem get_zero (i : ℕ) : (zero n).get i = 0 := by
  rw [zero, get_ofView]; split <;> rfl

theorem ext_get {a b : Buf n} (h : ∀ i, i < n → a.get i = b.get i) : a = b := by
  funext i
  have h' := h i i.isLt
  rwa [get, get, dif_pos i.isLt, dif_pos i.isLt] at h'

@[simp] theorem ofView_get (b : Buf n) : ofView n b.get = b :=
  ext_get fun _ hi ↦ get_ofView_of_lt _ hi

/-- The little-endian integer in the `w` bytes from `off` on. -/
def field (b : Buf n) (off w : ℕ) : ℕ := le b.get off w

/-- Store a little-endian integer. -/
def setField (b : Buf n) (off w v : ℕ) : Buf n := ofView n (putLE b.get off w v)

/-- Copy `k` bytes of a view into a buffer at `off`. -/
def copy (b : Buf n) (off : ℕ) (src : ℕ → UInt8) (k : ℕ) : Buf n :=
  ofView n (copyAt b.get off src k)

@[simp] theorem field_zero (off w : ℕ) : (zero n).field off w = 0 := by
  rw [field, show (zero n).get = fun _ ↦ 0 from funext fun i ↦ get_zero i, le_zero]

theorem field_ofView {f : ℕ → UInt8} {off w : ℕ} (h : off + w ≤ n) :
    (ofView n f).field off w = le f off w :=
  le_congr fun _ _ h2 ↦ get_ofView_of_lt _ (by omega)

theorem field_congr {m : ℕ} {a : Buf n} {b : Buf m} {off w : ℕ}
    (h : ∀ i, off ≤ i → i < off + w → a.get i = b.get i) : a.field off w = b.field off w :=
  le_congr h

theorem eq_of_field_eq {m : ℕ} {a : Buf n} {b : Buf m} {off w i : ℕ}
    (h : a.field off w = b.field off w) (h1 : off ≤ i) (h2 : i < off + w) : a.get i = b.get i :=
  eq_of_le_eq h h1 h2

/-- Replace the byte at `i`. -/
def put (b : Buf n) (i : ℕ) (v : UInt8) : Buf n := ofView n (Function.update b.get i v)

theorem get_put_self (b : Buf n) {i : ℕ} (hi : i < n) (v : UInt8) : (b.put i v).get i = v := by
  rw [put, get_ofView_of_lt _ hi, Function.update_self]

theorem get_put_of_ne (b : Buf n) {i j : ℕ} (h : j ≠ i) (v : UInt8) :
    (b.put i v).get j = b.get j := by
  rw [put, get_ofView, Function.update_of_ne h]
  split
  · rfl
  · rw [get, dif_neg ‹_›]

theorem put_get_self (b : Buf n) (i : ℕ) : b.put i (b.get i) = b := by
  rw [put, Function.update_eq_self, ofView_get]

/-- A byte outside a field does not matter to it. -/
theorem field_put_of_not_mem (b : Buf n) {off w i : ℕ} (h : i < off ∨ off + w ≤ i) (v : UInt8) :
    (b.put i v).field off w = b.field off w :=
  field_congr fun _ _ _ ↦ get_put_of_ne b (by omega) v

theorem field_setField_same {b : Buf n} {off w v : ℕ} (h : off + w ≤ n) (hv : v < 256 ^ w) :
    (b.setField off w v).field off w = v := by
  rw [setField, field_ofView h, le_putLE_same, Nat.mod_eq_of_lt hv]

theorem field_setField_of_disjoint {b : Buf n} {off w v off' w' : ℕ}
    (h : off' + w' ≤ off ∨ off + w ≤ off') (hn : off' + w' ≤ n) :
    (b.setField off w v).field off' w' = b.field off' w' := by
  rw [setField, field_ofView hn, le_putLE_of_disjoint h, field]

/-- Of two stores to the same field the second one stands. -/
theorem setField_setField_self (b : Buf n) (off w v v' : ℕ) :
    (b.setField off w v).setField off w v' = b.setField off w v' := by
  refine ext_get fun i hi ↦ ?_
  rw [setField, setField, setField, get_ofView_of_lt _ hi, get_ofView_of_lt _ hi, putLE, putLE]
  split
  · rfl
  · rename_i h
    rw [get_ofView_of_lt _ hi, putLE, if_neg h]

theorem get_setField_of_not_mem {b : Buf n} {off w v i : ℕ} (h : i < off ∨ off + w ≤ i) :
    (b.setField off w v).get i = b.get i := by
  rw [setField, get_ofView, putLE_of_not_mem h]
  split
  · rfl
  · rw [get, dif_neg ‹_›]

/-- A field that is stored over a byte makes the byte irrelevant. -/
theorem setField_put_of_mem (b : Buf n) {off w v i : ℕ} {u : UInt8} (h1 : off ≤ i)
    (h2 : i < off + w) : (b.put i u).setField off w v = b.setField off w v := by
  refine ext_get fun k hk ↦ ?_
  rw [setField, setField, get_ofView_of_lt _ hk, get_ofView_of_lt _ hk, putLE, putLE]
  split
  · rfl
  · exact get_put_of_ne b (by omega) u

/-- A field and a byte outside of it may be stored in any order. -/
theorem setField_put_of_not_mem (b : Buf n) {off w v i : ℕ} {u : UInt8}
    (h : i < off ∨ off + w ≤ i) : (b.put i u).setField off w v = (b.setField off w v).put i u := by
  refine ext_get fun k hk ↦ ?_
  by_cases hki : k = i
  · subst hki
    rw [get_setField_of_not_mem h, get_put_self b hk, get_put_self _ hk]
  · rw [get_put_of_ne _ hki, setField, setField, get_ofView_of_lt _ hk, get_ofView_of_lt _ hk,
      putLE, putLE, get_put_of_ne b hki]

theorem get_copy_of_mem {b : Buf n} {off k i : ℕ} {src : ℕ → UInt8} (h1 : off ≤ i)
    (h2 : i < off + k) (hn : i < n) : (b.copy off src k).get i = src (i - off) := by
  rw [copy, get_ofView_of_lt _ hn, copyAt_of_mem h1 h2]

theorem get_copy_of_not_mem {b : Buf n} {off k i : ℕ} {src : ℕ → UInt8}
    (h : i < off ∨ off + k ≤ i) : (b.copy off src k).get i = b.get i := by
  rw [copy, get_ofView, copyAt_of_not_mem h]
  split
  · rfl
  · rw [get, dif_neg ‹_›]

theorem field_copy_of_disjoint {b : Buf n} {off k off' w : ℕ} {src : ℕ → UInt8}
    (h : off' + w ≤ off ∨ off + k ≤ off') : (b.copy off src k).field off' w = b.field off' w :=
  le_congr fun i h1 h2 ↦ get_copy_of_not_mem (by omega)

/-! ### Bitmaps -/

/-- Is bit `i` set? -/
def bitTest (b : Buf n) (i : ℕ) : Bool := b.get (i / 8) &&& bitMask (i % 8) != 0

/-- Set bit `i`. -/
def bitSet (b : Buf n) (i : ℕ) : Buf n :=
  ofView n (Function.update b.get (i / 8) (b.get (i / 8) ||| bitMask (i % 8)))

/-- Clear bit `i`. -/
def bitClear (b : Buf n) (i : ℕ) : Buf n :=
  ofView n (Function.update b.get (i / 8) (b.get (i / 8) &&& ~~~bitMask (i % 8)))

theorem bitTest_eq_testBit (b : Buf n) (i : ℕ) :
    b.bitTest i = (b.get (i / 8)).toNat.testBit (i % 8) := by
  rw [bitTest, Bool.eq_iff_iff, bne_iff_ne]
  exact and_bitMask_ne_zero _ (Nat.mod_lt _ (by decide))

@[simp] theorem bitTest_zero (i : ℕ) : (zero n).bitTest i = false := by
  rw [bitTest_eq_testBit, get_zero]; simp

/-- A buffer is determined by its bits. -/
theorem ext_bitTest {a b : Buf n} (h : ∀ i, a.bitTest i = b.bitTest i) : a = b := by
  refine ext_get fun k _ ↦ UInt8.toNat_inj.1 (Nat.eq_of_testBit_eq fun j ↦ ?_)
  by_cases hj : j < 8
  · have hbit := h (8 * k + j)
    rwa [bitTest_eq_testBit, bitTest_eq_testBit, show (8 * k + j) / 8 = k by omega,
      show (8 * k + j) % 8 = j by omega] at hbit
  · have hlt : ∀ x : UInt8, x.toNat < 2 ^ j := fun x ↦
      lt_of_lt_of_le x.toNat_lt (Nat.pow_le_pow_right (by decide) (not_lt.1 hj))
    rw [Nat.testBit_lt_two_pow (hlt _), Nat.testBit_lt_two_pow (hlt _)]

/-- **Setting a bit adds one element.** -/
theorem bitTest_bitSet {b : Buf n} {i : ℕ} (hi : i / 8 < n) (j : ℕ) :
    (b.bitSet i).bitTest j = (decide (i = j) || b.bitTest j) := by
  rw [bitTest_eq_testBit, bitTest_eq_testBit, bitSet]
  by_cases hb : j / 8 = i / 8
  · rw [hb, get_ofView_of_lt _ hi, Function.update_self, UInt8.toNat_or, Nat.testBit_or,
      testBit_bitMask (Nat.mod_lt _ (by decide)) (Nat.mod_lt _ (by decide)), Bool.or_comm,
      show decide (i % 8 = j % 8) = decide (i = j) from decide_eq_decide.2 (by omega)]
  · rw [decide_eq_false (show i ≠ j by rintro rfl; exact hb rfl), Bool.false_or, get_ofView,
      Function.update_of_ne hb]
    split
    · rfl
    · rw [get, dif_neg ‹_›]

/-- **Clearing a bit removes one element.** -/
theorem bitTest_bitClear {b : Buf n} {i : ℕ} (hi : i / 8 < n) (j : ℕ) :
    (b.bitClear i).bitTest j = (!decide (i = j) && b.bitTest j) := by
  rw [bitTest_eq_testBit, bitTest_eq_testBit, bitClear]
  by_cases hb : j / 8 = i / 8
  · rw [hb, get_ofView_of_lt _ hi, Function.update_self, UInt8.toNat_and, Nat.testBit_and,
      testBit_not_bitMask (Nat.mod_lt _ (by decide)) (Nat.mod_lt _ (by decide)), Bool.and_comm,
      show decide (i % 8 = j % 8) = decide (i = j) from decide_eq_decide.2 (by omega)]
  · rw [decide_eq_false (show i ≠ j by rintro rfl; exact hb rfl), Bool.not_false, Bool.true_and,
      get_ofView, Function.update_of_ne hb]
    split
    · rfl
    · rw [get, dif_neg ‹_›]

/-- Setting bits one after the other. -/
theorem bitTest_foldl_bitSet {l : List ℕ} (hl : ∀ i ∈ l, i / 8 < n) (b : Buf n) (j : ℕ) :
    (l.foldl (fun b i ↦ b.bitSet i) b).bitTest j = true ↔ j ∈ l ∨ b.bitTest j = true := by
  induction l generalizing b with
  | nil => simp
  | cons i l ih =>
    rw [List.foldl_cons, ih (fun k hk ↦ hl k (List.mem_cons_of_mem _ hk)),
      bitTest_bitSet (hl i List.mem_cons_self), Bool.or_eq_true, decide_eq_true_iff, List.mem_cons,
      eq_comm]
    tauto

end Buf

end Bytes
