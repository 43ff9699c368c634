import Mcsos.Lib.Bytes

/-!
# Records in memory

A C structure is a number of fields, each with an offset and a width, that do not overlap.
`Layout` is such a description over a type of field names, and `Layout.get` and `Layout.set` access
a field of the structure at an address, in little-endian byte order.

A store changes one field of one structure.  `get_set_same`, `get_set_of_ne` and `get_set_of_apart`
say so for the fields, and `set_of_not_mem` for the bytes.
-/

set_option autoImplicit false

open Bytes

/-- The fields of a structure. -/
structure Layout (F : Type) where
  off : F → ℕ
  width : F → ℕ
  size : ℕ
  inside : ∀ f, off f + width f ≤ size
  disjoint : ∀ f g, f ≠ g → off f + width f ≤ off g ∨ off g + width g ≤ off f

namespace Layout

variable {F : Type} (L : Layout F)

/-- Field `f` of the structure at address `a`. -/
def get (m : ℕ → UInt8) (a : ℕ) (f : F) : ℕ := le m (a + L.off f) (L.width f)

/-- Store to field `f` of the structure at address `a`. -/
def set (m : ℕ → UInt8) (a : ℕ) (f : F) (v : ℕ) : ℕ → UInt8 := putLE m (a + L.off f) (L.width f) v

variable {L} {m m' : ℕ → UInt8} {a b i v : ℕ} {f g : F}

theorem get_lt : L.get m a f < 256 ^ L.width f := le_lt _ _ _

theorem get_set_same (hv : v < 256 ^ L.width f) : L.get (L.set m a f v) a f = v := by
  rw [get, set, le_putLE_same, Nat.mod_eq_of_lt hv]

theorem get_set_of_ne (h : g ≠ f) : L.get (L.set m a f v) a g = L.get m a g := by
  have := L.disjoint f g h.symm
  exact le_putLE_of_disjoint (by omega)

theorem get_set_of_apart (h : b + L.size ≤ a ∨ a + L.size ≤ b) :
    L.get (L.set m a f v) b g = L.get m b g := by
  have hf := L.inside f
  have hg := L.inside g
  exact le_putLE_of_disjoint (by omega)

theorem set_of_not_mem (h : i < a ∨ a + L.size ≤ i) : L.set m a f v i = m i := by
  have hf := L.inside f
  exact putLE_of_not_mem (by omega)

/-- The fields of a structure depend on its own bytes only. -/
theorem get_congr (h : ∀ i, a ≤ i → i < a + L.size → m' i = m i) : L.get m' a f = L.get m a f := by
  have hf := L.inside f
  exact le_congr fun i h1 h2 ↦ h i (by omega) (by omega)

end Layout
