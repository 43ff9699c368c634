import Mathlib.Data.List.OfFn
import Mathlib.Logic.Function.Basic

/-!
# Rolling checksums

A rolling checksum takes in the items of a list one after the other, and keeps nothing but the
checksum so far.  If a step can be undone by someone who knows the item, and tells different items
apart, then the whole checksum notices when a single item is replaced by another
(`Rolling.eq_of_foldl_eq`): the checksums differ right behind the item, and no later step can make
them equal again.  This says nothing about two items that are replaced.
-/

set_option autoImplicit false

namespace Checksum

universe u v

variable {σ : Type u} {β : Type v}

/-- A step that is one to one in the state and in the item. -/
structure Rolling (step : σ → β → σ) : Prop where
  state_inj : ∀ b, Function.Injective fun s ↦ step s b
  item_inj : ∀ s, Function.Injective (step s)

variable {step : σ → β → σ}

/-- Different states stay different. -/
theorem Rolling.foldl_injective (hs : Rolling step) (l : List β) :
    Function.Injective fun s ↦ l.foldl step s := by
  induction l with
  | nil => exact Function.injective_id
  | cons b l ih => exact ih.comp (hs.state_inj b)

/-- **A single item that is replaced shows in the checksum.** -/
theorem Rolling.eq_of_foldl_eq (hs : Rolling step) {l l' : List β} {s : σ} (i : ℕ)
    (hlen : l.length = l'.length) (hne : ∀ j, j ≠ i → l[j]? = l'[j]?)
    (h : l.foldl step s = l'.foldl step s) : l = l' := by
  induction l generalizing l' s i with
  | nil => exact (List.length_eq_zero_iff.1 hlen.symm).symm
  | cons b l ih =>
    cases l' with
    | nil => cases hlen
    | cons b' l' =>
      rw [List.foldl_cons, List.foldl_cons] at h
      cases i with
      | zero =>
        obtain rfl : l = l' := List.ext_getElem? fun j ↦ hne (j + 1) (Nat.succ_ne_zero j)
        rw [hs.item_inj s (hs.foldl_injective l h)]
      | succ i =>
        obtain rfl : b = b' := Option.some.inj (hne 0 (Nat.succ_ne_zero i).symm)
        rw [ih i (Nat.succ.inj hlen) (fun j hj ↦ hne (j + 1) (by omega)) h]

/-- The same for an array of items. -/
theorem Rolling.eq_of_foldl_ofFn_eq (hs : Rolling step) {n : ℕ} {f g : Fin n → β} {s : σ} (i : ℕ)
    (hne : ∀ j : Fin n, j.val ≠ i → f j = g j)
    (h : (List.ofFn f).foldl step s = (List.ofFn g).foldl step s) : f = g := by
  refine List.ofFn_injective (hs.eq_of_foldl_eq i (by simp) (fun j hj ↦ ?_) h)
  rw [List.getElem?_ofFn, List.getElem?_ofFn]
  split
  · rw [hne _ hj]
  · rfl

end Checksum
