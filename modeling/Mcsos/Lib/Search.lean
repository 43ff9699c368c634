import Mathlib.Data.List.Basic
import Mathlib.Data.List.Range
import Mathlib.Order.Interval.Finset.Nat

/-!
# Searching a table

A loop `for (i = a; i < b; i++) if (p(i)) break;` finds the first index of a range that passes a
test.  It is modelled as `find?` on the list of indices; these are the facts about its result that
do not depend on what is searched.
-/

set_option autoImplicit false

namespace Search

variable {p q : ℕ → Bool} {a n i : ℕ}

theorem of_find?_range (h : (List.range n).find? p = some i) : i < n ∧ p i = true :=
  ⟨List.mem_range.1 (List.mem_of_find?_eq_some h), List.find?_some h⟩

theorem of_find?_range' (h : (List.range' a n).find? p = some i) :
    a ≤ i ∧ i < a + n ∧ p i = true := by
  obtain ⟨h1, h2⟩ := List.mem_range'_1.1 (List.mem_of_find?_eq_some h)
  exact ⟨h1, h2, List.find?_some h⟩

theorem of_find?_range_none (h : (List.range n).find? p = none) (hi : i < n) : p i = false :=
  Bool.eq_false_iff.2 (List.find?_eq_none.1 h i (List.mem_range.2 hi))

/-- Tests that agree on the range find the same index. -/
theorem find?_range_congr (h : ∀ i, i < n → p i = q i) :
    (List.range n).find? p = (List.range n).find? q := by
  rw [← List.head?_filter, ← List.head?_filter,
    List.filter_congr fun i hi ↦ h i (List.mem_range.1 hi)]

/-- An index that alone passes the test is found. -/
theorem find?_range_eq_some (hi : i < n) (hp : p i = true)
    (hq : ∀ j, j < n → j ≠ i → p j = false) : (List.range n).find? p = some i := by
  cases h : (List.range n).find? p with
  | none => exact absurd hp (List.find?_eq_none.1 h i (List.mem_range.2 hi))
  | some j =>
    obtain ⟨hj, hpj⟩ := of_find?_range h
    by_contra hne
    rw [hq j hj fun hji ↦ hne (by rw [hji])] at hpj
    cases hpj

/-- If the test fails only on a set `s` of indices, it passes at the latest after as many indices
as there are in `s`. -/
theorem exists_find?_range'_le {s : Finset ℕ} (hs : ∀ i, a ≤ i → i < a + n → i ∉ s → p i = true)
    (hcard : s.card < n) : ∃ i, (List.range' a n).find? p = some i ∧ i ≤ a + s.card := by
  have hlt : s.card < (Finset.Ico a (a + s.card + 1)).card := by
    rw [Nat.card_Ico]
    omega
  obtain ⟨j, hj, hjs⟩ := Finset.exists_mem_notMem_of_card_lt_card hlt
  obtain ⟨h1, h2⟩ := Finset.mem_Ico.1 hj
  have hp : p j = true := hs j h1 (by omega) hjs
  cases h : (List.range' a n).find? p with
  | none => exact absurd hp (List.find?_eq_none.1 h j (List.mem_range'_1.2 ⟨h1, by omega⟩))
  | some i =>
    refine ⟨i, rfl, not_lt.1 fun hi ↦ ?_⟩
    have hmin := (List.find?_range'_eq_some.1 h).2.2 j h1 (by omega)
    rw [hp] at hmin
    cases hmin

/-- Taking an index out of those that pass the test. -/
theorem countP_add_one {l : List ℕ} (hl : l.Nodup) (hi : i ∈ l) (hp : p i = true)
    (hi' : q i = false) (hq : ∀ j ∈ l, j ≠ i → q j = p j) : l.countP q + 1 = l.countP p := by
  induction l with
  | nil => cases hi
  | cons j l ih =>
    obtain ⟨hj, hl⟩ := List.nodup_cons.1 hl
    by_cases hji : j = i
    · subst hji
      have hrest : l.countP q = l.countP p := List.countP_congr fun k hk ↦ by
        rw [hq k (List.mem_cons_of_mem _ hk) fun hkj ↦ hj (hkj ▸ hk)]
      rw [List.countP_cons_of_neg (by rw [hi']; decide), List.countP_cons_of_pos hp, hrest]
    · have hil : i ∈ l := (List.mem_cons.1 hi).resolve_left (Ne.symm hji)
      have hrest := ih hl hil fun k hk ↦ hq k (List.mem_cons_of_mem _ hk)
      rw [List.countP_cons, List.countP_cons, hq j List.mem_cons_self hji, ← hrest]
      omega

end Search
