import Mathlib.Logic.Relation
import Mathlib.Order.WithBot
import Mathlib.Logic.Function.Basic

/-!
# Acquiring locks in increasing order

Threads hold locks, and a thread may be waiting for one more.  Every lock has a rank.  If each
thread holds its locks in the order of their ranks and only ever waits for a lock of a still higher
rank, then nobody waits in a circle: going from a waiting thread to the holder of the lock it waits
for, the rank of the lock waited for goes up.
-/

set_option autoImplicit false

namespace LockOrder

universe u v w

/-- Who holds which locks, oldest first, and who waits for which. -/
structure Alloc (T : Type u) (L : Type v) where
  held : T → List L
  waiting : T → Option L

namespace Alloc

variable {T : Type u} {L : Type v} {R : Type w}

/-- The locks that a thread holds or waits for. -/
def claimed (a : Alloc T L) (t : T) : List L := a.held t ++ (a.waiting t).toList

/-- `t` waits for a lock that `u` holds. -/
def WaitsFor (a : Alloc T L) (t u : T) : Prop := ∃ l, a.waiting t = some l ∧ l ∈ a.held u

/-- Every thread claims its locks in the order of their ranks. -/
def Ordered [LT R] (a : Alloc T L) (rank : L → R) : Prop :=
  ∀ t, ((a.claimed t).map rank).Pairwise (· < ·)

/-! ## No circular waiting -/

section Acyclic

variable [Preorder R] {a : Alloc T L} {rank : L → R}

/-- A thread's locks have smaller ranks than the lock it waits for. -/
theorem Ordered.rank_lt (h : a.Ordered rank) {t : T} {l m : L} (hl : l ∈ a.held t)
    (hm : a.waiting t = some m) : rank l < rank m := by
  have ht := h t
  rw [claimed, hm, List.map_append, List.pairwise_append] at ht
  exact ht.2.2 (rank l) (List.mem_map_of_mem hl) (rank m) (List.mem_singleton_self _)

/-- The rank of the lock a thread waits for; above all ranks if it is not waiting. -/
def level (a : Alloc T L) (rank : L → R) (t : T) : WithTop R := (a.waiting t).map rank

theorem Ordered.level_lt (h : a.Ordered rank) {t u : T} (htu : a.WaitsFor t u) :
    a.level rank t < a.level rank u := by
  obtain ⟨l, hwait, hheld⟩ := htu
  rw [level, level, hwait]
  cases hu : a.waiting u with
  | none => exact WithTop.coe_lt_top (rank l)
  | some m => exact WithTop.coe_lt_coe.2 (h.rank_lt hheld hu)

/-- **Ordered acquisition excludes deadlock.** -/
theorem Ordered.not_transGen_self (h : a.Ordered rank) (t : T) :
    ¬ Relation.TransGen a.WaitsFor t t := by
  intro hcycle
  have hlt : Relation.TransGen (· < ·) (a.level rank t) (a.level rank t) :=
    hcycle.lift (a.level rank) fun _ _ ↦ h.level_lt
  rw [Relation.transGen_eq_self] at hlt
  exact lt_irrefl _ hlt

end Acyclic

/-! ## Steps -/

section Steps

variable [DecidableEq T]

/-- `t` starts to wait for `l`. -/
def request (a : Alloc T L) (t : T) (l : L) : Alloc T L :=
  { a with waiting := Function.update a.waiting t (some l) }

/-- `t` takes `l`, for which it has been waiting. -/
def grant (a : Alloc T L) (t : T) (l : L) : Alloc T L where
  held := Function.update a.held t (a.held t ++ [l])
  waiting := Function.update a.waiting t none

/-- `t` gives `l` back. -/
def release [DecidableEq L] (a : Alloc T L) (t : T) (l : L) : Alloc T L :=
  { a with held := Function.update a.held t ((a.held t).erase l) }

variable {a : Alloc T L} {t : T} {l : L}

theorem claimed_request (h : a.waiting t = none) :
    (a.request t l).claimed = Function.update a.claimed t (a.claimed t ++ [l]) := by
  funext u
  by_cases hu : u = t
  · subst hu
    simp [claimed, request, h]
  · simp [claimed, request, hu]

theorem claimed_grant (h : a.waiting t = some l) : (a.grant t l).claimed = a.claimed := by
  funext u
  by_cases hu : u = t
  · subst hu
    simp [claimed, grant, h]
  · simp [claimed, grant, hu]

/-- The lock that a thread gives back, if it has the highest rank of all it claims, is the last one
it claimed. -/
theorem claimed_release [DecidableEq L] [Preorder R] {rank : L → R} (ha : a.Ordered rank)
    (hl : l ∈ a.held t) {ranks : List R} (hlast : (a.claimed t).map rank = ranks ++ [rank l]) :
    (a.release t l).claimed = Function.update a.claimed t (a.claimed t).dropLast := by
  -- nobody gives a lock back while waiting, since the lock waited for has a higher rank
  have hwait : a.waiting t = none := by
    cases hm : a.waiting t with
    | none => rfl
    | some m =>
      rw [claimed, hm, Option.toList_some, List.map_append, List.map_singleton] at hlast
      have hrank : rank m = rank l := List.singleton_inj.1 (List.append_inj' hlast rfl).2
      exact absurd (ha.rank_lt hl hm) (hrank ▸ lt_irrefl _)
  have hclaimed : a.claimed t = a.held t := by simp [claimed, hwait]
  obtain ⟨older, m, hheld⟩ : ∃ older m, a.held t = older ++ [m] :=
    ⟨_, _, (List.dropLast_concat_getLast (List.ne_nil_of_mem hl)).symm⟩
  have horder := ha t
  rw [hclaimed, hheld, List.map_append, List.map_singleton, List.pairwise_append] at horder
  rw [hclaimed, hheld, List.map_append, List.map_singleton] at hlast
  have hrank : rank m = rank l := List.singleton_inj.1 (List.append_inj' hlast rfl).2
  have hnot : l ∉ older := fun hmem ↦ absurd
    (horder.2.2 (rank l) (List.mem_map_of_mem hmem) (rank m) (List.mem_singleton_self _))
    (hrank ▸ lt_irrefl _)
  obtain rfl : l = m := by
    rw [hheld, List.mem_append, List.mem_singleton] at hl
    exact hl.resolve_left hnot
  rw [hclaimed, hheld, List.dropLast_concat]
  funext u
  by_cases hu : u = t
  · subst hu
    simp [claimed, release, hwait, hheld, List.erase_append_right _ hnot]
  · simp [claimed, release, hu]

end Steps

end Alloc

end LockOrder
