import Mathlib.Data.List.Nodup
import Mathlib.Logic.Function.Iterate

/-!
# Singly linked queues

Nodes that are linked by `next` pointers, where `null` ends a chain.  `Linked next null p l` says
that the chain from `p` visits the nodes of `l`, and `Queue` adds the pointer to the last of them
and that no node is visited twice.  A queue grows at its end (`Queue.push`) and shrinks at its
front (`Queue.pop`).  Both are stated for any `next'` that has the links the queue needs.

Pointers that nobody vouches for need not be a queue, and the chain from one of them may go round in
circles.  If it ends, then it visits a single list, without repetition (`Linked.unique`,
`Linked.nodup`), and if it repeats itself, then it never gets anywhere else (`iterate_of_eq`).
-/

set_option autoImplicit false

namespace LinkedQueue

variable {P : Type*} {next next' : P → P} {null p q head tail : P} {l : List P}

/-- The chain from a pointer visits the nodes of a list. -/
def Linked (next : P → P) (null : P) : P → List P → Prop
  | p, [] => p = null
  | p, q :: l => p = q ∧ q ≠ null ∧ Linked next null (next q) l

namespace Linked

theorem congr (h : Linked next null p l) (hnext : ∀ q ∈ l, next' q = next q) :
    Linked next' null p l := by
  induction l generalizing p with
  | nil => exact h
  | cons q l ih =>
    obtain ⟨rfl, hq, hl⟩ := h
    refine ⟨rfl, hq, ?_⟩
    rw [hnext p List.mem_cons_self]
    exact ih hl fun r hr ↦ hnext r (List.mem_cons_of_mem _ hr)

theorem ne_null (h : Linked next null p l) (hq : q ∈ l) : q ≠ null := by
  induction l generalizing p with
  | nil => exact absurd hq List.not_mem_nil
  | cons r l ih =>
    rcases List.mem_cons.1 hq with rfl | hq
    · exact h.2.1
    · exact ih h.2.2 hq

theorem eq_null_iff (h : Linked next null p l) : p = null ↔ l = [] := by
  cases l with
  | nil => exact iff_of_true h rfl
  | cons q l =>
    rw [h.1]
    exact iff_of_false h.2.1 (List.cons_ne_nil _ _)

/-- There is only one list that a chain visits. -/
theorem unique {l' : List P} (h : Linked next null p l) (h' : Linked next null p l') : l = l' := by
  induction l generalizing p l' with
  | nil => exact (h'.eq_null_iff.1 h).symm
  | cons q l ih =>
    obtain ⟨rfl, hp, hl⟩ := h
    cases l' with
    | nil => exact absurd h' hp
    | cons q' l' =>
      obtain ⟨rfl, -, hl'⟩ := h'
      rw [ih hl hl']

/-- From a node of the chain on it is a chain, and no longer one. -/
theorem of_mem (h : Linked next null p l) (hq : q ∈ l) :
    ∃ l', Linked next null q l' ∧ l'.length ≤ l.length := by
  induction l generalizing p with
  | nil => exact absurd hq List.not_mem_nil
  | cons r l ih =>
    by_cases hqr : q = r
    · rw [hqr, ← h.1]
      exact ⟨r :: l, h, Nat.le_refl _⟩
    · obtain ⟨l', hl', hlen⟩ := ih h.2.2 (List.mem_of_ne_of_mem hqr hq)
      exact ⟨l', hl', Nat.le_succ_of_le hlen⟩

/-- A chain that ends does not visit a node twice. -/
theorem nodup (h : Linked next null p l) : l.Nodup := by
  induction l generalizing p with
  | nil => exact List.nodup_nil
  | cons q l ih =>
    refine List.nodup_cons.2 ⟨fun hmem ↦ ?_, ih h.2.2⟩
    obtain ⟨l', hl', hlen⟩ := of_mem h.2.2 hmem
    obtain rfl := unique h (h.1.symm ▸ hl')
    exact absurd hlen (Nat.not_succ_le_self _)

/-- A node behind the last one. -/
theorem append (h : Linked next null p l) (hq : q ≠ null) (hnull : next' q = null)
    (hlast : ∀ r, l.getLast? = some r → next' r = q) (hne : l ≠ [])
    (hsame : ∀ r ∈ l, l.getLast? ≠ some r → next' r = next r) (hnodup : l.Nodup) :
    Linked next' null p (l ++ [q]) := by
  induction l generalizing p with
  | nil => exact absurd rfl hne
  | cons r l ih =>
    obtain ⟨rfl, hr, hl⟩ := h
    refine ⟨rfl, hr, ?_⟩
    cases l with
    | nil =>
      rw [hlast p rfl]
      exact ⟨rfl, hq, hnull⟩
    | cons r' l =>
      have hgl : (p :: r' :: l).getLast? = (r' :: l).getLast? := rfl
      rw [hgl] at hlast hsame
      have hp : next' p = next p := by
        refine hsame p List.mem_cons_self fun hlast' ↦ ?_
        exact (List.nodup_cons.1 hnodup).1 (List.mem_of_getLast? hlast')
      rw [hp]
      exact ih hl hlast (List.cons_ne_nil _ _)
        (fun s hs ↦ hsame s (List.mem_cons_of_mem _ hs)) (List.nodup_cons.1 hnodup).2

end Linked

/-- A walk that comes back to a node stays where it has been. -/
theorem iterate_of_eq {S : P → Prop} {i j : ℕ} (hij : i < j) (heq : next^[i] p = next^[j] p)
    (h : ∀ k, k < j → S (next^[k] p)) (k : ℕ) : S (next^[k] p) := by
  induction k using Nat.strongRecOn with
  | ind k ih =>
    by_cases hk : k < j
    · exact h k hk
    · have hback : next^[k] p = next^[k - j + i] p := by
        rw [Function.iterate_add_apply, heq, ← Function.iterate_add_apply,
          Nat.sub_add_cancel (Nat.le_of_not_lt hk)]
      rw [hback]
      exact ih _ (by omega)

/-- A queue with pointers to its first and last nodes. -/
structure Queue (next : P → P) (null head tail : P) (l : List P) : Prop where
  linked : Linked next null head l
  nodup : l.Nodup
  last : tail = l.getLast?.getD null

namespace Queue

theorem congr (h : Queue next null head tail l) (hnext : ∀ q ∈ l, next' q = next q) :
    Queue next' null head tail l := ⟨h.linked.congr hnext, h.nodup, h.last⟩

theorem tail_eq_null_iff (h : Queue next null head tail l) : tail = null ↔ l = [] := by
  rw [h.last]
  cases hl : l.getLast? with
  | none => exact iff_of_true rfl (List.getLast?_eq_none_iff.1 hl)
  | some r =>
    refine iff_of_false (h.linked.ne_null (List.mem_of_getLast? hl)) ?_
    rintro rfl
    cases hl

theorem singleton (hq : q ≠ null) (hnull : next q = null) : Queue next null q q [q] :=
  ⟨⟨rfl, hq, hnull⟩, List.nodup_singleton q, rfl⟩

theorem push (h : Queue next null head tail l) (hne : l ≠ []) (hq : q ≠ null) (hql : q ∉ l)
    (hnull : next' q = null) (hlast : next' tail = q)
    (hsame : ∀ r ∈ l, r ≠ tail → next' r = next r) : Queue next' null head q (l ++ [q]) := by
  have htail : ∀ r, l.getLast? = some r → r = tail := fun r hr ↦ by rw [h.last, hr]; rfl
  refine ⟨h.linked.append hq hnull (fun r hr ↦ ?_) hne (fun r hr hr' ↦ hsame r hr ?_) h.nodup,
    ?_, ?_⟩
  · rw [htail r hr, hlast]
  · rintro rfl
    obtain ⟨t, ht⟩ := Option.ne_none_iff_exists'.1 (mt List.getLast?_eq_none_iff.1 hne)
    exact hr' (htail t ht ▸ ht)
  · rw [List.nodup_append]
    refine ⟨h.nodup, List.nodup_singleton q, fun a ha b hb ↦ ?_⟩
    rintro rfl
    exact hql (List.mem_singleton.1 hb ▸ ha)
  · rw [List.getLast?_append_cons]
    rfl

/-- Without its first node a queue starts at the next one. -/
theorem pop [DecidableEq P] (h : Queue next null head tail (p :: l)) :
    Queue next null (next head) (if next head = null then null else tail) l := by
  obtain ⟨rfl, -, hl⟩ := h.linked
  refine ⟨hl, (List.nodup_cons.1 h.nodup).2, ?_⟩
  cases l with
  | nil => exact if_pos hl
  | cons q l =>
    rw [if_neg (fun h0 ↦ List.cons_ne_nil _ _ (hl.eq_null_iff.1 h0)), h.last]
    rfl

end Queue

end LinkedQueue
