import Mathlib.Data.Set.Insert
import Mathlib.Order.Nat
import Mathlib.Tactic.Common

/-!
# Tilings of an interval by linked blocks

An interval `[lo, hi)` is divided into blocks that lie one behind the other.  Each starts with a
header of `hd` units, which says how long the rest of the block is and where its neighbours are; no
neighbour is written `0`.

The set `S` of the starts of the blocks and the function `N` that reads the headers are kept apart,
so that everything `Tiling` says is about one block and its neighbours.  Two changes lead from one
tiling to another: a block can be cut in two (`Tiling.split`), and it can be joined with the one
behind it (`Tiling.merge`).  Both are stated for any `N'` that has the new headers where they
matter.
-/

set_option autoImplicit false

/-- What the header of a block says. -/
structure Node where
  size : ℕ
  prev : ℕ
  next : ℕ

/-- The blocks that start at the elements of `S` tile `[lo, hi)`. -/
structure Tiling (hd lo hi : ℕ) (S : Set ℕ) (N : ℕ → Node) : Prop where
  lo_pos : 0 < lo
  lo_mem : lo ∈ S
  ge : ∀ a ∈ S, lo ≤ a
  le : ∀ a ∈ S, a + hd + (N a).size ≤ hi
  apart : ∀ a ∈ S, ∀ b ∈ S, a < b → a + hd + (N a).size ≤ b
  next : ∀ a ∈ S, a + hd + (N a).size = hi ∧ (N a).next = 0 ∨
    a + hd + (N a).size ∈ S ∧ (N a).next = a + hd + (N a).size
  prev : ∀ a ∈ S, a = lo ∧ (N a).prev = 0 ∨
    (N a).prev ∈ S ∧ (N a).prev + hd + (N (N a).prev).size = a

namespace Tiling

variable {hd lo hi : ℕ} {S : Set ℕ} {N N' : ℕ → Node} {a b w : ℕ}

theorem pos (hT : Tiling hd lo hi S N) (ha : a ∈ S) : 0 < a := lt_of_lt_of_le hT.lo_pos (hT.ge a ha)

/-- The next block, if there is one, is where this block ends. -/
theorem next_mem (hT : Tiling hd lo hi S N) (ha : a ∈ S) (h : (N a).next ≠ 0) :
    (N a).next ∈ S ∧ (N a).next = a + hd + (N a).size := by
  rcases hT.next a ha with ⟨-, h0⟩ | ⟨hS, he⟩
  · exact absurd h0 h
  · exact ⟨he ▸ hS, he⟩

theorem eq_hi_of_next (hT : Tiling hd lo hi S N) (ha : a ∈ S) (h : (N a).next = 0) :
    a + hd + (N a).size = hi := by
  rcases hT.next a ha with ⟨he, -⟩ | ⟨hS, he⟩
  · exact he
  · exact absurd (he.symm.trans h) (hT.pos hS).ne'

theorem prev_mem (hT : Tiling hd lo hi S N) (ha : a ∈ S) (h : (N a).prev ≠ 0) :
    (N a).prev ∈ S ∧ (N a).prev + hd + (N (N a).prev).size = a := by
  rcases hT.prev a ha with ⟨-, h0⟩ | h'
  · exact absurd h0 h
  · exact h'

/-- Nothing is in front of the first block. -/
theorem prev_lo (hT : Tiling hd lo hi S N) (hpos : 0 < hd) : (N lo).prev = 0 := by
  rcases hT.prev lo hT.lo_mem with ⟨-, h0⟩ | ⟨hp, he⟩
  · exact h0
  · have := hT.ge _ hp
    omega

/-- Two blocks that end at the same place are the same. -/
theorem eq_of_end_eq (hT : Tiling hd lo hi S N) (hpos : 0 < hd) (ha : a ∈ S) (hb : b ∈ S)
    (h : a + hd + (N a).size = b + hd + (N b).size) : a = b := by
  rcases Nat.lt_trichotomy a b with hab | hab | hab
  · have := hT.apart a ha b hb hab
    omega
  · exact hab
  · have := hT.apart b hb a ha hab
    omega

/-- Neighbours know each other. -/
theorem prev_next (hT : Tiling hd lo hi S N) (hpos : 0 < hd) (ha : a ∈ S) (h : (N a).next ≠ 0) :
    (N (N a).next).prev = a := by
  obtain ⟨hS, he⟩ := hT.next_mem ha h
  rcases hT.prev _ hS with ⟨hlo, -⟩ | ⟨hp, hpe⟩
  · have := hT.ge a ha
    omega
  · exact hT.eq_of_end_eq hpos hp ha (hpe.trans he)

/-- The header of a block is not where another block is. -/
theorem header_apart (hT : Tiling hd lo hi S N) (ha : a ∈ S) (hb : b ∈ S) (hne : a ≠ b) :
    a + hd ≤ b ∨ b + hd ≤ a := by
  rcases Nat.lt_or_gt_of_ne hne with h | h
  · have := hT.apart a ha b hb h
    omega
  · have := hT.apart b hb a ha h
    omega

/-- The headers determine which blocks there are. -/
theorem subset {S' : Set ℕ} (hT : Tiling hd lo hi S N) (hT' : Tiling hd lo hi S' N)
    (hpos : 0 < hd) : S ⊆ S' := by
  intro a ha
  -- by induction along the blocks: each is where the one in front of it ends
  induction a using Nat.strong_induction_on with
  | _ a ih =>
    rcases hT.prev a ha with ⟨rfl, -⟩ | ⟨hp, he⟩
    · exact hT'.lo_mem
    · rcases hT'.next _ (ih (N a).prev (by omega) hp) with ⟨hhi, -⟩ | ⟨hmem, -⟩
      · have := hT.le a ha
        omega
      · exact he ▸ hmem

theorem unique {S' : Set ℕ} (hT : Tiling hd lo hi S N) (hT' : Tiling hd lo hi S' N)
    (hpos : 0 < hd) : S = S' :=
  Set.Subset.antisymm (hT.subset hT' hpos) (hT'.subset hT hpos)

/-- Only the headers of the blocks matter. -/
theorem congr (hT : Tiling hd lo hi S N) (h : ∀ a ∈ S, N' a = N a) : Tiling hd lo hi S N' where
  lo_pos := hT.lo_pos
  lo_mem := hT.lo_mem
  ge := hT.ge
  le a ha := by rw [h a ha]; exact hT.le a ha
  apart a ha b hb hab := by rw [h a ha]; exact hT.apart a ha b hb hab
  next a ha := by rw [h a ha]; exact hT.next a ha
  prev a ha := by
    rw [h a ha]
    rcases hT.prev a ha with hp | ⟨hp, he⟩
    · exact .inl hp
    · exact .inr ⟨hp, by rw [h _ hp]; exact he⟩

/-! ## Cutting a block in two -/

/-- The headers after the block `b` has been cut in two behind its first `w` units. -/
structure SplitAt (hd : ℕ) (S : Set ℕ) (N : ℕ → Node) (b w : ℕ) (N' : ℕ → Node) : Prop where
  first : N' b = { N b with size := w, next := b + hd + w }
  second : N' (b + hd + w) = ⟨(N b).size - w - hd, b, (N b).next⟩
  behind : (N b).next ≠ 0 → N' (N b).next = { N (N b).next with prev := b + hd + w }
  other : ∀ a ∈ S, a ≠ b → a ≠ (N b).next → N' a = N a

section Split

variable (hT : Tiling hd lo hi S N) (h : SplitAt hd S N b w N')

include hT

theorem split_not_mem (hb : b ∈ S) (hpos : 0 < hd) (hw : w < (N b).size) : b + hd + w ∉ S := by
  intro hS
  have := hT.apart b hb _ hS (by omega)
  omega

include h

/-- The blocks other than the one that is cut keep their sizes and what is behind them. -/
theorem eq_of_splitAt (ha : a ∈ S) (hne : a ≠ b) :
    (N' a).size = (N a).size ∧ (N' a).next = (N a).next := by
  by_cases hn : a = (N b).next
  · have h0 : (N b).next ≠ 0 := hn ▸ (hT.pos ha).ne'
    rw [hn, h.behind h0]
    exact ⟨rfl, rfl⟩
  · rw [h.other a ha hne hn]
    exact ⟨rfl, rfl⟩

theorem split (hpos : 0 < hd) (hb : b ∈ S) (hw : w + hd ≤ (N b).size) :
    Tiling hd lo hi (insert (b + hd + w) S) N' := by
  have hfirst : (N' b).size = w := by rw [h.first]
  have hsecond : b + hd + w + hd + (N' (b + hd + w)).size = b + hd + (N b).size := by
    rw [h.second]; dsimp only; omega
  have hnew : b + hd + w ∉ S := hT.split_not_mem hb hpos (by omega)
  have hbig := hT.le b hb
  refine ⟨hT.lo_pos, .inr hT.lo_mem, ?_, ?_, ?_, ?_, ?_⟩
  · rintro a (rfl | ha)
    · have := hT.ge b hb
      omega
    · exact hT.ge a ha
  · rintro a (rfl | ha)
    · omega
    · by_cases hab : a = b
      · subst hab; omega
      · rw [(hT.eq_of_splitAt h ha hab).1]
        exact hT.le a ha
  · rintro a (rfl | ha) c (rfl | hc) hac
    · omega
    · have := hT.apart b hb c hc (by omega)
      omega
    · by_cases hab : a = b
      · subst hab; omega
      · rw [(hT.eq_of_splitAt h ha hab).1]
        rcases Nat.lt_or_gt_of_ne hab with hlt | hgt
        · have := hT.apart a ha b hb hlt
          omega
        · have := hT.apart b hb a ha hgt
          omega
    · have := hT.apart a ha c hc hac
      by_cases hab : a = b
      · subst hab; omega
      · rwa [(hT.eq_of_splitAt h ha hab).1]
  · rintro a (rfl | ha)
    · rw [hsecond, h.second]
      exact (hT.next b hb).imp_right fun hn ↦ ⟨.inr hn.1, hn.2⟩
    · by_cases hab : a = b
      · subst hab
        rw [h.first]
        exact .inr ⟨.inl rfl, rfl⟩
      · rw [(hT.eq_of_splitAt h ha hab).1, (hT.eq_of_splitAt h ha hab).2]
        exact (hT.next a ha).imp_right fun hn ↦ ⟨.inr hn.1, hn.2⟩
  · -- the block behind `b` now has the new one before it, all others have what they had
    rintro a (rfl | ha)
    · rw [h.second]
      exact .inr ⟨.inr hb, by rw [hfirst]⟩
    · by_cases hn : a = (N b).next
      · have h0 : (N b).next ≠ 0 := hn ▸ (hT.pos ha).ne'
        rw [hn, h.behind h0]
        refine .inr ⟨.inl rfl, ?_⟩
        rw [hsecond, (hT.next_mem hb h0).2]
      · have hprev : (N' a).prev = (N a).prev := by
          by_cases hab : a = b
          · rw [hab, h.first]
          · rw [h.other a ha hab hn]
        rw [hprev]
        refine (hT.prev a ha).imp_right fun ⟨hp, he⟩ ↦ ⟨.inr hp, ?_⟩
        have hpb : (N a).prev ≠ b := by
          intro hpb
          rw [hpb] at he
          rcases hT.next b hb with ⟨hhi, -⟩ | ⟨-, hnext⟩
          · have := hT.le a ha
            omega
          · exact hn (hnext.trans he).symm
        rw [(hT.eq_of_splitAt h hp hpb).1, he]

end Split

/-! ## Joining two blocks -/

/-- The headers after the block `b` has been joined with the block behind it. -/
structure MergedAt (hd : ℕ) (S : Set ℕ) (N : ℕ → Node) (b : ℕ) (N' : ℕ → Node) : Prop where
  first : N' b = ⟨(N b).size + hd + (N (N b).next).size, (N b).prev, (N (N b).next).next⟩
  behind : (N (N b).next).next ≠ 0 →
    N' (N (N b).next).next = { N (N (N b).next).next with prev := b }
  other : ∀ a ∈ S, a ≠ b → a ≠ (N b).next → a ≠ (N (N b).next).next → N' a = N a

section Merge

variable (hT : Tiling hd lo hi S N) (h : MergedAt hd S N b N')

include hT h

theorem eq_of_mergedAt (ha : a ∈ S) (hne : a ≠ b) (hne' : a ≠ (N b).next) :
    (N' a).size = (N a).size ∧ (N' a).next = (N a).next := by
  by_cases hn : a = (N (N b).next).next
  · have h0 : (N (N b).next).next ≠ 0 := hn ▸ (hT.pos ha).ne'
    rw [hn, h.behind h0]
    exact ⟨rfl, rfl⟩
  · rw [h.other a ha hne hne' hn]
    exact ⟨rfl, rfl⟩

theorem merge (hpos : 0 < hd) (hb : b ∈ S) (hn : (N b).next ≠ 0) :
    Tiling hd lo hi (S \ {(N b).next}) N' := by
  obtain ⟨hnS, hne⟩ := hT.next_mem hb hn
  have hend : b + hd + (N' b).size = (N b).next + hd + (N (N b).next).size := by
    rw [h.first]; dsimp only; omega
  have hbn : b ≠ (N b).next := by omega
  have hbS : b ∈ S \ {(N b).next} := ⟨hb, hbn⟩
  refine ⟨hT.lo_pos, ⟨hT.lo_mem, ?_⟩, fun a ha ↦ hT.ge a ha.1, ?_, ?_, ?_, ?_⟩
  · have := hT.ge b hb
    exact fun hlo ↦ by rw [Set.mem_singleton_iff] at hlo; omega
  · rintro a ⟨ha, han⟩
    by_cases hab : a = b
    · rw [hab, hend]
      exact hT.le _ hnS
    · rw [(hT.eq_of_mergedAt h ha hab han).1]
      exact hT.le a ha
  · rintro a ⟨ha, han⟩ c ⟨hc, hcn⟩ hac
    by_cases hab : a = b
    · subst hab
      rw [hend]
      refine hT.apart _ hnS c hc ?_
      have := hT.apart a ha c hc hac
      exact lt_of_le_of_ne (by omega) fun he ↦ hcn he.symm
    · rw [(hT.eq_of_mergedAt h ha hab han).1]
      exact hT.apart a ha c hc hac
  · rintro a ⟨ha, han⟩
    by_cases hab : a = b
    · rw [hab, hend, h.first]
      refine (hT.next _ hnS).imp_right fun ⟨hS, he⟩ ↦ ⟨⟨hS, ?_⟩, he⟩
      exact fun hc ↦ by rw [Set.mem_singleton_iff] at hc; omega
    · rw [(hT.eq_of_mergedAt h ha hab han).1, (hT.eq_of_mergedAt h ha hab han).2]
      refine (hT.next a ha).imp_right fun ⟨hS, he⟩ ↦ ⟨⟨hS, fun hc ↦ hab ?_⟩, he⟩
      exact hT.eq_of_end_eq hpos ha hb (hc.trans hne)
  · rintro a ⟨ha, han⟩
    by_cases hnn : a = (N (N b).next).next
    · have h0 : (N (N b).next).next ≠ 0 := hnn ▸ (hT.pos ha).ne'
      rw [hnn, h.behind h0]
      refine .inr ⟨hbS, ?_⟩
      rw [hend, (hT.next_mem hnS h0).2]
    · have hprev : (N' a).prev = (N a).prev := by
        by_cases hab : a = b
        · rw [hab, h.first]
        · rw [h.other a ha hab han hnn]
      rw [hprev]
      refine (hT.prev a ha).imp_right fun ⟨hp, he⟩ ↦ ?_
      have hpn : (N a).prev ≠ (N b).next := by
        intro hpn
        rw [hpn] at he
        rcases hT.next _ hnS with ⟨hhi, -⟩ | ⟨-, hnext⟩
        · have := hT.le a ha
          omega
        · exact hnn (hnext.trans he).symm
      have hpb : (N a).prev ≠ b := fun hpb ↦ han (by rw [hpb] at he; exact he.symm.trans hne.symm)
      exact ⟨⟨hp, hpn⟩, by rw [(hT.eq_of_mergedAt h hp hpb hpn).1, he]⟩

end Merge

end Tiling
