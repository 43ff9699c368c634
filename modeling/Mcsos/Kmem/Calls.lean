import Mcsos.Kmem.Chain

/-!
# What the calls of the heap do

One lemma for each function of `kmem.c`: `splitIfUseful_eq` says when a block is split,
`allocLoop_spec` which block is taken, and `coalesceForward_spec` what a chain looks like after the
blocks behind a block have been merged into it.  The last two also show that the loops end.
-/

set_option autoImplicit false

namespace Mcsos
namespace Kmem

variable {m m' : Mem} {a b i w lo hi : ℕ} {S S' : Set ℕ}

/-- A block is split if more than 80 bytes would be left over. -/
theorem splitIfUseful_eq (hC : Chain m lo hi S) (hb : b ∈ S) (hw : 16 ∣ w)
    (hle : w ≤ fld m b .size) (hroom : hi + 48 ≤ lo + 2 ^ 64) :
    splitIfUseful hi b w m =
      if w + 80 < fld m b .size then split b (b + 48 + w) w w m else m := by
  have hhi := hC.le_hi hb
  have hlt := hC.hi_lt
  have hge := hC.tiling.ge b hb
  have hb16 := hC.aligned b hb
  have hpos := hC.tiling.pos hb
  have hheader : alignUpSize headerSize align = 48 := by rw [alignUpSize_eq]; rfl
  have hpayload : payload b = b + 48 := by
    rw [payload, Nat.mod_eq_of_lt (by simp only [headerSize]; omega)]
  have hnew : alignUpPtr ((b + 48 + w) % 2 ^ 64) align = b + 48 + w := by
    rw [Nat.mod_eq_of_lt (by omega), alignUpPtr_eq, roundUp_of_dvd (by omega) (by omega)]
  rw [splitIfUseful, hheader, if_neg (by decide)]
  have hconsumed : (b + 48 + w + 2 ^ 64 - (b + 48)) % 2 ^ 64 = w := by omega
  simp only [minSplit, headerSize, hpayload, hnew, hconsumed]
  by_cases h : w + 80 < fld m b .size
  · rw [if_pos h, if_neg (by omega), if_neg (by omega), if_neg (by omega), if_neg (by omega)]
  · rw [if_neg h]
    by_cases h' : fld m b .size < (w + 48 + 32) % 2 ^ 64
    · rw [if_pos h']
    · rw [if_neg h', if_neg (by omega), if_neg (by omega), if_pos (by omega)]

/-! ## Allocation -/

theorem payload_eq (hC : Chain m lo hi S) (hb : b ∈ S) : payload b = b + 48 := by
  have := hC.lt_word hb
  rw [payload, Nat.mod_eq_of_lt (by simp only [headerSize]; omega)]

/-- The loop of `kmem_alloc` takes the first free block that is large enough, if there is one. -/
theorem allocLoop_spec (hC : Chain m lo hi S) (heapEnd w : ℕ) {blocks cur : ℕ} (hcur : cur ∈ S)
    (hblocks : hi - cur < blocks) :
    (∃ b ∈ S, fld m b .free ≠ 0 ∧ w ≤ fld m b .size ∧
      allocLoop heapEnd w m blocks cur
        = some (b + 48, setFld b .free 0 (splitIfUseful heapEnd b w m))) ∨
    (∀ b ∈ S, cur ≤ b → fld m b .free ≠ 0 → fld m b .size < w) ∧
      allocLoop heapEnd w m blocks cur = some (0, m) := by
  induction blocks generalizing cur with
  | zero => omega
  | succ blocks ih =>
    have hpos := hC.tiling.pos hcur
    rw [allocLoop, if_neg hpos.ne', if_neg (not_not.2 (hC.magic cur hcur))]
    by_cases hfit : fld m cur .free ≠ 0 ∧ w ≤ fld m cur .size
    · refine .inl ⟨cur, hcur, hfit.1, hfit.2, ?_⟩
      rw [if_pos hfit, payload_eq hC hcur]
    rw [if_neg hfit]
    have hself : fld m cur .free ≠ 0 → fld m cur .size < w := fun h ↦
      not_le.1 fun hle ↦ hfit ⟨h, hle⟩
    have hle := hC.le_hi hcur
    by_cases h0 : fld m cur .next = 0
    · -- the last block; the next round sees the end of the chain
      obtain ⟨blocks, rfl⟩ : ∃ k, blocks = k + 1 := ⟨blocks - 1, by omega⟩
      refine .inr ⟨fun b hb hcb ↦ ?_, by rw [h0, allocLoop, if_pos rfl]⟩
      have hend : cur + 48 + fld m cur .size = hi := hC.tiling.eq_hi_of_next hcur h0
      have hbhi := hC.le_hi hb
      rcases Nat.eq_or_lt_of_le hcb with rfl | hlt
      · exact hself
      · have : cur + 48 + fld m cur .size ≤ b := hC.tiling.apart cur hcur b hb hlt
        omega
    · obtain ⟨hnS, hne⟩ := hC.next_eq hcur h0
      refine (ih hnS (by omega)).imp_right fun ⟨hall, heq⟩ ↦ ⟨fun b hb hcb ↦ ?_, heq⟩
      rcases Nat.eq_or_lt_of_le hcb with rfl | hlt
      · exact hself
      · exact hall b hb (hne ▸ hC.tiling.apart cur hcur b hb hlt)

/-! ## Merging -/

/-- The free blocks behind `b` have been merged into it. -/
structure Coalesced (lo hi : ℕ) (m : Mem) (S : Set ℕ) (b : ℕ) (m' : Mem) (S' : Set ℕ) : Prop where
  chain : Chain m' lo hi S'
  subset : S' ⊆ S
  self : b ∈ S'
  used : ∀ a ∈ S, fld m a .free = 0 → a ∈ S'
  free_eq : ∀ a ∈ S', fld m' a .free = fld m a .free
  size_eq : ∀ a ∈ S', a ≠ b → fld m' a .size = fld m a .size
  payload : ∀ a ∈ S, ∀ i, a + 48 ≤ i → i < a + 48 + fld m a .size → m' i = m i
  done : fld m' b .next ≠ 0 → fld m' (fld m' b .next) .free = 0

/-- One round of `kmem_coalesce_forward`, followed by others. -/
theorem Coalesced.of_merge (hC : Chain m lo hi S) {n : ℕ} (hb : b ∈ S) (hn : fld m b .next = n)
    (h0 : n ≠ 0) (hfree : fld m n .free ≠ 0)
    (h : Coalesced lo hi (merge b n m) (S \ {n}) b m' S') : Coalesced lo hi m S b m' S' := by
  obtain ⟨hnS, hne⟩ := hC.merge_next_eq hb hn h0
  have hsize : ∀ a ∈ S, a ≠ b → a ≠ n → fld (merge b n m) a .size = fld m a .size :=
    fun a ha hab han ↦ hC.fld_merge_of_ne hb hn h0 ha hab han fun _ ↦ nofun
  refine ⟨h.chain, fun a ha ↦ (h.subset ha).1, h.self, fun a ha hused ↦ ?_, fun a ha ↦ ?_,
    fun a ha hab ↦ ?_, fun a ha i h1 h2 ↦ ?_, h.done⟩
  · have han : a ≠ n := fun he ↦ hfree (he ▸ hused)
    exact h.used a ⟨ha, han⟩ ((hC.fld_free_merge hb hn h0 ha han).trans hused)
  · rw [h.free_eq a ha, hC.fld_free_merge hb hn h0 (h.subset ha).1 (h.subset ha).2]
  · rw [h.size_eq a ha hab, hsize a (h.subset ha).1 hab (h.subset ha).2]
  · rw [← hC.merge_payload hb hn h0 ha h1 h2]
    have hmerged := hC.merged_size hb hn h0
    -- the bytes of `b` and of the block behind it are now bytes of `b`
    by_cases hab : a = b ∨ a = n
    · refine h.payload b ⟨hb, by rw [Set.mem_singleton_iff]; omega⟩ i ?_ ?_
      · rcases hab with rfl | rfl <;> omega
      · rcases hab with rfl | rfl <;> omega
    · rw [not_or] at hab
      refine h.payload a ⟨ha, hab.2⟩ i h1 ?_
      rwa [hsize a ha hab.1 hab.2]

theorem coalesceForward_spec (hC : Chain m lo hi S) (hb : b ∈ S) {rounds : ℕ}
    (hrounds : hi - (b + 48 + fld m b .size) < rounds) :
    ∃ m' S', coalesceForward b rounds m = some m' ∧ Coalesced lo hi m S b m' S' := by
  induction rounds generalizing m S with
  | zero => omega
  | succ rounds ih =>
    have hpos := hC.tiling.pos hb
    rw [coalesceForward]
    by_cases hc : b ≠ 0 ∧ fld m b .next ≠ 0 ∧ fld m (fld m b .next) .free ≠ 0
    · obtain ⟨-, h0, hfree⟩ := hc
      obtain ⟨hnS, hne⟩ := hC.next_eq hb h0
      have hlt := hC.lt_word hb
      have hexp : alignUpPtr ((payload b + fld m b .size) % 2 ^ 64) align = fld m b .next := by
        have h1 := hC.aligned b hb
        have h2 := hC.size_dvd b hb
        rw [payload_eq hC hb, Nat.mod_eq_of_lt hlt, alignUpPtr_eq,
          roundUp_of_dvd (by omega) hlt, hne]
      rw [if_pos ⟨hpos.ne', h0, hfree⟩]
      dsimp only
      rw [hexp, if_neg (not_not.2 rfl)]
      have hC' := hC.merge hb rfl h0
      have hmerged := hC.merged_size hb rfl h0
      have hle := hC.le_hi hnS
      obtain ⟨m', S', heq, hco⟩ := ih hC' ⟨hb, by rw [Set.mem_singleton_iff]; omega⟩ (by omega)
      exact ⟨m', S', heq, .of_merge hC hb rfl h0 hfree hco⟩
    · rw [if_neg hc]
      refine ⟨m, S, rfl, hC, le_rfl, hb, fun a ha _ ↦ ha, fun _ _ ↦ rfl, fun _ _ _ ↦ rfl,
        fun _ _ _ _ _ ↦ rfl, fun h0 ↦ ?_⟩
      by_contra hfree
      exact hc ⟨hpos.ne', h0, hfree⟩

end Kmem
end Mcsos
