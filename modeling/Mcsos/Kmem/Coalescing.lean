import Mcsos.Kmem.Safety

/-!
# Free blocks do not lie next to each other

Taking a block leaves at most one new free block, between a used block and what was behind the block
taken, and that is used since the block taken was free.  Giving a block back merges it with the free
blocks around it.  So two blocks that are neighbours are never both free (`FreeApart`), and a heap
without live ranges is a single block.
-/

set_option autoImplicit false

namespace Mcsos
namespace Kmem

variable {m m' : Mem} {h h' : Heap} {a b n p w lo hi : ℕ} {S S' : Set ℕ} {live live' : Ranges}

/-- The block at `a` and the one behind it are not both free. -/
def FreeApartAt (m : Mem) (a : ℕ) : Prop :=
  fld m a .free ≠ 0 → fld m a .next ≠ 0 → fld m (fld m a .next) .free = 0

/-- No two neighbours are both free. -/
def FreeApart (m : Mem) (S : Set ℕ) : Prop := ∀ a ∈ S, FreeApartAt m a

theorem Chain.unique (hC : Chain m lo hi S) (hC' : Chain m lo hi S') : S = S' :=
  hC.tiling.unique hC'.tiling (by decide)

/-- A block that keeps its size keeps its neighbour, whatever happens to the chain otherwise. -/
theorem Chain.next_congr (hC : Chain m lo hi S) (hC' : Chain m' lo hi S') (ha : a ∈ S)
    (ha' : a ∈ S') (hsize : fld m' a .size = fld m a .size) :
    fld m' a .next = fld m a .next := by
  have hlt : ∀ {m : Mem} {S : Set ℕ}, Chain m lo hi S → a ∈ S → fld m a .next ≠ 0 →
      fld m a .next < hi := fun hC ha h0 ↦ by
    have := hC.le_hi (hC.next_eq ha h0).1
    omega
  by_cases h0 : fld m a .next = 0 <;> by_cases h0' : fld m' a .next = 0
  · rw [h0, h0']
  · have hend : a + 48 + fld m a .size = hi := hC.tiling.eq_hi_of_next ha h0
    have := (hC'.next_eq ha' h0').2
    have := hlt hC' ha' h0'
    omega
  · have hend : a + 48 + fld m' a .size = hi := hC'.tiling.eq_hi_of_next ha' h0'
    have := (hC.next_eq ha h0).2
    have := hlt hC ha h0
    omega
  · rw [(hC.next_eq ha h0).2, (hC'.next_eq ha' h0').2, hsize]

theorem FreeApart.congr (hC : Chain m lo hi S) (hF : FreeApart m S)
    (hf : ∀ a ∈ S, ∀ f, fld m' a f = fld m a f) : FreeApart m' S := by
  intro a ha hfree h0
  rw [hf a ha] at hfree h0 ⊢
  rw [hf _ (hC.next_eq ha h0).1]
  exact hF a ha hfree h0

/-! ## Taking a block -/

/-- What is split off from `b` has the neighbour that `b` had. -/
theorem next_of_split_off (hC : Chain m lo hi S) (hb : b ∈ S) (hw : 16 ∣ w) (hw0 : 0 < w)
    (hle : w ≤ fld m b .size) (hroom : hi + 48 ≤ lo + 2 ^ 64)
    (hC' : Chain (setFld b .free 0 (splitIfUseful hi b w m)) lo hi S') (ha : a ∈ S')
    (hnot : a ∉ S) :
    fld (setFld b .free 0 (splitIfUseful hi b w m)) a .next = fld m b .next := by
  rw [splitIfUseful_eq hC hb hw hle hroom] at hC' ⊢
  by_cases hsplit : w + 80 < fld m b .size
  · rw [if_pos hsplit] at hC' ⊢
    have hfit : w + 48 < fld m b .size := by omega
    have hS := hC'.unique ((hC.split hb hfit hw hw0).setFree (.inr hb) 0)
    rw [hS] at ha
    rcases ha with rfl | ha
    · rw [fld_setFld_of_apart (by omega), fld_split_new (by omega) (hC.split_next_le hb hfit)
        (hC.split_new_lt hb hfit)]
    · exact absurd ha hnot
  · rw [if_neg hsplit] at hC'
    exact absurd (hC'.unique (hC.setFree hb 0) ▸ ha) hnot

theorem FreeApart.taken (hC : Chain m lo hi S) (hF : FreeApart m S) (hb : b ∈ S)
    (hfree : fld m b .free ≠ 0) (ht : Taken lo hi m S b w m' S')
    (hnew : ∀ a ∈ S', a ∉ S → fld m' a .next = fld m b .next) : FreeApart m' S' := by
  intro a ha hfree' h0
  have hab : a ≠ b := by
    rintro rfl
    exact hfree' ht.self_free
  by_cases haS : a ∈ S
  · obtain ⟨hfa, hsa⟩ := ht.other a haS hab
    have hnext := hC.next_congr ht.chain haS ha hsa
    rw [hnext] at h0 ⊢
    by_cases hc : fld m a .next = b
    · rw [hc]
      exact ht.self_free
    · rw [(ht.other _ (hC.next_eq haS h0).1 hc).1]
      exact hF a haS (hfa ▸ hfree') h0
  · rw [hnew a ha haS] at h0 ⊢
    obtain ⟨hcS, hc⟩ := hC.next_eq hb h0
    rw [(ht.other _ hcS (by omega)).1]
    exact hF b hb hfree h0

/-- Allocation keeps free blocks apart. -/
theorem FreeApart.alloc (hI : Inv h S live) (hF : FreeApart h.mem S)
    (hcall : alloc n h = some (p, h')) (hI' : Inv h' S' live') : FreeApart h'.mem S' := by
  by_cases hn : n = 0
  · rw [Kmem.alloc, if_pos (.inr hn)] at hcall
    cases hcall
    rw [hI'.chain.unique hI.chain]
    exact hF
  rcases alloc_cases hI hn with ⟨-, heq⟩ | ⟨hw, b, hb, hfree, hle, heq⟩
  · cases heq.symm.trans hcall
    rw [hI'.chain.unique hI.chain]
    exact hF
  · cases heq.symm.trans hcall
    have hround := roundUp_spec hw
    have hw16 : 16 ∣ roundUp n := ⟨_, by rw [hround, Nat.mul_comm]⟩
    obtain ⟨S'', ht⟩ := taken_spec hI.chain hb hw16 (by omega) hle hI.room
    rw [hI'.chain.unique ht.chain]
    exact hF.taken hI.chain hb hfree ht fun a ha hnot ↦
      next_of_split_off hI.chain hb hw16 (by omega) hle hI.room ht.chain ha hnot

/-! ## Giving a block back -/

theorem FreeApartAt.coalesced (hC : Chain m lo hi S) (hco : Coalesced lo hi m S b m' S')
    (ha : a ∈ S') (hab : a ≠ b) (h : FreeApartAt m a) : FreeApartAt m' a := by
  intro hfree h0
  have hnext := hC.next_congr hco.chain (hco.subset ha) ha (hco.size_eq a ha hab)
  rw [hco.free_eq _ (hco.chain.next_eq ha h0).1, hnext]
  rw [hco.free_eq a ha] at hfree
  exact h hfree (hnext ▸ h0)

/-- Only the block itself and the one in front of it can have a free neighbour when a block has been
marked as free. -/
theorem FreeApartAt.setFree (hC : Chain m lo hi S) (hb : b ∈ S) (ha : a ∈ S) (hab : a ≠ b)
    (hnb : fld m a .next ≠ b) (h : FreeApartAt m a) : FreeApartAt (setFld b .free 1 m) a := by
  have hother : ∀ c ∈ S, c ≠ b → ∀ f, fld (setFld b .free 1 m) c f = fld m c f :=
    fun c hc hcb f ↦ fld_setFld_of_apart (hC.tiling.header_apart hc hb hcb)
  intro hfree h0
  rw [hother a ha hab] at hfree h0 ⊢
  rw [hother _ (hC.next_eq ha h0).1 hnb]
  exact h hfree h0

/-- Freeing a block keeps free blocks apart. -/
theorem FreeApart.release {r : Int} (hI : Inv h S live) (hF : FreeApart h.mem S) (hb : b ∈ S)
    (hcall : release b h = some (r, h')) (hI' : Inv h' S' live') : FreeApart h'.mem S' := by
  obtain ⟨m₂, S₂, hco₂, hcase⟩ := release_cases hI hb
  have hC₁ := hI.chain.setFree hb 1
  -- after the first merge only the block in front of `b` may have a free neighbour, namely `b`
  have h₂ : ∀ a ∈ S₂, fld m₂ a .next ≠ b → FreeApartAt m₂ a := by
    intro a ha hnb
    by_cases hab : a = b
    · rw [hab]
      exact fun _ ↦ hco₂.done
    · refine FreeApartAt.coalesced hC₁ hco₂ ha hab ?_
      have haS := hco₂.subset ha
      refine FreeApartAt.setFree hI.chain hb haS hab ?_ (hF a haS)
      rw [← hI.chain.next_congr hC₁ haS haS (fld_setFld_of_apart
        (hI.chain.tiling.header_apart haS hb hab)),
        ← hC₁.next_congr hco₂.chain haS ha (hco₂.size_eq a ha hab)]
      exact hnb
  have hprev₂ : ∀ a ∈ S₂, fld m₂ a .next = b → fld m₂ b .prev = a := fun a ha hn ↦ by
    have h0 : fld m₂ a .next ≠ 0 := hn ▸ (hco₂.chain.tiling.pos hco₂.self).ne'
    have := hco₂.chain.tiling.prev_next (by decide) ha h0
    rwa [show (node m₂ a).next = b from hn] at this
  rcases hcase with ⟨hprev, m₃, S₃, hco₃, heq⟩ | ⟨hprev, heq⟩
  · cases heq.symm.trans hcall
    rw [hI'.chain.unique hco₃.chain]
    intro a ha
    by_cases hap : a = fld m₂ b .prev
    · rw [hap]
      exact fun _ ↦ hco₃.done
    · refine FreeApartAt.coalesced hco₂.chain hco₃ ha hap (h₂ a (hco₃.subset ha) fun hn ↦ ?_)
      exact hap (hprev₂ a (hco₃.subset ha) hn).symm
  · cases heq.symm.trans hcall
    rw [hI'.chain.unique hco₂.chain]
    intro a ha hfree h0
    by_cases hn : fld m₂ a .next = b
    · have hpa := hprev₂ a ha hn
      refine absurd ⟨?_, ?_⟩ hprev
      · rw [hpa]
        exact (hco₂.chain.tiling.pos ha).ne'
      · rw [hpa]
        exact hfree
    · exact h₂ a ha hn hfree h0

/-! ## Runs -/

theorem FreeApart.write (hI : Inv h S live) (hF : FreeApart h.mem S)
    (hm : ∀ i, h.heapBase ≤ i → i < h.heapEnd →
      (∀ p n, (p, n) ∈ live → i < p ∨ p + n ≤ i) → m' i = h.mem i) : FreeApart m' S :=
  hF.congr hI.chain fun _ ha f ↦ hI.fld_write hm ha f

theorem FreeApart.calloc {count bytes : ℕ} (hI : Inv h S live) (hF : FreeApart h.mem S)
    (hcall : calloc count bytes h = some (p, h')) (hI' : Inv h' S' live') :
    FreeApart h'.mem S' := by
  rcases calloc_cases hI hcall with rfl | ⟨n, h₁, S₁, halloc, hI₁, rfl⟩
  · rw [hI'.chain.unique hI.chain]
    exact hF
  · have hm := fun i (_ : h₁.heapBase ≤ i) (_ : i < h₁.heapEnd) ↦
      memset_of_not_mem (m := h₁.mem) (i := i) (Set.mem_insert (p, n) live)
    rw [hI'.chain.unique (hI₁.write hm).chain]
    exact (FreeApart.alloc hI hF halloc hI₁).write hI₁ hm

theorem Reaches.freeApart {base bytes : ℕ} (harena : IsArena base bytes)
    (hr : Reaches base bytes h live) (hI : Inv h S live) : FreeApart h.mem S := by
  induction hr generalizing S with
  | @init h₀ h hinit =>
    have hI₀ := init_spec harena hinit
    rw [hI.chain.unique hI₀.chain]
    rintro a rfl - h0
    obtain ⟨hmem, he⟩ := hI₀.chain.next_eq rfl h0
    rw [Set.mem_singleton_iff.1 hmem] at he
    omega
  | alloc hr n hn hcall ih =>
    obtain ⟨S₀, hI₀⟩ := hr.inv harena
    exact (ih hI₀).alloc hI₀ hcall hI
  | calloc hr count size _ _ hcall ih =>
    obtain ⟨S₀, hI₀⟩ := hr.inv harena
    exact (ih hI₀).calloc hI₀ hcall hI
  | freeChecked hr hp hcall ih =>
    obtain ⟨S₀, hI₀⟩ := hr.inv harena
    obtain ⟨a, ha, rfl, hused, -⟩ := hI₀.owns.block _ _ hp
    rw [freeChecked_eq hI₀ ha hused] at hcall
    exact (ih hI₀).release hI₀ ha hcall hI
  | write hr m hm ih =>
    obtain ⟨S₀, hI₀⟩ := hr.inv harena
    rw [hI.chain.unique (hI₀.write hm).chain]
    exact (ih hI₀).write hI₀ hm

/-- When nothing is live, there is a single block, which is free. -/
theorem Inv.eq_singleton (hI : Inv h S ∅) (hF : FreeApart h.mem S) :
    S = {h.heapBase} ∧ fld h.mem h.heapBase .free ≠ 0 ∧ fld h.mem h.heapBase .next = 0 := by
  have hfree : ∀ a ∈ S, fld h.mem a .free ≠ 0 := fun a ha hused ↦ by
    obtain ⟨n, hn⟩ := hI.owns.used a ha hused
    exact hn
  have hlo := hI.chain.tiling.lo_mem
  have hnext : fld h.mem h.heapBase .next = 0 := by
    by_contra h0
    exact hfree _ (hI.chain.next_eq hlo h0).1 (hF _ hlo (hfree _ hlo) h0)
  refine ⟨Set.Subset.antisymm (fun a ha ↦ ?_) (by simpa using hlo), hfree _ hlo, hnext⟩
  by_contra hne
  have hend : h.heapBase + 48 + fld h.mem h.heapBase .size = h.heapEnd :=
    hI.chain.tiling.eq_hi_of_next hlo hnext
  have hge := hI.chain.tiling.ge a ha
  have hle := hI.chain.le_hi ha
  have := hI.chain.apart ha hlo hne
  omega

end Kmem
end Mcsos
