import Mcsos.Pmm.BootMap

/-!
# Reserved memory

After initialization from a map that ends at or below `max_phys`, no frame that meets a reserved
region is free.  Allocating and reserving only take frames away.  Freeing puts one back, and
`pmm_free_frame` cannot tell a frame that was allocated from one that was reserved, since both have
their bit set.  So reserved memory stays out of reach exactly as long as it is not freed.
-/

set_option autoImplicit false

namespace Mcsos
namespace Pmm

variable {s : State} {f : ℕ} {regions : List BootMemRegion}

/-- The page of frame `f` meets a region of the map that is not usable. -/
def MeetsReserved (regions : List BootMemRegion) (f : ℕ) : Prop :=
  ∃ r ∈ regions, r.type ≠ bootMemUsable ∧ r.Meets f

/-- No free frame meets a reserved region. -/
def Protected (regions : List BootMemRegion) (s : State) : Prop :=
  ∀ f ∈ freeSet s, ¬ MeetsReserved regions f

/-! ## Initialization -/

/-- A region that ends at or below `max_phys` does not reach the last page. -/
theorem protected_initFromMap {storage : ℕ → UInt8} {storageBytes maxPhysBytes : ℕ}
    (hmax : maxPhysBytes < 2 ^ 64) (hr : ∀ r ∈ regions, r.base + r.length ≤ maxPhysBytes)
    (h : initFromMap regions storage storageBytes maxPhysBytes = some s) : Protected regions s := by
  obtain ⟨-, hpage, -⟩ := eq_of_initFromMap h
  have hlast : maxPhysBytes ≤ lastPage := by
    simp only [lastPage, pageSize] at *
    omega
  have hfits : ∀ r ∈ regions, r.Fits := fun r hm ↦ by
    have := hr r hm
    rw [BootMemRegion.Fits]
    omega
  rintro f hf ⟨r, hm, ht, hmeet⟩
  refine ((mem_freeSet_initFromMap hmax hfits h).1 hf).2.2.2 r hm ht ⟨hmeet, ?_⟩
  rw [BootMemRegion.EndsInLastPage, not_lt]
  exact (hr r hm).trans hlast

/-! ## The calls -/

theorem freeSet_allocFrame_subset (hs : Running s) : freeSet (allocFrame s).2 ⊆ freeSet s := by
  obtain ⟨-, heq⟩ | ⟨f, -, -, heq⟩ := hs.allocFrame_eq
  · rw [heq]
  · have hset : freeSet (takeFrame f s).2 = (freeSet s).erase f := freeSet_markFrameUsed
    rw [heq, hset]
    exact Finset.erase_subset _ _

theorem freeSet_reserveRange_subset (hs : Running s) (base length : ℕ) :
    freeSet (reserveRange base length s).2 ⊆ freeSet s := by
  rw [reserveRange]
  split
  · exact subset_rfl
  · exact (markRangeUsed_shrunk base length hs.toInv).subset

theorem Protected.mono {s' : State} (h : Protected regions s) (hsub : freeSet s' ⊆ freeSet s) :
    Protected regions s' := fun f hf ↦ h f (hsub hf)

/-- A frame may be given back if it does not meet a reserved region. -/
theorem Protected.freeFrame (h : Protected regions s) (hs : Running s) {addr : ℕ}
    (hsafe : Freeable s addr → ¬ MeetsReserved regions (addr / pageSize)) :
    Protected regions (freeFrame addr s).2 := by
  by_cases hf : Freeable s addr
  · have hlt : addr / pageSize < s.frameCount := by
      have h1 := hs.phys
      have h2 := hf.2.2.1
      simp only [pageSize] at *
      omega
    rw [hs.freeFrame_of_freeable hf]
    intro f hm
    rw [freeSet_markFrameFree hlt, Finset.mem_insert] at hm
    rcases hm with rfl | hm
    · exact hsafe hf
    · exact h f hm
  · rwa [hs.freeFrame_of_not_freeable hf]

/-- What is allocated was free. -/
theorem Protected.allocFrame (h : Protected regions s) (hs : Running s)
    (hvalid : (allocFrame s).1 ≠ invalidFrame) :
    ¬ MeetsReserved regions ((allocFrame s).1 / pageSize) := by
  obtain ⟨-, heq⟩ | ⟨f, hm, -, heq⟩ := hs.allocFrame_eq
  · exact absurd (by rw [heq]) hvalid
  · rw [heq, takeFrame, Nat.mul_div_cancel f (by decide)]
    exact h f hm

/-! ## Runs -/

/-- The states that calls lead to after initialization from this map, if no call gives back a frame
that meets a reserved region. -/
inductive SafelyReaches (regions : List BootMemRegion) (maxPhysBytes : ℕ) : State → Prop
  | init {storage : ℕ → UInt8} {storageBytes : ℕ} {s : State}
      (h : initFromMap regions storage storageBytes maxPhysBytes = some s) :
      SafelyReaches regions maxPhysBytes s
  | allocFrame {s : State} (h : SafelyReaches regions maxPhysBytes s) :
      SafelyReaches regions maxPhysBytes (allocFrame s).2
  | freeFrame {s : State} (h : SafelyReaches regions maxPhysBytes s) (addr : ℕ)
      (hsafe : Freeable s addr → ¬ MeetsReserved regions (addr / pageSize)) :
      SafelyReaches regions maxPhysBytes (freeFrame addr s).2
  | reserveRange {s : State} (h : SafelyReaches regions maxPhysBytes s) (base length : ℕ) :
      SafelyReaches regions maxPhysBytes (reserveRange base length s).2

theorem SafelyReaches.protected {maxPhysBytes : ℕ} (hmax : maxPhysBytes < 2 ^ 64)
    (hr : ∀ r ∈ regions, r.base + r.length ≤ maxPhysBytes)
    (h : SafelyReaches regions maxPhysBytes s) : Running s ∧ Protected regions s := by
  induction h with
  | init h => exact ⟨initFromMap_running hmax h, protected_initFromMap hmax hr h⟩
  | allocFrame _ ih => exact ⟨ih.1.allocFrame, ih.2.mono (freeSet_allocFrame_subset ih.1)⟩
  | freeFrame _ addr hsafe ih => exact ⟨ih.1.freeFrame addr, ih.2.freeFrame ih.1 hsafe⟩
  | reserveRange _ base length ih =>
    exact ⟨ih.1.reserveRange base length,
      ih.2.mono (freeSet_reserveRange_subset ih.1 base length)⟩

/-- **Reserved memory is not handed out**, as long as it is not given back. -/
theorem reserved_never_allocated {maxPhysBytes : ℕ} (hmax : maxPhysBytes < 2 ^ 64)
    (hr : ∀ r ∈ regions, r.base + r.length ≤ maxPhysBytes)
    (h : SafelyReaches regions maxPhysBytes s) (hvalid : (allocFrame s).1 ≠ invalidFrame) :
    ¬ MeetsReserved regions ((allocFrame s).1 / pageSize) := by
  obtain ⟨hs, hprot⟩ := h.protected hmax hr
  exact hprot.allocFrame hs hvalid

/-- Two usable frames and a reserved one: the first of them is allocated, given back and allocated
again. -/
theorem reserved_never_allocated_again :
    ∃ s, initFromMap [⟨4096, 8192, 1⟩, ⟨12288, 4096, 2⟩] (fun _ ↦ 0) 1 16384 = some s ∧
      (allocFrame (freeFrame 4096 (allocFrame s).2).2).1 = 4096 ∧
      ¬ MeetsReserved [⟨4096, 8192, 1⟩, ⟨12288, 4096, 2⟩]
        ((allocFrame (freeFrame 4096 (allocFrame s).2).2).1 / pageSize) := by
  have hinit : (initFromMap [⟨4096, 8192, 1⟩, ⟨12288, 4096, 2⟩] (fun _ ↦ 0) 1 16384).map
      (fun s ↦ (allocFrame (freeFrame 4096 (allocFrame s).2).2).1) = some 4096 := by decide +kernel
  obtain ⟨s, hs, halloc⟩ := Option.map_eq_some_iff.1 hinit
  have hsafe : ¬ MeetsReserved [⟨4096, 8192, 1⟩, ⟨12288, 4096, 2⟩] (4096 / pageSize) := by
    rintro ⟨r, hr, ht, a, h1, h2, h3, h4⟩
    rcases List.mem_pair.1 hr with rfl | rfl
    · exact absurd rfl ht
    · simp only [pageSize] at *
      omega
  have hreach : SafelyReaches [⟨4096, 8192, 1⟩, ⟨12288, 4096, 2⟩] 16384
      (freeFrame 4096 (allocFrame s).2).2 :=
    .freeFrame (.allocFrame (.init hs)) 4096 fun _ ↦ hsafe
  exact ⟨s, hs, halloc,
    reserved_never_allocated (by decide) (by decide) hreach (by rw [halloc]; decide)⟩

/-- **A reserved frame that is freed is handed out.**  Frame 1 is reserved; freeing it succeeds, and
the next allocation returns it. -/
theorem freed_reserved_frame_allocated :
    ((initFromMap [⟨4096, 4096, 2⟩] (fun _ ↦ 0) 1 8192).map fun s ↦
        ((allocFrame s).1, (freeFrame 4096 s).1, (allocFrame (freeFrame 4096 s).2).1))
      = some (invalidFrame, true, 4096) ∧ MeetsReserved [⟨4096, 4096, 2⟩] (4096 / pageSize) := by
  refine ⟨by decide +kernel, ⟨4096, 4096, 2⟩, by simp, by decide, 4096, ?_⟩
  decide

end Pmm
end Mcsos
