import Mcsos.Pmm.Refinement

/-!
# Which frames the memory map makes free

`pmm_init_from_map` rounds usable regions inward and the others outward, and the rounding up is done
by an addition that may wrap.  A usable region that starts in the last page of the address space is
then taken to start at 0, and a region of another type that ends there is taken to end at 0, which
makes it empty.  `mem_freeSet_initFromMap` says which frames are free with this arithmetic, and
`bootMap_classified_iff` compares them with the frames that ought to be free.
-/

set_option autoImplicit false

namespace Mcsos
namespace Pmm

variable {s : State} {f : ℕ} {r : BootMemRegion} {regions : List BootMemRegion}

/-! ## Regions and pages -/

/-- The page of frame `f` lies in the region. -/
def BootMemRegion.Contains (r : BootMemRegion) (f : ℕ) : Prop :=
  r.base ≤ f * pageSize ∧ f * pageSize + pageSize ≤ r.base + r.length

/-- The page of frame `f` and the range have an address in common. -/
def RangeMeets (base length f : ℕ) : Prop :=
  ∃ a, base ≤ a ∧ a < base + length ∧ f * pageSize ≤ a ∧ a < f * pageSize + pageSize

/-- The page of frame `f` and the region have an address in common. -/
def BootMemRegion.Meets (r : BootMemRegion) (f : ℕ) : Prop := RangeMeets r.base r.length f

/-- The frames that ought to be free. -/
def Allocatable (regions : List BootMemRegion) (f : ℕ) : Prop :=
  f ≠ 0 ∧ (∃ r ∈ regions, r.type = bootMemUsable ∧ r.Contains f) ∧
    ∀ r ∈ regions, r.type ≠ bootMemUsable → ¬ r.Meets f

/-- The address of the last page. -/
abbrev lastPage : ℕ := 2 ^ 64 - pageSize

theorem BootMemRegion.meets_iff : r.Meets f ↔ r.length ≠ 0 ∧ r.base < f * pageSize + pageSize ∧
    f * pageSize < r.base + r.length := by
  constructor
  · rintro ⟨a, h1, h2, h3, h4⟩
    simp only [pageSize] at *
    omega
  · rintro ⟨h1, h2, h3⟩
    refine ⟨max r.base (f * pageSize), ?_, ?_, ?_, ?_⟩ <;> simp only [pageSize] at * <;> omega

/-! ## Rounding -/

theorem and_pageMask {x : ℕ} (hx : x < 2 ^ 64) :
    x &&& (2 ^ 64 - pageSize) = x / pageSize * pageSize := by
  have hmask : 2 ^ 64 - pageSize = (2 ^ 52 - 1) * 2 ^ 12 := by decide
  rw [hmask, show pageSize = 2 ^ 12 from rfl]
  refine Nat.eq_of_testBit_eq fun i ↦ ?_
  rw [Nat.testBit_and, Nat.testBit_mul_two_pow, Nat.testBit_mul_two_pow,
    Nat.testBit_two_pow_sub_one, Nat.testBit_div_two_pow]
  by_cases h12 : 12 ≤ i
  · rw [Nat.sub_add_cancel h12]
    by_cases h64 : i < 64
    · simp [h12, show i - 12 < 52 by omega]
    · have hbit : x.testBit i = false := Nat.testBit_lt_two_pow
        (lt_of_lt_of_le hx (Nat.pow_le_pow_right (by decide) (not_lt.1 h64)))
      rw [hbit, Bool.false_and, Bool.and_false]
  · simp [h12]

theorem alignDown_eq {x : ℕ} (hx : x < 2 ^ 64) : alignDown x = x / pageSize * pageSize :=
  and_pageMask hx

/-- Rounding up, where there is something to round up to. -/
theorem alignUp_eq {x : ℕ} (hx : x ≤ lastPage) :
    alignUp x = (x + (pageSize - 1)) / pageSize * pageSize := by
  have hlt : x + (pageSize - 1) < 2 ^ 64 := by
    simp only [lastPage, pageSize] at *
    omega
  rw [alignUp, Nat.mod_eq_of_lt hlt, and_pageMask hlt]

/-- Rounding up in the last page. -/
theorem alignUp_wraps {x : ℕ} (h1 : lastPage < x) (h2 : x < 2 ^ 64) : alignUp x = 0 := by
  have hmod : (x + (pageSize - 1)) % 2 ^ 64 < pageSize := by
    simp only [lastPage, pageSize] at *
    omega
  rw [alignUp, and_pageMask (Nat.mod_lt _ (by decide)), Nat.div_eq_of_lt hmod, Nat.zero_mul]

/-! ## Marking pages -/

theorem exists_mem_pageAddrs {stop k : ℕ} :
    (∃ a ∈ pageAddrs (k * pageSize) stop, a / pageSize = f) ↔ k ≤ f ∧ f * pageSize < stop := by
  rw [pageAddrs]
  simp only [List.mem_map, List.mem_range, exists_exists_and_eq_and, pageSize]
  constructor
  · rintro ⟨j, hj, rfl⟩
    omega
  · rintro ⟨h1, h2⟩
    exact ⟨f - k, by omega, by omega⟩

theorem mem_freeSet_foldl_free {l : List ℕ} :
    f ∈ freeSet (l.foldl (fun s addr ↦ markFrameFree (addr / pageSize) s) s) ↔
      f ∈ freeSet s ∨ f < s.frameCount ∧ ∃ a ∈ l, a / pageSize = f := by
  induction l generalizing s with
  | nil => simp
  | cons a l ih =>
    rw [List.foldl_cons, ih, markFrameFree_shape.frameCount, List.exists_mem_cons_iff]
    by_cases ha : a / pageSize < s.frameCount
    · rw [freeSet_markFrameFree ha, Finset.mem_insert]
      constructor
      · rintro ((rfl | hf) | ⟨hf, hl⟩)
        · exact .inr ⟨ha, .inl rfl⟩
        · exact .inl hf
        · exact .inr ⟨hf, .inr hl⟩
      · rintro (hf | ⟨hf, rfl | hl⟩)
        · exact .inl (.inr hf)
        · exact .inl (.inl rfl)
        · exact .inr ⟨hf, hl⟩
    · rw [markFrameFree, if_pos (not_lt.1 ha)]
      refine or_congr_right (and_congr_right fun hf ↦ ⟨.inr, ?_⟩)
      rintro (rfl | hl)
      · exact absurd hf ha
      · exact hl

theorem freeSet_reserveFrame {frame : ℕ} :
    freeSet (reserveFrame frame s) = (freeSet s).erase frame := by
  rw [← freeSet_markFrameUsed, reserveFrame]
  split <;> rfl

theorem mem_freeSet_foldl_used {l : List ℕ} :
    f ∈ freeSet (l.foldl (fun s addr ↦ reserveFrame (addr / pageSize) s) s) ↔
      f ∈ freeSet s ∧ ∀ a ∈ l, a / pageSize ≠ f := by
  induction l generalizing s with
  | nil => simp
  | cons a l ih =>
    rw [List.foldl_cons, ih, freeSet_reserveFrame, Finset.mem_erase, List.forall_mem_cons]
    constructor
    · rintro ⟨⟨hne, hf⟩, hl⟩
      exact ⟨hf, hne.symm, hl⟩
    · rintro ⟨hf, hne, hl⟩
      exact ⟨⟨hne.symm, hf⟩, hl⟩

theorem mem_freeSet_freePages (hI : Inv s) {k m : ℕ} :
    f ∈ freeSet (freePages (k * pageSize) (m * pageSize) s) ↔
      f ∈ freeSet s ∨ f < s.frameCount ∧ k ≤ f ∧ f < m := by
  have hphys := hI.phys
  -- the statistics that are updated on the way have no influence on the set
  have hset : ∀ j, freeSet { s with ignoredFrames := j } = freeSet s := fun _ ↦ rfl
  rw [freePages]
  split
  · refine (or_iff_left fun h ↦ ?_).symm
    simp only [pageSize] at *
    omega
  split
  · refine (or_iff_left fun h ↦ ?_).symm
    simp only [pageSize] at *
    omega
  split
  rename_i heq
  split at heq
  · cases heq
    rw [mem_freeSet_foldl_free, exists_mem_pageAddrs, hset]
    refine or_congr_right (and_congr_right fun hf ↦ and_congr_right fun _ ↦ ?_)
    simp only [pageSize] at *
    omega
  · cases heq
    rw [mem_freeSet_foldl_free, exists_mem_pageAddrs]
    refine or_congr_right (and_congr_right fun hf ↦ and_congr_right fun _ ↦ ?_)
    simp only [pageSize] at *
    omega

theorem mem_freeSet_usePages (hI : Inv s) {k m : ℕ} :
    f ∈ freeSet (usePages (k * pageSize) (m * pageSize) s) ↔
      f ∈ freeSet s ∧ ¬ (k ≤ f ∧ f < m) := by
  have hphys := hI.phys
  have hlt : f ∈ freeSet s → f < s.frameCount := fun hm ↦ (mem_freeSet.1 hm).1
  rw [usePages]
  split
  · refine (and_iff_left_of_imp fun _ h ↦ ?_).symm
    simp only [pageSize] at *
    omega
  split
  · refine (and_iff_left_of_imp fun hm h ↦ ?_).symm
    have := hlt hm
    simp only [pageSize] at *
    omega
  · rw [mem_freeSet_foldl_used]
    refine and_congr_right fun hm ↦ ?_
    have hf := hlt hm
    rw [← not_iff_not, not_not]
    push Not
    rw [exists_mem_pageAddrs]
    refine and_congr_right fun _ ↦ ?_
    split <;> simp only [pageSize] at * <;> omega

/-! ## Marking regions -/

/-- The region is not empty and starts in the last page, behind its first byte. -/
def BootMemRegion.StartsInLastPage (r : BootMemRegion) : Prop := r.length ≠ 0 ∧ lastPage < r.base

/-- The region ends in the last page, behind its first byte. -/
def BootMemRegion.EndsInLastPage (r : BootMemRegion) : Prop := lastPage < r.base + r.length

/-- The end of a region does not exceed the largest number of 64 bits. -/
def BootMemRegion.Fits (r : BootMemRegion) : Prop := r.base + r.length ≤ 2 ^ 64 - 1

theorem checkedAdd_of_fits (hr : r.Fits) :
    checkedAdd r.base r.length = some (r.base + r.length) := by
  rw [BootMemRegion.Fits] at hr
  rw [checkedAdd, if_neg (by omega)]

/-- **What a usable region frees**: the pages it contains, or all pages if it starts in the last. -/
theorem mem_freeSet_markRangeFree (hI : Inv s) (hr : r.Fits) :
    f ∈ freeSet (markRangeFree r.base r.length s) ↔ f ∈ freeSet s ∨
      f < s.frameCount ∧ (r.Contains f ∨ r.StartsInLastPage) := by
  have hphys := hI.phys
  have hmax := hI.max_lt
  have hend : r.base + r.length < 2 ^ 64 := by
    rw [BootMemRegion.Fits] at hr
    omega
  rw [markRangeFree]
  simp only [BootMemRegion.Contains, BootMemRegion.StartsInLastPage]
  by_cases h0 : r.length = 0
  · rw [if_pos h0]
    refine (or_iff_left fun h ↦ ?_).symm
    simp only [pageSize] at *
    omega
  rw [if_neg h0, checkedAdd_of_fits hr]
  dsimp only
  rw [alignDown_eq hend]
  by_cases hlast : lastPage < r.base
  · rw [alignUp_wraps hlast (by omega), ← Nat.zero_mul pageSize, mem_freeSet_freePages hI]
    refine or_congr_right (and_congr_right fun hf ↦ ?_)
    simp only [lastPage, pageSize] at *
    omega
  · rw [alignUp_eq (not_lt.1 hlast), mem_freeSet_freePages hI]
    refine or_congr_right (and_congr_right fun hf ↦ ?_)
    simp only [lastPage, pageSize] at *
    omega

/-- **What another region takes**: the pages it meets, or none if it ends in the last page. -/
theorem mem_freeSet_markRangeUsed (hI : Inv s) (hr : r.Fits) :
    f ∈ freeSet (markRangeUsed r.base r.length s) ↔ f ∈ freeSet s ∧
      ¬ (r.Meets f ∧ ¬ r.EndsInLastPage) := by
  have hend : r.base + r.length < 2 ^ 64 := by
    rw [BootMemRegion.Fits] at hr
    omega
  rw [markRangeUsed, BootMemRegion.meets_iff, BootMemRegion.EndsInLastPage]
  by_cases h0 : r.length = 0
  · rw [if_pos h0]
    exact (and_iff_left fun h ↦ h.1.1 h0).symm
  rw [if_neg h0, checkedAdd_of_fits hr]
  dsimp only
  rw [alignDown_eq (by omega)]
  by_cases hlast : lastPage < r.base + r.length
  · rw [alignUp_wraps hlast hend, usePages, if_pos (Nat.zero_le _)]
    exact (and_iff_left fun h ↦ h.2 hlast).symm
  · rw [alignUp_eq (not_lt.1 hlast), mem_freeSet_usePages hI]
    refine and_congr_right fun _ ↦ not_congr ?_
    simp only [lastPage, pageSize] at *
    omega

/-! ## The three passes -/

theorem mem_freeSet_freeRegions (hI : Inv s) (hr : ∀ r ∈ regions, r.Fits) :
    f ∈ freeSet (regions.foldl (fun s r ↦
        if r.type = bootMemUsable then markRangeFree r.base r.length s else s) s) ↔
      f ∈ freeSet s ∨ f < s.frameCount ∧
        ∃ r ∈ regions, r.type = bootMemUsable ∧ (r.Contains f ∨ r.StartsInLastPage) := by
  induction regions generalizing s with
  | nil => simp
  | cons r regions ih =>
    obtain ⟨hfit, hrest⟩ := List.forall_mem_cons.1 hr
    rw [List.foldl_cons, List.exists_mem_cons_iff]
    by_cases ht : r.type = bootMemUsable
    · have hkept := markRangeFree_kept r.base r.length hI
      rw [if_pos ht, ih hkept.inv hrest, mem_freeSet_markRangeFree hI hfit,
        hkept.shape.frameCount, or_assoc, ← and_or_left]
      simp only [ht, true_and]
    · rw [if_neg ht, ih hI hrest]
      simp only [ht, false_and, false_or]

theorem mem_freeSet_useRegions (hI : Inv s) (hr : ∀ r ∈ regions, r.Fits) :
    f ∈ freeSet (regions.foldl (fun s r ↦
        if r.type ≠ bootMemUsable then markRangeUsed r.base r.length s else s) s) ↔
      f ∈ freeSet s ∧ ∀ r ∈ regions, r.type ≠ bootMemUsable →
        ¬ (r.Meets f ∧ ¬ r.EndsInLastPage) := by
  induction regions generalizing s with
  | nil => simp
  | cons r regions ih =>
    obtain ⟨hfit, hrest⟩ := List.forall_mem_cons.1 hr
    rw [List.foldl_cons, List.forall_mem_cons]
    by_cases ht : r.type = bootMemUsable
    · rw [if_neg (not_not.2 ht), ih hI hrest]
      exact and_congr_right fun _ ↦ (and_iff_right fun hne ↦ absurd ht hne).symm
    · rw [if_pos ht, ih (markRangeUsed_shrunk r.base r.length hI).inv hrest,
        mem_freeSet_markRangeUsed hI hfit, and_assoc]
      exact and_congr_right fun _ ↦ and_congr_left fun _ ↦ ⟨fun h _ ↦ h, fun h ↦ h ht⟩

/-- The region that is taken for the sake of frame 0. -/
def zeroPage : BootMemRegion := ⟨0, pageSize, 0⟩

theorem zeroPage_meets : zeroPage.Meets f ∧ ¬ zeroPage.EndsInLastPage ↔ f = 0 := by
  rw [BootMemRegion.meets_iff, BootMemRegion.EndsInLastPage, zeroPage]
  simp only [lastPage, pageSize]
  omega

/-- **The free frames after initialization.** -/
theorem mem_freeSet_initFromMap {storage : ℕ → UInt8} {storageBytes maxPhysBytes : ℕ}
    (hmax : maxPhysBytes < 2 ^ 64) (hr : ∀ r ∈ regions, r.Fits)
    (h : initFromMap regions storage storageBytes maxPhysBytes = some s) :
    f ∈ freeSet s ↔ f < s.frameCount ∧ f ≠ 0 ∧
      (∃ r ∈ regions, r.type = bootMemUsable ∧ (r.Contains f ∨ r.StartsInLastPage)) ∧
      ∀ r ∈ regions, r.type ≠ bootMemUsable → ¬ (r.Meets f ∧ ¬ r.EndsInLastPage) := by
  obtain ⟨hpos, hpage, rfl⟩ := eq_of_initFromMap h
  have hI : Inv (allUsed storage maxPhysBytes) := inv_allUsed hmax hpage
  have hcount : (applyMap regions (allUsed storage maxPhysBytes)).frameCount
      = (allUsed storage maxPhysBytes).frameCount :=
    (applyMap_kept regions hI hpos).1.shape.frameCount
  have hfree : Kept (allUsed storage maxPhysBytes) (regions.foldl (fun s r ↦
      if r.type = bootMemUsable then markRangeFree r.base r.length s else s)
      (allUsed storage maxPhysBytes)) := by
    refine foldl_kept (fun s r hI ↦ ?_) regions hI
    split
    · exact markRangeFree_kept _ _ hI
    · exact ⟨hI, .refl s⟩
  have hfit : zeroPage.Fits := show 0 + pageSize ≤ 2 ^ 64 - 1 by decide
  have hzero := mem_freeSet_markRangeUsed (f := f) hfree.inv hfit
  rw [zeroPage_meets, zeroPage] at hzero
  show f ∈ freeSet (applyMap regions (allUsed storage maxPhysBytes)) ↔
    f < (applyMap regions (allUsed storage maxPhysBytes)).frameCount ∧ _
  rw [hcount, applyMap, mem_freeSet_useRegions
      (markRangeUsed_shrunk 0 pageSize hfree.inv).inv hr, hzero, mem_freeSet_freeRegions hI hr,
    freeSet_allUsed]
  simp only [Finset.notMem_empty, false_or, and_assoc]
  exact and_congr_right fun _ ↦ and_left_comm

/-! ## The classification -/

/-- **When the map is classified right.**  Take a frame other than 0 that no region which is not
usable meets, apart from those that end in the last page.  If it lies in a usable region, then none
of those others may meet it either; and if a usable region starts in the last page, then it has to
lie in a usable region. -/
theorem bootMap_classified_iff {storage : ℕ → UInt8} {storageBytes maxPhysBytes : ℕ}
    (hmax : maxPhysBytes < 2 ^ 64) (hr : ∀ r ∈ regions, r.base + r.length ≤ 2 ^ 64 - 1)
    (h : initFromMap regions storage storageBytes maxPhysBytes = some s) :
    (∀ f, f < s.frameCount → (f ∈ freeSet s ↔ Allocatable regions f)) ↔
      ∀ f, f < s.frameCount → f ≠ 0 →
        (∀ r ∈ regions, r.type ≠ bootMemUsable → ¬ (r.Meets f ∧ ¬ r.EndsInLastPage)) →
        ((∃ r ∈ regions, r.type = bootMemUsable ∧ r.Contains f) →
          ∀ r ∈ regions, r.type ≠ bootMemUsable → ¬ r.Meets f) ∧
        ((∃ r ∈ regions, r.type = bootMemUsable ∧ r.StartsInLastPage) →
          ∃ r ∈ regions, r.type = bootMemUsable ∧ r.Contains f) := by
  have hmem : ∀ {f}, f ∈ freeSet s ↔ _ := mem_freeSet_initFromMap hmax hr h
  constructor
  · intro hclass f hf h0 hother
    constructor
    · rintro ⟨r, hr, ht, hin⟩
      exact ((hclass f hf).1 (hmem.2 ⟨hf, h0, ⟨r, hr, ht, .inl hin⟩, hother⟩)).2.2
    · rintro ⟨r, hr, ht, hlast⟩
      exact ((hclass f hf).1 (hmem.2 ⟨hf, h0, ⟨r, hr, ht, .inr hlast⟩, hother⟩)).2.1
  · intro hcond f hf
    rw [hmem]
    constructor
    · rintro ⟨-, h0, ⟨r, hr, ht, hin⟩, hother⟩
      obtain ⟨hmeet, hstart⟩ := hcond f hf h0 hother
      have hcontained : ∃ r ∈ regions, r.type = bootMemUsable ∧ r.Contains f := by
        rcases hin with hin | hlast
        · exact ⟨r, hr, ht, hin⟩
        · exact hstart ⟨r, hr, ht, hlast⟩
      exact ⟨h0, hcontained, hmeet hcontained⟩
    · rintro ⟨h0, ⟨r, hr, ht, hin⟩, hmeet⟩
      exact ⟨hf, h0, ⟨r, hr, ht, .inl hin⟩, fun r hr ht hm ↦ hmeet r hr ht hm.1⟩

/-- Four frames, the last two of them usable. -/
theorem bootMap_classified_four_frames :
    ∃ s, initFromMap [⟨8192, 8192, 1⟩] (fun _ ↦ 0) 1 16384 = some s ∧
      ∀ f, f < s.frameCount → (f ∈ freeSet s ↔ Allocatable [⟨8192, 8192, 1⟩] f) := by
  have hinit : (initFromMap [⟨8192, 8192, 1⟩] (fun _ ↦ 0) 1 16384).isSome = true := by
    decide +kernel
  obtain ⟨s, hs⟩ := Option.isSome_iff_exists.1 hinit
  refine ⟨s, hs, (bootMap_classified_iff (by decide) (by decide) hs).2 fun f _ _ _ ↦ ⟨?_, ?_⟩⟩
  · rintro - r hr ht
    rw [List.mem_singleton.1 hr] at ht
    exact absurd rfl ht
  · rintro ⟨r, hr, -, -, hlast⟩
    rw [List.mem_singleton.1 hr] at hlast
    exact absurd hlast (by decide)

/-- **Regions at the end of the address space are misread.**  One usable byte in the last page makes
frame 1 free, and a reserved region from frame 1 up to the last address does not take it. -/
theorem last_page_misread :
    ((initFromMap [⟨2 ^ 64 - 4095, 1, 1⟩] (fun _ ↦ 0) 1 8192).map fun s ↦
        (s.frameCount, Bitmap.test s.bitmap 1)) = some (2, false) ∧
      ¬ Allocatable [⟨2 ^ 64 - 4095, 1, 1⟩] 1 ∧
      ((initFromMap [⟨0, 8192, 1⟩, ⟨4096, 2 ^ 64 - 4097, 2⟩] (fun _ ↦ 0) 1 8192).map fun s ↦
        (s.frameCount, Bitmap.test s.bitmap 1)) = some (2, false) ∧
      ¬ Allocatable [⟨0, 8192, 1⟩, ⟨4096, 2 ^ 64 - 4097, 2⟩] 1 := by
  refine ⟨by decide +kernel, ?_, by decide +kernel, ?_⟩
  · rintro ⟨-, ⟨r, hr, -, hin⟩, -⟩
    rw [List.mem_singleton.1 hr] at hin
    exact absurd hin.1 (by decide)
  · rintro ⟨-, -, hmeet⟩
    exact hmeet ⟨4096, 2 ^ 64 - 4097, 2⟩ (by simp) (by decide)
      ⟨4096, le_rfl, by decide, by decide, by decide⟩

end Pmm
end Mcsos
