import Mcsos.Pmm.BootMap

/-!
# What a reservation promises

`pmm_reserve_range` reports success whatever `mark_range_used` makes of the range.  That one gives
up silently when the end of the range does not fit in 64 bits, and takes the range to be empty when
the end, rounded up, does not.  `mem_freeSet_reserveRange` says which frames are free afterwards,
and `reserveRange_promise_iff` when this is what was asked for.
-/

set_option autoImplicit false

namespace Mcsos
namespace Pmm

variable {s s' : State} {base length f : ℕ}

/-- The frames that are free in one state and not in the other. -/
def changed (s s' : State) : Finset ℕ :=
  (Finset.range s.frameCount).filter fun f ↦ Bitmap.test s'.bitmap f ≠ Bitmap.test s.bitmap f

/-- What a reservation that has succeeded is expected to have done. -/
structure Promise (base length : ℕ) (s s' : State) : Prop where
  taken : ∀ f, f < s.frameCount → RangeMeets base length f → Bitmap.test s'.bitmap f = true
  others : ∀ f, f < s.frameCount → ¬ RangeMeets base length f →
    Bitmap.test s'.bitmap f = Bitmap.test s.bitmap f
  count : s'.freeFrames + (changed s s').card = s.freeFrames

/-! ## Steps that take frames -/

theorem Shrunk.test_eq_iff (h : Shrunk s s') (hf : f < s.frameCount) :
    Bitmap.test s'.bitmap f = Bitmap.test s.bitmap f ↔ (f ∈ freeSet s → f ∈ freeSet s') := by
  have hsub : f ∈ freeSet s' → f ∈ freeSet s := fun hm ↦ h.subset hm
  rw [mem_freeSet, mem_freeSet, h.shape.frameCount] at hsub
  rw [mem_freeSet, mem_freeSet, h.shape.frameCount]
  cases hs : Bitmap.test s.bitmap f <;> cases hs' : Bitmap.test s'.bitmap f <;> simp_all

theorem Shrunk.changed_eq (h : Shrunk s s') : changed s s' = freeSet s \ freeSet s' := by
  ext f
  rw [changed, Finset.mem_filter, Finset.mem_range, Finset.mem_sdiff]
  constructor
  · rintro ⟨hf, hne⟩
    rwa [Ne, h.test_eq_iff hf, Classical.not_imp] at hne
  · intro hm
    have hf := (mem_freeSet.1 hm.1).1
    exact ⟨hf, fun heq ↦ hm.2 ((h.test_eq_iff hf).1 heq hm.1)⟩

/-- The counter has dropped by the number of frames that were taken. -/
theorem Shrunk.count (h : Shrunk s s') (hI : Inv s) :
    s'.freeFrames + (changed s s').card = s.freeFrames := by
  rw [h.changed_eq, h.inv.free, hI.free, Nat.add_comm]
  exact Finset.card_sdiff_add_card_eq_card h.subset

/-! ## Reservations -/

/-- **What a reservation takes**: the pages that meet the range, or none if it ends in the last
page of the address space or behind it. -/
theorem mem_freeSet_reserveRange (hs : Running s) (base length f : ℕ) :
    f ∈ freeSet (markRangeUsed base length s) ↔
      f ∈ freeSet s ∧ (RangeMeets base length f → lastPage < base + length) := by
  let r : BootMemRegion := ⟨base, length, 0⟩
  by_cases hfits : r.Fits
  · have hmem := mem_freeSet_markRangeUsed (f := f) hs.toInv hfits
    rw [Classical.not_and_iff_not_or_not, not_not, ← imp_iff_not_or] at hmem
    exact hmem
  · have hend : 2 ^ 64 - 1 < base + length := not_le.1 hfits
    have hsame : markRangeUsed base length s = s := by
      rw [markRangeUsed]
      split
      · rfl
      · rw [checkedAdd, if_pos (by omega)]
    rw [hsame]
    refine (and_iff_left fun _ ↦ ?_).symm
    simp only [lastPage, pageSize]
    omega

/-- **When a reservation keeps its promise.**  A reservation that reports success has taken all the
frames that meet the range, no others, and has counted them, if and only if the range ends in front
of the last page of the address space or had no free frames in it. -/
theorem reserveRange_promise_iff (h : Reaches s) (hret : (reserveRange base length s).1 = true) :
    Promise base length s (reserveRange base length s).2 ↔
      base + length ≤ 2 ^ 64 - 4096 ∨ ∀ f ∈ freeSet s, ¬ RangeMeets base length f := by
  have hs := h.running
  have heq : (reserveRange base length s).2 = markRangeUsed base length s := by
    rw [reserveRange] at hret ⊢
    split
    · rename_i hc
      rw [if_pos hc] at hret
      cases hret
    · rfl
  have hshrunk := markRangeUsed_shrunk base length hs.toInv
  have hmem := mem_freeSet_reserveRange hs base length
  rw [heq]
  constructor
  · intro hp
    by_contra hcon
    obtain ⟨hlast, hfree⟩ := not_or.1 hcon
    push Not at hfree
    obtain ⟨f, hf, hmeets⟩ := hfree
    have hfree' := (hmem f).2 ⟨hf, fun _ ↦ not_le.1 hlast⟩
    exact not_mem_freeSet (hp.taken f (mem_freeSet.1 hf).1 hmeets) hfree'
  · intro hcond
    refine ⟨fun f hf hmeets ↦ ?_, fun f hf hmeets ↦ ?_, hshrunk.count hs.toInv⟩
    · have hnot : f ∉ freeSet (markRangeUsed base length s) := by
        intro hf'
        obtain ⟨hfree, hlast⟩ := (hmem f).1 hf'
        rcases hcond with hle | hnone
        · exact absurd (hlast hmeets) (not_lt.2 hle)
        · exact hnone f hfree hmeets
      rw [mem_freeSet, hshrunk.shape.frameCount, not_and, Bool.not_eq_false] at hnot
      exact hnot hf
    · refine (hshrunk.test_eq_iff hf).2 fun hfree ↦ (hmem f).2 ⟨hfree, fun hm ↦ ?_⟩
      exact absurd hm hmeets

/-- A reservation of the last two of four frames. -/
theorem reserveRange_promise_two_frames :
    ∃ s, initFromMap [⟨4096, 12288, 1⟩] (fun _ ↦ 0) 1 16384 = some s ∧
      Promise 8193 5000 s (reserveRange 8193 5000 s).2 := by
  have hinit : ((initFromMap [⟨4096, 12288, 1⟩] (fun _ ↦ 0) 1 16384).map fun s ↦
      (reserveRange 8193 5000 s).1) = some true := by decide +kernel
  obtain ⟨s, hs, hret⟩ := Option.map_eq_some_iff.1 hinit
  exact ⟨s, hs, (reserveRange_promise_iff (.init (by decide) hs) hret).2 (.inl (by decide))⟩

/-- **A reservation up to the end of the address space succeeds without any effect.**  Frame 2 is
free before and after, and meets both ranges. -/
theorem reservation_lost :
    ((initFromMap [⟨4096, 12288, 1⟩] (fun _ ↦ 0) 1 16384).map fun s ↦
        ((reserveRange 8192 (2 ^ 64 - 8193) s).1,
          Bitmap.test (reserveRange 8192 (2 ^ 64 - 8193) s).2.bitmap 2,
          (reserveRange 8192 (2 ^ 64 - 1) s).1,
          Bitmap.test (reserveRange 8192 (2 ^ 64 - 1) s).2.bitmap 2))
      = some (true, false, true, false) ∧
    RangeMeets 8192 (2 ^ 64 - 8193) 2 ∧ RangeMeets 8192 (2 ^ 64 - 1) 2 := by
  refine ⟨by decide +kernel, ⟨8192, ?_, ?_, ?_, ?_⟩, ⟨8192, ?_, ?_, ?_, ?_⟩⟩ <;> decide

end Pmm
end Mcsos
