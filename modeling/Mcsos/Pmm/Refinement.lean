import Mcsos.Lib.Search
import Mcsos.Pmm.Frames

/-!
# The frame allocator as a set of free frames

`freeSet` is the set of free frames of a state.  Marking a frame adds it to the set or removes it,
and keeps `Inv`: the counters count the set, and no frame below the hint is in it.  So the first
free frame from the hint on is the least one of all (`allocFrame_eq`).
-/

set_option autoImplicit false

namespace Mcsos
namespace Pmm

variable {s s' : State} {frame : ℕ}

/-! ## The invariant -/

/-- The free frames. -/
def freeSet (s : State) : Finset ℕ := Bitmap.zeros s.bitmap s.frameCount

/-- The counters and the hint agree with the bitmap. -/
structure Inv (s : State) : Prop where
  phys : s.frameCount * pageSize = s.maxPhys
  max_lt : s.maxPhys < 2 ^ 64
  free : s.freeFrames = (freeSet s).card
  used : s.usedFrames + s.freeFrames = s.frameCount
  hint_le : s.nextHint ≤ s.frameCount
  hint : ∀ f, f < s.nextHint → Bitmap.test s.bitmap f = true

/-- What marking frames does not change. -/
structure SameShape (s s' : State) : Prop where
  frameCount : s'.frameCount = s.frameCount
  maxPhys : s'.maxPhys = s.maxPhys
  initialized : s'.initialized = s.initialized

theorem SameShape.refl (s : State) : SameShape s s := ⟨rfl, rfl, rfl⟩

theorem SameShape.trans {s'' : State} (h : SameShape s s') (h' : SameShape s' s'') :
    SameShape s s'' :=
  ⟨h'.frameCount.trans h.frameCount, h'.maxPhys.trans h.maxPhys,
    h'.initialized.trans h.initialized⟩

theorem mem_freeSet {f : ℕ} : f ∈ freeSet s ↔ f < s.frameCount ∧ Bitmap.test s.bitmap f = false :=
  Bitmap.mem_zeros

theorem Inv.frameCount_lt (hI : Inv s) : s.frameCount < 2 ^ 52 := by
  have h1 := hI.phys
  have h2 := hI.max_lt
  simp only [pageSize] at h1
  omega

theorem not_mem_freeSet (ht : Bitmap.test s.bitmap frame = true) : frame ∉ freeSet s := by
  intro hm
  rw [mem_freeSet, ht] at hm
  cases hm.2

/-- A used frame leaves room in the set of free frames. -/
theorem card_freeSet_lt (hf : frame < s.frameCount) (ht : Bitmap.test s.bitmap frame = true) :
    (freeSet s).card < s.frameCount := by
  have hsub : insert frame (freeSet s) ⊆ Finset.range s.frameCount := by
    refine Finset.insert_subset (Finset.mem_range.2 hf) fun f hm ↦ ?_
    exact Finset.mem_range.2 (mem_freeSet.1 hm).1
  have hcard := Finset.card_le_card hsub
  rwa [Finset.card_insert_of_notMem (not_mem_freeSet ht), Finset.card_range] at hcard

/-! ## Marking one frame -/

theorem markFrameFree_of_used (hf : frame < s.frameCount)
    (ht : Bitmap.test s.bitmap frame = true) : markFrameFree frame s =
      { s with
        bitmap := Bitmap.clear s.bitmap frame
        freeFrames := (s.freeFrames + 1) % 2 ^ 64
        usedFrames := if 0 < s.usedFrames then s.usedFrames - 1 else s.usedFrames
        nextHint := if frame < s.nextHint then frame else s.nextHint } := by
  rw [markFrameFree, if_neg (not_le.2 hf), if_pos ht]

theorem markFrameUsed_of_free (hf : frame < s.frameCount)
    (ht : Bitmap.test s.bitmap frame = false) : markFrameUsed frame s =
      { s with
        bitmap := Bitmap.set s.bitmap frame
        freeFrames := if 0 < s.freeFrames then s.freeFrames - 1 else s.freeFrames
        usedFrames := (s.usedFrames + 1) % 2 ^ 64 } := by
  rw [markFrameUsed, if_neg (not_le.2 hf), ht]
  rfl

theorem markFrameFree_shape : SameShape s (markFrameFree frame s) := by
  rw [markFrameFree]
  split
  · exact .refl s
  · split
    · exact ⟨rfl, rfl, rfl⟩
    · exact .refl s

theorem markFrameUsed_shape : SameShape s (markFrameUsed frame s) := by
  rw [markFrameUsed]
  split
  · exact .refl s
  · split
    · exact ⟨rfl, rfl, rfl⟩
    · exact .refl s

theorem freeSet_markFrameFree (hf : frame < s.frameCount) :
    freeSet (markFrameFree frame s) = insert frame (freeSet s) := by
  by_cases ht : Bitmap.test s.bitmap frame = true
  · rw [markFrameFree_of_used hf ht, freeSet, Bitmap.zeros_clear hf]
    rfl
  · rw [markFrameFree, if_neg (not_le.2 hf), if_neg ht, Finset.insert_eq_of_mem]
    exact mem_freeSet.2 ⟨hf, Bool.eq_false_iff.2 ht⟩

theorem freeSet_markFrameUsed : freeSet (markFrameUsed frame s) = (freeSet s).erase frame := by
  by_cases hf : frame < s.frameCount
  · cases ht : Bitmap.test s.bitmap frame with
    | false => rw [markFrameUsed_of_free hf ht, freeSet, Bitmap.zeros_set]; rfl
    | true =>
      rw [markFrameUsed, if_neg (not_le.2 hf), ht, if_neg (by decide), Finset.erase_eq_of_notMem]
      exact not_mem_freeSet ht
  · rw [markFrameUsed, if_pos (not_lt.1 hf), Finset.erase_eq_of_notMem]
    exact fun hm ↦ hf (mem_freeSet.1 hm).1

theorem Inv.markFrameFree (hI : Inv s) : Inv (markFrameFree frame s) := by
  by_cases hf : frame < s.frameCount
  · by_cases ht : Bitmap.test s.bitmap frame = true
    · have hset := freeSet_markFrameFree hf
      have hcard := card_freeSet_lt hf ht
      have hnot := not_mem_freeSet ht
      have hlt := hI.frameCount_lt
      have hfree := hI.free
      have hused := hI.used
      rw [markFrameFree_of_used hf ht] at hset ⊢
      refine ⟨hI.phys, hI.max_lt, ?_, ?_, ?_, fun f hfh ↦ ?_⟩
      · rw [hset, Finset.card_insert_of_notMem hnot]
        dsimp only
        omega
      · dsimp only
        rw [if_pos (by omega)]
        omega
      · have := hI.hint_le
        dsimp only
        split <;> omega
      · dsimp only at hfh ⊢
        have hne : frame ≠ f := by split at hfh <;> omega
        have hlt : f < s.nextHint := by split at hfh <;> omega
        rw [Bitmap.test_clear, hI.hint f hlt, decide_eq_false hne]
        rfl
    · rwa [Pmm.markFrameFree, if_neg (not_le.2 hf), if_neg ht]
  · rwa [Pmm.markFrameFree, if_pos (not_lt.1 hf)]

theorem Inv.markFrameUsed (hI : Inv s) : Inv (markFrameUsed frame s) := by
  by_cases hf : frame < s.frameCount
  · cases ht : Bitmap.test s.bitmap frame with
    | false =>
      have hset : freeSet (Pmm.markFrameUsed frame s) = _ := freeSet_markFrameUsed
      have hmem : frame ∈ freeSet s := mem_freeSet.2 ⟨hf, ht⟩
      have hpos := Finset.card_pos.2 ⟨frame, hmem⟩
      have hlt := hI.frameCount_lt
      have hfree := hI.free
      have hused := hI.used
      rw [markFrameUsed_of_free hf ht] at hset ⊢
      refine ⟨hI.phys, hI.max_lt, ?_, ?_, hI.hint_le, fun f hfh ↦ ?_⟩
      · rw [hset, Finset.card_erase_of_mem hmem]
        dsimp only
        rw [if_pos (by omega), hfree]
      · dsimp only
        rw [if_pos (by omega)]
        omega
      · rw [Bitmap.test_set, hI.hint f hfh, Bool.or_true]
    | true => rwa [Pmm.markFrameUsed, if_neg (not_le.2 hf), ht, if_neg (by decide)]
  · rwa [Pmm.markFrameUsed, if_pos (not_lt.1 hf)]

/-! ## Marking ranges -/

/-- A step that keeps the invariant. -/
structure Kept (s s' : State) : Prop where
  inv : Inv s'
  shape : SameShape s s'

theorem Kept.trans {s'' : State} (h : Kept s s') (h' : Kept s' s'') : Kept s s'' :=
  ⟨h'.inv, h.shape.trans h'.shape⟩

/-- A step that keeps the invariant and frees nothing. -/
structure Shrunk (s s' : State) : Prop extends Kept s s' where
  subset : freeSet s' ⊆ freeSet s

theorem Shrunk.refl (hI : Inv s) : Shrunk s s := ⟨⟨hI, .refl s⟩, le_rfl⟩

theorem Shrunk.trans {s'' : State} (h : Shrunk s s') (h' : Shrunk s' s'') : Shrunk s s'' :=
  ⟨h.toKept.trans h'.toKept, h'.subset.trans h.subset⟩

theorem foldl_kept {α : Type} {f : State → α → State} (hf : ∀ s a, Inv s → Kept s (f s a))
    (l : List α) (hI : Inv s) : Kept s (l.foldl f s) := by
  induction l generalizing s with
  | nil => exact ⟨hI, .refl s⟩
  | cons a l ih => exact (hf s a hI).trans (ih (hf s a hI).inv)

theorem foldl_shrunk {α : Type} {f : State → α → State} (hf : ∀ s a, Inv s → Shrunk s (f s a))
    (l : List α) (hI : Inv s) : Shrunk s (l.foldl f s) := by
  induction l generalizing s with
  | nil => exact .refl hI
  | cons a l ih => exact (hf s a hI).trans (ih (hf s a hI).inv)

/-- The statistics do not matter. -/
theorem Kept.setIgnored (h : Kept s s') (k : ℕ) : Kept s { s' with ignoredFrames := k } :=
  ⟨⟨h.inv.phys, h.inv.max_lt, h.inv.free, h.inv.used, h.inv.hint_le, h.inv.hint⟩,
    ⟨h.shape.frameCount, h.shape.maxPhys, h.shape.initialized⟩⟩

theorem Shrunk.setReserved (h : Shrunk s s') (k : ℕ) : Shrunk s { s' with reservedFrames := k } :=
  ⟨⟨⟨h.inv.phys, h.inv.max_lt, h.inv.free, h.inv.used, h.inv.hint_le, h.inv.hint⟩,
    ⟨h.shape.frameCount, h.shape.maxPhys, h.shape.initialized⟩⟩, h.subset⟩

theorem markRangeFree_kept (base length : ℕ) (hI : Inv s) :
    Kept s (markRangeFree base length s) := by
  have hpages : ∀ start stop s, Inv s → Kept s
      ((pageAddrs start stop).foldl (fun s addr ↦ markFrameFree (addr / pageSize) s) s) :=
    fun start stop s hI ↦ foldl_kept (fun s a hI ↦ ⟨hI.markFrameFree, markFrameFree_shape⟩) _ hI
  have hsame : Kept s s := ⟨hI, .refl s⟩
  rw [markRangeFree]
  split
  · exact hsame
  split
  · exact hsame
  rw [freePages]
  split
  · exact hsame
  split
  · exact hsame
  split
  · rename_i heq
    split at heq
    · cases heq
      exact (hsame.setIgnored _).trans (hpages _ _ _ (hsame.setIgnored _).inv)
    · cases heq
      exact hpages _ _ _ hI

theorem reserveFrame_shrunk (hI : Inv s) : Shrunk s (reserveFrame frame s) := by
  have hused : Shrunk s (markFrameUsed frame s) := by
    refine ⟨⟨hI.markFrameUsed, markFrameUsed_shape⟩, ?_⟩
    rw [freeSet_markFrameUsed]
    exact Finset.erase_subset _ _
  rw [reserveFrame]
  split
  · exact hused.setReserved _
  · exact hused

theorem markRangeUsed_shrunk (base length : ℕ) (hI : Inv s) :
    Shrunk s (markRangeUsed base length s) := by
  rw [markRangeUsed]
  split
  · exact .refl hI
  split
  · exact .refl hI
  rw [usePages]
  split
  · exact .refl hI
  split
  · exact .refl hI
  exact foldl_shrunk (fun s a hI ↦ reserveFrame_shrunk hI) _ hI

/-- Reserving the first page takes frame 0. -/
theorem zero_not_mem_markRangeUsed (hI : Inv s) (hpos : 0 < s.maxPhys) :
    0 ∉ freeSet (markRangeUsed 0 pageSize s) := by
  have hmax : pageSize ≤ s.maxPhys := by
    have := hI.phys
    simp only [pageSize] at *
    omega
  have heq : markRangeUsed 0 pageSize s = reserveFrame 0 s := by
    rw [markRangeUsed, if_neg (by decide), show checkedAdd 0 pageSize = some pageSize by decide]
    dsimp only
    rw [usePages, show alignDown 0 = 0 by decide, show alignUp pageSize = pageSize by decide,
      if_neg (by decide), if_neg (by omega), if_neg (not_lt.2 hmax)]
    rfl
  have hset : freeSet (reserveFrame 0 s) = freeSet (markFrameUsed 0 s) := by
    rw [reserveFrame]
    split <;> rfl
  rw [heq, hset, freeSet_markFrameUsed]
  exact Finset.notMem_erase _ _

/-! ## Initialization -/

/-- The allocator at work. -/
structure Running (s : State) : Prop extends Inv s where
  initialized : s.initialized = true
  zero : 0 ∉ freeSet s

theorem test_allUsed {storage : ℕ → UInt8} {maxPhysBytes f : ℕ} (hf : f < maxPhysBytes / pageSize) :
    Bitmap.test (allUsed storage maxPhysBytes).bitmap f = true := by
  rw [Bitmap.test_eq_testBit, allUsed]
  dsimp only
  rw [if_pos (by omega), show (255 : UInt8).toNat = 2 ^ 8 - 1 from rfl, Nat.testBit_two_pow_sub_one]
  exact decide_eq_true (Nat.mod_lt _ (by decide))

theorem freeSet_allUsed (storage : ℕ → UInt8) (maxPhysBytes : ℕ) :
    freeSet (allUsed storage maxPhysBytes) = ∅ :=
  Finset.eq_empty_of_forall_notMem fun _ hm ↦
    not_mem_freeSet (test_allUsed (mem_freeSet.1 hm).1) hm

theorem inv_allUsed {storage : ℕ → UInt8} {maxPhysBytes : ℕ} (hmax : maxPhysBytes < 2 ^ 64)
    (hpage : pageSize ∣ maxPhysBytes) : Inv (allUsed storage maxPhysBytes) :=
  ⟨Nat.div_mul_cancel hpage, hmax, by rw [freeSet_allUsed]; rfl, rfl, Nat.zero_le _,
    fun f hf ↦ absurd hf (Nat.not_lt_zero f)⟩

theorem applyMap_kept (regions : List BootMemRegion) (hI : Inv s) (hpos : 0 < s.maxPhys) :
    Kept s (applyMap regions s) ∧ 0 ∉ freeSet (applyMap regions s) := by
  have hfree : Kept s (regions.foldl (fun s r ↦
      if r.type = bootMemUsable then markRangeFree r.base r.length s else s) s) := by
    refine foldl_kept (fun s r hI ↦ ?_) regions hI
    split
    · exact markRangeFree_kept _ _ hI
    · exact ⟨hI, .refl s⟩
  have hzero := zero_not_mem_markRangeUsed hfree.inv (hfree.shape.maxPhys.symm ▸ hpos)
  have huse := markRangeUsed_shrunk 0 pageSize hfree.inv
  have hrest := foldl_shrunk (f := fun s (r : BootMemRegion) ↦
    if r.type ≠ bootMemUsable then markRangeUsed r.base r.length s else s) (fun s r hI ↦ by
      split
      · exact markRangeUsed_shrunk _ _ hI
      · exact .refl hI) regions huse.inv
  exact ⟨(hfree.trans huse.toKept).trans hrest.toKept, fun hm ↦ hzero (hrest.subset hm)⟩

/-- A successful initialization has checked the size of the memory. -/
theorem eq_of_initFromMap {regions : List BootMemRegion} {storage : ℕ → UInt8}
    {storageBytes maxPhysBytes : ℕ}
    (h : initFromMap regions storage storageBytes maxPhysBytes = some s) :
    0 < maxPhysBytes ∧ pageSize ∣ maxPhysBytes ∧
      s = { applyMap regions (allUsed storage maxPhysBytes) with initialized := true } := by
  rw [initFromMap] at h
  split at h
  · cases h
  split at h
  · cases h
  split at h
  · cases h
  rename_i hphys _
  rw [not_or, not_not, show pageSize - 1 = 2 ^ 12 - 1 from rfl, Nat.and_two_pow_sub_one_eq_mod]
    at hphys
  exact ⟨Nat.pos_of_ne_zero hphys.1, Nat.dvd_of_mod_eq_zero hphys.2, (Option.some.inj h).symm⟩

theorem initFromMap_running {regions : List BootMemRegion} {storage : ℕ → UInt8}
    {storageBytes maxPhysBytes : ℕ} (hmax : maxPhysBytes < 2 ^ 64)
    (h : initFromMap regions storage storageBytes maxPhysBytes = some s) : Running s := by
  obtain ⟨hpos, hpage, rfl⟩ := eq_of_initFromMap h
  obtain ⟨⟨hI, -⟩, hzero⟩ := applyMap_kept regions (inv_allUsed hmax hpage) hpos
  exact ⟨⟨hI.phys, hI.max_lt, hI.free, hI.used, hI.hint_le, hI.hint⟩, rfl, hzero⟩

/-! ## The calls -/

/-- **Allocation takes the least free frame**, and fails only if there is none. -/
theorem Running.allocFrame_eq (hs : Running s) :
    freeSet s = ∅ ∧ allocFrame s = (invalidFrame, s) ∨
      ∃ f ∈ freeSet s, (∀ f' ∈ freeSet s, f ≤ f') ∧ allocFrame s = takeFrame f s := by
  rw [allocFrame]
  by_cases hempty : s.freeFrames = 0
  · refine .inl ⟨Finset.card_eq_zero.1 (hs.free.symm.trans hempty), if_pos (.inr hempty)⟩
  rw [if_neg (by simp [hs.initialized, hempty])]
  cases hfind : (List.range' s.nextHint (s.frameCount - s.nextHint)).find? fun f ↦
      !Bitmap.test s.bitmap f with
  | none =>
    -- the first scan covers all frames that the hint does not exclude
    refine absurd (hs.free.trans (Finset.card_eq_zero.2 ?_)) hempty
    refine Finset.eq_empty_of_forall_notMem fun f hm ↦ ?_
    obtain ⟨hf, ht⟩ := mem_freeSet.1 hm
    have hge : s.nextHint ≤ f := not_lt.1 fun hlt ↦ by rw [hs.hint f hlt] at ht; cases ht
    have hmem : f ∈ List.range' s.nextHint (s.frameCount - s.nextHint) :=
      List.mem_range'_1.2 ⟨hge, by omega⟩
    have := List.find?_eq_none.1 hfind f hmem
    rw [ht] at this
    exact this rfl
  | some f =>
    obtain ⟨hge, hlt, ht⟩ := Search.of_find?_range' hfind
    have hle := hs.hint_le
    refine .inr ⟨f, mem_freeSet.2 ⟨by omega, ?_⟩, fun f' hm ↦ ?_, rfl⟩
    · rwa [Bool.not_eq_true'] at ht
    · obtain ⟨hf', ht'⟩ := mem_freeSet.1 hm
      have hge' : s.nextHint ≤ f' := not_lt.1 fun hlt ↦ by rw [hs.hint f' hlt] at ht'; cases ht'
      by_contra hlt'
      have := (List.find?_range'_eq_some.1 hfind).2.2 f' hge' (not_le.1 hlt')
      rw [ht'] at this
      cases this

/-- Taking the least free frame keeps the invariant: no frame below the new hint is free. -/
theorem Running.takeFrame (hs : Running s) (hm : frame ∈ freeSet s)
    (hmin : ∀ f ∈ freeSet s, frame ≤ f) : Running (takeFrame frame s).2 := by
  obtain ⟨hf, ht⟩ := mem_freeSet.1 hm
  have hI : Inv (markFrameUsed frame s) := hs.toInv.markFrameUsed
  have hshape : SameShape s (markFrameUsed frame s) := markFrameUsed_shape
  have hset : freeSet (markFrameUsed frame s) = (freeSet s).erase frame := freeSet_markFrameUsed
  refine ⟨⟨hI.phys, hI.max_lt, hI.free, hI.used, ?_, fun f hlt ↦ ?_⟩,
    hshape.initialized.trans hs.initialized, fun h0 ↦ ?_⟩
  · rw [Pmm.takeFrame]
    exact hshape.frameCount.symm ▸ hf
  · by_contra hfree
    have hfm : f ∈ freeSet (markFrameUsed frame s) :=
      mem_freeSet.2 ⟨hshape.frameCount.symm ▸ lt_of_lt_of_le hlt hf, Bool.eq_false_iff.2 hfree⟩
    rw [hset, Finset.mem_erase] at hfm
    have := hmin f hfm.2
    exact hfm.1 (le_antisymm (Nat.lt_succ_iff.1 hlt) this)
  · have h0' : 0 ∈ freeSet (markFrameUsed frame s) := h0
    rw [hset] at h0'
    exact hs.zero (Finset.mem_of_mem_erase h0')

theorem test_takeFrame (hm : frame ∈ freeSet s) (j : ℕ) :
    Bitmap.test (takeFrame frame s).2.bitmap j
      = (decide (j = frame) || Bitmap.test s.bitmap j) := by
  obtain ⟨hf, ht⟩ := mem_freeSet.1 hm
  rw [takeFrame]
  dsimp only
  rw [markFrameUsed_of_free hf ht]
  dsimp only
  rw [Bitmap.test_set, decide_eq_decide.2 eq_comm]

/-- The addresses that can be freed. -/
def Freeable (s : State) (addr : ℕ) : Prop :=
  pageSize ∣ addr ∧ addr ≠ 0 ∧ addr < s.maxPhys ∧ Bitmap.test s.bitmap (addr / pageSize) = true

theorem Running.freeFrame_of_freeable (hs : Running s) {addr : ℕ} (h : Freeable s addr) :
    freeFrame addr s = (true, markFrameFree (addr / pageSize) s) := by
  obtain ⟨hpage, h0, hmax, ht⟩ := h
  have hmask : addr &&& (pageSize - 1) = 0 := by
    rw [show pageSize - 1 = 2 ^ 12 - 1 from rfl, Nat.and_two_pow_sub_one_eq_mod]
    exact Nat.mod_eq_zero_of_dvd hpage
  rw [freeFrame, hs.initialized, if_neg (by decide), if_neg, ht, if_neg (by decide)]
  rw [not_or, not_or, not_not, not_le]
  exact ⟨hmask, h0, hmax⟩

theorem Running.freeFrame_of_not_freeable (hs : Running s) {addr : ℕ} (h : ¬ Freeable s addr) :
    freeFrame addr s = (false, s) := by
  rw [freeFrame, hs.initialized, if_neg (by decide)]
  split
  · rfl
  · rename_i hc
    simp only [not_or, not_not, not_le] at hc
    obtain ⟨hmask, h0, hmax⟩ := hc
    rw [show pageSize - 1 = 2 ^ 12 - 1 from rfl, Nat.and_two_pow_sub_one_eq_mod] at hmask
    rw [if_pos]
    by_contra ht
    exact h ⟨Nat.dvd_of_mod_eq_zero hmask, h0, hmax, by simpa using ht⟩

theorem Running.freeFrame (hs : Running s) (addr : ℕ) : Running (freeFrame addr s).2 := by
  by_cases h : Freeable s addr
  · rw [hs.freeFrame_of_freeable h]
    have hlt : addr / pageSize < s.frameCount := by
      have h1 := hs.phys
      have h2 := h.2.2.1
      simp only [pageSize] at *
      omega
    have hne : addr / pageSize ≠ 0 := by
      have h1 := Nat.div_mul_cancel h.1
      intro h0
      rw [h0, Nat.zero_mul] at h1
      exact h.2.1 h1.symm
    have hshape : SameShape s (markFrameFree (addr / pageSize) s) := markFrameFree_shape
    refine ⟨hs.toInv.markFrameFree, hshape.initialized.trans hs.initialized, ?_⟩
    dsimp only
    rw [freeSet_markFrameFree hlt, Finset.mem_insert, not_or]
    exact ⟨hne.symm, hs.zero⟩
  · rwa [hs.freeFrame_of_not_freeable h]

theorem Running.reserveRange (hs : Running s) (base length : ℕ) :
    Running (reserveRange base length s).2 := by
  rw [Pmm.reserveRange]
  split
  · exact hs
  · have h := markRangeUsed_shrunk base length hs.toInv
    exact ⟨h.inv, h.shape.initialized.trans hs.initialized, fun h0 ↦ hs.zero (h.subset h0)⟩

theorem Running.allocFrame (hs : Running s) : Running (allocFrame s).2 := by
  obtain ⟨-, heq⟩ | ⟨f, hm, hmin, heq⟩ := hs.allocFrame_eq
  · rwa [heq]
  · rw [heq]
    exact hs.takeFrame hm hmin

/-! ## Runs -/

/-- The states that calls lead to after a successful initialization. -/
inductive Reaches : State → Prop
  | init {regions : List BootMemRegion} {storage : ℕ → UInt8} {storageBytes maxPhysBytes : ℕ}
      {s : State} (hmax : maxPhysBytes < 2 ^ 64)
      (h : initFromMap regions storage storageBytes maxPhysBytes = some s) : Reaches s
  | allocFrame {s : State} (h : Reaches s) : Reaches (allocFrame s).2
  | freeFrame {s : State} (h : Reaches s) (addr : ℕ) : Reaches (freeFrame addr s).2
  | reserveRange {s : State} (h : Reaches s) (base length : ℕ) :
      Reaches (reserveRange base length s).2

theorem Reaches.running (h : Reaches s) : Running s := by
  induction h with
  | init hmax h => exact initFromMap_running hmax h
  | allocFrame _ ih => exact ih.allocFrame
  | freeFrame _ addr ih => exact ih.freeFrame addr
  | reserveRange _ base length ih => exact ih.reserveRange base length

/-- **The frame allocator is a set of free frames with lowest-first allocation.**  The counters
count the set, frame 0 is not in it and no frame below the hint is; allocation takes the least
element and nothing else, or fails if there is none, and its second scan finds nothing; and freeing
succeeds for the page addresses of used frames other than 0, and clears their bit. -/
theorem pmm_refines (h : Reaches s) :
    s.freeFrames = (freeSet s).card ∧ s.usedFrames = s.frameCount - s.freeFrames ∧
      0 ∉ freeSet s ∧ (∀ f, f < s.nextHint → Bitmap.test s.bitmap f = true) ∧
      ((List.range s.nextHint).find? fun f ↦ !Bitmap.test s.bitmap f) = none ∧
      ((allocFrame s).1 = invalidFrame ↔ freeSet s = ∅) ∧
      (freeSet s = ∅ → (allocFrame s).2 = s) ∧
      (∀ f ∈ freeSet s, (∀ f' ∈ freeSet s, f ≤ f') →
        (allocFrame s).1 = f * pageSize ∧ ∀ j, Bitmap.test (allocFrame s).2.bitmap j
          = (decide (j = f) || Bitmap.test s.bitmap j)) ∧
      (∀ addr, ((freeFrame addr s).1 = true ↔ Freeable s addr) ∧
        (Freeable s addr → ∀ j, Bitmap.test (freeFrame addr s).2.bitmap j
          = (!decide (j = addr / pageSize) && Bitmap.test s.bitmap j)) ∧
        (¬ Freeable s addr → (freeFrame addr s).2 = s)) := by
  have hs := h.running
  refine ⟨hs.free, ?_, hs.zero, hs.hint, ?_, ?_, fun hempty ↦ ?_, fun f hm hmin ↦ ?_,
    fun addr ↦ ⟨?_, fun hf j ↦ ?_, fun hf ↦ ?_⟩⟩
  · have := hs.used
    omega
  · refine List.find?_eq_none.2 fun f hf ↦ ?_
    rw [hs.hint f (List.mem_range.1 hf)]
    decide
  · obtain ⟨hempty, heq⟩ | ⟨f, hm, -, heq⟩ := hs.allocFrame_eq
    · exact iff_of_true (by rw [heq]) hempty
    · refine iff_of_false ?_ (Finset.ne_empty_of_mem hm)
      have h1 := (mem_freeSet.1 hm).1
      have h2 := hs.frameCount_lt
      rw [heq, takeFrame]
      simp only [pageSize, invalidFrame]
      omega
  · obtain ⟨-, heq⟩ | ⟨f, hm, -⟩ := hs.allocFrame_eq
    · rw [heq]
    · exact absurd hempty (Finset.ne_empty_of_mem hm)
  · obtain ⟨hempty, -⟩ | ⟨f', hm', hmin', heq⟩ := hs.allocFrame_eq
    · exact absurd hempty (Finset.ne_empty_of_mem hm)
    · obtain rfl : f = f' := le_antisymm (hmin f' hm') (hmin' f hm)
      rw [heq]
      exact ⟨rfl, test_takeFrame hm⟩
  · by_cases hf : Freeable s addr
    · exact iff_of_true (by rw [hs.freeFrame_of_freeable hf]) hf
    · exact iff_of_false (by rw [hs.freeFrame_of_not_freeable hf]; exact Bool.false_ne_true) hf
  · have hlt : addr / pageSize < s.frameCount := by
      have h1 := hs.phys
      have h2 := hf.2.2.1
      simp only [pageSize] at *
      omega
    rw [hs.freeFrame_of_freeable hf, markFrameFree_of_used hlt hf.2.2.2]
    dsimp only
    rw [Bitmap.test_clear, decide_eq_decide.2 eq_comm]
  · rw [hs.freeFrame_of_not_freeable hf]

/-- Four frames, the last two of them usable: the first allocation gets frame 2. -/
theorem pmm_refines_four_frames :
    ∃ s, initFromMap [⟨8192, 8192, 1⟩] (fun _ ↦ 0) 1 16384 = some s ∧ (allocFrame s).1 = 8192 ∧
      s.freeFrames = (freeSet s).card := by
  have hinit : (initFromMap [⟨8192, 8192, 1⟩] (fun _ ↦ 0) 1 16384).map (fun s ↦ (allocFrame s).1)
      = some 8192 := by decide +kernel
  obtain ⟨s, hs, halloc⟩ := Option.map_eq_some_iff.1 hinit
  exact ⟨s, hs, halloc, (pmm_refines (.init (by decide) hs)).1⟩

end Pmm
end Mcsos
