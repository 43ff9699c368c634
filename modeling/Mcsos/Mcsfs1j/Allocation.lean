import Mcsos.Mcsfs1j.CrashAtomicity
import Mathlib.Data.Finset.Card
import Mathlib.Data.Set.Function
import Mathlib.Order.Interval.Finset.Nat

/-!
# Allocation across crashes

The two transactions of a creation commit separately.  A crash between them leaves an inode and a
block that are marked but belong to no file, and they stay marked for good.  `Accounted B n` says
that there are exactly `n` such inodes and `n` such blocks: the first transaction raises the number
by one, the second lowers it again, so that it never exceeds the number of creations that were cut
off.
-/

set_option autoImplicit false

namespace Mcsos
namespace M16

open Bytes WriteLog Program

/-! ## What is allocated -/

/-- The directory slots in use. -/
def liveSlots (B : ℕ → Block) : Finset ℕ :=
  (Finset.range direntCount).filter fun i ↦ Dirent.used (B rootDirLba) i ≠ 0

/-- The inodes that are marked, but for that of the root directory. -/
def allocatedInodes (B : ℕ → Block) : Finset ℕ :=
  (Finset.Ico 1 maxInodes).filter fun i ↦ (B inodeBitmapLba).bitTest i = true

/-- The data blocks that are marked. -/
def allocatedBlocks (B : ℕ → Block) : Finset ℕ :=
  (Finset.Ico dataStartLba maxBlocks).filter fun b ↦ (B blockBitmapLba).bitTest b = true

/-- The name in a directory slot. -/
def nameAt (B : ℕ → Block) (i : ℕ) : List UInt8 :=
  (List.range (strnlen (Dirent.name (B rootDirLba) i) maxName)).map (Dirent.name (B rootDirLba) i)

/-- The data block of the file in a directory slot. -/
def blockAt (B : ℕ → Block) (i : ℕ) : ℕ := (inodeTable B).direct (inoAt B i)

/-- The files have names, inodes and blocks of their own, and `n` inodes and `n` blocks are marked
without belonging to any of them. -/
structure Accounted (B : ℕ → Block) (n : ℕ) : Prop where
  ok : FsOk B
  ino_pos : ∀ i ∈ liveSlots B, 0 < inoAt B i
  name_inj : Set.InjOn (nameAt B) (liveSlots B)
  ino_inj : Set.InjOn (inoAt B) (liveSlots B)
  block_inj : Set.InjOn (blockAt B) (liveSlots B)
  inodes_card : (allocatedInodes B).card = (liveSlots B).card + n
  blocks_card : (allocatedBlocks B).card = (liveSlots B).card + n

variable {B B' B₁ B₂ : ℕ → Block} {ino blk slot size n i : ℕ} {name : CString} {dataBlk : Block}

theorem mem_liveSlots : i ∈ liveSlots B ↔ i < direntCount ∧ Dirent.used (B rootDirLba) i ≠ 0 := by
  rw [liveSlots, Finset.mem_filter, Finset.mem_range]

theorem FsOk.entry_of_mem (hB : FsOk B) (hi : i ∈ liveSlots B) : EntryOk B i :=
  hB.entry i (mem_liveSlots.1 hi).1 (mem_liveSlots.1 hi).2

theorem Accounted.congr (hB : Accounted B n) (h : AgreeOn IsHome B B') : Accounted B' n := by
  have h1 := h inodeBitmapLba (isHome_of_ge le_rfl)
  have h2 := h blockBitmapLba (isHome_of_ge (by decide))
  have h3 := inodeTable_congr h
  have h4 := h rootDirLba (isHome_of_ge (by decide))
  have hlive : liveSlots B' = liveSlots B := by rw [liveSlots, liveSlots, h4]
  have hino : inoAt B' = inoAt B := by funext i; rw [inoAt, inoAt, h4]
  have hname : nameAt B' = nameAt B := by funext i; rw [nameAt, nameAt, h4]
  have hblock : blockAt B' = blockAt B := by funext i; rw [blockAt, blockAt, h3, hino]
  refine ⟨hB.ok.congr h, ?_, ?_, ?_, ?_, ?_, ?_⟩
  · rw [hlive, hino]; exact hB.ino_pos
  · rw [hlive, hname]; exact hB.name_inj
  · rw [hlive, hino]; exact hB.ino_inj
  · rw [hlive, hblock]; exact hB.block_inj
  · rw [hlive, allocatedInodes, ← h1]; exact hB.inodes_card
  · rw [hlive, allocatedBlocks, ← h2]; exact hB.blocks_card

/-! ## The first transaction -/

/-- Marking a free bit adds one to the number of those marked. -/
theorem card_filter_bitSet {b : Block} {s : Finset ℕ} {j : ℕ} (hj : j ∈ s) (hlt : j / 8 < blockSize)
    (hfree : b.bitTest j = false) :
    (s.filter fun k ↦ (b.bitSet j).bitTest k = true).card
      = (s.filter fun k ↦ b.bitTest k = true).card + 1 := by
  have hinsert : (s.filter fun k ↦ (b.bitSet j).bitTest k = true)
      = insert j (s.filter fun k ↦ b.bitTest k = true) := by
    ext k
    rw [Finset.mem_filter, Finset.mem_insert, Finset.mem_filter, Buf.bitTest_bitSet hlt,
      Bool.or_eq_true, decide_eq_true_iff]
    constructor
    · rintro ⟨hk, rfl | hb⟩
      · exact .inl rfl
      · exact .inr ⟨hk, hb⟩
    · rintro (rfl | ⟨hk, hb⟩)
      · exact ⟨hj, .inl rfl⟩
      · exact ⟨hk, .inr hb⟩
  rw [hinsert]
  refine Finset.card_insert_of_notMem fun hmem ↦ ?_
  exact Bool.false_ne_true (hfree.symm.trans (Finset.mem_filter.1 hmem).2)

section Metadata

variable (hm : Metadata B B₁ ino blk size) (hf : Free B ino blk slot)

include hm hf

theorem Metadata.card_allocatedInodes :
    (allocatedInodes B₁).card = (allocatedInodes B).card + 1 := by
  have hlt := hf.ino_lt
  rw [allocatedInodes, hm.inodeBitmap]
  exact card_filter_bitSet (Finset.mem_Ico.2 ⟨hf.ino_pos, hlt⟩)
    (by simp only [maxInodes, blockSize] at *; omega) hf.ino_free

theorem Metadata.card_allocatedBlocks :
    (allocatedBlocks B₁).card = (allocatedBlocks B).card + 1 := by
  have hlt := hf.blk_lt
  rw [allocatedBlocks, hm.blockBitmap]
  exact card_filter_bitSet (Finset.mem_Ico.2 ⟨hf.blk_ge, hlt⟩)
    (by simp only [maxBlocks, blockSize] at *; omega) hf.blk_free

/-- The first transaction marks an inode and a block that belong to no file. -/
theorem Metadata.accounted (hB : Accounted B n) : Accounted B₁ (n + 1) := by
  have hdir : B₁ rootDirLba = B rootDirLba := hm.rest _ le_rfl
  have hlive : liveSlots B₁ = liveSlots B := by rw [liveSlots, liveSlots, hdir]
  have hino : inoAt B₁ = inoAt B := by funext i; rw [inoAt, inoAt, hdir]
  have hname : nameAt B₁ = nameAt B := by funext i; rw [nameAt, nameAt, hdir]
  have hblock : ∀ i ∈ liveSlots B, blockAt B₁ i = blockAt B i := fun i hi ↦ by
    have he := hB.ok.entry_of_mem hi
    rw [blockAt, blockAt, hino, (hm.inode_eq he.ino_lt (hf.ino_ne he)).2.2.2]
  refine ⟨hm.fsOk hf hB.ok, ?_, ?_, ?_, ?_, ?_, ?_⟩
  · rw [hlive, hino]; exact hB.ino_pos
  · rw [hlive, hname]; exact hB.name_inj
  · rw [hlive, hino]; exact hB.ino_inj
  · rw [hlive]
    exact hB.block_inj.congr fun i hi ↦ (hblock i (Finset.mem_coe.1 hi)).symm
  · rw [hlive, hm.card_allocatedInodes hf, hB.inodes_card, Nat.add_assoc]
  · rw [hlive, hm.card_allocatedBlocks hf, hB.blocks_card, Nat.add_assoc]

end Metadata

/-! ## The second transaction -/

/-- A function that is one to one on `s` stays so when it gets a new value at a new place. -/
theorem injOn_insert {α β : Type} [DecidableEq α] {f g : α → β} {s : Finset α} {a : α}
    (ha : a ∉ s) (hf : Set.InjOn f s) (hg : ∀ x ∈ s, g x = f x) (hnew : ∀ x ∈ s, f x ≠ g a) :
    Set.InjOn g (insert a s : Finset α) := by
  rw [Finset.coe_insert, Set.injOn_insert ha]
  refine ⟨hf.congr fun x hx ↦ (hg x hx).symm, ?_⟩
  rintro ⟨x, hx, he⟩
  exact hnew x hx ((hg x hx).symm.trans he)

/-- Two terminated names with the same bytes are the same string. -/
theorem streq_of_map_eq {f : ℕ → UInt8} {s : CString} (hf : strnlen f maxName < maxName)
    (h : (List.range (strnlen f maxName)).map f
      = (List.range s.length).map s.view) : streq f s.view = true := by
  have hlen : strnlen f maxName = s.length := by simpa using congrArg List.length h
  rw [streq_iff hf]
  intro j hj
  rcases Nat.eq_or_lt_of_le hj with rfl | hlt
  · rw [eq_zero_of_strnlen_lt hf, CString.view_eq_zero hlen.ge]
  · rw [hlen] at h hlt
    have := List.map_inj_left.1 h j (List.mem_range.2 hlt)
    exact this

section Contents

variable (hcr : Creation name dataBlk size ino blk slot B B₁ B₂)

include hcr

theorem Creation.liveSlots_eq (hB : FsOk B) : liveSlots B₂ = insert slot (liveSlots B₁) := by
  have hr := hcr.ready hB
  ext i
  rw [Finset.mem_insert, mem_liveSlots, mem_liveSlots]
  by_cases hi : i = slot
  · subst hi
    simp only [true_or, iff_true]
    exact ⟨hr.slot_lt, by rw [(hcr.contents.dirent_slot hr).1]; decide⟩
  · rw [(hcr.contents.dirent_of_ne hi).1]
    simp [hi]

theorem Creation.slot_not_mem : slot ∉ liveSlots B₁ := by
  rw [mem_liveSlots, hcr.dir_eq]
  exact fun h ↦ h.2 hcr.free.slot_free

theorem Creation.nameAt_slot (hB : FsOk B) :
    nameAt B₂ slot = (List.range name.length).map name.view := by
  have hr := hcr.ready hB
  have hlen : strnlen name.view maxName = name.length := by
    rw [CString.strnlen_view, min_eq_left hcr.length_lt.le]
  rw [nameAt, hcr.contents.strnlen_slot hr, hlen]
  refine List.map_congr_left fun k hk ↦ ?_
  have hk := List.mem_range.1 hk
  rw [(hcr.contents.dirent_slot hr).2.2 k (hk.trans hcr.length_lt), hlen, if_pos hk]

theorem Creation.nameAt_of_ne (h : i ≠ slot) : nameAt B₂ i = nameAt B₁ i := by
  have hname := (hcr.contents.dirent_of_ne h).2.2
  have hl := strnlen_congr hname
  rw [nameAt, nameAt, hl]
  refine List.map_congr_left fun k hk ↦ hname k ?_
  exact lt_of_lt_of_le (List.mem_range.1 hk) (strnlen_le _ _)

/-- The new name is not the name of any file. -/
theorem Creation.nameAt_ne (hB : FsOk B) (hi : i ∈ liveSlots B₁) :
    nameAt B₁ i ≠ (List.range name.length).map name.view := by
  rw [nameAt, hcr.dir_eq]
  rw [mem_liveSlots, hcr.dir_eq] at hi
  intro h
  have hstreq := streq_of_map_eq (hB.entry i hi.1 hi.2).name_lt h
  have hnone := Search.of_find?_range_none hcr.new hi.1
  rw [hstreq, Bool.and_true, bne_eq_false_iff_eq] at hnone
  exact hi.2 hnone

/-- The second transaction makes a file of the inode and the block that the first has marked. -/
theorem Creation.accounted₂ (hB : Accounted B n) : Accounted B₂ n := by
  have hr := hcr.ready hB.ok
  have h₁ := hcr.metadata.accounted hcr.free hB
  have hnot := hcr.slot_not_mem
  have hne : ∀ i ∈ liveSlots B₁, i ≠ slot := fun i hi he ↦ hnot (he ▸ hi)
  have hslot := hcr.contents.dirent_slot hr
  have ht := hcr.contents.inodeTable_eq hr
  have hino : ∀ i ∈ liveSlots B₁, inoAt B₂ i = inoAt B₁ i := fun i hi ↦
    (hcr.contents.dirent_of_ne (hne i hi)).2.1
  have hentry : ∀ i ∈ liveSlots B₁, EntryOk B i ∧ inoAt B₁ i = inoAt B i := fun i hi ↦ by
    rw [mem_liveSlots, hcr.dir_eq] at hi
    exact ⟨hB.ok.entry i hi.1 hi.2, by rw [inoAt, inoAt, hcr.dir_eq]⟩
  have hcard : (liveSlots B₂).card = (liveSlots B₁).card + 1 := by
    rw [hcr.liveSlots_eq hB.ok, Finset.card_insert_of_notMem hnot]
  refine ⟨hcr.fsOk₂ hB.ok, fun i hi ↦ ?_, ?_, ?_, ?_, ?_, ?_⟩
  · rw [hcr.liveSlots_eq hB.ok, Finset.mem_insert] at hi
    rcases hi with rfl | hi
    · rw [hslot.2.1]
      exact hcr.free.ino_pos
    · rw [hino i hi]
      exact h₁.ino_pos i hi
  · rw [hcr.liveSlots_eq hB.ok]
    refine injOn_insert hnot h₁.name_inj (fun i hi ↦ hcr.nameAt_of_ne (hne i hi)) fun i hi ↦ ?_
    rw [hcr.nameAt_slot hB.ok]
    exact hcr.nameAt_ne hB.ok hi
  · rw [hcr.liveSlots_eq hB.ok]
    refine injOn_insert hnot h₁.ino_inj hino fun i hi ↦ ?_
    rw [hslot.2.1, (hentry i hi).2]
    exact hcr.free.ino_ne (hentry i hi).1
  · rw [hcr.liveSlots_eq hB.ok]
    refine injOn_insert hnot h₁.block_inj (fun i hi ↦ by rw [blockAt, blockAt, ht, hino i hi])
      fun i hi ↦ ?_
    rw [blockAt, blockAt, ht, hslot.2.1, hr.direct_eq]
    exact hr.blk_ne i (mem_liveSlots.1 hi).1 (mem_liveSlots.1 hi).2
  · rw [allocatedInodes, hcr.contents.inodeBitmap_eq hr, hcard]
    have := h₁.inodes_card
    rw [allocatedInodes] at this
    omega
  · rw [allocatedBlocks, hcr.contents.blockBitmap_eq hr, hcard]
    have := h₁.blocks_card
    rw [allocatedBlocks] at this
    omega

end Contents

/-! ## Runs -/

/-- After recovery, the device will have `n` inodes and `n` blocks that belong to no file. -/
def Lost (d : Blockdev) (n : ℕ) : Prop :=
  d.totalBlocks = maxBlocks ∧ ∃ B, Logical d.blocks B ∧ Accounted B n

/-- The devices reached from a successful format by creations, each of which may find that the
device accepts only so many more writes, with the number of creations that were cut off. -/
inductive Creating : Blockdev → ℕ → Prop
  | format (k : ℤ) {d : Blockdev} (h : format (devInit.withFailAfter k) = .ok () d) : Creating d 0
  | create (name : CString) (data : ℕ → UInt8) (size : ℕ) (stop k : ℤ) {d : Blockdev} {cut : ℕ}
      (h : Creating d cut) :
      Creating (after (writeFileEx name.view data size stop) (d.withFailAfter k))
        (if errorOf (writeFileEx name.view data size stop) (d.withFailAfter k) = some .io
          then cut + 1 else cut)

theorem writeFileEx_lost {d : Blockdev} (hd : Lost d n) (name : CString) (data : ℕ → UInt8)
    (size : ℕ) (stop : ℤ) :
    Lost (after (writeFileEx name.view data size stop) d) n ∨
      errorOf (writeFileEx name.view data size stop) d = some .io ∧
        Lost (after (writeFileEx name.view data size stop) d) (n + 1) := by
  obtain ⟨h128, B, hl, hB⟩ := hd
  have hspec := writeFileEx_spec h128 hl hB.ok name data size stop
  cases hrun : writeFileEx name.view data size stop d with
  | ok u d' =>
    rw [after_of_ok hrun]
    obtain ⟨h1, B₁, B₂, ⟨ino, blk, slot, hcr⟩, hl'⟩ := hspec.of_eq_ok hrun
    exact .inl ⟨h1, B₂, hl', hcr.accounted₂ hB⟩
  | error e d' =>
    rw [after_of_error hrun, errorOf_of_error hrun]
    obtain ⟨h1, hl' | ⟨rfl, B₁, B₂, ⟨ino, blk, slot, hcr⟩, hl' | hl'⟩⟩ := hspec.of_eq_error hrun
    · exact .inl ⟨h1, B, hl', hB⟩
    · exact .inr ⟨rfl, h1, B₁, hl', hcr.metadata.accounted hcr.free hB⟩
    · exact .inl ⟨h1, B₂, hl', hcr.accounted₂ hB⟩

theorem liveSlots_formatWrites (n : ℕ) (B : ℕ → Block) :
    liveSlots (applyAll (formatWrites n) B) = ∅ :=
  Finset.filter_eq_empty_iff.2 fun i _ hu ↦ hu (dirent_used_zero i)

theorem allocatedBlocks_formatWrites (n : ℕ) (B : ℕ → Block) :
    allocatedBlocks (applyAll (formatWrites n) B) = ∅ := by
  refine Finset.filter_eq_empty_iff.2 fun b hb ↦ ?_
  show ¬ formatBlockBitmap.bitTest b = true
  rw [formatBlockBitmap_marked, not_lt]
  exact (Finset.mem_Ico.1 hb).1

/-- A fresh file system has nothing allocated. -/
theorem accounted_formatWrites (n : ℕ) (B : ℕ → Block) :
    Accounted (applyAll (formatWrites n) B) 0 := by
  have hlive := liveSlots_formatWrites n B
  have hinodes : allocatedInodes (applyAll (formatWrites n) B) = ∅ := by
    refine Finset.filter_eq_empty_iff.2 fun i hi ↦ ?_
    show ¬ ((Buf.zero blockSize).bitSet 0).bitTest i = true
    rw [Buf.bitTest_bitSet (by decide), Buf.bitTest_zero, Bool.or_false, decide_eq_true_iff]
    exact (Nat.lt_of_succ_le (Finset.mem_Ico.1 hi).1).ne
  refine ⟨fsOk_formatWrites n B, ?_, ?_, ?_, ?_, ?_, ?_⟩
  · simp [hlive]
  · simp [hlive]
  · simp [hlive]
  · simp [hlive]
  · rw [hlive, hinodes, Nat.add_zero]
  · rw [hlive, allocatedBlocks_formatWrites, Nat.add_zero]

theorem lost_of_format {d d' : Blockdev} (h128 : d.totalBlocks = maxBlocks)
    (h : format d = .ok () d') : Lost d' 0 := by
  obtain ⟨h1, hc, hblocks⟩ := blocks_of_format h
  exact ⟨h1.trans h128, d'.blocks, .clear hc (.refl _), hblocks ▸ accounted_formatWrites _ _⟩

theorem Creating.lost {d : Blockdev} {cut : ℕ} (h : Creating d cut) : ∃ n ≤ cut, Lost d n := by
  induction h with
  | format k h => exact ⟨0, le_rfl, lost_of_format rfl h⟩
  | @create name data size stop k d cut _ ih =>
    obtain ⟨n, hn, hd⟩ := ih
    rcases writeFileEx_lost (d := d.withFailAfter k) hd name data size stop with hd' | ⟨hio, hd'⟩
    · exact ⟨n, by split <;> omega, hd'⟩
    · exact ⟨n + 1, by rw [if_pos hio]; omega, hd'⟩

/-- **Allocation is accounted for across crashes.**  On every device that creations and crashes can
lead to, recovery succeeds, and then the files have names, inodes and blocks of their own, all of
them marked; and there are as many marked inodes and blocks as there are files, plus at most one
for every creation that was cut off. -/
theorem allocation_accounted {d : Blockdev} {cut : ℕ} (h : Creating d cut) :
    ∃ d', journalRecover (d.withFailAfter (-1)) = .ok () d' ∧
      (∀ i ∈ liveSlots d'.blocks, 1 ≤ inoAt d'.blocks i ∧ inoAt d'.blocks i < 16 ∧
        (d'.blocks inodeBitmapLba).bitTest (inoAt d'.blocks i) = true ∧
        25 ≤ blockAt d'.blocks i ∧ blockAt d'.blocks i < 128 ∧
        (d'.blocks blockBitmapLba).bitTest (blockAt d'.blocks i) = true) ∧
      Set.InjOn (nameAt d'.blocks) (liveSlots d'.blocks) ∧
      Set.InjOn (inoAt d'.blocks) (liveSlots d'.blocks) ∧
      Set.InjOn (blockAt d'.blocks) (liveSlots d'.blocks) ∧
      ∃ n ≤ cut, (allocatedInodes d'.blocks).card = (liveSlots d'.blocks).card + n ∧
        (allocatedBlocks d'.blocks).card = (liveSlots d'.blocks).card + n := by
  obtain ⟨n, hn, h128, B, hl, hB⟩ := h.lost
  rcases journalRecover_cases (d := d.withFailAfter (-1)) h128 hl with
    ⟨d', hr, -, -, ha, -⟩ | ⟨hneg, -⟩
  · have hB' := hB.congr ha.symm
    refine ⟨d', hr, fun i hi ↦ ?_, hB'.name_inj, hB'.ino_inj, hB'.block_inj, n, hn,
      hB'.inodes_card, hB'.blocks_card⟩
    have he := hB'.ok.entry_of_mem hi
    exact ⟨hB'.ino_pos i hi, he.ino_lt, he.ino_marked, he.direct_ge, he.direct_lt,
      he.direct_marked⟩
  · exact absurd hneg (show ¬ (0 : ℤ) ≤ -1 by decide)

/-- A creation on a fresh file system that is cut off after 20 writes: recovery succeeds, and at
most one inode is lost. -/
theorem allocation_accounted_cut_off :
    ∃ d, format (devInit.withFailAfter (-1)) = .ok () d ∧
      ∃ d' n, journalRecover
        ((after (writeFileEx (CString.ofBytes [97]).view (fun _ ↦ 1) 100 0)
          (d.withFailAfter 20)).withFailAfter (-1)) = .ok () d' ∧ n ≤ 1 ∧
        (allocatedInodes d'.blocks).card = (liveSlots d'.blocks).card + n := by
  obtain ⟨d, h⟩ := exists_format_eq_ok (d := devInit.withFailAfter (-1)) (by decide) (by decide)
  obtain ⟨d', hr, -, -, -, -, n, hn, hcard, -⟩ := allocation_accounted
    (.create (.ofBytes [97]) (fun _ ↦ 1) 100 0 20 (.format (-1) h))
  refine ⟨d, h, d', n, hr, hn.trans ?_, hcard⟩
  split <;> decide

end M16
end Mcsos
