import Mcsos.Mcsfs1.Refinement

/-!
# MCSFS1: nothing is lost

`Inv` says that what is in use is marked.  `Exact` is the converse: what is marked is in use, and
what is not in use is blank.  On a healthy device only one thing can break it, a write that runs out
of space after it has marked some blocks.  Without such a write, every call keeps `Exact`.

The two invariants leave no room for anything else in the metadata: two disks that satisfy them and
have no entries are equal there (`Exact.eq_of_empty`).  A disk that has just been formatted is one.
-/

set_option autoImplicit false

namespace Mcsos
namespace Mcsfs1

open Bytes Program

variable {n : ℕ} {dev : Blkdev} {B B' : ℕ → Block} {i slot ino : ℕ}

/-! ## The invariant -/

/-- No live entry has this inode. -/
def Idle (B : ℕ → Block) (ino : ℕ) : Prop := ∀ i, Live B i → slotIno B i ≠ ino

/-- Block `b` belongs to a file. -/
def Owned (B : ℕ → Block) (b : ℕ) : Prop :=
  ∃ i, Live B i ∧ ∃ j, j < directBlocks ∧ blockOf B i j ≠ 0 ∧ blockOf B i j = b

/-- The bytes behind the inodes of a block of the inode table. -/
abbrev paddingStart : ℕ := inodesPerBlock * inodeSize

/-- What is marked is in use, and what is not in use is blank. -/
structure Exact (B : ℕ → Block) : Prop where
  blocks : ∀ b, (B blockBmapLba).bitTest b = true → b < dataStartLba ∨ Owned B b
  inodes : ∀ k, (B inodeBmapLba).bitTest k = true → k = 0 ∨ k = rootIno ∨ ¬ Idle B k
  zero_marked : (B inodeBmapLba).bitTest 0 = true
  inode_blank : ∀ k, FileIno k → Idle B k → inodeAt B k = Buf.zero inodeSize
  padding : ∀ x, inodeTableLba ≤ x → x < rootDirLba → ∀ k, paddingStart ≤ k → (B x).get k = 0
  slot_blank : ∀ i, i < direntCount → slotIno B i = 0 → ∀ k, k < direntSize →
    (B rootDirLba).get (i * direntSize + k) = 0

/-- A block of a file that has stayed where it was. -/
theorem owned_of_blockOf_eq {j : ℕ} (hl : Live B' i) (hj : j < directBlocks)
    (hz : blockOf B i j ≠ 0) (h : blockOf B' i j = blockOf B i j) : Owned B' (blockOf B i j) := by
  rw [← h] at hz ⊢
  exact ⟨i, hl, j, hj, hz, rfl⟩

/-- An inode that an entry had is not idle as long as the entry is there. -/
theorem not_idle_of_live {k : ℕ} (hk : ¬ Idle B k)
    (h : ∀ i, Live B i → slotIno B i = k → Live B' i ∧ slotIno B' i = slotIno B i) :
    ¬ Idle B' k := by
  intro hidle
  refine hk fun i hi he ↦ ?_
  obtain ⟨hi', heq⟩ := h i hi he
  exact hidle i hi' (heq.trans he)

/-- Replacing an inode leaves the bytes behind the inodes alone. -/
theorem setInode_padding {inode : Inode} {x k : ℕ} (hk : paddingStart ≤ k) :
    (setInode B ino inode x).get k = (B x).get k := by
  rw [setInode]
  by_cases hx : x = inodeLba ino
  · have hoff : (ino - 1) % inodesPerBlock < inodesPerBlock := Nat.mod_lt _ (by decide)
    simp only [paddingStart, inodesPerBlock, inodeSize, blockSize] at hk hoff
    rw [hx, Function.update_self, Buf.get_copy_of_not_mem]
    simp only [inodeOff, inodesPerBlock, inodeSize, blockSize]
    omega
  · rw [Function.update_of_ne hx]

/-! ## A disk without entries -/

/-- Every byte of the inode table belongs to an inode or to the padding. -/
theorem table_ext {x : ℕ} (h1 : inodeTableLba ≤ x) (h2 : x < rootDirLba)
    (hinode : ∀ k, 0 < k → k ≤ maxInodes → inodeAt B k = inodeAt B' k)
    (hpad : ∀ k, paddingStart ≤ k → (B x).get k = (B' x).get k) : B x = B' x := by
  refine Buf.ext_get fun k hk ↦ ?_
  by_cases hp : paddingStart ≤ k
  · exact hpad k hp
  simp only [inodeTableLba, rootDirLba, paddingStart, inodesPerBlock, blockSize, inodeSize] at *
  -- the inode that byte `k` of block `x` belongs to
  have hlba : inodeLba ((x - 3) * 8 + k / 60 + 1) = x := by
    simp only [inodeLba, inodeTableLba, inodesPerBlock, blockSize, inodeSize]; omega
  have hoff : inodeOff ((x - 3) * 8 + k / 60 + 1) + k % 60 = k := by
    simp only [inodeOff, inodesPerBlock, blockSize, inodeSize]; omega
  have hbyte := congrArg (Buf.get · (k % 60)) (hinode ((x - 3) * 8 + k / 60 + 1) (by omega)
    (by simp only [maxInodes]; omega))
  have hlt : k % 60 < inodeSize := Nat.mod_lt _ (by decide)
  simpa only [inodeAt, inodeIn_get hlt, hlba, hoff] using hbyte

theorem dir_ext {dir dir' : Block} (h : ∀ i, i < direntCount → ∀ k, k < direntSize →
    dir.get (i * direntSize + k) = dir'.get (i * direntSize + k)) : dir = dir' := by
  refine Buf.ext_get fun k hk ↦ ?_
  have hbyte := h (k / direntSize) (Nat.div_lt_of_lt_mul hk) (k % direntSize)
    (Nat.mod_lt _ (by decide))
  rwa [Nat.div_add_mod'] at hbyte

section Empty

variable (h : Exact B) (hinv : Inv n B) (hempty : ∀ i, ¬ Live B i)

theorem idle_of_empty (hempty : ∀ i, ¬ Live B i) (k : ℕ) : Idle B k := fun i hi ↦
  absurd hi (hempty i)

include h hinv hempty

/-- Without entries the marked blocks are those of the metadata. -/
theorem Exact.blocks_of_empty (b : ℕ) :
    (B blockBmapLba).bitTest b = true ↔ b < dataStartLba := by
  refine ⟨fun hb ↦ (h.blocks b hb).resolve_right ?_, hinv.reserved b⟩
  rintro ⟨i, hi, -⟩
  exact hempty i hi

/-- Without entries the marked inodes are those of the file system itself. -/
theorem Exact.inodes_of_empty (k : ℕ) :
    (B inodeBmapLba).bitTest k = true ↔ k = 0 ∨ k = rootIno := by
  constructor
  · intro hk
    rcases h.inodes k hk with h0 | h1 | hbusy
    · exact .inl h0
    · exact .inr h1
    · exact absurd (idle_of_empty hempty k) hbusy
  · rintro (rfl | rfl)
    · exact h.zero_marked
    · exact hinv.root_marked

omit hinv in
theorem Exact.slot_of_empty (hi : i < direntCount) {k : ℕ} (hk : k < direntSize) :
    (B rootDirLba).get (i * direntSize + k) = 0 :=
  h.slot_blank i hi (by_contra fun h0 ↦ hempty i ⟨hi, h0⟩) k hk

end Empty

/-- **There is only one empty file system**, as far as the metadata goes. -/
theorem Exact.eq_of_empty (h : Exact B) (h' : Exact B') (hinv : Inv n B) (hinv' : Inv n B')
    (hempty : ∀ i, ¬ Live B i) (hempty' : ∀ i, ¬ Live B' i) {x : ℕ} (hx : x < dataStartLba) :
    B x = B' x := by
  have hnode : ∀ k, 0 < k → k ≤ maxInodes → inodeAt B k = inodeAt B' k := by
    intro k h0 h32
    by_cases hroot : k = rootIno
    · rw [hroot, hinv.root, hinv'.root]
    · have hfile : FileIno k := ⟨by simp only [rootIno] at hroot; omega, h32⟩
      rw [h.inode_blank k hfile (idle_of_empty hempty k),
        h'.inode_blank k hfile (idle_of_empty hempty' k)]
  have hcases : x = sbLba ∨ x = inodeBmapLba ∨ x = blockBmapLba ∨
      (inodeTableLba ≤ x ∧ x < rootDirLba) ∨ x = rootDirLba := by
    simp only [sbLba, inodeBmapLba, blockBmapLba, inodeTableLba, rootDirLba, dataStartLba] at *
    omega
  rcases hcases with rfl | rfl | rfl | ⟨h1, h2⟩ | rfl
  · rw [hinv.super, hinv'.super]
  · refine Buf.ext_bitTest fun k ↦ Bool.eq_iff_iff.2 ?_
    rw [h.inodes_of_empty hinv hempty, h'.inodes_of_empty hinv' hempty']
  · refine Buf.ext_bitTest fun b ↦ Bool.eq_iff_iff.2 ?_
    rw [h.blocks_of_empty hinv hempty, h'.blocks_of_empty hinv' hempty']
  · refine table_ext h1 h2 hnode fun k hk ↦ ?_
    rw [h.padding x h1 h2 k hk, h'.padding x h1 h2 k hk]
  · refine dir_ext fun i hi k hk ↦ ?_
    rw [h.slot_of_empty hempty hi hk, h'.slot_of_empty hempty' hi hk]

/-! ## A fresh disk -/

theorem inodeAt_of_zero (h : B (inodeLba ino) = Buf.zero blockSize) :
    inodeAt B ino = Buf.zero inodeSize := by
  refine Buf.ext_get fun k hk ↦ ?_
  rw [inodeAt, h, inodeIn_get hk, Buf.get_zero, Buf.get_zero]

theorem exact_formatted (hB : ∀ x, x < minBlocks → B x = Buf.zero blockSize) :
    Exact (formatted n B) := by
  have h7 : formatted n B rootDirLba = Buf.zero blockSize := formatted_rootDir (hB _ (by decide))
  have hib : formatted n B inodeBmapLba = formatInodeBmap := by
    rw [formatted_of_not_table (.inl (by decide)), Function.update_of_ne (by decide),
      Function.update_self]
  have hbb : formatted n B blockBmapLba = formatBlockBmap := by
    rw [formatted_of_not_table (.inl (by decide)), Function.update_self]
  have htable : ∀ x, inodeTableLba ≤ x → x < rootDirLba → Function.update (Function.update
      (Function.update B sbLba (superBlock n)) inodeBmapLba formatInodeBmap) blockBmapLba
      formatBlockBmap x = Buf.zero blockSize := by
    intro x h1 h2
    rw [Function.update_of_ne (lt_of_lt_of_le (by decide) h1).ne',
      Function.update_of_ne (lt_of_lt_of_le (by decide) h1).ne',
      Function.update_of_ne (lt_of_lt_of_le (by decide) h1).ne', hB x (lt_trans h2 (by decide))]
  have hmarked : ∀ k, formatInodeBmap.bitTest k = true ↔ rootIno = k ∨ 0 = k := fun k ↦ by
    rw [formatInodeBmap, bitTest_bitSet_iff (by decide), bitTest_bitSet_iff (by decide),
      Buf.bitTest_zero, Bool.false_eq_true, or_false]
  refine ⟨fun b hb ↦ ?_, fun k hk ↦ ?_, ?_, fun k hk _ ↦ ?_, fun x h1 h2 k hk ↦ ?_,
    fun i _ _ k _ ↦ ?_⟩
  · rw [hbb] at hb
    exact .inl (formatBlockBmap_marked.1 hb)
  · rw [hib] at hk
    rcases (hmarked k).1 hk with h1 | h0
    · exact .inr (.inl h1.symm)
    · exact .inl h0.symm
  · rw [hib]
    exact (hmarked 0).2 (.inr rfl)
  · rw [formatted, inodeAt_setInode_of_ne (by decide) hk.pos hk.ne_root]
    exact inodeAt_of_zero (htable _ (inodeLba_ge k) (inodeLba_lt hk.2))
  · rw [formatted, setInode_padding hk, htable x h1 h2, Buf.get_zero]
  · rw [h7, Buf.get_zero]

theorem exact_of_format {d₀ d₁ : Disk} (hf : format dev d₀ = .ok () d₁) : Exact d₁.blocks := by
  obtain ⟨hn, -, B, hB, hd₁⟩ := (format_ends dev d₀).of_eq_ok hf
  rw [hd₁]
  exact exact_formatted fun x hx ↦ hB x (lt_of_lt_of_le hx hn)

/-! ## Creation -/

section Created

variable {lba len : ℕ} {name : ℕ → UInt8} (hinv : Inv n B) (hf : Fresh n B ino lba)
  (hn : n ≤ blockSize * 8) (hslot : slot < direntCount) (hfree : slotIno B slot = 0)
  (hlen : len ≤ maxName)

include hf hslot in
theorem slotIno_created_self : slotIno (created B slot ino lba name len) slot = ino := by
  rw [slotIno, created_rootDir]
  exact Dirent.ino_set_self hslot (lt_of_le_of_lt hf.file.2 (by decide))

include hlen in
theorem slotIno_created_of_ne (hne : i ≠ slot) :
    slotIno (created B slot ino lba name len) i = slotIno B i := by
  rw [slotIno, created_rootDir]
  exact (Dirent.set_of_ne hne hlen).1

include hf hslot in
theorem live_created_self : Live (created B slot ino lba name len) slot :=
  ⟨hslot, by rw [slotIno_created_self hf hslot]; exact hf.file.pos.ne'⟩

include hlen hfree in
/-- What was live still is. -/
theorem live_created (hl : Live B i) : i ≠ slot ∧ Live (created B slot ino lba name len) i := by
  have hne : i ≠ slot := fun he ↦ hl.2 (he ▸ hfree)
  exact ⟨hne, hl.1, by rw [slotIno_created_of_ne hlen hne]; exact hl.2⟩

include hf in
theorem created_inodeBmap :
    created B slot ino lba name len inodeBmapLba = (B inodeBmapLba).bitSet ino := by
  rw [created, Function.update_of_ne (by decide), prepared_of_not_table hf (.inl (by decide)),
    marked_inodeBmap]

include hf in
theorem created_blockBmap :
    created B slot ino lba name len blockBmapLba = (B blockBmapLba).bitSet lba := by
  rw [created, Function.update_of_ne (by decide), prepared_of_not_table hf (.inl (by decide)),
    marked_blockBmap]

include hf hn hslot in
/-- The new file has one block. -/
theorem blockOf_created_self : blockOf (created B slot ino lba name len) slot 0 = lba := by
  rw [blockOf, slotIno_created_self hf hslot, inodeAt_created hf.file.2, prepared,
    inodeAt_setInode_self]
  exact Inode.direct_make_zero _ _ (lt_of_lt_of_le hf.lba_lt (hn.trans (by decide)))

include hinv hf hfree hlen in
theorem blockOf_created (hl : Live B i) (j : ℕ) :
    blockOf (created B slot ino lba name len) i j = blockOf B i j := by
  have hne : i ≠ slot := fun he ↦ hl.2 (he ▸ hfree)
  rw [blockOf, slotIno_created_of_ne hlen hne, inodeAt_created (hinv.ino i hl).2,
    inodeAt_prepared_of_live hinv hf hl]

include hinv hf hn hslot hfree hlen

/-- **Creation loses nothing.** -/
theorem Exact.created (h : Exact B) : Exact (created B slot ino lba name len) := by
  have hself : slotIno (Mcsfs1.created B slot ino lba name len) slot = ino :=
    slotIno_created_self hf hslot
  have hlive : Live (Mcsfs1.created B slot ino lba name len) slot := live_created_self hf hslot
  have hbusy : ∀ k, ¬ Idle B k → ¬ Idle (Mcsfs1.created B slot ino lba name len) k := by
    refine fun k hk ↦ not_idle_of_live hk fun i hi _ ↦ ?_
    obtain ⟨hne, hi'⟩ := live_created hfree hlen hi
    exact ⟨hi', slotIno_created_of_ne hlen hne⟩
  refine ⟨fun b hb ↦ ?_, fun k hk ↦ ?_, ?_, fun k hk hidle ↦ ?_, fun x h1 h2 k hk ↦ ?_,
    fun i hi h0 k hk ↦ ?_⟩
  · rw [created_blockBmap hf, bitTest_bitSet_iff (lt_of_lt_of_le hf.lba_lt hn)] at hb
    rcases hb with rfl | hb
    · have hblock : blockOf (Mcsfs1.created B slot ino lba name len) slot 0 = lba :=
        blockOf_created_self hf hn hslot
      refine .inr ⟨slot, hlive, 0, by decide, ?_, hblock⟩
      rw [hblock]
      exact (lt_of_lt_of_le (by decide) hf.lba_ge).ne'
    · refine (h.blocks b hb).imp_right ?_
      rintro ⟨i, hi, j, hj, hz, rfl⟩
      exact owned_of_blockOf_eq (live_created hfree hlen hi).2 hj hz
        (blockOf_created hinv hf hfree hlen hi j)
  · rw [created_inodeBmap hf, bitTest_bitSet_iff hf.file.lt_bits] at hk
    rcases hk with rfl | hk
    · exact .inr (.inr fun hidle ↦ hidle slot hlive hself)
    · exact (h.inodes k hk).imp_right (Or.imp_right (hbusy k))
  · rw [created_inodeBmap hf]
    exact bitTest_bitSet_of_true hf.file.lt_bits h.zero_marked
  · have hne : k ≠ ino := fun he ↦ hidle slot hlive (hself.trans he.symm)
    have hidle' : Idle B k := by_contra fun hb ↦ hbusy k hb hidle
    rw [inodeAt_created hk.2, prepared, inodeAt_setInode_of_ne hf.file.pos hk.pos hne,
      inodeAt_congr (fun x h1 _ ↦ marked_of_ge h1) hk.2]
    exact h.inode_blank k hk hidle'
  · rw [Mcsfs1.created, Function.update_of_ne h2.ne, prepared, setInode_padding hk, marked_of_ge h1]
    exact h.padding x h1 h2 k hk
  · have hne : i ≠ slot := by
      rintro rfl
      exact hlive.2 h0
    rw [slotIno_created_of_ne hlen hne] at h0
    rw [created_rootDir, Dirent.get_set_of_ne hne hlen hk]
    exact h.slot_blank i hi h0 k hk

end Created

/-! ## Removal -/

section Removed

variable (hinv : Inv n B) (hl : Live B slot) (hn : n ≤ blockSize * 8)

include hinv hl

theorem live_removed (hi : Live B i) (hne : i ≠ slot) : Live (removed n B slot) i :=
  ⟨hi.1, by rw [slotIno, (entry_removed_of_ne hinv hl hne).1]; exact hi.2⟩

theorem inodeAt_removed_of_ne {k : ℕ} (h0 : 0 < k) (h32 : k ≤ maxInodes)
    (hne : k ≠ slotIno B slot) : inodeAt (removed n B slot) k = inodeAt B k := by
  rw [removed, inodeAt_setInode_of_ne (hinv.ino slot hl).pos h0 hne,
    inodeAt_congr (fun x h1 h2 ↦ ?_) h32]
  rw [blocksFreed_of_ge h1, emptied_of_ne h2.ne]

theorem removed_inodeBmap :
    removed n B slot inodeBmapLba = (B inodeBmapLba).bitClear (slotIno B slot) := by
  rw [removed, setInode_of_not_table (hinv.ino slot hl).2 (.inl (by decide)), blocksFreed,
    Function.update_of_ne (by decide), inodeFreed, Function.update_self]

theorem removed_blockBmap : removed n B slot blockBmapLba
    = clearBlocks (B blockBmapLba) (inodeAt B (slotIno B slot)) n := by
  rw [removed, setInode_of_not_table (hinv.ino slot hl).2 (.inl (by decide)), blocksFreed,
    Function.update_self]

/-- The other files keep their blocks. -/
theorem blockOf_removed (hi : Live B i) (hne : i ≠ slot) (j : ℕ) :
    blockOf (removed n B slot) i j = blockOf B i j := by
  have hino : slotIno B i ≠ slotIno B slot := fun he ↦ hne (hinv.ino_inj i slot hi hl he)
  rw [blockOf, slotIno, (entry_removed_of_ne hinv hl hne).1,
    inodeAt_removed_of_ne hinv hl (hinv.ino i hi).pos (hinv.ino i hi).2 hino]

include hn

/-- **Removal loses nothing.** -/
theorem Exact.removed (h : Exact B) : Exact (removed n B slot) := by
  have hfile := hinv.ino slot hl
  have hbits : slotIno B slot < blockSize * 8 := hfile.lt_bits
  have hbusy : ∀ k, k ≠ slotIno B slot → ¬ Idle B k → ¬ Idle (Mcsfs1.removed n B slot) k := by
    refine fun k hk hb ↦ not_idle_of_live hb fun i hi he ↦ ?_
    have hne : i ≠ slot := fun hs ↦ hk (hs ▸ he.symm)
    exact ⟨live_removed hinv hl hi hne, (entry_removed_of_ne hinv hl hne).1⟩
  refine ⟨fun b hb ↦ ?_, fun k hk ↦ ?_, ?_, fun k hk hidle ↦ ?_, fun x h1 h2 k hk ↦ ?_,
    fun i hi h0 k hk ↦ ?_⟩
  · rw [removed_blockBmap hinv hl, bitTest_clearBlocks hn] at hb
    refine (h.blocks b hb.1).imp_right ?_
    rintro ⟨i, hi, j, hj, hz, rfl⟩
    -- the blocks of the removed file have been cleared, so this one belongs to another
    have hne : i ≠ slot := by
      rintro rfl
      exact hb.2 j hj hz ((hinv.inode i hi).direct_lt j hj hz) rfl
    exact owned_of_blockOf_eq (live_removed hinv hl hi hne) hj hz
      (blockOf_removed hinv hl hi hne j)
  · have hne : k ≠ slotIno B slot := by
      rintro rfl
      rw [removed_inodeBmap hinv hl, bitTest_bitClear_self hbits] at hk
      cases hk
    rw [removed_inodeBmap hinv hl, bitTest_bitClear_of_ne hbits hne] at hk
    exact (h.inodes k hk).imp_right (Or.imp_right (hbusy k hne))
  · rw [removed_inodeBmap hinv hl, bitTest_bitClear_of_ne hbits hfile.pos.ne]
    exact h.zero_marked
  · by_cases hne : k = slotIno B slot
    · rw [hne, Mcsfs1.removed, inodeAt_setInode_self]
    · rw [inodeAt_removed_of_ne hinv hl hk.pos hk.2 hne]
      exact h.inode_blank k hk (by_contra fun hb ↦ hbusy k hne hb hidle)
  · rw [Mcsfs1.removed, setInode_padding hk, blocksFreed_of_ge h1, emptied_of_ne h2.ne]
    exact h.padding x h1 h2 k hk
  · rw [removed_rootDir hinv hl]
    by_cases hne : i = slot
    · have hlt : i * direntSize + k < blockSize := by
        simp only [direntCount, direntSize, blockSize] at *; omega
      rw [hne] at hlt ⊢
      rw [Dirent.clear, Buf.get_copy_of_mem (Nat.le_add_right _ _) (by omega) hlt]
    · rw [slotIno, (entry_removed_of_ne hinv hl hne).1] at h0
      rw [Dirent.get_clear_of_ne hne hk]
      exact h.slot_blank i hi h0 k hk

end Removed

/-! ## Writing -/

/-- **A write that succeeds loses nothing.** -/
theorem Exact.written {buf : ℕ → UInt8} {len : ℕ} {B₁ B₂ B₃ : ℕ → Block} {new : Inode}
    (h : Exact B) (hw : Written n B slot buf len B₁ B₂ B₃ new) (hinv : Inv n B) (hl : Live B slot)
    (hlen : len ≤ directBlocks * blockSize) : Exact B₃ := by
  have hfile := hinv.ino slot hl
  have h7 := hw.rootDir_eq hinv hl hlen
  have hlow : ∀ x, x < inodeTableLba → B₃ x = B₁ x := fun x hx ↦ by
    rw [hw.blocks, setInode_of_not_table hfile.2 (.inl hx),
      hw.meta_eq hlen (lt_trans hx (by decide))]
  have htable : ∀ x, inodeTableLba ≤ x → x < rootDirLba → B₂ x = B x := fun x h1 h2 ↦ by
    rw [hw.meta_eq hlen (lt_trans h2 (by decide)),
      hw.grown.rest x (lt_of_lt_of_le (by decide) h1).ne']
  have hib : B₃ inodeBmapLba = B inodeBmapLba := by
    rw [hlow _ (by decide), hw.grown.rest _ (by decide)]
  have hself : ∀ j, j < directBlocks → blockOf B₃ slot j = new.direct j := fun j hj ↦ by
    rw [blockOf, slotIno_congr h7, hw.blocks, inodeAt_setInode_self, Inode.direct_setSize hj]
  have hother : ∀ k, 0 < k → k ≤ maxInodes → k ≠ slotIno B slot → inodeAt B₃ k = inodeAt B k :=
    fun k h0 h32 hne ↦ by
      rw [hw.blocks, inodeAt_setInode_of_ne hfile.pos h0 hne, inodeAt_congr htable h32]
  have hidle : Idle B₃ = Idle B := by
    funext k
    rw [Idle, Idle, live_congr h7, slotIno_congr h7]
  refine ⟨fun b hb ↦ ?_, ?_, ?_, fun k hk hi ↦ ?_, fun x h1 h2 k hk ↦ ?_, ?_⟩
  · rw [hlow _ (by decide)] at hb
    rcases hw.grown.only b hb with hb | ⟨j, hj, hz, rfl⟩
    · refine (h.blocks b hb).imp_right ?_
      rintro ⟨i, hi, j, hj, hz, rfl⟩
      have hblock : blockOf B₃ i j = blockOf B i j := by
        by_cases hne : i = slot
        · rw [hne] at hz ⊢
          rw [hself j hj, hw.grown.kept j hj hz]
        · have hino : slotIno B i ≠ slotIno B slot := fun he ↦ hne (hinv.ino_inj i slot hi hl he)
          rw [blockOf, slotIno_congr h7, hother _ (hinv.ino i hi).pos (hinv.ino i hi).2 hino]
      exact owned_of_blockOf_eq (live_congr h7 ▸ hi) hj hz hblock
    · exact .inr ⟨slot, live_congr h7 ▸ hl, j, hj, by rwa [hself j hj], hself j hj⟩
  · rw [hib, hidle]
    exact h.inodes
  · rw [hib]
    exact h.zero_marked
  · rw [hidle] at hi
    rw [hother k hk.pos hk.2 (hi slot hl).symm]
    exact h.inode_blank k hk hi
  · rw [hw.blocks, setInode_padding hk, htable x h1 h2]
    exact h.padding x h1 h2 k hk
  · rw [h7, slotIno_congr h7]
    exact h.slot_blank

/-! ## Runs -/

/-- A write that fails for want of space. -/
def Call.OutOfSpace (dev : Blkdev) (mnt : Mount) (c : Call) (d : Disk) : Prop :=
  ∃ name buf len, c = .write name buf len ∧ c.error dev mnt d = some .nospc

/-- The disks that calls lead to while no write runs out of space. -/
inductive ReachesWithSpace (dev : Blkdev) (mnt : Mount) (d₀ : Disk) : Disk → Prop
  | start : ReachesWithSpace dev mnt d₀ d₀
  | call (c : Call) {d : Disk} (h : ReachesWithSpace dev mnt d₀ d)
      (hspace : ¬ c.OutOfSpace dev mnt d) : ReachesWithSpace dev mnt d₀ (c.run dev mnt d)

section Runs

variable {d : Disk} {mnt : Mount} (hn : minBlocks ≤ dev.blockCount)
  (hn' : dev.blockCount ≤ blockSize * 8) (hmnt : mnt.blockCount = dev.blockCount)
  (hh : dev.Healthy)

include hn hn' hmnt hh

/-- **Every call keeps the account**, unless it is a write that runs out of space. -/
theorem Call.exact (c : Call) (hinv : Inv dev.blockCount d.blocks) (h : Exact d.blocks)
    (hspace : ¬ c.OutOfSpace dev mnt d) : Exact (c.run dev mnt d).blocks := by
  cases c with
  | create name =>
    refine ((create_ends hn hn' rfl hinv name).mono (fun _ d' hq ↦ ?_)
      fun _ _ he ↦ (he.2 hh).1.symm ▸ h).after
    obtain ⟨⟨slot, ino, lba, len, hc⟩, -⟩ := hq
    obtain ⟨hslot, hfree⟩ := findFreeSlot_some hc.slot_free
    rw [hc.blocks]
    exact h.created hinv hc.fresh hn' hslot hfree hc.nameOk.le
  | write name buf len =>
    have hends := write_ends hn hn' rfl hinv name buf len
    rw [Call.run]
    cases hrun : Mcsfs1.write dev name buf len d with
    | ok _ d' =>
      obtain ⟨hlen, slot, B₁, B₂, new, hfound, hw⟩ := hends.of_eq_ok hrun
      rw [after_of_ok hrun]
      exact h.written hw hinv hfound.live hlen
    | error e d' =>
      rw [after_of_error hrun]
      rcases (hends.of_eq_error hrun).2 hh with ⟨-, hd', -⟩ | ⟨rfl, -⟩ | ⟨hd', -⟩
      · exact hd'.symm ▸ h
      · exact absurd ⟨name, buf, len, rfl, errorOf_of_error hrun⟩ hspace
      · exact hd'.symm ▸ h
  | read name cap =>
    exact ((read_ends hn hmnt rfl hinv name cap).mono (fun _ _ hq ↦ hq.1.symm ▸ h)
      fun _ _ he ↦ he.1.symm ▸ h).after
  | stat name =>
    exact ((stat_ends hn rfl hinv name).mono (fun _ _ hq ↦ hq.1.symm ▸ h)
      fun _ _ he ↦ he.1.symm ▸ h).after
  | unlink name =>
    refine ((unlink_ends hn hn' rfl hinv name).mono (fun _ d' hq ↦ ?_)
      fun _ _ he ↦ (he.2 hh).1.symm ▸ h).after
    obtain ⟨slot, hfound, hd'⟩ := hq
    rw [hd']
    exact h.removed hinv hfound.live hn'

theorem ReachesWithSpace.exact {d₀ : Disk} (hinv₀ : Inv dev.blockCount d₀.blocks)
    (h₀ : Exact d₀.blocks) (hr : ReachesWithSpace dev mnt d₀ d) :
    Inv dev.blockCount d.blocks ∧ Exact d.blocks := by
  induction hr with
  | start => exact ⟨hinv₀, h₀⟩
  | call c _ hspace ih =>
    exact ⟨c.inv hn hn' hmnt ih.1, c.exact hn hn' hmnt hh ih.1 ih.2 hspace⟩

end Runs

/-- **Every resource is returned.**  As long as no write runs out of space, the marked blocks are
the metadata blocks and those of the files, the marked inodes are the first two and those of the
entries, and when the last file has been removed, the metadata is what formatting left. -/
theorem resources_returned {d d₀ d₁ d₂ : Disk} {mnt : Mount} (hh : dev.Healthy)
    (hf : format dev d₀ = .ok () d₁) (hm : mount dev d₁ = .ok mnt d₂)
    (hr : ReachesWithSpace dev mnt d₂ d) :
    (∀ b, (d.blocks blockBmapLba).bitTest b = true ↔ b < dataStartLba ∨
      ∃ i, Live d.blocks i ∧ ∃ j, j < directBlocks ∧ blockOf d.blocks i j ≠ 0 ∧
        blockOf d.blocks i j = b) ∧
    (∀ k, (d.blocks inodeBmapLba).bitTest k = true ↔ k = 0 ∨ k = 1 ∨
      ∃ i, Live d.blocks i ∧ slotIno d.blocks i = k) ∧
    ((∀ i, ¬ Live d.blocks i) → ∀ x, x < dataStartLba → d.blocks x = d₁.blocks x) := by
  have h := freshMount_of_eq_ok hf hm
  have hfresh := exact_of_format hf
  obtain ⟨hinv, hexact⟩ := hr.exact h.ge h.le h.blockCount hh (h.blocks_eq.symm ▸ h.inv)
    (h.blocks_eq.symm ▸ hfresh)
  refine ⟨fun b ↦ ⟨hexact.blocks b, ?_⟩, fun k ↦ ⟨fun hk ↦ ?_, ?_⟩, fun hempty x hx ↦ ?_⟩
  · rintro (hb | ⟨i, hi, j, hj, hz, rfl⟩)
    · exact hinv.reserved b hb
    · exact (hinv.inode i hi).direct_marked j hj hz
  · rcases hexact.inodes k hk with h0 | h1 | hbusy
    · exact .inl h0
    · exact .inr (.inl h1)
    · refine .inr (.inr (by_contra fun hnone ↦ hbusy fun i hi he ↦ hnone ⟨i, hi, he⟩))
  · rintro (rfl | rfl | ⟨i, hi, rfl⟩)
    · exact hexact.zero_marked
    · exact hinv.root_marked
    · exact hinv.ino_marked i hi
  · exact hexact.eq_of_empty hfresh hinv h.inv hempty h.empty hx

/-- The run that formats, mounts, creates a file and removes it. -/
theorem exists_create_unlink (hn : minBlocks ≤ dev.blockCount)
    (hn' : dev.blockCount ≤ blockSize * 8) (hh : dev.Healthy) (d₀ : Disk) (name : ℕ → UInt8) :
    ∃ mnt d₂, format dev d₀ = .ok () (after (format dev) d₀) ∧
      mount dev (after (format dev) d₀) = .ok mnt d₂ ∧
      ReachesWithSpace dev mnt d₂ (after (unlink dev name) (after (create dev name)
        (after (mount dev) (after (format dev) d₀)))) := by
  obtain ⟨d₁, mnt, d₂, hf, hm⟩ := exists_format_mount hn hn' hh d₀
  refine ⟨mnt, d₂, by rw [after_of_ok hf, hf], by rw [after_of_ok hf, hm], ?_⟩
  rw [after_of_ok hf, after_of_ok hm]
  refine .call (.unlink name) (.call (.create name) .start ?_) ?_
  · rintro ⟨_, _, _, he, -⟩
    cases he
  · rintro ⟨_, _, _, he, -⟩
    cases he

/-- A fresh disk of sixteen blocks, on which a file was created and removed again. -/
def createdAndRemoved : Disk :=
  after (unlink smallDev (CString.ofBytes [98]).view)
    (after (create smallDev (CString.ofBytes [98]).view)
      (after (mount smallDev) (after (format smallDev) blankDisk)))

theorem resources_returned_create_unlink :
    ∃ (mnt : Mount) (d₁ d₂ : Disk), format smallDev blankDisk = .ok () d₁ ∧
      mount smallDev d₁ = .ok mnt d₂ ∧ ReachesWithSpace smallDev mnt d₂ createdAndRemoved ∧
      ∀ x, x < dataStartLba → createdAndRemoved.blocks x = d₁.blocks x := by
  have hempty : ∀ i, i < direntCount → slotIno createdAndRemoved.blocks i = 0 := by
    decide +kernel
  obtain ⟨mnt, d₂, hf, hm, hr⟩ := exists_create_unlink (by decide) (by decide) smallDev_healthy
    blankDisk (CString.ofBytes [98]).view
  exact ⟨mnt, _, d₂, hf, hm, hr,
    (resources_returned smallDev_healthy hf hm hr).2.2 fun i hi ↦ hi.2 (hempty i hi.1)⟩

end Mcsfs1
end Mcsos
