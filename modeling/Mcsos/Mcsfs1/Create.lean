import Mcsos.Mcsfs1.Effects

/-!
# MCSFS1: creating a file

`mcsfs1_create` writes four blocks: the two bitmaps, the inode, the directory.  The disks after the
second, third and fourth write are `marked`, `prepared` and `created`; each of them satisfies the
invariant, because what is being set up is unreferenced until the last write, and complete by then.
-/

set_option autoImplicit false

namespace Mcsos
namespace Mcsfs1

open Bytes Program

variable {n : ℕ} {B : ℕ → Block} {ino lba slot len : ℕ} {name : ℕ → UInt8}

/-! ## New inodes -/

section Inode

theorem Inode.mode_make {m : ℕ} (size d : ℕ) (h : m < 256 ^ 2) :
    (Inode.make m size d).mode = m := by
  rw [Inode.mode, Inode.make, Buf.field_setField_of_disjoint (by omega) (by decide),
    Buf.field_setField_of_disjoint (by omega) (by decide),
    Buf.field_setField_of_disjoint (by omega) (by decide), Buf.field_setField_same (by decide) h]

theorem Inode.size_make {size : ℕ} (m d : ℕ) (h : size < 256 ^ 4) :
    (Inode.make m size d).size = size := by
  rw [Inode.size, Inode.make, Buf.field_setField_of_disjoint (by omega) (by decide),
    Buf.field_setField_same (by decide) h]

theorem Inode.direct_make_zero {d : ℕ} (m size : ℕ) (h : d < 256 ^ 4) :
    (Inode.make m size d).direct 0 = d := by
  rw [Inode.direct, Inode.make]
  exact Buf.field_setField_same (by decide) h

theorem Inode.direct_make_pos {j : ℕ} (m size d : ℕ) (h0 : 0 < j) (hj : j < directBlocks) :
    (Inode.make m size d).direct j = 0 := by
  simp only [directBlocks] at hj
  have hb : 8 + 4 * j + 4 ≤ inodeSize := by simp only [inodeSize]; omega
  rw [Inode.direct, Inode.make, Buf.field_setField_of_disjoint (by omega) hb,
    Buf.field_setField_of_disjoint (by omega) hb, Buf.field_setField_of_disjoint (by omega) hb,
    Buf.field_setField_of_disjoint (by omega) hb, Buf.field_zero]

/-- The inode of a new file has its first block and nothing else. -/
theorem inodeOk_make {bb : Block} (h8 : dataStartLba ≤ lba) (hlt : lba < n) (hn : n ≤ blockSize * 8)
    (hm : bb.bitTest lba = true) : InodeOk n bb (Inode.make modeFile 0 lba) := by
  have h0 : (Inode.make modeFile 0 lba).direct 0 = lba :=
    Inode.direct_make_zero _ _ (lt_of_lt_of_le hlt (hn.trans (by decide)))
  have hsize : (Inode.make modeFile 0 lba).size = 0 := Inode.size_make _ _ (by decide)
  have hne : ∀ j, j < directBlocks → (Inode.make modeFile 0 lba).direct j ≠ 0 → j = 0 := by
    intro j hj hz
    by_contra h
    exact hz (Inode.direct_make_pos _ _ _ (Nat.pos_of_ne_zero h) hj)
  refine ⟨Inode.mode_make _ _ (by decide), by rw [hsize]; decide, fun j hj hz ↦ ?_,
    fun j hj hz ↦ ?_,
    fun j hj hz ↦ ?_, fun j hj ↦ ?_, fun j j' hj hj' hz he ↦ ?_⟩
  · obtain rfl := hne j hj hz; rw [h0]; exact h8
  · obtain rfl := hne j hj hz; rw [h0]; exact hlt
  · obtain rfl := hne j hj hz; rw [h0]; exact hm
  · rw [hsize] at hj
    obtain rfl : j = 0 := Nat.lt_one_iff.1 hj
    rw [h0]
    exact (lt_of_lt_of_le (by decide) h8).ne'
  · rw [hne j hj hz, hne j' hj' (he ▸ hz)]

end Inode

/-! ## Marking -/

theorem bitTest_bitSet_iff {b : Block} {i j : ℕ} (hi : i < blockSize * 8) :
    (b.bitSet i).bitTest j = true ↔ i = j ∨ b.bitTest j = true := by
  rw [Buf.bitTest_bitSet (Nat.div_lt_of_lt_mul (by omega)), Bool.or_eq_true, decide_eq_true_iff]

theorem bitTest_bitSet_of_true {b : Block} {i j : ℕ} (hi : i < blockSize * 8)
    (h : b.bitTest j = true) : (b.bitSet i).bitTest j = true := by
  rw [Buf.bitTest_bitSet (Nat.div_lt_of_lt_mul (by omega)), h, Bool.or_true]

theorem bitTest_bitSet_self {b : Block} {i : ℕ} (hi : i < blockSize * 8) :
    (b.bitSet i).bitTest i = true := by
  rw [Buf.bitTest_bitSet (Nat.div_lt_of_lt_mul (by omega)), decide_eq_true rfl, Bool.true_or]

theorem Inv.mark_inode (h : Inv n B) (hi : ino < blockSize * 8) :
    Inv n (Function.update B inodeBmapLba ((B inodeBmapLba).bitSet ino)) :=
  h.set_inodeBmap (bitTest_bitSet_of_true hi h.root_marked) fun i hl ↦
    bitTest_bitSet_of_true hi (h.ino_marked i hl)

theorem Inv.mark_block (h : Inv n B) (hi : lba < blockSize * 8) :
    Inv n (Function.update B blockBmapLba ((B blockBmapLba).bitSet lba)) :=
  h.set_blockBmap (fun b hb ↦ bitTest_bitSet_of_true hi (h.reserved b hb)) fun i hl j hj hz ↦
    bitTest_bitSet_of_true hi ((h.inode i hl).direct_marked j hj hz)

/-- A free inode and a free data block. -/
structure Fresh (n : ℕ) (B : ℕ → Block) (ino lba : ℕ) : Prop where
  file : FileIno ino
  ino_free : (B inodeBmapLba).bitTest ino = false
  lba_ge : dataStartLba ≤ lba
  lba_lt : lba < n
  lba_free : (B blockBmapLba).bitTest lba = false

theorem findFreeInode_some {ib : Block} (h : findFreeInode ib = some ino) :
    FileIno ino ∧ ib.bitTest ino = false := by
  obtain ⟨h1, h2, hb⟩ := Search.of_find?_range' h
  rw [Bool.not_eq_true'] at hb
  exact ⟨⟨h1, Nat.lt_succ_iff.1 h2⟩, hb⟩

theorem findFreeBlock_some {bb : Block} (h : findFreeBlock bb n = some lba) :
    dataStartLba ≤ lba ∧ lba < n ∧ bb.bitTest lba = false := by
  obtain ⟨h1, h2, hb⟩ := Search.of_find?_range' h
  rw [Bool.not_eq_true'] at hb
  exact ⟨h1, by omega, hb⟩

theorem fresh_of_find (hi : findFreeInode (B inodeBmapLba) = some ino)
    (hb : findFreeBlock (B blockBmapLba) n = some lba) : Fresh n B ino lba := by
  obtain ⟨h1, h2⟩ := findFreeInode_some hi
  obtain ⟨h3, h4, h5⟩ := findFreeBlock_some hb
  exact ⟨h1, h2, h3, h4, h5⟩

theorem FileIno.lt_bits (h : FileIno ino) : ino < blockSize * 8 := lt_of_le_of_lt h.2 (by decide)

/-! ## The stages of a creation -/

/-- No entry refers to a free inode, since the inodes of entries are marked. -/
theorem Fresh.ino_ne (hf : Fresh n B ino lba) (h : Inv n B) {i : ℕ} (hl : Live B i) :
    slotIno B i ≠ ino :=
  ne_of_apply_ne (B inodeBmapLba).bitTest (by rw [h.ino_marked i hl, hf.ino_free]; decide)

/-- The disk after the two bitmaps have been written. -/
def marked (B : ℕ → Block) (ino lba : ℕ) : ℕ → Block :=
  Function.update (Function.update B inodeBmapLba ((B inodeBmapLba).bitSet ino)) blockBmapLba
    ((B blockBmapLba).bitSet lba)

/-- The disk after the inode has been written. -/
def prepared (B : ℕ → Block) (ino lba : ℕ) : ℕ → Block :=
  setInode (marked B ino lba) ino (Inode.make modeFile 0 lba)

/-- The disk after the directory has been written. -/
def created (B : ℕ → Block) (slot ino lba : ℕ) (name : ℕ → UInt8) (len : ℕ) : ℕ → Block :=
  Function.update (prepared B ino lba) rootDirLba
    (Dirent.set (B rootDirLba) slot ino modeFile name len)

theorem marked_of_ge {x : ℕ} (h : inodeTableLba ≤ x) : marked B ino lba x = B x := by
  rw [marked, Function.update_of_ne (lt_of_lt_of_le (by decide) h).ne',
    Function.update_of_ne (lt_of_lt_of_le (by decide) h).ne']

theorem marked_inodeBmap : marked B ino lba inodeBmapLba = (B inodeBmapLba).bitSet ino := by
  rw [marked, Function.update_of_ne (by decide), Function.update_self]

theorem marked_blockBmap : marked B ino lba blockBmapLba = (B blockBmapLba).bitSet lba :=
  Function.update_self _ _ _

section Stages

variable (h : Inv n B) (hf : Fresh n B ino lba) (hn : n ≤ blockSize * 8)

include h hf hn

theorem inv_marked : Inv n (marked B ino lba) := by
  have hb : Function.update B inodeBmapLba ((B inodeBmapLba).bitSet ino) blockBmapLba
      = B blockBmapLba := Function.update_of_ne (by decide) _ _
  have h2 := (h.mark_inode hf.file.lt_bits).mark_block (lt_of_lt_of_le hf.lba_lt hn)
  rw [hb] at h2
  exact h2

omit hn in
/-- Nothing live refers to what was free. -/
theorem unreferenced_of_fresh {B' : ℕ → Block} {inode : Inode} (hdir : B' rootDirLba = B rootDirLba)
    (hnode : ∀ i, Live B i → inodeAt B' (slotIno B i) = inodeAt B (slotIno B i))
    (hdirect : ∀ j, j < directBlocks → inode.direct j ≠ 0 → inode.direct j = lba) :
    Unreferenced B' ino inode := by
  constructor
  · intro i hl he
    rw [live_congr hdir] at hl
    rw [slotIno_congr hdir] at he
    exact hf.ino_ne h hl he
  · intro i hl j j' hj hj' hz he
    rw [live_congr hdir] at hl
    rw [hdirect j hj hz, blockOf, slotIno_congr hdir, hnode i hl] at he
    have h0 : lba ≠ 0 := (lt_of_lt_of_le (by decide) hf.lba_ge).ne'
    have hm := (h.inode i hl).direct_marked j' hj' (he ▸ h0)
    rw [← he, hf.lba_free] at hm
    cases hm

theorem inv_prepared : Inv n (prepared B ino lba) := by
  refine (inv_marked h hf hn).set_inode hf.file fun i hl he ↦ ?_
  rw [live_congr (marked_of_ge (by decide))] at hl
  rw [slotIno_congr (marked_of_ge (by decide))] at he
  exact absurd he (hf.ino_ne h hl)

omit h hn in
theorem prepared_of_not_table {x : ℕ} (hx : x < inodeTableLba ∨ rootDirLba ≤ x) :
    prepared B ino lba x = marked B ino lba x :=
  setInode_of_not_table hf.file.2 hx _

omit hn in
theorem inodeAt_prepared_of_live {i : ℕ} (hl : Live B i) :
    inodeAt (prepared B ino lba) (slotIno B i) = inodeAt B (slotIno B i) := by
  rw [prepared, inodeAt_setInode_of_ne hf.file.pos (h.ino i hl).pos (hf.ino_ne h hl),
    inodeAt_congr (fun x h1 _ ↦ marked_of_ge h1) (h.ino i hl).2]

/-- **Creation keeps the invariant.** -/
theorem inv_created (hs : slot < direntCount) (hlen : len ≤ maxName) :
    Inv n (created B slot ino lba name len) := by
  have hself : inodeAt (prepared B ino lba) ino = Inode.make modeFile 0 lba :=
    inodeAt_setInode_self _ _ _
  have h7 : prepared B ino lba rootDirLba = B rootDirLba := by
    rw [prepared_of_not_table hf (.inr le_rfl), marked_of_ge (by decide)]
  refine (inv_prepared h hf hn).add_entry
    (Dirent.ino_set_self hs (lt_of_le_of_lt hf.file.2 (by decide)))
    (Dirent.type_set_self hs (by decide)) (fun i hi ↦ ?_) hf.file ?_ ?_ ?_
  · rw [slotIno, h7]
    exact ⟨(Dirent.set_of_ne hi hlen).1, (Dirent.set_of_ne hi hlen).2.1⟩
  · rw [prepared_of_not_table hf (.inl (by decide)), marked_inodeBmap]
    exact bitTest_bitSet_self hf.file.lt_bits
  · rw [hself, prepared_of_not_table hf (.inl (by decide)), marked_blockBmap]
    exact inodeOk_make hf.lba_ge hf.lba_lt hn
      (bitTest_bitSet_self (lt_of_lt_of_le hf.lba_lt hn))
  · rw [hself]
    refine unreferenced_of_fresh h hf h7 (fun i hl ↦ inodeAt_prepared_of_live h hf hl)
      fun j hj hz ↦ ?_
    by_cases hj0 : j = 0
    · rw [hj0]
      exact Inode.direct_make_zero _ _ (lt_of_lt_of_le hf.lba_lt (hn.trans (by decide)))
    · exact absurd (Inode.direct_make_pos _ _ _ (Nat.pos_of_ne_zero hj0) hj) hz

end Stages

/-! ## Running it -/

theorem findFreeSlot_some {dir : Block} (h : findFreeSlot dir = some slot) :
    slot < direntCount ∧ Dirent.ino dir slot = 0 := by
  obtain ⟨h1, h2⟩ := Search.of_find?_range h
  exact ⟨h1, beq_iff_eq.1 h2⟩

/-- What a successful creation has done. -/
structure Created (dev : Blkdev) (B : ℕ → Block) (name : ℕ → UInt8) (B' : ℕ → Block)
    (slot ino lba len : ℕ) : Prop where
  nameOk : NameOk name len
  slot_free : findFreeSlot (B rootDirLba) = some slot
  fresh : Fresh dev.blockCount B ino lba
  blocks : B' = created B slot ino lba name len

/-- A creation on a disk with blocks `B`.  A healthy device fails it only before anything is
written. -/
theorem create_ends {dev : Blkdev} {s : Disk} (hn : minBlocks ≤ dev.blockCount)
    (hn' : dev.blockCount ≤ blockSize * 8) (hs : s.blocks = B) (h : Inv dev.blockCount B)
    (name : ℕ → UInt8) :
    Ends (create dev name) s
      (fun _ s' ↦ (∃ slot ino lba len, Created dev B name s'.blocks slot ino lba len) ∧
        (dev.Healthy → NotFound dev (B rootDirLba) name))
      (fun e s' ↦ Inv dev.blockCount s'.blocks ∧ (dev.Healthy → s'.blocks = B ∧
        (e = .exist ∧ (∃ slot, FoundAt dev (B rootDirLba) name slot) ∨
          e = .nospc ∧ NotFound dev (B rootDirLba) name ∨ Rejected name e))) := by
  refine ends_bind ((validName_ends s name).mono (fun _ _ h ↦ h) ?_) ?_
  · rintro e s' ⟨hr, rfl⟩
    exact ⟨hs ▸ h, fun _ ↦ ⟨hs, .inr (.inr hr)⟩⟩
  rintro len s' ⟨hname, rfl⟩
  refine ends_bind (Q := fun b s'' ↦ s''.blocks = B ∧
    (b = true → ∃ slot, FoundAt dev (B rootDirLba) name slot) ∧
    (b = false → dev.Healthy → NotFound dev (B rootDirLba) name)) (ends_succeeds ?_) ?_
  · refine (findDirent_ends hn hs name).mono ?_ ?_
    · rintro _ s'' ⟨slot, rfl, hfound, hs''⟩
      exact ⟨hs'', fun _ ↦ ⟨slot, hfound⟩, fun hb ↦ (by cases hb)⟩
    · rintro e s'' ⟨hs'', he⟩
      refine ⟨hs'', fun hb ↦ (by cases hb), fun _ hh ↦ ?_⟩
      rcases he hh with ⟨-, hnf⟩ | hr
      · exact hnf
      · exact absurd hname (hr.2 len)
  rintro b s1 ⟨hs1, htrue, hfalse⟩
  refine ends_failIf (fun hb ↦ ⟨hs1 ▸ h, fun _ ↦ ⟨hs1, .inl ⟨rfl, htrue hb⟩⟩⟩) fun hb ↦ ?_
  have hnf := hfalse (Bool.eq_false_iff.2 hb)
  refine ends_bind ((devRead_ends hs1 (lt_blockCount hn (by decide))).mono (fun _ _ h ↦ h)
    fun _ _ hf ↦ hf.inv h) ?_
  rintro _ s2 ⟨rfl, hs2⟩
  refine ends_expect (fun _ ↦ ⟨hs2 ▸ h, fun hh ↦ ⟨hs2, .inr (.inl ⟨rfl, hnf hh⟩)⟩⟩)
    fun slot hslot ↦ ?_
  refine ends_bind ((allocInodeBlock_ends hn hs2).mono (fun _ _ h ↦ h) ?_) ?_
  · rintro e s3 ⟨hblk, hh⟩
    refine ⟨?_, fun hhealthy ↦ ?_⟩
    · rcases hblk with hblk | ⟨ino, hino, hblk⟩
      · exact hblk ▸ h
      · exact hblk ▸ h.mark_inode (findFreeInode_some hino).1.lt_bits
    · obtain ⟨rfl, hblk⟩ := hh hhealthy
      exact ⟨hblk, .inr (.inl ⟨rfl, hnf hhealthy⟩)⟩
  rintro ⟨ino, lba⟩ s3 ⟨hino, hlba, hs3⟩
  have hfresh := fresh_of_find hino hlba
  refine ends_bind ((writeInode_ends hn hs3 hfresh.file.pos hfresh.file.2 _).mono (fun _ _ h ↦ h)
    fun _ _ hf ↦ hf.inv (inv_marked h hfresh hn')) fun _ s4 hs4 ↦ ?_
  refine ends_bind ((devWrite_ends hs4 (lt_blockCount hn (by decide)) _).mono (fun _ _ h ↦ h)
    fun _ _ hf ↦ hf.inv (inv_prepared h hfresh hn')) fun _ s5 hs5 ↦ ?_
  refine (devFlush_ends hs5).mono (fun _ s6 hs6 ↦ ?_) fun _ _ hf ↦
    hf.inv (inv_created h hfresh hn' (findFreeSlot_some hslot).1 hname.le)
  exact ⟨⟨slot, ino, lba, len, hname, hslot, hfresh, hs6⟩, hnf⟩

end Mcsfs1
end Mcsos
