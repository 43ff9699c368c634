import Mcsos.Mcsfs1j.Consistency

/-!
# What creating a file does to the disk

The two transactions of `m16_write_file_ex` are treated separately, because a crash may come
between them.  `Metadata` is the effect of the first, `Contents` the effect of the second, each on
the home blocks only.  The first keeps the invariant and changes no lookup, since nothing live
points to an inode or a block that was free (`Metadata.fsOk`, `Metadata.lookup_eq`); the second
keeps the invariant and adds one file (`Contents.fsOk`, `Contents.lookup_eq`).
-/

set_option autoImplicit false

namespace Mcsos
namespace M16

open Bytes WriteLog Program

/-! ## Comparing names -/

theorem streqFrom_iff {a b : ℕ → UInt8} {n i t : ℕ} (hi : i ≤ t) (ht : t < i + n) (h0 : a t = 0)
    (hne : ∀ j, j < t → a j ≠ 0) :
    streqFrom a b n i = true ↔ ∀ j, i ≤ j → j ≤ t → a j = b j := by
  induction n generalizing i with
  | zero => exact absurd ht (by omega)
  | succ n ih =>
    rw [streqFrom]
    by_cases hab : a i = b i
    · rw [if_neg (not_not.2 hab)]
      by_cases hit : i = t
      · subst hit
        rw [if_pos h0]
        refine ⟨fun _ j h1 h2 ↦ ?_, fun _ ↦ rfl⟩
        obtain rfl : j = i := le_antisymm h2 h1
        exact hab
      · rw [if_neg (hne i (by omega)), ih (by omega) (by omega)]
        refine ⟨fun h j h1 h2 ↦ ?_, fun h j h1 h2 ↦ h j (by omega) h2⟩
        rcases Nat.eq_or_lt_of_le h1 with rfl | h1
        · exact hab
        · exact h j h1 h2
    · rw [if_pos hab]
      exact ⟨fun h ↦ (by cases h), fun h ↦ absurd (h i le_rfl hi) hab⟩

/-- A terminated name equals another one when the two agree up to its terminator. -/
theorem streq_iff {a b : ℕ → UInt8} (h : strnlen a maxName < maxName) :
    streq a b = true ↔ ∀ j, j ≤ strnlen a maxName → a j = b j := by
  rw [streq, streqFrom_iff (Nat.zero_le _) (by omega) (eq_zero_of_strnlen_lt h)
    fun j hj ↦ ne_zero_of_lt_strnlen hj]
  exact ⟨fun h' j hj ↦ h' j (Nat.zero_le j) hj, fun h' j _ hj ↦ h' j hj⟩

/-- A terminated name is the same as at most one string. -/
theorem eq_of_streq {a : ℕ → UInt8} {s t : CString} (h : strnlen a maxName < maxName)
    (hs : streq a s.view = true) (ht : streq a t.view = true) : s = t := by
  rw [streq_iff h] at hs ht
  have hlen : s.length ≤ strnlen a maxName :=
    CString.view_eq_zero_iff.1 ((hs _ le_rfl).symm.trans (eq_zero_of_strnlen_lt h))
  exact CString.eq_of_view_eq fun i hi ↦
    (hs i (le_trans hi hlen)).symm.trans (ht i (le_trans hi hlen))

/-! ## Updating an inode -/

section Inodes

variable {t : Inodes} {ino j u k s b : ℕ}

theorem Inodes.field_set_of_ne (h : j ≠ ino) (hj : j < maxInodes) {o : ℕ} (ho : o + 4 ≤ 128) :
    (t.set ino u k s b).field (j * inodeSize + o) 4 = t.field (j * inodeSize + o) 4 := by
  have hne : j < ino ∨ ino < j := by omega
  simp only [maxInodes] at hj
  have hd : ∀ p, p + 4 ≤ 16 →
      j * 128 + o + 4 ≤ ino * 128 + p ∨ ino * 128 + p + 4 ≤ j * 128 + o := by
    omega
  have hn : j * inodeSize + o + 4 ≤ maxInodes * inodeSize := by
    simp only [maxInodes, inodeSize]; omega
  rw [Inodes.set, Buf.field_setField_of_disjoint (hd 12 (by decide)) hn,
    Buf.field_setField_of_disjoint (hd 8 (by decide)) hn,
    Buf.field_setField_of_disjoint (hd 4 (by decide)) hn]
  exact Buf.field_setField_of_disjoint (hd 0 (by decide)) hn

theorem Inodes.used_set_of_ne (h : j ≠ ino) (hj : j < maxInodes) :
    (t.set ino u k s b).used j = t.used j :=
  Inodes.field_set_of_ne h hj (o := 0) (by decide)

theorem Inodes.kind_set_of_ne (h : j ≠ ino) (hj : j < maxInodes) :
    (t.set ino u k s b).kind j = t.kind j :=
  Inodes.field_set_of_ne h hj (by decide)

theorem Inodes.size_set_of_ne (h : j ≠ ino) (hj : j < maxInodes) :
    (t.set ino u k s b).size j = t.size j :=
  Inodes.field_set_of_ne h hj (by decide)

theorem Inodes.direct_set_of_ne (h : j ≠ ino) (hj : j < maxInodes) :
    (t.set ino u k s b).direct j = t.direct j :=
  Inodes.field_set_of_ne h hj (by decide)

/-- The four fields of a freshly written inode. -/
theorem Inodes.fields_set_self (hi : ino < maxInodes) (hu : u < 256 ^ 4) (hk : k < 256 ^ 4)
    (hs : s < 256 ^ 4) (hb : b < 256 ^ 4) :
    (t.set ino u k s b).used ino = u ∧ (t.set ino u k s b).kind ino = k ∧
      (t.set ino u k s b).size ino = s ∧ (t.set ino u k s b).direct ino = b := by
  simp only [maxInodes] at hi
  have hn : ∀ p, p + 4 ≤ 128 → ino * inodeSize + p + 4 ≤ maxInodes * inodeSize := by
    simp only [maxInodes, inodeSize]; omega
  have hn0 : ino * inodeSize + 4 ≤ maxInodes * inodeSize := hn 0 (by decide)
  refine ⟨?_, ?_, ?_, ?_⟩
  · rw [Inodes.used, Inodes.set, Buf.field_setField_of_disjoint (by omega) hn0,
      Buf.field_setField_of_disjoint (by omega) hn0, Buf.field_setField_of_disjoint (by omega) hn0]
    exact Buf.field_setField_same hn0 hu
  · rw [Inodes.kind, Inodes.set, Buf.field_setField_of_disjoint (by omega) (hn 4 (by decide)),
      Buf.field_setField_of_disjoint (by omega) (hn 4 (by decide))]
    exact Buf.field_setField_same (hn 4 (by decide)) hk
  · rw [Inodes.size, Inodes.set, Buf.field_setField_of_disjoint (by omega) (hn 8 (by decide))]
    exact Buf.field_setField_same (hn 8 (by decide)) hs
  · rw [Inodes.direct, Inodes.set]
    exact Buf.field_setField_same (hn 12 (by decide)) hb

end Inodes

/-! ## Updating a directory entry -/

section Dirent

variable {dir : Block} {i j u n len : ℕ} {name : ℕ → UInt8}

theorem Dirent.get_set_of_ne (h : j ≠ i) (hlen : len ≤ maxName) {k : ℕ} (hk : k < direntSize) :
    (Dirent.set dir i u n name len).get (j * direntSize + k) = dir.get (j * direntSize + k) := by
  have hne : j < i ∨ i < j := by omega
  simp only [Dirent.set, direntSize, maxName] at *
  rw [Buf.get_copy_of_not_mem (by omega), Buf.get_copy_of_not_mem (by omega),
    Buf.get_setField_of_not_mem (by omega), Buf.get_setField_of_not_mem (by omega)]

theorem Dirent.used_set_of_ne (h : j ≠ i) (hlen : len ≤ maxName) :
    Dirent.used (Dirent.set dir i u n name len) j = Dirent.used dir j := by
  refine Buf.field_congr fun p h1 h2 ↦ ?_
  obtain ⟨k, rfl⟩ := Nat.exists_eq_add_of_le h1
  exact Dirent.get_set_of_ne h hlen (by simp only [direntSize]; omega)

theorem Dirent.ino_set_of_ne (h : j ≠ i) (hlen : len ≤ maxName) :
    Dirent.ino (Dirent.set dir i u n name len) j = Dirent.ino dir j := by
  refine Buf.field_congr fun p h1 h2 ↦ ?_
  obtain ⟨k, rfl⟩ := Nat.exists_eq_add_of_le h1
  rw [Nat.add_assoc]
  exact Dirent.get_set_of_ne h hlen (by simp only [direntSize]; omega)

theorem Dirent.name_set_of_ne (h : j ≠ i) (hlen : len ≤ maxName) {k : ℕ} (hk : k < maxName) :
    Dirent.name (Dirent.set dir i u n name len) j k = Dirent.name dir j k := by
  rw [Dirent.name, Dirent.name, Nat.add_assoc]
  exact Dirent.get_set_of_ne h hlen (by simp only [direntSize, maxName] at *; omega)

theorem Dirent.used_set_self (hi : i < direntCount) (hu : u < 256 ^ 4) :
    Dirent.used (Dirent.set dir i u n name len) i = u := by
  have hn : i * direntSize + 4 ≤ blockSize := by
    simp only [direntCount, blockSize, direntSize] at *; omega
  rw [Dirent.used, Dirent.set, Buf.field_copy_of_disjoint (by omega),
    Buf.field_copy_of_disjoint (by omega), Buf.field_setField_of_disjoint (by omega) hn,
    Buf.field_setField_same hn hu]

theorem Dirent.ino_set_self (hi : i < direntCount) (hn : n < 256 ^ 4) :
    Dirent.ino (Dirent.set dir i u n name len) i = n := by
  have hb : i * direntSize + 4 + 4 ≤ blockSize := by
    simp only [direntCount, blockSize, direntSize] at *; omega
  rw [Dirent.ino, Dirent.set, Buf.field_copy_of_disjoint (by omega),
    Buf.field_copy_of_disjoint (by omega), Buf.field_setField_same hb hn]

/-- The name that is read back: the bytes copied, padded with zeros. -/
theorem Dirent.name_set_self (hi : i < direntCount) {k : ℕ}
    (hk : k < maxName) :
    Dirent.name (Dirent.set dir i u n name len) i k = if k < len then name k else 0 := by
  have hn : i * direntSize + 8 + k < blockSize := by
    simp only [direntCount, blockSize, direntSize, maxName] at *; omega
  rw [Dirent.name, Dirent.set]
  split
  · rw [Buf.get_copy_of_mem (by omega) (by omega) hn, Nat.add_sub_cancel_left]
  · rw [Buf.get_copy_of_not_mem (by omega), Buf.get_copy_of_mem (by omega) (by omega) hn]

end Dirent

/-! ## The two transactions -/

/-- The records of the first transaction. -/
def metadataRecords (B : ℕ → Block) (ino blk size : ℕ) : Tx :=
  ⟨inodeBitmapLba, (B inodeBitmapLba).bitSet ino⟩ ::
    ⟨blockBitmapLba, (B blockBitmapLba).bitSet blk⟩ ::
      inodeTableRecords ((inodeTable B).set ino 1 1 size blk)

/-- The records of the second transaction. -/
def contentsRecords (dir : Block) (blk : ℕ) (dataBlk : Block) : Tx :=
  [⟨rootDirLba, dir⟩, ⟨blk, dataBlk⟩]

theorem metadataTx_eq (B : ℕ → Block) (ino blk size : ℕ) (d : Blockdev) :
    metadataTx ((B inodeBitmapLba).bitSet ino) ((B blockBitmapLba).bitSet blk)
      ((inodeTable B).set ino 1 1 size blk) d = .ok (metadataRecords B ino blk size) d := rfl

theorem contentsTx_eq (dir : Block) (blk : ℕ) (dataBlk : Block) (d : Blockdev) :
    contentsTx dir blk dataBlk d = .ok (contentsRecords dir blk dataBlk) d := rfl

theorem mem_inodeTableRecords {t : Inodes} {r : Jrec} (h : r ∈ inodeTableRecords t) :
    inodeTableLba ≤ r.targetLba ∧ r.targetLba < rootDirLba := by
  obtain ⟨i, hi, rfl⟩ := List.mem_map.1 h
  have := List.mem_range.1 hi
  exact ⟨Nat.le_add_right _ _, Nat.add_lt_add_left this _⟩

theorem mem_metadataRecords {B : ℕ → Block} {ino blk size : ℕ} {r : Jrec}
    (h : r ∈ metadataRecords B ino blk size) :
    inodeBitmapLba ≤ r.targetLba ∧ r.targetLba < rootDirLba := by
  rcases List.mem_cons.1 h with rfl | h
  · exact ⟨le_rfl, show inodeBitmapLba < rootDirLba by decide⟩
  · rcases List.mem_cons.1 h with rfl | h
    · exact ⟨show inodeBitmapLba ≤ blockBitmapLba by decide,
        show blockBitmapLba < rootDirLba by decide⟩
    · have := mem_inodeTableRecords h
      exact ⟨le_trans (by decide) this.1, this.2⟩

theorem metadataRecords_ok (B : ℕ → Block) (ino blk size : ℕ) :
    TxOk (metadataRecords B ino blk size) :=
  ⟨le_of_eq_of_le rfl (show 6 ≤ 8 by decide), fun _ hr ↦ (mem_metadataRecords hr).1,
    fun _ hr ↦ lt_trans (mem_metadataRecords hr).2 (by decide)⟩

theorem contentsRecords_ok (dir : Block) {blk : ℕ} (dataBlk : Block) (h1 : dataStartLba ≤ blk)
    (h2 : blk < maxBlocks) : TxOk (contentsRecords dir blk dataBlk) := by
  refine ⟨show 2 ≤ 8 by decide, fun r hr ↦ ?_, fun r hr ↦ ?_⟩
  · rcases List.mem_cons.1 hr with rfl | hr
    · exact show inodeBitmapLba ≤ rootDirLba by decide
    · obtain rfl := List.mem_singleton.1 hr
      exact le_trans (by decide) h1
  · rcases List.mem_cons.1 hr with rfl | hr
    · exact show rootDirLba < maxBlocks by decide
    · obtain rfl := List.mem_singleton.1 hr
      exact h2

/-! ## The first transaction -/

/-- The inode and the block are free, and so is the directory slot. -/
structure Free (B : ℕ → Block) (ino blk slot : ℕ) : Prop where
  ino_pos : 0 < ino
  ino_lt : ino < maxInodes
  ino_free : (B inodeBitmapLba).bitTest ino = false
  blk_ge : dataStartLba ≤ blk
  blk_lt : blk < maxBlocks
  blk_free : (B blockBitmapLba).bitTest blk = false
  slot_lt : slot < direntCount
  slot_free : Dirent.used (B rootDirLba) slot = 0

/-- The first transaction turns the home blocks `B` into `B'`. -/
structure Metadata (B B' : ℕ → Block) (ino blk size : ℕ) : Prop where
  inodeBitmap : B' inodeBitmapLba = (B inodeBitmapLba).bitSet ino
  blockBitmap : B' blockBitmapLba = (B blockBitmapLba).bitSet blk
  inodes : inodeTable B' = (inodeTable B).set ino 1 1 size blk
  zero : B' 0 = B 0
  rest : ∀ x, rootDirLba ≤ x → B' x = B x

variable {B B' B'' : ℕ → Block} {ino blk slot size : ℕ}

theorem free_of_find (hi : findFreeInode (B inodeBitmapLba) = some ino)
    (hb : findFreeBlock (B blockBitmapLba) = some blk)
    (hs : findFreeDirent (B rootDirLba) = some slot) : Free B ino blk slot := by
  obtain ⟨hi1, hi2, hi3⟩ := Search.of_find?_range' hi
  obtain ⟨hb1, hb2, hb3⟩ := Search.of_find?_range' hb
  obtain ⟨hs1, hs2⟩ := Search.of_find?_range hs
  rw [Bool.not_eq_true'] at hi3 hb3
  exact ⟨hi1, hi2, hi3, hb1, hb2, hb3, hs1, beq_iff_eq.1 hs2⟩

theorem inodeTable_eq {t : Inodes}
    (h : ∀ i, i < inodeTableBlocks → B (inodeTableLba + i) = t.block i) :
    inodeTable B = t := by
  refine Buf.ext_get fun k hk ↦ ?_
  simp only [maxInodes, inodeSize] at hk
  rw [inodeTable, Buf.get_ofView_of_lt _ hk,
    h _ (by simp only [blockSize, inodeTableBlocks]; omega),
    Inodes.block, Buf.get_ofView_of_lt _ (Nat.mod_lt _ (by decide))]
  exact congrArg t.get (Nat.div_add_mod' k blockSize)

theorem applyAll_inodeTableRecords (t : Inodes) (B : ℕ → Block) {i : ℕ} (h : i < inodeTableBlocks) :
    applyAll (homeWrites (inodeTableRecords t)) B (inodeTableLba + i) = t.block i := by
  simp only [inodeTableBlocks] at h
  obtain rfl | rfl | rfl | rfl : i = 0 ∨ i = 1 ∨ i = 2 ∨ i = 3 := by omega
  all_goals rfl

/-- What the first transaction writes. -/
theorem metadata_applyAll (B : ℕ → Block) (ino blk size : ℕ) :
    Metadata B (applyAll (homeWrites (metadataRecords B ino blk size)) B) ino blk size := by
  have hrest : ∀ x, x < inodeBitmapLba ∨ rootDirLba ≤ x →
      applyAll (homeWrites (metadataRecords B ino blk size)) B x = B x := by
    intro x hx
    refine applyAll_of_forall_ne fun w hw ↦ ?_
    obtain ⟨r, hr, rfl⟩ := List.mem_map.1 hw
    have := mem_metadataRecords hr
    show r.targetLba ≠ x
    omega
  refine ⟨rfl, rfl, inodeTable_eq fun i hi ↦ ?_, hrest 0 (.inl (by decide)),
    fun x hx ↦ hrest x (.inr hx)⟩
  exact applyAll_inodeTableRecords _ _ hi

/-- No entry refers to a free inode, since the inodes of entries are marked. -/
theorem Free.ino_ne (hf : Free B ino blk slot) {i : ℕ} (he : EntryOk B i) : inoAt B i ≠ ino :=
  ne_of_apply_ne (B inodeBitmapLba).bitTest (by rw [he.ino_marked, hf.ino_free]; decide)

theorem Free.blk_ne (hf : Free B ino blk slot) {i : ℕ} (he : EntryOk B i) :
    (inodeTable B).direct (inoAt B i) ≠ blk :=
  ne_of_apply_ne (B blockBitmapLba).bitTest (by rw [he.direct_marked, hf.blk_free]; decide)

/-- What is marked stays marked. -/
theorem bitTest_bitSet_of_true {b : Block} {i j : ℕ} (hi : i / 8 < blockSize)
    (h : b.bitTest j = true) : (b.bitSet i).bitTest j = true := by
  rw [Buf.bitTest_bitSet hi, h, Bool.or_true]

section Metadata

variable (hm : Metadata B B' ino blk size) (hf : Free B ino blk slot)

include hm hf

omit hf in
theorem Metadata.inode_eq {j : ℕ} (hj : j < maxInodes) (hne : j ≠ ino) :
    (inodeTable B').used j = (inodeTable B).used j ∧
      (inodeTable B').kind j = (inodeTable B).kind j ∧
      (inodeTable B').size j = (inodeTable B).size j ∧
      (inodeTable B').direct j = (inodeTable B).direct j := by
  rw [hm.inodes]
  exact ⟨Inodes.used_set_of_ne hne hj, Inodes.kind_set_of_ne hne hj,
    Inodes.size_set_of_ne hne hj, Inodes.direct_set_of_ne hne hj⟩

theorem Metadata.ino_marked {j : ℕ} (h : (B inodeBitmapLba).bitTest j = true) :
    (B' inodeBitmapLba).bitTest j = true := by
  rw [hm.inodeBitmap]
  have := hf.ino_lt
  exact bitTest_bitSet_of_true (by simp only [maxInodes, blockSize] at *; omega) h

theorem Metadata.blk_marked {j : ℕ} (h : (B blockBitmapLba).bitTest j = true) :
    (B' blockBitmapLba).bitTest j = true := by
  rw [hm.blockBitmap]
  have := hf.blk_lt
  exact bitTest_bitSet_of_true (by simp only [maxBlocks, blockSize] at *; omega) h

theorem Metadata.entryOk {i : ℕ} (he : EntryOk B i) : EntryOk B' i := by
  have hdir : B' rootDirLba = B rootDirLba := hm.rest _ le_rfl
  have hino : inoAt B' i = inoAt B i := by rw [inoAt, inoAt, hdir]
  obtain ⟨h1, h2, h3, h4⟩ := hm.inode_eq he.ino_lt (hf.ino_ne he)
  refine ⟨?_, ?_, ?_, ?_, ?_, ?_, ?_, ?_, ?_⟩
  · rw [hino]; exact he.ino_lt
  · rw [hino]; exact hm.ino_marked hf he.ino_marked
  · rw [hino, h1]; exact he.used
  · rw [hino, h2]; exact he.kind
  · rw [hino, h3]; exact he.size_le
  · rw [hino, h4]; exact he.direct_ge
  · rw [hino, h4]; exact he.direct_lt
  · rw [hino, h4]; exact hm.blk_marked hf he.direct_marked
  · rw [hdir]; exact he.name_lt

/-- **The first transaction keeps the invariant**. -/
theorem Metadata.fsOk (hB : FsOk B) : FsOk B' := by
  have hdir : B' rootDirLba = B rootDirLba := hm.rest _ le_rfl
  obtain ⟨h1, h2, -, h4⟩ := hm.inode_eq (show 0 < maxInodes by decide) hf.ino_pos.ne
  refine ⟨hm.zero ▸ hB.super, hm.ino_marked hf hB.root_marked, h1.trans hB.root_used,
    h2.trans hB.root_kind, h4.trans hB.root_direct,
    fun b hb ↦ hm.blk_marked hf (hB.reserved b hb), fun i hi hu ↦ ?_⟩
  rw [hdir] at hu
  exact hm.entryOk hf (hB.entry i hi hu)

/-- **The first transaction changes no file.** -/
theorem Metadata.lookup_eq (hB : FsOk B) : lookup B' = lookup B := by
  funext name
  have hdir : B' rootDirLba = B rootDirLba := hm.rest _ le_rfl
  rw [lookup, lookup, hdir]
  cases h : findDirent (B rootDirLba) name with
  | none => rw [Option.map_none, Option.map_none]
  | some i =>
    obtain ⟨hi, hu, -⟩ := findDirent_some h
    have he := hB.entry i hi hu
    have hino : inoAt B' i = inoAt B i := by rw [inoAt, inoAt, hdir]
    obtain ⟨-, -, h3, h4⟩ := hm.inode_eq he.ino_lt (hf.ino_ne he)
    rw [Option.map_some, Option.map_some, hino]
    refine congrArg some (contents_congr h3 h4 (hm.rest _ ?_))
    exact le_trans (by decide) he.direct_ge

end Metadata

/-! ## The second transaction -/

/-- The disk is ready for the second transaction: an inode for a file of the given size is set up,
its block belongs to no entry, and the slot is free. -/
structure Ready (B : ℕ → Block) (ino blk slot size : ℕ) : Prop where
  ino_lt : ino < maxInodes
  ino_marked : (B inodeBitmapLba).bitTest ino = true
  used : (inodeTable B).used ino ≠ 0
  kind : (inodeTable B).kind ino = 1
  size_eq : (inodeTable B).size ino = size
  direct_eq : (inodeTable B).direct ino = blk
  size_le : size ≤ blockSize
  blk_ge : dataStartLba ≤ blk
  blk_lt : blk < maxBlocks
  blk_marked : (B blockBitmapLba).bitTest blk = true
  blk_ne : ∀ i, i < direntCount → Dirent.used (B rootDirLba) i ≠ 0 →
    (inodeTable B).direct (inoAt B i) ≠ blk
  slot_lt : slot < direntCount
  slot_free : Dirent.used (B rootDirLba) slot = 0

/-- The first transaction makes the disk ready for the second. -/
theorem Metadata.ready (hm : Metadata B B' ino blk size) (hf : Free B ino blk slot) (hB : FsOk B)
    (hs : size ≤ blockSize) : Ready B' ino blk slot size := by
  have hdir : B' rootDirLba = B rootDirLba := hm.rest _ le_rfl
  have h1 := hf.ino_lt
  have h2 := hf.blk_lt
  obtain ⟨hu, hk, hsz, hd⟩ := Inodes.fields_set_self (t := inodeTable B) h1
    (show 1 < 256 ^ 4 by decide) (show 1 < 256 ^ 4 by decide) (lt_of_le_of_lt hs (by decide))
    (lt_trans h2 (by decide))
  rw [← hm.inodes] at hu hk hsz hd
  refine ⟨h1, ?_, by rw [hu]; decide, hk, hsz, hd, hs, hf.blk_ge, h2, ?_, fun i hi hui ↦ ?_,
    hf.slot_lt, by rw [hdir, hf.slot_free]⟩
  · rw [hm.inodeBitmap, Buf.bitTest_bitSet (by simp only [maxInodes, blockSize] at *; omega),
      decide_eq_true rfl, Bool.true_or]
  · rw [hm.blockBitmap, Buf.bitTest_bitSet (by simp only [maxBlocks, blockSize] at *; omega),
      decide_eq_true rfl, Bool.true_or]
  · rw [hdir] at hui
    have he := hB.entry i hi hui
    rw [inoAt, hdir, (hm.inode_eq he.ino_lt (hf.ino_ne he)).2.2.2]
    exact hf.blk_ne he

/-- The second transaction turns the home blocks `B` into `B'`. -/
structure Contents (B B' : ℕ → Block) (ino blk slot : ℕ) (name : ℕ → UInt8) (dataBlk : Block) :
    Prop where
  dir : B' rootDirLba = Dirent.set (B rootDirLba) slot 1 ino name (strnlen name maxName)
  data : B' blk = dataBlk
  rest : ∀ x, x ≠ rootDirLba → x ≠ blk → B' x = B x

/-- What the second transaction writes. -/
theorem contents_applyAll (B : ℕ → Block) (ino slot : ℕ) (name : ℕ → UInt8) (dataBlk : Block)
    (h : dataStartLba ≤ blk) :
    Contents B (applyAll (homeWrites (contentsRecords (Dirent.set (B rootDirLba) slot 1 ino name
      (strnlen name maxName)) blk dataBlk)) B) ino blk slot name dataBlk := by
  have hne : rootDirLba ≠ blk := (lt_of_lt_of_le (by decide) h).ne
  refine ⟨?_, ?_, fun x h1 h2 ↦ ?_⟩
  · exact (Function.update_of_ne hne _ _).trans (Function.update_self _ _ _)
  · exact Function.update_self _ _ _
  · exact (Function.update_of_ne h2 _ _).trans (Function.update_of_ne h1 _ _)

section Contents

variable {name : ℕ → UInt8} {dataBlk : Block} (hc : Contents B B' ino blk slot name dataBlk)
  (hr : Ready B ino blk slot size)

include hc hr

theorem Contents.inodeBitmap_eq : B' inodeBitmapLba = B inodeBitmapLba :=
  hc.rest _ (by decide) (lt_of_lt_of_le (by decide) hr.blk_ge).ne

theorem Contents.blockBitmap_eq : B' blockBitmapLba = B blockBitmapLba :=
  hc.rest _ (by decide) (lt_of_lt_of_le (by decide) hr.blk_ge).ne

theorem Contents.inodeTable_eq : inodeTable B' = inodeTable B := by
  refine Buf.ext_get fun k hk ↦ ?_
  have hlt : inodeTableLba + k / blockSize < rootDirLba :=
    Nat.add_lt_add_left (Nat.div_lt_of_lt_mul (show k < blockSize * inodeTableBlocks from hk)) _
  rw [inodeTable, inodeTable, Buf.get_ofView_of_lt _ hk, Buf.get_ofView_of_lt _ hk,
    hc.rest _ hlt.ne (lt_of_lt_of_le (lt_trans hlt (by decide)) hr.blk_ge).ne]

omit hr in
theorem Contents.dirent_of_ne {i : ℕ} (h : i ≠ slot) :
    Dirent.used (B' rootDirLba) i = Dirent.used (B rootDirLba) i ∧ inoAt B' i = inoAt B i ∧
      ∀ k, k < maxName → Dirent.name (B' rootDirLba) i k = Dirent.name (B rootDirLba) i k := by
  have hlen := strnlen_le name maxName
  rw [inoAt, hc.dir]
  exact ⟨Dirent.used_set_of_ne h hlen, Dirent.ino_set_of_ne h hlen,
    fun k hk ↦ Dirent.name_set_of_ne h hlen hk⟩

theorem Contents.dirent_slot :
    Dirent.used (B' rootDirLba) slot = 1 ∧ inoAt B' slot = ino ∧
      ∀ k, k < maxName → Dirent.name (B' rootDirLba) slot k
        = if k < strnlen name maxName then name k else 0 := by
  rw [inoAt, hc.dir]
  exact ⟨Dirent.used_set_self hr.slot_lt (by decide),
    Dirent.ino_set_self hr.slot_lt (lt_trans hr.ino_lt (by decide)),
    fun k hk ↦ Dirent.name_set_self hr.slot_lt hk⟩

theorem Contents.strnlen_slot :
    strnlen (Dirent.name (B' rootDirLba) slot) maxName = strnlen name maxName := by
  have hn := (hc.dirent_slot hr).2.2
  refine strnlen_eq (strnlen_le _ _) (fun i hi ↦ ?_) fun h ↦ ?_
  · rw [hn i (lt_of_lt_of_le hi (strnlen_le _ _)), if_pos hi]
    exact ne_zero_of_lt_strnlen hi
  · rw [hn _ h, if_neg (lt_irrefl _)]

theorem Contents.entryOk_of_ne {i : ℕ} (h : i ≠ slot) (he : EntryOk B i) : EntryOk B' i := by
  obtain ⟨-, hino, hname⟩ := hc.dirent_of_ne h
  have ht := hc.inodeTable_eq hr
  refine ⟨?_, ?_, ?_, ?_, ?_, ?_, ?_, ?_, ?_⟩
  · rw [hino]; exact he.ino_lt
  · rw [hino, hc.inodeBitmap_eq hr]; exact he.ino_marked
  · rw [hino, ht]; exact he.used
  · rw [hino, ht]; exact he.kind
  · rw [hino, ht]; exact he.size_le
  · rw [hino, ht]; exact he.direct_ge
  · rw [hino, ht]; exact he.direct_lt
  · rw [hino, ht, hc.blockBitmap_eq hr]; exact he.direct_marked
  · rw [strnlen_congr hname]; exact he.name_lt

theorem Contents.entryOk_slot (hlen : strnlen name maxName < maxName) : EntryOk B' slot := by
  obtain ⟨-, hino, -⟩ := hc.dirent_slot hr
  have ht := hc.inodeTable_eq hr
  refine ⟨?_, ?_, ?_, ?_, ?_, ?_, ?_, ?_, ?_⟩
  · rw [hino]; exact hr.ino_lt
  · rw [hino, hc.inodeBitmap_eq hr]; exact hr.ino_marked
  · rw [hino, ht]; exact hr.used
  · rw [hino, ht]; exact hr.kind
  · rw [hino, ht, hr.size_eq]; exact hr.size_le
  · rw [hino, ht, hr.direct_eq]; exact hr.blk_ge
  · rw [hino, ht, hr.direct_eq]; exact hr.blk_lt
  · rw [hino, ht, hc.blockBitmap_eq hr, hr.direct_eq]; exact hr.blk_marked
  · rw [hc.strnlen_slot hr]; exact hlen

/-- **The second transaction keeps the invariant.** -/
theorem Contents.fsOk (hB : FsOk B) (hlen : strnlen name maxName < maxName) : FsOk B' := by
  have ht := hc.inodeTable_eq hr
  have h0 : B' 0 = B 0 := hc.rest 0 (by decide) (lt_of_lt_of_le (by decide) hr.blk_ge).ne
  refine ⟨h0 ▸ hB.super, hc.inodeBitmap_eq hr ▸ hB.root_marked, ht ▸ hB.root_used,
    ht ▸ hB.root_kind, ht ▸ hB.root_direct, hc.blockBitmap_eq hr ▸ hB.reserved, fun i hi hu ↦ ?_⟩
  by_cases h : i = slot
  · subst h
    exact hc.entryOk_slot hr hlen
  · rw [(hc.dirent_of_ne h).1] at hu
    exact hc.entryOk_of_ne hr h (hB.entry i hi hu)

end Contents

section Lookup

variable {name : CString} {dataBlk : Block}
  (hc : Contents B B' ino blk slot name.view dataBlk) (hr : Ready B ino blk slot size)
  (hlen : name.length < maxName)

include hc hr hlen

/-- The new entry is found under the new name and under no other. -/
theorem Contents.streq_slot (s : CString) :
    streq (Dirent.name (B' rootDirLba) slot) s.view = true ↔ s = name := by
  have hlt : strnlen (Dirent.name (B' rootDirLba) slot) maxName < maxName := by
    rw [hc.strnlen_slot hr]; exact CString.strnlen_view_lt hlen
  have hself : streq (Dirent.name (B' rootDirLba) slot) name.view = true := by
    rw [streq_iff hlt]
    intro j hj
    have hl : strnlen name.view maxName = name.length := by
      rw [CString.strnlen_view, min_eq_left hlen.le]
    rw [(hc.dirent_slot hr).2.2 j (lt_of_le_of_lt hj hlt), hl]
    split
    · rfl
    · exact (CString.view_eq_zero (not_lt.1 ‹_›)).symm
  exact ⟨fun h ↦ eq_of_streq hlt h hself, fun h ↦ h ▸ hself⟩

omit hr hlen in
theorem Contents.streq_of_ne {i : ℕ} (h : i ≠ slot) (he : EntryOk B i) (s : CString) :
    streq (Dirent.name (B' rootDirLba) i) s.view = streq (Dirent.name (B rootDirLba) i) s.view := by
  have hname := (hc.dirent_of_ne h).2.2
  have hl := strnlen_congr hname
  have hlt := he.name_lt
  rw [Bool.eq_iff_iff, streq_iff (hl ▸ hlt), streq_iff hlt, hl]
  exact forall₂_congr fun j hj ↦ by rw [hname j (lt_of_le_of_lt hj hlt)]

/-- The search after the second transaction. -/
theorem Contents.findDirent_eq (hB : FsOk B) (hnew : findDirent (B rootDirLba) name.view = none)
    (s : CString) : findDirent (B' rootDirLba) s.view
      = if s = name then some slot else findDirent (B rootDirLba) s.view := by
  have hp : ∀ i, i < direntCount → i ≠ slot →
      (Dirent.used (B' rootDirLba) i != 0 && streq (Dirent.name (B' rootDirLba) i) s.view)
        = (Dirent.used (B rootDirLba) i != 0 && streq (Dirent.name (B rootDirLba) i) s.view) := by
    intro i hi h
    rw [(hc.dirent_of_ne h).1]
    by_cases hu : Dirent.used (B rootDirLba) i = 0
    · rw [hu]; rfl
    · rw [hc.streq_of_ne h (hB.entry i hi hu)]
  split
  · subst s
    refine Search.find?_range_eq_some hr.slot_lt ?_ fun j hj hne ↦ ?_
    · rw [(hc.dirent_slot hr).1, (hc.streq_slot hr hlen _).2 rfl]; rfl
    · rw [hp j hj hne]
      exact Search.of_find?_range_none hnew hj
  · rename_i hs
    refine Search.find?_range_congr fun i hi ↦ ?_
    by_cases h : i = slot
    · subst h
      rw [hr.slot_free, Bool.eq_false_iff.2 (mt (hc.streq_slot hr hlen s).1 hs), Bool.and_false]
      rfl
    · exact hp i hi h

/-- **The second transaction adds one file** and changes no other. -/
theorem Contents.lookup_eq (hB : FsOk B) (hnew : findDirent (B rootDirLba) name.view = none)
    (s : CString) : lookup B' s.view
      = if s = name then some ((List.range size).map dataBlk.get) else lookup B s.view := by
  rw [lookup, hc.findDirent_eq hr hlen hB hnew]
  split
  · rw [Option.map_some, (hc.dirent_slot hr).2.1, contents, hc.inodeTable_eq hr, hr.size_eq,
      hr.direct_eq, hc.data]
  · rw [lookup]
    cases h : findDirent (B rootDirLba) s.view with
    | none => rw [Option.map_none, Option.map_none]
    | some i =>
      obtain ⟨hi, hu, -⟩ := findDirent_some h
      have he := hB.entry i hi hu
      have hne : i ≠ slot := fun hs ↦ hu (hs ▸ hr.slot_free)
      have ht := hc.inodeTable_eq hr
      rw [Option.map_some, Option.map_some, (hc.dirent_of_ne hne).2.1]
      refine congrArg some (contents_congr (by rw [ht]) (by rw [ht]) (hc.rest _ ?_ ?_))
      · exact (lt_of_lt_of_le (by decide) he.direct_ge).ne'
      · exact hr.blk_ne i hi hu

end Lookup

end M16
end Mcsos
