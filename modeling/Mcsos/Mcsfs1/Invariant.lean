import Mcsos.Mcsfs1.FileSystem

/-!
# MCSFS1: the metadata invariant

`Inv n B` is what the metadata of a disk of `n` blocks satisfies between any two block writes: every
live directory entry has an inode of its own, the inode is marked and well formed, its blocks are
marked data blocks, and no block belongs to two places.  It says nothing about what is marked and
not referred to — that is what an operation that stops half-way leaves behind.

Each of the writes that the operations perform gets a lemma that says when it keeps the invariant:
the two bitmaps (`Inv.set_inodeBmap`, `Inv.set_blockBmap`), an inode (`Inv.set_inode`), the
directory (`Inv.add_entry`, `Inv.remove_entry`), and data blocks, which always do (`Inv.congr`).
-/

set_option autoImplicit false

namespace Mcsos
namespace Mcsfs1

open Bytes Program

/-! ## Reading a disk -/

/-- Inode `ino` of a disk. -/
def inodeAt (B : ℕ → Block) (ino : ℕ) : Inode := inodeIn (B (inodeLba ino)) (inodeOff ino)

/-- The disk with inode `ino` replaced. -/
def setInode (B : ℕ → Block) (ino : ℕ) (inode : Inode) : ℕ → Block :=
  Function.update B (inodeLba ino) ((B (inodeLba ino)).copy (inodeOff ino) inode.get inodeSize)

/-- The inode number in slot `i` of the directory. -/
abbrev slotIno (B : ℕ → Block) (i : ℕ) : ℕ := Dirent.ino (B rootDirLba) i

/-- Slot `i` is a directory slot in use. -/
def Live (B : ℕ → Block) (i : ℕ) : Prop := i < direntCount ∧ slotIno B i ≠ 0

/-- Block `j` of the file in slot `i`. -/
abbrev blockOf (B : ℕ → Block) (i j : ℕ) : ℕ := (inodeAt B (slotIno B i)).direct j

/-- An inode number that may be given to a file. -/
def FileIno (ino : ℕ) : Prop := 2 ≤ ino ∧ ino ≤ maxInodes

/-! ## The invariant -/

/-- An inode of a file on a disk of `n` blocks with block bitmap `bb`. -/
structure InodeOk (n : ℕ) (bb : Block) (inode : Inode) : Prop where
  mode : inode.mode = modeFile
  size_le : inode.size ≤ directBlocks * blockSize
  direct_ge : ∀ j, j < directBlocks → inode.direct j ≠ 0 → dataStartLba ≤ inode.direct j
  direct_lt : ∀ j, j < directBlocks → inode.direct j ≠ 0 → inode.direct j < n
  direct_marked : ∀ j, j < directBlocks → inode.direct j ≠ 0 → bb.bitTest (inode.direct j) = true
  filled : ∀ j, j < max (blocksNeeded inode.size) 1 → inode.direct j ≠ 0
  direct_inj : ∀ j j', j < directBlocks → j' < directBlocks → inode.direct j ≠ 0 →
    inode.direct j = inode.direct j' → j = j'

/-- The metadata invariant of a disk of `n` blocks. -/
structure Inv (n : ℕ) (B : ℕ → Block) : Prop where
  super : B sbLba = superBlock n
  reserved : ∀ b, b < dataStartLba → (B blockBmapLba).bitTest b = true
  root_marked : (B inodeBmapLba).bitTest rootIno = true
  root : inodeAt B rootIno = rootInode
  type : ∀ i, Live B i → Dirent.type (B rootDirLba) i = modeFile
  ino : ∀ i, Live B i → FileIno (slotIno B i)
  ino_marked : ∀ i, Live B i → (B inodeBmapLba).bitTest (slotIno B i) = true
  inode : ∀ i, Live B i → InodeOk n (B blockBmapLba) (inodeAt B (slotIno B i))
  ino_inj : ∀ i i', Live B i → Live B i' → slotIno B i = slotIno B i' → i = i'
  block_inj : ∀ i i', Live B i → Live B i' → i ≠ i' → ∀ j j', j < directBlocks →
    j' < directBlocks → blockOf B i j ≠ 0 → blockOf B i j ≠ blockOf B i' j'

/-! ## Inodes in their blocks -/

variable {n : ℕ} {B B' : ℕ → Block} {ino : ℕ}

theorem inodeLba_ge (ino : ℕ) : inodeTableLba ≤ inodeLba ino := Nat.le_add_right _ _

theorem inodeLba_lt (h : ino ≤ maxInodes) : inodeLba ino < rootDirLba := by
  simp only [inodeLba, inodeTableLba, inodesPerBlock, blockSize, inodeSize, maxInodes,
    rootDirLba] at *
  omega

theorem inodeOff_add_le (ino : ℕ) : inodeOff ino + inodeSize ≤ blockSize := by
  have : (ino - 1) % 8 < 8 := Nat.mod_lt _ (by decide)
  simp only [inodeOff, inodesPerBlock, blockSize, inodeSize]
  omega

theorem inodeAt_congr (h : ∀ x, inodeTableLba ≤ x → x < rootDirLba → B' x = B x)
    (hi : ino ≤ maxInodes) : inodeAt B' ino = inodeAt B ino := by
  rw [inodeAt, inodeAt, h _ (inodeLba_ge ino) (inodeLba_lt hi)]

theorem inodeIn_get {b : Block} {off k : ℕ} (hk : k < inodeSize) :
    (inodeIn b off).get k = b.get (off + k) := by
  rw [inodeIn, Buf.get_ofView_of_lt _ hk]

theorem inodeAt_setInode_self (B : ℕ → Block) (ino : ℕ) (inode : Inode) :
    inodeAt (setInode B ino inode) ino = inode := by
  refine Buf.ext_get fun k hk ↦ ?_
  have hoff := inodeOff_add_le ino
  rw [inodeAt, setInode, Function.update_self, inodeIn_get hk,
    Buf.get_copy_of_mem (Nat.le_add_right _ _) (by omega) (by omega), Nat.add_sub_cancel_left]

/-- Different inodes of the same block do not overlap. -/
theorem inodeOff_disjoint {j : ℕ} (hi : 0 < ino) (hj : 0 < j) (hne : j ≠ ino)
    (hb : inodeLba j = inodeLba ino) :
    inodeOff j + inodeSize ≤ inodeOff ino ∨ inodeOff ino + inodeSize ≤ inodeOff j := by
  simp only [inodeLba, inodeOff, inodesPerBlock, blockSize, inodeSize] at *
  omega

theorem inodeAt_setInode_of_ne {j : ℕ} (hi : 0 < ino) (hj : 0 < j) (hne : j ≠ ino) (inode : Inode) :
    inodeAt (setInode B ino inode) j = inodeAt B j := by
  by_cases hb : inodeLba j = inodeLba ino
  · refine Buf.ext_get fun k hk ↦ ?_
    have hd := inodeOff_disjoint hi hj hne hb
    rw [inodeAt, inodeAt, setInode, hb, Function.update_self, inodeIn_get hk, inodeIn_get hk,
      Buf.get_copy_of_not_mem (by omega)]
  · rw [inodeAt, inodeAt, setInode, Function.update_of_ne hb]

theorem setInode_of_not_table {x : ℕ} (hi : ino ≤ maxInodes)
    (hx : x < inodeTableLba ∨ rootDirLba ≤ x) (inode : Inode) : setInode B ino inode x = B x := by
  have h1 := inodeLba_ge ino
  have h2 := inodeLba_lt hi
  exact Function.update_of_ne (by omega) _ _

/-- Entries depend on the directory block only. -/
theorem live_congr (h : B' rootDirLba = B rootDirLba) : Live B' = Live B := by
  funext i; rw [Live, Live, slotIno, slotIno, h]

theorem slotIno_congr (h : B' rootDirLba = B rootDirLba) : slotIno B' = slotIno B := by
  funext i; rw [slotIno, slotIno, h]

theorem FileIno.pos (h : FileIno ino) : 0 < ino := lt_of_lt_of_le (by decide) h.1

theorem FileIno.ne_root (h : FileIno ino) : ino ≠ rootIno := (lt_of_lt_of_le (by decide) h.1).ne'

theorem InodeOk.congr_marks {bb bb' : Block} {inode : Inode} (h : InodeOk n bb inode)
    (hm : ∀ j, j < directBlocks → inode.direct j ≠ 0 → bb'.bitTest (inode.direct j) = true) :
    InodeOk n bb' inode :=
  ⟨h.mode, h.size_le, h.direct_ge, h.direct_lt, hm, h.filled, h.direct_inj⟩

/-! ## Writes that keep the invariant -/

/-- A write that leaves the directory alone has to be checked for the entries that are there. -/
theorem Inv.of_dir_eq (h : Inv n B) (h0 : B' sbLba = B sbLba) (h7 : B' rootDirLba = B rootDirLba)
    (reserved : ∀ b, b < dataStartLba → (B' blockBmapLba).bitTest b = true)
    (root_marked : (B' inodeBmapLba).bitTest rootIno = true)
    (root : inodeAt B' rootIno = inodeAt B rootIno)
    (ino_marked : ∀ i, Live B i → (B' inodeBmapLba).bitTest (slotIno B i) = true)
    (inode : ∀ i, Live B i → InodeOk n (B' blockBmapLba) (inodeAt B' (slotIno B i)))
    (block_inj : ∀ i i', Live B i → Live B i' → i ≠ i' → ∀ j j', j < directBlocks →
      j' < directBlocks → (inodeAt B' (slotIno B i)).direct j ≠ 0 →
      (inodeAt B' (slotIno B i)).direct j ≠ (inodeAt B' (slotIno B i')).direct j') : Inv n B' := by
  have hslot := slotIno_congr h7
  have hlive := live_congr h7
  refine ⟨h0.trans h.super, reserved, root_marked, root.trans h.root, ?_, ?_, ?_, ?_, ?_, ?_⟩
  · rw [hlive, h7]; exact h.type
  · rw [hlive, hslot]; exact h.ino
  · rw [hlive, hslot]; exact ino_marked
  · rw [hlive, hslot]; exact inode
  · rw [hlive, hslot]; exact h.ino_inj
  · intro i i' hi hi' hne j j' hj hj'
    rw [hlive] at hi hi'
    have hb := block_inj i i' hi hi' hne j j' hj hj'
    rwa [← hslot] at hb

/-- A write that leaves the inodes alone as well. -/
theorem Inv.of_inodes_eq (h : Inv n B) (h0 : B' sbLba = B sbLba)
    (h36 : ∀ x, inodeTableLba ≤ x → x ≤ rootDirLba → B' x = B x)
    (reserved : ∀ b, b < dataStartLba → (B' blockBmapLba).bitTest b = true)
    (root_marked : (B' inodeBmapLba).bitTest rootIno = true)
    (ino_marked : ∀ i, Live B i → (B' inodeBmapLba).bitTest (slotIno B i) = true)
    (marked : ∀ i, Live B i → ∀ j, j < directBlocks → blockOf B i j ≠ 0 →
      (B' blockBmapLba).bitTest (blockOf B i j) = true) : Inv n B' := by
  have hino : ∀ j, j ≤ maxInodes → inodeAt B' j = inodeAt B j := fun j hj ↦
    inodeAt_congr (fun x h1 h2 ↦ h36 x h1 h2.le) hj
  have hnode : ∀ i, Live B i → inodeAt B' (slotIno B i) = inodeAt B (slotIno B i) := fun i hi ↦
    hino _ (h.ino i hi).2
  refine h.of_dir_eq h0 (h36 _ (by decide) le_rfl) reserved root_marked (hino _ (by decide))
    ino_marked (fun i hi ↦ ?_) fun i i' hi hi' hne j j' hj hj' hz ↦ ?_
  · rw [hnode i hi]; exact (h.inode i hi).congr_marks (marked i hi)
  · rw [hnode i hi] at hz ⊢
    rw [hnode i' hi']
    exact h.block_inj i i' hi hi' hne j j' hj hj' hz

/-- Only the blocks before the data blocks matter. -/
theorem Inv.congr (h : Inv n B) (hB : ∀ x, x < dataStartLba → B' x = B x) : Inv n B' := by
  have h1 : B' inodeBmapLba = B inodeBmapLba := hB _ (by decide)
  have h2 : B' blockBmapLba = B blockBmapLba := hB _ (by decide)
  refine h.of_inodes_eq (hB _ (by decide)) (fun x _ hx ↦ hB x (Nat.lt_succ_of_le hx)) ?_ ?_ ?_ ?_
  · rw [h2]; exact h.reserved
  · rw [h1]; exact h.root_marked
  · rw [h1]; exact h.ino_marked
  · rw [h2]; exact fun i hi ↦ (h.inode i hi).direct_marked

/-- The inode bitmap may change wherever no live entry needs it. -/
theorem Inv.set_inodeBmap (h : Inv n B) {ib : Block} (root_marked : ib.bitTest rootIno = true)
    (ino_marked : ∀ i, Live B i → ib.bitTest (slotIno B i) = true) :
    Inv n (Function.update B inodeBmapLba ib) := by
  have h1 : ∀ x, x ≠ inodeBmapLba → Function.update B inodeBmapLba ib x = B x := fun x hx ↦
    Function.update_of_ne hx _ _
  refine h.of_inodes_eq (h1 _ (by decide)) (fun x hx _ ↦ h1 x (lt_of_lt_of_le (by decide) hx).ne')
    ?_ ?_ ?_ ?_
  · rw [h1 _ (by decide)]; exact h.reserved
  · rw [Function.update_self]; exact root_marked
  · rw [Function.update_self]; exact ino_marked
  · rw [h1 _ (by decide)]; exact fun i hi ↦ (h.inode i hi).direct_marked

/-- The block bitmap may change wherever no live entry needs it. -/
theorem Inv.set_blockBmap (h : Inv n B) {bb : Block}
    (reserved : ∀ b, b < dataStartLba → bb.bitTest b = true)
    (marked : ∀ i, Live B i → ∀ j, j < directBlocks → blockOf B i j ≠ 0 →
      bb.bitTest (blockOf B i j) = true) : Inv n (Function.update B blockBmapLba bb) := by
  have h1 : ∀ x, x ≠ blockBmapLba → Function.update B blockBmapLba bb x = B x := fun x hx ↦
    Function.update_of_ne hx _ _
  refine h.of_inodes_eq (h1 _ (by decide)) (fun x hx _ ↦ h1 x (lt_of_lt_of_le (by decide) hx).ne')
    ?_ ?_ ?_ ?_
  · rw [Function.update_self]; exact reserved
  · rw [h1 _ (by decide)]; exact h.root_marked
  · rw [h1 _ (by decide)]; exact h.ino_marked
  · rw [Function.update_self]; exact marked

/-- An inode may be replaced if nothing live refers to it, or if the new one is as good. -/
theorem Inv.set_inode (h : Inv n B) (hf : FileIno ino) {inode : Inode}
    (hok : ∀ i, Live B i → slotIno B i = ino → InodeOk n (B blockBmapLba) inode ∧
      ∀ i', Live B i' → i' ≠ i → ∀ j j', j < directBlocks → j' < directBlocks →
        inode.direct j ≠ 0 → inode.direct j ≠ blockOf B i' j') :
    Inv n (setInode B ino inode) := by
  have hx : ∀ x, x < inodeTableLba ∨ rootDirLba ≤ x → setInode B ino inode x = B x := fun x hx ↦
    setInode_of_not_table hf.2 hx inode
  have hself : ∀ i, slotIno B i = ino →
      inodeAt (setInode B ino inode) (slotIno B i) = inode := fun i hi ↦ by
    rw [hi]; exact inodeAt_setInode_self B ino inode
  have hother : ∀ i, Live B i → slotIno B i ≠ ino →
      inodeAt (setInode B ino inode) (slotIno B i) = inodeAt B (slotIno B i) := fun i hi hne ↦
    inodeAt_setInode_of_ne hf.pos (h.ino i hi).pos hne inode
  refine h.of_dir_eq (hx _ (.inl (by decide))) (hx _ (.inr le_rfl)) ?_ ?_ ?_ ?_ (fun i hi ↦ ?_)
    fun i i' hi hi' hne j j' hj hj' hz ↦ ?_
  · rw [hx _ (.inl (by decide))]; exact h.reserved
  · rw [hx _ (.inl (by decide))]; exact h.root_marked
  · exact inodeAt_setInode_of_ne hf.pos (by decide) hf.ne_root.symm inode
  · rw [hx _ (.inl (by decide))]; exact h.ino_marked
  · rw [hx _ (.inl (by decide))]
    by_cases he : slotIno B i = ino
    · rw [hself i he]; exact (hok i hi he).1
    · rw [hother i hi he]; exact h.inode i hi
  · by_cases he : slotIno B i = ino
    · have he' : slotIno B i' ≠ ino := fun he' ↦ hne (h.ino_inj i i' hi hi' (he.trans he'.symm))
      rw [hself i he] at hz ⊢
      rw [hother i' hi' he']
      exact (hok i hi he).2 i' hi' hne.symm j j' hj hj' hz
    · rw [hother i hi he] at hz ⊢
      by_cases he' : slotIno B i' = ino
      · rw [hself i' he']
        intro heq
        rw [heq] at hz
        exact (hok i' hi' he').2 i hi hne j' j hj' hj hz heq.symm
      · rw [hother i' hi' he']
        exact h.block_inj i i' hi hi' hne j j' hj hj' hz

/-! ## Directory entries -/

section Dirent

variable {dir : Block} {i j ty len : ℕ} {name : ℕ → UInt8}

theorem Dirent.get_set_of_ne (h : j ≠ i) (hlen : len ≤ maxName) {k : ℕ} (hk : k < direntSize) :
    (Dirent.set dir i ino ty name len).get (j * direntSize + k) = dir.get (j * direntSize + k) := by
  have hne : j < i ∨ i < j := by omega
  simp only [Dirent.set, direntSize, maxName] at *
  rw [Buf.get_copy_of_not_mem (by omega), Buf.get_copy_of_not_mem (by omega),
    Buf.get_setField_of_not_mem (by omega), Buf.get_setField_of_not_mem (by omega)]

theorem Dirent.get_clear_of_ne (h : j ≠ i) {k : ℕ} (hk : k < direntSize) :
    (Dirent.clear dir i).get (j * direntSize + k) = dir.get (j * direntSize + k) := by
  have hne : j < i ∨ i < j := by omega
  simp only [Dirent.clear, direntSize] at *
  rw [Buf.get_copy_of_not_mem (by omega)]

/-- An entry is determined by its 32 bytes. -/
theorem Dirent.congr {dir' : Block}
    (h : ∀ k, k < direntSize → dir'.get (j * direntSize + k) = dir.get (j * direntSize + k)) :
    Dirent.ino dir' j = Dirent.ino dir j ∧ Dirent.type dir' j = Dirent.type dir j ∧
      ∀ k, k < maxName → Dirent.name dir' j k = Dirent.name dir j k := by
  refine ⟨Buf.field_congr fun p h1 h2 ↦ ?_, Buf.field_congr fun p h1 h2 ↦ ?_, fun k hk ↦ ?_⟩
  · obtain ⟨k, rfl⟩ := Nat.exists_eq_add_of_le h1
    exact h k (by simp only [direntSize]; omega)
  · obtain ⟨k, rfl⟩ := Nat.exists_eq_add_of_le h1
    rw [Nat.add_assoc]
    exact h _ (by simp only [direntSize]; omega)
  · rw [Dirent.name, Dirent.name, Nat.add_assoc]
    exact h _ (by simp only [direntSize, maxName] at *; omega)

/-- Filling in an entry leaves the others alone. -/
theorem Dirent.set_of_ne (h : j ≠ i) (hlen : len ≤ maxName) :
    Dirent.ino (Dirent.set dir i ino ty name len) j = Dirent.ino dir j ∧
      Dirent.type (Dirent.set dir i ino ty name len) j = Dirent.type dir j ∧
      ∀ k, k < maxName → Dirent.name (Dirent.set dir i ino ty name len) j k = Dirent.name dir j k :=
  Dirent.congr fun _ hk ↦ Dirent.get_set_of_ne h hlen hk

/-- Emptying an entry leaves the others alone. -/
theorem Dirent.clear_of_ne (h : j ≠ i) :
    Dirent.ino (Dirent.clear dir i) j = Dirent.ino dir j ∧
      Dirent.type (Dirent.clear dir i) j = Dirent.type dir j ∧
      ∀ k, k < maxName → Dirent.name (Dirent.clear dir i) j k = Dirent.name dir j k :=
  Dirent.congr fun _ hk ↦ Dirent.get_clear_of_ne h hk

theorem Dirent.ino_set_self (hi : i < direntCount) (hn : ino < 256 ^ 4) :
    Dirent.ino (Dirent.set dir i ino ty name len) i = ino := by
  have hb : i * direntSize + 4 ≤ blockSize := by
    simp only [direntCount, blockSize, direntSize] at *; omega
  rw [Dirent.ino, Dirent.set, Buf.field_copy_of_disjoint (by omega),
    Buf.field_copy_of_disjoint (by omega), Buf.field_setField_of_disjoint (by omega) hb,
    Buf.field_setField_same hb hn]

theorem Dirent.type_set_self (hi : i < direntCount) (ht : ty < 256 ^ 1) :
    Dirent.type (Dirent.set dir i ino ty name len) i = ty := by
  have hb : i * direntSize + 4 + 1 ≤ blockSize := by
    simp only [direntCount, blockSize, direntSize] at *; omega
  rw [Dirent.type, Dirent.set, Buf.field_copy_of_disjoint (by omega),
    Buf.field_copy_of_disjoint (by omega), Buf.field_setField_same hb ht]

/-- The name that is read back: the bytes copied, padded with zeros. -/
theorem Dirent.name_set_self (hi : i < direntCount) {k : ℕ} (hk : k < maxName) :
    Dirent.name (Dirent.set dir i ino ty name len) i k = if k < len then name k else 0 := by
  have hn : i * direntSize + 5 + k < blockSize := by
    simp only [direntCount, blockSize, direntSize, maxName] at *; omega
  rw [Dirent.name, Dirent.set]
  split
  · rw [Buf.get_copy_of_mem (by omega) (by omega) hn, Nat.add_sub_cancel_left]
  · rw [Buf.get_copy_of_not_mem (by omega), Buf.get_copy_of_mem (by omega) (by omega) hn]

theorem Dirent.ino_clear_self (hi : i < direntCount) : Dirent.ino (Dirent.clear dir i) i = 0 := by
  have hz : (Buf.zero blockSize).field (i * direntSize) 4 = 0 := Buf.field_zero ..
  rw [Dirent.ino, ← hz]
  refine Buf.field_congr fun p h1 h2 ↦ ?_
  simp only [direntCount, direntSize, blockSize] at *
  rw [Dirent.clear, Buf.get_copy_of_mem h1 (by simp only [direntSize]; omega) (by omega),
    Buf.get_zero]

end Dirent

/-- A new directory has to be checked entry by entry. -/
theorem Inv.set_dir (h : Inv n B) {dir : Block}
    (type : ∀ i, i < direntCount → Dirent.ino dir i ≠ 0 → Dirent.type dir i = modeFile)
    (ino : ∀ i, i < direntCount → Dirent.ino dir i ≠ 0 → FileIno (Dirent.ino dir i))
    (ino_marked : ∀ i, i < direntCount → Dirent.ino dir i ≠ 0 →
      (B inodeBmapLba).bitTest (Dirent.ino dir i) = true)
    (inode : ∀ i, i < direntCount → Dirent.ino dir i ≠ 0 →
      InodeOk n (B blockBmapLba) (inodeAt B (Dirent.ino dir i)))
    (inj : ∀ i i', i < direntCount → Dirent.ino dir i ≠ 0 → i' < direntCount →
      Dirent.ino dir i' ≠ 0 → i ≠ i' → Dirent.ino dir i ≠ Dirent.ino dir i' ∧
        ∀ j j', j < directBlocks → j' < directBlocks →
          (inodeAt B (Dirent.ino dir i)).direct j ≠ 0 →
          (inodeAt B (Dirent.ino dir i)).direct j ≠ (inodeAt B (Dirent.ino dir i')).direct j') :
    Inv n (Function.update B rootDirLba dir) := by
  have hx : ∀ x, x ≠ rootDirLba → Function.update B rootDirLba dir x = B x := fun x hx ↦
    Function.update_of_ne hx _ _
  have hslot : slotIno (Function.update B rootDirLba dir) = Dirent.ino dir := by
    funext i; rw [slotIno, Function.update_self]
  have hnode : ∀ k, k ≤ maxInodes → inodeAt (Function.update B rootDirLba dir) k = inodeAt B k :=
    fun k hk ↦ inodeAt_congr (fun x _ h2 ↦ hx x h2.ne) hk
  have hlive : ∀ i, Live (Function.update B rootDirLba dir) i →
      i < direntCount ∧ Dirent.ino dir i ≠ 0 := fun i hi ↦ by
    rwa [Live, hslot] at hi
  refine ⟨?_, ?_, ?_, ?_, fun i hi ↦ ?_, fun i hi ↦ ?_, fun i hi ↦ ?_, fun i hi ↦ ?_,
    fun i i' hi hi' he ↦ ?_, fun i i' hi hi' hne j j' hj hj' ↦ ?_⟩
  · rw [hx _ (by decide)]; exact h.super
  · rw [hx _ (by decide)]; exact h.reserved
  · rw [hx _ (by decide)]; exact h.root_marked
  · rw [hnode _ (by decide)]; exact h.root
  all_goals obtain ⟨h1, h2⟩ := hlive i hi
  · rw [Function.update_self]; exact type i h1 h2
  · rw [hslot]; exact ino i h1 h2
  · rw [hslot, hx _ (by decide)]; exact ino_marked i h1 h2
  · rw [hslot, hx _ (by decide), hnode _ (ino i h1 h2).2]; exact inode i h1 h2
  · obtain ⟨h1', h2'⟩ := hlive i' hi'
    by_contra hne
    rw [hslot] at he
    exact (inj i i' h1 h2 h1' h2' hne).1 he
  · obtain ⟨h1', h2'⟩ := hlive i' hi'
    have hb := (inj i i' h1 h2 h1' h2' hne).2 j j' hj hj'
    rwa [← hnode _ (ino i h1 h2).2, ← hnode _ (ino i' h1' h2').2, ← hslot] at hb

/-- An inode that no live entry refers to, nor any of its blocks. -/
structure Unreferenced (B : ℕ → Block) (ino : ℕ) (inode : Inode) : Prop where
  ino : ∀ i, Live B i → slotIno B i ≠ ino
  block : ∀ i, Live B i → ∀ j j', j < directBlocks → j' < directBlocks →
    inode.direct j ≠ 0 → inode.direct j ≠ blockOf B i j'

/-- A slot may be filled with an inode of its own. -/
theorem Inv.add_entry (h : Inv n B) {dir : Block} {slot : ℕ} (hself : Dirent.ino dir slot = ino)
    (hty : Dirent.type dir slot = modeFile)
    (hother : ∀ i, i ≠ slot → Dirent.ino dir i = slotIno B i ∧
      Dirent.type dir i = Dirent.type (B rootDirLba) i)
    (hf : FileIno ino) (hm : (B inodeBmapLba).bitTest ino = true)
    (hok : InodeOk n (B blockBmapLba) (inodeAt B ino)) (hu : Unreferenced B ino (inodeAt B ino)) :
    Inv n (Function.update B rootDirLba dir) := by
  have hlive : ∀ i, i < direntCount → Dirent.ino dir i ≠ 0 → i ≠ slot →
      Live B i ∧ Dirent.ino dir i = slotIno B i := fun i hi h0 hne ↦
    ⟨⟨hi, (hother i hne).1 ▸ h0⟩, (hother i hne).1⟩
  refine h.set_dir (fun i hi h0 ↦ ?_) (fun i hi h0 ↦ ?_) (fun i hi h0 ↦ ?_) (fun i hi h0 ↦ ?_)
    fun i i' hi h0 hi' h0' hne ↦ ?_
  all_goals by_cases hs : i = slot
  · rw [hs]; exact hty
  · rw [(hother i hs).2]; exact h.type i (hlive i hi h0 hs).1
  · rw [hs, hself]; exact hf
  · rw [(hother i hs).1]; exact h.ino i (hlive i hi h0 hs).1
  · rw [hs, hself]; exact hm
  · rw [(hother i hs).1]; exact h.ino_marked i (hlive i hi h0 hs).1
  · rw [hs, hself]; exact hok
  · rw [(hother i hs).1]; exact h.inode i (hlive i hi h0 hs).1
  · subst hs
    obtain ⟨hl', he'⟩ := hlive i' hi' h0' hne.symm
    rw [hself, he']
    exact ⟨(hu.ino i' hl').symm, fun j j' hj hj' hz ↦ hu.block i' hl' j j' hj hj' hz⟩
  · obtain ⟨hl, he⟩ := hlive i hi h0 hs
    rw [he]
    by_cases hs' : i' = slot
    · rw [hs', hself]
      refine ⟨hu.ino i hl, fun j j' hj hj' hz heq ↦ ?_⟩
      exact hu.block i hl j' j hj' hj (heq ▸ hz) heq.symm
    · obtain ⟨hl', he'⟩ := hlive i' hi' h0' hs'
      rw [he']
      exact ⟨fun heq ↦ hne (h.ino_inj i i' hl hl' heq), h.block_inj i i' hl hl' hne⟩

/-- Any slot may be emptied. -/
theorem Inv.remove_entry (h : Inv n B) {dir : Block} {slot : ℕ} (hself : Dirent.ino dir slot = 0)
    (hother : ∀ i, i ≠ slot → Dirent.ino dir i = slotIno B i ∧
      Dirent.type dir i = Dirent.type (B rootDirLba) i) :
    Inv n (Function.update B rootDirLba dir) := by
  have hlive : ∀ i, i < direntCount → Dirent.ino dir i ≠ 0 →
      i ≠ slot ∧ Live B i ∧ Dirent.ino dir i = slotIno B i := fun i hi h0 ↦ by
    have hne : i ≠ slot := fun hs ↦ h0 (hs ▸ hself)
    exact ⟨hne, ⟨hi, (hother i hne).1 ▸ h0⟩, (hother i hne).1⟩
  refine h.set_dir (fun i hi h0 ↦ ?_) (fun i hi h0 ↦ ?_) (fun i hi h0 ↦ ?_) (fun i hi h0 ↦ ?_)
    fun i i' hi h0 hi' h0' hne ↦ ?_
  all_goals obtain ⟨hs, hl, he⟩ := hlive i hi h0
  · rw [(hother i hs).2]; exact h.type i hl
  · rw [he]; exact h.ino i hl
  · rw [he]; exact h.ino_marked i hl
  · rw [he]; exact h.inode i hl
  · obtain ⟨hs', hl', he'⟩ := hlive i' hi' h0'
    rw [he, he']
    exact ⟨fun heq ↦ hne (h.ino_inj i i' hl hl' heq), h.block_inj i i' hl hl' hne⟩

end Mcsfs1
end Mcsos
