import Mcsos.Lib.Search
import Mcsos.Mcsfs1j.FileSystem
import Mcsos.Mcsfs1j.Recovery

/-!
# Consistency of the journalled file system

`FsOk B` is the invariant of the home blocks: the superblock is readable, the root inode and the
reserved blocks are marked, and every live directory entry has a proper name and points to a marked
file inode whose data block is a marked data block.  It is what `m16_fsck` checks (`fsck_of_fsOk`),
and it makes `m16_read_file` compute the abstract lookup (`readFile_of_fsOk`).

Both are about a disk whose journal is empty; a disk is reduced to such a one by recovery, and
since recovery touches nothing else, only agreement of the home blocks matters (`FsOk.congr`,
`lookup_congr`).
-/

set_option autoImplicit false

namespace Mcsos
namespace M16

open Bytes WriteLog Program

/-! ## The invariant -/

/-- The tests of `m16_mount`. -/
structure SuperOk (sb : Block) : Prop where
  magic : Super.magic sb = magic
  version : Super.version sb = version
  blockSize : Super.blockSize sb = blockSize
  dataStart : Super.dataStartLba sb = dataStartLba
  rootDir : Super.rootDirLba sb = rootDirLba

/-- The inode table of a disk. -/
def inodeTable (B : ℕ → Block) : Inodes :=
  Buf.ofView _ fun k ↦ (B (inodeTableLba + k / blockSize)).get (k % blockSize)

/-- The inode number of directory entry `i`. -/
abbrev inoAt (B : ℕ → Block) (i : ℕ) : ℕ := Dirent.ino (B rootDirLba) i

/-- Directory entry `i` names a file that is all there. -/
structure EntryOk (B : ℕ → Block) (i : ℕ) : Prop where
  ino_lt : inoAt B i < maxInodes
  ino_marked : (B inodeBitmapLba).bitTest (inoAt B i) = true
  used : (inodeTable B).used (inoAt B i) ≠ 0
  kind : (inodeTable B).kind (inoAt B i) = 1
  size_le : (inodeTable B).size (inoAt B i) ≤ blockSize
  direct_ge : dataStartLba ≤ (inodeTable B).direct (inoAt B i)
  direct_lt : (inodeTable B).direct (inoAt B i) < maxBlocks
  direct_marked : (B blockBitmapLba).bitTest ((inodeTable B).direct (inoAt B i)) = true
  name_lt : strnlen (Dirent.name (B rootDirLba) i) maxName < maxName

/-- The invariant of the home blocks. -/
structure FsOk (B : ℕ → Block) : Prop where
  super : SuperOk (B 0)
  root_marked : (B inodeBitmapLba).bitTest 0 = true
  root_used : (inodeTable B).used 0 = 1
  root_kind : (inodeTable B).kind 0 = 2
  root_direct : (inodeTable B).direct 0 = rootDirLba
  reserved : ∀ b, b < dataStartLba → (B blockBitmapLba).bitTest b = true
  entry : ∀ i, i < direntCount → Dirent.used (B rootDirLba) i ≠ 0 → EntryOk B i

/-- The bytes of the file with inode `ino`. -/
def contents (B : ℕ → Block) (ino : ℕ) : List UInt8 :=
  (List.range ((inodeTable B).size ino)).map (B ((inodeTable B).direct ino)).get

/-- The file that a name stands for. -/
def lookup (B : ℕ → Block) (name : ℕ → UInt8) : Option (List UInt8) :=
  (findDirent (B rootDirLba) name).map fun i ↦ contents B (inoAt B i)

/-! ## Only the home blocks matter -/

variable {B B' : ℕ → Block} {d : Blockdev}

theorem inodeTable_congr (h : AgreeOn IsHome B B') : inodeTable B = inodeTable B' := by
  refine Buf.ext_get fun k hk ↦ ?_
  rw [inodeTable, inodeTable, Buf.get_ofView_of_lt _ hk, Buf.get_ofView_of_lt _ hk,
    h _ (isHome_of_ge (Nat.le_add_right_of_le (by decide)))]

theorem FsOk.congr (hB : FsOk B) (h : AgreeOn IsHome B B') : FsOk B' := by
  have h0 := h 0 isHome_zero
  have h1 := h inodeBitmapLba (isHome_of_ge le_rfl)
  have h2 := h blockBitmapLba (isHome_of_ge (by decide))
  have h3 := inodeTable_congr h
  have h4 := h rootDirLba (isHome_of_ge (by decide))
  have he : ∀ i, EntryOk B i → EntryOk B' i := by
    rintro i ⟨a1, a2, a3, a4, a5, a6, a7, a8, a9⟩
    simp only [inoAt, h1, h2, h3, h4] at a1 a2 a3 a4 a5 a6 a7 a8 a9
    exact ⟨a1, a2, a3, a4, a5, a6, a7, a8, a9⟩
  refine ⟨h0 ▸ hB.super, h1 ▸ hB.root_marked, h3 ▸ hB.root_used, h3 ▸ hB.root_kind,
    h3 ▸ hB.root_direct, h2 ▸ hB.reserved, fun i hi hu ↦ he i (hB.entry i hi ?_)⟩
  rwa [h4]

theorem findDirent_some {dir : Block} {name : ℕ → UInt8} {i : ℕ}
    (h : findDirent dir name = some i) :
    i < direntCount ∧ Dirent.used dir i ≠ 0 ∧ streq (Dirent.name dir i) name = true := by
  obtain ⟨h1, h2⟩ := Search.of_find?_range h
  rw [Bool.and_eq_true, bne_iff_ne] at h2
  exact ⟨h1, h2⟩

/-- A file's bytes survive any change that leaves its inode and its data block alone. -/
theorem contents_congr {ino : ℕ} (h1 : (inodeTable B').size ino = (inodeTable B).size ino)
    (h2 : (inodeTable B').direct ino = (inodeTable B).direct ino)
    (h3 : B' ((inodeTable B).direct ino) = B ((inodeTable B).direct ino)) :
    contents B' ino = contents B ino := by
  rw [contents, contents, h1, h2, h3]

theorem lookup_congr (hB : FsOk B) (h : AgreeOn IsHome B B') : lookup B' = lookup B := by
  funext name
  have h4 := h rootDirLba (isHome_of_ge (by decide))
  rw [lookup, lookup, ← h4]
  cases hf : findDirent (B rootDirLba) name with
  | none => rw [Option.map_none, Option.map_none]
  | some i =>
    obtain ⟨hi, hu, -⟩ := findDirent_some hf
    have he := hB.entry i hi hu
    have ha : inoAt B' i = inoAt B i := by rw [inoAt, inoAt, h4]
    rw [Option.map_some, Option.map_some, ha]
    have ht := inodeTable_congr h
    refine congrArg some (contents_congr (by rw [ht]) (by rw [ht]) ?_)
    refine (h _ (isHome_of_ge ?_)).symm
    exact le_trans (by decide) he.direct_ge

/-! ## Running the readers -/

theorem readBlock_of_lt (hT : dataStartLba ≤ d.totalBlocks) {lba : ℕ} (h : lba < dataStartLba) :
    readBlock lba d = .ok (d.blocks lba) d :=
  readBlock_of_valid (valid_of_lt_dataStart hT h)

theorem loadInodeTableFrom_eq (hT : dataStartLba ≤ d.totalBlocks) {n i : ℕ}
    (hn : i + n ≤ inodeTableBlocks) (t : Inodes) :
    loadInodeTableFrom n i t d = .ok (Buf.ofView _ fun k ↦
      if i * blockSize ≤ k ∧ k < (i + n) * blockSize then
        (d.blocks (inodeTableLba + k / blockSize)).get (k % blockSize) else t.get k) d := by
  induction n generalizing i t with
  | zero =>
    rw [loadInodeTableFrom]
    refine congrArg (fun b ↦ EStateM.Result.ok b d) (Buf.ext_get fun k hk ↦ ?_)
    rw [Buf.get_ofView_of_lt _ hk, if_neg (by rw [Nat.add_zero]; omega)]
  | succ n ih =>
    have hi : inodeTableLba + i < dataStartLba :=
      Nat.lt_succ_of_lt (Nat.add_lt_add_left (by omega : i < inodeTableBlocks) _)
    rw [loadInodeTableFrom, bind_of_ok (readBlock_of_lt hT hi), ih (by omega)]
    refine congrArg (fun b ↦ EStateM.Result.ok b d) (Buf.ext_get fun k hk ↦ ?_)
    rw [Buf.get_ofView_of_lt _ hk, Buf.get_ofView_of_lt _ hk]
    simp only [blockSize] at *
    by_cases hblk : k / 512 = i
    · have h1 : ¬ ((i + 1) * 512 ≤ k ∧ k < (i + 1 + n) * 512) := by omega
      have h2 : i * 512 ≤ k ∧ k < (i + (n + 1)) * 512 := by omega
      rw [if_neg h1, if_pos h2, Buf.get_copy_of_mem (by omega) (by omega) hk, hblk]
      congr 1
      omega
    · rw [Buf.get_copy_of_not_mem (by omega)]
      exact if_congr (by omega) rfl rfl

theorem loadInodeTable_eq (hT : dataStartLba ≤ d.totalBlocks) :
    loadInodeTable d = .ok (inodeTable d.blocks) d := by
  rw [loadInodeTable, loadInodeTableFrom_eq hT le_rfl]
  refine congrArg (fun b ↦ EStateM.Result.ok b d) (Buf.ext_get fun k hk ↦ ?_)
  rw [inodeTable, Buf.get_ofView_of_lt _ hk, Buf.get_ofView_of_lt _ hk]
  refine if_pos ?_
  simp only [maxInodes, inodeSize, blockSize, inodeTableBlocks] at *
  omega

theorem mount_of_ok {d' : Blockdev} (hT : dataStartLba ≤ d'.totalBlocks)
    (hr : journalRecover d = .ok () d') (hs : SuperOk (d'.blocks 0)) :
    mount d = .ok (d'.blocks 0) d' := by
  rw [mount, bind_of_ok hr, bind_of_ok (readBlock_of_lt hT (by decide)),
    bind_of_ok (failIf_of_neg (by simp only [hs.magic, hs.version, hs.blockSize, ne_eq,
      not_true_eq_false, or_self, not_false_eq_true]) _ _),
    bind_of_ok (failIf_of_neg (by simp only [hs.dataStart, hs.rootDir, ne_eq, not_true_eq_false,
      or_self, not_false_eq_true]) _ _)]
  rfl

theorem mount_of_error {d' : Blockdev} {e : Err} (hr : journalRecover d = .error e d') :
    mount d = .error e d' := by
  rw [mount, bind_of_error hr]

/-- An entry that names a file that is all there passes the check. -/
theorem fsckDirent_of_entryOk {i : ℕ} (h : EntryOk B i) (d : Blockdev) :
    fsckDirent (B inodeBitmapLba) (B blockBitmapLba) (inodeTable B) (B rootDirLba) maxBlocks i d
      = .ok () d := by
  have h1 : ¬ (inoAt B i ≥ maxInodes ∨ (B inodeBitmapLba).bitTest (inoAt B i) = false) := by
    rw [not_or, not_le, Bool.not_eq_false]
    exact ⟨h.ino_lt, h.ino_marked⟩
  have h2 : ¬ ((inodeTable B).used (inoAt B i) = 0 ∨ (inodeTable B).kind (inoAt B i) ≠ 1 ∨
      (inodeTable B).size (inoAt B i) > blockSize) := by
    rw [not_or, not_or, not_not, not_lt]
    exact ⟨h.used, h.kind, h.size_le⟩
  have h3 : ¬ ((inodeTable B).direct (inoAt B i) < dataStartLba ∨
      (inodeTable B).direct (inoAt B i) ≥ maxBlocks ∨
      (B blockBitmapLba).bitTest ((inodeTable B).direct (inoAt B i)) = false) := by
    rw [not_or, not_or, not_lt, not_le, Bool.not_eq_false]
    exact ⟨h.direct_ge, h.direct_lt, h.direct_marked⟩
  rw [fsckDirent]
  split
  · rw [bind_of_ok (failIf_of_neg h1 _ _)]
    show (failIf _ _ >>= fun _ ↦ failIf _ _) d = _
    rw [bind_of_ok (failIf_of_neg h2 _ _)]
    exact failIf_of_neg h3 _ _
  · rfl

/-- **A consistent file system passes the check.** -/
theorem fsck_of_fsOk (h128 : d.totalBlocks = maxBlocks)
    (hc : headerIsClear (d.blocks journalStart) = true) (hB : FsOk d.blocks) :
    fsck d = .ok () d := by
  have hT := dataStart_le h128
  rw [fsck, bind_of_ok (mount_of_ok hT (journalRecover_of_clear hT hc) hB.super),
    bind_of_ok (readBlock_of_lt hT (by decide)), bind_of_ok (readBlock_of_lt hT (by decide)),
    bind_of_ok (loadInodeTable_eq hT), bind_of_ok (readBlock_of_lt hT (by decide)),
    bind_of_ok (failIf_of_neg (by simp only [hB.root_marked, hB.root_used, hB.root_kind,
      hB.root_direct, Bool.true_eq_false, ne_eq, not_true_eq_false, or_self,
      not_false_eq_true]) _ _),
    bind_of_ok (forM_of_ok fun b hb ↦ failIf_of_neg (by
      rw [hB.reserved b (List.mem_range.1 hb)]; decide) _ _), bind_of_ok (get_apply d)]
  refine forM_of_ok fun i hi ↦ ?_
  by_cases hu : Dirent.used (d.blocks rootDirLba) i = 0
  · rw [fsckDirent, if_neg (not_not.2 hu)]
    rfl
  · rw [h128]
    exact fsckDirent_of_entryOk (hB.entry i (List.mem_range.1 hi) hu) d

theorem lookup_eq_none {name : ℕ → UInt8} (h : lookup B name = none) :
    findDirent (B rootDirLba) name = none :=
  Option.map_eq_none_iff.1 h

/-- What the lookup has found a file by. -/
theorem lookup_eq_some {name : ℕ → UInt8} {bytes : List UInt8} (h : lookup B name = some bytes) :
    ∃ i, findDirent (B rootDirLba) name = some i ∧ contents B (inoAt B i) = bytes :=
  Option.map_eq_some_iff.1 h

/-- The part of `m16_read_file` in front of its copy: the block that is copied from, and how many
bytes of it. -/
def locate (name : ℕ → UInt8) (outCap : ℕ) : M (Block × ℕ) := do
  let _ ← mount
  let inodes ← loadInodeTable
  let dir ← readBlock rootDirLba
  let slot ← expect (findDirent dir name) .noent
  let ino := Dirent.ino dir slot
  failIf (ino ≥ maxInodes ∨ inodes.used ino = 0 ∨ inodes.kind ino ≠ 1) .corrupt
  let dev ← get
  failIf (inodes.size ino > outCap ∨ inodes.direct ino ≥ dev.totalBlocks) .inval
  let blk ← readBlock (inodes.direct ino)
  return (blk, inodes.size ino)

theorem readFile_eq_bind (name : ℕ → UInt8) (cap : ℕ) : readFile name cap = (do
    let r ← locate name cap
    return (List.range r.2).map r.1.get) := by
  simp only [readFile, locate, bind_assoc, pure_bind]

/-- What `m16_read_file` finds on a disk that it gets as far as its copy on. -/
structure Arrives (d : Blockdev) (name : ℕ → UInt8) (cap slot : ℕ) : Prop where
  super : SuperOk (d.blocks 0)
  find : findDirent (d.blocks rootDirLba) name = some slot
  ino_lt : inoAt d.blocks slot < maxInodes
  used : (inodeTable d.blocks).used (inoAt d.blocks slot) ≠ 0
  kind : (inodeTable d.blocks).kind (inoAt d.blocks slot) = 1
  size_le : (inodeTable d.blocks).size (inoAt d.blocks slot) ≤ cap
  direct_valid : validLba d ((inodeTable d.blocks).direct (inoAt d.blocks slot)) = true

theorem locate_of_arrives {d' : Blockdev} {name : ℕ → UInt8} {cap slot : ℕ}
    (hT : dataStartLba ≤ d'.totalBlocks) (hr : journalRecover d = .ok () d')
    (h : Arrives d' name cap slot) :
    locate name cap d = .ok (d'.blocks ((inodeTable d'.blocks).direct (inoAt d'.blocks slot)),
      (inodeTable d'.blocks).size (inoAt d'.blocks slot)) d' := by
  have h1 : ¬ (inoAt d'.blocks slot ≥ maxInodes ∨
      (inodeTable d'.blocks).used (inoAt d'.blocks slot) = 0 ∨
      (inodeTable d'.blocks).kind (inoAt d'.blocks slot) ≠ 1) := by
    rintro (h' | h' | h')
    · exact absurd h.ino_lt (not_lt.2 h')
    · exact h.used h'
    · exact h' h.kind
  have h2 : ¬ ((inodeTable d'.blocks).size (inoAt d'.blocks slot) > cap ∨
      (inodeTable d'.blocks).direct (inoAt d'.blocks slot) ≥ d'.totalBlocks) := by
    rintro (h' | h')
    · exact absurd h.size_le (not_le.2 h')
    · exact absurd (validLba_iff.1 h.direct_valid).1 (not_lt.2 h')
  rw [locate, bind_of_ok (mount_of_ok hT hr h.super), bind_of_ok (loadInodeTable_eq hT),
    bind_of_ok (readBlock_of_lt hT (by decide)), h.find, bind_of_ok (expect_some slot _ _)]
  show (failIf _ _ >>= fun _ ↦ _) d' = _
  rw [bind_of_ok (failIf_of_neg h1 _ _), bind_of_ok (get_apply d'),
    bind_of_ok (failIf_of_neg h2 _ _), bind_of_ok (readBlock_of_valid h.direct_valid)]
  rfl

section Read

variable (hT : dataStartLba ≤ d.totalBlocks) (hc : headerIsClear (d.blocks journalStart) = true)
  (hB : FsOk d.blocks) {name : ℕ → UInt8}

include hT hc hB

theorem readFile_of_lookup_eq_none (cap : ℕ) (h : lookup d.blocks name = none) :
    readFile name cap d = .error .noent d := by
  rw [readFile, bind_of_ok (mount_of_ok hT (journalRecover_of_clear hT hc) hB.super),
    bind_of_ok (loadInodeTable_eq hT), bind_of_ok (readBlock_of_lt hT (by decide)),
    lookup_eq_none h]
  rfl

/-- A file whose data block is on the device is read, if the buffer is large enough. -/
theorem readFile_of_lookup_eq_some {bytes : List UInt8} (h : lookup d.blocks name = some bytes)
    {cap : ℕ} (hcap : bytes.length ≤ cap)
    (hv : ∀ i, i < direntCount → Dirent.used (d.blocks rootDirLba) i ≠ 0 →
      (inodeTable d.blocks).direct (inoAt d.blocks i) < d.totalBlocks) :
    readFile name cap d = .ok bytes d := by
  obtain ⟨i, hf, rfl⟩ := lookup_eq_some h
  obtain ⟨hi, hu, -⟩ := findDirent_some hf
  have he := hB.entry i hi hu
  rw [contents, List.length_map, List.length_range] at hcap
  have harrives : Arrives d name cap i :=
    ⟨hB.super, hf, he.ino_lt, he.used, he.kind, hcap,
      validLba_iff.2 ⟨hv i hi hu, he.direct_lt⟩⟩
  rw [readFile_eq_bind, bind_of_ok (locate_of_arrives hT (journalRecover_of_clear hT hc) harrives)]
  rfl

end Read

theorem length_contents_le (hB : FsOk B) {name : ℕ → UInt8} {bytes : List UInt8}
    (h : lookup B name = some bytes) : bytes.length ≤ blockSize := by
  obtain ⟨i, hf, rfl⟩ := lookup_eq_some h
  obtain ⟨hi, hu, -⟩ := findDirent_some hf
  rw [contents, List.length_map, List.length_range]
  exact (hB.entry i hi hu).size_le

/-- **Reading computes the lookup.** -/
theorem readFile_of_fsOk (h128 : d.totalBlocks = maxBlocks)
    (hc : headerIsClear (d.blocks journalStart) = true) (hB : FsOk d.blocks) (name : ℕ → UInt8)
    {cap : ℕ} (hcap : blockSize ≤ cap) :
    readFile name cap d = match lookup d.blocks name with
      | some bytes => .ok bytes d
      | none => .error .noent d := by
  have hT := dataStart_le h128
  cases h : lookup d.blocks name with
  | none => exact readFile_of_lookup_eq_none hT hc hB cap h
  | some bytes =>
    refine readFile_of_lookup_eq_some hT hc hB h ((length_contents_le hB h).trans hcap) ?_
    intro i hi hu
    rw [h128]
    exact (hB.entry i hi hu).direct_lt

end M16
end Mcsos
