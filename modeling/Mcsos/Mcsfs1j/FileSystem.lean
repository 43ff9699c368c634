import Mcsos.Lib.CString
import Mcsos.Mcsfs1j.Journal

/-!
# The journalled file system

One directory of twelve entries, sixteen inodes, one data block per file.  Files are created by
`writeFileEx` and read back by `readFile`; there is no update and no removal.  A creation is two
transactions: the first marks the inode and the block and fills in the inode, the second writes the
directory and the data.

Every entry point starts with `mount`, hence with a recovery of the journal.
-/

set_option autoImplicit false

namespace Mcsos
namespace M16

open Bytes WriteLog Program

/-! ## Strings and bitmaps -/

/-- `m16_strlen_bounded` -/
def strlenBounded (s : ℕ → UInt8) (max : ℕ) : ℕ := strnlen s max

/-- The loop of `m16_streq`, with `n` bytes to go from byte `i` on. -/
def streqFrom (a b : ℕ → UInt8) : ℕ → ℕ → Bool
  | 0, _ => true
  | n + 1, i => if a i ≠ b i then false else if a i = 0 then true else streqFrom a b n (i + 1)

/-- `m16_streq` -/
def streq (a b : ℕ → UInt8) : Bool := streqFrom a b maxName 0

/-! ## On-disk structures -/

/-! The fields of `struct m16_super` that are read back -/

namespace Super

def magic (sb : Block) : ℕ := sb.field 0 8
def version (sb : Block) : ℕ := sb.field 8 4
def blockSize (sb : Block) : ℕ := sb.field 12 4
def rootDirLba (sb : Block) : ℕ := sb.field 44 4
def dataStartLba (sb : Block) : ℕ := sb.field 48 4
def cleanGeneration (sb : Block) : ℕ := sb.field 52 4

end Super

/-- The superblock that `m16_format` writes. -/
def superBlock (totalBlocks : ℕ) : Block :=
  (Buf.zero M16.blockSize).setField 0 8 magic
    |>.setField 8 4 version
    |>.setField 12 4 blockSize
    |>.setField 16 4 totalBlocks
    |>.setField 20 4 journalStart
    |>.setField 24 4 journalBlocks
    |>.setField 28 4 inodeBitmapLba
    |>.setField 32 4 blockBitmapLba
    |>.setField 36 4 inodeTableLba
    |>.setField 40 4 inodeTableBlocks
    |>.setField 44 4 rootDirLba
    |>.setField 48 4 dataStartLba
    |>.setField 52 4 1

@[simp] abbrev inodeSize : ℕ := 128

/-- `struct m16_inode inodes[M16_MAX_INODES]` -/
abbrev Inodes : Type := Buf (maxInodes * inodeSize)

namespace Inodes

def used (t : Inodes) (ino : ℕ) : ℕ := t.field (ino * inodeSize) 4
def kind (t : Inodes) (ino : ℕ) : ℕ := t.field (ino * inodeSize + 4) 4
def size (t : Inodes) (ino : ℕ) : ℕ := t.field (ino * inodeSize + 8) 4
/-- `direct[0]`; the other three entries are never used. -/
def direct (t : Inodes) (ino : ℕ) : ℕ := t.field (ino * inodeSize + 12) 4

/-- Fill in the four fields of an inode. -/
def set (t : Inodes) (ino used kind size direct : ℕ) : Inodes :=
  t.setField (ino * inodeSize) 4 used
    |>.setField (ino * inodeSize + 4) 4 kind
    |>.setField (ino * inodeSize + 8) 4 size
    |>.setField (ino * inodeSize + 12) 4 direct

/-- Block `i` of the table. -/
def block (t : Inodes) (i : ℕ) : Block := Buf.ofView blockSize fun k ↦ t.get (i * blockSize + k)

end Inodes

@[simp] abbrev direntSize : ℕ := 40

/-- The number of directory entries in a block. -/
@[simp] abbrev direntCount : ℕ := blockSize / direntSize

namespace Dirent

def used (dir : Block) (i : ℕ) : ℕ := dir.field (i * direntSize) 4
def ino (dir : Block) (i : ℕ) : ℕ := dir.field (i * direntSize + 4) 4
def name (dir : Block) (i k : ℕ) : UInt8 := dir.get (i * direntSize + 8 + k)

/-- Fill in an entry: the name is zeroed and then copied without its terminator. -/
def set (dir : Block) (i used ino : ℕ) (name : ℕ → UInt8) (nameLen : ℕ) : Block :=
  dir.setField (i * direntSize) 4 used
    |>.setField (i * direntSize + 4) 4 ino
    |>.copy (i * direntSize + 8) (fun _ ↦ 0) maxName
    |>.copy (i * direntSize + 8) name nameLen

end Dirent

/-! ## The inode table -/

/-- The loop of `m16_load_inode_table`, with `n` blocks to go from block `i` on. -/
def loadInodeTableFrom : ℕ → ℕ → Inodes → M Inodes
  | 0, _, t => pure t
  | n + 1, i, t => do
    let b ← readBlock (inodeTableLba + i)
    loadInodeTableFrom n (i + 1) (t.copy (i * blockSize) b.get blockSize)

/-- `m16_load_inode_table`; all of the caller's buffer is overwritten. -/
def loadInodeTable : M Inodes := loadInodeTableFrom inodeTableBlocks 0 (Buf.zero _)

/-- The records of `m16_store_inode_table`. -/
def inodeTableRecords (t : Inodes) : Tx :=
  (List.range inodeTableBlocks).map fun i ↦ ⟨inodeTableLba + i, t.block i⟩

/-- `m16_store_inode_table` -/
def storeInodeTable (tx : Tx) (t : Inodes) : M Tx := do
  failIf (tx.length + inodeTableBlocks > journalMaxRecords) .nospc
  return tx ++ inodeTableRecords t

/-! ## Searching -/

/-- `m16_find_free_inode` -/
def findFreeInode (ib : Block) : Option ℕ :=
  (List.range' 1 (maxInodes - 1)).find? fun i ↦ !ib.bitTest i

/-- `m16_find_free_block` -/
def findFreeBlock (bb : Block) : Option ℕ :=
  (List.range' dataStartLba (maxBlocks - dataStartLba)).find? fun i ↦ !bb.bitTest i

/-- `m16_find_dirent` -/
def findDirent (dir : Block) (name : ℕ → UInt8) : Option ℕ :=
  (List.range direntCount).find? fun i ↦ Dirent.used dir i != 0 && streq (Dirent.name dir i) name

/-- `m16_find_free_dirent` -/
def findFreeDirent (dir : Block) : Option ℕ :=
  (List.range direntCount).find? fun i ↦ Dirent.used dir i == 0

/-! ## The operations -/

/-- The block bitmap of a fresh file system: everything before the data blocks is taken. -/
def formatBlockBitmap : Block :=
  (List.range dataStartLba).foldl (fun b i ↦ b.bitSet i) (Buf.zero blockSize)

/-- The inode table of a fresh file system: inode 0 is the root directory. -/
def formatInodes : Inodes := Inodes.set (Buf.zero _) 0 1 2 0 rootDirLba

/-- `m16_format` -/
def format : M Unit := do
  modify fun dev ↦ { dev with blocks := fun _ ↦ Buf.zero blockSize }
  let dev ← get
  writeBlock 0 (superBlock dev.totalBlocks)
  writeBlock inodeBitmapLba ((Buf.zero blockSize).bitSet 0)
  writeBlock blockBitmapLba formatBlockBitmap
  writeHome (inodeTableRecords formatInodes)
  writeBlock rootDirLba (Buf.zero blockSize)
  journalClear

/-- `m16_mount` -/
def mount : M Block := do
  journalRecover
  let sb ← readBlock 0
  failIf (Super.magic sb ≠ magic ∨ Super.version sb ≠ version ∨ Super.blockSize sb ≠ blockSize)
    .corrupt
  failIf (Super.dataStartLba sb ≠ dataStartLba ∨ Super.rootDirLba sb ≠ rootDirLba) .corrupt
  return sb

/-- The first transaction of `m16_write_file_ex`. -/
def metadataTx (ib bb : Block) (inodes : Inodes) : M Tx := do
  let tx ← txAdd [] inodeBitmapLba ib
  let tx ← txAdd tx blockBitmapLba bb
  storeInodeTable tx inodes

/-- The second transaction of `m16_write_file_ex`. -/
def contentsTx (dir : Block) (dataBlock : ℕ) (dataBlk : Block) : M Tx := do
  let tx ← txAdd [] rootDirLba dir
  txAdd tx dataBlock dataBlk

/-- `m16_write_file_ex` -/
def writeFileEx (name data : ℕ → UInt8) (size : ℕ) (stopAfterCommitRecord : ℤ) : M Unit := do
  let nameLen := strlenBounded name maxName
  failIf (nameLen = 0 ∨ nameLen ≥ maxName) .toolong
  failIf (size > blockSize) .inval
  let sb ← mount
  let ib ← readBlock inodeBitmapLba
  let bb ← readBlock blockBitmapLba
  let inodes ← loadInodeTable
  let dir ← readBlock rootDirLba
  failIf ((findDirent dir name).isSome = true) .exist
  let ino ← expect (findFreeInode ib) .nospc
  let dataBlock ← expect (findFreeBlock bb) .nospc
  let slot ← expect (findFreeDirent dir) .nospc
  let tx ← metadataTx (ib.bitSet ino) (bb.bitSet dataBlock)
    (inodes.set ino 1 1 size dataBlock)
  journalCommit tx (UInt32.ofNat (Super.cleanGeneration sb) + 1) 0
  let tx ← contentsTx (Dirent.set dir slot 1 ino name nameLen) dataBlock
    ((Buf.zero blockSize).copy 0 data size)
  journalCommit tx (UInt32.ofNat (Super.cleanGeneration sb) + 2) stopAfterCommitRecord

/-- `m16_write_file` -/
def writeFile (name data : ℕ → UInt8) (size : ℕ) : M Unit := writeFileEx name data size 0

/-- `m16_read_file`; the result is what has been copied to `out`, its length `*out_size`. -/
def readFile (name : ℕ → UInt8) (outCap : ℕ) : M (List UInt8) := do
  let _ ← mount
  let inodes ← loadInodeTable
  let dir ← readBlock rootDirLba
  let slot ← expect (findDirent dir name) .noent
  let ino := Dirent.ino dir slot
  failIf (ino ≥ maxInodes ∨ inodes.used ino = 0 ∨ inodes.kind ino ≠ 1) .corrupt
  let dev ← get
  failIf (inodes.size ino > outCap ∨ inodes.direct ino ≥ dev.totalBlocks) .inval
  let blk ← readBlock (inodes.direct ino)
  return (List.range (inodes.size ino)).map blk.get

/-- The checks of `m16_fsck` on one directory entry. -/
def fsckDirent (ib bb : Block) (inodes : Inodes) (dir : Block) (totalBlocks i : ℕ) : M Unit :=
  if Dirent.used dir i ≠ 0 then do
    let ino := Dirent.ino dir i
    failIf (ino ≥ maxInodes ∨ ib.bitTest ino = false) .corrupt
    failIf (inodes.used ino = 0 ∨ inodes.kind ino ≠ 1 ∨ inodes.size ino > blockSize) .corrupt
    failIf (inodes.direct ino < dataStartLba ∨ inodes.direct ino ≥ totalBlocks ∨
      bb.bitTest (inodes.direct ino) = false) .corrupt
  else
    return ()

/-- `m16_fsck` -/
def fsck : M Unit := do
  let _ ← mount
  let ib ← readBlock inodeBitmapLba
  let bb ← readBlock blockBitmapLba
  let inodes ← loadInodeTable
  let dir ← readBlock rootDirLba
  failIf (ib.bitTest 0 = false ∨ inodes.used 0 ≠ 1 ∨ inodes.kind 0 ≠ 2 ∨
    inodes.direct 0 ≠ rootDirLba) .corrupt
  (List.range dataStartLba).forM fun b ↦ failIf (bb.bitTest b = false) .corrupt
  let dev ← get
  (List.range direntCount).forM (fsckDirent ib bb inodes dir dev.totalBlocks)

end M16
end Mcsos
