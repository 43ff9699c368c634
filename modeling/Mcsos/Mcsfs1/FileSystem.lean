import Mcsos.Mcsfs1.Device

/-!
# MCSFS1: the operations

A flat directory of files of up to eight blocks.  Nothing is journalled: an operation is a sequence
of single block writes, and it returns at the first access that fails.
-/

set_option autoImplicit false

namespace Mcsos
namespace Mcsfs1

open Bytes Program

variable (dev : Blkdev)

/-! ## Strings -/

/-- `mcsfs_strlen_bound` -/
def strlenBound (s : ℕ → UInt8) (maxPlusOne : ℕ) : ℕ := strnlen s maxPlusOne

/-- `mcsfs_memcmp`, with `n` bytes to go from byte `i` on. -/
def memcmpFrom (a b : ℕ → UInt8) : ℕ → ℕ → ℤ
  | 0, _ => 0
  | n + 1, i => if a i ≠ b i then (a i).toNat - (b i).toNat else memcmpFrom a b n (i + 1)

/-- `mcsfs_memcmp` -/
def memcmp (a b : ℕ → UInt8) (n : ℕ) : ℤ := memcmpFrom a b n 0

/-- The character that may not occur in a name. -/
def slash : UInt8 := 47

/-- `valid_name` -/
def validName (name : ℕ → UInt8) : M ℕ := do
  let n := strlenBound name (maxName + 1)
  failIf (n = 0) .inval
  failIf (n > maxName) .nametoolong
  failIf (∃ i, i < n ∧ name i = slash) .inval
  return n

/-! ## Superblock, inodes, bitmaps -/

/-- `load_super` -/
def loadSuper : M Block := do
  let sb ← devRead dev sbLba
  failIf (Super.magic sb ≠ magic ∨ Super.version sb ≠ version ∨ Super.blockSize sb ≠ blockSize)
    .corrupt
  failIf (Super.blockCount sb ≠ dev.blockCount ∨ Super.inodeCount sb ≠ maxInodes) .corrupt
  failIf (Super.inodeBmapLba sb ≠ inodeBmapLba ∨ Super.blockBmapLba sb ≠ blockBmapLba ∨
    Super.inodeTableLba sb ≠ inodeTableLba) .corrupt
  failIf (Super.rootIno sb ≠ rootIno ∨ Super.rootDirLba sb ≠ rootDirLba ∨
    Super.dataStartLba sb ≠ dataStartLba) .corrupt
  failIf (Super.dataStartLba sb ≥ Super.blockCount sb) .corrupt
  return sb

/-- `read_inode` -/
def readInode (ino : ℕ) : M Inode := do
  failIf (ino = 0 ∨ ino > maxInodes) .inval
  failIf (inodeLba ino ≥ dataStartLba) .corrupt
  let block ← devRead dev (inodeLba ino)
  return inodeIn block (inodeOff ino)

/-- `write_inode` -/
def writeInode (ino : ℕ) (inode : Inode) : M Unit := do
  failIf (ino = 0 ∨ ino > maxInodes) .inval
  failIf (inodeLba ino ≥ dataStartLba) .corrupt
  let block ← devRead dev (inodeLba ino)
  devWrite dev (inodeLba ino) (block.copy (inodeOff ino) inode.get inodeSize)

/-- `load_bmaps` -/
def loadBmaps : M (Block × Block) := do
  let ib ← devRead dev inodeBmapLba
  let bb ← devRead dev blockBmapLba
  return (ib, bb)

/-- `store_bmaps` -/
def storeBmaps (ib bb : Block) : M Unit := do
  devWrite dev inodeBmapLba ib
  devWrite dev blockBmapLba bb

/-! ## Searching and allocating -/

/-- A byte of a directory block, or of whatever follows it in memory. -/
def dirByte (dir : Block) (past : UInt8) (k : ℕ) : UInt8 :=
  if k < blockSize then dir.get k else past

/-- The test of `find_dirent` on entry `i`.  The length of the stored name is looked for in one byte
more than the name has, and that byte belongs to the next entry. -/
def direntMatches (dir : Block) (past : UInt8) (name : ℕ → UInt8) (nameLen i : ℕ) : Bool :=
  Dirent.ino dir i ≠ 0 ∧
    strlenBound (fun k ↦ dirByte dir past (i * direntSize + 5 + k)) (maxName + 1) = nameLen ∧
    memcmp (Dirent.name dir i) name nameLen = 0

/-- `find_dirent`; the result is the slot and the inode number. -/
def findDirent (name : ℕ → UInt8) : M (ℕ × ℕ) := do
  let nameLen ← validName name
  let dir ← devRead dev rootDirLba
  let disk ← get
  let slot ← expect ((List.range direntCount).find?
    (direntMatches dir (dev.past disk.clock) name nameLen)) .noent
  return (slot, Dirent.ino dir slot)

/-- The search for a free inode in `alloc_inode_block`. -/
def findFreeInode (ib : Block) : Option ℕ :=
  (List.range' 2 (maxInodes - 1)).find? fun i ↦ !ib.bitTest i

/-- The search for a free block in `alloc_inode_block` and `alloc_data_block`. -/
def findFreeBlock (bb : Block) (blockCount : ℕ) : Option ℕ :=
  (List.range' dataStartLba (blockCount - dataStartLba)).find? fun b ↦ !bb.bitTest b

/-- `alloc_inode_block`; the result is the inode number and the block. -/
def allocInodeBlock : M (ℕ × ℕ) := do
  let bmaps ← loadBmaps dev
  let ino ← expect (findFreeInode bmaps.1) .nospc
  let lba ← expect (findFreeBlock bmaps.2 dev.blockCount) .nospc
  storeBmaps dev (bmaps.1.bitSet ino) (bmaps.2.bitSet lba)
  return (ino, lba)

/-- `alloc_data_block` -/
def allocDataBlock : M ℕ := do
  let bmaps ← loadBmaps dev
  let lba ← expect (findFreeBlock bmaps.2 dev.blockCount) .nospc
  storeBmaps dev bmaps.1 (bmaps.2.bitSet lba)
  return lba

/-- The loop of `free_inode_and_blocks`. -/
def clearBlocks (bb : Block) (inode : Inode) (blockCount : ℕ) : Block :=
  (List.range directBlocks).foldl (fun bb j ↦
    if inode.direct j ≠ 0 ∧ inode.direct j < blockCount then bb.bitClear (inode.direct j)
    else bb) bb

/-- `free_inode_and_blocks` -/
def freeInodeAndBlocks (ino : ℕ) (inode : Inode) : M Unit := do
  let bmaps ← loadBmaps dev
  storeBmaps dev (bmaps.1.bitClear ino) (clearBlocks bmaps.2 inode dev.blockCount)

/-! ## Format and mount -/

/-- The first loop of `mcsfs1_format`, with `n` blocks to go from `lba` on. -/
def zeroBlocks : ℕ → ℕ → M Unit
  | 0, _ => pure ()
  | n + 1, lba => do
    devWrite dev lba (Buf.zero blockSize)
    zeroBlocks n (lba + 1)

/-- The inode bitmap of a fresh file system. -/
def formatInodeBmap : Block := ((Buf.zero blockSize).bitSet 0).bitSet rootIno

/-- The block bitmap of a fresh file system. -/
def formatBlockBmap : Block :=
  ((List.range dataStartLba).foldl (fun b i ↦ b.bitSet i) (Buf.zero blockSize)).bitSet rootDirLba

/-- `mcsfs1_format` -/
def format : M Unit := do
  failIf (dev.blockCount < minBlocks ∨ dev.blockCount > blockSize * 8) .inval
  zeroBlocks dev dev.blockCount 0
  devWrite dev sbLba (superBlock dev.blockCount)
  storeBmaps dev formatInodeBmap formatBlockBmap
  writeInode dev rootIno rootInode
  devFlush dev

/-- `struct mcsfs1_mount` without its device pointer -/
structure Mount where
  blockCount : ℕ
  dataStart : ℕ

/-- `mcsfs1_mount` -/
def mount : M Mount := do
  let sb ← loadSuper dev
  let root ← readInode dev rootIno
  failIf (root.mode ≠ modeDir ∨ root.direct 0 ≠ rootDirLba) .corrupt
  return ⟨Super.blockCount sb, Super.dataStartLba sb⟩

/-! ## Files -/

/-- The search for a free slot in `mcsfs1_create`. -/
def findFreeSlot (dir : Block) : Option ℕ :=
  (List.range direntCount).find? fun i ↦ Dirent.ino dir i == 0

/-- `mcsfs1_create`.  Any failure of `find_dirent` counts as the name being new. -/
def create (name : ℕ → UInt8) : M Unit := do
  let nameLen ← validName name
  let found ← succeeds (findDirent dev name)
  failIf (found = true) .exist
  let dir ← devRead dev rootDirLba
  let slot ← expect (findFreeSlot dir) .nospc
  let new ← allocInodeBlock dev
  writeInode dev new.1 (Inode.make modeFile 0 new.2)
  devWrite dev rootDirLba (Dirent.set dir slot new.1 modeFile name nameLen)
  devFlush dev

/-- `(len + MCSFS1_BLOCK_SIZE - 1u) / MCSFS1_BLOCK_SIZE`, in 32 bits -/
def blocksNeeded (len : ℕ) : ℕ := (len + (blockSize - 1)) % 2 ^ 32 / blockSize

/-- The first loop of `mcsfs1_write`, with `n` blocks to go from `direct[i]` on. -/
def allocBlocks : ℕ → ℕ → Inode → M Inode
  | 0, _, inode => pure inode
  | n + 1, i, inode =>
    if inode.direct i = 0 then do
      let lba ← allocDataBlock dev
      allocBlocks n (i + 1) (inode.setDirect i lba)
    else
      allocBlocks n (i + 1) inode

/-- The size of the next chunk when `remain` bytes are left. -/
def chunkSize (remain : ℕ) : ℕ := if remain > blockSize then blockSize else remain

/-- The second loop of `mcsfs1_write`, with `n` blocks to go from `direct[i]` on. -/
def writeBlocks (inode : Inode) (buf : ℕ → UInt8) (len : ℕ) : ℕ → ℕ → ℕ → M Unit
  | 0, _, _ => pure ()
  | n + 1, i, written => do
    let chunk := chunkSize (len - written)
    devWrite dev (inode.direct i)
      ((Buf.zero blockSize).copy 0 (fun k ↦ buf (written + k)) chunk)
    writeBlocks inode buf len n (i + 1) (written + chunk)

/-- `mcsfs1_write` -/
def write (name buf : ℕ → UInt8) (len : ℕ) : M Unit := do
  failIf (len > directBlocks * blockSize) .range
  let found ← findDirent dev name
  let inode ← readInode dev found.2
  failIf (inode.mode ≠ modeFile) .isdir
  let needed := max (blocksNeeded len) 1
  let inode ← allocBlocks dev needed 0 inode
  writeBlocks dev inode buf len needed 0 0
  writeInode dev found.2 (inode.setSize len)
  devFlush dev

/-- The loop of `mcsfs1_read`, with `n` blocks to go from `direct[i]` on; `out` is what has been
copied to the caller's buffer. -/
def readBlocks (mnt : Mount) (inode : Inode) : ℕ → ℕ → List UInt8 → M (List UInt8)
  | 0, _, out => pure out
  | n + 1, i, out => do
    failIf (inode.direct i = 0 ∨ inode.direct i ≥ mnt.blockCount) .corrupt
    let block ← devRead dev (inode.direct i)
    let chunk := chunkSize (inode.size - out.length)
    readBlocks mnt inode n (i + 1) (out ++ (List.range chunk).map block.get)

/-- `mcsfs1_read`; the result is what has been copied to `buf`, and `*out_len`. -/
def read (mnt : Mount) (name : ℕ → UInt8) (cap : ℕ) : M (List UInt8 × ℕ) := do
  let found ← findDirent dev name
  let inode ← readInode dev found.2
  failIf (inode.mode ≠ modeFile) .isdir
  failIf (cap < inode.size) .range
  let out ← readBlocks dev mnt inode (blocksNeeded inode.size) 0 []
  return (out, inode.size)

/-- `mcsfs1_unlink` -/
def unlink (name : ℕ → UInt8) : M Unit := do
  let found ← findDirent dev name
  let inode ← readInode dev found.2
  failIf (inode.mode ≠ modeFile) .isdir
  let dir ← devRead dev rootDirLba
  devWrite dev rootDirLba (Dirent.clear dir found.1)
  freeInodeAndBlocks dev found.2 inode
  writeInode dev found.2 (Buf.zero inodeSize)
  devFlush dev

/-- `mcsfs1_stat` -/
def stat (name : ℕ → UInt8) : M ℕ := do
  let found ← findDirent dev name
  let inode ← readInode dev found.2
  failIf (inode.mode ≠ modeFile) .isdir
  return inode.size

/-! ## Check -/

/-- The checks of `mcsfs1_fsck` on one directory entry. -/
def fsckDirent (ib bb dir : Block) (i : ℕ) : M Unit :=
  if Dirent.ino dir i = 0 then
    return ()
  else do
    failIf (Dirent.ino dir i > maxInodes ∨ Dirent.type dir i ≠ modeFile ∨
      ib.bitTest (Dirent.ino dir i) = false) .corrupt
    let inode ← readInode dev (Dirent.ino dir i)
    failIf (inode.mode ≠ modeFile ∨ inode.size > directBlocks * blockSize) .corrupt
    (List.range (max (blocksNeeded inode.size) 1)).forM fun j ↦
      failIf (inode.direct j < dataStartLba ∨ inode.direct j ≥ dev.blockCount ∨
        bb.bitTest (inode.direct j) = false) .corrupt

/-- `mcsfs1_fsck` -/
def fsck : M Unit := do
  let _ ← loadSuper dev
  let bmaps ← loadBmaps dev
  failIf (bmaps.1.bitTest rootIno = false ∨ bmaps.2.bitTest rootDirLba = false) .corrupt
  (List.range dataStartLba).forM fun b ↦ failIf (bmaps.2.bitTest b = false) .corrupt
  let root ← readInode dev rootIno
  failIf (root.mode ≠ modeDir ∨ root.direct 0 ≠ rootDirLba) .corrupt
  let dir ← devRead dev rootDirLba
  (List.range direntCount).forM (fsckDirent dev bmaps.1 bmaps.2 dir)

end Mcsfs1
end Mcsos
