import Mcsos.Lib.Bytes
import Mcsos.Lib.CString
import Mcsos.Lib.Program

/-!
# MCSFS1: the device and the on-disk structures

`fs/mcsfs1/mcsfs1.c` reaches its disk through three callbacks.  A `Blkdev` is what the file system
knows of them: the number of blocks, and which of the accesses to come will fail.  Accesses are
numbered by the clock of the `Disk`, so that a fault pattern `ℕ → Bool` stands for any behaviour of
the callbacks; a failed write leaves its block alone, and a failed read leaves a buffer that no
caller looks at.

The directory is a block of sixteen entries of 32 bytes, an inode takes 60 bytes, and eight inodes
go into a block.  The structures are kept as the bytes they are.
-/

set_option autoImplicit false

namespace Mcsos
namespace Mcsfs1

open Bytes Program

/-! ## Layout -/

@[simp] abbrev blockSize : ℕ := 512
@[simp] abbrev magic : ℕ := 0x31465343
@[simp] abbrev version : ℕ := 1
@[simp] abbrev maxInodes : ℕ := 32
@[simp] abbrev directBlocks : ℕ := 8
@[simp] abbrev maxName : ℕ := 27
@[simp] abbrev rootIno : ℕ := 1
@[simp] abbrev modeFile : ℕ := 1
@[simp] abbrev modeDir : ℕ := 2
@[simp] abbrev sbLba : ℕ := 0
@[simp] abbrev inodeBmapLba : ℕ := 1
@[simp] abbrev blockBmapLba : ℕ := 2
@[simp] abbrev inodeTableLba : ℕ := 3
@[simp] abbrev inodeTableBlocks : ℕ := 4
@[simp] abbrev rootDirLba : ℕ := 7
@[simp] abbrev dataStartLba : ℕ := 8
@[simp] abbrev minBlocks : ℕ := 16
@[simp] abbrev direntCount : ℕ := 16
/-- `sizeof(struct mcsfs1_inode_disk)` -/
@[simp] abbrev inodeSize : ℕ := 60
/-- `sizeof(struct mcsfs1_dirent_disk)` -/
@[simp] abbrev direntSize : ℕ := 32
/-- The number of inodes in a block. -/
@[simp] abbrev inodesPerBlock : ℕ := blockSize / inodeSize

inductive Err
  | inval | io | nospc | exist | noent | nametoolong | corrupt | isdir | range
  deriving DecidableEq, Repr

abbrev Block : Type := Buf blockSize

/-! ## The device -/

/-- `struct mcsfs1_blkdev` -/
structure Blkdev where
  blockCount : ℕ
  /-- Does the access made at this time fail? -/
  faults : ℕ → Bool
  /-- The byte found right behind a directory block on the stack at this time. -/
  past : ℕ → UInt8

/-- What is behind the callbacks: the blocks, and how many accesses there have been. -/
structure Disk where
  blocks : ℕ → Block
  clock : ℕ

abbrev M : Type → Type := EStateM Err Disk

/-- A device none of whose accesses fail. -/
def Blkdev.Healthy (dev : Blkdev) : Prop := ∀ t, dev.faults t = false

/-- The same device with its faults repaired. -/
def Blkdev.repaired (dev : Blkdev) : Blkdev := { dev with faults := fun _ ↦ false }

def Disk.tick (d : Disk) : Disk := { d with clock := d.clock + 1 }

def Disk.store (d : Disk) (lba : ℕ) (b : Block) : Disk :=
  { blocks := Function.update d.blocks lba b, clock := d.clock + 1 }

/-- `dev_read` -/
def devRead (dev : Blkdev) (lba : ℕ) : M Block := fun d ↦
  if lba ≥ dev.blockCount then .error .inval d
  else if dev.faults d.clock then .error .io d.tick
  else .ok (d.blocks lba) d.tick

/-- `dev_write` -/
def devWrite (dev : Blkdev) (lba : ℕ) (b : Block) : M Unit := fun d ↦
  if lba ≥ dev.blockCount then .error .inval d
  else if dev.faults d.clock then .error .io d.tick
  else .ok () (d.store lba b)

/-- `dev_flush` -/
def devFlush (dev : Blkdev) : M Unit := fun d ↦
  if dev.faults d.clock then .error .io d.tick else .ok () d.tick

/-! ## Structures -/

/-! The fields of `struct mcsfs1_super_disk` that are read back -/

namespace Super

def magic (sb : Block) : ℕ := sb.field 0 4
def version (sb : Block) : ℕ := sb.field 4 4
def blockSize (sb : Block) : ℕ := sb.field 8 4
def blockCount (sb : Block) : ℕ := sb.field 12 4
def inodeCount (sb : Block) : ℕ := sb.field 16 4
def inodeBmapLba (sb : Block) : ℕ := sb.field 20 4
def blockBmapLba (sb : Block) : ℕ := sb.field 24 4
def inodeTableLba (sb : Block) : ℕ := sb.field 28 4
def rootIno (sb : Block) : ℕ := sb.field 36 4
def rootDirLba (sb : Block) : ℕ := sb.field 40 4
def dataStartLba (sb : Block) : ℕ := sb.field 44 4

end Super

/-- The superblock that `mcsfs1_format` writes. -/
def superBlock (blockCount : ℕ) : Block :=
  (Buf.zero Mcsfs1.blockSize).setField 0 4 magic
    |>.setField 4 4 version
    |>.setField 8 4 blockSize
    |>.setField 12 4 blockCount
    |>.setField 16 4 maxInodes
    |>.setField 20 4 inodeBmapLba
    |>.setField 24 4 blockBmapLba
    |>.setField 28 4 inodeTableLba
    |>.setField 32 4 inodeTableBlocks
    |>.setField 36 4 rootIno
    |>.setField 40 4 rootDirLba
    |>.setField 44 4 dataStartLba
    |>.setField 48 4 1

/-- `struct mcsfs1_inode_disk` -/
abbrev Inode : Type := Buf inodeSize

namespace Inode

def mode (n : Inode) : ℕ := n.field 0 2
def size (n : Inode) : ℕ := n.field 4 4
/-- `direct[j]` -/
def direct (n : Inode) (j : ℕ) : ℕ := n.field (8 + 4 * j) 4

def setSize (n : Inode) (size : ℕ) : Inode := n.setField 4 4 size
def setDirect (n : Inode) (j lba : ℕ) : Inode := n.setField (8 + 4 * j) 4 lba

/-- A zeroed inode with one link and one block. -/
def make (mode size direct0 : ℕ) : Inode :=
  (Buf.zero inodeSize).setField 0 2 mode
    |>.setField 2 2 1
    |>.setField 4 4 size
    |>.setField 8 4 direct0

end Inode

/-- The root inode that `mcsfs1_format` writes. -/
def rootInode : Inode := Inode.make modeDir blockSize rootDirLba

/-- The block of the inode table that holds inode `ino`. -/
def inodeLba (ino : ℕ) : ℕ := inodeTableLba + (ino - 1) / inodesPerBlock

/-- Where inode `ino` starts in that block. -/
def inodeOff (ino : ℕ) : ℕ := (ino - 1) % inodesPerBlock * inodeSize

/-- The inode that a block of the table holds at an offset. -/
def inodeIn (b : Block) (off : ℕ) : Inode := Buf.ofView inodeSize fun k ↦ b.get (off + k)

namespace Dirent

def ino (dir : Block) (i : ℕ) : ℕ := dir.field (i * direntSize) 4
def type (dir : Block) (i : ℕ) : ℕ := dir.field (i * direntSize + 4) 1
def name (dir : Block) (i k : ℕ) : UInt8 := dir.get (i * direntSize + 5 + k)

/-- Fill in an entry: the name is zeroed and then copied without its terminator. -/
def set (dir : Block) (i ino type : ℕ) (name : ℕ → UInt8) (nameLen : ℕ) : Block :=
  dir.setField (i * direntSize) 4 ino
    |>.setField (i * direntSize + 4) 1 type
    |>.copy (i * direntSize + 5) (fun _ ↦ 0) maxName
    |>.copy (i * direntSize + 5) name nameLen

/-- Zero an entry. -/
def clear (dir : Block) (i : ℕ) : Block := dir.copy (i * direntSize) (fun _ ↦ 0) direntSize

end Dirent

end Mcsfs1
end Mcsos
