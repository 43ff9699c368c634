import Mcsos.Vfs.Ramfs

/-!
# Open files

The model of `fd.c`: tables of sixteen descriptors, each with its own offset, over one file
system.  Reading and writing report which part of the file system's data they copy.  Offsets of
`mcs_vfs_lseek` are 64-bit integers, whose sums wrap.
-/

set_option autoImplicit false

namespace Mcsos
namespace Vfs

open Program Bytes

/-- `MCS_MAX_OPEN_FILES` -/
abbrev maxOpenFiles : ℕ := 16

/-- `MCS_O_RDONLY` -/
abbrev oRdonly : UInt32 := 0x0001

/-- `MCS_O_WRONLY` -/
abbrev oWronly : UInt32 := 0x0002

/-- `MCS_O_RDWR` -/
abbrev oRdwr : UInt32 := 0x0004

/-- `MCS_O_CREAT` -/
abbrev oCreat : UInt32 := 0x0100

/-- `MCS_O_TRUNC` -/
abbrev oTrunc : UInt32 := 0x0200

/-- `MCS_O_APPEND` -/
abbrev oAppend : UInt32 := 0x0400

/-- `mcs_file_t`; there is one file system, so that `fs` is whether the pointer is set -/
structure File where
  used : Bool
  flags : UInt32
  offset : ℕ
  node : Option ℕ
  fs : Bool

/-- The file system and the descriptor tables of all processes. -/
structure World (T : Type) where
  fs : Ramfs
  tables : T → ℕ → File

/-- What a call copies: bytes of the file system's data, from `start` on. -/
structure Copied where
  start : ℕ
  bytes : List UInt8

/-- `mcs_can_read` -/
def canRead (flags : UInt32) : Bool := flags &&& oRdonly != 0 || flags &&& oRdwr != 0

/-- `mcs_can_write` -/
def canWrite (flags : UInt32) : Bool := flags &&& oWronly != 0 || flags &&& oRdwr != 0

/-- A descriptor that is not in use. -/
def closedFile : File := ⟨false, 0, 0, none, false⟩

section Calls

variable {T : Type} [DecidableEq T]

/-- Change a descriptor. -/
def World.modifyFile (w : World T) (t : T) (fd : ℕ) (f : File → File) : World T :=
  { w with
    tables := Function.update w.tables t
      (Function.update (w.tables t) fd (f (w.tables t fd))) }

/-- Change a node. -/
def World.modifyNode (w : World T) (i : ℕ) (f : Vnode → Vnode) : World T :=
  { w with fs := w.fs.modifyNode i f }

/-- `mcs_fd_table_init` -/
def fdTableInit (t : T) (w : World T) : World T :=
  { w with tables := Function.update w.tables t fun fd ↦
      if fd < maxOpenFiles then closedFile else w.tables t fd }

/-- `mcs_fd_get` -/
def fdGet (w : World T) (t : T) (fd : ℤ) : Option ℕ :=
  if fd < 0 ∨ (maxOpenFiles : ℤ) ≤ fd then none
  else if !(w.tables t fd.toNat).used then none
  else some fd.toNat

/-- `mcs_fd_alloc` -/
def fdAlloc (t : T) : EStateM Err (World T) ℕ := do
  let w ← get
  let fd ← expect ((List.range maxOpenFiles).find? fun i ↦ !(w.tables t i).used) .enfile
  modify fun w ↦ w.modifyFile t fd fun f ↦ { f with used := true }
  pure fd

/-- Run a call on the file system. -/
def onFs {α : Type} (x : EStateM Err Ramfs α) : EStateM Err (World T) α :=
  zoom World.fs (fun fs w ↦ { w with fs := fs }) x

/-- The node that `mcs_vfs_open` opens. -/
def openNode (path : CString) (flags : UInt32) : EStateM Err (World T) ℕ := do
  let w ← get
  match ramfsLookup w.fs path with
  | .ok node => pure node
  | .error e =>
    failIf (flags &&& oCreat = 0) e
    onFs (ramfsCreateFile path)

/-- `mcs_vfs_open` -/
def vfsOpen (t : T) (path : CString) (flags : UInt32) : EStateM Err (World T) ℕ := do
  let flags := if flags &&& (oRdonly ||| oWronly ||| oRdwr) = 0 then flags ||| oRdonly else flags
  let node ← openNode path flags
  let w ← get
  failIf ((w.fs.nodes node).type = .dir ∧ canWrite flags) .eisdir
  let fd ← fdAlloc t
  modify fun w ↦ w.modifyFile t fd fun f ↦
    { f with
      flags := flags
      node := some node
      fs := true
      offset := if flags &&& oAppend ≠ 0 then (w.fs.nodes node).size else 0 }
  if flags &&& oTrunc ≠ 0 then
    onError (failIf (!canWrite flags) .eacces) fun w ↦ w.modifyFile t fd fun f ↦
      { f with used := false, node := none, fs := false }
    modify fun w ↦ w.modifyNode node fun n ↦ { n with size := 0 }
    modify fun w ↦ w.modifyFile t fd fun f ↦ { f with offset := 0 }
    pure fd
  else pure fd

/-- The checks that `mcs_vfs_read` and `mcs_vfs_write` have in common. -/
def checkFile (t : T) (fd : ℤ) (can : UInt32 → Bool) : EStateM Err (World T) (ℕ × ℕ) := do
  let w ← get
  let fd ← expect (fdGet w t fd) .ebadf
  let file := w.tables t fd
  failIf (!can file.flags) .eacces
  failIf (!file.fs) .einval
  let node ← expect file.node .einval
  failIf ((w.fs.nodes node).type = .dir) .eisdir
  pure (fd, node)

/-- `mcs_vfs_read`, which returns the number of bytes that it copies -/
def vfsRead (t : T) (fd : ℤ) (len : ℕ) : EStateM Err (World T) Copied := do
  let (fd, node) ← checkFile t fd canRead
  let w ← get
  let offset := (w.tables t fd).offset
  if (w.fs.nodes node).size ≤ offset then pure ⟨0, []⟩
  else
    let n := min len ((w.fs.nodes node).size - offset)
    let start := (w.fs.nodes node).dataOffset + offset
    modify fun w ↦ w.modifyFile t fd fun f ↦ { f with offset := f.offset + n }
    pure ⟨start, (List.range n).map fun i ↦ w.fs.data (start + i)⟩

/-- The stores of `mcs_vfs_write`. -/
def storeAt (t : T) (fd node start : ℕ) (buf : List UInt8) (w : World T) : World T :=
  let n := buf.length
  let w := { w with fs := { w.fs with data := copyAt w.fs.data start (buf.getD · 0) n } }
  let w := w.modifyFile t fd fun f ↦ { f with offset := f.offset + n }
  w.modifyNode node fun v ↦
    { v with
      size := if v.size < (w.tables t fd).offset then (w.tables t fd).offset else v.size }

/-- The part of `mcs_vfs_write` that comes after the offset has been set for `MCS_O_APPEND`. -/
def writeAt (t : T) (fd node : ℕ) (buf : List UInt8) : EStateM Err (World T) Copied := do
  let w ← get
  let offset := (w.tables t fd).offset
  failIf ((w.fs.nodes node).dataCapacity < offset) .einval
  let n := min buf.length ((w.fs.nodes node).dataCapacity - offset)
  failIf (n < buf.length) .enospc
  let start := (w.fs.nodes node).dataOffset + offset
  modify (storeAt t fd node start (buf.take n))
  pure ⟨start, buf.take n⟩

/-- `mcs_vfs_write`, which returns the number of bytes that it copies -/
def vfsWrite (t : T) (fd : ℤ) (buf : List UInt8) : EStateM Err (World T) Copied := do
  let (fd, node) ← checkFile t fd canWrite
  modify fun w ↦
    if (w.tables t fd).flags &&& oAppend ≠ 0 then
      w.modifyFile t fd fun f ↦ { f with offset := (w.fs.nodes node).size }
    else w
  writeAt t fd node buf

/-- `mcs_vfs_lseek`.  The result is cut down to 32 bits. -/
def vfsLseek (t : T) (fd : ℤ) (offset whence : ℤ) : EStateM Err (World T) ℤ := do
  let w ← get
  let fd ← expect (fdGet w t fd) .ebadf
  let file := w.tables t fd
  let node ← expect file.node .eisdir
  failIf ((w.fs.nodes node).type = .dir) .eisdir
  let base ← expect (match whence with
    | 0 => some 0
    | 1 => some ((file.offset : ℤ).bmod (2 ^ 64))
    | 2 => some (((w.fs.nodes node).size : ℤ).bmod (2 ^ 64))
    | _ => none) .einval
  let next := (base + offset).bmod (2 ^ 64)
  failIf (next < 0) .einval
  modify fun w ↦ w.modifyFile t fd fun f ↦ { f with offset := next.toNat }
  pure (next.bmod (2 ^ 32))

/-- `mcs_vfs_close` -/
def vfsClose (t : T) (fd : ℤ) : EStateM Err (World T) Unit := do
  let w ← get
  let fd ← expect (fdGet w t fd) .ebadf
  modify fun w ↦ w.modifyFile t fd fun _ ↦ closedFile

/-- `mcs_vfs_dup` -/
def vfsDup (t : T) (fd : ℤ) : EStateM Err (World T) ℕ := do
  let w ← get
  let fd ← expect (fdGet w t fd) .ebadf
  let newfd ← fdAlloc t
  modify fun w ↦ w.modifyFile t newfd fun f ↦
    { f with
      flags := (w.tables t fd).flags
      offset := (w.tables t fd).offset
      node := (w.tables t fd).node
      fs := (w.tables t fd).fs }
  pure newfd

end Calls

end Vfs
end Mcsos
