import Mcsos.Lib.Bytes
import Mcsos.Lib.CString
import Mcsos.Lib.Outcome

/-!
# The file system in memory

The model of `ramfs.c`: 64 nodes and one array of data, of which every file has an extent.  A
pointer to a node is its index.  A path is a string without zero bytes, and a pointer into it is
what is left of the string.  Sizes are natural numbers, and no sum of them comes near 2^64.
-/

set_option autoImplicit false

namespace Mcsos
namespace Vfs

open Program Bytes

/-- `MCS_MAX_NAME` -/
abbrev maxName : ℕ := 32

/-- `MCS_MAX_PATH` -/
abbrev maxPath : ℕ := 128

/-- `MCS_MAX_NODES` -/
abbrev maxNodes : ℕ := 64

/-- `MCS_RAMFS_DATA_BYTES` -/
abbrev ramfsDataBytes : ℕ := 8192

/-- The byte `'/'`. -/
abbrev slash : UInt8 := 0x2f

/-- `mcs_vnode_type_t` -/
inductive VnodeType
  | dir
  | file
  deriving DecidableEq, Repr

/-- The error values of `mcs_vfs_status_t` that are returned. -/
inductive Err
  | enoent
  | ebadf
  | eacces
  | enotdir
  | eisdir
  | einval
  | enfile
  | enospc
  | enametoolong
  deriving DecidableEq, Repr

/-- `mcs_vnode_t` -/
structure Vnode where
  used : Bool
  id : ℕ
  parent : ℕ
  type : VnodeType
  name : ℕ → UInt8
  size : ℕ
  dataOffset : ℕ
  dataCapacity : ℕ

/-- `mcs_ramfs_t` -/
structure Ramfs where
  nodes : ℕ → Vnode
  nodeCount : ℕ
  data : ℕ → UInt8
  dataUsed : ℕ

/-- Change a node. -/
def Ramfs.modifyNode (fs : Ramfs) (i : ℕ) (f : Vnode → Vnode) : Ramfs :=
  { fs with nodes := Function.update fs.nodes i (f (fs.nodes i)) }

/-- `mcs_streq_n`, for the `n` bytes of `a` -/
def streqN (a : List UInt8) (b : ℕ → UInt8) : Bool :=
  ((List.range a.length).all fun i ↦ a.getD i 0 == b i) && b a.length == 0

/-- `mcs_copy_name` -/
def copyName (src : List UInt8) : ℕ → UInt8 := fun i ↦
  if i < src.length ∧ i + 1 < maxName then src.getD i 0 else 0

/-- `mcs_find_child` -/
def findChild (fs : Ramfs) (parent : ℕ) (name : List UInt8) : Except Err ℕ :=
  if name.length = 0 ∨ maxName ≤ name.length then .error .einval
  else
    match (List.range fs.nodeCount).find? fun i ↦
        (fs.nodes i).used && (fs.nodes i).parent == parent && streqN name (fs.nodes i).name with
    | some i => .ok i
    | none => .error .enoent

/-- The loop of `mcs_split_parent_leaf`: the parent and the name of the last segment. -/
def splitParentLeafLoop (fs : Ramfs) : ℕ → (cur : ℕ) → (seg : List UInt8) →
    Except Err (ℕ × List UInt8)
  | 0, _, _ => .error .einval
  | fuel + 1, cur, seg =>
    let name := seg.takeWhile (· != slash)
    let next := seg.dropWhile (· != slash)
    if name.length = 0 ∨ maxName ≤ name.length then .error .einval
    else
      match next with
      | [] => .ok (cur, name)
      | _ :: seg =>
        match findChild fs (fs.nodes cur).id name with
        | .error e => .error e
        | .ok cur =>
          if (fs.nodes cur).type ≠ .dir then .error .enotdir
          else splitParentLeafLoop fs fuel cur seg

/-- `mcs_split_parent_leaf`.  A path has no more segments than it has bytes. -/
def splitParentLeaf (fs : Ramfs) (path : CString) : Except Err (ℕ × List UInt8) :=
  if path.view 0 ≠ slash then .error .einval
  else if path.view 1 = 0 then .error .einval
  else if maxPath ≤ path.length then .error .enametoolong
  else splitParentLeafLoop fs path.length 0 path.1.tail

/-- The loop of `mcs_ramfs_lookup`. -/
def lookupLoop (fs : Ramfs) : ℕ → (cur : ℕ) → (seg : List UInt8) → Except Err ℕ
  | 0, _, _ => .error .einval
  | _ + 1, _, [] => .error .einval
  | fuel + 1, cur, seg =>
    let name := seg.takeWhile (· != slash)
    let next := seg.dropWhile (· != slash)
    if name.length = 0 ∨ maxName ≤ name.length then .error .einval
    else
      match findChild fs (fs.nodes cur).id name with
      | .error e => .error e
      | .ok cur =>
        match next with
        | [] => .ok cur
        | _ :: seg =>
          if (fs.nodes cur).type ≠ .dir then .error .enotdir
          else lookupLoop fs fuel cur seg

/-- `mcs_ramfs_lookup` -/
def ramfsLookup (fs : Ramfs) (path : CString) : Except Err ℕ :=
  if path.view 0 ≠ slash then .error .einval
  else if maxPath ≤ path.length then .error .enametoolong
  else if path.view 1 = 0 then .ok 0
  else lookupLoop fs path.length 0 path.1.tail

/-- The node that `mcs_alloc_node` makes. -/
def newNode (fs : Ramfs) (parent : ℕ) (type : VnodeType) (name : List UInt8) (capacity : ℕ) :
    Vnode where
  used := true
  id := fs.nodeCount
  parent := parent
  type := type
  name := copyName name
  size := 0
  dataOffset := if type = .file then fs.dataUsed else 0
  dataCapacity := if type = .file then capacity else 0

/-- The stores of `mcs_alloc_node`. -/
def Ramfs.addNode (fs : Ramfs) (parent : ℕ) (type : VnodeType) (name : List UInt8)
    (capacity : ℕ) : Ramfs :=
  { fs with
    nodes := Function.update fs.nodes fs.nodeCount (newNode fs parent type name capacity)
    nodeCount := fs.nodeCount + 1
    dataUsed := if type = .file then fs.dataUsed + capacity else fs.dataUsed }

/-- `mcs_alloc_node` -/
def allocNode (parent : ℕ) (type : VnodeType) (name : List UInt8) (capacity : ℕ) :
    EStateM Err Ramfs ℕ := do
  let fs ← get
  failIf (name.length = 0 ∨ maxName ≤ name.length) .einval
  failIf (maxNodes ≤ fs.nodeCount) .enospc
  failIf (type = .file ∧ ramfsDataBytes < fs.dataUsed + capacity) .enospc
  set (fs.addNode parent type name capacity)
  pure fs.nodeCount

/-- `mcs_ramfs_init`, given the names that were in the memory before -/
def ramfsInit (names : ℕ → ℕ → UInt8) : Ramfs where
  nodes i :=
    { used := i == 0
      id := 0
      parent := 0
      type := if i = 0 then .dir else .file
      name := if i = 0 then Function.update (Function.update (names i) 0 slash) 1 0
        else Function.update (names i) 0 0
      size := 0
      dataOffset := 0
      dataCapacity := 0 }
  nodeCount := 1
  data _ := 0
  dataUsed := 0

/-- `mcs_ramfs_create_file` -/
def ramfsCreateFile (path : CString) : EStateM Err Ramfs ℕ := do
  let fs ← get
  match ramfsLookup fs path with
  | .ok existing =>
    failIf ((fs.nodes existing).type ≠ .file) .eisdir
    pure existing
  | .error _ =>
    match splitParentLeaf fs path with
    | .error e => throw e
    | .ok (parent, leaf) =>
      failIf ((fs.nodes parent).type ≠ .dir) .enotdir
      allocNode (fs.nodes parent).id .file leaf 256

/-- `mcs_ramfs_seed_file` -/
def ramfsSeedFile (path : CString) (data : List UInt8) : EStateM Err Ramfs Unit := do
  let node ← ramfsCreateFile path
  let fs ← get
  failIf ((fs.nodes node).dataCapacity < data.length) .enospc
  set { fs.modifyNode node fun n ↦ { n with size := data.length } with
    data := copyAt fs.data (fs.nodes node).dataOffset (data.getD · 0) data.length }

end Vfs
end Mcsos
