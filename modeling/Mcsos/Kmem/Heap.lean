import Mcsos.Lib.Record

/-!
# The kernel heap

The allocator of `kmem.c`: a first-fit allocator over one arena, with a header in front of every
block, in the same memory that it hands out.  Addresses and sizes are natural numbers below 2^64,
and sums wrap where they do in C; memory is a function from addresses to bytes.

Some loops follow the `next` pointers of the headers and would not end on a cyclic chain.  They
are given 2^64 steps, one for every address, and `none` stands for a call that does not return.
-/

set_option autoImplicit false

namespace Mcsos
namespace Kmem

open Bytes

/-- `KMEM_ALIGN` -/
@[simp] abbrev align : ℕ := 16

/-- `KMEM_MIN_SPLIT` -/
@[simp] abbrev minSplit : ℕ := 32

/-- `KMEM_MAGIC` -/
@[simp] abbrev kmemMagic : ℕ := 0x4d43534f53484541

/-- `sizeof(kmem_block_t)` -/
@[simp] abbrev headerSize : ℕ := 48

/-- The fields of `kmem_block_t` that are used. -/
inductive Field
  | magic
  | size
  | free
  | prev
  | next
  deriving DecidableEq

/-- `kmem_block_t`, which has two reserved fields between `free` and `prev`. -/
def blockLayout : Layout Field where
  off
    | .magic => 0
    | .size => 8
    | .free => 16
    | .prev => 32
    | .next => 40
  width
    | .free => 4
    | _ => 8
  size := headerSize
  inside f := by cases f <;> decide
  disjoint f g := by cases f <;> cases g <;> decide

abbrev Mem : Type := ℕ → UInt8

/-- `block->f` -/
def fld (m : Mem) (block : ℕ) (f : Field) : ℕ := blockLayout.get m block f

/-- `block->f = v` -/
def setFld (block : ℕ) (f : Field) (v : ℕ) (m : Mem) : Mem := blockLayout.set m block f v

/-- The memory and the static variables of the allocator. -/
structure Heap where
  mem : Mem
  heapBase : ℕ
  heapEnd : ℕ
  head : ℕ
  initialized : Bool

/-! ## Helpers -/

/-- `kmem_align_up_size` -/
def alignUpSize (value align : ℕ) : ℕ :=
  if align = 0 then value
  else
    let mask := align - 1
    if align &&& mask ≠ 0 then 0
    else if 2 ^ 64 - 1 - mask < value then 0
    else (value + mask) &&& (2 ^ 64 - 1 - mask)

/-- `kmem_align_up_ptr` -/
def alignUpPtr (value align : ℕ) : ℕ :=
  let mask := (align + (2 ^ 64 - 1)) % 2 ^ 64
  if align &&& mask ≠ 0 then 0
  else if 2 ^ 64 - 1 - mask < value then 0
  else (value + mask) &&& (2 ^ 64 - 1 - mask)

/-- `kmem_memset` -/
def memset (m : Mem) (dst : ℕ) (value : UInt8) : ℕ → Mem
  | 0 => m
  | bytes + 1 => memset (Function.update m dst value) (dst + 1) value bytes

/-- `kmem_payload` -/
def payload (block : ℕ) : ℕ := (block + headerSize) % 2 ^ 64

/-- `kmem_header_from_payload` -/
def headerFromPayload (ptr : ℕ) : ℕ := (ptr + (2 ^ 64 - headerSize)) % 2 ^ 64

/-- `kmem_ptr_in_heap` -/
def Heap.ptrInHeap (h : Heap) (ptr : ℕ) : Bool :=
  h.initialized && decide (h.heapBase ≤ ptr) && decide (ptr < h.heapEnd)

/-- The stores of `kmem_split_if_useful` for a new block at `newAddr`. -/
def split (block newAddr wanted consumed : ℕ) (m : Mem) : Mem :=
  let m := setFld newAddr .magic kmemMagic m
  let m := setFld newAddr .size
    ((fld m block .size + 2 * 2 ^ 64 - consumed - headerSize) % 2 ^ 64) m
  let m := setFld newAddr .free 1 m
  let m := setFld newAddr .prev block m
  let m := setFld newAddr .next (fld m block .next) m
  let m := if fld m block .next ≠ 0 then setFld (fld m block .next) .prev newAddr m else m
  let m := setFld block .next newAddr m
  setFld block .size wanted m

/-- `kmem_split_if_useful` -/
def splitIfUseful (heapEnd block wanted : ℕ) (m : Mem) : Mem :=
  let header := alignUpSize headerSize align
  if header = 0 then m
  else if fld m block .size < (wanted + header + minSplit) % 2 ^ 64 then m
  else
    let newAddr := alignUpPtr ((payload block + wanted) % 2 ^ 64) align
    if newAddr = 0 then m
    else if heapEnd ≤ (newAddr + headerSize) % 2 ^ 64 then m
    else
      let consumed := (newAddr + 2 ^ 64 - payload block) % 2 ^ 64
      if fld m block .size ≤ (consumed + headerSize + minSplit) % 2 ^ 64 then m
      else split block newAddr wanted consumed m

/-- The stores of one round of `kmem_coalesce_forward`. -/
def merge (block next : ℕ) (m : Mem) : Mem :=
  let m := setFld block .size
    ((fld m block .size + (headerSize + fld m next .size)) % 2 ^ 64) m
  let m := setFld block .next (fld m next .next) m
  let m := if fld m next .next ≠ 0 then setFld (fld m next .next) .prev block m else m
  let m := setFld next .magic 0 m
  let m := setFld next .size 0 m
  let m := setFld next .prev 0 m
  setFld next .next 0 m

/-- `kmem_coalesce_forward`, for at most so many rounds -/
def coalesceForward (block : ℕ) : ℕ → Mem → Option Mem
  | 0, _ => none
  | rounds + 1, m =>
    if block ≠ 0 ∧ fld m block .next ≠ 0 ∧ fld m (fld m block .next) .free ≠ 0 then
      let next := fld m block .next
      let expected := alignUpPtr ((payload block + fld m block .size) % 2 ^ 64) align
      if expected ≠ next then some m else coalesceForward block rounds (merge block next m)
    else some m

/-! ## Validation -/

/-- The loop of `kmem_validate`, which gives up after so many blocks. -/
def validateLoop (h : Heap) : ℕ → (prev cursor cur : ℕ) → Int
  | 0, _, _, cur => if cur = 0 then 0 else -3
  | blocks + 1, prev, cursor, cur =>
    if cur = 0 then 0
    else if cur ≠ cursor then -4
    else if cur < h.heapBase ∨ h.heapEnd < (cur + headerSize) % 2 ^ 64 then -5
    else if fld h.mem cur .magic ≠ kmemMagic then -6
    else if fld h.mem cur .prev ≠ prev then -7
    else if (h.heapEnd + 2 ^ 64 - payload cur) % 2 ^ 64 < fld h.mem cur .size then -8
    else
      let cursor := alignUpPtr ((payload cur + fld h.mem cur .size) % 2 ^ 64) align
      if cursor = 0 ∨ h.heapEnd < cursor then -9
      else validateLoop h blocks cur cursor (fld h.mem cur .next)

/-- `kmem_validate` -/
def validate (h : Heap) : Int :=
  if !h.initialized ∨ h.heapBase = 0 ∨ h.heapEnd ≤ h.heapBase ∨ h.head = 0 then -1
  else if h.head ≠ h.heapBase then -2
  else validateLoop h 1048576 0 h.heapBase h.head

/-! ## The calls -/

/-- `kmem_init` -/
def init (base bytes : ℕ) (h : Heap) : Int × Heap :=
  if base = 0 ∨ bytes < headerSize + minSplit then (-1, h)
  else
    let start := alignUpPtr base align
    if start = 0 ∨ start < base then (-2, h)
    else
      let lost := start - base
      if bytes ≤ (lost + headerSize + minSplit) % 2 ^ 64 then (-3, h)
      else
        let usable := (bytes - lost) &&& (2 ^ 64 - 1 - (align - 1))
        if usable ≤ headerSize + minSplit then (-4, h)
        else
          let m := setFld start .magic kmemMagic h.mem
          let m := setFld start .size (usable - headerSize) m
          let m := setFld start .free 1 m
          let m := setFld start .prev 0 m
          let m := setFld start .next 0 m
          let h : Heap :=
            { mem := m
              heapBase := start
              heapEnd := (start + usable) % 2 ^ 64
              head := start
              initialized := true }
          (validate h, h)

/-- The loop of `kmem_alloc` over at most so many blocks, with the memory it leaves. -/
def allocLoop (heapEnd wanted : ℕ) (m : Mem) : ℕ → ℕ → Option (ℕ × Mem)
  | 0, _ => none
  | blocks + 1, cur =>
    if cur = 0 then some (0, m)
    else if fld m cur .magic ≠ kmemMagic then some (0, m)
    else if fld m cur .free ≠ 0 ∧ wanted ≤ fld m cur .size then
      some (payload cur, setFld cur .free 0 (splitIfUseful heapEnd cur wanted m))
    else allocLoop heapEnd wanted m blocks (fld m cur .next)

/-- `kmem_alloc`; the pointer `0` is `NULL`. -/
def alloc (bytes : ℕ) (h : Heap) : Option (ℕ × Heap) :=
  if !h.initialized ∨ bytes = 0 then some (0, h)
  else
    let wanted := alignUpSize bytes align
    if wanted = 0 then some (0, h)
    else (allocLoop h.heapEnd wanted h.mem (2 ^ 64) h.head).map fun r ↦ (r.1, { h with mem := r.2 })

/-- `kmem_calloc` -/
def calloc (count bytes : ℕ) (h : Heap) : Option (ℕ × Heap) :=
  if count ≠ 0 ∧ (2 ^ 64 - 1) / count < bytes then some (0, h)
  else
    let total := count * bytes % 2 ^ 64
    (alloc total h).map fun r ↦
      if r.1 ≠ 0 then (r.1, { r.2 with mem := memset r.2.mem r.1 0 total }) else r

/-- The part of `kmem_free_checked` behind its checks. -/
def release (block : ℕ) (h : Heap) : Option (Int × Heap) := do
  let m := setFld block .free 1 h.mem
  let m ← coalesceForward block (2 ^ 64) m
  let m ← if fld m block .prev ≠ 0 ∧ fld m (fld m block .prev) .free ≠ 0 then
      coalesceForward (fld m block .prev) (2 ^ 64) m
    else some m
  let h := { h with mem := m }
  some (validate h, h)

/-- `kmem_free_checked` -/
def freeChecked (ptr : ℕ) (h : Heap) : Option (Int × Heap) :=
  if ptr = 0 then some (0, h)
  else if !h.ptrInHeap ptr then some (-1, h)
  else if ptr &&& (align - 1) ≠ 0 then some (-2, h)
  else
    let block := headerFromPayload ptr
    if !h.ptrInHeap block ∨ fld h.mem block .magic ≠ kmemMagic then some (-3, h)
    else if fld h.mem block .free ≠ 0 then some (-4, h)
    else release block h

/-! ## Statistics -/

/-- `kmem_stats_t` -/
structure Stats where
  totalBytes : ℕ
  usedBytes : ℕ
  freeBytes : ℕ
  blockCount : ℕ
  freeCount : ℕ
  largestFree : ℕ
  deriving DecidableEq, Repr

/-- One round of the loop of `kmem_get_stats`. -/
def Stats.add (out : Stats) (m : Mem) (cur : ℕ) : Stats :=
  let out := { out with blockCount := (out.blockCount + 1) % 2 ^ 64 }
  if fld m cur .free ≠ 0 then
    { out with
      freeCount := (out.freeCount + 1) % 2 ^ 64
      freeBytes := (out.freeBytes + fld m cur .size) % 2 ^ 64
      largestFree := if out.largestFree < fld m cur .size then fld m cur .size
        else out.largestFree }
  else { out with usedBytes := (out.usedBytes + fld m cur .size) % 2 ^ 64 }

/-- The loop of `kmem_get_stats` over at most so many blocks. -/
def statsLoop (m : Mem) : ℕ → Stats → ℕ → Option Stats
  | 0, _, _ => none
  | blocks + 1, out, cur =>
    if cur = 0 then some out else statsLoop m blocks (out.add m cur) (fld m cur .next)

/-- `kmem_get_stats` -/
def getStats (h : Heap) : Option Stats :=
  if !h.initialized then some ⟨0, 0, 0, 0, 0, 0⟩
  else statsLoop h.mem (2 ^ 64) ⟨(h.heapEnd + 2 ^ 64 - h.heapBase) % 2 ^ 64, 0, 0, 0, 0, 0⟩ h.head

end Kmem
end Mcsos
