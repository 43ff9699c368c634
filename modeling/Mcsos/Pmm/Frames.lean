import Mcsos.Lib.Bitmap

/-!
# The physical frame allocator

The model of `pmm.c`: one bit for every frame of 4096 bytes below `max_phys`, counters, and a hint
at where to look for a free frame.  Numbers are those of `uint64_t`; sums wrap where they do in C.
A loop over addresses visits `pageAddrs`, which are below `max_phys`, so that its counter does not
wrap.
-/

set_option autoImplicit false

namespace Mcsos
namespace Pmm

/-- `PMM_PAGE_SIZE` -/
@[simp] abbrev pageSize : ℕ := 4096

/-- `PMM_INVALID_FRAME` -/
@[simp] abbrev invalidFrame : ℕ := 0xffffffffffffffff

/-- `BOOT_MEM_USABLE` -/
@[simp] abbrev bootMemUsable : UInt32 := 1

/-- `struct boot_mem_region` -/
structure BootMemRegion where
  base : ℕ
  length : ℕ
  type : UInt32

/-- `struct pmm_state` -/
structure State where
  bitmap : ℕ → UInt8
  bitmapBytes : ℕ
  maxPhys : ℕ
  frameCount : ℕ
  freeFrames : ℕ
  usedFrames : ℕ
  reservedFrames : ℕ
  ignoredFrames : ℕ
  nextHint : ℕ
  initialized : Bool

/-- `align_down` to a page -/
def alignDown (value : ℕ) : ℕ := value &&& (2 ^ 64 - pageSize)

/-- `align_up` to a page -/
def alignUp (value : ℕ) : ℕ := (value + (pageSize - 1)) % 2 ^ 64 &&& (2 ^ 64 - pageSize)

/-- `checked_add_u64` -/
def checkedAdd (a b : ℕ) : Option ℕ := if 2 ^ 64 - 1 - a < b then none else some (a + b)

/-- The addresses that `for (addr = start; addr < stop; addr += PMM_PAGE_SIZE)` visits. -/
def pageAddrs (start stop : ℕ) : List ℕ :=
  (List.range ((stop - start + (pageSize - 1)) / pageSize)).map fun k ↦ start + k * pageSize

/-- `mark_frame_free` -/
def markFrameFree (frame : ℕ) (s : State) : State :=
  if s.frameCount ≤ frame then s
  else if Bitmap.test s.bitmap frame then
    { s with
      bitmap := Bitmap.clear s.bitmap frame
      freeFrames := (s.freeFrames + 1) % 2 ^ 64
      usedFrames := if 0 < s.usedFrames then s.usedFrames - 1 else s.usedFrames
      nextHint := if frame < s.nextHint then frame else s.nextHint }
  else s

/-- `mark_frame_used` -/
def markFrameUsed (frame : ℕ) (s : State) : State :=
  if s.frameCount ≤ frame then s
  else if !Bitmap.test s.bitmap frame then
    { s with
      bitmap := Bitmap.set s.bitmap frame
      freeFrames := if 0 < s.freeFrames then s.freeFrames - 1 else s.freeFrames
      usedFrames := (s.usedFrames + 1) % 2 ^ 64 }
  else s

/-- The part of `mark_range_free` behind the computation of `start` and `stop`. -/
def freePages (start stop : ℕ) (s : State) : State :=
  if stop ≤ start then s
  else if s.maxPhys ≤ start then s
  else
    let (last, s) := if s.maxPhys < stop then
        (s.maxPhys,
          { s with ignoredFrames := (s.ignoredFrames + (stop - s.maxPhys) / pageSize) % 2 ^ 64 })
      else (stop, s)
    (pageAddrs start last).foldl (fun s addr ↦ markFrameFree (addr / pageSize) s) s

/-- `mark_range_free` -/
def markRangeFree (base length : ℕ) (s : State) : State :=
  if length = 0 then s
  else
    match checkedAdd base length with
    | none => s
    | some stop => freePages (alignUp base) (alignDown stop) s

/-- One round of the loop of `mark_range_used`. -/
def reserveFrame (frame : ℕ) (s : State) : State :=
  let wasFree := !Bitmap.test s.bitmap frame
  let s := markFrameUsed frame s
  if wasFree then { s with reservedFrames := (s.reservedFrames + 1) % 2 ^ 64 } else s

/-- The part of `mark_range_used` behind the computation of `start` and `stop`. -/
def usePages (start stop : ℕ) (s : State) : State :=
  if stop ≤ start then s
  else if s.maxPhys ≤ start then s
  else
    let last := if s.maxPhys < stop then s.maxPhys else stop
    (pageAddrs start last).foldl (fun s addr ↦ reserveFrame (addr / pageSize) s) s

/-- `mark_range_used` -/
def markRangeUsed (base length : ℕ) (s : State) : State :=
  if length = 0 then s
  else
    match checkedAdd base length with
    | none => s
    | some stop => usePages (alignDown base) (alignUp stop) s

/-- The state from which `pmm_init_from_map` starts, with all frames used. -/
def allUsed (storage : ℕ → UInt8) (maxPhysBytes : ℕ) : State :=
  let frameCount := maxPhysBytes / pageSize
  let required := (frameCount + 7) / 8
  { bitmap := fun i ↦ if i < required then 0xff else storage i
    bitmapBytes := required
    maxPhys := maxPhysBytes
    frameCount := frameCount
    freeFrames := 0
    usedFrames := frameCount
    reservedFrames := 0
    ignoredFrames := 0
    nextHint := 0
    initialized := false }

/-- The three passes of `pmm_init_from_map`: free what is usable, then take frame 0 and everything
that is not usable. -/
def applyMap (regions : List BootMemRegion) (s : State) : State :=
  let s := regions.foldl (fun s r ↦
    if r.type = bootMemUsable then markRangeFree r.base r.length s else s) s
  let s := markRangeUsed 0 pageSize s
  regions.foldl (fun s r ↦
    if r.type ≠ bootMemUsable then markRangeUsed r.base r.length s else s) s

/-- `pmm_init_from_map`, where `none` stands for `false` -/
def initFromMap (regions : List BootMemRegion) (storage : ℕ → UInt8)
    (storageBytes maxPhysBytes : ℕ) : Option State :=
  if regions = [] then none
  else if maxPhysBytes = 0 ∨ maxPhysBytes &&& (pageSize - 1) ≠ 0 then none
  else if storageBytes < (maxPhysBytes / pageSize + 7) / 8 then none
  else some { applyMap regions (allUsed storage maxPhysBytes) with initialized := true }

/-- Take the frame that a scan has found. -/
def takeFrame (frame : ℕ) (s : State) : ℕ × State :=
  (frame * pageSize, { markFrameUsed frame s with nextHint := frame + 1 })

/-- `pmm_alloc_frame` -/
def allocFrame (s : State) : ℕ × State :=
  if !s.initialized ∨ s.freeFrames = 0 then (invalidFrame, s)
  else
    match (List.range' s.nextHint (s.frameCount - s.nextHint)).find? fun f ↦
        !Bitmap.test s.bitmap f with
    | some frame => takeFrame frame s
    | none =>
      match (List.range s.nextHint).find? fun f ↦ !Bitmap.test s.bitmap f with
      | some frame => takeFrame frame s
      | none => (invalidFrame, s)

/-- `pmm_free_frame` -/
def freeFrame (physAddr : ℕ) (s : State) : Bool × State :=
  if !s.initialized then (false, s)
  else if physAddr &&& (pageSize - 1) ≠ 0 ∨ physAddr = 0 ∨ s.maxPhys ≤ physAddr then (false, s)
  else if !Bitmap.test s.bitmap (physAddr / pageSize) then (false, s)
  else (true, markFrameFree (physAddr / pageSize) s)

/-- `pmm_reserve_range` -/
def reserveRange (base length : ℕ) (s : State) : Bool × State :=
  if !s.initialized ∨ length = 0 then (false, s)
  else (true, markRangeUsed base length s)

end Pmm
end Mcsos
