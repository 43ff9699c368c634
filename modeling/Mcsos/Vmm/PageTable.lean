import Mathlib.Logic.Function.Basic
import Mathlib.Tactic.Ring
import Mcsos.Lib.Outcome

/-!
# Page tables

The model of `vmm.c`: a space has a tree of tables of 512 entries, four levels deep, and maps
virtual pages to frames.  Tables lie in frames of physical memory; the functions that allocate a
frame, give it back and find the table that lies in it are parameters of the space.  They work on
memory and on what the space's `ctx` points to, which together are the `State`.

A null pointer is `none`.  Flushing the translation cache has no effect on the tables and is left
out.
-/

set_option autoImplicit false

namespace Mcsos
namespace Vmm

open Program

abbrev Word : Type := BitVec 64

/-- The error values of the functions. -/
inductive Err
  | errInval
  | errNomem
  | errExists
  | errNotFound
  deriving DecidableEq, Repr

/-- `VMM_PAGE_SIZE` -/
abbrev pageSize : Word := 4096

/-- `VMM_INVALID_PHYS` -/
abbrev invalidPhys : Word := 0xffffffffffffffff

/-- `VMM_PTE_PRESENT` -/
abbrev ptePresent : Word := 1 <<< 0

/-- `VMM_PTE_WRITABLE` -/
abbrev pteWritable : Word := 1 <<< 1

/-- `VMM_PTE_USER` -/
abbrev pteUser : Word := 1 <<< 2

/-- `VMM_PTE_WRITE_THROUGH` -/
abbrev pteWriteThrough : Word := 1 <<< 3

/-- `VMM_PTE_CACHE_DISABLE` -/
abbrev pteCacheDisable : Word := 1 <<< 4

/-- `VMM_PTE_HUGE` -/
abbrev pteHuge : Word := 1 <<< 7

/-- `VMM_PTE_GLOBAL` -/
abbrev pteGlobal : Word := 1 <<< 8

/-- `VMM_PTE_NO_EXECUTE` -/
abbrev pteNoExecute : Word := 1 <<< 63

/-- `VMM_PTE_ADDR_MASK` -/
abbrev pteAddrMask : Word := 0x000FFFFFFFFFF000

/-- The tables in memory, by pointer, and what `ctx` points to. -/
structure State (σ V : Type) where
  mem : V → Fin 512 → Word
  ctx : σ

/-- `struct vmm_space` -/
structure Space (σ V : Type) where
  rootPaddr : Word
  allocFrame : Option (State σ V → Word × State σ V)
  freeFrame : Option (Word → State σ V → State σ V)
  physToVirt : Option (σ → Word → Option V)

/-- `struct vmm_mapping` -/
structure Mapping where
  vaddr : Word
  paddr : Word
  flags : Word
  deriving DecidableEq

/-- `vmm_is_aligned_4k` -/
def isAligned4k (value : Word) : Bool := (value &&& (pageSize - 1)) == 0

/-- `vmm_is_canonical` -/
def isCanonical (vaddr : Word) : Bool :=
  let sign := (vaddr >>> 47) &&& 1
  let upper := vaddr >>> 48
  if sign ≠ 0 then upper == 0xFFFF else upper == 0

/-- `idx_pml4` -/
def idxPml4 (vaddr : Word) : Fin 512 := Fin.ofNat 512 ((vaddr >>> 39) &&& 0x1FF).toNat

/-- `idx_pdpt` -/
def idxPdpt (vaddr : Word) : Fin 512 := Fin.ofNat 512 ((vaddr >>> 30) &&& 0x1FF).toNat

/-- `idx_pd` -/
def idxPd (vaddr : Word) : Fin 512 := Fin.ofNat 512 ((vaddr >>> 21) &&& 0x1FF).toNat

/-- `idx_pt` -/
def idxPt (vaddr : Word) : Fin 512 := Fin.ofNat 512 ((vaddr >>> 12) &&& 0x1FF).toNat

section Calls

variable {σ V : Type} [DecidableEq V]

/-- `vmm_space_init` -/
def spaceInit (rootPaddr : Word) (allocFrame : Option (State σ V → Word × State σ V))
    (freeFrame : Option (Word → State σ V → State σ V))
    (physToVirt : Option (σ → Word → Option V)) : Except Err (Space σ V) :=
  if physToVirt.isNone ∨ !isAligned4k rootPaddr then .error .errInval
  else .ok ⟨rootPaddr, allocFrame, freeFrame, physToVirt⟩

/-- `vmm_zero_page` -/
def zeroPage (page : V) (s : State σ V) : State σ V :=
  { s with mem := Function.update s.mem page fun _ ↦ 0 }

/-- `table[index] = entry` -/
def setEntry (table : V) (index : Fin 512) (entry : Word) (s : State σ V) : State σ V :=
  { s with mem := Function.update s.mem table (Function.update (s.mem table) index entry) }

/-- `table_from_phys` -/
def tableFromPhys (space : Space σ V) (paddr : Word) (s : State σ V) : Option V :=
  if !isAligned4k paddr then none else space.physToVirt.bind fun f ↦ f s.ctx paddr

/-- An entry that leads to a table. -/
def tableEntry (paddr : Word) : Word := (paddr &&& pteAddrMask) ||| ptePresent ||| pteWritable

/-- The flags that a caller of `vmm_map_page` can set. -/
def allowed : Word :=
  pteWritable ||| pteUser ||| pteWriteThrough ||| pteCacheDisable ||| pteGlobal ||| pteNoExecute

/-- An entry that maps a page. -/
def pageEntry (paddr flags : Word) : Word :=
  (paddr &&& pteAddrMask) ||| ptePresent ||| (flags &&& allowed)

/-- The part of `get_or_alloc_next_table` that makes a new table. -/
def allocNextTable (space : Space σ V) (table : V) (index : Fin 512) :
    EStateM Err (State σ V) V := do
  let allocFrame ← expect space.allocFrame .errNomem
  let newPaddr ← modifyGet allocFrame
  failIf (newPaddr = invalidPhys ∨ !isAligned4k newPaddr) .errNomem
  let s ← get
  let newTable ← onError (expect (tableFromPhys space newPaddr s) .errInval) fun s ↦
    match space.freeFrame with
    | some freeFrame => freeFrame newPaddr s
    | none => s
  modify (zeroPage newTable)
  modify (setEntry table index (tableEntry newPaddr))
  pure newTable

/-- `get_or_alloc_next_table` -/
def getOrAllocNextTable (space : Space σ V) (table : V) (index : Fin 512) :
    EStateM Err (State σ V) V := do
  let s ← get
  let entry := s.mem table index
  if entry &&& ptePresent ≠ 0 then
    failIf (entry &&& pteHuge ≠ 0) .errExists
    expect (tableFromPhys space (entry &&& pteAddrMask) s) .errInval
  else allocNextTable space table index

/-- `vmm_map_page` -/
def mapPage (space : Space σ V) (vaddr paddr flags : Word) : EStateM Err (State σ V) Unit := do
  failIf (!isCanonical vaddr ∨ !isAligned4k vaddr ∨ !isAligned4k paddr) .errInval
  let s ← get
  let pml4 ← expect (tableFromPhys space space.rootPaddr s) .errInval
  let pdpt ← getOrAllocNextTable space pml4 (idxPml4 vaddr)
  let pd ← getOrAllocNextTable space pdpt (idxPdpt vaddr)
  let pt ← getOrAllocNextTable space pd (idxPd vaddr)
  let s ← get
  failIf (s.mem pt (idxPt vaddr) &&& ptePresent ≠ 0) .errExists
  modify (setEntry pt (idxPt vaddr) (pageEntry paddr flags))

/-- One step down in `vmm_query_page` and `vmm_unmap_page`. -/
def nextTable (space : Space σ V) (table : V) (index : Fin 512) : EStateM Err (State σ V) V := do
  let s ← get
  let e := s.mem table index
  failIf (e &&& ptePresent = 0 ∨ e &&& pteHuge ≠ 0) .errNotFound
  expect (tableFromPhys space (e &&& pteAddrMask) s) .errInval

/-- The common beginning of `vmm_query_page` and `vmm_unmap_page`: the table of the last level. -/
def findTable (space : Space σ V) (vaddr : Word) : EStateM Err (State σ V) V := do
  failIf (!isCanonical vaddr ∨ !isAligned4k vaddr) .errInval
  let s ← get
  let pml4 ← expect (tableFromPhys space space.rootPaddr s) .errInval
  let pdpt ← nextTable space pml4 (idxPml4 vaddr)
  let pd ← nextTable space pdpt (idxPdpt vaddr)
  nextTable space pd (idxPd vaddr)

/-- `vmm_query_page` -/
def queryPage (space : Space σ V) (vaddr : Word) : EStateM Err (State σ V) Mapping := do
  let pt ← findTable space vaddr
  let s ← get
  let e := s.mem pt (idxPt vaddr)
  failIf (e &&& ptePresent = 0) .errNotFound
  pure ⟨vaddr, e &&& pteAddrMask, e &&& ~~~pteAddrMask⟩

/-- `vmm_unmap_page` -/
def unmapPage (space : Space σ V) (vaddr : Word) : EStateM Err (State σ V) Unit := do
  let pt ← findTable space vaddr
  let s ← get
  failIf (s.mem pt (idxPt vaddr) &&& ptePresent = 0) .errNotFound
  modify (setEntry pt (idxPt vaddr) 0)

end Calls

end Vmm
end Mcsos
