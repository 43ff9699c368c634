import Mcsos.Lib.Program
import Mcsos.Lib.Bytes
import Mathlib.Tactic.Ring

/-!
# The ELF loader's plan

The model of `m11_elf_loader.c`: it checks an ELF64 image and writes down which parts of it have to
be mapped where.  Header fields are machine integers of the widths the format gives them, so that
the sums the checks are built from wrap as they do in C.

The image is a byte string.  A header that does not lie inside it cannot be read: the error
`outside` stands for that and is no code of the source.
-/

set_option autoImplicit false

namespace Mcsos
namespace Elf

open Program Bytes

/-- The codes `M11_ERR_*`, and a read outside of the image. -/
inductive Err
  | null
  | size
  | magic
  | elfclass
  | endian
  | version
  | type
  | machine
  | ehsize
  | phentsize
  | phbounds
  | align
  | segbounds
  | segrange
  | segcount
  | entry
  | flags
  | outside
  deriving DecidableEq, Repr

/-! ## The format -/

/-- `M11_ELFCLASS64` -/
abbrev elfclass64 : UInt8 := 2

/-- `M11_ELFDATA2LSB` -/
abbrev elfdata2lsb : UInt8 := 1

/-- `M11_EV_CURRENT` -/
abbrev evCurrent : ℕ := 1

/-- `M11_ET_EXEC` -/
abbrev etExec : UInt16 := 2

/-- `M11_ET_DYN` -/
abbrev etDyn : UInt16 := 3

/-- `M11_EM_X86_64` -/
abbrev emX8664 : UInt16 := 62

/-- `M11_PT_LOAD` -/
abbrev ptLoad : UInt32 := 1

/-- `M11_PF_X` -/
abbrev pfX : UInt32 := 1

/-- `M11_PF_W` -/
abbrev pfW : UInt32 := 2

/-- `M11_PF_R` -/
abbrev pfR : UInt32 := 4

/-- `M11_MAX_LOAD_SEGMENTS` -/
abbrev maxLoadSegments : ℕ := 8

/-- `sizeof(struct m11_elf64_ehdr)` -/
abbrev ehdrSize : ℕ := 64

/-- `sizeof(struct m11_elf64_phdr)` -/
abbrev phdrSize : ℕ := 56

/-- `struct m11_elf64_ehdr`, the fields that are read -/
structure Ehdr where
  eIdent : ℕ → UInt8
  eType : UInt16
  eMachine : UInt16
  eVersion : UInt32
  eEntry : UInt64
  ePhoff : UInt64
  eEhsize : UInt16
  ePhentsize : UInt16
  ePhnum : UInt16

/-- The offset of `ph[i]`. -/
def Ehdr.phdrOffset (eh : Ehdr) (i : ℕ) : ℕ := eh.ePhoff.toNat + phdrSize * i

/-- `struct m11_elf64_phdr`, the fields that are read -/
structure Phdr where
  pType : UInt32
  pFlags : UInt32
  pOffset : UInt64
  pVaddr : UInt64
  pFilesz : UInt64
  pMemsz : UInt64
  pAlign : UInt64
  deriving DecidableEq, Repr

/-- An image; its size is a `size_t`. -/
structure Image where
  bytes : List UInt8
  size_lt : bytes.length < 2 ^ 64

namespace Image

variable (image : Image)

/-- The argument `image_size`. -/
def size : UInt64 := UInt64.ofNat image.bytes.length

/-- The byte at an address of the image. -/
def byte (i : ℕ) : UInt8 := image.bytes.getD i 0

/-- The file header. -/
def ehdr : Ehdr where
  eIdent := image.byte
  eType := UInt16.ofNat (le image.byte 16 2)
  eMachine := UInt16.ofNat (le image.byte 18 2)
  eVersion := UInt32.ofNat (le image.byte 20 4)
  eEntry := UInt64.ofNat (le image.byte 24 8)
  ePhoff := UInt64.ofNat (le image.byte 32 8)
  eEhsize := UInt16.ofNat (le image.byte 52 2)
  ePhentsize := UInt16.ofNat (le image.byte 54 2)
  ePhnum := UInt16.ofNat (le image.byte 56 2)

/-- The program header at an offset. -/
def phdrAt (off : ℕ) : Phdr where
  pType := UInt32.ofNat (le image.byte off 4)
  pFlags := UInt32.ofNat (le image.byte (off + 4) 4)
  pOffset := UInt64.ofNat (le image.byte (off + 8) 8)
  pVaddr := UInt64.ofNat (le image.byte (off + 16) 8)
  pFilesz := UInt64.ofNat (le image.byte (off + 32) 8)
  pMemsz := UInt64.ofNat (le image.byte (off + 40) 8)
  pAlign := UInt64.ofNat (le image.byte (off + 48) 8)

end Image

/-! ## The plan -/

/-- `struct m11_user_region` -/
structure Region where
  base : UInt64
  limit : UInt64

/-- `struct m11_segment_plan` -/
structure Segment where
  fileOffset : UInt64
  vaddr : UInt64
  filesz : UInt64
  memsz : UInt64
  align : UInt64
  flags : UInt32
  deriving DecidableEq, Repr

/-- `struct m11_process_image_plan`; `segments` has `M11_MAX_LOAD_SEGMENTS` entries -/
structure Plan where
  entry : UInt64
  segmentCount : ℕ
  segments : ℕ → Segment

/-- `m11_zero_plan` -/
def zeroPlan (plan : Plan) : Plan where
  entry := 0
  segmentCount := 0
  segments := fun i ↦ if i < maxLoadSegments then ⟨0, 0, 0, 0, 0, 0⟩ else plan.segments i

/-- What the plan keeps of a program header. -/
def segmentOf (ph : Phdr) : Segment where
  fileOffset := ph.pOffset
  vaddr := ph.pVaddr
  filesz := ph.pFilesz
  memsz := ph.pMemsz
  align := ph.pAlign
  flags := ph.pFlags

/-- The plan with one more segment. -/
def appendSegment (plan : Plan) (ph : Phdr) : Plan :=
  { plan with
    segmentCount := plan.segmentCount + 1
    segments := Function.update plan.segments plan.segmentCount (segmentOf ph) }

/-! ## The checks

None of them changes the plan. -/

section Checks

variable {σ : Type}

/-- `m11_add_overflow_u64` -/
def addOverflow (a b : UInt64) : Option UInt64 :=
  let r := a + b
  if r < a then none else some r

/-- `m11_is_power_of_two_u64` -/
def isPowerOfTwo (v : UInt64) : Bool := v ≠ 0 ∧ v &&& (v - 1) = 0

/-- `m11_validate_user_range` -/
def validateUserRange (region : Region) (base size : UInt64) : EStateM Err σ Unit := do
  failIf (region.limit ≤ region.base) .segrange
  failIf (size = 0) .segrange
  let stop ← expect (addOverflow base size) .segrange
  failIf (base < region.base ∨ region.limit < stop ∨ stop ≤ base) .segrange

/-- `m11_validate_ident` -/
def validateIdent (eh : Ehdr) : EStateM Err σ Unit := do
  failIf (eh.eIdent 0 ≠ 0x7f ∨ eh.eIdent 1 ≠ 0x45 ∨ eh.eIdent 2 ≠ 0x4c ∨ eh.eIdent 3 ≠ 0x46) .magic
  failIf (eh.eIdent 4 ≠ elfclass64) .elfclass
  failIf (eh.eIdent 5 ≠ elfdata2lsb) .endian
  failIf ((eh.eIdent 6).toNat ≠ evCurrent ∨ eh.eVersion.toNat ≠ evCurrent) .version

/-- `m11_validate_phdr_bounds` -/
def validatePhdrBounds (eh : Ehdr) (imageSize : UInt64) : EStateM Err σ Unit := do
  failIf (eh.ePhnum = 0) .phbounds
  failIf (eh.ePhentsize.toNat ≠ phdrSize) .phentsize
  let phTableBytes := eh.ePhentsize.toUInt64 * eh.ePhnum.toUInt64
  failIf (eh.ePhnum ≠ 0 ∧ phTableBytes / eh.ePhnum.toUInt64 ≠ eh.ePhentsize.toUInt64) .phbounds
  let phEnd ← expect (addOverflow eh.ePhoff phTableBytes) .phbounds
  failIf (imageSize < phEnd ∨ imageSize < eh.ePhoff) .phbounds

/-- `m11_validate_load_segment` -/
def validateLoadSegment (ph : Phdr) (imageSize : UInt64) (region : Region) :
    EStateM Err σ Unit := do
  failIf (ph.pFlags &&& ~~~(pfR ||| pfW ||| pfX) ≠ 0) .flags
  failIf (ph.pFlags &&& pfW ≠ 0 ∧ ph.pFlags &&& pfX ≠ 0) .flags
  failIf (ph.pMemsz < ph.pFilesz) .segbounds
  failIf (ph.pAlign ≠ 0 ∧ ph.pAlign ≠ 1 ∧ !isPowerOfTwo ph.pAlign) .align
  failIf (ph.pAlign ≠ 0 ∧ ph.pAlign ≠ 1 ∧ ph.pVaddr % ph.pAlign ≠ ph.pOffset % ph.pAlign) .align
  let fileEnd ← expect (addOverflow ph.pOffset ph.pFilesz) .segbounds
  failIf (imageSize < fileEnd ∨ imageSize < ph.pOffset) .segbounds
  validateUserRange region ph.pVaddr ph.pMemsz

end Checks

/-! ## The loader -/

/-- Reading the file header. -/
def readEhdr (image : Image) : EStateM Err Plan Ehdr := do
  failIf (image.bytes.length < ehdrSize) .outside
  pure image.ehdr

/-- Reading a program header. -/
def readPhdr (image : Image) (off : ℕ) : EStateM Err Plan Phdr := do
  failIf (image.bytes.length < off + phdrSize) .outside
  pure (image.phdrAt off)

/-- One round of the loop of `m11_elf64_plan_load`, for the program header `ph`. -/
def planSegment (image : Image) (region : Region) (ph : Phdr) : EStateM Err Plan Unit :=
  if ph.pType ≠ ptLoad then pure ()
  else onError (do
    let plan ← get
    failIf (maxLoadSegments ≤ plan.segmentCount) .segcount
    validateLoadSegment ph image.size region
    modify fun plan ↦ appendSegment plan ph) zeroPlan

/-- `m11_elf64_plan_load`; `none` is the null image -/
def planLoad (image : Option Image) (region : Region) : EStateM Err Plan Unit := do
  let image ← expect image .null
  modify zeroPlan
  failIf (image.size.toNat < ehdrSize) .size
  let eh ← readEhdr image
  validateIdent eh
  failIf (eh.eType ≠ etExec ∧ eh.eType ≠ etDyn) .type
  failIf (eh.eMachine ≠ emX8664) .machine
  failIf (eh.eEhsize.toNat ≠ ehdrSize) .ehsize
  validatePhdrBounds eh image.size
  tryCatch (validateUserRange region eh.eEntry 1) fun _ ↦ throw .entry
  modify fun plan ↦ { plan with entry := eh.eEntry }
  (List.range eh.ePhnum.toNat).forM fun i ↦ do
    let ph ← readPhdr image (eh.phdrOffset i)
    planSegment image region ph
  let plan ← get
  failIf (plan.segmentCount = 0) .segcount

end Elf
end Mcsos
