import Mcsos.Vfs.Transfer

/-!
# What failed calls leave behind

`mcs_vfs_open` gives the descriptor back when a later check fails, but a file that it has created
stays.  That happens when the table is full, and when the flags ask for truncation but not for
writing.  In the same way `mcs_ramfs_seed_file` creates the file before it compares the length of
the data with the capacity.  In all other cases a failed call has no effect (`failed_calls_iff`).
-/

set_option autoImplicit false

namespace Mcsos
namespace Vfs

open Program

variable {T : Type} {w w' : World T} {t : T} {path : CString} {flags : UInt32} {fs : Ramfs}
  {data : List UInt8}

/-- The same descriptors are open, and on the same files. -/
def SameOpen (w w' : World T) : Prop :=
  ∀ t fd, (w'.tables t fd).used = (w.tables t fd).used ∧
    ((w.tables t fd).used = true → w'.tables t fd = w.tables t fd)

/-- A call of `mcs_vfs_open` that fails has no effect. -/
def OpenFailsCleanly [DecidableEq T] (w : World T) (t : T) (path : CString) (flags : UInt32) :
    Prop :=
  ∀ e w', vfsOpen t path flags w = .error e w' → w'.fs = w.fs ∧ SameOpen w w'

/-- A call of `mcs_ramfs_seed_file` that fails has no effect. -/
def SeedFailsCleanly (fs : Ramfs) (path : CString) (data : List UInt8) : Prop :=
  ∀ e fs', ramfsSeedFile path data fs = .error e fs' → fs' = fs

/-- The path can be created, and has to be; but then it cannot be opened, since the table is full
or since the file is not to be written. -/
def CreatedInVain (w : World T) (t : T) (path : CString) (flags : UInt32) : Prop :=
  flags &&& oCreat ≠ 0 ∧ (∃ parent leaf, Creatable w.fs path parent leaf) ∧
    ((∀ fd < 16, (w.tables t fd).used = true) ∨
      flags &&& oTrunc ≠ 0 ∧ canWrite flags = false)

theorem canWrite_openFlags (flags : UInt32) : canWrite (openFlags flags) = canWrite flags := by
  rw [canWrite, canWrite, openFlags_and (by decide), openFlags_and (by decide)]

theorem addNode_ne (fs : Ramfs) (parent : ℕ) (type : VnodeType) (name : List UInt8)
    (capacity : ℕ) : fs.addNode parent type name capacity ≠ fs := by
  intro h
  have hcount : fs.nodeCount + 1 = fs.nodeCount := congrArg Ramfs.nodeCount h
  omega

/-! ## Opening -/

theorem openNode_of_creatable {parent : ℕ} {leaf : List UInt8}
    (hcreat : flags &&& oCreat ≠ 0) (h : Creatable w.fs path parent leaf) :
    openNode path flags w = .ok w.fs.nodeCount
      { w with fs := w.fs.addNode (w.fs.nodes parent).id .file leaf 256 } := by
  rw [openNode, bind_of_ok (get_apply w)]
  cases hlookup : ramfsLookup w.fs path with
  | ok i => exact absurd hlookup (h.missing i)
  | error e =>
    dsimp only
    rw [bind_of_ok (failIf_of_neg hcreat _ w), onFs, zoom, ramfsCreateFile_of_creatable h]

theorem NotOpened.sameOpen {node : ℕ} (h : NotOpened w t flags node w') : SameOpen w w' := by
  intro t' fd
  rcases h.tables t' fd with heq | ⟨h1, h2⟩
  · exact ⟨by rw [heq], fun _ ↦ heq⟩
  · refine ⟨h1.trans h2.symm, fun hused ↦ ?_⟩
    rw [h2] at hused
    cases hused

section Calls

variable [DecidableEq T]

theorem openFailsCleanly_of_not (h : ¬ CreatedInVain w t path flags) :
    OpenFailsCleanly w t path flags := by
  intro e w' herr
  rcases (vfsOpen_cases w t path flags).of_eq_error herr with hnode | ⟨node, w1, hnode, hn⟩
  · rw [(openNode_cases w path _).of_eq_error hnode]
    exact ⟨rfl, fun _ _ ↦ ⟨rfl, fun _ ↦ rfl⟩⟩
  rcases (openNode_cases w path _).of_eq_ok hnode with ⟨-, rfl⟩ | ⟨hcreat, p, l, hc, rfl, rfl⟩
  · exact ⟨hn.fs, hn.sameOpen⟩
  · -- the file has been created, so that one of the two reasons applies
    rw [openFlags_and (by decide)] at hcreat
    have hreason := hn.reason
    rw [openFlags_and (by decide), canWrite_openFlags] at hreason
    rcases hreason with ⟨hdir, -⟩ | hreason
    · rw [nodes_addNode_self] at hdir
      cases hdir
    · exact absurd ⟨hcreat, ⟨p, l, hc⟩, hreason⟩ h

/-- The file stays. -/
theorem CreatedInVain.left_behind (h : CreatedInVain w t path flags) :
    ∃ e w', vfsOpen t path flags w = .error e w' ∧ w'.fs ≠ w.fs := by
  obtain ⟨hcreat, ⟨p, l, hc⟩, hreason⟩ := h
  rw [← openFlags_and (by decide)] at hcreat
  have hnode := openNode_of_creatable (w := w) hcreat hc
  cases hopen : vfsOpen t path flags w with
  | ok fd w' =>
    obtain ⟨node, w1, hnode', ho⟩ := (vfsOpen_cases w t path flags).of_eq_ok hopen
    obtain ⟨rfl, rfl⟩ := EStateM.Result.ok.inj (hnode.symm.trans hnode')
    rcases hreason with hfull | ⟨htrunc, hwrite⟩
    · have hfree : (w.tables t fd).used = false := ho.free
      rw [hfull fd ho.lt] at hfree
      cases hfree
    · rw [← openFlags_and (by decide)] at htrunc
      rw [← canWrite_openFlags, ho.writable htrunc] at hwrite
      cases hwrite
  | error e w' =>
    refine ⟨e, w', rfl, ?_⟩
    rcases (vfsOpen_cases w t path flags).of_eq_error hopen with hnode' | ⟨node, w1, hnode', hn⟩
    · rw [hnode] at hnode'
      cases hnode'
    · obtain ⟨rfl, rfl⟩ := EStateM.Result.ok.inj (hnode.symm.trans hnode')
      rw [hn.fs]
      exact addNode_ne _ _ _ _ _

theorem openFailsCleanly_iff :
    OpenFailsCleanly w t path flags ↔ ¬ CreatedInVain w t path flags := by
  refine ⟨fun h hvain ↦ ?_, openFailsCleanly_of_not⟩
  obtain ⟨e, w', herr, hne⟩ := hvain.left_behind
  exact hne (h e w' herr).1

end Calls

/-! ## Seeding -/

/-- The new file has 256 bytes. -/
theorem dataCapacity_addNode (fs : Ramfs) (parent : ℕ) (leaf : List UInt8) :
    ((fs.addNode parent .file leaf 256).nodes fs.nodeCount).dataCapacity = 256 := by
  rw [nodes_addNode_self]
  rfl

theorem seedFailsCleanly_iff : SeedFailsCleanly fs path data ↔
    ¬ ((∃ parent leaf, Creatable fs path parent leaf) ∧ 256 < data.length) := by
  constructor
  · rintro h ⟨⟨p, l, hc⟩, hlen⟩
    refine addNode_ne fs (fs.nodes p).id .file l 256 (h .enospc _ ?_)
    rw [ramfsSeedFile, bind_of_ok (ramfsCreateFile_of_creatable hc), bind_of_ok (get_apply _),
      bind_of_error (failIf_of_pos (by rwa [dataCapacity_addNode]) _ _)]
  · intro h e fs' herr
    have hends : Ends (ramfsSeedFile path data) fs (fun _ _ ↦ True) (fun _ fs' ↦ fs' = fs) := by
      refine ends_bind (ramfsCreateFile_cases fs path) ?_
      rintro i fs1 (⟨-, -, rfl⟩ | ⟨p, l, hc, rfl, rfl⟩)
      · exact ends_get (ends_failIf (fun _ ↦ rfl) fun _ ↦ ends_of_ok rfl trivial)
      · refine ends_get (ends_failIf (fun hlen ↦ ?_) fun _ ↦ ends_of_ok rfl trivial)
        rw [dataCapacity_addNode] at hlen
        exact absurd ⟨⟨p, l, hc⟩, hlen⟩ h
    exact hends.of_eq_error herr

/-- **When failed calls have no effect.**  A call of `mcs_vfs_open` that fails has no effect, unless
it has created a file that it then cannot open; a call of `mcs_ramfs_seed_file` that fails has no
effect, unless it has created a file in which the data have no room. -/
theorem failed_calls_iff [DecidableEq T] (w : World T) (t : T) (path : CString) (flags : UInt32)
    (data : List UInt8) :
    (OpenFailsCleanly w t path flags ↔ ¬ CreatedInVain w t path flags) ∧
      (SeedFailsCleanly w.fs path data ↔
        ¬ ((∃ parent leaf, Creatable w.fs path parent leaf) ∧ 256 < data.length)) :=
  ⟨openFailsCleanly_iff, seedFailsCleanly_iff⟩

/-! ## Files that stay -/

/-- The path `"/b"`. -/
def pathB : CString := .ofBytes [slash, 0x62]

/-- `"/a"` has been opened until the table is full. -/
def fullTable : World Unit := (after (vfsOpen () pathA oRdonly))^[15] oneOpenFile

theorem fullTable_reaches : Reaches fullTable := by
  rw [fullTable]
  generalize 15 = k
  induction k with
  | zero => exact oneOpenFile_reaches
  | succ k ih =>
    rw [Function.iterate_succ_apply']
    exact ih.call (.open () pathA oRdonly)

/-- `"/b"` cannot be opened, because the table is full; it cannot be opened with `MCS_O_RDONLY`
and `MCS_O_TRUNC`; and it cannot be given 257 bytes.  In each case there is a third node afterwards,
and the file system has 256 bytes less. -/
theorem failed_calls_leave_file : Reaches fullTable ∧ Reaches oneOpenFile ∧
    (errorOf (vfsOpen () pathB (oCreat ||| oRdwr)) fullTable = some .enfile ∧
      fullTable.fs.nodeCount = 2 ∧ fullTable.fs.dataUsed = 256 ∧
      (after (vfsOpen () pathB (oCreat ||| oRdwr)) fullTable).fs.nodeCount = 3 ∧
      (after (vfsOpen () pathB (oCreat ||| oRdwr)) fullTable).fs.dataUsed = 512) ∧
    (errorOf (vfsOpen () pathB (oCreat ||| oTrunc ||| oRdonly)) oneOpenFile = some .eacces ∧
      oneOpenFile.fs.nodeCount = 2 ∧
      (after (vfsOpen () pathB (oCreat ||| oTrunc ||| oRdonly)) oneOpenFile).fs.nodeCount = 3) ∧
    errorOf (ramfsSeedFile pathB (List.replicate 257 1)) oneOpenFile.fs = some .enospc ∧
      (after (ramfsSeedFile pathB (List.replicate 257 1)) oneOpenFile.fs).nodeCount = 3 := by
  refine ⟨fullTable_reaches, oneOpenFile_reaches, ?_, ?_, ?_⟩ <;> decide +kernel

end Vfs
end Mcsos
