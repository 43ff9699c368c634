import Mcsos.Vfs.Fd

/-!
# What opening a file does

`mcs_vfs_open` looks the path up and creates the file if that fails, takes a descriptor, and
truncates the file.  Each of these can succeed before the next one fails.  `vfsOpen_cases` says
what is left behind in every case: how the node was found (`openNode_cases`), and then either a new
descriptor on it (`Opened`) or none (`NotOpened`).
-/

set_option autoImplicit false

namespace Mcsos
namespace Vfs

open Program Bytes

variable {fs : Ramfs}

/-! ## Creating files -/

/-- There is no node at the path, but a file can be made there: in the directory `parent`, with the
name `leaf`. -/
structure Creatable (fs : Ramfs) (path : CString) (parent : ℕ) (leaf : List UInt8) : Prop where
  missing : ∀ i, ramfsLookup fs path ≠ .ok i
  split : splitParentLeaf fs path = .ok (parent, leaf)
  dir : (fs.nodes parent).type = .dir
  nodes : fs.nodeCount < maxNodes
  data : fs.dataUsed + 256 ≤ ramfsDataBytes

/-- A name that is split off has a proper length. -/
theorem splitParentLeafLoop_length {fuel cur parent : ℕ} {seg leaf : List UInt8}
    (h : splitParentLeafLoop fs fuel cur seg = .ok (parent, leaf)) :
    ¬ (leaf.length = 0 ∨ maxName ≤ leaf.length) := by
  induction fuel generalizing cur seg with
  | zero => cases h
  | succ fuel ih =>
    rw [splitParentLeafLoop] at h
    split at h
    · cases h
    · rename_i hname
      split at h
      · obtain ⟨-, rfl⟩ := Prod.mk.inj (Except.ok.inj h)
        exact hname
      · split at h
        · cases h
        · split at h
          · cases h
          · exact ih h

theorem splitParentLeaf_length {path : CString} {parent : ℕ} {leaf : List UInt8}
    (h : splitParentLeaf fs path = .ok (parent, leaf)) :
    ¬ (leaf.length = 0 ∨ maxName ≤ leaf.length) := by
  rw [splitParentLeaf] at h
  split at h
  · cases h
  · split at h
    · cases h
    · split at h
      · cases h
      · exact splitParentLeafLoop_length h

section Create

variable {path : CString} {parent : ℕ} {leaf : List UInt8}

theorem ramfsCreateFile_of_creatable (h : Creatable fs path parent leaf) :
    ramfsCreateFile path fs
      = .ok fs.nodeCount (fs.addNode (fs.nodes parent).id .file leaf 256) := by
  rw [ramfsCreateFile, bind_of_ok (get_apply fs)]
  cases hlookup : ramfsLookup fs path with
  | ok i => exact absurd hlookup (h.missing i)
  | error e =>
    dsimp only
    rw [h.split]
    dsimp only
    rw [bind_of_ok (failIf_of_neg (not_not.2 h.dir) _ fs), allocNode, bind_of_ok (get_apply fs),
      bind_of_ok (failIf_of_neg (splitParentLeaf_length h.split) _ fs),
      bind_of_ok (failIf_of_neg (not_le.2 h.nodes) _ fs),
      bind_of_ok (failIf_of_neg (fun hc ↦ not_lt.2 h.data hc.2) _ fs)]
    rfl

/-- The two ways in which `mcs_ramfs_create_file` succeeds. -/
theorem ramfsCreateFile_cases (fs : Ramfs) (path : CString) :
    Ends (ramfsCreateFile path) fs
      (fun i fs' ↦ ramfsLookup fs path = .ok i ∧ (fs.nodes i).type = .file ∧ fs' = fs ∨
        ∃ parent leaf, Creatable fs path parent leaf ∧ i = fs.nodeCount ∧
          fs' = fs.addNode (fs.nodes parent).id .file leaf 256)
      (fun _ fs' ↦ fs' = fs) := by
  refine ends_get ?_
  cases hlookup : ramfsLookup fs path with
  | ok existing =>
    exact ends_failIf (fun _ ↦ rfl) fun htype ↦ ends_pure (.inl ⟨rfl, not_not.1 htype, rfl⟩)
  | error e =>
    dsimp only
    cases hsplit : splitParentLeaf fs path with
    | error e => exact ends_of_error rfl rfl
    | ok r =>
      obtain ⟨parent, leaf⟩ := r
      refine ends_failIf (fun _ ↦ rfl) fun hdir ↦ ends_get (ends_failIf (fun _ ↦ rfl) fun _ ↦
        ends_failIf (fun _ ↦ rfl) fun hnodes ↦ ends_failIf (fun _ ↦ rfl) fun hdata ↦
          ends_of_ok rfl (.inr ⟨parent, leaf, ⟨?_, hsplit, ?_, ?_, ?_⟩, rfl, rfl⟩))
      · intro i hi
        rw [hlookup] at hi
        cases hi
      · exact not_not.1 hdir
      · exact not_le.1 hnodes
      · exact not_lt.1 fun hc ↦ hdata ⟨rfl, hc⟩

end Create

/-! ## Finding the node -/

section Files

variable {T : Type} {w : World T} {t : T}

/-- The two ways in which the node is found. -/
theorem openNode_cases (w : World T) (path : CString) (flags : UInt32) :
    Ends (openNode path flags) w
      (fun i w' ↦ ramfsLookup w.fs path = .ok i ∧ w' = w ∨
        flags &&& oCreat ≠ 0 ∧ ∃ parent leaf, Creatable w.fs path parent leaf ∧
          i = w.fs.nodeCount ∧
          w' = { w with fs := w.fs.addNode (w.fs.nodes parent).id .file leaf 256 })
      (fun _ w' ↦ w' = w) := by
  refine ends_get ?_
  cases hlookup : ramfsLookup w.fs path with
  | ok node => exact ends_pure (.inl ⟨rfl, rfl⟩)
  | error e =>
    refine ends_failIf (fun _ ↦ rfl) fun hcreat ↦ ends_zoom ?_
    refine (ramfsCreateFile_cases w.fs path).mono ?_ ?_
    · rintro i fs' (⟨hok, -⟩ | ⟨parent, leaf, hc, rfl, rfl⟩)
      · rw [hlookup] at hok
        cases hok
      · exact .inr ⟨hcreat, parent, leaf, hc, rfl, rfl⟩
    · rintro - fs' rfl
      rfl

/-! ## Taking a descriptor -/

/-- The flags of the descriptor: files are opened for reading if nothing else is said. -/
def openFlags (flags : UInt32) : UInt32 :=
  if flags &&& (oRdonly ||| oWronly ||| oRdwr) = 0 then flags ||| oRdonly else flags

/-- A flag that is not `MCS_O_RDONLY` is not changed by this. -/
theorem openFlags_and {k : UInt32} (hk : oRdonly &&& k = 0) (flags : UInt32) :
    openFlags flags &&& k = flags &&& k := by
  have hk' : oRdonly.toBitVec &&& k.toBitVec = 0#32 := congrArg UInt32.toBitVec hk
  rw [openFlags]
  split
  · rw [← UInt32.toBitVec_inj, UInt32.toBitVec_and, UInt32.toBitVec_or, UInt32.toBitVec_and,
      BitVec.and_or_distrib_right, hk', BitVec.or_zero]
  · rfl

/-- The node has been opened: `fd` is a new descriptor on it, and with `MCS_O_TRUNC` the file is
empty now. -/
structure Opened (w : World T) (t : T) (flags : UInt32) (node fd : ℕ) (w' : World T) : Prop where
  lt : fd < 16
  free : (w.tables t fd).used = false
  writable : flags &&& oTrunc ≠ 0 → canWrite flags = true
  fs : w'.fs = if flags &&& oTrunc ≠ 0 then w.fs.modifyNode node fun v ↦ { v with size := 0 }
    else w.fs
  file : w'.tables t fd = ⟨true, flags,
    if flags &&& oTrunc = 0 ∧ flags &&& oAppend ≠ 0 then (w.fs.nodes node).size else 0,
    some node, true⟩
  other : ∀ t' fd', t' ≠ t ∨ fd' ≠ fd → w'.tables t' fd' = w.tables t' fd'

/-- The node has not been opened.  A descriptor that was taken for it has been given back. -/
structure NotOpened (w : World T) (t : T) (flags : UInt32) (node : ℕ) (w' : World T) : Prop where
  fs : w'.fs = w.fs
  tables : ∀ t' fd', w'.tables t' fd' = w.tables t' fd' ∨
    (w'.tables t' fd').used = false ∧ (w.tables t' fd').used = false
  reason : (w.fs.nodes node).type = .dir ∧ canWrite flags = true ∨
    (∀ fd < 16, (w.tables t fd).used = true) ∨ flags &&& oTrunc ≠ 0 ∧ canWrite flags = false

section Calls

theorem tables_modifyNode {i : ℕ} {f : Vnode → Vnode} : (w.modifyNode i f).tables = w.tables := rfl

variable [DecidableEq T]

theorem tables_modifyFile_self {fd : ℕ} {f : File → File} :
    (w.modifyFile t fd f).tables t fd = f (w.tables t fd) := by
  show Function.update w.tables t _ t fd = _
  rw [Function.update_self, Function.update_self]

theorem tables_modifyFile_of_ne {fd fd' : ℕ} {f : File → File} {t' : T}
    (h : t' ≠ t ∨ fd' ≠ fd) : (w.modifyFile t fd f).tables t' fd' = w.tables t' fd' := by
  show Function.update w.tables t _ t' fd' = _
  by_cases ht : t' = t
  · rw [ht, Function.update_self, Function.update_of_ne (h.resolve_left (not_not.2 ht))]
  · rw [Function.update_of_ne ht]

/-- `mcs_fd_alloc` fails if there is no free descriptor. -/
theorem fdAlloc_cases (w : World T) (t : T) : Ends (fdAlloc t) w
    (fun fd w' ↦ fd < 16 ∧ (w.tables t fd).used = false ∧
      w' = w.modifyFile t fd fun f ↦ { f with used := true })
    (fun _ w' ↦ w' = w ∧ ∀ fd < 16, (w.tables t fd).used = true) := by
  refine ends_get (ends_expect (fun hnone ↦ ⟨rfl, fun fd hlt ↦ ?_⟩) fun k hk ↦
    ends_of_ok rfl ⟨?_, ?_, rfl⟩)
  · simpa using List.find?_eq_none.1 hnone fd (List.mem_range.2 hlt)
  · exact List.mem_range.1 (List.mem_of_find?_eq_some hk)
  · simpa using List.find?_some hk

/-- The descriptor `fd` has been taken for the node, and nothing else has been done. -/
structure Taken (w : World T) (t : T) (flags : UInt32) (node fd : ℕ) (w' : World T) : Prop where
  lt : fd < 16
  free : (w.tables t fd).used = false
  fs : w'.fs = w.fs
  file : w'.tables t fd = ⟨true, flags,
    if flags &&& oAppend ≠ 0 then (w.fs.nodes node).size else 0, some node, true⟩
  other : ∀ t' fd', t' ≠ t ∨ fd' ≠ fd → w'.tables t' fd' = w.tables t' fd'

section Taken

variable {flags : UInt32} {node fd : ℕ} {w' : World T}

omit [DecidableEq T] in
theorem Taken.opened (h : Taken w t flags node fd w') (htrunc : flags &&& oTrunc = 0) :
    Opened w t flags node fd w' where
  lt := h.lt
  free := h.free
  writable hne := absurd htrunc hne
  fs := by rw [if_neg (not_not.2 htrunc), h.fs]
  file := by
    rw [h.file]
    congr 1
    exact if_congr (by rw [htrunc]; simp) rfl rfl
  other := h.other

theorem Taken.truncated (h : Taken w t flags node fd w') (htrunc : flags &&& oTrunc ≠ 0)
    (hwrite : canWrite flags = true) :
    Opened w t flags node fd ((w'.modifyNode node fun n ↦ { n with size := 0 }).modifyFile t fd
      fun f ↦ { f with offset := 0 }) where
  lt := h.lt
  free := h.free
  writable _ := hwrite
  fs := by
    rw [if_pos htrunc, ← h.fs]
    rfl
  file := by
    rw [tables_modifyFile_self, tables_modifyNode, h.file]
    dsimp only
    rw [if_neg fun hc ↦ htrunc hc.1]
  other t' fd' hne := by rw [tables_modifyFile_of_ne hne, tables_modifyNode, h.other t' fd' hne]

theorem Taken.givenBack (h : Taken w t flags node fd w') (htrunc : flags &&& oTrunc ≠ 0)
    (hwrite : canWrite flags = false) :
    NotOpened w t flags node (w'.modifyFile t fd fun f ↦
      { f with used := false, node := none, fs := false }) where
  fs := h.fs
  tables t' fd' := by
    by_cases hsame : t' = t ∧ fd' = fd
    · rw [hsame.1, hsame.2, tables_modifyFile_self]
      exact .inr ⟨rfl, h.free⟩
    · rw [tables_modifyFile_of_ne (not_and_or.1 hsame), h.other t' fd' (not_and_or.1 hsame)]
      exact .inl rfl
  reason := .inr (.inr ⟨htrunc, hwrite⟩)

end Taken

/-- What `mcs_vfs_open` does after it has found the node. -/
theorem vfsOpen_cases (w : World T) (t : T) (path : CString) (flags : UInt32) :
    Ends (vfsOpen t path flags) w
      (fun fd w' ↦ ∃ node w1, openNode path (openFlags flags) w = .ok node w1 ∧
        Opened w1 t (openFlags flags) node fd w')
      (fun e w' ↦ openNode path (openFlags flags) w = .error e w' ∨
        ∃ node w1, openNode path (openFlags flags) w = .ok node w1 ∧
          NotOpened w1 t (openFlags flags) node w') := by
  rw [vfsOpen, ← openFlags]
  generalize openFlags flags = flags
  cases hnode : openNode path flags w with
  | error e w' => exact ends_of_error (bind_of_error hnode) (.inl rfl)
  | ok node w1 =>
    refine ends_bind_ok hnode (ends_get (ends_failIf ?_ fun _ ↦ ?_))
    · exact fun hdir ↦ .inr ⟨node, w1, rfl, rfl, fun _ _ ↦ .inl rfl, .inl hdir⟩
    refine ends_bind ((fdAlloc_cases w1 t).mono (fun _ _ h ↦ h) ?_) ?_
    · rintro - w' ⟨rfl, hfull⟩
      exact .inr ⟨node, w', rfl, rfl, fun _ _ ↦ .inl rfl, .inr (.inl hfull)⟩
    rintro fd w2 ⟨hlt, hfree, rfl⟩
    refine ends_modify ?_
    generalize hw3 : (World.modifyFile _ t fd _ : World T) = w3
    have htaken : Taken w1 t flags node fd w3 := by
      subst hw3
      refine ⟨hlt, hfree, rfl, ?_, fun t' fd' hne ↦ ?_⟩
      · rw [tables_modifyFile_self, tables_modifyFile_self]
        rfl
      · rw [tables_modifyFile_of_ne hne, tables_modifyFile_of_ne hne]
    split
    · rename_i htrunc
      cases hwrite : canWrite flags with
      | false =>
        exact ends_bind (Q := fun _ _ ↦ False) (ends_onError (ends_of_error (failIf_of_pos rfl _ w3)
          (.inr ⟨node, w1, rfl, htaken.givenBack htrunc hwrite⟩))) fun _ _ h ↦ h.elim
      | true =>
        refine ends_bind (Q := fun _ w' ↦ w' = w3) (ends_onError (ends_of_ok rfl rfl)) ?_
        rintro - w' rfl
        exact ends_modify (ends_modify (ends_pure
          ⟨node, w1, rfl, htaken.truncated htrunc hwrite⟩))
    · rename_i htrunc
      exact ends_pure ⟨node, w1, rfl, htaken.opened (not_not.1 htrunc)⟩

end Calls

end Files

end Vfs
end Mcsos
