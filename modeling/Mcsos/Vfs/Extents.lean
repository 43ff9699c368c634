import Mcsos.Vfs.Opening

/-!
# Files do not share data

Every file has an extent of the file system's data, given to it when it was created, and extents do
not overlap (`FsInv`).  A descriptor refers to a node that exists (`Inv`).  From this the bounds of
all copies follow, although offsets may be anything: a read stops at the size of the file and a
write at its capacity.
-/

set_option autoImplicit false

namespace Mcsos
namespace Vfs

open Program Bytes

/-- Whether a node is a file. -/
def Ramfs.IsFile (fs : Ramfs) (i : ℕ) : Prop :=
  (fs.nodes i).used = true ∧ (fs.nodes i).type = .file

/-- The extents of files are disjoint parts of the data, and files stay inside. -/
structure FsInv (fs : Ramfs) : Prop where
  pos : 0 < fs.nodeCount
  count_le : fs.nodeCount ≤ 64
  used_le : fs.dataUsed ≤ 8192
  used_iff : ∀ i, (fs.nodes i).used = true ↔ i < fs.nodeCount
  extent : ∀ i, fs.IsFile i → (fs.nodes i).dataOffset + (fs.nodes i).dataCapacity ≤ fs.dataUsed
  disjoint : ∀ i j, i ≠ j → fs.IsFile i → fs.IsFile j →
    (fs.nodes i).dataOffset + (fs.nodes i).dataCapacity ≤ (fs.nodes j).dataOffset ∨
      (fs.nodes j).dataOffset + (fs.nodes j).dataCapacity ≤ (fs.nodes i).dataOffset
  size_le : ∀ i, fs.IsFile i → (fs.nodes i).size ≤ (fs.nodes i).dataCapacity

variable {fs fs' : Ramfs} {i : ℕ}

theorem ramfsInit_inv (names : ℕ → ℕ → UInt8) : FsInv (ramfsInit names) := by
  have hfile : ∀ i, ¬ (ramfsInit names).IsFile i := by
    rintro i ⟨hused, htype⟩
    have hi : i = 0 := by simpa [ramfsInit] using hused
    subst hi
    cases htype
  refine ⟨Nat.one_pos, Nat.le_add_left 1 63, Nat.zero_le _, fun i ↦ ?_,
    fun i hi ↦ absurd hi (hfile i),
    fun i _ _ hi ↦ absurd hi (hfile i), fun i hi ↦ absurd hi (hfile i)⟩
  simp [ramfsInit]

/-! ## Nodes -/

theorem findChild_lt {parent : ℕ} {name : List UInt8} (h : findChild fs parent name = .ok i) :
    i < fs.nodeCount := by
  rw [findChild] at h
  split at h
  · cases h
  · split at h
    · rename_i j hj
      obtain rfl := Except.ok.inj h
      exact List.mem_range.1 (List.mem_of_find?_eq_some hj)
    · cases h

theorem lookupLoop_lt {fuel cur : ℕ} {seg : List UInt8} (h : lookupLoop fs fuel cur seg = .ok i) :
    i < fs.nodeCount := by
  induction fuel generalizing cur seg with
  | zero => cases h
  | succ fuel ih =>
    cases seg with
    | nil => cases h
    | cons b seg =>
      rw [lookupLoop] at h
      · split at h
        · cases h
        · split at h
          · cases h
          · rename_i cur' hcur
            split at h
            · obtain rfl := Except.ok.inj h
              exact findChild_lt hcur
            · split at h
              · cases h
              · exact ih h
      · exact List.cons_ne_nil _ _

theorem ramfsLookup_lt (hfs : FsInv fs) {path : CString} (h : ramfsLookup fs path = .ok i) :
    i < fs.nodeCount := by
  rw [ramfsLookup] at h
  split at h
  · cases h
  · split at h
    · cases h
    · split at h
      · rw [← Except.ok.inj h]
        exact hfs.pos
      · exact lookupLoop_lt h

/-- What stays as it is when only sizes and data change. -/
structure SameShape (fs fs' : Ramfs) : Prop where
  nodeCount : fs'.nodeCount = fs.nodeCount
  dataUsed : fs'.dataUsed = fs.dataUsed
  used : ∀ i, (fs'.nodes i).used = (fs.nodes i).used
  id : ∀ i, (fs'.nodes i).id = (fs.nodes i).id
  parent : ∀ i, (fs'.nodes i).parent = (fs.nodes i).parent
  type : ∀ i, (fs'.nodes i).type = (fs.nodes i).type
  name : ∀ i, (fs'.nodes i).name = (fs.nodes i).name
  dataOffset : ∀ i, (fs'.nodes i).dataOffset = (fs.nodes i).dataOffset
  dataCapacity : ∀ i, (fs'.nodes i).dataCapacity = (fs.nodes i).dataCapacity

theorem SameShape.isFile_iff (h : SameShape fs fs') : fs'.IsFile i ↔ fs.IsFile i := by
  rw [Ramfs.IsFile, Ramfs.IsFile, h.used, h.type]

/-- A node whose size is changed. -/
theorem sameShape_of_size {f : Vnode → Vnode} {d : ℕ → UInt8}
    (hf : ∀ v, ∃ n, f v = { v with size := n }) :
    SameShape fs { fs.modifyNode i f with data := d } := by
  have hkeep : ∀ {α : Type} (g : Vnode → α), (∀ v n, g { v with size := n } = g v) → ∀ j,
      g ((fs.modifyNode i f).nodes j) = g (fs.nodes j) := by
    intro α g hg j
    show g (Function.update fs.nodes i _ j) = _
    by_cases hj : j = i
    · obtain ⟨n, hn⟩ := hf (fs.nodes i)
      rw [hj, Function.update_self, hn, hg]
    · rw [Function.update_of_ne hj]
  exact ⟨rfl, rfl, hkeep Vnode.used fun _ _ ↦ rfl, hkeep Vnode.id fun _ _ ↦ rfl,
    hkeep Vnode.parent fun _ _ ↦ rfl, hkeep Vnode.type fun _ _ ↦ rfl,
    hkeep Vnode.name fun _ _ ↦ rfl, hkeep Vnode.dataOffset fun _ _ ↦ rfl,
    hkeep Vnode.dataCapacity fun _ _ ↦ rfl⟩

theorem FsInv.sameShape (h : FsInv fs) (hs : SameShape fs fs')
    (hsize : ∀ i, fs.IsFile i → (fs'.nodes i).size ≤ (fs.nodes i).dataCapacity) : FsInv fs' := by
  refine ⟨hs.nodeCount ▸ h.pos, hs.nodeCount ▸ h.count_le, hs.dataUsed ▸ h.used_le, fun i ↦ ?_,
    fun i hi ↦ ?_, fun i j hij hi hj ↦ ?_, fun i hi ↦ ?_⟩
  · rw [hs.used, hs.nodeCount, h.used_iff]
  · rw [hs.dataOffset, hs.dataCapacity, hs.dataUsed]
    exact h.extent i (hs.isFile_iff.1 hi)
  · rw [hs.dataOffset, hs.dataCapacity, hs.dataOffset, hs.dataCapacity]
    exact h.disjoint i j hij (hs.isFile_iff.1 hi) (hs.isFile_iff.1 hj)
  · rw [hs.dataCapacity]
    exact hsize i (hs.isFile_iff.1 hi)

/-! ## Creating files -/

/-- The file system after a call that may have added a node. -/
structure Grown (fs fs' : Ramfs) : Prop where
  inv : FsInv fs'
  count_le : fs.nodeCount ≤ fs'.nodeCount
  nodes : ∀ i, i < fs.nodeCount → fs'.nodes i = fs.nodes i
  data : fs'.data = fs.data

theorem Grown.refl (h : FsInv fs) : Grown fs fs := ⟨h, le_rfl, fun _ _ ↦ rfl, rfl⟩

section AddNode

variable {parent capacity : ℕ} {name : List UInt8}

theorem nodes_addNode_of_ne (hi : i ≠ fs.nodeCount) :
    (fs.addNode parent .file name capacity).nodes i = fs.nodes i := Function.update_of_ne hi _ _

theorem nodes_addNode_self : (fs.addNode parent .file name capacity).nodes fs.nodeCount
    = newNode fs parent .file name capacity := Function.update_self _ _ _

/-- The extent of a new file is behind those of all others. -/
theorem FsInv.addNode (h : FsInv fs) (hlt : fs.nodeCount < 64)
    (hused : fs.dataUsed + capacity ≤ 8192) :
    Grown fs (fs.addNode parent .file name capacity) := by
  have hcases : ∀ i, (fs.addNode parent .file name capacity).IsFile i →
      i = fs.nodeCount ∨ i ≠ fs.nodeCount ∧ fs.IsFile i := by
    intro i hi
    by_cases hne : i = fs.nodeCount
    · exact .inl hne
    · rw [Ramfs.IsFile, nodes_addNode_of_ne hne] at hi
      exact .inr ⟨hne, hi⟩
  refine ⟨⟨Nat.succ_pos _, hlt, hused, fun i ↦ ?_, fun i hi ↦ ?_, fun i j hij hi hj ↦ ?_,
    fun i hi ↦ ?_⟩, Nat.le_succ _, fun i hi ↦ nodes_addNode_of_ne hi.ne, rfl⟩
  · by_cases hne : i = fs.nodeCount
    · rw [hne, nodes_addNode_self]
      exact iff_of_true rfl (Nat.lt_succ_self _)
    · rw [nodes_addNode_of_ne hne, h.used_iff]
      exact ⟨Nat.lt_succ_of_lt, fun hi ↦ lt_of_le_of_ne (Nat.lt_succ_iff.1 hi) hne⟩
  · rcases hcases i hi with rfl | ⟨hne, hi⟩
    · rw [nodes_addNode_self]
      exact le_rfl
    · rw [nodes_addNode_of_ne hne]
      exact (h.extent i hi).trans (Nat.le_add_right _ _)
  · rcases hcases i hi with rfl | ⟨hne, hi⟩ <;> rcases hcases j hj with rfl | ⟨hne', hj⟩
    · exact absurd rfl hij
    · rw [nodes_addNode_self, nodes_addNode_of_ne hne']
      exact .inr (h.extent j hj)
    · rw [nodes_addNode_self, nodes_addNode_of_ne hne]
      exact .inl (h.extent i hi)
    · rw [nodes_addNode_of_ne hne, nodes_addNode_of_ne hne']
      exact h.disjoint i j hij hi hj
  · rcases hcases i hi with rfl | ⟨hne, hi⟩
    · rw [nodes_addNode_self]
      exact Nat.zero_le _
    · rw [nodes_addNode_of_ne hne]
      exact h.size_le i hi

end AddNode

theorem ramfsCreateFile_spec (h : FsInv fs) (path : CString) :
    Ends (ramfsCreateFile path) fs (fun i fs' ↦ Grown fs fs' ∧ fs'.IsFile i)
      (fun _ fs' ↦ fs' = fs) := by
  refine (ramfsCreateFile_cases fs path).mono ?_ fun _ _ heq ↦ heq
  rintro i fs' (⟨hlookup, htype, rfl⟩ | ⟨parent, leaf, hc, rfl, rfl⟩)
  · exact ⟨.refl h, (h.used_iff _).2 (ramfsLookup_lt h hlookup), htype⟩
  · refine ⟨h.addNode hc.nodes hc.data, ?_⟩
    rw [Ramfs.IsFile, nodes_addNode_self]
    exact ⟨rfl, rfl⟩

theorem ramfsSeedFile_spec (h : FsInv fs) (path : CString) (data : List UInt8) :
    Ends (ramfsSeedFile path data) fs
      (fun _ fs' ↦ FsInv fs' ∧ fs.nodeCount ≤ fs'.nodeCount)
      (fun _ fs' ↦ FsInv fs' ∧ fs.nodeCount ≤ fs'.nodeCount) := by
  refine ends_bind ((ramfsCreateFile_spec h path).mono (fun _ _ h ↦ h) ?_) ?_
  · rintro - fs' rfl
    exact ⟨h, le_rfl⟩
  rintro i fs' ⟨hgrown, -⟩
  refine ends_get (ends_failIf (fun _ ↦ ⟨hgrown.inv, hgrown.count_le⟩) fun hlen ↦
    ends_of_ok rfl ⟨?_, hgrown.count_le⟩)
  refine hgrown.inv.sameShape (sameShape_of_size fun _ ↦ ⟨_, rfl⟩) fun j hj ↦ ?_
  show (Function.update fs'.nodes i _ j).size ≤ _
  by_cases hji : j = i
  · rw [hji, Function.update_self]
    exact not_lt.1 hlen
  · rw [Function.update_of_ne hji]
    exact hgrown.inv.size_le j hj

/-! ## Lookup -/

theorem SameShape.findChild_eq (h : SameShape fs fs') (parent : ℕ) (name : List UInt8) :
    findChild fs' parent name = findChild fs parent name := by
  rw [findChild, findChild, h.nodeCount]
  simp only [h.used, h.parent, h.name]

theorem SameShape.lookupLoop_eq (h : SameShape fs fs') (fuel cur : ℕ) (seg : List UInt8) :
    lookupLoop fs' fuel cur seg = lookupLoop fs fuel cur seg := by
  induction fuel generalizing cur seg with
  | zero => rfl
  | succ fuel ih =>
    cases seg with
    | nil => rfl
    | cons b seg =>
      rw [lookupLoop, lookupLoop]
      · simp only [h.findChild_eq, h.id, h.type, ih]
      · exact List.cons_ne_nil _ _
      · exact List.cons_ne_nil _ _

/-- Sizes and data do not matter for paths. -/
theorem SameShape.ramfsLookup_eq (h : SameShape fs fs') (path : CString) :
    ramfsLookup fs' path = ramfsLookup fs path := by
  rw [ramfsLookup, ramfsLookup, h.lookupLoop_eq]

/-! ## Descriptors -/

section Files

variable {T : Type}

/-- Files do not share data, and a descriptor in use refers to a node. -/
structure Inv (w : World T) : Prop where
  fs : FsInv w.fs
  files : ∀ t fd, fd < 16 → (w.tables t fd).used = true →
    ∃ n, (w.tables t fd).node = some n ∧ n < w.fs.nodeCount

variable {w w' : World T} {t : T}

/-- A call that changes one descriptor, and the file system. -/
theorem Inv.setFile (h : Inv w) (t : T) (fd : ℕ) (hfs : FsInv w'.fs)
    (hcount : w.fs.nodeCount ≤ w'.fs.nodeCount)
    (hother : ∀ t' fd', t' ≠ t ∨ fd' ≠ fd → w'.tables t' fd' = w.tables t' fd')
    (hfile : (w'.tables t fd).used = true →
      ∃ n, (w'.tables t fd).node = some n ∧ n < w'.fs.nodeCount) : Inv w' := by
  refine ⟨hfs, fun t' fd' hlt hused ↦ ?_⟩
  by_cases hsame : t' = t ∧ fd' = fd
  · rw [hsame.1, hsame.2] at hused ⊢
    exact hfile hused
  · rw [hother t' fd' (not_and_or.1 hsame)] at hused ⊢
    obtain ⟨n, hn, hn'⟩ := h.files t' fd' hlt hused
    exact ⟨n, hn, hn'.trans_le hcount⟩

theorem Inv.setFs (h : Inv w) (hfs : FsInv fs') (hcount : w.fs.nodeCount ≤ fs'.nodeCount) :
    Inv { w with fs := fs' } := by
  refine ⟨hfs, fun t fd hlt hused ↦ ?_⟩
  obtain ⟨n, hn, hn'⟩ := h.files t fd hlt hused
  exact ⟨n, hn, hn'.trans_le hcount⟩

theorem fdGet_eq_some {fd : ℤ} {k : ℕ} (h : fdGet w t fd = some k) :
    k = fd.toNat ∧ k < 16 ∧ (w.tables t k).used = true := by
  rw [fdGet] at h
  split at h
  · cases h
  · rename_i hbound
    split at h
    · cases h
    · rename_i hused
      obtain rfl := Option.some.inj h
      refine ⟨rfl, ?_, by simpa using hused⟩
      rw [not_or, show ((maxOpenFiles : ℕ) : ℤ) = 16 from rfl] at hbound
      omega

/-- A descriptor that passes the checks is open on a file. -/
theorem checkFile_spec (h : Inv w) (fd : ℤ) (can : UInt32 → Bool) :
    Ends (checkFile t fd can) w
      (fun r w' ↦ w' = w ∧ r.1 = fd.toNat ∧ r.1 < 16 ∧ (w.tables t r.1).used = true ∧
        (w.tables t r.1).node = some r.2 ∧ w.fs.IsFile r.2)
      (fun _ w' ↦ w' = w) := by
  refine ends_get (ends_expect (fun _ ↦ rfl) fun k hk ↦ ?_)
  obtain ⟨hfd, hlt, hused⟩ := fdGet_eq_some hk
  refine ends_failIf (fun _ ↦ rfl) fun _ ↦ ends_failIf (fun _ ↦ rfl) fun _ ↦
    ends_expect (fun _ ↦ rfl) fun n hn ↦ ends_failIf (fun _ ↦ rfl) fun htype ↦ ends_pure ?_
  obtain ⟨n', hn', hlt'⟩ := h.files t k hlt hused
  obtain rfl := Option.some.inj (hn.symm.trans hn')
  refine ⟨rfl, hfd, hlt, hused, hn, (h.fs.used_iff n).2 hlt', ?_⟩
  cases hv : (w.fs.nodes n).type with
  | dir => exact absurd hv htype
  | file => rfl

theorem Inv.truncate (h : Inv w) (i : ℕ) :
    Inv (w.modifyNode i fun n ↦ { n with size := 0 }) := by
  refine h.setFs (h.fs.sameShape (sameShape_of_size fun _ ↦ ⟨0, rfl⟩) fun j hj ↦ ?_) le_rfl
  show (Function.update w.fs.nodes i _ j).size ≤ _
  by_cases hji : j = i
  · rw [hji, Function.update_self]
    exact Nat.zero_le _
  · rw [Function.update_of_ne hji]
    exact h.fs.size_le j hj

variable [DecidableEq T]

/-- A change of one descriptor that keeps its node. -/
theorem Inv.modifyFile {fd : ℕ} {f : File → File} (h : Inv w)
    (hf : (f (w.tables t fd)).used = true →
      ∃ n, (f (w.tables t fd)).node = some n ∧ n < w.fs.nodeCount) : Inv (w.modifyFile t fd f) := by
  refine h.setFile t fd h.fs le_rfl (fun t' fd' hne ↦ tables_modifyFile_of_ne hne) fun hused ↦ ?_
  rw [tables_modifyFile_self] at hused ⊢
  exact hf hused

/-- What a call copies lies in the extent of the descriptor's own file. -/
def InOwnExtent (w : World T) (t : T) (fd : ℤ) (c : Copied) : Prop :=
  ∀ k < c.bytes.length, ∃ n, (w.tables t fd.toNat).node = some n ∧ w.fs.IsFile n ∧
    (w.fs.nodes n).dataOffset ≤ c.start + k ∧
    c.start + k < (w.fs.nodes n).dataOffset + (w.fs.nodes n).dataCapacity

theorem vfsRead_spec (h : Inv w) (fd : ℤ) (len : ℕ) :
    Ends (vfsRead t fd len) w (fun c w' ↦ Inv w' ∧ InOwnExtent w t fd c)
      (fun _ w' ↦ Inv w') := by
  refine ends_bind ((checkFile_spec h fd canRead).mono (fun _ _ h ↦ h) ?_) ?_
  · rintro - w' rfl
    exact h
  rintro ⟨k, n⟩ w' ⟨rfl, hk, hlt, hused, hnode, hfile⟩
  dsimp only at hk hlt hused hnode hfile ⊢
  refine ends_get ?_
  split
  · exact ends_pure ⟨h, fun k hk ↦ absurd hk (Nat.not_lt_zero k)⟩
  · rename_i hoffset
    refine ends_modify (ends_pure ⟨h.modifyFile fun hu ↦ h.files t k hlt hused, fun j hj ↦ ?_⟩)
    have hsize := h.fs.size_le n hfile
    rw [List.length_map, List.length_range] at hj
    refine ⟨n, hk ▸ hnode, hfile, ?_, ?_⟩
    · show _ ≤ _ + _ + j
      omega
    · show _ + _ + j < _
      omega

/-- What a successful write does to the file system: it changes the data and the size of the
descriptor's file `n`. -/
structure Written (w : World T) (n : ℕ) (buf : List UInt8) (c : Copied) (w' : World T) : Prop where
  isFile : w.fs.IsFile n
  bytes : c.bytes = buf
  le_start : (w.fs.nodes n).dataOffset ≤ c.start
  end_le : c.start + buf.length ≤ (w.fs.nodes n).dataOffset + (w.fs.nodes n).dataCapacity
  shape : SameShape w.fs w'.fs
  data : w'.fs.data = copyAt w.fs.data c.start (buf.getD · 0) buf.length
  nodes : ∀ j, j ≠ n → w'.fs.nodes j = w.fs.nodes j

theorem tables_storeAt_of_ne {t' : T} {fd fd' n start : ℕ} {buf : List UInt8}
    (h : t' ≠ t ∨ fd' ≠ fd) : (storeAt t fd n start buf w).tables t' fd' = w.tables t' fd' := by
  rw [storeAt, tables_modifyNode, tables_modifyFile_of_ne h]

theorem node_storeAt {fd n start : ℕ} {buf : List UInt8} :
    ((storeAt t fd n start buf w).tables t fd).node = (w.tables t fd).node := by
  rw [storeAt, tables_modifyNode, tables_modifyFile_self]

theorem writeAt_spec {k n : ℕ} (h : Inv w) (hlt : k < 16) (hused : (w.tables t k).used = true)
    (hfile : w.fs.IsFile n) (buf : List UInt8) :
    Ends (writeAt t k n buf) w (fun c w' ↦ Inv w' ∧ Written w n buf c w')
      (fun _ w' ↦ w' = w) := by
  refine ends_get (ends_failIf (fun _ ↦ rfl) fun hcap ↦ ends_failIf (fun _ ↦ rfl) fun hlen ↦
    ends_modify (ends_pure ?_))
  have hn : min buf.length ((w.fs.nodes n).dataCapacity - (w.tables t k).offset) = buf.length :=
    le_antisymm (min_le_left _ _) (not_lt.1 hlen)
  have hend : (w.tables t k).offset + buf.length ≤ (w.fs.nodes n).dataCapacity := by omega
  rw [hn, List.take_length]
  generalize hstart : (w.fs.nodes n).dataOffset + (w.tables t k).offset = start
  generalize hw' : storeAt t k n start buf w = w'
  have hdata : w'.fs.data = copyAt w.fs.data start (buf.getD · 0) buf.length := by
    subst hw'
    rfl
  have hshape : SameShape w.fs w'.fs := by
    subst hw'
    exact sameShape_of_size fun _ ↦ ⟨_, rfl⟩
  have hnodes : ∀ j, j ≠ n → w'.fs.nodes j = w.fs.nodes j := by
    subst hw'
    exact fun j hj ↦ Function.update_of_ne hj _ _
  have hsize : (w'.fs.nodes n).size ≤ (w.fs.nodes n).dataCapacity := by
    subst hw'
    show (Function.update w.fs.nodes n _ n).size ≤ _
    rw [Function.update_self]
    dsimp only
    rw [tables_modifyFile_self]
    have := h.fs.size_le n hfile
    split
    · exact hend
    · exact this
  have hle : (w.fs.nodes n).dataOffset ≤ start := by omega
  have hle' : start + buf.length ≤ (w.fs.nodes n).dataOffset + (w.fs.nodes n).dataCapacity := by
    omega
  refine ⟨?_, hfile, rfl, hle, hle', hshape, hdata, hnodes⟩
  have hfs' : FsInv w'.fs := h.fs.sameShape hshape fun j hj ↦ by
    by_cases hjn : j = n
    · rw [hjn]
      exact hsize
    · rw [hnodes j hjn]
      exact h.fs.size_le j hj
  refine h.setFile t k hfs' hshape.nodeCount.ge (fun t' fd' hne ↦ ?_) fun _ ↦ ?_
  · subst hw'
    exact tables_storeAt_of_ne hne
  · subst hw'
    obtain ⟨n', hn', hlt'⟩ := h.files t k hlt hused
    exact ⟨n', node_storeAt.trans hn', hlt'⟩

theorem vfsWrite_spec (h : Inv w) (fd : ℤ) (buf : List UInt8) :
    Ends (vfsWrite t fd buf) w
      (fun c w' ↦ Inv w' ∧ ∃ n, (w.tables t fd.toNat).node = some n ∧ Written w n buf c w')
      (fun _ w' ↦ Inv w' ∧ w'.fs = w.fs) := by
  refine ends_bind ((checkFile_spec h fd canWrite).mono (fun _ _ h ↦ h) ?_) ?_
  · rintro - w' rfl
    exact ⟨h, rfl⟩
  rintro ⟨k, n⟩ w' ⟨rfl, hk, hlt, hused, hnode, hfile⟩
  dsimp only at hk hlt hused hnode hfile ⊢
  refine ends_modify ?_
  -- with or without `MCS_O_APPEND`, only the offset has changed
  generalize hw1 : (if (w'.tables t k).flags &&& oAppend ≠ 0 then
      w'.modifyFile t k fun f ↦ { f with offset := (w'.fs.nodes n).size } else w') = w1
  have hw1' : Inv w1 ∧ w1.fs = w'.fs ∧ (w1.tables t k).used = true := by
    subst hw1
    split
    · refine ⟨h.modifyFile fun _ ↦ h.files t k hlt hused, rfl, ?_⟩
      rw [tables_modifyFile_self]
      exact hused
    · exact ⟨h, rfl, hused⟩
  obtain ⟨h1, hfs, hused1⟩ := hw1'
  rw [← hfs] at hfile
  refine (writeAt_spec h1 hlt hused1 hfile buf).mono (fun c w2 hw2 ↦ ⟨hw2.1, n, hk ▸ hnode, ?_⟩) ?_
  · obtain ⟨-, hw2⟩ := hw2
    rw [hfs] at hfile
    exact ⟨hfile, hw2.bytes, hfs ▸ hw2.le_start, hfs ▸ hw2.end_le, hfs ▸ hw2.shape,
      hfs ▸ hw2.data, hfs ▸ hw2.nodes⟩
  · rintro - w2 rfl
    exact ⟨h1, hfs⟩

theorem vfsLseek_spec (h : Inv w) (fd offset whence : ℤ) :
    Ends (vfsLseek t fd offset whence) w (fun _ w' ↦ Inv w') (fun _ w' ↦ Inv w') := by
  refine ends_get (ends_expect (fun _ ↦ h) fun k hk ↦ ?_)
  obtain ⟨-, hlt, hused⟩ := fdGet_eq_some hk
  refine ends_expect (fun _ ↦ h) fun n _ ↦ ends_failIf (fun _ ↦ h) fun _ ↦
    ends_expect (fun _ ↦ h) fun base _ ↦ ends_failIf (fun _ ↦ h) fun _ ↦
      ends_modify (ends_pure ?_)
  exact h.modifyFile fun _ ↦ h.files t k hlt hused

theorem vfsClose_spec (h : Inv w) (fd : ℤ) :
    Ends (vfsClose t fd) w (fun _ w' ↦ Inv w') (fun _ w' ↦ Inv w') := by
  refine ends_get (ends_expect (fun _ ↦ h) fun k _ ↦ ends_of_ok rfl ?_)
  exact h.modifyFile fun hused ↦ nomatch hused

theorem vfsDup_spec (h : Inv w) (fd : ℤ) :
    Ends (vfsDup t fd) w (fun _ w' ↦ Inv w') (fun _ w' ↦ Inv w') := by
  refine ends_get (ends_expect (fun _ ↦ h) fun k hk ↦ ?_)
  obtain ⟨-, hlt, hused⟩ := fdGet_eq_some hk
  refine ends_bind ((fdAlloc_cases w t).mono (fun _ _ h ↦ h) ?_) ?_
  · rintro - w' ⟨rfl, -⟩
    exact h
  rintro newfd w' ⟨hnew, hfree, rfl⟩
  refine ends_modify (ends_pure (h.setFile t newfd h.fs le_rfl (fun t' fd' hne ↦ ?_) fun _ ↦ ?_))
  · rw [tables_modifyFile_of_ne hne, tables_modifyFile_of_ne hne]
  · have hne : k ≠ newfd := by
      rintro rfl
      rw [hused] at hfree
      cases hfree
    rw [tables_modifyFile_self]
    dsimp only
    rw [tables_modifyFile_of_ne (.inr hne)]
    exact h.files t k hlt hused

omit [DecidableEq T] in
theorem openNode_spec (h : Inv w) (path : CString) (flags : UInt32) :
    Ends (openNode path flags) w
      (fun i w' ↦ Inv w' ∧ i < w'.fs.nodeCount) (fun _ w' ↦ w' = w) := by
  refine (openNode_cases w path flags).mono ?_ fun _ _ heq ↦ heq
  rintro i w' (⟨hlookup, rfl⟩ | ⟨-, parent, leaf, hc, rfl, rfl⟩)
  · exact ⟨h, ramfsLookup_lt h.fs hlookup⟩
  · have hgrown : Grown w.fs (w.fs.addNode (w.fs.nodes parent).id .file leaf 256) :=
      h.fs.addNode hc.nodes hc.data
    exact ⟨h.setFs hgrown.inv hgrown.count_le, Nat.lt_succ_self _⟩

theorem vfsOpen_spec (h : Inv w) (path : CString) (flags : UInt32) :
    Ends (vfsOpen t path flags) w (fun _ w' ↦ Inv w') (fun _ w' ↦ Inv w') := by
  refine (vfsOpen_cases w t path flags).mono ?_ ?_
  · rintro fd w' ⟨node, w1, hnode, ho⟩
    obtain ⟨h1, hlt⟩ := (openNode_spec h path _).of_eq_ok hnode
    have hfs : FsInv w'.fs ∧ w1.fs.nodeCount ≤ w'.fs.nodeCount := by
      rw [ho.fs]
      split
      · exact ⟨(h1.truncate node).fs, le_rfl⟩
      · exact ⟨h1.fs, le_rfl⟩
    refine h1.setFile t fd hfs.1 hfs.2 ho.other fun _ ↦ ?_
    rw [ho.file]
    exact ⟨node, rfl, hlt.trans_le hfs.2⟩
  · rintro e w' (hnode | ⟨node, w1, hnode, hn⟩)
    · rw [(openNode_cases w path _).of_eq_error hnode]
      exact h
    · obtain ⟨h1, -⟩ := (openNode_spec h path _).of_eq_ok hnode
      refine ⟨hn.fs ▸ h1.fs, fun t' fd' hlt hused ↦ ?_⟩
      rcases hn.tables t' fd' with heq | ⟨hfree, -⟩
      · rw [heq] at hused ⊢
        rw [hn.fs]
        exact h1.files t' fd' hlt hused
      · rw [hfree] at hused
        cases hused

theorem Inv.fdTableInit (h : Inv w) (t : T) : Inv (fdTableInit t w) := by
  refine ⟨h.fs, fun t' fd hlt hused ↦ ?_⟩
  by_cases ht : t' = t
  · have hclosed : (Vfs.fdTableInit t w).tables t' fd = closedFile := by
      show Function.update w.tables t _ t' fd = _
      rw [ht, Function.update_self]
      exact if_pos hlt
    rw [hclosed] at hused
    cases hused
  · have hsame : (Vfs.fdTableInit t w).tables t' fd = w.tables t' fd := by
      show Function.update w.tables t _ t' fd = _
      rw [Function.update_of_ne ht]
    rw [hsame] at hused ⊢
    exact h.files t' fd hlt hused

/-! ## Runs -/

/-- The calls of a run, for any tables and arguments. -/
inductive Call {T : Type} [DecidableEq T] : ∀ {α : Type}, EStateM Err (World T) α → Prop
  | seedFile (path : CString) (data : List UInt8) : Call (onFs (ramfsSeedFile path data))
  | createFile (path : CString) : Call (onFs (ramfsCreateFile path))
  | fdTableInit (t : T) : Call (modify (fdTableInit t))
  | open (t : T) (path : CString) (flags : UInt32) : Call (vfsOpen t path flags)
  | read (t : T) (fd : ℤ) (len : ℕ) : Call (vfsRead t fd len)
  | write (t : T) (fd : ℤ) (buf : List UInt8) : Call (vfsWrite t fd buf)
  | lseek (t : T) (fd offset whence : ℤ) : Call (vfsLseek t fd offset whence)
  | dup (t : T) (fd : ℤ) : Call (vfsDup t fd)
  | close (t : T) (fd : ℤ) : Call (vfsClose t fd)

/-- The states that calls lead to after `mcs_ramfs_init` and `mcs_fd_table_init`. -/
inductive Reaches : World T → Prop
  | init (names : ℕ → ℕ → UInt8) {tables : T → ℕ → File}
      (h : ∀ t fd, fd < maxOpenFiles → tables t fd = closedFile) :
      Reaches ⟨ramfsInit names, tables⟩
  | call {α : Type} {w : World T} {x : EStateM Err (World T) α} (hw : Reaches w) (hx : Call x) :
      Reaches (after x w)

theorem Inv.after_call {α : Type} {x : EStateM Err (World T) α} (h : Inv w) (hx : Call x) :
    Inv (after x w) := by
  cases hx with
  | seedFile path data =>
    refine Ends.after (ends_zoom ((ramfsSeedFile_spec h.fs path data).mono ?_ ?_))
    · exact fun _ fs' hfs' ↦ h.setFs hfs'.1 hfs'.2
    · exact fun _ fs' hfs' ↦ h.setFs hfs'.1 hfs'.2
  | createFile path =>
    refine Ends.after (ends_zoom ((ramfsCreateFile_spec h.fs path).mono ?_ ?_))
    · exact fun _ fs' hfs' ↦ h.setFs hfs'.1.inv hfs'.1.count_le
    · rintro - fs' rfl
      exact h
  | fdTableInit t => exact h.fdTableInit t
  | «open» t path flags => exact (vfsOpen_spec h path flags).after
  | read t fd len => exact ((vfsRead_spec h fd len).mono (fun _ _ h ↦ h.1) fun _ _ h ↦ h).after
  | write t fd buf =>
    exact ((vfsWrite_spec h fd buf).mono (fun _ _ h ↦ h.1) fun _ _ h ↦ h.1).after
  | lseek t fd offset whence => exact (vfsLseek_spec h fd offset whence).after
  | dup t fd => exact (vfsDup_spec h fd).after
  | close t fd => exact (vfsClose_spec h fd).after

theorem Reaches.inv (h : Reaches w) : Inv w := by
  induction h with
  | init names h =>
    refine ⟨ramfsInit_inv names, fun t fd hlt hused ↦ ?_⟩
    dsimp only at hused
    rw [h t fd hlt] at hused
    cases hused
  | call _ hx ih => exact ih.after_call hx

/-- A file whose size, contents and paths are the same as before. -/
structure LeftAlone (fs fs' : Ramfs) (j : ℕ) : Prop where
  size : (fs'.nodes j).size = (fs.nodes j).size
  contents : ∀ k < (fs.nodes j).dataCapacity,
    fs'.data ((fs.nodes j).dataOffset + k) = fs.data ((fs.nodes j).dataOffset + k)
  lookup : ∀ path, ramfsLookup fs' path = ramfsLookup fs path

omit [DecidableEq T] in
/-- A write leaves all other files as they are. -/
theorem Written.leftAlone {n j : ℕ} {buf : List UInt8} {c : Copied} (h : Inv w)
    (hw : Written w n buf c w') (hj : j ≠ n) (hfile : w.fs.IsFile j) :
    LeftAlone w.fs w'.fs j := by
  refine ⟨by rw [hw.nodes j hj], fun k hk ↦ ?_, hw.shape.ramfsLookup_eq⟩
  have hdisj := h.fs.disjoint j n hj hfile hw.isFile
  have h1 := hw.le_start
  have h2 := hw.end_le
  rw [hw.data, copyAt_of_not_mem]
  omega

end Files

/-- The start, for a process with one table. -/
theorem reaches_first :
    Reaches (⟨ramfsInit fun _ _ ↦ 0, fun _ _ ↦ closedFile⟩ : World Unit) := .init _ fun _ _ _ ↦ rfl

end Vfs
end Mcsos
