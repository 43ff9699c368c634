import Mcsos.Vfs.Transfer

/-!
# What a call may touch

Every call is described by the file that it may have changed and by the descriptors that it may
have set (`Effect`).  Creating a file touches none of those that exist; writing, seeding and
truncating touch one; the other calls touch no file at all.  A descriptor in use always has its file
system, and its offset, if it is on a file, is that of a signed number (`Settled`).
-/

set_option autoImplicit false

namespace Mcsos
namespace Vfs

open Program Bytes

variable {fs fs' : Ramfs} {i j : ℕ} {n m : Option ℕ}

/-! ## Touching files -/

/-- No file that there was before has changed, apart from `n`, which may have another size and other
data. -/
structure Touches (n : Option ℕ) (fs fs' : Ramfs) : Prop where
  count_le : fs.nodeCount ≤ fs'.nodeCount
  resized : ∀ i < fs.nodeCount, ∃ size, fs'.nodes i = { fs.nodes i with size := size }
  node : ∀ i < fs.nodeCount, n ≠ some i → fs'.nodes i = fs.nodes i
  data : ∀ i < fs.nodeCount, n ≠ some i → fs.IsFile i → ∀ k < (fs.nodes i).dataCapacity,
    fs'.data ((fs.nodes i).dataOffset + k) = fs.data ((fs.nodes i).dataOffset + k)

theorem Touches.refl (n : Option ℕ) (fs : Ramfs) : Touches n fs fs :=
  ⟨le_rfl, fun _ _ ↦ ⟨_, rfl⟩, fun _ _ _ ↦ rfl, fun _ _ _ _ _ _ ↦ rfl⟩

theorem Touches.isFile_iff (h : Touches n fs fs') (hi : i < fs.nodeCount) :
    fs'.IsFile i ↔ fs.IsFile i := by
  obtain ⟨size, hsize⟩ := h.resized i hi
  rw [Ramfs.IsFile, Ramfs.IsFile, hsize]

/-- Two steps touch what one of them touches. -/
theorem Touches.trans {fs'' : Ramfs} {n' : Option ℕ} (h : Touches n fs fs')
    (h' : Touches m fs' fs'')
    (hn : ∀ i < fs.nodeCount, n' ≠ some i → n ≠ some i ∧ m ≠ some i) : Touches n' fs fs'' where
  count_le := h.count_le.trans h'.count_le
  resized i hi := by
    obtain ⟨size, hsize⟩ := h.resized i hi
    obtain ⟨size', hsize'⟩ := h'.resized i (hi.trans_le h.count_le)
    exact ⟨size', by rw [hsize', hsize]⟩
  node i hi hne := by
    obtain ⟨h1, h2⟩ := hn i hi hne
    rw [h'.node i (hi.trans_le h.count_le) h2, h.node i hi h1]
  data i hi hne hfile k hk := by
    obtain ⟨h1, h2⟩ := hn i hi hne
    have hnode := h.node i hi h1
    have hfile' := (h.isFile_iff hi).2 hfile
    have hdata := h'.data i (hi.trans_le h.count_le) h2 hfile' k (by rw [hnode]; exact hk)
    rw [hnode] at hdata
    rw [hdata, h.data i hi h1 hfile k hk]

theorem Grown.touches (h : Grown fs fs') (n : Option ℕ) : Touches n fs fs' where
  count_le := h.count_le
  resized i hi := ⟨(fs.nodes i).size, h.nodes i hi⟩
  node i hi _ := h.nodes i hi
  data i _ _ _ k _ := by rw [h.data]

/-- New contents for the file `i`. -/
theorem FsInv.touches (h : FsInv fs) (hi : fs.IsFile i) (hcount : fs.nodeCount ≤ fs'.nodeCount)
    (hnode : ∃ size, fs'.nodes i = { fs.nodes i with size := size })
    (hnodes : ∀ j, j ≠ i → fs'.nodes j = fs.nodes j) {start len : ℕ} {g : ℕ → UInt8}
    (hdata : fs'.data = copyAt fs.data start g len) (hstart : (fs.nodes i).dataOffset ≤ start)
    (hend : start + len ≤ (fs.nodes i).dataOffset + (fs.nodes i).dataCapacity) :
    Touches (some i) fs fs' := by
  refine ⟨hcount, fun j _ ↦ ?_, fun j _ hj ↦ ?_, fun j _ hj hfile k hk ↦ ?_⟩
  · by_cases hji : j = i
    · rw [hji]
      exact hnode
    · exact ⟨(fs.nodes j).size, hnodes j hji⟩
  · exact hnodes j fun heq ↦ hj (by rw [heq])
  · have hdisj := h.disjoint j i (fun heq ↦ hj (by rw [heq])) hfile hi
    rw [hdata, copyAt_of_not_mem (by omega)]

/-- A file that is not touched keeps its bytes. -/
theorem Touches.contents_eq (h : Touches n fs fs') (hI : FsInv fs)
    (hi : fs.IsFile i) (hne : n ≠ some i) : contents fs' i = contents fs i := by
  have hlt := (hI.used_iff i).1 hi.1
  have hsize := hI.size_le i hi
  rw [contents, contents, h.node i hlt hne]
  exact ByteFile.window_congr fun k hk ↦ h.data i hlt hne hi k (by omega)

theorem ramfsSeedFile_touches (h : FsInv fs) (path : CString) (data : List UInt8) :
    Ends (ramfsSeedFile path data) fs
      (fun _ fs' ↦ Touches (ramfsLookup fs path).toOption fs fs')
      (fun _ fs' ↦ Touches (ramfsLookup fs path).toOption fs fs') := by
  refine ends_bind (((ramfsCreateFile_spec h path).and (ramfsCreateFile_cases fs path)).mono
    (fun _ _ h ↦ h) fun e fs' h ↦ ?_) ?_
  · rw [h.1]
    exact .refl _ fs
  rintro i fs1 ⟨⟨hgrown, hfile⟩, hcases⟩
  refine ends_get (ends_failIf (fun _ ↦ hgrown.touches _) fun hlen ↦ ends_of_ok rfl ?_)
  refine (hgrown.touches none).trans (hgrown.inv.touches (g := (data.getD · 0)) hfile le_rfl
    ⟨_, Function.update_self _ _ _⟩ (fun j hj ↦ Function.update_of_ne hj _ _) rfl le_rfl
    (Nat.add_le_add_left (not_lt.1 hlen) _)) fun j hj hne ↦ ⟨by simp, ?_⟩
  -- the file is the one at the path, or it is new
  rintro ⟨rfl⟩
  rcases hcases with ⟨hlookup, -⟩ | ⟨_, _, -, hnew, -⟩
  · rw [hlookup] at hne
    exact hne rfl
  · exact absurd hj (by rw [hnew]; exact lt_irrefl _)

/-! ## Descriptors -/

section Files

variable {T : Type}

/-- A descriptor in use has its file system, and its offset is that of a signed number. -/
def FileOk (fs : Ramfs) (f : File) : Prop :=
  f.used = true → f.fs = true ∧ ∀ n, f.node = some n → fs.IsFile n → f.offset < 2 ^ 63

/-- The invariant of runs, with what holds of every descriptor. -/
structure Settled (w : World T) : Prop where
  inv : Inv w
  files : ∀ t fd, fd < 16 → FileOk w.fs (w.tables t fd)

/-- What a call does: it may touch the file `n`, and the descriptors that it sets are sound. -/
structure Effect (n : Option ℕ) (w w' : World T) : Prop where
  touches : Touches n w.fs w'.fs
  files : ∀ t fd, fd < 16 → w'.tables t fd = w.tables t fd ∨ FileOk w'.fs (w'.tables t fd)

variable {w w' : World T} {t : T} {fd : ℕ}

theorem Effect.refl (n : Option ℕ) (w : World T) : Effect n w w :=
  ⟨.refl n w.fs, fun _ _ _ ↦ .inl rfl⟩

theorem Settled.step (h : Settled w) (hinv : Inv w') (he : Effect n w w') : Settled w' := by
  refine ⟨hinv, fun t fd hlt ↦ ?_⟩
  rcases he.files t fd hlt with heq | hok
  · rw [heq]
    intro hused
    obtain ⟨hset, hoffset⟩ := h.files t fd hlt hused
    obtain ⟨i, hi, hcount⟩ := h.inv.files t fd hlt hused
    refine ⟨hset, fun k hk hfile ↦ hoffset k hk ?_⟩
    obtain rfl := Option.some.inj (hi.symm.trans hk)
    exact (he.touches.isFile_iff hcount).1 hfile
  · exact hok

/-- A call that sets one descriptor. -/
theorem Effect.of_setFile (t : T) (fd : ℕ) (ht : Touches n w.fs w'.fs)
    (hother : ∀ t' fd', t' ≠ t ∨ fd' ≠ fd → w'.tables t' fd' = w.tables t' fd')
    (hfile : FileOk w'.fs (w'.tables t fd)) : Effect n w w' := by
  refine ⟨ht, fun t' fd' _ ↦ ?_⟩
  by_cases hsame : t' = t ∧ fd' = fd
  · rw [hsame.1, hsame.2]
    exact .inr hfile
  · exact .inl (hother t' fd' (not_and_or.1 hsame))

/-- Sizes of files are small. -/
theorem FsInv.size_le_dataBytes (h : FsInv fs) (hi : fs.IsFile i) : (fs.nodes i).size ≤ 8192 := by
  have h1 := h.size_le i hi
  have h2 := h.extent i hi
  have h3 := h.used_le
  omega

variable [DecidableEq T]

theorem Effect.of_modifyFile {f : File → File} (hfile : FileOk w.fs (f (w.tables t fd))) :
    Effect n w (w.modifyFile t fd f) := by
  refine .of_setFile t fd (.refl n w.fs)
    (fun t' fd' hne ↦ tables_modifyFile_of_ne hne) ?_
  rw [tables_modifyFile_self]
  exact hfile

/-- Another offset. -/
theorem FileOk.setOffset {f : File} (h : FileOk fs f) {offset : ℕ} (hlt : offset < 2 ^ 63) :
    FileOk fs { f with offset := offset } := fun hused ↦ ⟨(h hused).1, fun _ _ _ ↦ hlt⟩

theorem fileOk_closed {f : File} (h : f.used = false) : FileOk fs f := fun hused ↦ by
  rw [h] at hused
  cases hused

theorem vfsRead_effect (h : Settled w) (fd : ℤ) (len : ℕ) :
    Ends (vfsRead t fd len) w (fun _ w' ↦ Effect n w w') (fun _ w' ↦ Effect n w w') := by
  refine ends_bind ((checkFile_spec h.inv fd canRead).mono (fun _ _ h ↦ h) ?_) ?_
  · rintro - w' rfl
    exact .refl n w'
  rintro ⟨k, i⟩ w' ⟨rfl, -, hlt, -, -, hfile⟩
  dsimp only at hlt hfile ⊢
  refine ends_get ?_
  split
  · exact ends_pure (.refl n w')
  · rename_i hoffset
    refine ends_modify (ends_pure (.of_modifyFile ((h.files t k hlt).setOffset ?_)))
    have := h.inv.fs.size_le_dataBytes hfile
    omega

theorem vfsLseek_effect (h : Settled w) (fd offset whence : ℤ) :
    Ends (vfsLseek t fd offset whence) w (fun _ w' ↦ Effect n w w')
      (fun _ w' ↦ Effect n w w') := by
  refine ends_get (ends_expect (fun _ ↦ .refl n w) fun k hk ↦ ?_)
  obtain ⟨-, hlt, -⟩ := fdGet_eq_some hk
  refine ends_expect (fun _ ↦ .refl n w) fun i _ ↦ ends_failIf (fun _ ↦ .refl n w) fun _ ↦
    ends_expect (fun _ ↦ .refl n w) fun base _ ↦ ends_failIf (fun _ ↦ .refl n w) fun _ ↦
      ends_modify (ends_pure (.of_modifyFile ((h.files t k hlt).setOffset ?_)))
  have := Int.bmod_lt (x := base + offset) (m := 2 ^ 64) (by decide)
  omega

theorem vfsClose_effect (fd : ℤ) :
    Ends (vfsClose t fd) w (fun _ w' ↦ Effect n w w') (fun _ w' ↦ Effect n w w') :=
  ends_get (ends_expect (fun _ ↦ .refl n w) fun _ _ ↦
    ends_of_ok rfl (.of_modifyFile (fileOk_closed rfl)))

theorem vfsDup_effect (h : Settled w) (fd : ℤ) :
    Ends (vfsDup t fd) w (fun _ w' ↦ Effect n w w') (fun _ w' ↦ Effect n w w') := by
  refine ends_get (ends_expect (fun _ ↦ .refl n w) fun k hk ↦ ?_)
  obtain ⟨-, hlt, hused⟩ := fdGet_eq_some hk
  refine ends_bind ((fdAlloc_cases w t).mono (fun _ _ h ↦ h) ?_) ?_
  · rintro - w' ⟨rfl, -⟩
    exact .refl n w'
  rintro newfd w' ⟨-, hfree, rfl⟩
  refine ends_modify (ends_pure (.of_setFile t newfd (.refl n w.fs)
    (fun t' fd' hne ↦ ?_) ?_))
  · rw [tables_modifyFile_of_ne hne, tables_modifyFile_of_ne hne]
  · have hne : k ≠ newfd := by
      rintro rfl
      rw [hused] at hfree
      cases hfree
    rw [tables_modifyFile_self, tables_modifyFile_of_ne (.inr hne)]
    exact fun _ ↦ h.files t k hlt hused

theorem written_touches (hI : Inv w) {fd : ℤ} {i : ℕ} {buf : List UInt8} (h : OpenOn w t fd i)
    (hfits : writeStart w t fd.toNat i + buf.length ≤ (w.fs.nodes i).dataCapacity) :
    Touches (some i) w.fs (w.written t fd.toNat i buf).fs :=
  hI.fs.touches h.isFile le_rfl ⟨_, nodes_written_self w t _ i buf⟩
    (fun _ hj ↦ nodes_written_of_ne hj) (data_written w t _ i buf) (Nat.le_add_right _ _) (by omega)

omit [DecidableEq T] in
theorem writeStart_lt (h : Settled w) {fd : ℤ} {i : ℕ} (ho : OpenOn w t fd i) :
    writeStart w t fd.toNat i < 2 ^ 63 := by
  rw [writeStart]
  split
  · have := h.inv.fs.size_le_dataBytes ho.isFile
    omega
  · exact (h.files t _ ho.toNat_lt ho.used).2 i ho.node ho.isFile

theorem vfsWrite_effect (h : Settled w) (fd : ℤ) (buf : List UInt8) :
    Ends (vfsWrite t fd buf) w (fun _ w' ↦ Effect (w.tables t fd.toNat).node w w')
      (fun _ w' ↦ Effect (w.tables t fd.toNat).node w w') := by
  refine (vfsWrite_ends h.inv fd buf).mono ?_ ?_
  · rintro c w' ⟨i, ho, -, hfits, -, rfl⟩
    rw [ho.node]
    refine .of_setFile t fd.toNat (written_touches h.inv ho hfits)
      (fun t' fd' hne ↦ tables_written_of_ne hne) ?_
    rw [tables_written_self]
    intro hused
    refine ⟨(h.files t _ ho.toNat_lt hused).1, fun _ _ _ ↦ ?_⟩
    have h1 := h.inv.fs.extent i ho.isFile
    have h2 := h.inv.fs.used_le
    show writeStart w t fd.toNat i + buf.length < 2 ^ 63
    omega
  · rintro - w' (rfl | ⟨i, ho, rfl⟩)
    · exact .refl _ w'
    · exact .of_modifyFile ((h.files t _ ho.toNat_lt).setOffset (writeStart_lt h ho))

/-! ## Opening -/

/-- The file that `mcs_vfs_open` may touch: the one at the path, when it is truncated. -/
def truncates (fs : Ramfs) (path : CString) (flags : UInt32) : Option ℕ :=
  if flags &&& oTrunc ≠ 0 then (ramfsLookup fs path).toOption else none

omit [DecidableEq T] in
/-- Whether a node was there before is a matter of its number. -/
theorem openNode_ends (h : Inv w) (path : CString) (flags : UInt32) :
    Ends (openNode path flags) w
      (fun i w' ↦ Inv w' ∧ w'.tables = w.tables ∧ Touches none w.fs w'.fs ∧
        (ramfsLookup w.fs path = .ok i ∨ w.fs.nodeCount ≤ i))
      (fun _ w' ↦ w' = w) := by
  refine ((openNode_spec h path flags).and (openNode_cases w path flags)).mono ?_ fun _ _ h ↦ h.1
  rintro i w' ⟨⟨hinv, -⟩, ⟨hlookup, rfl⟩ | ⟨-, parent, leaf, hc, rfl, rfl⟩⟩
  · exact ⟨h, rfl, .refl none _, .inl hlookup⟩
  · exact ⟨hinv, rfl, (h.fs.addNode hc.nodes hc.data).touches none, .inr le_rfl⟩

theorem Touches.mono (h : Touches none fs fs') (n : Option ℕ) : Touches n fs fs' :=
  h.trans (.refl none fs') fun _ _ _ ↦ ⟨by simp, by simp⟩

/-- Truncation touches the file, or nothing that there was before. -/
theorem Touches.truncate (h : Touches none fs fs') {path : CString}
    (hpath : ramfsLookup fs path = .ok i ∨ fs.nodeCount ≤ i) :
    Touches (ramfsLookup fs path).toOption fs
      (fs'.modifyNode i fun v ↦ { v with size := 0 }) := by
  have hstep : Touches (some i) fs' (fs'.modifyNode i fun v ↦ { v with size := 0 }) := by
    refine ⟨le_rfl, fun j _ ↦ ?_, fun j _ hj ↦ ?_, fun _ _ _ _ _ _ ↦ rfl⟩
    swap
    · exact Function.update_of_ne (fun heq ↦ hj (by rw [heq])) _ _
    by_cases hji : j = i
    · rw [hji]
      exact ⟨0, Function.update_self _ _ _⟩
    · exact ⟨(fs'.nodes j).size, Function.update_of_ne hji _ _⟩
  refine h.trans hstep fun j hj hne ↦ ⟨by simp, ?_⟩
  rintro ⟨rfl⟩
  rcases hpath with hpath | hpath
  · rw [hpath] at hne
    exact hne rfl
  · exact absurd hj (not_lt.2 hpath)

theorem vfsOpen_effect (h : Settled w) (path : CString) (flags : UInt32) :
    Ends (vfsOpen t path flags) w (fun _ w' ↦ Effect (truncates w.fs path flags) w w')
      (fun _ w' ↦ Effect (truncates w.fs path flags) w w') := by
  rw [truncates, ← openFlags_and (by decide)]
  refine (vfsOpen_cases w t path flags).mono ?_ ?_
  · rintro fd w' ⟨node, w1, hnode, ho⟩
    obtain ⟨hinv, htables, ht, hpath⟩ := (openNode_ends h.inv path _).of_eq_ok hnode
    refine .of_setFile t fd ?_ (fun t' fd' hne ↦ ?_) ?_
    · rw [ho.fs]
      split
      · exact ht.truncate hpath
      · exact ht
    · rw [ho.other t' fd' hne, htables]
    · rw [ho.file]
      refine fun _ ↦ ⟨rfl, fun n hn hfile ↦ ?_⟩
      obtain rfl := Option.some.inj hn
      dsimp only
      split
      · rename_i hkept
        rw [ho.fs, if_neg (not_not.2 hkept.1)] at hfile
        exact (hinv.fs.size_le_dataBytes hfile).trans_lt (by decide)
      · decide
  · rintro e w' (herr | ⟨node, w1, hnode, hn⟩)
    · rw [(openNode_ends h.inv path _).of_eq_error herr]
      exact .refl _ w
    · obtain ⟨-, htables, ht, -⟩ := (openNode_ends h.inv path _).of_eq_ok hnode
      refine ⟨hn.fs ▸ ht.mono _, fun t' fd' _ ↦ ?_⟩
      rw [← htables]
      exact (hn.tables t' fd').imp_right fun hclosed ↦ fileOk_closed hclosed.1

/-! ## Runs -/

omit [DecidableEq T] in
theorem effect_onFs {α : Type} {x : EStateM Err Ramfs α}
    (h : Ends x w.fs (fun _ fs' ↦ Touches n w.fs fs') (fun _ fs' ↦ Touches n w.fs fs')) :
    Ends (onFs x) w (fun _ w' ↦ Effect n w w') (fun _ w' ↦ Effect n w w') :=
  ends_zoom (h.mono (fun _ _ ht ↦ ⟨ht, fun _ _ _ ↦ .inl rfl⟩)
    fun _ _ ht ↦ ⟨ht, fun _ _ _ ↦ .inl rfl⟩)

theorem ramfsCreateFile_touches (h : FsInv fs) (path : CString) :
    Ends (ramfsCreateFile path) fs (fun _ fs' ↦ Touches n fs fs')
      (fun _ fs' ↦ Touches n fs fs') :=
  (ramfsCreateFile_spec h path).mono (fun _ _ h ↦ h.1.touches n) fun _ _ h ↦ h ▸ .refl n fs

theorem fdTableInit_effect (t : T) : Effect n w (fdTableInit t w) := by
  refine ⟨.refl n w.fs, fun t' fd hlt ↦ ?_⟩
  show Function.update w.tables t _ t' fd = _ ∨ FileOk _ (Function.update w.tables t _ t' fd)
  by_cases ht : t' = t
  · right
    rw [ht, Function.update_self]
    exact fileOk_closed (by rw [if_pos hlt]; rfl)
  · left
    rw [Function.update_of_ne ht]

/-- Every call touches one file at most. -/
theorem Call.exists_effect {α : Type} {x : EStateM Err (World T) α} (hx : Call x)
    (h : Settled w) : ∃ n, Effect n w (after x w) := by
  cases hx with
  | seedFile path data => exact ⟨_, (effect_onFs (ramfsSeedFile_touches h.inv.fs path data)).after⟩
  | createFile path => exact ⟨none, (effect_onFs (ramfsCreateFile_touches h.inv.fs path)).after⟩
  | fdTableInit t => exact ⟨none, fdTableInit_effect t⟩
  | «open» t path flags => exact ⟨_, (vfsOpen_effect h path flags).after⟩
  | read t fd len => exact ⟨none, (vfsRead_effect h fd len).after⟩
  | write t fd buf => exact ⟨_, (vfsWrite_effect h fd buf).after⟩
  | lseek t fd offset whence => exact ⟨none, (vfsLseek_effect h fd offset whence).after⟩
  | dup t fd => exact ⟨none, (vfsDup_effect h fd).after⟩
  | close t fd => exact ⟨none, (vfsClose_effect fd).after⟩

theorem Settled.after_call {α : Type} {x : EStateM Err (World T) α} (h : Settled w)
    (hx : Call x) : Settled (after x w) := by
  obtain ⟨n, he⟩ := hx.exists_effect h
  exact h.step (h.inv.after_call hx) he

theorem Reaches.settled (h : Reaches w) : Settled w := by
  induction h with
  | init names htables =>
    refine ⟨(Reaches.init names htables).inv, fun t fd hlt ↦ fileOk_closed ?_⟩
    dsimp only
    rw [htables t fd hlt]
    rfl
  | call _ hx ih => exact ih.after_call hx

end Files

end Vfs
end Mcsos
