import Mcsos.Vfs.Effects

/-!
# Data from before a truncation

Truncating a file sets its size to zero, and its bytes stay where they are.  As long as the file
grows at its end they are overwritten.  But a descriptor may be behind the end, where it was before
the truncation or where `mcs_vfs_lseek` has put it, and a write there makes the file longer without
filling the gap.

What the file should contain is kept along with the run, as a list of bytes: nothing after
`MCS_O_TRUNC`, and after a write what `ByteFile.overwrite` says, with zeros in the gap.  Reading
returns this as long as no write finds other bytes in the gap (`no_stale_data`).
-/

set_option autoImplicit false

namespace Mcsos
namespace Vfs

open Program ByteFile

/-- The calls by which a process uses files. -/
inductive Op (T : Type)
  | open (t : T) (path : CString) (flags : UInt32)
  | read (t : T) (fd : ℤ) (len : ℕ)
  | write (t : T) (fd : ℤ) (buf : List UInt8)
  | lseek (t : T) (fd offset whence : ℤ)
  | dup (t : T) (fd : ℤ)
  | close (t : T) (fd : ℤ)

variable {T : Type} {fs : Ramfs} {n : ℕ} {g : ℕ → List UInt8}

/-- The files contain what they should. -/
structure Agrees (fs : Ramfs) (g : ℕ → List UInt8) : Prop where
  file : ∀ n, fs.IsFile n → contents fs n = g n
  absent : ∀ n, ¬ fs.IsFile n → g n = []

section Calls

variable [DecidableEq T] {w : World T} {t : T}

/-- The state after a call. -/
def Op.run (w : World T) : Op T → World T
  | .open t path flags => after (vfsOpen t path flags) w
  | .read t fd len => after (vfsRead t fd len) w
  | .write t fd buf => after (vfsWrite t fd buf) w
  | .lseek t fd offset whence => after (vfsLseek t fd offset whence) w
  | .dup t fd => after (vfsDup t fd) w
  | .close t fd => after (vfsClose t fd) w

/-- What the files should contain after a call. -/
def Op.record (w : World T) (g : ℕ → List UInt8) : Op T → ℕ → List UInt8
  | .open t path flags =>
    match vfsOpen t path flags w with
    | .ok fd w' =>
      if flags &&& oTrunc ≠ 0 then
        (w'.tables t fd).node.elim g fun n ↦ Function.update g n []
      else g
    | .error _ _ => g
  | .write t fd buf =>
    match vfsWrite t fd buf w with
    | .ok _ _ =>
      (w.tables t fd.toNat).node.elim g fun n ↦
        Function.update g n (overwrite (g n) (writeStart w t fd.toNat n) buf)
    | .error _ _ => g
  | _ => g

/-- A write that will succeed finds only zeros between the end of the file and its start. -/
def Op.Safe (w : World T) : Op T → Prop
  | .write t fd buf => ∀ n, OpenOn w t fd n → canWrite (w.tables t fd.toNat).flags = true →
      writeStart w t fd.toNat n + buf.length ≤ (w.fs.nodes n).dataCapacity →
        ∀ k, (w.fs.nodes n).size ≤ k → k < writeStart w t fd.toNat n →
          w.fs.data ((w.fs.nodes n).dataOffset + k) = 0
  | _ => True

/-- A call, with the record. -/
def Op.step (s : World T × (ℕ → List UInt8)) (op : Op T) : World T × (ℕ → List UInt8) :=
  (op.run s.1, op.record s.1 s.2)

/-- Runs after `mcs_ramfs_init` and `mcs_fd_table_init` in which every write is safe. -/
inductive SafeRun : World T → (ℕ → List UInt8) → Prop
  | init (names : ℕ → ℕ → UInt8) {tables : T → ℕ → File}
      (h : ∀ t fd, fd < maxOpenFiles → tables t fd = closedFile) :
      SafeRun ⟨ramfsInit names, tables⟩ fun _ ↦ []
  | step {w : World T} {g : ℕ → List UInt8} (h : SafeRun w g) (op : Op T) (hs : op.Safe w) :
      SafeRun (op.run w) (op.record w g)

theorem Op.reaches_run (op : Op T) (h : Reaches w) : Reaches (op.run w) := by
  cases op with
  | «open» t path flags => exact h.call (.open t path flags)
  | read t fd len => exact h.call (.read t fd len)
  | write t fd buf => exact h.call (.write t fd buf)
  | lseek t fd offset whence => exact h.call (.lseek t fd offset whence)
  | dup t fd => exact h.call (.dup t fd)
  | close t fd => exact h.call (.close t fd)

theorem SafeRun.reaches (h : SafeRun w g) : Reaches w := by
  induction h with
  | init names htables => exact .init names htables
  | step _ op _ ih => exact op.reaches_run ih

/-! ## Calls that leave the files alone -/

theorem fs_vfsRead (h : Inv w) (t : T) (fd : ℤ) (len : ℕ) :
    (after (vfsRead t fd len) w).fs = w.fs := by
  refine Ends.after (P := fun w' : World T ↦ w'.fs = w.fs) (ends_bind
    ((checkFile_spec h fd canRead).mono (fun _ _ h ↦ h) fun _ w' hw' ↦ congrArg World.fs hw') ?_)
  rintro ⟨k, i⟩ w' ⟨rfl, -⟩
  refine ends_get ?_
  dsimp only
  split
  · exact ends_pure rfl
  · exact ends_modify (ends_pure rfl)

theorem fs_vfsLseek (t : T) (fd offset whence : ℤ) :
    (after (vfsLseek t fd offset whence) w).fs = w.fs :=
  Ends.after (P := fun w' : World T ↦ w'.fs = w.fs)
    (ends_get (ends_expect (fun _ ↦ rfl) fun _ _ ↦ ends_expect (fun _ ↦ rfl) fun _ _ ↦
      ends_failIf (fun _ ↦ rfl) fun _ ↦ ends_expect (fun _ ↦ rfl) fun _ _ ↦
        ends_failIf (fun _ ↦ rfl) fun _ ↦ ends_modify (ends_pure rfl)))

theorem fs_vfsDup (t : T) (fd : ℤ) : (after (vfsDup t fd) w).fs = w.fs := by
  refine Ends.after (P := fun w' : World T ↦ w'.fs = w.fs)
    (ends_get (ends_expect (fun _ ↦ rfl) fun _ _ ↦ ends_bind
      ((fdAlloc_cases w t).mono (fun _ _ h ↦ h) fun _ w' hw' ↦ congrArg World.fs hw'.1) ?_))
  rintro newfd w' ⟨-, -, rfl⟩
  exact ends_modify (ends_pure rfl)

theorem fs_vfsClose (t : T) (fd : ℤ) : (after (vfsClose t fd) w).fs = w.fs :=
  Ends.after (P := fun w' : World T ↦ w'.fs = w.fs)
    (ends_get (ends_expect (fun _ ↦ rfl) fun _ _ ↦ ends_of_ok rfl rfl))

end Calls

/-! ## Opening -/

/-- Agreement after one file has changed. -/
theorem Agrees.update {fs' : Ramfs} {g' : ℕ → List UInt8} (h : Agrees fs g) (n : ℕ)
    (hother : ∀ m, m ≠ n → (fs'.IsFile m ↔ fs.IsFile m) ∧
      (fs.IsFile m → contents fs' m = contents fs m) ∧ g' m = g m)
    (hfile : fs'.IsFile n → contents fs' n = g' n) (habsent : ¬ fs'.IsFile n → g' n = []) :
    Agrees fs' g' := by
  refine ⟨fun m hm ↦ ?_, fun m hm ↦ ?_⟩
  · by_cases heq : m = n
    · subst heq
      exact hfile hm
    · obtain ⟨hiff, hcontents, hg⟩ := hother m heq
      rw [hcontents (hiff.1 hm), hg, h.file m (hiff.1 hm)]
  · by_cases heq : m = n
    · subst heq
      exact habsent hm
    · obtain ⟨hiff, -, hg⟩ := hother m heq
      rw [hg, h.absent m fun hm' ↦ hm (hiff.2 hm')]

theorem Agrees.addNode (h : Agrees fs g) (hI : FsInv fs) (parent : ℕ) (leaf : List UInt8) :
    Agrees (fs.addNode parent .file leaf 256) g := by
  have hnew : g fs.nodeCount = [] :=
    h.absent _ fun hf ↦ lt_irrefl _ ((hI.used_iff _).1 hf.1)
  refine h.update fs.nodeCount (fun m hm ↦ ?_) (fun _ ↦ ?_) fun _ ↦ hnew
  · rw [Ramfs.IsFile, contents, nodes_addNode_of_ne hm]
    exact ⟨Iff.rfl, fun _ ↦ rfl, rfl⟩
  · rw [hnew, contents, nodes_addNode_self]
    rfl

theorem Agrees.truncate (h : Agrees fs g) (n : ℕ) :
    Agrees (fs.modifyNode n fun v ↦ { v with size := 0 }) (Function.update g n []) := by
  refine h.update n (fun m hm ↦ ?_) (fun _ ↦ ?_) fun _ ↦ Function.update_self _ _ _
  · have hnode : (fs.modifyNode n fun v ↦ { v with size := 0 }).nodes m = fs.nodes m :=
      Function.update_of_ne hm _ _
    rw [Ramfs.IsFile, contents, hnode, Function.update_of_ne hm]
    exact ⟨Iff.rfl, fun _ ↦ rfl, rfl⟩
  · have hnode : (fs.modifyNode n fun v ↦ { v with size := 0 }).nodes n
        = { fs.nodes n with size := 0 } := Function.update_self _ _ _
    rw [Function.update_self, contents, hnode]
    rfl

section Calls

variable [DecidableEq T] {w : World T} {t : T}

omit [DecidableEq T] in
theorem Agrees.openNode (h : Agrees w.fs g) (hI : Inv w) {path : CString} {flags : UInt32}
    {w' : World T} (hok : openNode path flags w = .ok n w') : Agrees w'.fs g := by
  rcases (openNode_cases w path flags).of_eq_ok hok with ⟨-, rfl⟩ | ⟨-, p, l, -, -, rfl⟩
  · exact h
  · exact h.addNode hI.fs _ l

theorem Agrees.open (h : Agrees w.fs g) (hI : Inv w) (t : T) (path : CString) (flags : UInt32) :
    Agrees ((Op.open t path flags).run w).fs ((Op.open t path flags).record w g) := by
  rw [Op.run, Op.record]
  cases hopen : vfsOpen t path flags w with
  | ok fd w' =>
    obtain ⟨node, w1, hnode, ho⟩ := (vfsOpen_cases w t path flags).of_eq_ok hopen
    have h1 := h.openNode hI hnode
    rw [after_of_ok hopen, ho.fs, openFlags_and (by decide)]
    dsimp only
    rw [ho.file, Option.elim_some]
    split
    · exact h1.truncate node
    · exact h1
  | error e w' =>
    rw [after_of_error hopen]
    rcases (vfsOpen_cases w t path flags).of_eq_error hopen with hnode | ⟨node, w1, hnode, hn⟩
    · rw [(openNode_cases w path _).of_eq_error hnode]
      exact h
    · rw [hn.fs]
      exact h.openNode hI hnode

/-! ## Writing -/

/-- A write that succeeds keeps agreement exactly if the gap is zero. -/
theorem Agrees.written_iff (h : Agrees w.fs g) (hI : Inv w) {fd : ℤ} {buf : List UInt8}
    (ho : OpenOn w t fd n)
    (hfits : writeStart w t fd.toNat n + buf.length ≤ (w.fs.nodes n).dataCapacity) :
    Agrees (w.written t fd.toNat n buf).fs
        (Function.update g n (overwrite (g n) (writeStart w t fd.toNat n) buf)) ↔
      ∀ k, (w.fs.nodes n).size ≤ k → k < writeStart w t fd.toNat n →
        w.fs.data ((w.fs.nodes n).dataOffset + k) = 0 := by
  have hself : contents (w.written t fd.toNat n buf).fs n
      = overwrite (g n) (writeStart w t fd.toNat n) buf ↔
        ∀ k, (w.fs.nodes n).size ≤ k → k < writeStart w t fd.toNat n →
          w.fs.data ((w.fs.nodes n).dataOffset + k) = 0 := by
    rw [contents_written, ← h.file n ho.isFile, contents]
    exact overwrite_window_iff
  rw [← hself]
  constructor
  · intro h'
    rw [h'.file n (isFile_written_iff.2 ho.isFile), Function.update_self]
  · intro heq
    refine h.update n (fun m hm ↦ ⟨isFile_written_iff, fun hfile ↦ ?_, ?_⟩) (fun _ ↦ ?_) ?_
    · exact (written_touches hI ho hfits).contents_eq hI.fs hfile
        fun hs ↦ hm (Option.some.inj hs).symm
    · rw [Function.update_of_ne hm]
    · rw [heq, Function.update_self]
    · exact fun hn ↦ absurd (isFile_written_iff.2 ho.isFile) hn

theorem Agrees.write_iff (h : Agrees w.fs g) (hs : Settled w) (t : T) (fd : ℤ)
    (buf : List UInt8) :
    Agrees ((Op.write t fd buf).run w).fs ((Op.write t fd buf).record w g) ↔
      (Op.write t fd buf).Safe w := by
  rw [Op.run, Op.record, Op.Safe]
  cases hwrite : vfsWrite t fd buf w with
  | ok c w' =>
    obtain ⟨n, ho, hcan, hfits, -, rfl⟩ := (vfsWrite_ends hs.inv fd buf).of_eq_ok hwrite
    rw [after_of_ok hwrite, ho.node]
    refine (h.written_iff hs.inv ho hfits).trans ⟨fun hz m hm _ _ ↦ ?_, fun hz ↦ hz n ho hcan hfits⟩
    obtain rfl := Option.some.inj (ho.node.symm.trans hm.node)
    exact hz
  | error e w' =>
    rw [after_of_error hwrite]
    refine iff_of_true ?_ fun n ho hcan hfits ↦ ?_
    · rcases (vfsWrite_ends hs.inv fd buf).of_eq_error hwrite with rfl | ⟨n, -, rfl⟩
      · exact h
      · exact h
    · -- such a write does not fail
      have hset := (hs.files t _ ho.toNat_lt ho.used).1
      rw [vfsWrite_of_open ho hset hcan, if_neg (by omega), if_neg (by omega)] at hwrite
      cases hwrite

/-! ## Runs -/

/-- Safe calls keep agreement, and no others do. -/
theorem Agrees.step_iff (h : Agrees w.fs g) (hs : Settled w) (op : Op T) :
    Agrees (op.run w).fs (op.record w g) ↔ op.Safe w := by
  cases op with
  | «open» t path flags => exact iff_of_true (h.open hs.inv t path flags) trivial
  | read t fd len => exact iff_of_true ((fs_vfsRead hs.inv t fd len).symm ▸ h) trivial
  | write t fd buf => exact h.write_iff hs t fd buf
  | lseek t fd offset whence =>
    exact iff_of_true ((fs_vfsLseek t fd offset whence).symm ▸ h) trivial
  | dup t fd => exact iff_of_true ((fs_vfsDup t fd).symm ▸ h) trivial
  | close t fd => exact iff_of_true ((fs_vfsClose t fd).symm ▸ h) trivial

theorem agrees_init (names : ℕ → ℕ → UInt8) : Agrees (ramfsInit names) fun _ ↦ [] :=
  ⟨fun _ _ ↦ rfl, fun _ _ ↦ rfl⟩

theorem SafeRun.agrees (h : SafeRun w g) : Agrees w.fs g := by
  induction h with
  | init names _ => exact agrees_init names
  | step h op hsafe ih => exact (ih.step_iff h.reaches.settled op).2 hsafe

/-- **When no stale data can be read.**  In every run in which each write finds only zeros between
the end of the file and its start, a read returns a part of what the file should contain: the bytes
that were written since it was last truncated, and zeros where none were.  A call after such a run
keeps this up if and only if it is safe too. -/
theorem no_stale_data (h : SafeRun w g) :
    (∀ t fd len c w', vfsRead t fd len w = .ok c w' → ∃ n, OpenOn w t fd n ∧
      c.bytes = slice (g n) (w.tables t fd.toNat).offset len) ∧
    ∀ op : Op T, Agrees (op.run w).fs (op.record w g) ↔ op.Safe w := by
  have hs := h.reaches.settled
  refine ⟨fun t fd len c w' hread ↦ ?_, h.agrees.step_iff hs⟩
  cases hcheck : checkFile t fd canRead w with
  | error e w1 =>
    rw [vfsRead, bind_of_error hcheck] at hread
    cases hread
  | ok r w1 =>
    obtain ⟨-, -, ho, hset, hcan⟩ := (checkFile_ends hs.inv fd canRead).of_eq_ok hcheck
    obtain ⟨c', hc', heq⟩ := vfsRead_of_open ho hset hcan len
    obtain ⟨rfl, -⟩ := EStateM.Result.ok.inj (heq.symm.trans hread)
    exact ⟨r.2, ho, by rw [hc', h.agrees.file r.2 ho.isFile]⟩

end Calls

/-! ## A truncated file -/

/-- The start, for a process with one table. -/
def beforeCalls : World Unit × (ℕ → List UInt8) :=
  (⟨ramfsInit fun _ _ ↦ 0, fun _ _ ↦ closedFile⟩, fun _ ↦ [])

/-- Three bytes are written to `"/a"`, and the file is truncated by opening it again. -/
def truncatedFile : World Unit × (ℕ → List UInt8) :=
  [.open () pathA (oCreat ||| oRdwr), .write () 0 [1, 2, 3],
    .open () pathA (oTrunc ||| oRdwr)].foldl Op.step beforeCalls

theorem truncatedFile_safeRun : SafeRun truncatedFile.1 truncatedFile.2 := by
  have h0 : SafeRun beforeCalls.1 beforeCalls.2 := .init _ fun _ _ _ ↦ rfl
  have h1 := h0.step (.open () pathA (oCreat ||| oRdwr)) trivial
  refine (h1.step (.write () 0 [1, 2, 3]) fun n ho _ _ k _ hk ↦ ?_).step
    (.open () pathA (oTrunc ||| oRdwr)) trivial
  -- the write starts at the end of the empty file
  obtain rfl := Option.some.inj (ho.node.symm.trans (by decide +kernel : _ = some 1))
  exact absurd hk (Nat.not_lt_zero k)

/-- Two bytes are written through the second descriptor, which then goes back to the start. -/
def rewrittenFile : World Unit × (ℕ → List UInt8) :=
  [.write () 1 [7, 8], .lseek () 1 0 0].foldl Op.step truncatedFile

theorem rewrittenFile_safeRun : SafeRun rewrittenFile.1 rewrittenFile.2 := by
  refine (truncatedFile_safeRun.step (.write () 1 [7, 8]) fun n ho _ _ k _ hk ↦ ?_).step
    (.lseek () 1 0 0) trivial
  obtain rfl := Option.some.inj (ho.node.symm.trans (by decide +kernel : _ = some 1))
  exact absurd hk (Nat.not_lt_zero k)

/-- Of the three bytes from before the truncation none is read, although four are asked for. -/
theorem no_stale_data_rewritten :
    ∃ c w', vfsRead () 1 4 rewrittenFile.1 = .ok c w' ∧ c.bytes = [7, 8] := by
  obtain ⟨c, w', hread⟩ : ∃ c w', vfsRead () 1 4 rewrittenFile.1 = .ok c w' :=
    errorOf_eq_none.1 (by decide +kernel)
  obtain ⟨n, ho, hbytes⟩ := (no_stale_data rewrittenFile_safeRun).1 () 1 4 c w' hread
  obtain rfl := Option.some.inj (ho.node.symm.trans (by decide +kernel : _ = some 1))
  exact ⟨c, w', hread, hbytes.trans (by decide +kernel)⟩

/-- But after the truncation the first descriptor is still behind the three bytes.  After a write
of one byte through it the second descriptor reads all four, where there should be three zeros. -/
theorem truncated_bytes_read :
    (result (vfsRead () 1 4) (Op.step truncatedFile (.write () 0 [9])).1).map Copied.bytes
        = .ok [1, 2, 3, 9] ∧
      (Op.step truncatedFile (.write () 0 [9])).2 1 = [0, 0, 0, 9] := by
  decide +kernel

end Vfs
end Mcsos
