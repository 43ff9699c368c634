import Mcsos.Lib.ByteFile
import Mcsos.Vfs.Extents

/-!
# Reading and writing an open file

A descriptor that is open on a file shows the file as a list of bytes (`contents`), at an offset.
What `mcs_vfs_read` and `mcs_vfs_write` do through such a descriptor is said in these terms: the one
returns a slice (`vfsRead_of_open`), and the other overwrites (`contents_written`).  A write with
`MCS_O_APPEND` starts at the end of the file, wherever the offset is (`writeStart`).
-/

set_option autoImplicit false

namespace Mcsos
namespace Vfs

open Program Bytes ByteFile

variable {T : Type} {w : World T} {t : T} {fd : ℤ} {k n : ℕ} {buf : List UInt8}

/-- The bytes of a file. -/
def contents (fs : Ramfs) (n : ℕ) : List UInt8 :=
  window fs.data (fs.nodes n).dataOffset (fs.nodes n).size

@[simp] theorem length_contents (fs : Ramfs) (n : ℕ) :
    (contents fs n).length = (fs.nodes n).size := length_window

/-- The descriptor `fd` of the table `t` is open on the file `n`. -/
structure OpenOn (w : World T) (t : T) (fd : ℤ) (n : ℕ) : Prop where
  nonneg : 0 ≤ fd
  lt : fd < maxOpenFiles
  used : (w.tables t fd.toNat).used = true
  node : (w.tables t fd.toNat).node = some n
  isFile : w.fs.IsFile n

/-! ## Checks -/

theorem OpenOn.fdGet_eq (h : OpenOn w t fd n) : fdGet w t fd = some fd.toNat := by
  rw [fdGet, if_neg (not_or.2 ⟨not_lt.2 h.nonneg, not_le.2 h.lt⟩), h.used]
  rfl

theorem OpenOn.toNat_lt (h : OpenOn w t fd n) : fd.toNat < 16 := by
  have h1 := h.nonneg
  have h2 := h.lt
  rw [show ((maxOpenFiles : ℕ) : ℤ) = 16 from rfl] at h2
  omega

theorem OpenOn.type_ne (h : OpenOn w t fd n) : (w.fs.nodes n).type ≠ .dir := by
  rw [h.isFile.2]
  decide

theorem bounds_of_fdGet (h : fdGet w t fd = some k) : 0 ≤ fd ∧ fd < maxOpenFiles := by
  rw [fdGet] at h
  split at h
  · cases h
  · rename_i hbound
    exact ⟨not_lt.1 (not_or.1 hbound).1, not_le.1 (not_or.1 hbound).2⟩

theorem checkFile_of_open {can : UInt32 → Bool} (h : OpenOn w t fd n)
    (hset : (w.tables t fd.toNat).fs = true) (hcan : can (w.tables t fd.toNat).flags = true) :
    checkFile t fd can w = .ok (fd.toNat, n) w := by
  rw [checkFile, bind_of_ok (get_apply w), h.fdGet_eq, bind_of_ok (expect_some _ _ w), hcan,
    bind_of_ok (failIf_of_neg (by decide) _ w), hset,
    bind_of_ok (failIf_of_neg (by decide) _ w), h.node, bind_of_ok (expect_some _ _ w),
    bind_of_ok (failIf_of_neg h.type_ne _ w)]
  rfl

/-- A descriptor that passes the checks is open on a file and may be used like this. -/
theorem checkFile_ends (hI : Inv w) (fd : ℤ) (can : UInt32 → Bool) :
    Ends (checkFile t fd can) w
      (fun r w' ↦ w' = w ∧ r.1 = fd.toNat ∧ OpenOn w t fd r.2 ∧
        (w.tables t fd.toNat).fs = true ∧ can (w.tables t fd.toNat).flags = true)
      (fun _ w' ↦ w' = w) := by
  refine ends_get (ends_expect (fun _ ↦ rfl) fun k hk ↦ ?_)
  obtain ⟨hnonneg, hlt⟩ := bounds_of_fdGet hk
  obtain ⟨rfl, hlt', hused⟩ := fdGet_eq_some hk
  refine ends_failIf (fun _ ↦ rfl) fun hcan ↦ ends_failIf (fun _ ↦ rfl) fun hset ↦
    ends_expect (fun _ ↦ rfl) fun n hn ↦ ends_failIf (fun _ ↦ rfl) fun htype ↦ ends_pure ?_
  obtain ⟨n', hn', hcount⟩ := hI.files t fd.toNat hlt' hused
  obtain rfl := Option.some.inj (hn.symm.trans hn')
  refine ⟨rfl, rfl, ⟨hnonneg, hlt, hused, hn, (hI.fs.used_iff n).2 hcount, ?_⟩, by simpa using hset,
    by simpa using hcan⟩
  cases hv : (w.fs.nodes n).type with
  | dir => exact absurd hv htype
  | file => rfl

/-! ## Reading -/

section Calls

variable [DecidableEq T]

/-- The descriptor `k` with another offset. -/
def World.seek (w : World T) (t : T) (k offset : ℕ) : World T :=
  w.modifyFile t k fun f ↦ { f with offset := offset }

@[simp] theorem fs_seek (w : World T) (t : T) (k o : ℕ) : (w.seek t k o).fs = w.fs := rfl

@[simp] theorem tables_seek_self (w : World T) (t : T) (k o : ℕ) :
    (w.seek t k o).tables t k = { w.tables t k with offset := o } := tables_modifyFile_self

theorem tables_seek_of_ne {t' : T} {k' o : ℕ} (h : t' ≠ t ∨ k' ≠ k) :
    (w.seek t k o).tables t' k' = w.tables t' k' := tables_modifyFile_of_ne h

theorem seek_self (w : World T) (t : T) (k : ℕ) : w.seek t k (w.tables t k).offset = w := by
  rw [World.seek, World.modifyFile]
  simp

/-- **Reading returns a slice of the file.** -/
theorem vfsRead_of_open (h : OpenOn w t fd n) (hset : (w.tables t fd.toNat).fs = true)
    (hcan : canRead (w.tables t fd.toNat).flags = true) (len : ℕ) :
    ∃ c, c.bytes = slice (contents w.fs n) (w.tables t fd.toNat).offset len ∧
      vfsRead t fd len w
        = .ok c (w.seek t fd.toNat ((w.tables t fd.toNat).offset + c.bytes.length)) := by
  rw [vfsRead, bind_of_ok (checkFile_of_open h hset hcan), contents, slice_window]
  dsimp only
  rw [bind_of_ok (get_apply w)]
  split
  · rename_i hle
    refine ⟨⟨0, []⟩, ?_, ?_⟩
    · rw [Nat.sub_eq_zero_of_le hle, Nat.min_zero]
      rfl
    · rw [show (⟨0, []⟩ : Copied).bytes.length = 0 from rfl, Nat.add_zero, seek_self]
      rfl
  · refine ⟨⟨(w.fs.nodes n).dataOffset + (w.tables t fd.toNat).offset, window w.fs.data _ _⟩, rfl,
      ?_⟩
    rw [length_window]
    rfl

/-! ## Writing -/

/-- Where a write through the descriptor `k` to the file `n` starts. -/
def writeStart (w : World T) (t : T) (k n : ℕ) : ℕ :=
  if (w.tables t k).flags &&& oAppend ≠ 0 then (w.fs.nodes n).size else (w.tables t k).offset

/-- The state after a write has succeeded. -/
def World.written (w : World T) (t : T) (k n : ℕ) (buf : List UInt8) : World T :=
  let start := writeStart w t k n
  storeAt t k n ((w.fs.nodes n).dataOffset + start) buf (w.seek t k start)

/-- What a write through an open descriptor does. -/
theorem vfsWrite_of_open (h : OpenOn w t fd n) (hset : (w.tables t fd.toNat).fs = true)
    (hcan : canWrite (w.tables t fd.toNat).flags = true) (buf : List UInt8) :
    vfsWrite t fd buf w
      = if (w.fs.nodes n).dataCapacity < writeStart w t fd.toNat n then
          .error .einval (w.seek t fd.toNat (writeStart w t fd.toNat n))
        else if (w.fs.nodes n).dataCapacity < writeStart w t fd.toNat n + buf.length then
          .error .enospc (w.seek t fd.toNat (writeStart w t fd.toNat n))
        else .ok ⟨(w.fs.nodes n).dataOffset + writeStart w t fd.toNat n, buf⟩
          (w.written t fd.toNat n buf) := by
  have hseek : (if (w.tables t fd.toNat).flags &&& oAppend ≠ 0 then
      w.modifyFile t fd.toNat fun f ↦ { f with offset := (w.fs.nodes n).size } else w)
      = w.seek t fd.toNat (writeStart w t fd.toNat n) := by
    rw [writeStart]
    split
    · rfl
    · rw [seek_self]
  rw [vfsWrite, bind_of_ok (checkFile_of_open h hset hcan)]
  dsimp only
  rw [bind_of_ok (modify_apply _ w), hseek, World.written]
  generalize writeStart w t fd.toNat n = o
  rw [writeAt, bind_of_ok (get_apply _), tables_seek_self, fs_seek]
  dsimp only
  by_cases hcap : (w.fs.nodes n).dataCapacity < o
  · rw [if_pos hcap, bind_of_error (failIf_of_pos hcap _ _)]
  · rw [if_neg hcap, bind_of_ok (failIf_of_neg hcap _ _)]
    by_cases hlen : (w.fs.nodes n).dataCapacity < o + buf.length
    · rw [if_pos hlen, bind_of_error (failIf_of_pos (by omega) _ _)]
    · rw [if_neg hlen, bind_of_ok (failIf_of_neg (by omega) _ _),
        min_eq_left (by omega : buf.length ≤ (w.fs.nodes n).dataCapacity - o), List.take_length]
      rfl

/-- What a write that succeeds has gone through. -/
theorem vfsWrite_ends (hI : Inv w) (fd : ℤ) (buf : List UInt8) :
    Ends (vfsWrite t fd buf) w
      (fun c w' ↦ ∃ n, OpenOn w t fd n ∧ canWrite (w.tables t fd.toNat).flags = true ∧
        writeStart w t fd.toNat n + buf.length ≤ (w.fs.nodes n).dataCapacity ∧
        c = ⟨(w.fs.nodes n).dataOffset + writeStart w t fd.toNat n, buf⟩ ∧
        w' = w.written t fd.toNat n buf)
      (fun _ w' ↦ w' = w ∨ ∃ n, OpenOn w t fd n ∧
        w' = w.seek t fd.toNat (writeStart w t fd.toNat n)) := by
  cases hx : checkFile t fd canWrite w with
  | error e w' =>
    refine ends_of_error (bind_of_error hx) (.inl ?_)
    exact (checkFile_ends hI fd canWrite).of_eq_error hx
  | ok r w' =>
    obtain ⟨-, -, h, hset, hcan⟩ := (checkFile_ends hI fd canWrite).of_eq_ok hx
    have heq := vfsWrite_of_open h hset hcan buf
    split at heq
    · exact ends_of_error heq (.inr ⟨r.2, h, rfl⟩)
    · split at heq
      · exact ends_of_error heq (.inr ⟨r.2, h, rfl⟩)
      · rename_i hfits
        exact ends_of_ok heq ⟨r.2, h, hcan, not_lt.1 hfits, rfl, rfl⟩

theorem tables_storeAt_self {start : ℕ} : (storeAt t k n start buf w).tables t k
    = { w.tables t k with offset := (w.tables t k).offset + buf.length } := by
  rw [storeAt, tables_modifyNode, tables_modifyFile_self]

theorem nodes_storeAt_self {start : ℕ} : (storeAt t k n start buf w).fs.nodes n
    = { w.fs.nodes n with
        size := max (w.fs.nodes n).size ((w.tables t k).offset + buf.length) } := by
  show Function.update w.fs.nodes n _ n = _
  rw [Function.update_self]
  dsimp only
  rw [tables_modifyFile_self, max_def_lt]
  rfl

section Written

variable (w t k n buf)

@[simp] theorem data_written : (w.written t k n buf).fs.data
    = copyAt w.fs.data ((w.fs.nodes n).dataOffset + writeStart w t k n) (buf.getD · 0)
      buf.length := rfl

@[simp] theorem nodes_written_self : (w.written t k n buf).fs.nodes n
    = { w.fs.nodes n with
        size := max (w.fs.nodes n).size (writeStart w t k n + buf.length) } := by
  rw [World.written, nodes_storeAt_self, tables_seek_self, fs_seek]

@[simp] theorem tables_written_self : (w.written t k n buf).tables t k
    = { w.tables t k with offset := writeStart w t k n + buf.length } := by
  rw [World.written, tables_storeAt_self, tables_seek_self]

variable {w t k n buf}

theorem nodes_written_of_ne {j : ℕ} (h : j ≠ n) :
    (w.written t k n buf).fs.nodes j = w.fs.nodes j := Function.update_of_ne h _ _

theorem tables_written_of_ne {t' : T} {k' : ℕ} (h : t' ≠ t ∨ k' ≠ k) :
    (w.written t k n buf).tables t' k' = w.tables t' k' := by
  rw [World.written, tables_storeAt_of_ne h, tables_seek_of_ne h]

theorem isFile_written_iff {j : ℕ} :
    (w.written t k n buf).fs.IsFile j ↔ w.fs.IsFile j := by
  by_cases hj : j = n
  · rw [hj, Ramfs.IsFile, nodes_written_self]
    rfl
  · rw [Ramfs.IsFile, nodes_written_of_ne hj]
    rfl

/-- **Writing overwrites the file**, together with what lies between its end and the place of the
write. -/
theorem contents_written : contents (w.written t k n buf).fs n
    = overwrite (window w.fs.data (w.fs.nodes n).dataOffset
        (max (w.fs.nodes n).size (writeStart w t k n))) (writeStart w t k n) buf := by
  rw [contents, nodes_written_self, data_written]
  exact window_copyAt

/-- A write that leaves no gap overwrites the file. -/
theorem contents_written_of_le (h : writeStart w t k n ≤ (w.fs.nodes n).size) :
    contents (w.written t k n buf).fs n
      = overwrite (contents w.fs n) (writeStart w t k n) buf := by
  rw [contents_written, max_eq_left h, contents]

end Written

end Calls

/-! ## One open file -/

/-- The path `"/a"`. -/
def pathA : CString := .ofBytes [slash, 0x61]

/-- After `mcs_ramfs_init`, for a process with one table, `"/a"` is created and opened. -/
def oneOpenFile : World Unit :=
  after (vfsOpen () pathA (oCreat ||| oRdwr)) ⟨ramfsInit fun _ _ ↦ 0, fun _ _ ↦ closedFile⟩

theorem oneOpenFile_reaches : Reaches oneOpenFile :=
  reaches_first.call (.open () pathA (oCreat ||| oRdwr))

theorem oneOpenFile_openOn : OpenOn oneOpenFile () 0 1 where
  nonneg := by decide
  lt := by decide
  used := by decide +kernel
  node := by decide +kernel
  isFile := ⟨by decide +kernel, by decide +kernel⟩

end Vfs
end Mcsos
