import Mcsos.Vfs.Lseek

/-!
# Writing and reading piece by piece

A descriptor that is open for reading and writing is a cursor in a list of bytes.  `Cursor` says
where it is and what the file contains, and the calls are described by what they do to these two.
Then pieces are put together by induction over their list, with the rules for a single piece from
`ByteFile`: how the bytes are cut does not show, neither when writing nor when reading
(`chunking_irrelevant`).
-/

set_option autoImplicit false

namespace Mcsos
namespace Vfs

open Program ByteFile

variable {T : Type} {w : World T} {t : T} {fd : ℤ} {n o cap : ℕ} {cs : List UInt8}

/-- The descriptor is open on the file `n` with `MCS_O_RDWR` but not with `MCS_O_APPEND`.  It is at
the offset `o`, the file contains `cs` and there is room for `cap` bytes. -/
structure Cursor (w : World T) (t : T) (fd : ℤ) (n o cap : ℕ) (cs : List UInt8) : Prop where
  settled : Settled w
  openOn : OpenOn w t fd n
  rdwr : (w.tables t fd.toNat).flags &&& oRdwr ≠ 0
  notAppend : (w.tables t fd.toNat).flags &&& oAppend = 0
  offset : (w.tables t fd.toNat).offset = o
  capacity : (w.fs.nodes n).dataCapacity = cap
  contents : contents w.fs n = cs

namespace Cursor

variable (h : Cursor w t fd n o cap cs)
include h

theorem fs_set : (w.tables t fd.toNat).fs = true :=
  (h.settled.files t _ h.openOn.toNat_lt h.openOn.used).1

theorem canRead_eq : canRead (w.tables t fd.toNat).flags = true := by
  rw [canRead, Bool.or_eq_true, bne_iff_ne, bne_iff_ne]
  exact .inr h.rdwr

theorem canWrite_eq : canWrite (w.tables t fd.toNat).flags = true := by
  rw [canWrite, Bool.or_eq_true, bne_iff_ne, bne_iff_ne]
  exact .inr h.rdwr

theorem size_eq : (w.fs.nodes n).size = cs.length := by
  rw [← h.contents, length_contents]

theorem length_le : cs.length ≤ 8192 := by
  rw [← h.size_eq]
  exact h.settled.inv.fs.size_le_dataBytes h.openOn.isFile

theorem writeStart_eq : writeStart w t fd.toNat n = o := by
  rw [writeStart, if_neg (not_not.2 h.notAppend), h.offset]

variable [DecidableEq T]

theorem seek {o' : ℕ} (hs : Settled (w.seek t fd.toNat o')) :
    Cursor (w.seek t fd.toNat o') t fd n o' cap cs where
  settled := hs
  openOn := ⟨h.openOn.nonneg, h.openOn.lt, by rw [tables_seek_self, h.openOn.used],
    by rw [tables_seek_self, h.openOn.node], h.openOn.isFile⟩
  rdwr := by
    rw [tables_seek_self]
    exact h.rdwr
  notAppend := by
    rw [tables_seek_self]
    exact h.notAppend
  offset := by rw [tables_seek_self]
  capacity := h.capacity
  contents := h.contents

theorem written {buf : List UInt8} (hle : o ≤ cs.length)
    (hs : Settled (w.written t fd.toNat n buf)) :
    Cursor (w.written t fd.toNat n buf) t fd n (o + buf.length) cap (overwrite cs o buf) where
  settled := hs
  openOn := ⟨h.openOn.nonneg, h.openOn.lt, by rw [tables_written_self, h.openOn.used],
    by rw [tables_written_self, h.openOn.node], isFile_written_iff.2 h.openOn.isFile⟩
  rdwr := by
    rw [tables_written_self]
    exact h.rdwr
  notAppend := by
    rw [tables_written_self]
    exact h.notAppend
  offset := by rw [tables_written_self, h.writeStart_eq]
  capacity := by rw [nodes_written_self, h.capacity]
  contents := by
    rw [contents_written_of_le, h.writeStart_eq, h.contents]
    rw [h.writeStart_eq, h.size_eq]
    exact hle

/-! ## One piece -/

theorem write (buf : List UInt8) (hle : o ≤ cs.length) (hfit : o + buf.length ≤ cap) :
    ∃ c w', vfsWrite t fd buf w = .ok c w' ∧ c.bytes = buf ∧
      Cursor w' t fd n (o + buf.length) cap (overwrite cs o buf) := by
  have heq := vfsWrite_of_open h.openOn h.fs_set h.canWrite_eq buf
  rw [h.writeStart_eq, h.capacity, if_neg (by omega), if_neg (by omega)] at heq
  refine ⟨_, _, heq, rfl, h.written hle ?_⟩
  have hs := h.settled.after_call (.write t fd buf)
  rwa [after_of_ok heq] at hs

theorem read (len : ℕ) : ∃ c w', vfsRead t fd len w = .ok c w' ∧ c.bytes = slice cs o len ∧
    Cursor w' t fd n (o + (slice cs o len).length) cap cs := by
  obtain ⟨c, hc, heq⟩ := vfsRead_of_open h.openOn h.fs_set h.canRead_eq len
  rw [h.contents, h.offset] at hc
  rw [hc, h.offset] at heq
  refine ⟨c, _, heq, hc, h.seek ?_⟩
  have hs := h.settled.after_call (.read t fd len)
  rwa [after_of_ok heq] at hs

/-- Going back to where the file can be read. -/
theorem lseek (o' : ℕ) (ho' : o' ≤ 8192) :
    ∃ w', vfsLseek t fd o' 0 w = .ok o' w' ∧ Cursor w' t fd n o' cap cs := by
  have hbase : seekBase w t fd.toNat n 0 = some 0 := rfl
  have heq : vfsLseek t fd o' 0 w = .ok (0 + o') (w.seek t fd.toNat (0 + (o' : ℤ)).toNat) :=
    vfsLseek_moves h.settled h.openOn hbase (by omega) (by omega)
  rw [zero_add, Int.toNat_natCast] at heq
  refine ⟨_, heq, h.seek ?_⟩
  have hs := h.settled.after_call (.lseek t fd o' 0)
  rwa [after_of_ok heq] at hs

omit h

/-! ## Many pieces -/

/-- Writing the pieces is writing all of them at once. -/
theorem writeAll {bufs : List (List UInt8)} (h : Cursor w t fd n o cap cs) (hle : o ≤ cs.length)
    (hfit : o + bufs.flatten.length ≤ cap) :
    ∃ ws w', bufs.mapM (vfsWrite t fd) w = .ok ws w' ∧ ws.map Copied.bytes = bufs ∧
      Cursor w' t fd n (o + bufs.flatten.length) cap (overwrite cs o bufs.flatten) := by
  induction bufs generalizing w o cs with
  | nil =>
    refine ⟨[], w, rfl, rfl, ?_⟩
    rw [List.flatten_nil, List.length_nil, Nat.add_zero, overwrite_nil hle]
    exact h
  | cons buf bufs ih =>
    rw [List.flatten_cons, List.length_append] at hfit
    obtain ⟨c, w1, heq1, hc, h1⟩ := h.write buf hle (by omega)
    obtain ⟨ws, w2, heq2, hws, h2⟩ := ih h1 (by rw [length_overwrite]; omega) (by omega)
    refine ⟨c :: ws, w2, ?_, ?_, ?_⟩
    · rw [List.mapM_cons, bind_of_ok heq1, bind_of_ok heq2]
      rfl
    · rw [List.map_cons, hc, hws]
    · rw [List.flatten_cons, List.length_append, ← Nat.add_assoc, ← overwrite_append]
      exact h2

/-- Reading pieces is reading all of them at once. -/
theorem readAll (h : Cursor w t fd n o cap cs) (lens : List ℕ) :
    ∃ rs w', lens.mapM (vfsRead t fd) w = .ok rs w' ∧
      (rs.map Copied.bytes).flatten = slice cs o lens.sum ∧
        Cursor w' t fd n (o + (slice cs o lens.sum).length) cap cs := by
  induction lens generalizing w o with
  | nil => exact ⟨[], w, rfl, rfl, h⟩
  | cons len lens ih =>
    obtain ⟨c, w1, heq1, hc, h1⟩ := h.read len
    obtain ⟨rs, w2, heq2, hrs, h2⟩ := ih h1
    refine ⟨c :: rs, w2, ?_, ?_, ?_⟩
    · rw [List.mapM_cons, bind_of_ok heq1, bind_of_ok heq2]
      rfl
    · rw [List.map_cons, List.flatten_cons, hc, hrs, List.sum_cons, slice_add]
    · rw [List.sum_cons, ← slice_add, List.length_append, ← Nat.add_assoc]
      exact h2

end Cursor

/-- **Where the pieces are cut does not matter.**  In every state of a run, for a descriptor on a
file that is open for reading and writing and not behind the end: buffers for which there is room
are written one by one, each completely; seeking back succeeds; and reading by pieces of any
lengths returns the buffers and then the old contents, as far as the lengths and the file go.  What
was before the offset stays. -/
theorem chunking_irrelevant [DecidableEq T] (h : Reaches w) (ho : OpenOn w t fd n)
    (hrdwr : (w.tables t fd.toNat).flags &&& oRdwr ≠ 0)
    (happend : (w.tables t fd.toNat).flags &&& oAppend = 0)
    (hoffset : (w.tables t fd.toNat).offset = o) (hle : o ≤ (w.fs.nodes n).size)
    (bufs : List (List UInt8)) (hfit : o + bufs.flatten.length ≤ (w.fs.nodes n).dataCapacity)
    (lens : List ℕ) :
    ∃ ws rs w1 w2 w3, bufs.mapM (vfsWrite t fd) w = .ok ws w1 ∧ ws.map Copied.bytes = bufs ∧
      vfsLseek t fd o 0 w1 = .ok o w2 ∧ lens.mapM (vfsRead t fd) w2 = .ok rs w3 ∧
        (rs.map Copied.bytes).flatten
          = (bufs.flatten ++ (contents w.fs n).drop (o + bufs.flatten.length)).take
              (min lens.sum (max (w.fs.nodes n).size (o + bufs.flatten.length) - o)) ∧
          (contents w3.fs n).take o = (contents w.fs n).take o := by
  have hlen := length_contents w.fs n
  have h0 : Cursor w t fd n o _ _ := ⟨h.settled, ho, hrdwr, happend, hoffset, rfl, rfl⟩
  obtain ⟨ws, w1, hwrites, hws, h1⟩ := h0.writeAll (by omega) hfit
  have := h1.length_le
  rw [length_overwrite] at this
  obtain ⟨w2, hseek, h2⟩ := h1.lseek o (by omega)
  obtain ⟨rs, w3, hreads, hrs, h3⟩ := h2.readAll lens
  refine ⟨ws, rs, w1, w2, w3, hwrites, hws, hseek, hreads, ?_, ?_⟩
  · have hshort : max (w.fs.nodes n).size (o + bufs.flatten.length) - o
        = (bufs.flatten ++ (contents w.fs n).drop (o + bufs.flatten.length)).length := by
      rw [List.length_append, List.length_drop]
      omega
    rw [hrs, slice, drop_overwrite (by omega), hshort, ← List.take_eq_take_min]
  · rw [h3.contents, take_overwrite (by omega)]

/-- Three bytes are written in two pieces and read in three. -/
theorem chunking_irrelevant_three_bytes : ∃ ws rs w1 w2 w3,
    [[1], [2, 3]].mapM (vfsWrite () 0) oneOpenFile = .ok ws w1 ∧
      vfsLseek () 0 0 0 w1 = .ok 0 w2 ∧ [2, 0, 5].mapM (vfsRead () 0) w2 = .ok rs w3 ∧
        (rs.map Copied.bytes).flatten = [1, 2, 3] := by
  obtain ⟨ws, rs, w1, w2, w3, h1, -, h2, h3, hrs, -⟩ := chunking_irrelevant (o := 0)
    oneOpenFile_reaches oneOpenFile_openOn (by decide +kernel) (by decide +kernel)
    (by decide +kernel) (by decide +kernel) [[1], [2, 3]] (by decide +kernel) [2, 0, 5]
  refine ⟨ws, rs, w1, w2, w3, h1, h2, h3, hrs.trans ?_⟩
  decide +kernel

end Vfs
end Mcsos
