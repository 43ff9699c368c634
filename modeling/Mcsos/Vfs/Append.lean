import Mcsos.Vfs.Effects

/-!
# Appending through many descriptors

Descriptors that are open with `MCS_O_APPEND` have offsets of their own, which may be anywhere.  A
write sets the offset to the size of the file first, and the size is kept once for all of them, so
that the writers do not get in each other's way: the file is what it was at the beginning and then
what was written, in the order of the calls (`appends_never_lost`).

In between there may be any calls that do not write to the file (`Harmless`).
-/

set_option autoImplicit false

namespace Mcsos
namespace Vfs

open Program ByteFile

variable {T : Type} {w w0 : World T} {t : T} {fd : ℤ} {n : ℕ} {buf log : List UInt8}

/-- The descriptor is open on the file for writing, with `MCS_O_APPEND`. -/
structure AppendsTo (w : World T) (t : T) (fd : ℤ) (n : ℕ) : Prop extends OpenOn w t fd n where
  canWrite : canWrite (w.tables t fd.toNat).flags = true
  append : (w.tables t fd.toNat).flags &&& oAppend ≠ 0

section Calls

variable [DecidableEq T]

/-- Calls that do not write to the file `n`. -/
inductive Harmless (n : ℕ) (w : World T) : ∀ {α : Type}, EStateM Err (World T) α → Prop
  | seedFile {path : CString} (h : ramfsLookup w.fs path ≠ .ok n) (data : List UInt8) :
      Harmless n w (onFs (ramfsSeedFile path data))
  | createFile (path : CString) : Harmless n w (onFs (ramfsCreateFile path))
  | fdTableInit (t : T) : Harmless n w (modify (fdTableInit t))
  | open (t : T) {path : CString} {flags : UInt32} (h : truncates w.fs path flags ≠ some n) :
      Harmless n w (vfsOpen t path flags)
  | read (t : T) (fd : ℤ) (len : ℕ) : Harmless n w (vfsRead t fd len)
  | write {t : T} {fd : ℤ} (h : OpenOn w t fd n → canWrite (w.tables t fd.toNat).flags = false)
      (buf : List UInt8) : Harmless n w (vfsWrite t fd buf)
  | lseek (t : T) (fd offset whence : ℤ) : Harmless n w (vfsLseek t fd offset whence)
  | dup (t : T) (fd : ℤ) : Harmless n w (vfsDup t fd)
  | close (t : T) (fd : ℤ) : Harmless n w (vfsClose t fd)

/-- What has been appended to the file `n` since the state `w0`. -/
inductive Appends (n : ℕ) (w0 : World T) : World T → List UInt8 → Prop
  | start : Appends n w0 w0 []
  | write {w w' : World T} {log : List UInt8} {c : Copied} (h : Appends n w0 w log) (t : T)
      (fd : ℤ) (buf : List UInt8) (ha : AppendsTo w t fd n) (hok : vfsWrite t fd buf w = .ok c w') :
      Appends n w0 w' (log ++ buf)
  | refused {w w' : World T} {log : List UInt8} {e : Err} (h : Appends n w0 w log) (t : T)
      (fd : ℤ) (buf : List UInt8) (ha : AppendsTo w t fd n)
      (herr : vfsWrite t fd buf w = .error e w') : Appends n w0 w' log
  | other {α : Type} {w : World T} {log : List UInt8} {x : EStateM Err (World T) α}
      (h : Appends n w0 w log) (hx : Harmless n w x) : Appends n w0 (after x w) log

/-! ## Other calls -/

theorem Harmless.call {α : Type} {x : EStateM Err (World T) α} (h : Harmless n w x) : Call x := by
  cases h with
  | seedFile _ data => exact .seedFile _ data
  | createFile path => exact .createFile path
  | fdTableInit t => exact .fdTableInit t
  | «open» t _ => exact .open t _ _
  | read t fd len => exact .read t fd len
  | write _ buf => exact .write _ _ buf
  | lseek t fd offset whence => exact .lseek t fd offset whence
  | dup t fd => exact .dup t fd
  | close t fd => exact .close t fd

theorem Harmless.touches {α : Type} {x : EStateM Err (World T) α} (h : Harmless n w x)
    (hw : Settled w) : ∃ m, m ≠ some n ∧ Touches m w.fs (after x w).fs := by
  cases h with
  | seedFile hpath data =>
    rename_i path
    refine ⟨(ramfsLookup w.fs path).toOption, ?_,
      (effect_onFs (ramfsSeedFile_touches hw.inv.fs path data)).after.touches⟩
    intro hn
    cases hlookup : ramfsLookup w.fs path with
    | error e =>
      rw [hlookup] at hn
      cases hn
    | ok i =>
      rw [hlookup] at hn
      exact hpath (hlookup.trans (congrArg _ (Option.some.inj hn)))
  | createFile path =>
    exact ⟨none, by simp, (effect_onFs (ramfsCreateFile_touches hw.inv.fs path)).after.touches⟩
  | fdTableInit t => exact ⟨none, by simp, (fdTableInit_effect t).touches⟩
  | «open» t hpath => exact ⟨_, hpath, (vfsOpen_effect hw _ _).after.touches⟩
  | read t fd len => exact ⟨none, by simp, (vfsRead_effect hw fd len).after.touches⟩
  | lseek t fd offset whence =>
    exact ⟨none, by simp, (vfsLseek_effect hw fd offset whence).after.touches⟩
  | dup t fd => exact ⟨none, by simp, (vfsDup_effect hw fd).after.touches⟩
  | close t fd => exact ⟨none, by simp, (vfsClose_effect fd).after.touches⟩
  | write hnot buf =>
    refine Ends.after (P := fun w' ↦ ∃ m, m ≠ some n ∧ Touches m w.fs w'.fs)
      ((vfsWrite_ends hw.inv _ buf).mono ?_ ?_)
    · rintro c w' ⟨i, ho, hcan, hfits, -, rfl⟩
      refine ⟨some i, ?_, written_touches hw.inv ho hfits⟩
      rintro ⟨rfl⟩
      rw [hnot ho] at hcan
      cases hcan
    · rintro - w' (rfl | ⟨i, -, rfl⟩)
      · exact ⟨none, by simp, .refl none _⟩
      · exact ⟨none, by simp, .refl none _⟩

/-! ## Writing with `MCS_O_APPEND` -/

omit [DecidableEq T] in
theorem AppendsTo.writeStart_eq (h : AppendsTo w t fd n) :
    writeStart w t fd.toNat n = (w.fs.nodes n).size := if_pos h.append

/-- A write with `MCS_O_APPEND` fails only for want of room. -/
theorem AppendsTo.vfsWrite_eq (h : AppendsTo w t fd n) (hw : Settled w) (buf : List UInt8) :
    vfsWrite t fd buf w
      = if (w.fs.nodes n).dataCapacity - (w.fs.nodes n).size < buf.length then
          .error .enospc (w.seek t fd.toNat (w.fs.nodes n).size)
        else .ok ⟨(w.fs.nodes n).dataOffset + (w.fs.nodes n).size, buf⟩
          (w.written t fd.toNat n buf) := by
  have hsize := hw.inv.fs.size_le n h.isFile
  have hset := (hw.files t _ h.toNat_lt h.used).1
  rw [vfsWrite_of_open h.toOpenOn hset h.canWrite buf, h.writeStart_eq, if_neg (by omega)]
  refine if_congr ?_ rfl rfl
  omega

theorem AppendsTo.contents_written (h : AppendsTo w t fd n) (buf : List UInt8) :
    contents (w.written t fd.toNat n buf).fs n = contents w.fs n ++ buf := by
  rw [contents_written_of_le (by rw [h.writeStart_eq]), h.writeStart_eq, ← length_contents,
    overwrite_length]

/-- What a write with `MCS_O_APPEND` does, in the two cases. -/
theorem AppendsTo.vfsWrite_ends (h : AppendsTo w t fd n) (hw : Settled w) (buf : List UInt8) :
    Ends (vfsWrite t fd buf) w
      (fun c w' ↦ c.bytes = buf ∧ contents w'.fs n = contents w.fs n ++ buf ∧
        buf.length ≤ (w.fs.nodes n).dataCapacity - (w.fs.nodes n).size)
      (fun e w' ↦ e = .enospc ∧ w'.fs = w.fs ∧
        (w.fs.nodes n).dataCapacity - (w.fs.nodes n).size < buf.length) := by
  have heq := h.vfsWrite_eq hw buf
  split at heq
  · rename_i hfull
    exact ends_of_error heq ⟨rfl, rfl, hfull⟩
  · rename_i hroom
    exact ends_of_ok heq ⟨rfl, h.contents_written buf, not_lt.1 hroom⟩

/-! ## Runs -/

theorem Appends.reaches (h0 : Reaches w0) (h : Appends n w0 w log) : Reaches w := by
  induction h with
  | start => exact h0
  | write _ t fd buf _ hok ih =>
    have := ih.call (.write t fd buf)
    rwa [after_of_ok hok] at this
  | refused _ t fd buf _ herr ih =>
    have := ih.call (.write t fd buf)
    rwa [after_of_error herr] at this
  | other _ hx ih => exact ih.call hx.call

theorem Appends.contents_eq (h0 : Reaches w0) (hn : w0.fs.IsFile n) (h : Appends n w0 w log) :
    w.fs.IsFile n ∧ contents w.fs n = contents w0.fs n ++ log := by
  induction h with
  | start => exact ⟨hn, (List.append_nil _).symm⟩
  | write h t fd buf ha hok ih =>
    have hs := (h.reaches h0).settled
    have hw' := (ha.vfsWrite_ends hs buf).of_eq_ok hok
    have he := vfsWrite_effect (t := t) hs fd buf
    have hlt := (hs.inv.fs.used_iff n).1 ih.1.1
    exact ⟨((he.of_eq_ok hok).touches.isFile_iff hlt).2 ih.1,
      by rw [hw'.2.1, ih.2, List.append_assoc]⟩
  | refused h t fd buf ha herr ih =>
    rw [((ha.vfsWrite_ends (h.reaches h0).settled buf).of_eq_error herr).2.1]
    exact ih
  | other h hx ih =>
    have hs := (h.reaches h0).settled
    obtain ⟨m, hm, ht⟩ := hx.touches hs
    have hlt := (hs.inv.fs.used_iff n).1 ih.1.1
    exact ⟨(ht.isFile_iff hlt).2 ih.1, by rw [ht.contents_eq hs.inv.fs ih.1 hm, ih.2]⟩

/-- **No append is lost.**  From any state of a run on, as long as the file is written only through
descriptors with `MCS_O_APPEND`, it contains what it did at first and then the buffers of the
successful writes.  Such a write copies its whole buffer, or it fails with `MCS_ENOSPC`, which
leaves the file system alone and happens exactly if there is not enough room. -/
theorem appends_never_lost (h0 : Reaches w0) (hn : w0.fs.IsFile n) (h : Appends n w0 w log) :
    contents w.fs n = contents w0.fs n ++ log ∧
      ∀ t fd buf, AppendsTo w t fd n →
        (∀ c w', vfsWrite t fd buf w = .ok c w' → c.bytes = buf) ∧
        (∀ e w', vfsWrite t fd buf w = .error e w' → w'.fs = w.fs) ∧
        (errorOf (vfsWrite t fd buf) w = some .enospc ↔
          (w.fs.nodes n).dataCapacity - (w.fs.nodes n).size < buf.length) ∧
        (errorOf (vfsWrite t fd buf) w = none ↔
          buf.length ≤ (w.fs.nodes n).dataCapacity - (w.fs.nodes n).size) := by
  refine ⟨(h.contents_eq h0 hn).2, fun t fd buf ha ↦ ?_⟩
  have hs := (h.reaches h0).settled
  have hends := ha.vfsWrite_ends hs buf
  refine ⟨fun c w' hok ↦ (hends.of_eq_ok hok).1, fun e w' herr ↦ (hends.of_eq_error herr).2.1, ?_⟩
  have heq := ha.vfsWrite_eq hs buf
  split at heq
  · rename_i hfull
    rw [errorOf_of_error heq]
    exact ⟨iff_of_true rfl hfull, iff_of_false (by simp) (not_le.2 hfull)⟩
  · rename_i hroom
    rw [errorOf_of_ok heq]
    exact ⟨iff_of_false (by simp) hroom, iff_of_true rfl (not_lt.1 hroom)⟩

end Calls

/-- After `mcs_ramfs_init`, `"/a"` is created and opened twice with `MCS_O_APPEND`. -/
def twoAppenders : World Unit :=
  after (vfsOpen () pathA (oWronly ||| oAppend))
    (after (vfsOpen () pathA (oCreat ||| oWronly ||| oAppend))
      ⟨ramfsInit fun _ _ ↦ 0, fun _ _ ↦ closedFile⟩)

theorem twoAppenders_reaches : Reaches twoAppenders :=
  (reaches_first.call (.open () pathA (oCreat ||| oWronly ||| oAppend))).call
    (.open () pathA (oWronly ||| oAppend))

/-- Two bytes are appended through the first descriptor, and then one through the second, which is
still at the start of the file. -/
theorem appends_never_lost_two_descriptors :
    ∃ w, Appends 1 twoAppenders w ([] ++ [1, 2] ++ [3]) ∧ contents w.fs 1 = [1, 2, 3] := by
  have h0 : AppendsTo twoAppenders () 0 1 := ⟨⟨by decide, by decide, by decide +kernel,
    by decide +kernel, by decide +kernel, by decide +kernel⟩, by decide +kernel, by decide +kernel⟩
  obtain ⟨c1, w1, hok1⟩ : ∃ c1 w1, vfsWrite () 0 [1, 2] twoAppenders = .ok c1 w1 :=
    errorOf_eq_none.1 (by decide +kernel)
  have hrun1 := Appends.start.write () 0 [1, 2] h0 hok1
  obtain rfl := after_of_ok hok1
  have h1 : AppendsTo (after (vfsWrite () 0 [1, 2]) twoAppenders) () 1 1 := ⟨⟨by decide, by decide,
    by decide +kernel, by decide +kernel, by decide +kernel, by decide +kernel⟩, by decide +kernel,
    by decide +kernel⟩
  obtain ⟨c2, w2, hok2⟩ : ∃ c2 w2, vfsWrite () 1 [3] (after (vfsWrite () 0 [1, 2]) twoAppenders)
      = .ok c2 w2 := errorOf_eq_none.1 (by decide +kernel)
  have hrun2 := hrun1.write () 1 [3] h1 hok2
  refine ⟨w2, hrun2, (appends_never_lost twoAppenders_reaches ⟨by decide +kernel, by decide +kernel⟩
    hrun2).1.trans ?_⟩
  decide +kernel

end Vfs
end Mcsos
