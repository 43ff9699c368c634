import Mcsos.Mcsfs1.Refinement

/-!
# MCSFS1: what is written is read back

On a healthy device, `mcsfs1_stat` and `mcsfs1_read` are functions of the disk, except that
`find_dirent` may look at the byte behind the directory.  With that byte fixed, the slot it stops at
is determined by the directory and the name (`FoundAt.unique`), and different names have different
slots (`FoundAt.name_unique`), whether or not long names hide each other.  A write leaves the
directory alone, so every name is looked up as before, and by the invariant no other file has lost
or gained a block.
-/

set_option autoImplicit false

namespace Mcsos
namespace Mcsfs1

open Bytes Program

variable {dev : Blkdev} {B : ℕ → Block} {d : Disk} {name : ℕ → UInt8} {i j : ℕ} {p : UInt8}

/-! ## Looking up a name -/

section Lookup

variable {dir : Block} (hp : ∀ t, dev.past t = p)

include hp

theorem FoundAt.unique (hi : FoundAt dev dir name i) (hj : FoundAt dev dir name j) : i = j := by
  obtain ⟨len, t, hname, hfind⟩ := hi
  obtain ⟨len', t', hname', hfind'⟩ := hj
  have hlen : len' = len := hname'.strlen.symm.trans hname.strlen
  rw [hp, hlen] at hfind'
  rw [hp, hfind'] at hfind
  exact (Option.some.inj hfind).symm

theorem FoundAt.not_notFound (hi : FoundAt dev dir name i) : ¬ NotFound dev dir name := by
  rintro ⟨len', t', hname', hfind'⟩
  obtain ⟨len, t, hname, hfind⟩ := hi
  have hlen : len' = len := hname'.strlen.symm.trans hname.strlen
  rw [hp, hlen] at hfind'
  rw [hp, hfind'] at hfind
  cases hfind

/-- Different names are found in different slots. -/
theorem FoundAt.name_unique {s t : CString} (hs : FoundAt dev dir s.view i)
    (ht : FoundAt dev dir t.view i) : t = s := by
  obtain ⟨len, u, hname, hfind⟩ := hs
  obtain ⟨len', u', hname', hfind'⟩ := ht
  obtain ⟨-, hm⟩ := Search.of_find?_range hfind
  obtain ⟨-, hm'⟩ := Search.of_find?_range hfind'
  rw [direntMatches, decide_eq_true_iff, hp, memcmp_eq_zero_iff] at hm hm'
  have hlen : len' = len := hm'.2.1.symm.trans hm.2.1
  have hs := hname.length_eq hname.validName
  have ht := hname'.length_eq hname'.validName
  refine CString.eq_of_view_eq fun k hk ↦ ?_
  rcases Nat.lt_or_eq_of_le hk with hlt | rfl
  · rw [← hm'.2.2 k (by omega), hm.2.2 k (by omega)]
  · rw [CString.view_eq_zero le_rfl, CString.view_eq_zero (by omega)]

end Lookup

theorem FoundAt.not_rejected {dir : Block} {e : Err} (h : FoundAt dev dir name i) :
    ¬ Rejected name e := by
  rintro ⟨-, hr⟩
  obtain ⟨len, -, hname, -⟩ := h
  exact hr len hname

theorem NotFound.not_rejected {dir : Block} {e : Err} (h : NotFound dev dir name) :
    ¬ Rejected name e := by
  rintro ⟨-, hr⟩
  obtain ⟨len, -, hname, -⟩ := h
  exact hr len hname

/-- A name is found, or not found, or not a name. -/
theorem lookup_cases (dev : Blkdev) (dir : Block) (name : ℕ → UInt8) :
    (∃ i, FoundAt dev dir name i) ∨ NotFound dev dir name ∨ ∀ len, ¬ NameOk name len := by
  by_cases hname : ∃ len, NameOk name len
  · obtain ⟨len, hlen⟩ := hname
    cases hfind : (List.range direntCount).find? (direntMatches dir (dev.past 0) name len) with
    | none => exact .inr (.inl ⟨len, 0, hlen, hfind⟩)
    | some i => exact .inl ⟨i, len, 0, hlen, hfind⟩
  · exact .inr (.inr (not_exists.1 hname))

/-- A name that is none is rejected before the disk is looked at. -/
theorem findDirent_of_not_nameOk (h : ∀ len, ¬ NameOk name len) :
    ∃ e, ∀ d, findDirent dev name d = .error e d := by
  have hvalid : ∃ e, ∀ d, validName name d = .error e d := by
    by_cases h1 : strlenBound name (maxName + 1) = 0
    · exact ⟨_, fun d ↦ by rw [validName, bind_of_error (failIf_of_pos h1 _ _)]⟩
    by_cases h2 : strlenBound name (maxName + 1) > maxName
    · exact ⟨_, fun d ↦ by rw [validName, bind_of_ok (failIf_of_neg h1 _ _),
        bind_of_error (failIf_of_pos h2 _ _)]⟩
    by_cases h3 : ∃ i, i < strlenBound name (maxName + 1) ∧ name i = slash
    · exact ⟨_, fun d ↦ by rw [validName, bind_of_ok (failIf_of_neg h1 _ _),
        bind_of_ok (failIf_of_neg h2 _ _), bind_of_error (failIf_of_pos h3 _ _)]⟩
    · exact absurd ⟨rfl, Nat.pos_of_ne_zero h1, not_lt.1 h2, fun i hi he ↦ h3 ⟨i, hi, he⟩⟩ (h _)
  obtain ⟨e, he⟩ := hvalid
  exact ⟨e, fun d ↦ by rw [findDirent, bind_of_error (he d)]⟩

/-! ## What is returned -/

section Results

variable {mnt : Mount} (hn : minBlocks ≤ dev.blockCount) (hh : dev.Healthy)
  (hp : ∀ t, dev.past t = p) (hinv : Inv dev.blockCount d.blocks)

include hn hh hp hinv

theorem result_stat_of_found (hfound : FoundAt dev (d.blocks rootDirLba) name i) :
    result (stat dev name) d = .ok (slotBytes d.blocks i).length := by
  have hstat := stat_ends hn rfl hinv name
  cases hrun : stat dev name d with
  | ok size d' =>
    obtain ⟨-, i', hfound', hsize⟩ := hstat.of_eq_ok hrun
    rw [result_of_ok hrun, hsize, slotBytes, length_fileBytes, hfound.unique hp hfound']
  | error e d' =>
    rcases (hstat.of_eq_error hrun).2 hh with ⟨-, hnot⟩ | hrej
    · exact absurd hnot (hfound.not_notFound hp)
    · exact absurd hrej hfound.not_rejected

theorem result_stat_of_notFound (hnot : NotFound dev (d.blocks rootDirLba) name) :
    result (stat dev name) d = .error .noent := by
  have hstat := stat_ends hn rfl hinv name
  cases hrun : stat dev name d with
  | ok size d' =>
    obtain ⟨-, i, hfound, -⟩ := hstat.of_eq_ok hrun
    exact absurd hnot (hfound.not_notFound hp)
  | error e d' =>
    rcases (hstat.of_eq_error hrun).2 hh with ⟨rfl, -⟩ | hrej
    · exact result_of_error hrun
    · exact absurd hrej hnot.not_rejected

variable (hmnt : mnt.blockCount = dev.blockCount)

include hmnt

theorem result_read_of_found (hfound : FoundAt dev (d.blocks rootDirLba) name i) (cap : ℕ) :
    result (read dev mnt name cap) d = if cap < (slotBytes d.blocks i).length then .error .range
      else .ok (slotBytes d.blocks i, (slotBytes d.blocks i).length) := by
  have hread := read_ends hn hmnt rfl hinv name cap
  cases hrun : read dev mnt name cap d with
  | ok r d' =>
    obtain ⟨-, i', hfound', rfl, hcap⟩ := hread.of_eq_ok hrun
    obtain rfl := hfound.unique hp hfound'
    rw [result_of_ok hrun, slotBytes, length_fileBytes, if_neg (not_lt.2 hcap)]
  | error e d' =>
    rcases (hread.of_eq_error hrun).2 hh with ⟨rfl, i', hfound', hcap⟩ | ⟨-, hnot⟩ | hrej
    · obtain rfl := hfound.unique hp hfound'
      rw [result_of_error hrun, slotBytes, length_fileBytes, if_pos hcap]
    · exact absurd hnot (hfound.not_notFound hp)
    · exact absurd hrej hfound.not_rejected

theorem result_read_of_notFound (hnot : NotFound dev (d.blocks rootDirLba) name) (cap : ℕ) :
    result (read dev mnt name cap) d = .error .noent := by
  have hread := read_ends hn hmnt rfl hinv name cap
  cases hrun : read dev mnt name cap d with
  | ok r d' =>
    obtain ⟨-, i, hfound, -⟩ := hread.of_eq_ok hrun
    exact absurd hnot (hfound.not_notFound hp)
  | error e d' =>
    rcases (hread.of_eq_error hrun).2 hh with ⟨-, i, hfound, -⟩ | ⟨rfl, -⟩ | hrej
    · exact absurd hnot (hfound.not_notFound hp)
    · exact result_of_error hrun
    · exact absurd hrej hnot.not_rejected

/-- **What a name returns** depends on the directory and on the contents of the slot it is found
in. -/
theorem results_congr {d' : Disk} (hinv' : Inv dev.blockCount d'.blocks)
    (h7 : d'.blocks rootDirLba = d.blocks rootDirLba)
    (hbytes : ∀ i, FoundAt dev (d.blocks rootDirLba) name i →
      slotBytes d'.blocks i = slotBytes d.blocks i) :
    result (stat dev name) d' = result (stat dev name) d ∧
      ∀ cap, result (read dev mnt name cap) d' = result (read dev mnt name cap) d := by
  rcases lookup_cases dev (d.blocks rootDirLba) name with ⟨i, hfound⟩ | hnot | hbad
  · have hfound' : FoundAt dev (d'.blocks rootDirLba) name i := h7.symm ▸ hfound
    constructor
    · rw [result_stat_of_found hn hh hp hinv' hfound', result_stat_of_found hn hh hp hinv hfound,
        hbytes i hfound]
    · intro cap
      rw [result_read_of_found hn hh hp hinv' hmnt hfound',
        result_read_of_found hn hh hp hinv hmnt hfound, hbytes i hfound]
  · have hnot' : NotFound dev (d'.blocks rootDirLba) name := h7.symm ▸ hnot
    constructor
    · rw [result_stat_of_notFound hn hh hp hinv' hnot', result_stat_of_notFound hn hh hp hinv hnot]
    · intro cap
      rw [result_read_of_notFound hn hh hp hinv' hmnt hnot',
        result_read_of_notFound hn hh hp hinv hmnt hnot]
  · obtain ⟨e, he⟩ : ∃ e, ∀ d, findDirent dev name d = .error e d :=
      findDirent_of_not_nameOk hbad
    have hstat : ∀ d, stat dev name d = .error e d := fun d ↦ by
      rw [stat, bind_of_error (he d)]
    have hread : ∀ cap d, read dev mnt name cap d = .error e d := fun cap d ↦ by
      rw [read, bind_of_error (he d)]
    constructor
    · rw [result_of_error (hstat d'), result_of_error (hstat d)]
    · intro cap
      rw [result_of_error (hread cap d'), result_of_error (hread cap d)]

end Results

/-- **Round trip and isolation.**  After a successful write the file has the length and the contents
that were written, a buffer that is too small is refused, and every other name gives what it gave
before. -/
theorem write_read_round_trip {d₀ d₁ d₂ d' : Disk} {mnt : Mount} (hh : dev.Healthy)
    (hp : ∀ t, dev.past t = p) (hf : format dev d₀ = .ok () d₁) (hm : mount dev d₁ = .ok mnt d₂)
    (hr : Reaches dev mnt d₂ d) (s : CString) (buf : ℕ → UInt8) (len : ℕ)
    (hw : write dev s.view buf len d = .ok () d') :
    result (stat dev s.view) d' = .ok len ∧
      (∀ cap, len ≤ cap →
        result (read dev mnt s.view cap) d' = .ok ((List.range len).map buf, len)) ∧
      (∀ cap, cap < len → result (read dev mnt s.view cap) d' = .error .range) ∧
      ∀ t : CString, t ≠ s → result (stat dev t.view) d' = result (stat dev t.view) d ∧
        ∀ cap, result (read dev mnt t.view cap) d' = result (read dev mnt t.view cap) d := by
  have h := freshMount_of_eq_ok hf hm
  have hinv := hr.inv h.ge h.le h.blockCount (h.blocks_eq.symm ▸ h.inv)
  obtain ⟨hlen, slot, B₁, B₂, new, hfound, hwritten⟩ :=
    (write_ends h.ge h.le rfl hinv s.view buf len).of_eq_ok hw
  have hl := hfound.live
  have hinv' := hwritten.inv hinv hl hlen
  have h7 := hwritten.rootDir_eq hinv hl hlen
  have hfound' : FoundAt dev (d'.blocks rootDirLba) s.view slot := h7.symm ▸ hfound
  have hbytes := hwritten.slotBytes_self hinv hl hlen
  have hsize : (slotBytes d'.blocks slot).length = len := by
    rw [hbytes, List.length_map, List.length_range]
  have hread := result_read_of_found h.ge hh hp hinv' h.blockCount hfound'
  refine ⟨?_, fun cap hcap ↦ ?_, fun cap hcap ↦ ?_, fun t ht ↦ ?_⟩
  · rw [result_stat_of_found h.ge hh hp hinv' hfound', hsize]
  · rw [hread, hsize, if_neg (not_lt.2 hcap), hbytes]
  · rw [hread, hsize, if_pos hcap]
  · refine results_congr h.ge hh hp hinv h.blockCount hinv' h7 fun i hi ↦ ?_
    refine hwritten.slotBytes_of_ne hinv hl hlen hi.live ?_
    rintro rfl
    exact ht (hfound.name_unique hp hi)

/-- The disks of a run that formats, mounts, creates a file and writes to it. -/
theorem exists_of_first_write {d₀ : Disk} {buf : ℕ → UInt8} {len : ℕ}
    (h : errorOf (do
      format dev
      let _ ← mount dev
      create dev name
      write dev name buf len) d₀ = none) :
    ∃ d₁ mnt d₂ d d', format dev d₀ = .ok () d₁ ∧ mount dev d₁ = .ok mnt d₂ ∧
      Reaches dev mnt d₂ d ∧ write dev name buf len d = .ok () d' := by
  obtain ⟨_, d', hrun⟩ := errorOf_eq_none.1 h
  obtain ⟨_, d₁, hf, hrun⟩ := bind_eq_ok.1 hrun
  obtain ⟨mnt, d₂, hm, hrun⟩ := bind_eq_ok.1 hrun
  obtain ⟨_, d, hc, hw⟩ := bind_eq_ok.1 hrun
  refine ⟨d₁, mnt, d₂, d, d', hf, hm, ?_, hw⟩
  rw [← after_of_ok hc]
  exact .call (.create name) .start

/-- Three bytes are written to a new file of a fresh disk of sixteen blocks. -/
theorem write_read_round_trip_three_bytes :
    ∃ (d' : Disk) (mnt : Mount),
      result (stat smallDev (CString.ofBytes [98]).view) d' = .ok 3 ∧
      result (read smallDev mnt (CString.ofBytes [98]).view 5) d' = .ok ([7, 7, 7], 3) := by
  have hrun : errorOf (do
      format smallDev
      let _ ← mount smallDev
      create smallDev (CString.ofBytes [98]).view
      write smallDev (CString.ofBytes [98]).view (fun _ ↦ 7) 3) blankDisk = none := by
    decide +kernel
  obtain ⟨d₁, mnt, d₂, d, d', hf, hm, hr, hw⟩ := exists_of_first_write hrun
  obtain ⟨hstat, hread, -⟩ :=
    write_read_round_trip smallDev_healthy (fun _ ↦ rfl) hf hm hr _ (fun _ ↦ 7) 3 hw
  exact ⟨d', mnt, hstat, hread 5 (by decide)⟩

end Mcsfs1
end Mcsos
