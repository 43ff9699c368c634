import Mcsos.Vfs.Effects

/-!
# What `mcs_vfs_lseek` reports

The offset of a descriptor is set to a number of 64 bits, and returned as one of 32 bits.  The sum
of base and offset is computed with 64 bits; since no base is negative, a sum that does not fit
comes out negative and is refused, as it should be.  A sum that fits in 64 bits but not in 32 is
accepted and then reported as another number, which may be negative (`lseek_reports_iff`).
-/

set_option autoImplicit false

namespace Mcsos
namespace Vfs

open Program

variable {T : Type} {w : World T} {t : T} {fd offset whence : ℤ} {n : ℕ}

/-- The base that `whence` stands for. -/
def seekBase (w : World T) (t : T) (k n : ℕ) (whence : ℤ) : Option ℤ :=
  if whence = 0 then some 0
  else if whence = 1 then some (w.tables t k).offset
  else if whence = 2 then some (w.fs.nodes n).size
  else none

/-- The call sets the offset that was asked for and returns it, or it refuses and changes nothing;
and if it returns a negative number then the offset is where it was. -/
structure SeekReports [DecidableEq T] (w : World T) (t : T) (fd : ℤ) (n : ℕ) (offset whence : ℤ) :
    Prop where
  moves : ∀ base, seekBase w t fd.toNat n whence = some base → 0 ≤ base + offset →
    base + offset < 2 ^ 63 → vfsLseek t fd offset whence w
      = .ok (base + offset) (w.seek t fd.toNat (base + offset).toNat)
  refuses : (∀ base, seekBase w t fd.toNat n whence = some base →
    ¬ (0 ≤ base + offset ∧ base + offset < 2 ^ 63)) →
      ∃ e, vfsLseek t fd offset whence w = .error e w
  stays : ∀ pos w', vfsLseek t fd offset whence w = .ok pos w' → pos < 0 →
    (w'.tables t fd.toNat).offset = (w.tables t fd.toNat).offset

theorem seekBase_nonneg {base : ℤ} {k : ℕ} (h : seekBase w t k n whence = some base) :
    0 ≤ base := by
  rw [seekBase] at h
  split_ifs at h <;> cases h <;> omega

theorem OpenOn.seekBase_lt (ho : OpenOn w t fd n) (h : Settled w) {base : ℤ}
    (hb : seekBase w t fd.toNat n whence = some base) : base < 2 ^ 63 := by
  have h1 := (h.files t _ ho.toNat_lt ho.used).2 n ho.node ho.isFile
  have h2 := h.inv.fs.size_le_dataBytes ho.isFile
  rw [seekBase] at hb
  split_ifs at hb <;> cases hb <;> omega

/-- A number that has 64 bits stays as it is. -/
theorem bmod_eq_self {k : ℤ} (h1 : -2 ^ 63 ≤ k) (h2 : k < 2 ^ 63) : k.bmod (2 ^ 64) = k :=
  Int.bmod_eq_of_le (by omega) (by omega)

/-- The call from where the base is known. -/
theorem seekTo_eq [DecidableEq T] (w : World T) (t : T) (k : ℕ) (base offset : ℤ) :
    (do
      let next := (base + offset).bmod (2 ^ 64)
      failIf (next < 0) Err.einval
      modify fun w ↦ w.modifyFile t k fun f ↦ { f with offset := next.toNat }
      pure (next.bmod (2 ^ 32)) : EStateM Err (World T) ℤ) w
        = if (base + offset).bmod (2 ^ 64) < 0 then .error .einval w
          else .ok (((base + offset).bmod (2 ^ 64)).bmod (2 ^ 32))
            (w.seek t k ((base + offset).bmod (2 ^ 64)).toNat) := by
  dsimp only
  split
  · rename_i hneg
    rw [bind_of_error (failIf_of_pos hneg _ w)]
  · rename_i hneg
    rw [bind_of_ok (failIf_of_neg hneg _ w)]
    rfl

/-- What the call computes. -/
theorem vfsLseek_of_open [DecidableEq T] (h : Settled w) (ho : OpenOn w t fd n)
    (offset whence : ℤ) :
    vfsLseek t fd offset whence w = (seekBase w t fd.toNat n whence).elim (.error .einval w)
      fun base ↦ if (base + offset).bmod (2 ^ 64) < 0 then .error .einval w
        else .ok (((base + offset).bmod (2 ^ 64)).bmod (2 ^ 32))
          (w.seek t fd.toNat ((base + offset).bmod (2 ^ 64)).toNat) := by
  have hoffset := (h.files t _ ho.toNat_lt ho.used).2 n ho.node ho.isFile
  have hsize := h.inv.fs.size_le_dataBytes ho.isFile
  rw [vfsLseek, bind_of_ok (get_apply w), ho.fdGet_eq, bind_of_ok (expect_some _ _ w), ho.node,
    bind_of_ok (expect_some _ _ w), bind_of_ok (failIf_of_neg ho.type_ne _ w), seekBase]
  split
  · exact seekTo_eq w t fd.toNat 0 offset
  · rw [bmod_eq_self (by omega) (by omega)]
    exact seekTo_eq w t fd.toNat _ offset
  · rw [bmod_eq_self (by omega) (by omega)]
    exact seekTo_eq w t fd.toNat _ offset
  · rename_i h0 h1 h2
    rw [if_neg h0, if_neg h1, if_neg h2]
    rfl

/-- A sum that is negative, or does not fit, is refused. -/
theorem vfsLseek_refuses [DecidableEq T] (h : Settled w) (ho : OpenOn w t fd n)
    (h1 : -2 ^ 63 ≤ offset) (h2 : offset < 2 ^ 63)
    (hout : ∀ base, seekBase w t fd.toNat n whence = some base →
      ¬ (0 ≤ base + offset ∧ base + offset < 2 ^ 63)) :
    vfsLseek t fd offset whence w = .error .einval w := by
  rw [vfsLseek_of_open h ho]
  cases hb : seekBase w t fd.toNat n whence with
  | none => rfl
  | some base =>
    have hnonneg := seekBase_nonneg hb
    have hlt := ho.seekBase_lt h hb
    have hneg : (base + offset).bmod (2 ^ 64) < 0 := by
      have := hout base hb
      rw [Int.bmod_def]
      omega
    exact if_pos hneg

/-- A sum that fits in 32 bits is set and returned. -/
theorem vfsLseek_moves [DecidableEq T] (h : Settled w) (ho : OpenOn w t fd n) {base : ℤ}
    (hb : seekBase w t fd.toNat n whence = some base) (hlow : 0 ≤ base + offset)
    (hhigh : base + offset < 2 ^ 31) : vfsLseek t fd offset whence w
      = .ok (base + offset) (w.seek t fd.toNat (base + offset).toNat) := by
  have hsmall : (base + offset).bmod (2 ^ 32) = base + offset :=
    Int.bmod_eq_of_le (by omega) (by omega)
  rw [vfsLseek_of_open h ho, hb, Option.elim_some, bmod_eq_self (by omega) (by omega),
    if_neg (by omega), hsmall]

/-- **When the report is true.**  In every state of a run and for every descriptor on a file, the
call does what it reports if and only if the sum of base and offset is not one that fits in 64 bits
but not in 32. -/
theorem lseek_reports_iff [DecidableEq T] (h : Reaches w) (ho : OpenOn w t fd n)
    (h1 : -2 ^ 63 ≤ offset) (h2 : offset < 2 ^ 63) :
    SeekReports w t fd n offset whence ↔ ∀ base, seekBase w t fd.toNat n whence = some base →
      ¬ (2 ^ 31 ≤ base + offset ∧ base + offset < 2 ^ 63) := by
  constructor
  · rintro hr base hb ⟨hlow, hhigh⟩
    have heq := vfsLseek_of_open h.settled ho offset whence
    rw [hr.moves base hb (by omega) hhigh, hb, Option.elim_some, bmod_eq_self (by omega) hhigh,
      if_neg (by omega)] at heq
    have hpos := (EStateM.Result.ok.inj heq).1
    have hlt := Int.bmod_lt (x := base + offset) (m := 2 ^ 32) (by decide)
    omega
  · intro hcond
    have hmove : ∀ base, seekBase w t fd.toNat n whence = some base → 0 ≤ base + offset →
        base + offset < 2 ^ 63 → vfsLseek t fd offset whence w
          = .ok (base + offset) (w.seek t fd.toNat (base + offset).toNat) := by
      intro base hb hlow hhigh
      have := hcond base hb
      exact vfsLseek_moves h.settled ho hb hlow (by omega)
    refine ⟨hmove, fun hout ↦ ⟨_, vfsLseek_refuses h.settled ho h1 h2 hout⟩,
      fun pos w' hok hneg ↦ ?_⟩
    by_cases hout : ∀ base, seekBase w t fd.toNat n whence = some base →
        ¬ (0 ≤ base + offset ∧ base + offset < 2 ^ 63)
    · rw [vfsLseek_refuses h.settled ho h1 h2 hout] at hok
      cases hok
    · push Not at hout
      obtain ⟨base, hb, hlow, hhigh⟩ := hout
      rw [hmove base hb hlow hhigh] at hok
      have := (EStateM.Result.ok.inj hok).1
      omega

/-- Seeking to 5 from the start of the file does what it reports. -/
theorem lseek_reports_five : SeekReports oneOpenFile () 0 1 5 0 := by
  refine (lseek_reports_iff oneOpenFile_reaches oneOpenFile_openOn (by decide) (by decide)).2 ?_
  intro base hb
  have : some 0 = some base := hb
  cases this
  decide

/-- Seeking to 2^31 from the start of the file returns −2^31, and the offset has moved. -/
theorem lseek_negative_report : Reaches oneOpenFile ∧ OpenOn oneOpenFile () 0 1 ∧
    result (vfsLseek () 0 (2 ^ 31) 0) oneOpenFile = .ok (-2 ^ 31) ∧
      (oneOpenFile.tables () 0).offset = 0 ∧
        ((after (vfsLseek () 0 (2 ^ 31) 0) oneOpenFile).tables () 0).offset = 2 ^ 31 ∧
          ¬ SeekReports oneOpenFile () 0 1 (2 ^ 31) 0 := by
  have hr : result (vfsLseek () 0 (2 ^ 31) 0) oneOpenFile = .ok (-2 ^ 31) := by decide +kernel
  refine ⟨oneOpenFile_reaches, oneOpenFile_openOn, hr, by decide +kernel, by decide +kernel, ?_⟩
  intro h
  rw [result_of_ok (h.moves 0 rfl (by decide) (by decide))] at hr
  exact absurd (Except.ok.inj hr) (by decide)

end Vfs
end Mcsos
