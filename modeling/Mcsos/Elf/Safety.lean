import Mcsos.Elf.Acceptance

/-!
# What a hostile image can do

The loader reads an image it cannot trust.  It never reads outside of it: the header is read after
the size has been checked, and the table of program headers after its end has been computed without
wrapping and compared with the size.

When the loader returns an error, the plan should be empty.  Every error in the loop clears it, but
the last check does not, and by then the entry point has been stored.  `plan_load_fail_closed_iff`
says for which images this can be seen.

A plan should not make any address both writable and executable.  No segment is, but segments may
overlap; `plan_load_separates_iff` says which accepted images keep the two apart.
-/

set_option autoImplicit false

namespace Mcsos
namespace Elf

open Program

/-! ## Errors of the checks -/

/-- An error that `m11_elf64_plan_load` returns for an image and a plan that are not null. -/
def Err.Returned (e : Err) : Prop := e ≠ .null ∧ e ≠ .outside

instance (e : Err) : Decidable e.Returned := inferInstanceAs (Decidable (_ ∧ _))

section Checks

variable {σ : Type}

theorem validateUserRange_raises (region : Region) (base size : UInt64) :
    Raises Err.Returned (validateUserRange region base size : EStateM Err σ Unit) :=
  (raises_failIf (by decide)).bind fun _ ↦ (raises_failIf (by decide)).bind fun _ ↦
    (raises_expect (by decide)).bind fun _ ↦ raises_failIf (by decide)

theorem validateIdent_raises (eh : Ehdr) :
    Raises Err.Returned (validateIdent eh : EStateM Err σ Unit) :=
  (raises_failIf (by decide)).bind fun _ ↦ (raises_failIf (by decide)).bind fun _ ↦
    (raises_failIf (by decide)).bind fun _ ↦ raises_failIf (by decide)

theorem validatePhdrBounds_raises (eh : Ehdr) (imageSize : UInt64) :
    Raises Err.Returned (validatePhdrBounds eh imageSize : EStateM Err σ Unit) :=
  (raises_failIf (by decide)).bind fun _ ↦ (raises_failIf (by decide)).bind fun _ ↦
    (raises_failIf (by decide)).bind fun _ ↦ (raises_expect (by decide)).bind fun _ ↦
    raises_failIf (by decide)

theorem validateLoadSegment_raises (ph : Phdr) (imageSize : UInt64) (region : Region) :
    Raises Err.Returned (validateLoadSegment ph imageSize region : EStateM Err σ Unit) :=
  (raises_failIf (by decide)).bind fun _ ↦ (raises_failIf (by decide)).bind fun _ ↦
    (raises_failIf (by decide)).bind fun _ ↦ (raises_failIf (by decide)).bind fun _ ↦
    (raises_failIf (by decide)).bind fun _ ↦ (raises_expect (by decide)).bind fun _ ↦
    (raises_failIf (by decide)).bind fun _ ↦ validateUserRange_raises _ _ _

theorem entryCheck_raises (region : Region) (entry : UInt64) :
    Raises Err.Returned (tryCatch (validateUserRange region entry 1) fun _ ↦ throw .entry :
      EStateM Err σ Unit) := by
  intro s e s' h
  change EStateM.tryCatch _ _ s = _ at h
  rw [EStateM.tryCatch] at h
  cases hx : (validateUserRange region entry 1 : EStateM Err σ Unit) s with
  | ok a s1 => rw [hx] at h; cases h
  | error e1 s1 => rw [hx] at h; cases h; decide

end Checks

/-! ## Where the plan is left -/

/-- `entry`, `segment_count` and every field of every segment are 0. -/
structure Plan.Zeroed (plan : Plan) : Prop where
  entry : plan.entry = 0
  segmentCount : plan.segmentCount = 0
  segments : ∀ i, i < maxLoadSegments → plan.segments i = ⟨0, 0, 0, 0, 0, 0⟩

theorem zeroPlan_zeroed (plan : Plan) : (zeroPlan plan).Zeroed :=
  ⟨rfl, rfl, fun _ hi ↦ if_pos hi⟩

section Loader

variable {image : Image} {region : Region}

/-- An error in the loop clears the plan. -/
theorem planSegment_ends (ph : Phdr) (plan : Plan) :
    Ends (planSegment image region ph) plan (fun _ _ ↦ True)
      fun e plan' ↦ e.Returned ∧ plan'.Zeroed := by
  rw [planSegment]
  split
  · exact ends_pure trivial
  · refine ends_onError (ends_get (ends_failIf (fun _ ↦ ⟨by decide, zeroPlan_zeroed _⟩) fun _ ↦ ?_))
    refine (validateLoadSegment_checks ph image region).ends_bind
      (validateLoadSegment_raises ph _ region) (fun e he ↦ ⟨he, zeroPlan_zeroed _⟩) fun _ ↦ ?_
    exact ends_of_ok rfl trivial

/-- The loader from the loop on, started with nothing but the entry point in the plan. -/
theorem planLoops_ends
    (h : image.ehdr.ePhoff.toNat + phdrSize * image.ehdr.ePhnum.toNat ≤ image.bytes.length)
    {plan : Plan} (hplan : plan.segmentCount = 0) :
    Ends (do
      (List.range image.ehdr.ePhnum.toNat).forM fun i ↦ do
        let ph ← readPhdr image (image.ehdr.phdrOffset i)
        planSegment image region ph
      let plan ← get
      failIf (plan.segmentCount = 0) .segcount : EStateM Err Plan Unit) plan (fun _ _ ↦ True)
      fun e plan' ↦ e.Returned ∧ (plan'.Zeroed ∨ image.loads = [] ∧ plan' = plan) := by
  have hloop := readLoop_eq region h plan
  have hends : Ends (image.phdrs.forM (planSegment image region)) plan (fun _ _ ↦ True)
      fun e plan' ↦ e.Returned ∧ plan'.Zeroed :=
    ends_forM (P := fun _ ↦ True) trivial fun ph _ plan' _ ↦ planSegment_ends ph plan'
  cases hrun : image.phdrs.forM (planSegment image region) plan with
  | error e plan' =>
    obtain ⟨he, hz⟩ := hends.of_eq_error hrun
    exact ends_of_error (bind_of_error (hloop.trans hrun)) ⟨he, .inl hz⟩
  | ok u plan' =>
    obtain ⟨-, -, hfold⟩ := (planSegments_eq_ok (by omega)).1 hrun
    refine ends_bind_ok (hloop.trans hrun) (ends_get ?_)
    by_cases hc : plan'.segmentCount = 0
    · refine ends_of_error (failIf_of_pos hc _ _) ⟨by decide, .inr ?_⟩
      rw [hfold, segmentCount_foldl] at hc
      have hnil : image.loads = [] := List.eq_nil_of_length_eq_zero (by rw [Image.loads]; omega)
      rw [Image.loads] at hnil
      rw [hfold, Image.loads, hnil]
      exact ⟨rfl, rfl⟩
    · exact ends_of_ok (failIf_of_neg hc _ _) trivial

/-- Every way in which loading can fail. -/
theorem planLoad_ends (plan : Plan) :
    Ends (planLoad (some image) region) plan (fun _ _ ↦ True) fun e plan' ↦ e.Returned ∧
      (plan'.Zeroed ∨ HeaderFits image region ∧ image.loads = [] ∧
        plan' = { zeroPlan plan with entry := image.ehdr.eEntry }) := by
  have hzero : ∀ e : Err, e.Returned → e.Returned ∧ ((zeroPlan plan).Zeroed ∨
      HeaderFits image region ∧ image.loads = [] ∧
        zeroPlan plan = { zeroPlan plan with entry := image.ehdr.eEntry }) := fun e he ↦
    ⟨he, .inl (zeroPlan_zeroed plan)⟩
  refine ends_bind_ok (expect_some image _ plan) (ends_modify ?_)
  refine ends_failIf (fun _ ↦ hzero _ (by decide)) fun hsize ↦ ?_
  rw [image.toNat_size, not_lt] at hsize
  refine ends_bind_ok (readEhdr_of_le hsize _) ?_
  refine (validateIdent_checks _).ends_bind (validateIdent_raises _) hzero fun hident ↦ ?_
  refine ends_failIf (fun _ ↦ hzero _ (by decide)) fun htype ↦ ?_
  refine ends_failIf (fun _ ↦ hzero _ (by decide)) fun hmachine ↦ ?_
  refine ends_failIf (fun _ ↦ hzero _ (by decide)) fun hehsize ↦ ?_
  refine (validatePhdrBounds_checks _ _).ends_bind (validatePhdrBounds_raises _ _) hzero
    fun hphdrs ↦ ?_
  refine ((validateUserRange_checks _ _ _).withError _).ends_bind (entryCheck_raises _ _) hzero
    fun hentry ↦ ends_modify ?_
  rw [image.toNat_size] at hphdrs
  have htype : image.ehdr.eType = etExec ∨ image.ehdr.eType = etDyn := by
    by_contra hn
    exact htype ⟨fun h ↦ hn (.inl h), fun h ↦ hn (.inr h)⟩
  refine (planLoops_ends hphdrs.2.2 rfl).mono (fun _ _ h ↦ h) ?_
  rintro e plan' ⟨he, hz | ⟨hnil, hplan⟩⟩
  · exact ⟨he, .inl hz⟩
  · exact ⟨he, .inr ⟨⟨hsize, hident.1, hident.2, htype, not_not.1 hmachine, not_not.1 hehsize,
      hphdrs.1, hphdrs.2.1, hphdrs.2.2, inRegion_one_iff.1 hentry⟩, hnil, hplan⟩⟩

/-- An image with a proper header and nothing to load. -/
theorem planLoad_of_no_loads (h : HeaderFits image region) (hnil : image.loads = [])
    (plan : Plan) : planLoad (some image) region plan =
      .error .segcount { zeroPlan plan with entry := image.ehdr.eEntry } := by
  have hsize : ¬ image.size.toNat < ehdrSize := by
    rw [image.toNat_size, not_lt]
    exact h.size
  have hphdrs := h.phdrs_in_image
  rw [← image.toNat_size] at hphdrs
  rw [planLoad, bind_of_ok (expect_some image _ plan), bind_of_ok (modify_apply zeroPlan plan),
    bind_of_ok (failIf_of_neg hsize _ _), bind_of_ok (readEhdr_of_le h.size _),
    bind_of_ok ((validateIdent_checks _ _).1 ⟨h.ident, h.version⟩),
    bind_of_ok (failIf_of_neg (fun hn ↦ h.type.elim hn.1 hn.2) _ _),
    bind_of_ok (failIf_of_neg (not_not.2 h.machine) _ _),
    bind_of_ok (failIf_of_neg (not_not.2 h.ehsize) _ _),
    bind_of_ok ((validatePhdrBounds_checks _ _ _).1 ⟨h.phnum_pos, h.phentsize, hphdrs⟩),
    bind_of_ok (((validateUserRange_checks _ _ _).withError _ _).1
      (inRegion_one_iff.2 h.entry_in_region)),
    bind_of_ok (modify_apply _ _)]
  have hloop : image.phdrs.forM (planSegment image region)
      { zeroPlan plan with entry := image.ehdr.eEntry } =
      .ok ⟨⟩ { zeroPlan plan with entry := image.ehdr.eEntry } := by
    rw [planSegments_eq_ok (Nat.zero_le _), ← Image.loads, hnil]
    exact ⟨Nat.zero_le _, fun ph hph ↦ absurd hph List.not_mem_nil, rfl⟩
  rw [bind_of_ok ((readLoop_eq region h.phdrs_in_image _).trans hloop), bind_of_ok (get_apply _)]
  exact failIf_of_pos rfl _ _

end Loader

/-! ## Clearing the plan -/

/-- **When a failed load leaves an empty plan.**  The exception is an image with a proper header, an
entry point other than 0 and nothing to load. -/
theorem plan_load_fail_closed_iff (image : Option Image) (region : Region) (plan : Plan) :
    (∀ e, errorOf (planLoad image region) plan = some e → e ≠ .null →
      (after (planLoad image region) plan).Zeroed) ↔
    ¬ ∃ img, image = some img ∧ HeaderFits img region ∧ img.loads = [] ∧ img.ehdr.eEntry ≠ 0 := by
  constructor
  · rintro hclosed ⟨img, rfl, hfits, hnil, hentry⟩
    have hrun := planLoad_of_no_loads hfits hnil plan
    have hzero := hclosed .segcount (errorOf_of_error hrun) (by decide)
    rw [after_of_error hrun] at hzero
    exact hentry hzero.entry
  · intro hnone e he hnull
    cases image with
    | none => exact absurd (Option.some.inj he).symm hnull
    | some img =>
      cases hrun : planLoad (some img) region plan with
      | ok u plan' =>
        rw [errorOf_of_ok hrun] at he
        cases he
      | error e' plan' =>
        rw [after_of_error hrun]
        obtain ⟨-, hz | ⟨hfits, hnil, rfl⟩⟩ := (planLoad_ends plan).of_eq_error hrun
        · exact hz
        · have hentry : img.ehdr.eEntry = 0 :=
            by_contra fun hne ↦ hnone ⟨img, rfl, hfits, hnil, hne⟩
          exact ⟨hentry, rfl, (zeroPlan_zeroed plan).segments⟩

/-- A part of the user space. -/
def userRegion : Region := ⟨0x400000, 0x800000⟩

/-- The plan before the call. -/
def emptyPlan : Plan := ⟨0, 0, fun _ ↦ ⟨0, 0, 0, 0, 0, 0⟩⟩

/-- A header and one program header of type `PT_NULL`. -/
def unloadableImage : Image where
  bytes := smallImage.bytes.set 64 0
  size_lt := by decide

/-- **A failed load leaves an entry point behind.** -/
theorem failed_load_leaves_entry :
    errorOf (planLoad (some unloadableImage) userRegion) emptyPlan = some .segcount ∧
    (after (planLoad (some unloadableImage) userRegion) emptyPlan).entry = 0x400078 := by
  decide +kernel

/-! ## Staying inside the image -/

/-- The loop over the program headers with the 16-bit counter it has in C, as far as `fuel` tests of
its condition take it.  It returns whether it has come to its end. -/
def headerLoop (image : Image) (region : Region) (eh : Ehdr) : ℕ → UInt16 → EStateM Err Plan Bool
  | 0, _ => pure false
  | fuel + 1, i =>
    if i < eh.ePhnum then do
      let ph ← readPhdr image (eh.phdrOffset i.toNat)
      planSegment image region ph
      headerLoop image region eh fuel (i + 1)
    else pure true

/-- The counter does not wrap, so that the loop visits the headers from `i` on and stops. -/
theorem headerLoop_eq {image : Image} {region : Region} {eh : Ehdr} {fuel : ℕ} {i : UInt16}
    (hi : i.toNat ≤ eh.ePhnum.toNat) (hfuel : eh.ePhnum.toNat - i.toNat < fuel) (plan : Plan) :
    headerLoop image region eh fuel i plan =
      ((List.range' i.toNat (eh.ePhnum.toNat - i.toNat)).forM (fun i ↦ do
        let ph ← readPhdr image (eh.phdrOffset i)
        planSegment image region ph) >>= fun _ ↦ pure true) plan := by
  induction fuel generalizing i plan with
  | zero => omega
  | succ fuel ih =>
    rw [headerLoop]
    by_cases hlt : i.toNat < eh.ePhnum.toNat
    · have hnext : (i + 1).toNat = i.toNat + 1 := by
        have := eh.ePhnum.toNat_lt
        rw [UInt16.toNat_add]
        exact Nat.mod_eq_of_lt (by simp only [UInt16.reduceToNat]; omega)
      rw [if_pos (UInt16.lt_iff_toNat_lt.2 hlt),
        show eh.ePhnum.toNat - i.toNat = eh.ePhnum.toNat - (i + 1).toNat + 1 by omega,
        List.range'_succ, ← hnext]
      show _ = (((readPhdr image (eh.phdrOffset i.toNat) >>= planSegment image region) >>=
        fun _ ↦ List.forM _ _) >>= fun _ ↦ pure true) plan
      rw [bind_assoc, bind_assoc]
      refine bind_congr_at rfl fun ph plan1 _ ↦ bind_congr_at rfl fun _ plan2 _ ↦ ?_
      exact ih (by omega) (by omega) plan2
    · rw [if_neg (mt UInt16.lt_iff_toNat_lt.1 hlt), Nat.sub_eq_zero_of_le (not_lt.1 hlt)]
      rfl

/-- **The loader stays inside the image.**  No header it reads reaches beyond the image, and the
loop over the program headers, whose counter has 16 bits, ends after `e_phnum` rounds. -/
theorem plan_load_reads_inside (image : Option Image) (region : Region) (plan : Plan) :
    errorOf (planLoad image region) plan ≠ some .outside ∧
    ∀ img, image = some img → ∀ plan', headerLoop img region img.ehdr (img.ehdr.ePhnum.toNat + 1) 0
      plan' = ((List.range img.ehdr.ePhnum.toNat).forM (fun i ↦ do
        let ph ← readPhdr img (img.ehdr.phdrOffset i)
        planSegment img region ph) >>= fun _ ↦ pure true) plan' := by
  constructor
  · intro he
    cases image with
    | none => cases he
    | some img =>
      cases hrun : planLoad (some img) region plan with
      | ok u plan' =>
        rw [errorOf_of_ok hrun] at he
        cases he
      | error e plan' =>
        rw [errorOf_of_error hrun] at he
        exact ((planLoad_ends plan).of_eq_error hrun).1.2 (Option.some.inj he)
  · intro img _ plan'
    rw [headerLoop_eq (Nat.zero_le _) (Nat.lt_succ_of_le (Nat.sub_le _ _)), List.range_eq_range']
    rfl

/-! ## Writable and executable addresses -/

/-- The addresses `[vaddr, vaddr + memsz)`. -/
def Segment.Covers (seg : Segment) (a : ℕ) : Prop :=
  seg.vaddr.toNat ≤ a ∧ a < seg.vaddr.toNat + seg.memsz.toNat

/-- No address is covered by a writable and by an executable segment. -/
def Plan.Separates (plan : Plan) : Prop :=
  ∀ a, ∀ w ∈ plan.planned, ∀ x ∈ plan.planned, w.flags &&& pfW ≠ 0 → x.flags &&& pfX ≠ 0 →
    ¬ (w.Covers a ∧ x.Covers a)

/-- **When a plan keeps writable and executable memory apart.**  The segments of the image have to
be disjoint wherever one is writable and the other executable; the loader does not check it. -/
theorem plan_load_separates_iff {image : Image} {region : Region} {plan : Plan}
    (h : errorOf (planLoad (some image) region) plan = none) :
    (after (planLoad (some image) region) plan).Separates ↔
      ∀ w ∈ image.loads, ∀ x ∈ image.loads, w.pFlags &&& pfW ≠ 0 → x.pFlags &&& pfX ≠ 0 →
        w.pVaddr.toNat + w.pMemsz.toNat ≤ x.pVaddr.toNat ∨
          x.pVaddr.toNat + x.pMemsz.toNat ≤ w.pVaddr.toNat := by
  obtain ⟨u, plan', hrun⟩ := errorOf_eq_none.1 h
  obtain ⟨hwf, rfl⟩ := planLoad_eq_ok.1 hrun
  have hplanned : (image.plan plan).planned = image.loads.map segmentOf := planned_foldl _ _
  rw [after_of_ok hrun, Plan.Separates, hplanned]
  simp only [List.forall_mem_map]
  constructor
  · intro hsep w hw x hx hW hX
    have hposw := (hwf.loadable w hw).in_region.pos
    have hposx := (hwf.loadable x hx).in_region.pos
    -- the larger of the two first addresses is in both segments, unless they are disjoint
    by_contra hmeet
    refine hsep (max w.pVaddr.toNat x.pVaddr.toNat) w hw x hx hW hX ⟨⟨?_, ?_⟩, ?_, ?_⟩ <;>
      simp only [segmentOf] <;> omega
  · rintro hdisj a w hw x hx hW hX ⟨⟨h1, h2⟩, h3, h4⟩
    have := hdisj w hw x hx hW hX
    simp only [segmentOf] at h1 h2 h3 h4
    omega

/-- A header and two program headers, which map the same page readable and writable, and readable
and executable. -/
def overlappingImage : Image where
  bytes := (smallImage.bytes.set 56 2).set 68 6 ++ smallImage.bytes.drop 64
  size_lt := by decide +kernel

/-- The same with the writable segment on the next page. -/
def disjointImage : Image where
  bytes := overlappingImage.bytes.set 81 0x10
  size_lt := by decide +kernel

/-- A writable segment behind an executable one. -/
theorem plan_load_separates_disjoint_image :
    (after (planLoad (some disjointImage) userRegion) emptyPlan).planned =
      [⟨0, 0x401000, 120, 4096, 4096, 6⟩, ⟨0, 0x400000, 120, 4096, 4096, 5⟩] ∧
    (after (planLoad (some disjointImage) userRegion) emptyPlan).Separates := by
  refine ⟨by decide +kernel, (plan_load_separates_iff (by decide +kernel)).2 ?_⟩
  decide +kernel

/-- **An address can be writable and executable.** -/
theorem planned_writable_and_executable :
    errorOf (planLoad (some overlappingImage) userRegion) emptyPlan = none ∧
    (after (planLoad (some overlappingImage) userRegion) emptyPlan).planned =
      [⟨0, 0x400000, 120, 4096, 4096, 6⟩, ⟨0, 0x400000, 120, 4096, 4096, 5⟩] ∧
    ¬ (after (planLoad (some overlappingImage) userRegion) emptyPlan).Separates := by
  have hplanned : (after (planLoad (some overlappingImage) userRegion) emptyPlan).planned =
      [⟨0, 0x400000, 120, 4096, 4096, 6⟩, ⟨0, 0x400000, 120, 4096, 4096, 5⟩] := by
    decide +kernel
  refine ⟨by decide +kernel, hplanned, fun hsep ↦ ?_⟩
  rw [Plan.Separates, hplanned] at hsep
  exact hsep 0x400000 _ List.mem_cons_self _ (List.mem_cons_of_mem _ List.mem_cons_self)
    (by decide) (by decide) ⟨⟨by decide, by decide⟩, by decide, by decide⟩

end Elf
end Mcsos
