import Mcsos.Elf.Loader
import Mcsos.Lib.Outcome

/-!
# What the ELF loader accepts

`WellFormed` says what an image has to look like to be loadable, in terms of the integers its
fields stand for: nothing in it wraps.  The loader decides exactly this, although it only ever adds
modulo `2 ^ 64`, and the plan it leaves behind lists the loadable program headers in the order of
the table.

The checks of the loader are `Checks` of their arithmetic meaning.  What remains is the loop over
the program headers, whose invariant is that the plan holds the loadable headers seen so far.
-/

set_option autoImplicit false

namespace Mcsos
namespace Elf

open Program

/-! ## Well-formed images -/

/-- The program headers, in the order of the table. -/
def Image.phdrs (image : Image) : List Phdr :=
  (List.range image.ehdr.ePhnum.toNat).map fun i ↦ image.phdrAt (image.ehdr.phdrOffset i)

/-- The program headers of type `PT_LOAD`. -/
def Image.loads (image : Image) : List Phdr :=
  image.phdrs.filter fun ph ↦ ph.pType = ptLoad

/-- What is asked of the addresses `[base, base + size)`. -/
structure InRegion (region : Region) (base size : ℕ) : Prop where
  pos : 0 < size
  base_le : region.base.toNat ≤ base
  le_limit : base + size ≤ region.limit.toNat

/-- A `PT_LOAD` header that can be loaded. -/
structure Loadable (image : Image) (region : Region) (ph : Phdr) : Prop where
  flags_lt : ph.pFlags.toNat < 2 ^ 3
  not_writable_and_executable : ¬ (ph.pFlags &&& pfW ≠ 0 ∧ ph.pFlags &&& pfX ≠ 0)
  filesz_le : ph.pFilesz.toNat ≤ ph.pMemsz.toNat
  align : ph.pAlign.toNat = 0 ∨ ph.pAlign.toNat = 1 ∨
    (∃ k, ph.pAlign.toNat = 2 ^ k) ∧
      ph.pVaddr.toNat % ph.pAlign.toNat = ph.pOffset.toNat % ph.pAlign.toNat
  in_image : ph.pOffset.toNat + ph.pFilesz.toNat ≤ image.bytes.length
  in_region : InRegion region ph.pVaddr.toNat ph.pMemsz.toNat

/-- Everything the loader checks before it looks at the program headers. -/
structure HeaderFits (image : Image) (region : Region) : Prop where
  size : ehdrSize ≤ image.bytes.length
  ident : [image.byte 0, image.byte 1, image.byte 2, image.byte 3, image.byte 4, image.byte 5,
    image.byte 6] = [0x7f, 0x45, 0x4c, 0x46, 2, 1, 1]
  version : image.ehdr.eVersion = 1
  type : image.ehdr.eType = etExec ∨ image.ehdr.eType = etDyn
  machine : image.ehdr.eMachine = emX8664
  ehsize : image.ehdr.eEhsize.toNat = ehdrSize
  phnum_pos : 0 < image.ehdr.ePhnum.toNat
  phentsize : image.ehdr.ePhentsize.toNat = phdrSize
  phdrs_in_image :
    image.ehdr.ePhoff.toNat + phdrSize * image.ehdr.ePhnum.toNat ≤ image.bytes.length
  entry_in_region : region.base.toNat ≤ image.ehdr.eEntry.toNat ∧
    image.ehdr.eEntry.toNat < region.limit.toNat

/-- An image that can be loaded into a region. -/
structure WellFormed (image : Image) (region : Region) : Prop extends HeaderFits image region where
  loads_pos : 1 ≤ image.loads.length
  loads_le : image.loads.length ≤ 8
  loadable : ∀ ph ∈ image.loads, Loadable image region ph

/-! ## The checks mean what they should -/

theorem addOverflow_eq_some {a b r : UInt64} :
    addOverflow a b = some r ↔ a.toNat + b.toNat < 2 ^ 64 ∧ r.toNat = a.toNat + b.toNat := by
  rw [addOverflow]
  have hsum := UInt64.toNat_add a b
  have ha := a.toNat_lt
  have hb := b.toNat_lt
  by_cases h : a + b < a
  · rw [if_pos h]
    rw [UInt64.lt_iff_toNat_lt, hsum] at h
    simp only [reduceCtorEq, false_iff]
    omega
  · rw [if_neg h, Option.some.injEq, ← UInt64.toNat_inj, hsum]
    rw [UInt64.lt_iff_toNat_lt, hsum] at h
    omega

theorem isPowerOfTwo_iff {v : UInt64} : isPowerOfTwo v = true ↔ ∃ k, v.toNat = 2 ^ k := by
  have key : (v.toNat ≠ 0 ∧ v.toNat &&& (v.toNat - 1) = 0) ↔ ∃ k, v.toNat = 2 ^ k :=
    Nat.ne_zero_and_sub_one_eq_zero_iff_isPowerOfTwo
  rw [← key, isPowerOfTwo, decide_eq_true_iff, ne_eq, ne_eq, ← UInt64.toNat_inj, ← UInt64.toNat_inj,
    UInt64.toNat_and]
  refine and_congr_right fun hv ↦ ?_
  have hpos : 0 < v.toNat := Nat.pos_of_ne_zero hv
  rw [UInt64.toNat_sub_of_le v 1 (UInt64.le_iff_toNat_le.2 hpos)]
  rfl

theorem and_not_eq_zero {w : ℕ} {x m : BitVec w} : x &&& ~~~m = 0#w ↔ x &&& m = x := by
  constructor
  · intro h
    have hall : x = x &&& (m ||| ~~~m) := by simp
    rw [BitVec.and_or_distrib_left, h, BitVec.or_zero] at hall
    exact hall.symm
  · intro h
    rw [← h, BitVec.and_assoc, BitVec.and_not_self]
    exact BitVec.and_zero

/-- No flag but the lowest three. -/
theorem and_not_rwx_eq_zero {f : UInt32} :
    f &&& ~~~(pfR ||| pfW ||| pfX) = 0 ↔ f.toNat < 2 ^ 3 := by
  have hmask : pfR ||| pfW ||| pfX = 7 := by decide
  have hlow : (f &&& 7).toNat = f.toNat % 2 ^ 3 := by
    rw [UInt32.toNat_and]
    exact Nat.and_two_pow_sub_one_eq_mod f.toNat 3
  have hsplit : f &&& ~~~7 = 0 ↔ f &&& 7 = f := by
    rw [← UInt32.toBitVec_inj, ← UInt32.toBitVec_inj]
    exact and_not_eq_zero
  rw [hmask, hsplit, ← UInt32.toNat_inj, hlow]
  exact Nat.mod_eq_iff_lt (by decide)

theorem Image.toNat_size (image : Image) : image.size.toNat = image.bytes.length := by
  rw [Image.size, UInt64.toNat_ofNat', Nat.mod_eq_of_lt image.size_lt]

section Checks

variable {σ : Type}

theorem validateUserRange_checks (region : Region) (base size : UInt64) :
    Checks (validateUserRange region base size : EStateM Err σ Unit)
      (InRegion region base.toNat size.toNat) := by
  refine ((checks_failIf _ _).andThen fun _ ↦ (checks_failIf _ _).andThen fun _ ↦
    checks_expect fun _ _ ↦ checks_failIf _ _).congr ?_
  have hlimit := region.limit.toNat_lt
  have hsize : size = 0 ↔ size.toNat = 0 := UInt64.toNat_inj.symm
  simp only [addOverflow_eq_some, UInt64.le_iff_toNat_le, UInt64.lt_iff_toNat_lt, hsize]
  constructor
  · rintro ⟨h1, h2, stop, ⟨h3, h4⟩, h5⟩
    constructor <;> omega
  · rintro ⟨h1, h2, h3⟩
    have hsum : (base + size).toNat = base.toNat + size.toNat := by
      rw [UInt64.toNat_add, Nat.mod_eq_of_lt (by omega)]
    exact ⟨by omega, by omega, base + size, ⟨by omega, hsum⟩, by omega⟩

theorem validateIdent_checks (eh : Ehdr) :
    Checks (validateIdent eh : EStateM Err σ Unit)
      ([eh.eIdent 0, eh.eIdent 1, eh.eIdent 2, eh.eIdent 3, eh.eIdent 4, eh.eIdent 5, eh.eIdent 6]
        = [0x7f, 0x45, 0x4c, 0x46, 2, 1, 1] ∧ eh.eVersion = 1) := by
  refine ((checks_failIf _ _).andThen fun _ ↦ (checks_failIf _ _).andThen fun _ ↦
    (checks_failIf _ _).andThen fun _ ↦ checks_failIf _ _).congr ?_
  have h6 : (eh.eIdent 6).toNat = evCurrent ↔ eh.eIdent 6 = 1 :=
    UInt8.toNat_inj (b := 1)
  have hversion : eh.eVersion.toNat = evCurrent ↔ eh.eVersion = 1 :=
    UInt32.toNat_inj (b := 1)
  simp only [ne_eq, h6, hversion, List.cons.injEq, and_true, not_or, not_not, and_assoc]

theorem validatePhdrBounds_checks (eh : Ehdr) (imageSize : UInt64) :
    Checks (validatePhdrBounds eh imageSize : EStateM Err σ Unit)
      (0 < eh.ePhnum.toNat ∧ eh.ePhentsize.toNat = phdrSize ∧
        eh.ePhoff.toNat + phdrSize * eh.ePhnum.toNat ≤ imageSize.toNat) := by
  refine ((checks_failIf _ _).andThen fun _ ↦ (checks_failIf _ _).andThen fun _ ↦
    (checks_failIf _ _).andThen fun _ ↦ checks_expect fun _ _ ↦ checks_failIf _ _).congr ?_
  have hsize := imageSize.toNat_lt
  have hphnum := eh.ePhnum.toNat_lt
  have hphnum0 : eh.ePhnum = 0 ↔ eh.ePhnum.toNat = 0 := UInt16.toNat_inj.symm
  -- the size of the table does not overflow, so that dividing it gives the factor back
  have hbytes : eh.ePhentsize.toNat = phdrSize →
      (eh.ePhentsize.toUInt64 * eh.ePhnum.toUInt64).toNat = phdrSize * eh.ePhnum.toNat := by
    intro h
    rw [UInt64.toNat_mul, UInt16.toNat_toUInt64, UInt16.toNat_toUInt64, h]
    exact Nat.mod_eq_of_lt (by dsimp only [phdrSize]; omega)
  have hdiv : eh.ePhnum.toNat ≠ 0 → eh.ePhentsize.toNat = phdrSize →
      eh.ePhentsize.toUInt64 * eh.ePhnum.toUInt64 / eh.ePhnum.toUInt64
        = eh.ePhentsize.toUInt64 := by
    intro h0 h
    rw [← UInt64.toNat_inj, UInt64.toNat_div, hbytes h, UInt16.toNat_toUInt64,
      UInt16.toNat_toUInt64, h, Nat.mul_div_cancel _ (Nat.pos_of_ne_zero h0)]
  simp only [addOverflow_eq_some, UInt64.lt_iff_toNat_lt, hphnum0]
  constructor
  · rintro ⟨h1, h2, h3, stop, ⟨h4, h5⟩, h6⟩
    have h2 := not_not.1 h2
    have := hbytes h2
    exact ⟨by omega, h2, by omega⟩
  · rintro ⟨h1, h2, h3⟩
    have hmul := hbytes h2
    have hsum : (eh.ePhoff + eh.ePhentsize.toUInt64 * eh.ePhnum.toUInt64).toNat
        = eh.ePhoff.toNat + (eh.ePhentsize.toUInt64 * eh.ePhnum.toUInt64).toNat := by
      rw [UInt64.toNat_add, Nat.mod_eq_of_lt (by omega)]
    exact ⟨by omega, not_not.2 h2, fun h ↦ h.2 (hdiv (mt hphnum0.2 h.1) h2), _, ⟨by omega, hsum⟩,
      by omega⟩

theorem align_ok_iff {ph : Phdr} :
    (¬ (ph.pAlign ≠ 0 ∧ ph.pAlign ≠ 1 ∧ !isPowerOfTwo ph.pAlign) ∧
      ¬ (ph.pAlign ≠ 0 ∧ ph.pAlign ≠ 1 ∧ ph.pVaddr % ph.pAlign ≠ ph.pOffset % ph.pAlign)) ↔
    (ph.pAlign.toNat = 0 ∨ ph.pAlign.toNat = 1 ∨ (∃ k, ph.pAlign.toNat = 2 ^ k) ∧
      ph.pVaddr.toNat % ph.pAlign.toNat = ph.pOffset.toNat % ph.pAlign.toNat) := by
  have h0 : ph.pAlign = 0 ↔ ph.pAlign.toNat = 0 := UInt64.toNat_inj.symm
  have h1 : ph.pAlign = 1 ↔ ph.pAlign.toNat = 1 := UInt64.toNat_inj.symm
  have hmod : ph.pVaddr % ph.pAlign = ph.pOffset % ph.pAlign ↔
      ph.pVaddr.toNat % ph.pAlign.toNat = ph.pOffset.toNat % ph.pAlign.toNat := by
    rw [← UInt64.toNat_inj, UInt64.toNat_mod, UInt64.toNat_mod]
  rw [← isPowerOfTwo_iff, ne_eq, ne_eq, ne_eq, hmod, h0, h1, Bool.not_eq_true']
  by_cases ha0 : ph.pAlign.toNat = 0
  · simp [ha0]
  by_cases ha1 : ph.pAlign.toNat = 1
  · simp [ha1]
  simp [ha0, ha1]

theorem validateLoadSegment_checks (ph : Phdr) (image : Image) (region : Region) :
    Checks (validateLoadSegment ph image.size region : EStateM Err σ Unit)
      (Loadable image region ph) := by
  refine ((checks_failIf _ _).andThen fun _ ↦ (checks_failIf _ _).andThen fun _ ↦
    (checks_failIf _ _).andThen fun _ ↦ (checks_failIf _ _).andThen fun _ ↦
    (checks_failIf _ _).andThen fun _ ↦ checks_expect fun _ _ ↦ (checks_failIf _ _).andThen fun _ ↦
    validateUserRange_checks _ _ _).congr ?_
  have hsize := image.toNat_size
  have hlt := image.size_lt
  simp only [addOverflow_eq_some, UInt64.lt_iff_toNat_lt, ne_eq, not_not, and_not_rwx_eq_zero,
    hsize]
  constructor
  · rintro ⟨h1, h2, h3, h4, h5, stop, ⟨h6, h7⟩, h8, h9⟩
    exact ⟨h1, h2, by omega, align_ok_iff.1 ⟨h4, h5⟩, by omega, h9⟩
  · rintro ⟨h1, h2, h3, h4, h5, h6⟩
    obtain ⟨h4, h4'⟩ := align_ok_iff.2 h4
    have hsum : (ph.pOffset + ph.pFilesz).toNat = ph.pOffset.toNat + ph.pFilesz.toNat := by
      rw [UInt64.toNat_add, Nat.mod_eq_of_lt (by omega)]
    exact ⟨h1, h2, by omega, h4, h4', _, ⟨by omega, hsum⟩, by omega, h6⟩

end Checks

/-! ## The loop over the program headers -/

/-- The segments a plan lists. -/
def Plan.planned (plan : Plan) : List Segment := (List.range plan.segmentCount).map plan.segments

theorem planned_appendSegment (plan : Plan) (ph : Phdr) :
    (appendSegment plan ph).planned = plan.planned ++ [segmentOf ph] := by
  rw [Plan.planned, Plan.planned, appendSegment, List.range_succ, List.map_append]
  congr 1
  · refine List.map_congr_left fun i hi ↦ ?_
    exact Function.update_of_ne (List.mem_range.1 hi).ne _ _
  · simp

theorem planned_foldl (l : List Phdr) (plan : Plan) :
    (l.foldl appendSegment plan).planned = plan.planned ++ l.map segmentOf := by
  induction l generalizing plan with
  | nil => simp
  | cons ph l ih => rw [List.foldl_cons, ih, planned_appendSegment]; simp

theorem segmentCount_foldl (l : List Phdr) (plan : Plan) :
    (l.foldl appendSegment plan).segmentCount = plan.segmentCount + l.length := by
  induction l generalizing plan with
  | nil => rfl
  | cons ph l ih =>
    rw [List.foldl_cons, ih, List.length_cons]
    show plan.segmentCount + 1 + _ = _
    omega

theorem entry_foldl (l : List Phdr) (plan : Plan) :
    (l.foldl appendSegment plan).entry = plan.entry := by
  induction l generalizing plan with
  | nil => rfl
  | cons ph l ih => exact ih _

section Loop

variable {image : Image} {region : Region}

/-- A header that is not to be loaded is skipped. -/
theorem planSegment_of_ne {ph : Phdr} (h : ph.pType ≠ ptLoad) (plan : Plan) :
    planSegment image region ph plan = .ok ⟨⟩ plan := by
  rw [planSegment, if_pos h]
  rfl

theorem planSegment_eq_ok {ph : Phdr} (h : ph.pType = ptLoad) {plan plan' : Plan} :
    planSegment image region ph plan = .ok ⟨⟩ plan' ↔
      plan.segmentCount < 8 ∧ Loadable image region ph ∧ plan' = appendSegment plan ph := by
  rw [planSegment, if_neg (not_not.2 h), onError_eq_ok, bind_of_ok (get_apply plan),
    (checks_failIf _ _).bind_eq_ok, (validateLoadSegment_checks ph image region).bind_eq_ok, not_le]
  refine and_congr_right fun _ ↦ and_congr_right fun _ ↦ ?_
  exact ⟨fun h ↦ (EStateM.Result.ok.inj h).2.symm, fun h ↦ by rw [h]; rfl⟩

/-- The loop succeeds exactly when every loadable header is fine and there is room for all of
them. -/
theorem planSegments_eq_ok {l : List Phdr} {plan plan' : Plan} (hplan : plan.segmentCount ≤ 8) :
    l.forM (planSegment image region) plan = .ok ⟨⟩ plan' ↔
      plan.segmentCount + (l.filter fun ph ↦ ph.pType = ptLoad).length ≤ 8 ∧
      (∀ ph ∈ l.filter fun ph ↦ ph.pType = ptLoad, Loadable image region ph) ∧
      plan' = (l.filter fun ph ↦ ph.pType = ptLoad).foldl appendSegment plan := by
  induction l generalizing plan with
  | nil =>
    simp only [List.filter_nil, List.length_nil, List.foldl_nil, List.not_mem_nil, false_implies,
      implies_true, true_and, Nat.add_zero, hplan]
    exact ⟨fun h ↦ (EStateM.Result.ok.inj h).2.symm, fun h ↦ by rw [h]; rfl⟩
  | cons ph l ih =>
    show (planSegment image region ph >>= fun _ ↦ l.forM (planSegment image region)) plan = _ ↔ _
    by_cases h : ph.pType = ptLoad
    · have hcount : (appendSegment plan ph).segmentCount = plan.segmentCount + 1 := rfl
      rw [List.filter_cons_of_pos (by simpa using h), List.length_cons, List.foldl_cons,
        List.forall_mem_cons, bind_eq_ok]
      constructor
      · rintro ⟨_, plan1, h1, h2⟩
        obtain ⟨hroom, hload, rfl⟩ := (planSegment_eq_ok h).1 h1
        obtain ⟨hle, hloads, hfold⟩ := (ih (by omega)).1 h2
        exact ⟨by omega, ⟨hload, hloads⟩, hfold⟩
      · rintro ⟨hle, ⟨hload, hloads⟩, hfold⟩
        exact ⟨⟨⟩, _, (planSegment_eq_ok h).2 ⟨by omega, hload, rfl⟩,
          (ih (by omega)).2 ⟨by omega, hloads, hfold⟩⟩
    · rw [bind_of_ok (planSegment_of_ne h plan), ih hplan,
        List.filter_cons_of_neg (by simpa using h)]

end Loop

/-! ## The loader -/

/-- Once the table lies inside the image, every header of it can be read. -/
theorem readLoop_eq {image : Image} (region : Region)
    (h : image.ehdr.ePhoff.toNat + phdrSize * image.ehdr.ePhnum.toNat ≤ image.bytes.length)
    (plan : Plan) :
    ((List.range image.ehdr.ePhnum.toNat).forM fun i ↦ do
      let ph ← readPhdr image (image.ehdr.phdrOffset i)
      planSegment image region ph) plan =
    image.phdrs.forM (planSegment image region) plan := by
  rw [Image.phdrs, forM_map]
  refine forM_congr (fun i hi s ↦ ?_) plan
  have hi : phdrSize * (i + 1) ≤ phdrSize * image.ehdr.ePhnum.toNat :=
    Nat.mul_le_mul_left _ (List.mem_range.1 hi)
  have hin : ¬ image.bytes.length < image.ehdr.phdrOffset i + phdrSize := by
    rw [Nat.mul_add, Nat.mul_one] at hi
    rw [Ehdr.phdrOffset]
    omega
  rw [readPhdr, bind_assoc, bind_of_ok (failIf_of_neg hin _ s)]
  rfl

/-- The plan of an image that is accepted. -/
def Image.plan (image : Image) (plan : Plan) : Plan :=
  image.loads.foldl appendSegment { zeroPlan plan with entry := image.ehdr.eEntry }

theorem readEhdr_of_le {image : Image} (h : ehdrSize ≤ image.bytes.length) (plan : Plan) :
    readEhdr image plan = .ok image.ehdr plan := by
  rw [readEhdr, bind_of_ok (failIf_of_neg (not_lt.2 h) _ plan)]
  rfl

/-- The loader from the loop on. -/
theorem planLoops_eq_ok {image : Image} {region : Region} {plan plan' : Plan}
    (h : image.ehdr.ePhoff.toNat + phdrSize * image.ehdr.ePhnum.toNat ≤ image.bytes.length)
    (hplan : plan.segmentCount = 0) :
    (do
      (List.range image.ehdr.ePhnum.toNat).forM fun i ↦ do
        let ph ← readPhdr image (image.ehdr.phdrOffset i)
        planSegment image region ph
      let plan ← get
      failIf (plan.segmentCount = 0) .segcount : EStateM Err Plan Unit) plan = .ok ⟨⟩ plan' ↔
    1 ≤ image.loads.length ∧ image.loads.length ≤ 8 ∧
      (∀ ph ∈ image.loads, Loadable image region ph) ∧
      plan' = image.loads.foldl appendSegment plan := by
  rw [bind_eq_ok]
  constructor
  · rintro ⟨_, plan1, hloop, hcheck⟩
    rw [readLoop_eq region h, planSegments_eq_ok (by omega)] at hloop
    obtain ⟨hle, hloads, hfold⟩ := hloop
    rw [bind_of_ok (get_apply plan1), (checks_failIf _ _).eq_ok, hfold,
      segmentCount_foldl] at hcheck
    obtain ⟨hcount, rfl⟩ := hcheck
    exact ⟨by rw [Image.loads]; omega, by rw [Image.loads]; omega, hloads, rfl⟩
  · rintro ⟨hpos, hle, hloads, rfl⟩
    refine ⟨⟨⟩, image.loads.foldl appendSegment plan, ?_, ?_⟩
    · rw [readLoop_eq region h, planSegments_eq_ok (by omega)]
      exact ⟨by rw [hplan, Nat.zero_add]; exact hle, hloads, rfl⟩
    · rw [bind_of_ok (get_apply _), (checks_failIf _ _).eq_ok, segmentCount_foldl]
      exact ⟨by omega, rfl⟩

theorem inRegion_one_iff {region : Region} {a : ℕ} :
    InRegion region a (1 : UInt64).toNat ↔ region.base.toNat ≤ a ∧ a < region.limit.toNat :=
  ⟨fun h ↦ ⟨h.base_le, h.le_limit⟩, fun h ↦ ⟨Nat.one_pos, h.1, h.2⟩⟩

theorem planLoad_eq_ok {image : Image} {region : Region} {plan plan' : Plan} :
    planLoad (some image) region plan = .ok ⟨⟩ plan' ↔
      WellFormed image region ∧ plan' = image.plan plan := by
  rw [planLoad, bind_of_ok (expect_some image _ plan), bind_of_ok (modify_apply zeroPlan plan),
    (checks_failIf _ _).bind_eq_ok, image.toNat_size, not_lt]
  constructor
  · rintro ⟨hsize, h⟩
    rw [bind_of_ok (readEhdr_of_le hsize _), (validateIdent_checks _).bind_eq_ok,
      (checks_failIf _ _).bind_eq_ok, (checks_failIf _ _).bind_eq_ok,
      (checks_failIf _ _).bind_eq_ok, (validatePhdrBounds_checks _ _).bind_eq_ok,
      ((validateUserRange_checks _ _ _).withError _).bind_eq_ok,
      bind_of_ok (modify_apply _ _), inRegion_one_iff, image.toNat_size] at h
    obtain ⟨hident, htype, hmachine, hehsize, hphdrs, hentry, h⟩ := h
    obtain ⟨hpos, hle, hloads, hplan⟩ := (planLoops_eq_ok hphdrs.2.2 rfl).1 h
    have htype : image.ehdr.eType = etExec ∨ image.ehdr.eType = etDyn := by
      by_contra hn
      exact htype ⟨fun h ↦ hn (.inl h), fun h ↦ hn (.inr h)⟩
    have hfits : HeaderFits image region := ⟨hsize, hident.1, hident.2, htype, not_not.1 hmachine,
      not_not.1 hehsize, hphdrs.1, hphdrs.2.1, hphdrs.2.2, hentry⟩
    exact ⟨⟨hfits, hpos, hle, hloads⟩, hplan⟩
  · rintro ⟨hwf, hplan⟩
    refine ⟨hwf.size, ?_⟩
    rw [bind_of_ok (readEhdr_of_le hwf.size _), (validateIdent_checks _).bind_eq_ok,
      (checks_failIf _ _).bind_eq_ok, (checks_failIf _ _).bind_eq_ok,
      (checks_failIf _ _).bind_eq_ok, (validatePhdrBounds_checks _ _).bind_eq_ok,
      ((validateUserRange_checks _ _ _).withError _).bind_eq_ok,
      bind_of_ok (modify_apply _ _), inRegion_one_iff, image.toNat_size]
    exact ⟨⟨hwf.ident, hwf.version⟩, fun h ↦ hwf.type.elim h.1 h.2, not_not.2 hwf.machine,
      not_not.2 hwf.ehsize, ⟨hwf.phnum_pos, hwf.phentsize, hwf.phdrs_in_image⟩, hwf.entry_in_region,
      (planLoops_eq_ok hwf.phdrs_in_image rfl).2
        ⟨hwf.loads_pos, hwf.loads_le, hwf.loadable, hplan⟩⟩

/-- **The loader accepts exactly the well-formed images.**  The plan of an accepted image has its
entry point, and its segments are the loadable headers in the order of the table. -/
theorem plan_load_accepts_well_formed (image : Image) (region : Region) (plan : Plan) :
    (errorOf (planLoad (some image) region) plan = none ↔ WellFormed image region) ∧
    (WellFormed image region →
      (after (planLoad (some image) region) plan).entry = image.ehdr.eEntry ∧
      (after (planLoad (some image) region) plan).planned = image.loads.map segmentOf) := by
  constructor
  · rw [errorOf_eq_none]
    constructor
    · rintro ⟨_, plan', h⟩
      exact (planLoad_eq_ok.1 h).1
    · intro h
      exact ⟨⟨⟩, _, planLoad_eq_ok.2 ⟨h, rfl⟩⟩
  · intro h
    rw [after_of_ok (planLoad_eq_ok.2 ⟨h, rfl⟩), Image.plan, entry_foldl, planned_foldl]
    exact ⟨rfl, rfl⟩

/-- A header and one program header, which maps both at `0x400000`. -/
def smallImage : Image where
  bytes := [
    127, 69, 76, 70, 2, 1, 1, 0, 0, 0, 0, 0, 0, 0, 0, 0, 2, 0, 62, 0, 1, 0, 0, 0, 120, 0, 64, 0,
    0, 0, 0, 0, 64, 0, 0, 0, 0, 0, 0, 0, 0, 0, 0, 0, 0, 0, 0, 0, 0, 0, 0, 0, 64, 0, 56, 0, 1, 0,
    0, 0, 0, 0, 0, 0, 1, 0, 0, 0, 5, 0, 0, 0, 0, 0, 0, 0, 0, 0, 0, 0, 0, 0, 64, 0, 0, 0, 0, 0, 0,
    0, 64, 0, 0, 0, 0, 0, 120, 0, 0, 0, 0, 0, 0, 0, 0, 16, 0, 0, 0, 0, 0, 0, 0, 16, 0, 0, 0, 0, 0,
    0]
  size_lt := by decide

theorem plan_load_accepts_small_image :
    WellFormed smallImage ⟨0x400000, 0x800000⟩ ∧
    (after (planLoad (some smallImage) ⟨0x400000, 0x800000⟩)
      ⟨7, 7, fun _ ↦ ⟨7, 7, 7, 7, 7, 7⟩⟩).planned = [⟨0, 0x400000, 120, 4096, 4096, 5⟩] := by
  have h := plan_load_accepts_well_formed smallImage ⟨0x400000, 0x800000⟩
    ⟨7, 7, fun _ ↦ ⟨7, 7, 7, 7, 7, 7⟩⟩
  have hwf := h.1.1 (by decide +kernel)
  exact ⟨hwf, (h.2 hwf).2.trans (by decide +kernel)⟩

end Elf
end Mcsos
