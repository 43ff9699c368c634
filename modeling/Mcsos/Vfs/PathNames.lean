import Mcsos.Lib.PathWalk
import Mcsos.Vfs.Opening

/-!
# Names and paths

There are two loops over the segments of a path, in `mcs_ramfs_lookup` and in
`mcs_split_parent_leaf`.  Both go from one directory to the next (`enter`) for all segments but the
last, and they differ in what they do with that one (`ramfsLookup_of_wellFormed`,
`splitParentLeaf_of_wellFormed`).  So whatever the one refuses on the way is refused by the other
with the same error (`splitParentLeaf_of_lookup_error`).

Names are compared as strings, although the comparison is one of a segment that has a length with a
field that is ended by a zero (`streqN_iff`).
-/

set_option autoImplicit false

namespace Mcsos
namespace Vfs

open Program PathWalk

variable {fs : Ramfs} {path : CString} {name : List UInt8}

/-! ## Names -/

/-- The string in a field for names. -/
def nameString (field : ℕ → UInt8) : List UInt8 :=
  (List.range (strnlen field maxName)).map field

theorem nameString_eq_iff {field : ℕ → UInt8} (hlen : name.length < maxName) (h0 : 0 ∉ name) :
    nameString field = name ↔
      (∀ i < name.length, name.getD i 0 = field i) ∧ field name.length = 0 := by
  constructor
  · rintro rfl
    have hn : (nameString field).length = strnlen field maxName := by simp [nameString]
    rw [hn] at hlen ⊢
    refine ⟨fun i hi ↦ ?_, eq_zero_of_strnlen_lt hlen⟩
    rw [List.getD_eq_getElem _ _ (by rw [hn]; exact hi)]
    simp [nameString]
  · rintro ⟨hbytes, hend⟩
    have hn : strnlen field maxName = name.length := by
      refine strnlen_eq hlen.le (fun i hi ↦ ?_) fun _ ↦ hend
      rw [← hbytes i hi, List.getD_eq_getElem _ _ hi]
      exact ne_of_mem_of_not_mem (List.getElem_mem hi) h0
    refine List.ext_getElem (by simp [nameString, hn]) fun i h1 h2 ↦ ?_
    rw [← List.getD_eq_getElem _ 0 h2, hbytes i h2]
    simp [nameString]

/-- The comparison is equality of strings. -/
theorem streqN_iff {field : ℕ → UInt8} (hlen : name.length < maxName) (h0 : 0 ∉ name) :
    streqN name field = true ↔ nameString field = name := by
  rw [nameString_eq_iff hlen h0, streqN, Bool.and_eq_true, List.all_eq_true, beq_iff_eq]
  simp only [List.mem_range, beq_iff_eq]

theorem nameString_copyName (hlen : name.length < maxName) (h0 : 0 ∉ name) :
    nameString (copyName name) = name := by
  rw [nameString_eq_iff hlen h0]
  refine ⟨fun i hi ↦ ?_, if_neg fun h ↦ lt_irrefl _ h.1⟩
  rw [copyName, if_pos ⟨hi, by omega⟩]

/-! ## The common loop -/

/-- From a directory to another one below it. -/
def enter (fs : Ramfs) (cur : ℕ) (name : List UInt8) : Except Err ℕ :=
  match findChild fs (fs.nodes cur).id name with
  | .error e => .error e
  | .ok next => if (fs.nodes next).type ≠ .dir then .error .enotdir else .ok next

/-- A name of a bad length is not found. -/
theorem findChild_of_length {parent : ℕ} (h : name.length = 0 ∨ maxName ≤ name.length) :
    findChild fs parent name = .error .einval := if_pos h

theorem enter_of_length {cur : ℕ} (h : name.length = 0 ∨ maxName ≤ name.length) :
    enter fs cur name = .error .einval := by
  rw [enter, findChild_of_length h]

/-- Go through the directories of a list of names, and then do something with the last name. -/
def walkNames {α : Type} (fs : Ramfs) (last : ℕ → List UInt8 → Except Err α) (cur : ℕ)
    (names : List (List UInt8)) : Except Err α :=
  names.dropLast.foldlM (enter fs) cur >>= fun dir ↦ last dir (names.getLastD [])

section Walk

variable {α : Type} {last : ℕ → List UInt8 → Except Err α} {cur : ℕ}

theorem walkNames_singleton : walkNames fs last cur [name] = last cur name := rfl

theorem walkNames_cons {names : List (List UInt8)} (h : names ≠ []) :
    walkNames fs last cur (name :: names)
      = enter fs cur name >>= fun next ↦ walkNames fs last next names := by
  have hlast : (name :: names).getLastD [] = names.getLastD [] := by
    cases names with
    | nil => exact absurd rfl h
    | cons _ _ => rfl
  rw [walkNames, hlast, List.dropLast_cons_of_ne_nil h, List.foldlM_cons, bind_assoc]
  rfl

theorem walkNames_eq_ok {names : List (List UInt8)} {r : α} : walkNames fs last cur names = .ok r ↔
    ∃ dir, names.dropLast.foldlM (enter fs) cur = .ok dir ∧ last dir (names.getLastD []) = .ok r :=
  PathWalk.bind_eq_ok

theorem lookupLoop_eq {fuel : ℕ} {seg : List UInt8} (h : seg.length < fuel) :
    lookupLoop fs fuel cur seg
      = walkNames fs (fun dir name ↦ findChild fs (fs.nodes dir).id name) cur
          (seg.splitOn slash) := by
  induction fuel generalizing cur seg with
  | zero => exact absurd h (Nat.not_lt_zero _)
  | succ fuel ih =>
    cases seg with
    | nil => rfl
    | cons b seg =>
      rw [lookupLoop]
      swap
      · exact List.cons_ne_nil b seg
      cases hnext : (b :: seg).dropWhile (· != slash) with
      | nil =>
        rw [splitOn_of_dropWhile_nil hnext, walkNames_singleton]
        split
        · rw [findChild_of_length (by assumption)]
        · split
          · rename_i hfind
            exact hfind.symm
          · rename_i hfind
            exact hfind.symm
      | cons c rest =>
        have hlt := length_lt_of_dropWhile_cons hnext
        rw [splitOn_of_dropWhile_cons hnext, walkNames_cons (List.splitOn_ne_nil _ _)]
        split
        · rw [enter_of_length (by assumption)]
          rfl
        · rw [enter]
          cases findChild fs (fs.nodes cur).id ((b :: seg).takeWhile (· != slash)) with
          | error e => rfl
          | ok next =>
            dsimp only
            split
            · rfl
            · exact ih (by omega)

/-- What `mcs_split_parent_leaf` does with the last segment. -/
def takeLeaf (dir : ℕ) (name : List UInt8) : Except Err (ℕ × List UInt8) :=
  if name.length = 0 ∨ maxName ≤ name.length then .error .einval else .ok (dir, name)

theorem splitParentLeafLoop_eq {fuel : ℕ} {seg : List UInt8} (h : seg.length < fuel) :
    splitParentLeafLoop fs fuel cur seg = walkNames fs takeLeaf cur (seg.splitOn slash) := by
  induction fuel generalizing cur seg with
  | zero => exact absurd h (Nat.not_lt_zero _)
  | succ fuel ih =>
    rw [splitParentLeafLoop]
    cases hnext : seg.dropWhile (· != slash) with
    | nil =>
      rw [splitOn_of_dropWhile_nil hnext, walkNames_singleton]
      rfl
    | cons c rest =>
      have hlt := length_lt_of_dropWhile_cons hnext
      rw [splitOn_of_dropWhile_cons hnext, walkNames_cons (List.splitOn_ne_nil _ _)]
      split
      · rw [enter_of_length (by assumption)]
        rfl
      · rw [enter]
        cases findChild fs (fs.nodes cur).id (seg.takeWhile (· != slash)) with
        | error e => rfl
        | ok next =>
          dsimp only
          split
          · rfl
          · exact ih (by omega)

end Walk

/-! ## Paths -/

/-- The segments of a path. -/
def segments (path : CString) : List (List UInt8) := path.1.tail.splitOn slash

/-- A path that is not too long, and that is not the one of the root. -/
structure WellFormed (path : CString) : Prop where
  absolute : path.view 0 = slash
  short : path.length < maxPath
  notRoot : path.view 1 ≠ 0

theorem WellFormed.length_tail_lt (h : WellFormed path) : path.1.tail.length < path.length := by
  have hlen : 1 < path.length := not_le.1 fun hle ↦ h.notRoot (CString.view_eq_zero hle)
  rw [List.length_tail]
  show path.length - 1 < path.length
  omega

theorem ramfsLookup_of_wellFormed (h : WellFormed path) :
    ramfsLookup fs path = walkNames fs (fun dir name ↦ findChild fs (fs.nodes dir).id name) 0
      (segments path) := by
  rw [ramfsLookup, if_neg (not_not.2 h.absolute), if_neg (not_le.2 h.short), if_neg h.notRoot,
    lookupLoop_eq h.length_tail_lt, segments]

theorem splitParentLeaf_of_wellFormed (h : WellFormed path) :
    splitParentLeaf fs path = walkNames fs takeLeaf 0 (segments path) := by
  rw [splitParentLeaf, if_neg (not_not.2 h.absolute), if_neg h.notRoot, if_neg (not_le.2 h.short),
    splitParentLeafLoop_eq h.length_tail_lt, segments]

theorem ramfsLookup_root (fs : Ramfs) (h : path.1 = [slash]) : ramfsLookup fs path = .ok 0 := by
  have hslash : path.view 0 = slash := by rw [CString.view, h]; rfl
  have hend : path.view 1 = 0 := by rw [CString.view, h]; rfl
  have hlen : path.length = 1 := by rw [CString.length, h]; rfl
  rw [ramfsLookup, if_neg (not_not.2 hslash), if_neg (by rw [hlen]; decide), if_pos hend]

/-- Paths that are looked up are well-formed, or there is nothing to look up. -/
theorem ramfsLookup_cases (fs : Ramfs) (path : CString) :
    path.1 = [slash] ∨ WellFormed path ∨
      ∃ e, ramfsLookup fs path = .error e ∧ splitParentLeaf fs path = .error e := by
  by_cases hslash : path.view 0 = slash
  · by_cases hshort : path.length < maxPath
    · by_cases hroot : path.view 1 = 0
      · have hlen := CString.view_eq_zero_iff.1 hroot
        have hpos : 0 < path.length := by
          refine not_le.1 fun hle ↦ ?_
          rw [CString.view_eq_zero hle] at hslash
          cases hslash
        obtain ⟨b, hb⟩ := List.length_eq_one_iff.1 (le_antisymm hlen hpos)
        rw [CString.view, hb] at hslash
        rw [hb]
        exact .inl (congrArg (fun b ↦ [b]) hslash)
      · exact .inr (.inl ⟨hslash, hshort, hroot⟩)
    · refine .inr (.inr ⟨.enametoolong, ?_, ?_⟩)
      · rw [ramfsLookup, if_neg (not_not.2 hslash), if_pos (not_lt.1 hshort)]
      · have hroot : path.view 1 ≠ 0 := CString.view_ne_zero (by
          have : 128 ≤ path.length := not_lt.1 hshort
          omega)
        rw [splitParentLeaf, if_neg (not_not.2 hslash), if_neg hroot, if_pos (not_lt.1 hshort)]
  · refine .inr (.inr ⟨.einval, ?_, ?_⟩)
    · rw [ramfsLookup, if_pos hslash]
    · rw [splitParentLeaf, if_pos hslash]

theorem cases_of_lookup {i : ℕ} (h : ramfsLookup fs path = .ok i) :
    path.1 = [slash] ∧ i = 0 ∨ WellFormed path := by
  rcases ramfsLookup_cases fs path with hpath | hwf | ⟨e, he, -⟩
  · exact .inl ⟨hpath, Except.ok.inj (h.symm.trans (ramfsLookup_root fs hpath))⟩
  · exact .inr hwf
  · rw [he] at h
    cases h

/-- What keeps a path from being looked up, other than that there is no such node, keeps it from
being split. -/
theorem splitParentLeaf_of_lookup_error {e : Err} (h : ramfsLookup fs path = .error e)
    (hne : e ≠ .enoent) : splitParentLeaf fs path = .error e := by
  rcases ramfsLookup_cases fs path with hpath | hwf | ⟨e', he', hsplit⟩
  · rw [ramfsLookup_root fs hpath] at h
    cases h
  · rw [ramfsLookup_of_wellFormed hwf, walkNames] at h
    rw [splitParentLeaf_of_wellFormed hwf, walkNames]
    cases hdir : (segments path).dropLast.foldlM (enter fs) 0 with
    | error e' =>
      rw [hdir] at h
      exact congrArg Except.error (Except.error.inj h)
    | ok dir =>
      -- the last name is not found, and not because there is no such node
      rw [hdir] at h
      have hfind : findChild fs (fs.nodes dir).id ((segments path).getLastD []) = .error e := h
      show takeLeaf dir ((segments path).getLastD []) = .error e
      rw [findChild] at hfind
      rw [takeLeaf]
      split at hfind
      · rename_i hlen
        rw [if_pos hlen, Except.error.inj hfind]
      · split at hfind
        · cases hfind
        · exact absurd (Except.error.inj hfind).symm hne
  · rw [hsplit, Except.error.inj (he'.symm.trans h)]

end Vfs
end Mcsos
