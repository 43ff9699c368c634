import Mcsos.Lib.Search
import Mcsos.Vfs.PathNames
import Mcsos.Vfs.Transfer

/-!
# Paths and nodes

The nodes form a tree (`Tree`): each has a parent and a name, which no other node has, and the name
of the root is not one that a segment of a path can be.  So a path leads to one node at most, and
each node is led to by one path only (`Tree.path_unique`).  A new file does not get in the way of
other paths, because no path goes through a file (`Tree.lookup_addNode_iff`).
-/

set_option autoImplicit false

namespace Mcsos
namespace Vfs

open Program PathWalk

variable {fs fs' : Ramfs} {path p q : CString} {name leaf : List UInt8} {i d cur parent : ℕ}

/-- The nodes are numbered, and they have different places in the tree. -/
structure Tree (fs : Ramfs) : Prop where
  pos : 0 < fs.nodeCount
  used_iff : ∀ i, (fs.nodes i).used = true ↔ i < fs.nodeCount
  id : ∀ i < fs.nodeCount, (fs.nodes i).id = i
  root : nameString (fs.nodes 0).name = [slash]
  unique : ∀ i < fs.nodeCount, ∀ j < fs.nodeCount, (fs.nodes i).parent = (fs.nodes j).parent →
    nameString (fs.nodes i).name = nameString (fs.nodes j).name → i = j

/-- The node `b` is in the directory `a`, under a name that can be a segment. -/
def Child (fs : Ramfs) (a : ℕ) (name : List UInt8) (b : ℕ) : Prop :=
  a < fs.nodeCount ∧ b < fs.nodeCount ∧ (fs.nodes b).parent = (fs.nodes a).id ∧
    nameString (fs.nodes b).name = name ∧ slash ∉ name

/-! ## Segments -/

theorem mem_segments (h : name ∈ segments path) : slash ∉ name ∧ 0 ∉ name := by
  obtain ⟨h1, h2⟩ := mem_splitOn h
  exact ⟨h1, fun h0 ↦ path.2 (List.mem_of_mem_tail (h2 0 h0))⟩

theorem getLastD_mem_segments (path : CString) : (segments path).getLastD [] ∈ segments path := by
  have hne : segments path ≠ [] := List.splitOn_ne_nil _ _
  rw [List.getLastD_eq_getLast?, List.getLast?_eq_some_getLast hne]
  exact List.getLast_mem hne

theorem dropLast_append_segments (path : CString) :
    (segments path).dropLast ++ [(segments path).getLastD []] = segments path := by
  have hne : segments path ≠ [] := List.splitOn_ne_nil _ _
  rw [List.getLastD_eq_getLast?, List.getLast?_eq_some_getLast hne]
  exact List.dropLast_concat_getLast hne

theorem WellFormed.eq_cons (h : WellFormed path) : path.1 = slash :: path.1.tail := by
  have hslash := h.absolute
  rw [CString.view] at hslash
  cases hp : path.1 with
  | nil =>
    rw [hp] at hslash
    cases hslash
  | cons b l =>
    rw [hp] at hslash
    exact congrArg (· :: l) hslash

/-! ## Finding a node -/

theorem enter_eq_ok : enter fs cur name = .ok d ↔
    findChild fs (fs.nodes cur).id name = .ok d ∧ (fs.nodes d).type = .dir := by
  rw [enter]
  cases findChild fs (fs.nodes cur).id name with
  | error e =>
    constructor
    · intro h
      cases h
    · rintro ⟨h, -⟩
      cases h
  | ok next =>
    dsimp only
    split
    · rename_i htype
      constructor
      · intro h
        cases h
      · rintro ⟨h, hd⟩
        obtain rfl := Except.ok.inj h
        exact absurd hd htype
    · rename_i htype
      constructor
      · intro h
        obtain rfl := Except.ok.inj h
        exact ⟨rfl, not_not.1 htype⟩
      · exact fun h ↦ h.1

namespace Tree

variable (h : Tree fs)
include h

/-- A name is found where it is. -/
theorem findChild_eq_ok (h0 : 0 ∉ name) : findChild fs parent name = .ok i ↔
    ¬ (name.length = 0 ∨ maxName ≤ name.length) ∧ i < fs.nodeCount ∧
      (fs.nodes i).parent = parent ∧ nameString (fs.nodes i).name = name := by
  rw [findChild]
  by_cases hlen : name.length = 0 ∨ maxName ≤ name.length
  · rw [if_pos hlen]
    exact iff_of_false (by simp) fun hf ↦ hf.1 hlen
  rw [if_neg hlen]
  have hname : name.length < maxName := not_le.1 fun hle ↦ hlen (.inr hle)
  have htest : ∀ j, ((fs.nodes j).used && (fs.nodes j).parent == parent &&
      streqN name (fs.nodes j).name) = true ↔ j < fs.nodeCount ∧ (fs.nodes j).parent = parent ∧
        nameString (fs.nodes j).name = name := by
    intro j
    rw [Bool.and_eq_true, Bool.and_eq_true, h.used_iff, beq_iff_eq, streqN_iff hname h0, and_assoc]
  constructor
  · intro hfind
    split at hfind
    · rename_i j hj
      obtain rfl := Except.ok.inj hfind
      exact ⟨hlen, (htest j).1 (Search.of_find?_range hj).2⟩
    · cases hfind
  · rintro ⟨-, hlt, hparent, hstring⟩
    rw [Search.find?_range_eq_some hlt ((htest i).2 ⟨hlt, hparent, hstring⟩)]
    intro j hj hne
    refine Bool.eq_false_iff.2 fun hpass ↦ hne ?_
    obtain ⟨-, hparent', hstring'⟩ := (htest j).1 hpass
    exact h.unique j hj i hlt (hparent'.trans hparent.symm) (hstring'.trans hstring.symm)

theorem child_of_findChild (hcur : cur < fs.nodeCount) (hname : slash ∉ name ∧ 0 ∉ name)
    (hfind : findChild fs (fs.nodes cur).id name = .ok d) :
    Child fs cur name d ∧ d < fs.nodeCount := by
  obtain ⟨-, hlt, hparent, hstring⟩ := (h.findChild_eq_ok hname.2).1 hfind
  exact ⟨⟨hcur, hlt, hparent, hstring, hname.1⟩, hlt⟩

/-! ## One path to each node -/

theorem walk_of_foldlM {names : List (List UInt8)} (hnames : ∀ s ∈ names, slash ∉ s ∧ 0 ∉ s)
    (hd : names.foldlM (enter fs) 0 = .ok d) : Walk (Child fs) 0 names d ∧ d < fs.nodeCount := by
  refine Walk.of_foldlM (P := (· < fs.nodeCount)) h.pos (fun a s b ha hs hb ↦ ?_) hd
  exact h.child_of_findChild ha (hnames s hs) (enter_eq_ok.1 hb).1

theorem walk_of_lookup (hwf : WellFormed path) (hi : ramfsLookup fs path = .ok i) :
    Walk (Child fs) 0 (segments path) i ∧ i < fs.nodeCount := by
  rw [ramfsLookup_of_wellFormed hwf, walkNames_eq_ok] at hi
  obtain ⟨dir, hdir, hfind⟩ := hi
  obtain ⟨hwalk, hlt⟩ := h.walk_of_foldlM
    (fun s hs ↦ mem_segments (List.mem_of_mem_dropLast hs)) hdir
  obtain ⟨hchild, hi⟩ := h.child_of_findChild hlt (mem_segments (getLastD_mem_segments path)) hfind
  have hsnoc := Walk.snoc hwalk hchild
  rw [dropLast_append_segments] at hsnoc
  exact ⟨hsnoc, hi⟩

theorem names_unique {names names' : List (List UInt8)} (hw : Walk (Child fs) 0 names i)
    (hw' : Walk (Child fs) 0 names' i) : names = names' := by
  refine Walk.names_unique ?_ ?_ hw hw'
  · rintro a b s s' c ⟨ha, hc, hpa, rfl, -⟩ ⟨hb, -, hpb, rfl, -⟩
    rw [← h.id a ha, ← h.id b hb, ← hpa, ← hpb]
    exact ⟨rfl, rfl⟩
  · rintro a s ⟨-, -, -, rfl, hslash⟩
    rw [h.root] at hslash
    exact hslash (List.mem_singleton_self slash)

/-- A node that is found is found by one path only. -/
theorem path_unique (hp : ramfsLookup fs p = .ok i) (hq : ramfsLookup fs q = .ok i) : p = q := by
  have hroot : ∀ {path : CString}, WellFormed path → ramfsLookup fs path ≠ .ok 0 := by
    intro path hwf hi
    exact List.splitOn_ne_nil slash _ (h.names_unique (h.walk_of_lookup hwf hi).1 .nil)
  rcases cases_of_lookup hp with ⟨hp', rfl⟩ | hwp
  · rcases cases_of_lookup hq with ⟨hq', -⟩ | hwq
    · exact Subtype.ext (hp'.trans hq'.symm)
    · exact absurd hq (hroot hwq)
  · rcases cases_of_lookup hq with ⟨-, rfl⟩ | hwq
    · exact absurd hp (hroot hwp)
    · have hseg := h.names_unique (h.walk_of_lookup hwp hp).1 (h.walk_of_lookup hwq hq).1
      refine Subtype.ext ?_
      rw [hwp.eq_cons, hwq.eq_cons, splitOn_injective slash hseg]

theorem lookup_lt (hi : ramfsLookup fs path = .ok i) : i < fs.nodeCount := by
  rcases cases_of_lookup hi with ⟨-, rfl⟩ | hwf
  · exact h.pos
  · exact (h.walk_of_lookup hwf hi).2

omit h

end Tree

/-! ## A new file -/

/-- The path of a file that can be created, from the directory on. -/
theorem Creatable.path_eq (hc : Creatable fs path parent leaf) : WellFormed path ∧
    (segments path).dropLast.foldlM (enter fs) 0 = .ok parent ∧
      (segments path).getLastD [] = leaf ∧ ¬ (leaf.length = 0 ∨ maxName ≤ leaf.length) := by
  have hlen := splitParentLeaf_length hc.split
  rcases ramfsLookup_cases fs path with hpath | hwf | ⟨e, -, he⟩
  · exact absurd (ramfsLookup_root fs hpath) (hc.missing 0)
  · have hsplit := hc.split
    rw [splitParentLeaf_of_wellFormed hwf, walkNames_eq_ok] at hsplit
    obtain ⟨dir, hdir, hleaf⟩ := hsplit
    rw [takeLeaf] at hleaf
    split at hleaf
    · cases hleaf
    · obtain ⟨rfl, rfl⟩ := Prod.mk.inj (Except.ok.inj hleaf)
      exact ⟨hwf, hdir, rfl, hlen⟩
  · rw [hc.split] at he
    cases he

namespace Tree

variable (h : Tree fs) (hc : Creatable fs path parent leaf)
include h hc

theorem parent_lt : parent < fs.nodeCount :=
  (h.walk_of_foldlM (fun _ hs ↦ mem_segments (List.mem_of_mem_dropLast hs)) hc.path_eq.2.1).2

omit h in
theorem leaf_mem : leaf ∈ segments path := by
  rw [← hc.path_eq.2.2.1]
  exact getLastD_mem_segments path

omit h in
theorem nameString_new : nameString (newNode fs (fs.nodes parent).id .file leaf 256).name = leaf :=
  nameString_copyName (not_le.1 fun hle ↦ hc.path_eq.2.2.2 (.inr hle))
    (mem_segments (leaf_mem hc)).2

/-- The name is not taken. -/
theorem no_such_child (hi : i < fs.nodeCount)
    (hparent : (fs.nodes i).parent = (fs.nodes parent).id) :
    nameString (fs.nodes i).name ≠ leaf := by
  intro hname
  obtain ⟨hwf, hdir, hlast, hlen⟩ := hc.path_eq
  refine hc.missing i ?_
  rw [ramfsLookup_of_wellFormed hwf, walkNames_eq_ok]
  refine ⟨parent, hdir, ?_⟩
  rw [hlast, h.findChild_eq_ok (mem_segments (leaf_mem hc)).2]
  exact ⟨hlen, hi, hparent, hname⟩

theorem addNode : Tree (fs.addNode (fs.nodes parent).id .file leaf 256) := by
  have hcases : ∀ i < fs.nodeCount + 1, i < fs.nodeCount ∨ i = fs.nodeCount := fun i hi ↦
    Nat.lt_or_eq_of_le (Nat.lt_succ_iff.1 hi)
  have hold : ∀ i < fs.nodeCount, (fs.addNode (fs.nodes parent).id .file leaf 256).nodes i
      = fs.nodes i := fun i hi ↦ nodes_addNode_of_ne hi.ne
  refine ⟨Nat.succ_pos _, fun i ↦ ?_, fun i hi ↦ ?_, ?_, fun i hi j hj ↦ ?_⟩
  · by_cases hne : i = fs.nodeCount
    · rw [hne, nodes_addNode_self]
      exact iff_of_true rfl (Nat.lt_succ_self _)
    · rw [nodes_addNode_of_ne hne, h.used_iff]
      exact ⟨Nat.lt_succ_of_lt, fun hi ↦ (hcases i hi).resolve_right hne⟩
  · rcases hcases i hi with hi | rfl
    · rw [hold i hi, h.id i hi]
    · rw [nodes_addNode_self]
      rfl
  · rw [hold 0 h.pos, h.root]
  · rcases hcases i hi with hi | rfl <;> rcases hcases j hj with hj | rfl
    · rw [hold i hi, hold j hj]
      exact h.unique i hi j hj
    · rw [hold i hi, nodes_addNode_self, nameString_new hc]
      exact fun hparent hname ↦ absurd hname (h.no_such_child hc hi hparent)
    · rw [hold j hj, nodes_addNode_self, nameString_new hc]
      exact fun hparent hname ↦ absurd hname.symm (h.no_such_child hc hj hparent.symm)
    · exact fun _ _ ↦ rfl

theorem findChild_addNode_iff {dir : ℕ} (h0 : 0 ∉ name) (hi : i < fs.nodeCount) :
    findChild (fs.addNode (fs.nodes parent).id .file leaf 256) dir name = .ok i ↔
      findChild fs dir name = .ok i := by
  rw [h.findChild_eq_ok h0, (h.addNode hc).findChild_eq_ok h0, nodes_addNode_of_ne hi.ne]
  exact and_congr_right fun _ ↦ and_congr_left fun _ ↦ iff_of_true (Nat.lt_succ_of_lt hi) hi

/-- The new file is not a directory that can be entered. -/
theorem enter_addNode_iff (h0 : 0 ∉ name) (hcur : cur < fs.nodeCount) :
    enter (fs.addNode (fs.nodes parent).id .file leaf 256) cur name = .ok d ↔
      enter fs cur name = .ok d := by
  rw [enter_eq_ok, enter_eq_ok, nodes_addNode_of_ne hcur.ne]
  by_cases hd : d = fs.nodeCount
  · rw [hd, nodes_addNode_self]
    refine iff_of_false (fun hf ↦ ?_) fun hf ↦ ?_
    · cases hf.2
    · exact lt_irrefl _ ((h.findChild_eq_ok h0).1 hf.1).2.1
  · rw [nodes_addNode_of_ne hd]
    refine and_congr_left fun _ ↦ ?_
    by_cases hlt : d < fs.nodeCount
    · exact h.findChild_addNode_iff hc h0 hlt
    · refine iff_of_false (fun hf ↦ ?_) fun hf ↦ ?_
      · have hle : d < fs.nodeCount + 1 := (((h.addNode hc).findChild_eq_ok h0).1 hf).2.1
        omega
      · exact hlt ((h.findChild_eq_ok h0).1 hf).2.1

theorem foldlM_addNode_iff {names : List (List UInt8)} (hnames : ∀ s ∈ names, 0 ∉ s)
    (hcur : cur < fs.nodeCount) :
    names.foldlM (enter (fs.addNode (fs.nodes parent).id .file leaf 256)) cur = .ok d ↔
      names.foldlM (enter fs) cur = .ok d := by
  induction names generalizing cur with
  | nil => exact Iff.rfl
  | cons name names ih =>
    rw [List.foldlM_cons, List.foldlM_cons, PathWalk.bind_eq_ok, PathWalk.bind_eq_ok]
    have h0 := hnames name List.mem_cons_self
    refine exists_congr fun next ↦ ?_
    rw [h.enter_addNode_iff hc h0 hcur]
    refine and_congr_right fun hnext ↦ ih (fun s hs ↦ hnames s (List.mem_cons_of_mem _ hs)) ?_
    exact ((h.findChild_eq_ok h0).1 (enter_eq_ok.1 hnext).1).2.1

/-- The nodes that there were are found as before. -/
theorem lookup_addNode_iff (hi : i < fs.nodeCount) :
    ramfsLookup (fs.addNode (fs.nodes parent).id .file leaf 256) q = .ok i ↔
      ramfsLookup fs q = .ok i := by
  by_cases hwf : WellFormed q
  · rw [ramfsLookup_of_wellFormed hwf, ramfsLookup_of_wellFormed hwf, walkNames_eq_ok,
      walkNames_eq_ok]
    refine exists_congr fun dir ↦ ?_
    have hnames : ∀ s ∈ (segments q).dropLast, slash ∉ s ∧ 0 ∉ s := fun s hs ↦
      mem_segments (List.mem_of_mem_dropLast hs)
    rw [h.foldlM_addNode_iff hc (fun s hs ↦ (hnames s hs).2) h.pos]
    refine and_congr_right fun hdir ↦ ?_
    rw [nodes_addNode_of_ne (h.walk_of_foldlM hnames hdir).2.ne]
    exact h.findChild_addNode_iff hc (mem_segments (getLastD_mem_segments q)).2 hi
  · -- the root, which does not depend on other nodes, or nothing at all
    constructor
    · intro hq
      obtain ⟨hroot, rfl⟩ := (cases_of_lookup hq).resolve_right hwf
      exact ramfsLookup_root fs hroot
    · intro hq
      obtain ⟨hroot, rfl⟩ := (cases_of_lookup hq).resolve_right hwf
      exact ramfsLookup_root _ hroot

/-- The new file is found. -/
theorem lookup_addNode_self :
    ramfsLookup (fs.addNode (fs.nodes parent).id .file leaf 256) path = .ok fs.nodeCount := by
  obtain ⟨hwf, hdir, hlast, hlen⟩ := hc.path_eq
  rw [ramfsLookup_of_wellFormed hwf, walkNames_eq_ok]
  refine ⟨parent, ?_, ?_⟩
  · rw [h.foldlM_addNode_iff hc (fun s hs ↦ (mem_segments (List.mem_of_mem_dropLast hs)).2) h.pos]
    exact hdir
  · rw [hlast, (h.addNode hc).findChild_eq_ok (mem_segments (leaf_mem hc)).2, nodes_addNode_self,
      nodes_addNode_of_ne (h.parent_lt hc).ne]
    exact ⟨hlen, Nat.lt_succ_self _, rfl, nameString_new hc⟩

end Tree

/-! ## Runs -/

/-- The states that `mcs_ramfs_create_file` and `mcs_ramfs_seed_file` lead to after
`mcs_ramfs_init`. -/
inductive Built : Ramfs → Prop
  | init (names : ℕ → ℕ → UInt8) : Built (ramfsInit names)
  | createFile {fs : Ramfs} (h : Built fs) (path : CString) :
      Built (after (ramfsCreateFile path) fs)
  | seedFile {fs : Ramfs} (h : Built fs) (path : CString) (data : List UInt8) :
      Built (after (ramfsSeedFile path data) fs)

theorem tree_init (names : ℕ → ℕ → UInt8) : Tree (ramfsInit names) where
  pos := Nat.one_pos
  used_iff i := by simp [ramfsInit]
  id i hi := (Nat.lt_one_iff.1 hi).symm
  root := by
    rw [nameString_eq_iff (by decide) (by decide)]
    refine ⟨fun i hi ↦ ?_, rfl⟩
    obtain rfl := Nat.lt_one_iff.1 hi
    rfl
  unique i hi j hj _ _ := by
    rw [Nat.lt_one_iff.1 hi, Nat.lt_one_iff.1 hj]

/-- Sizes and data do not matter. -/
theorem Tree.sameShape (h : Tree fs) (hs : SameShape fs fs') : Tree fs' where
  pos := hs.nodeCount ▸ h.pos
  used_iff i := by rw [hs.used, hs.nodeCount, h.used_iff]
  id i hi := by rw [hs.id, h.id i (hs.nodeCount ▸ hi)]
  root := by rw [hs.name, h.root]
  unique i hi j hj := by
    rw [hs.parent, hs.parent, hs.name, hs.name]
    exact h.unique i (hs.nodeCount ▸ hi) j (hs.nodeCount ▸ hj)

theorem Tree.createFile (h : Tree fs) (path : CString) :
    Ends (ramfsCreateFile path) fs (fun _ fs' ↦ Tree fs') (fun _ fs' ↦ Tree fs') := by
  refine (ramfsCreateFile_cases fs path).mono ?_ fun _ _ heq ↦ heq ▸ h
  rintro i fs' (⟨-, -, rfl⟩ | ⟨parent, leaf, hc, -, rfl⟩)
  · exact h
  · exact h.addNode hc

theorem Tree.seedFile (h : Tree fs) (path : CString) (data : List UInt8) :
    Ends (ramfsSeedFile path data) fs (fun _ fs' ↦ Tree fs') (fun _ fs' ↦ Tree fs') := by
  refine ends_bind (h.createFile path) fun i fs' h' ↦ ?_
  exact ends_get (ends_failIf (fun _ ↦ h') fun _ ↦
    ends_of_ok rfl (h'.sameShape (sameShape_of_size fun _ ↦ ⟨_, rfl⟩)))

theorem Built.tree (h : Built fs) : Tree fs := by
  induction h with
  | init names => exact tree_init names
  | createFile _ path ih => exact (ih.createFile path).after
  | seedFile _ path data ih => exact (ih.seedFile path data).after

/-- **Paths are resolved consistently.**  In every state that creating and seeding files leads to,
no two nodes have the same parent and name, and no two paths lead to the same node.  A file that is
created is found at its path, and all other paths lead to the same nodes as before, or to none.
When a path cannot be looked up, for any other reason than that there is no such node, it cannot be
created, for the same reason, and nothing changes. -/
theorem paths_consistent (h : Built fs) :
    (∀ i j, (fs.nodes i).used = true → (fs.nodes j).used = true →
      (fs.nodes i).parent = (fs.nodes j).parent →
        nameString (fs.nodes i).name = nameString (fs.nodes j).name → i = j) ∧
    (∀ p q i, ramfsLookup fs p = .ok i → ramfsLookup fs q = .ok i → p = q) ∧
    (∀ p n fs', ramfsCreateFile p fs = .ok n fs' → ramfsLookup fs' p = .ok n ∧
      ∀ q, q ≠ p → ∀ i, ramfsLookup fs' q = .ok i ↔ ramfsLookup fs q = .ok i) ∧
    (∀ p e, ramfsLookup fs p = .error e → e ≠ .enoent →
      ramfsCreateFile p fs = .error e fs) := by
  have hT := h.tree
  refine ⟨fun i j hi hj ↦ hT.unique i ((hT.used_iff i).1 hi) j ((hT.used_iff j).1 hj),
    fun p q i ↦ hT.path_unique, fun p n fs' hcreate ↦ ?_, fun p e herr hne ↦ ?_⟩
  · rcases (ramfsCreateFile_cases fs p).of_eq_ok hcreate with
      ⟨hlookup, -, rfl⟩ | ⟨parent, leaf, hc, rfl, rfl⟩
    · exact ⟨hlookup, fun _ _ _ ↦ Iff.rfl⟩
    · refine ⟨hT.lookup_addNode_self hc, fun q hq i ↦ ?_⟩
      by_cases hi : i < fs.nodeCount
      · exact hT.lookup_addNode_iff hc hi
      · refine iff_of_false (fun hfound ↦ hq ?_) fun hfound ↦ hi (hT.lookup_lt hfound)
        -- only the new node is left, and `p` is the path to it
        have hlt : i < fs.nodeCount + 1 := (hT.addNode hc).lookup_lt hfound
        obtain rfl : i = fs.nodeCount := by omega
        exact (hT.addNode hc).path_unique hfound (hT.lookup_addNode_self hc)
  · rw [ramfsCreateFile, bind_of_ok (get_apply fs), herr]
    dsimp only
    rw [splitParentLeaf_of_lookup_error herr hne]
    rfl

/-- `"/a"` is created, and then found at its path. -/
theorem paths_consistent_first_file : ∃ n fs',
    ramfsCreateFile pathA (ramfsInit fun _ _ ↦ 0) = .ok n fs' ∧ ramfsLookup fs' pathA = .ok n := by
  obtain ⟨n, fs', hcreate⟩ : ∃ n fs', ramfsCreateFile pathA (ramfsInit fun _ _ ↦ 0) = .ok n fs' :=
    errorOf_eq_none.1 (by decide +kernel)
  exact ⟨n, fs', hcreate, ((paths_consistent (.init _)).2.2.1 pathA n fs' hcreate).1⟩

end Vfs
end Mcsos
