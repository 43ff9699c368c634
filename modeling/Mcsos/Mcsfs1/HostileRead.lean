import Mcsos.Mcsfs1.Refinement

/-!
# MCSFS1: reading from a hostile image

Mounting looks at the superblock and the root inode, so the size of a file may be any 32-bit number.
`mcsfs1_read` computes from it how many of the eight direct blocks to visit.  A size above 4096
makes it visit more than there are, unless one of the eight stops it, and the largest sizes make the
computation wrap, so that it visits none and reports a length all the same.  Nothing else can go
wrong (`read_safe_iff`).
-/

set_option autoImplicit false

namespace Mcsos
namespace Mcsfs1

open Bytes Program

variable {dev : Blkdev} {mnt : Mount} {inode : Inode} {name : ℕ → UInt8} {cap : ℕ} {d d' : Disk}

/-! ## The loop -/

/-- The visit of `direct[j]`, made at time `t`, makes `mcsfs1_read` return. -/
def Stops (dev : Blkdev) (mnt : Mount) (inode : Inode) (j t : ℕ) : Prop :=
  inode.direct j = 0 ∨ mnt.blockCount ≤ inode.direct j ∨ dev.faults t = true

/-- A round of the loop that is not stopped. -/
theorem readBlocks_succ (hmnt : mnt.blockCount = dev.blockCount) {n i : ℕ} {out : List UInt8}
    (h : ¬ Stops dev mnt inode i d.clock) :
    readBlocks dev mnt inode (n + 1) i out d
      = readBlocks dev mnt inode n (i + 1) (out ++ (List.range
          (chunkSize (inode.size - out.length))).map (d.blocks (inode.direct i)).get) d.tick := by
  obtain ⟨h0, hlt, hfault⟩ : inode.direct i ≠ 0 ∧ ¬ mnt.blockCount ≤ inode.direct i ∧
      ¬ dev.faults d.clock = true := by
    rw [Stops, not_or, not_or] at h
    exact h
  have hread : devRead dev (inode.direct i) d = .ok (d.blocks (inode.direct i)) d.tick := by
    rw [devRead, if_neg (hmnt ▸ hlt), if_neg hfault]
  rw [readBlocks, bind_of_ok (failIf_of_neg (not_or.2 ⟨h0, hlt⟩) _ d), bind_of_ok hread]

/-- A round of the loop that is stopped. -/
theorem readBlocks_stops (hmnt : mnt.blockCount = dev.blockCount) {n i : ℕ} {out : List UInt8}
    (h : Stops dev mnt inode i d.clock) :
    errorOf (readBlocks dev mnt inode (n + 1) i out) d ≠ none := by
  by_cases hc : inode.direct i = 0 ∨ mnt.blockCount ≤ inode.direct i
  · rw [readBlocks, errorOf_of_error (bind_of_error (failIf_of_pos hc _ d))]
    exact Option.some_ne_none _
  · have hfault : dev.faults d.clock = true := by
      rw [Stops, ← or_assoc] at h
      exact h.resolve_left hc
    have hread : devRead dev (inode.direct i) d = .error .io d.tick := by
      rw [devRead, if_neg (hmnt ▸ (not_or.1 hc).2), if_pos hfault]
    rw [readBlocks, errorOf_of_error ((bind_of_ok (failIf_of_neg hc _ d)).trans
      (bind_of_error hread))]
    exact Option.some_ne_none _

/-- The loop gets through if none of its visits makes it return. -/
theorem errorOf_readBlocks_iff (hmnt : mnt.blockCount = dev.blockCount) {n i : ℕ}
    {out : List UInt8} :
    errorOf (readBlocks dev mnt inode n i out) d = none ↔
      ∀ j < n, ¬ Stops dev mnt inode (i + j) (d.clock + j) := by
  induction n generalizing i out d with
  | zero => exact iff_of_true rfl fun j hj ↦ absurd hj (Nat.not_lt_zero j)
  | succ n ih =>
    rw [Nat.forall_lt_succ_left', Nat.add_zero, Nat.add_zero]
    by_cases hstop : Stops dev mnt inode i d.clock
    · exact iff_of_false (readBlocks_stops hmnt hstop) fun h ↦ h.1 hstop
    · rw [errorOf, readBlocks_succ hmnt hstop, ← errorOf, ih]
      refine ⟨fun h ↦ ⟨hstop, fun j hj ↦ ?_⟩, fun h j hj ↦ ?_⟩
      · rw [Nat.add_succ, Nat.add_succ, ← Nat.succ_add, ← Nat.succ_add]
        exact h j hj
      · have hj := h.2 j hj
        rw [Nat.add_succ, Nat.add_succ, ← Nat.succ_add, ← Nat.succ_add] at hj
        exact hj

/-- What the loop has copied when it gets through all the blocks of a file that has its size. -/
theorem readBlocks_eq_fileBytes (hmnt : mnt.blockCount = dev.blockCount) {B : ℕ → Block}
    (hB : d.blocks = B) (hsize : inode.size ≤ directBlocks * blockSize) {m i : ℕ}
    (hm : i + m = blocksNeeded inode.size) {out : List UInt8}
    (h : readBlocks dev mnt inode m i
      ((List.range (min (i * blockSize) inode.size)).map (fileByte B inode)) d = .ok out d') :
    out = fileBytes B inode := by
  induction m generalizing i d with
  | zero =>
    have hmin : min (i * blockSize) inode.size = inode.size := by
      simp only [Nat.add_zero, blocksNeeded, blockSize, directBlocks] at *
      omega
    rw [hmin] at h
    exact (EStateM.Result.ok.inj h).1.symm
  | succ m ih =>
    by_cases hstop : Stops dev mnt inode i d.clock
    · exact absurd (errorOf_of_ok h) (readBlocks_stops hmnt hstop)
    · have hi : i < blocksNeeded inode.size := by omega
      rw [readBlocks_succ hmnt hstop, List.length_map, List.length_range, hB,
        append_chunk hi hsize] at h
      exact ih (i := i + 1) (d := d.tick) hB (by omega) h

/-! ## The number of blocks -/

theorem size_lt (inode : Inode) : inode.size < 2 ^ 32 := le_lt _ _ _

theorem blocksNeeded_eq_zero {size : ℕ} (h : 2 ^ 32 - blockSize < size) (hlt : size < 2 ^ 32) :
    blocksNeeded size = 0 := by
  simp only [blocksNeeded, blockSize] at *
  omega

theorem directBlocks_lt_blocksNeeded {size : ℕ} (h : directBlocks * blockSize < size)
    (hle : size ≤ 2 ^ 32 - blockSize) : directBlocks < blocksNeeded size := by
  simp only [blocksNeeded, directBlocks, blockSize] at *
  omega

theorem blocksNeeded_le_directBlocks {size : ℕ} (h : size ≤ directBlocks * blockSize) :
    blocksNeeded size ≤ directBlocks := le_trans (le_max_left _ _) (blocksNeeded_le h)

/-! ## Reading -/

/-- `mcsfs1_read` gets to its loop, with this inode and this state of the device. -/
def GetsToLoop (dev : Blkdev) (name : ℕ → UInt8) (cap : ℕ) (d : Disk) (inode : Inode)
    (d' : Disk) : Prop :=
  (∃ found d₁, findDirent dev name d = .ok found d₁ ∧ readInode dev found.2 d₁ = .ok inode d') ∧
    inode.mode = modeFile ∧ inode.size ≤ cap

/-- `mcsfs1_read` evaluates `direct[j]`: it gets to round `j` of its loop. -/
def Indexes (dev : Blkdev) (mnt : Mount) (name : ℕ → UInt8) (cap : ℕ) (d : Disk) (j : ℕ) : Prop :=
  ∃ inode d', GetsToLoop dev name cap d inode d' ∧ j < blocksNeeded inode.size ∧
    errorOf (readBlocks dev mnt inode j 0 []) d' = none

/-- No index is out of bounds, and a result is what the direct blocks hold. -/
structure ReadSafe (dev : Blkdev) (mnt : Mount) (name : ℕ → UInt8) (cap : ℕ) (d : Disk) :
    Prop where
  index : ∀ j, Indexes dev mnt name cap d j → j < directBlocks
  result : ∀ out len d', read dev mnt name cap d = .ok (out, len) d' → out.length = len ∧
    ∃ inode d₁, GetsToLoop dev name cap d inode d₁ ∧
      out = (List.range len).map (fileByte d.blocks inode)

/-- The size of a file does not lead beyond its direct blocks: either they have room for it, or its
blocks can be counted and one of the eight makes the loop stop. -/
def Contained (dev : Blkdev) (mnt : Mount) (inode : Inode) (d : Disk) : Prop :=
  inode.size ≤ directBlocks * blockSize ∨
    inode.size ≤ 2 ^ 32 - blockSize ∧ ∃ j < directBlocks, Stops dev mnt inode j (d.clock + j)

theorem read_of_getsToLoop (h : GetsToLoop dev name cap d inode d') :
    read dev mnt name cap d
      = (do
          let out ← readBlocks dev mnt inode (blocksNeeded inode.size) 0 []
          return (out, inode.size) : M (List UInt8 × ℕ)) d' := by
  obtain ⟨⟨found, d₁, hfind, hread⟩, hmode, hcap⟩ := h
  rw [read, bind_of_ok hfind, bind_of_ok hread, bind_of_ok (failIf_of_neg (not_not.2 hmode) _ d'),
    bind_of_ok (failIf_of_neg (not_lt.2 hcap) _ d')]

/-- What a read that succeeds has gone through. -/
theorem read_eq_ok {out : List UInt8} {len : ℕ} (h : read dev mnt name cap d = .ok (out, len) d') :
    ∃ inode d₁, GetsToLoop dev name cap d inode d₁ ∧ len = inode.size ∧
      readBlocks dev mnt inode (blocksNeeded inode.size) 0 [] d₁ = .ok out d' := by
  obtain ⟨found, d₁, hfind, h⟩ := bind_eq_ok.1 h
  obtain ⟨inode, d₂, hread, h⟩ := bind_eq_ok.1 h
  obtain ⟨hmode, h⟩ := (checks_failIf _ _).bind_eq_ok.1 h
  obtain ⟨hcap, h⟩ := (checks_failIf _ _).bind_eq_ok.1 h
  obtain ⟨out', d₃, hloop, h⟩ := bind_eq_ok.1 h
  obtain ⟨heq, rfl⟩ := EStateM.Result.ok.inj h
  obtain ⟨rfl, rfl⟩ := Prod.mk.inj heq
  exact ⟨inode, d₂, ⟨⟨found, d₁, hfind, hread⟩, not_not.1 hmode, not_lt.1 hcap⟩, rfl, hloop⟩

theorem keeps_devRead (B : ℕ → Block) (lba : ℕ) : Keeps (·.blocks = B) (devRead dev lba) := by
  intro d hd
  by_cases hlba : lba ≥ dev.blockCount
  · rw [after_of_error (if_pos hlba : devRead dev lba d = .error .inval d)]
    exact hd
  · by_cases hfault : dev.faults d.clock = true
    · rw [after_of_error ((if_neg hlba).trans (if_pos hfault) :
        devRead dev lba d = .error .io d.tick)]
      exact hd
    · rw [after_of_ok ((if_neg hlba).trans (if_neg hfault) :
        devRead dev lba d = .ok (d.blocks lba) d.tick)]
      exact hd

theorem keeps_findDirent (B : ℕ → Block) : Keeps (·.blocks = B) (findDirent dev name) := by
  refine keeps_bind (fun d hd ↦ ?_) fun _ ↦ keeps_bind (keeps_devRead B _) fun _ ↦
    keeps_bind keeps_get fun _ ↦ keeps_bind (keeps_expect _ _) fun _ ↦ keeps_pure _
  exact ((validName_ends d name).mono (fun _ _ h ↦ h.2 ▸ hd) fun _ _ h ↦ h.2 ▸ hd).after

theorem keeps_readInode (B : ℕ → Block) (ino : ℕ) :
    Keeps (·.blocks = B) (readInode dev ino) :=
  keeps_bind (keeps_failIf _ _) fun _ ↦ keeps_bind (keeps_failIf _ _) fun _ ↦
    keeps_bind (keeps_devRead B _) fun _ ↦ keeps_pure _

theorem GetsToLoop.blocks_eq (h : GetsToLoop dev name cap d inode d') : d'.blocks = d.blocks := by
  obtain ⟨⟨found, d₁, hfind, hread⟩, -⟩ := h
  have h1 : (after (findDirent dev name) d).blocks = d.blocks := keeps_findDirent d.blocks d rfl
  have h2 : (after (readInode dev found.2) d₁).blocks = d₁.blocks :=
    keeps_readInode d₁.blocks found.2 d₁ rfl
  rw [after_of_ok hfind] at h1
  rw [after_of_ok hread] at h2
  exact h2.trans h1

/-- Mounting takes the number of blocks from the device. -/
theorem blockCount_of_mount {d₀ : Disk} (h : mount dev d₀ = .ok mnt d) :
    mnt.blockCount = dev.blockCount := by
  obtain ⟨sb, d₁, hsuper, h⟩ := bind_eq_ok.1 h
  obtain ⟨root, d₂, -, h⟩ := bind_eq_ok.1 h
  obtain ⟨-, h⟩ := (checks_failIf _ _).bind_eq_ok.1 h
  obtain ⟨rfl, -⟩ := EStateM.Result.ok.inj h
  obtain ⟨sb', d₃, -, hsuper⟩ := bind_eq_ok.1 hsuper
  obtain ⟨-, hsuper⟩ := (checks_failIf _ _).bind_eq_ok.1 hsuper
  obtain ⟨hcount, hsuper⟩ := (checks_failIf _ _).bind_eq_ok.1 hsuper
  obtain ⟨-, hsuper⟩ := (checks_failIf _ _).bind_eq_ok.1 hsuper
  obtain ⟨-, hsuper⟩ := (checks_failIf _ _).bind_eq_ok.1 hsuper
  obtain ⟨-, hsuper⟩ := (checks_failIf _ _).bind_eq_ok.1 hsuper
  obtain ⟨rfl, -⟩ := EStateM.Result.ok.inj hsuper
  exact not_not.1 (not_or.1 hcount).1

/-! ## The main result -/

/-- The sizes that go wrong do so. -/
theorem ReadSafe.contained (hmnt : mnt.blockCount = dev.blockCount)
    (h : ReadSafe dev mnt name cap d) (hloop : GetsToLoop dev name cap d inode d') :
    Contained dev mnt inode d' := by
  by_contra hcon
  obtain ⟨hsize, hcon⟩ := not_or.1 hcon
  have hsize := not_le.1 hsize
  by_cases hwrap : inode.size ≤ 2 ^ 32 - blockSize
  · -- all eight blocks are read, and there is a ninth round
    have hnone : ¬ ∃ j < directBlocks, Stops dev mnt inode j (d'.clock + j) := fun hex ↦
      hcon ⟨hwrap, hex⟩
    have hindex : Indexes dev mnt name cap d directBlocks := by
      refine ⟨inode, d', hloop, directBlocks_lt_blocksNeeded hsize hwrap, ?_⟩
      refine (errorOf_readBlocks_iff hmnt).2 fun j hj hstop ↦ hnone ⟨j, hj, ?_⟩
      rwa [Nat.zero_add] at hstop
    exact absurd (h.index _ hindex) (lt_irrefl _)
  · -- there is no round at all
    have hread : read dev mnt name cap d = .ok ([], inode.size) d' := by
      rw [read_of_getsToLoop hloop, blocksNeeded_eq_zero (not_le.1 hwrap) (size_lt inode)]
      rfl
    have hlen : 0 = inode.size := (h.result _ _ _ hread).1
    rw [← hlen] at hsize
    exact absurd hsize (Nat.not_lt_zero _)

/-- The others do not. -/
theorem readSafe_of_contained (hmnt : mnt.blockCount = dev.blockCount)
    (h : ∀ inode d', GetsToLoop dev name cap d inode d' → Contained dev mnt inode d') :
    ReadSafe dev mnt name cap d := by
  refine ⟨?_, fun out len d' hread ↦ ?_⟩
  · rintro j ⟨inode, d', hloop, hj, hrounds⟩
    rcases h inode d' hloop with hsize | ⟨-, k, hk, hstop⟩
    · exact lt_of_lt_of_le hj (blocksNeeded_le_directBlocks hsize)
    · by_contra hcon
      have hnot := (errorOf_readBlocks_iff hmnt).1 hrounds k (lt_of_lt_of_le hk (not_lt.1 hcon))
      rw [Nat.zero_add] at hnot
      exact hnot hstop
  · obtain ⟨inode, d₁, hloop, rfl, hblocks⟩ := read_eq_ok hread
    by_cases hsize : inode.size ≤ directBlocks * blockSize
    · have hout : out = fileBytes d.blocks inode :=
        readBlocks_eq_fileBytes hmnt hloop.blocks_eq hsize (Nat.zero_add _) (by simpa using hblocks)
      exact ⟨hout ▸ length_fileBytes, inode, d₁, hloop, hout⟩
    · obtain ⟨hwrap, k, hk, hstop⟩ := (h inode d₁ hloop).resolve_left hsize
      have hlt := directBlocks_lt_blocksNeeded (not_le.1 hsize) hwrap
      have hnot := (errorOf_readBlocks_iff hmnt).1 (errorOf_of_ok hblocks) k (hk.trans hlt)
      rw [Nat.zero_add] at hnot
      exact absurd hstop hnot

/-- **When reading is safe.**  On an image that can be mounted, `mcsfs1_read` keeps within the
direct blocks and returns what they hold if and only if the inode that it arrives at does not lead
beyond them. -/
theorem read_safe_iff {d₀ : Disk} (hm : mount dev d₀ = .ok mnt d) :
    ReadSafe dev mnt name cap d ↔
      ∀ inode d', GetsToLoop dev name cap d inode d' → Contained dev mnt inode d' :=
  ⟨fun h _ _ hloop ↦ h.contained (blockCount_of_mount hm) hloop,
    readSafe_of_contained (blockCount_of_mount hm)⟩

/-! ## Images -/

/-- A disk of sixteen blocks with a file of 600 bytes. -/
def oneFile : M Unit := do
  format smallDev
  create smallDev (CString.ofBytes [97]).view
  write smallDev (CString.ofBytes [97]).view (fun _ ↦ 7) 600

/-- That disk with another inode for the file. -/
def tampered (inode : Inode) : Disk :=
  { after oneFile blankDisk with blocks := setInode (after oneFile blankDisk).blocks 2 inode }

/-- A file of eight blocks with one byte too many. -/
def longInode : Inode :=
  (List.range directBlocks).foldl (fun n j ↦ n.setDirect j dataStartLba)
    (Inode.make modeFile (directBlocks * blockSize + 1) 0)

/-- The file is read as it was written. -/
theorem read_safe_one_file : ∃ mnt d, mount smallDev (after oneFile blankDisk) = .ok mnt d ∧
    ReadSafe smallDev mnt (CString.ofBytes [97]).view 600 d := by
  have hstat : result (do
      let _ ← mount smallDev
      stat smallDev (CString.ofBytes [97]).view) (after oneFile blankDisk) = .ok 600 := by
    decide +kernel
  cases hm : mount smallDev (after oneFile blankDisk) with
  | error e d =>
    rw [result, bind_of_error hm] at hstat
    cases hstat
  | ok mnt d =>
    rw [result, bind_of_ok hm] at hstat
    refine ⟨mnt, d, rfl, (read_safe_iff hm).2 fun inode d' hloop ↦ .inl ?_⟩
    obtain ⟨⟨found, d₁, hfind, hread⟩, hmode, -⟩ := hloop
    rw [stat, bind_of_ok hfind, bind_of_ok hread,
      bind_of_ok (failIf_of_neg (not_not.2 hmode) _ d')] at hstat
    have hsize : inode.size = 600 := Except.ok.inj hstat
    rw [hsize]
    decide

/-- **Sizes that go wrong.**  With the largest size, nothing is copied and the largest size is
reported; with one byte more than there is room for, `direct[8]` is evaluated. -/
theorem tampered_size_misread :
    result (do
      let mnt ← mount smallDev
      read smallDev mnt (CString.ofBytes [97]).view (2 ^ 32 - 1))
        (tampered (Inode.make modeFile (2 ^ 32 - 1) dataStartLba)) = .ok ([], 2 ^ 32 - 1) ∧
      ∃ mnt d, mount smallDev (tampered longInode) = .ok mnt d ∧
        Indexes smallDev mnt (CString.ofBytes [97]).view 8192 d 8 := by
  refine ⟨by decide +kernel, ?_⟩
  have hrun : errorOf (do
      let mnt ← mount smallDev
      let found ← findDirent smallDev (CString.ofBytes [97]).view
      let inode ← readInode smallDev found.2
      failIf (inode.mode ≠ modeFile) .isdir
      failIf (8192 < inode.size) .range
      failIf (blocksNeeded inode.size ≤ 8) .corrupt
      let _ ← readBlocks smallDev mnt inode 8 0 []) (tampered longInode) = none := by
    decide +kernel
  obtain ⟨_, d₅, hrun⟩ := errorOf_eq_none.1 hrun
  obtain ⟨mnt, d, hm, hrun⟩ := bind_eq_ok.1 hrun
  obtain ⟨found, d₁, hfind, hrun⟩ := bind_eq_ok.1 hrun
  obtain ⟨inode, d₂, hread, hrun⟩ := bind_eq_ok.1 hrun
  obtain ⟨hmode, hrun⟩ := (checks_failIf _ _).bind_eq_ok.1 hrun
  obtain ⟨hcap, hrun⟩ := (checks_failIf _ _).bind_eq_ok.1 hrun
  obtain ⟨hneeded, hrun⟩ := (checks_failIf _ _).bind_eq_ok.1 hrun
  obtain ⟨out, d₃, hblocks, -⟩ := bind_eq_ok.1 hrun
  exact ⟨mnt, d, hm, inode, d₂, ⟨⟨found, d₁, hfind, hread⟩, not_not.1 hmode, not_lt.1 hcap⟩,
    not_le.1 hneeded, errorOf_of_ok hblocks⟩

end Mcsfs1
end Mcsos
