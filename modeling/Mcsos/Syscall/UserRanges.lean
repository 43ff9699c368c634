import Mcsos.Elf.Acceptance
import Mcsos.Syscall.Dispatch

/-!
# Ranges of user memory

Two parts of the kernel check that a range of addresses lies in the region of the user:
`mcsos_user_check_range` in front of a system call, which computes the last byte of the range, and
`m11_validate_user_range` in the loader, which computes the first byte behind it.  Both computations
may wrap, and both have a test for it.  Over the integers the two checks are one
(`userCheckRange_iff`, `Elf.validateUserRange_checks`), but for the empty range, which the system
calls accept, and for a region that starts at the null pointer, which they do not.

So the bytes that a system call passes on, and those that `mcsos_copy_from_user` reads, are bytes of
the user.
-/

set_option autoImplicit false

namespace Mcsos
namespace Syscall

open Program

/-! ## The check -/

/-- An address of the region. -/
def UserRegion.Contains (region : UserRegion) (addr : ℕ) : Prop :=
  region.base.toNat ≤ addr ∧ addr < region.limit.toNat

/-- The last byte of a range that is not empty, which may have wrapped. -/
theorem toNat_last (addr : UInt64) {len : UInt64} (hlen : 0 < len.toNat) :
    (addr + len - 1).toNat + 1 = addr.toNat + len.toNat ∨
      (addr + len - 1).toNat + 1 + 2 ^ 64 = addr.toNat + len.toNat := by
  have haddr := addr.toNat_lt
  have hlt := len.toNat_lt
  have hlast : (addr + len - 1).toNat
      = (2 ^ 64 - 1 + (addr.toNat + len.toNat) % 2 ^ 64) % 2 ^ 64 := by
    rw [UInt64.toNat_sub, UInt64.toNat_add]
    rfl
  omega

/-- The check of a range that is not empty. -/
theorem userCheckRange_iff_of_ne {region : UserRegion} {addr len : UInt64} (hlen : len ≠ 0) :
    userCheckRange region addr len = true ↔ 0 < region.base.toNat ∧
      region.base.toNat < region.limit.toNat ∧ region.base.toNat ≤ addr.toNat ∧
      addr.toNat + len.toNat ≤ region.limit.toNat := by
  have hpos : 0 < len.toNat := Nat.pos_of_ne_zero fun h ↦ hlen (UInt64.toNat_inj.1 h)
  have hlast := toNat_last addr hpos
  have hbase : region.base = 0 ↔ region.base.toNat = 0 := UInt64.toNat_inj.symm
  have hlimit := region.limit.toNat_lt
  have hlt := len.toNat_lt
  rw [userCheckRange, if_neg hlen]
  simp only [hbase, UInt64.lt_iff_toNat_lt, UInt64.le_iff_toNat_le]
  generalize (addr + len - 1).toNat = last at hlast ⊢
  constructor
  · intro h
    split at h
    · cases h
    · split at h
      · cases h
      · split at h
        · cases h
        · split at h
          · cases h
          · split at h
            · cases h
            · omega
  · intro h
    rw [if_neg (by omega), if_neg (by omega), if_neg (by omega), if_neg (by omega),
      if_neg (by omega)]

/-- What `mcsos_user_check_range` accepts. -/
theorem userCheckRange_iff {region : UserRegion} {addr len : UInt64} :
    userCheckRange region addr len = true ↔ len = 0 ∨ (0 < region.base.toNat ∧
      region.base.toNat < region.limit.toNat ∧ region.base.toNat ≤ addr.toNat ∧
      addr.toNat + len.toNat ≤ region.limit.toNat) := by
  by_cases hlen : len = 0
  · rw [userCheckRange, if_pos hlen]
    exact iff_of_true rfl (.inl hlen)
  · rw [userCheckRange_iff_of_ne hlen]
    exact ⟨.inr, fun h ↦ h.resolve_left hlen⟩

/-- All bytes of an accepted range are in the region. -/
theorem contains_of_userCheckRange {region : UserRegion} {addr len : UInt64}
    (h : userCheckRange region addr len = true) {i : ℕ} (hi : i < len.toNat) :
    region.Contains (addr.toNat + i) := by
  rcases userCheckRange_iff.1 h with rfl | ⟨-, -, hle, hlimit⟩
  · exact absurd hi (Nat.not_lt_zero i)
  · exact ⟨by omega, by omega⟩

/-! ## Copying -/

/-- The addresses of a range, as they are computed. -/
def addresses (src : UInt64) (n : ℕ) (i : UInt64) : List UInt64 :=
  (List.range n).map fun k ↦ src + (i + UInt64.ofNat k)

theorem read_copyLoop (dst src : UInt64) (n : ℕ) (i : UInt64) (m : Memory) :
    (copyLoop dst src n i m).read = m.read ++ addresses src n i := by
  induction n generalizing i m with
  | zero => exact (List.append_nil _).symm
  | succ n ih =>
    have hshift : ∀ k : ℕ, src + (i + 1 + UInt64.ofNat k) = src + (i + UInt64.ofNat (k + 1)) := by
      intro k
      rw [UInt64.ofNat_add, UInt64.add_assoc i, UInt64.add_comm 1]
      rfl
    rw [copyLoop, ih, Memory.copyByte, addresses, addresses, List.range_succ_eq_map, List.map_cons,
      List.map_map, List.append_assoc, List.singleton_append]
    simp only [Function.comp_def, hshift, Nat.succ_eq_add_one]
    rw [show UInt64.ofNat 0 = 0 from rfl, UInt64.add_zero]

/-- `mcsos_copy_from_user` reads the range it is given, or nothing. -/
theorem read_copyFromUser (region : UserRegion) (dst src len : UInt64) (m : Memory) :
    (copyFromUser region dst src len m).2.read = m.read ∨
      (copyFromUser region dst src len m).1 = .ok ∧ userCheckRange region src len = true ∧
      (copyFromUser region dst src len m).2.read = m.read ++ addresses src len.toNat 0 := by
  rw [copyFromUser]
  split
  · exact .inl rfl
  · split
    · exact .inl rfl
    · split
      · exact .inl rfl
      · rename_i hrange
        exact .inr ⟨rfl, by simpa using hrange, read_copyLoop dst src _ 0 m⟩

/-- The addresses of an accepted range are in the region, and none of them wraps. -/
theorem contains_addresses {region : UserRegion} {src len : UInt64}
    (h : userCheckRange region src len = true) {a : UInt64} (ha : a ∈ addresses src len.toNat 0) :
    region.Contains a.toNat := by
  obtain ⟨i, hi, rfl⟩ := List.mem_map.1 ha
  have hin := contains_of_userCheckRange h (List.mem_range.1 hi)
  have hlimit := region.limit.toNat_lt
  have hlt : src.toNat + i < 2 ^ 64 := lt_trans hin.2 hlimit
  have hi' : i < 2 ^ 64 := by omega
  rwa [UInt64.zero_add, UInt64.toNat_add, UInt64.toNat_ofNat', Nat.mod_eq_of_lt hi',
    Nat.mod_eq_of_lt hlt]

/-! ## System calls -/

section Calls

variable {K : Type} {s s' : State K}

/-- The state after a system call: the calls it has made on behalf of the user are `new`. -/
structure Made (s : State K) (new : List Service) (s' : State K) : Prop where
  calls : s'.calls = s.calls ++ new
  ops : s'.ops = s.ops
  userRegion : s'.userRegion = s.userRegion

theorem Made.refl (s : State K) : Made s [] s := ⟨(List.append_nil _).symm, rfl, rfl⟩

/-- A registered function is called once, whether it is there or not. -/
theorem callService_ends {α : Type} (service : Service) (f : Option (K → α × K)) :
    Ends (callService service f) s (fun _ s' ↦ Made s [service] s')
      fun _ s' ↦ Made s [service] s' ∧ f = none := by
  refine ends_modify (ends_expect (fun hf ↦ ⟨⟨rfl, rfl, rfl⟩, hf⟩) fun g _ ↦ ?_)
  exact ends_of_ok rfl ⟨rfl, rfl, rfl⟩

/-- What a system call may do: the ranges that it passes to `write_serial` have been checked. -/
def Passes (s s' : State K) : Prop :=
  ∃ new, Made s new s' ∧ ∀ ptr len, .writeSerial ptr len ∈ new →
    userCheckRange s.userRegion ptr len = true

theorem Passes.refl (s : State K) : Passes s s :=
  ⟨[], .refl s, fun _ _ h ↦ absurd h List.not_mem_nil⟩

/-- A fault comes from a function that is missing. -/
theorem callService_passes {α : Type} {service : Service} {f : Option (K → α × K)}
    (hservice : ∀ ptr len, service = .writeSerial ptr len →
      userCheckRange s.userRegion ptr len = true) :
    Ends (callService service f) s (fun _ s' ↦ Passes s s') fun _ s' ↦ Passes s s' ∧ f = none := by
  have hpasses : ∀ s', Made s [service] s' → Passes s s' := fun s' h ↦
    ⟨[service], h, fun ptr len hmem ↦ hservice ptr len (List.mem_singleton.1 hmem).symm⟩
  exact (callService_ends service f).mono (fun _ s' h ↦ hpasses s' h)
    fun _ s' h ↦ ⟨hpasses s' h.1, h.2⟩

/-- The calls that take no range: they do not call a function that is missing. -/
theorem optionalCall_passes {α β : Type} {service : Service} {o : Option β}
    {f : Option (K → α × K)} {g : α → M K Int64} {x : Int64} (hf : f = none → o = none)
    (hg : ∀ a s', Ends (g a) s' (fun _ s'' ↦ s'' = s') fun _ _ ↦ False)
    (hservice : ∀ ptr len, service ≠ .writeSerial ptr len) :
    Ends (if o.isNone then pure x else callService service f >>= g : M K Int64) s
      (fun _ s' ↦ Passes s s') fun _ _ ↦ False := by
  split
  · exact ends_pure (.refl s)
  · rename_i hsome
    have hcall : Ends (callService service f) s (fun _ s' ↦ Passes s s') _ :=
      callService_passes fun ptr len h ↦ absurd h (hservice ptr len)
    refine ends_bind (hcall.mono (fun _ _ h ↦ h) fun _ _ h ↦ ?_) fun a s' h ↦ ?_
    · exact hsome (by rw [hf h.2]; rfl)
    · exact (hg a s').mono (fun _ s'' h' ↦ h' ▸ h) fun _ _ h' ↦ h'

/-- **A system call passes on bytes of the user only**, and does not call a function that is missing
once `write_serial` is there. -/
theorem syscallDispatch_ends (nr : UInt64) (args : Args) :
    Ends (syscallDispatch nr args) s (fun _ s' ↦ Passes s s')
      fun _ s' ↦ Passes s s' ∧ s.ops.writeSerial = none := by
  have hpure : ∀ x : Int64, Ends (pure x : M K Int64) s (fun _ s' ↦ Passes s s')
      fun _ s' ↦ Passes s s' ∧ s.ops.writeSerial = none := fun x ↦ ends_pure (.refl s)
  have hnone : ∀ {α : Type} {o : Option α} {β : Type} (h : α → β), o.map h = none → o = none :=
    fun _ h ↦ Option.map_eq_none_iff.1 h
  rw [syscallDispatch]
  split
  · exact hpure _
  cases hfn : (table : List (Args → M K Int64))[nr.toNat]? with
  | none => exact hpure _
  | some fn =>
    have hmem : fn ∈ (table : List (Args → M K Int64)) := List.mem_of_getElem? hfn
    simp only [table, List.mem_cons, List.not_mem_nil, or_false] at hmem
    rcases hmem with rfl | rfl | rfl | rfl | rfl
    · exact hpure _
    · exact ends_get ((optionalCall_passes id (fun a s' ↦ ends_pure rfl) (by simp)).mono
        (fun _ _ h ↦ h) fun _ _ h ↦ h.elim)
    · -- the only one with a range
      refine ends_get ?_
      split
      · exact hpure _
      · split
        · exact hpure _
        · split
          · exact hpure _
          · rename_i hrange
            refine (callService_passes fun ptr len h ↦ ?_).mono (fun _ _ h ↦ h)
              fun _ s' h ↦ ⟨h.1, hnone _ h.2⟩
            cases h
            simpa using hrange
    · exact ends_get ((optionalCall_passes (hnone _) (fun a s' ↦ ends_pure rfl) (by simp)).mono
        (fun _ _ h ↦ h) fun _ _ h ↦ h.elim)
    · exact ends_get ((optionalCall_passes (hnone _) (fun a s' ↦ ends_pure rfl) (by simp)).mono
        (fun _ _ h ↦ h) fun _ _ h ↦ h.elim)

end Calls

/-! ## The two checks -/

end Syscall
end Mcsos
