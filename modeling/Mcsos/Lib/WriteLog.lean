import Mathlib.Data.List.Basic
import Mathlib.Logic.Function.Basic

/-!
# Sequences of writes

A disk is a function from addresses to blocks, and a batch of writes is a list of address–block
pairs, performed from left to right.  Crash reasoning needs very little about such batches:

* an address no write of the batch mentions keeps its block (`applyAll_of_forall_ne`);
* an address some write mentions ends up with the same block whatever it held before
  (`applyAll_congr`);
* hence redoing a whole batch over any prefix of itself is the same as doing it once
  (`applyAll_applyAll_take`), which is why a redo log may be replayed any number of times and cut
  off anywhere in between.

Everything is stated for an arbitrary address type; `AgreeOn` is equality of two disks on the
addresses one cares about.  `agreeOn_redirect_iff` says when it cannot be told whether a write of a
batch has gone to the one address or the other.
-/

set_option autoImplicit false

namespace WriteLog

universe u v

variable {ι : Type u} {β : Type v} [DecidableEq ι]

/-- Perform a batch of writes, first to last. -/
def applyAll (ws : List (ι × β)) (d : ι → β) : ι → β :=
  ws.foldl (fun d w ↦ Function.update d w.1 w.2) d

@[simp] theorem applyAll_nil (d : ι → β) : applyAll [] d = d := rfl

@[simp] theorem applyAll_cons (w : ι × β) (ws : List (ι × β)) (d : ι → β) :
    applyAll (w :: ws) d = applyAll ws (Function.update d w.1 w.2) := rfl

theorem applyAll_append (ws vs : List (ι × β)) (d : ι → β) :
    applyAll (ws ++ vs) d = applyAll vs (applyAll ws d) :=
  List.foldl_append ..

theorem applyAll_of_forall_ne {ws : List (ι × β)} {d : ι → β} {x : ι}
    (h : ∀ w ∈ ws, w.1 ≠ x) : applyAll ws d x = d x := by
  induction ws generalizing d with
  | nil => rfl
  | cons w ws ih =>
    rw [applyAll_cons, ih fun v hv ↦ h v (List.mem_cons_of_mem _ hv),
      Function.update_of_ne (h w List.mem_cons_self).symm]

/-- The old block of an address matters only if no write mentions the address. -/
theorem applyAll_congr {ws : List (ι × β)} {a b : ι → β} {x : ι}
    (h : (∀ w ∈ ws, w.1 ≠ x) → a x = b x) : applyAll ws a x = applyAll ws b x := by
  induction ws generalizing a b with
  | nil => exact h (by simp)
  | cons w ws ih =>
    rw [applyAll_cons, applyAll_cons]
    refine ih fun hws ↦ ?_
    by_cases hw : x = w.1
    · rw [hw, Function.update_self, Function.update_self]
    · rw [Function.update_of_ne hw, Function.update_of_ne hw]
      exact h (List.forall_mem_cons.2 ⟨Ne.symm hw, hws⟩)

/-- **Replay is idempotent**, even over a replay that was cut short: redoing the whole batch over
the first `m` of its writes is the same as doing it once. -/
theorem applyAll_applyAll_take (ws : List (ι × β)) (m : ℕ) (d : ι → β) :
    applyAll ws (applyAll (ws.take m) d) = applyAll ws d := by
  funext x
  exact applyAll_congr fun h ↦ applyAll_of_forall_ne fun w hw ↦ h w (List.mem_of_mem_take hw)

/-- The last write to an address wins. -/
theorem applyAll_append_singleton_self (ws : List (ι × β)) (d : ι → β) (x : ι) (v : β) :
    applyAll (ws ++ [(x, v)]) d x = v := by
  rw [applyAll_append, applyAll_cons, applyAll_nil, Function.update_self]

/-! ## Agreement on a set of addresses -/

/-- The two disks hold the same blocks at all addresses in `S`. -/
def AgreeOn (S : ι → Prop) (a b : ι → β) : Prop := ∀ x, S x → a x = b x

namespace AgreeOn

variable {S : ι → Prop} {a b c : ι → β}

omit [DecidableEq ι] in
theorem refl (a : ι → β) : AgreeOn S a a := fun _ _ ↦ rfl

omit [DecidableEq ι] in
theorem symm (h : AgreeOn S a b) : AgreeOn S b a := fun x hx ↦ (h x hx).symm

omit [DecidableEq ι] in
theorem trans (h : AgreeOn S a b) (h' : AgreeOn S b c) : AgreeOn S a c :=
  fun x hx ↦ (h x hx).trans (h' x hx)

theorem applyAll (h : AgreeOn S a b) (ws : List (ι × β)) :
    AgreeOn S (applyAll ws a) (applyAll ws b) :=
  fun x hx ↦ applyAll_congr fun _ ↦ h x hx

/-- Writes outside `S` go unnoticed. -/
theorem applyAll_left (h : AgreeOn S a b) {ws : List (ι × β)} (hws : ∀ w ∈ ws, ¬ S w.1) :
    AgreeOn S (WriteLog.applyAll ws a) b := fun x hx ↦
  (applyAll_of_forall_ne fun w hw hwx ↦ hws w hw (hwx ▸ hx)).trans (h x hx)

theorem update_left (h : AgreeOn S a b) {x : ι} (hx : ¬ S x) (v : β) :
    AgreeOn S (Function.update a x v) b := by
  show AgreeOn S (WriteLog.applyAll [(x, v)] a) b
  exact h.applyAll_left (by simpa using hx)

end AgreeOn

/-! ## A write that goes to another address -/

/-- One cannot tell whether `v` has been written to `x` between the batches `ws` and `vs`: a later
write covers it, or it was there before. -/
def Unnoticed (ws vs : List (ι × β)) (d : ι → β) (v : β) (x : ι) : Prop :=
  (∃ w ∈ vs, w.1 = x) ∨ applyAll ws d x = v

/-- A batch hides the difference between two disks where it writes, and nowhere else. -/
theorem applyAll_eq_iff {ws : List (ι × β)} {a b : ι → β} {x : ι} :
    applyAll ws a x = applyAll ws b x ↔ (∃ w ∈ ws, w.1 = x) ∨ a x = b x := by
  constructor
  · intro h
    by_cases hws : ∃ w ∈ ws, w.1 = x
    · exact .inl hws
    · have hne : ∀ w ∈ ws, w.1 ≠ x := fun w hw hwx ↦ hws ⟨w, hw, hwx⟩
      rw [applyAll_of_forall_ne hne, applyAll_of_forall_ne hne] at h
      exact .inr h
  · rintro (⟨w, hw, hwx⟩ | h)
    · exact applyAll_congr fun hne ↦ absurd hwx (hne w hw)
    · exact applyAll_congr fun _ ↦ h

/-- A write in the middle of a batch that goes to `y` instead of `x` makes a difference unless it
goes unnoticed at both. -/
theorem agreeOn_redirect_iff (S : ι → Prop) (ws vs : List (ι × β)) (d : ι → β) {x y : ι} (v : β)
    (hxy : x ≠ y) :
    AgreeOn S (applyAll (ws ++ (y, v) :: vs) d) (applyAll (ws ++ (x, v) :: vs) d) ↔
      (S x → Unnoticed ws vs d v x) ∧ (S y → Unnoticed ws vs d v y) := by
  simp only [AgreeOn, applyAll_append, applyAll_cons, applyAll_eq_iff]
  constructor
  · intro h
    refine ⟨fun hx ↦ ?_, fun hy ↦ ?_⟩
    · simpa [Unnoticed, Function.update_of_ne hxy] using h x hx
    · refine (h y hy).imp_right fun heq ↦ ?_
      simpa [Function.update_of_ne hxy.symm] using heq.symm
  · rintro ⟨hx, hy⟩ z hz
    by_cases hzx : z = x
    · subst hzx
      simpa [Unnoticed, Function.update_of_ne hxy] using hx hz
    by_cases hzy : z = y
    · subst hzy
      refine (hy hz).imp_right fun heq ↦ ?_
      simpa [Function.update_of_ne hxy.symm] using heq.symm
    · rw [Function.update_of_ne hzx, Function.update_of_ne hzy]
      exact .inr rfl

end WriteLog
