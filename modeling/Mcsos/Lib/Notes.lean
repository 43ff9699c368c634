import Mcsos.Lib.Program

/-!
# Programs that keep notes

What a program leaves behind does not tell in which order it has gone about it.  Here a program
writes a list of notes beside its state: `silent x` runs a call of the program as it is, and `note`
adds to the list.  A program with notes speaks about the one without them if forgetting the notes
turns the one into the other (`Annotates`), which is checked call by call.

Notes are never taken back (`Appends`), so what is written first stands in front.
-/

set_option autoImplicit false

namespace Notes

open Program

variable {ε σ ν α β : Type}

/-- A call that is not worth a note. -/
def silent (x : EStateM ε σ α) : EStateM ε (σ × List ν) α :=
  zoom Prod.fst (fun s t ↦ (s, t.2)) x

/-- A note. -/
def note (n : ν) : EStateM ε (σ × List ν) PUnit := modify fun s ↦ (s.1, s.2 ++ [n])

/-- An outcome without the notes. -/
def forget : EStateM.Result ε (σ × List ν) α → EStateM.Result ε σ α
  | .ok a s => .ok a s.1
  | .error e s => .error e s.1

theorem silent_of_ok {x : EStateM ε σ α} {s s' : σ} {a : α} (h : x s = .ok a s') (ns : List ν) :
    silent x (s, ns) = .ok a (s', ns) := by
  simp [silent, zoom, h]

theorem silent_of_error {x : EStateM ε σ α} {s s' : σ} {e : ε} (h : x s = .error e s')
    (ns : List ν) : (silent x : EStateM ε (σ × List ν) α) (s, ns) = .error e (s', ns) := by
  simp [silent, zoom, h]

theorem note_apply (n : ν) (s : σ) (ns : List ν) :
    (note n : EStateM ε (σ × List ν) PUnit) (s, ns) = .ok ⟨⟩ (s, ns ++ [n]) := rfl

/-! ## Forgetting the notes -/

/-- `y` does what `x` does, and keeps notes. -/
def Annotates (y : EStateM ε (σ × List ν) α) (x : EStateM ε σ α) : Prop :=
  ∀ s, forget (y s) = x s.1

theorem annotates_silent (x : EStateM ε σ α) :
    Annotates (silent x : EStateM ε (σ × List ν) α) x := by
  rintro ⟨s, ns⟩
  cases h : x s with
  | ok a s' => rw [silent_of_ok h]; rfl
  | error e s' => rw [silent_of_error h]; rfl

theorem annotates_pure (a : α) :
    Annotates (pure a : EStateM ε (σ × List ν) α) (pure a) := fun _ ↦ rfl

theorem Annotates.bind {y : EStateM ε (σ × List ν) α} {x : EStateM ε σ α}
    {g : α → EStateM ε (σ × List ν) β} {f : α → EStateM ε σ β} (h : Annotates y x)
    (hg : ∀ a, Annotates (g a) (f a)) : Annotates (y >>= g) (x >>= f) := by
  intro s
  have hs := h s
  cases hy : y s with
  | ok a s' =>
    rw [hy] at hs
    rw [bind_of_ok hy, bind_of_ok hs.symm]
    exact hg a s'
  | error e s' =>
    rw [hy] at hs
    rw [bind_of_error hy, bind_of_error hs.symm]
    rfl

/-- A note makes no difference. -/
theorem Annotates.note_bind {y : EStateM ε (σ × List ν) α} {x : EStateM ε σ α}
    (h : Annotates y x) (n : ν) : Annotates (note n >>= fun _ ↦ y) x :=
  fun s ↦ h (s.1, s.2 ++ [n])

theorem Annotates.bind_note {y : EStateM ε (σ × List ν) PUnit} {x : EStateM ε σ PUnit}
    (h : Annotates y x) (n : ν) : Annotates (y >>= fun _ ↦ note n) x := by
  intro s
  rw [← h s]
  cases hy : y s with
  | ok a s' => rw [bind_of_ok hy]; rfl
  | error e s' => rw [bind_of_error hy]

/-! ## Notes stay -/

/-- What has been noted is not taken back. -/
def Appends (y : EStateM ε (σ × List ν) α) : Prop := ∀ s, s.2 <+: (after y s).2

theorem appends_silent (x : EStateM ε σ α) :
    Appends (silent x : EStateM ε (σ × List ν) α) := by
  rintro ⟨s, ns⟩
  cases h : x s with
  | ok a s' => simp only [after_of_ok (silent_of_ok h ns), List.prefix_rfl]
  | error e s' => simp only [after_of_error (silent_of_error h ns), List.prefix_rfl]

theorem appends_pure (a : α) : Appends (pure a : EStateM ε (σ × List ν) α) :=
  fun _ ↦ List.prefix_rfl

theorem appends_note (n : ν) : Appends (note n : EStateM ε (σ × List ν) PUnit) :=
  fun s ↦ List.prefix_append s.2 [n]

theorem Appends.bind {y : EStateM ε (σ × List ν) α} {g : α → EStateM ε (σ × List ν) β}
    (h : Appends y) (hg : ∀ a, Appends (g a)) : Appends (y >>= g) := by
  intro s
  have hs := h s
  cases hy : y s with
  | ok a s' =>
    rw [after_of_ok hy] at hs
    rw [after_bind_of_ok hy]
    exact hs.trans (hg a s')
  | error e s' =>
    rw [after_of_error hy] at hs
    rwa [after_of_error (bind_of_error hy)]

end Notes
