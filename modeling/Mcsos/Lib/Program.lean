import Mathlib.Tactic.Common

/-!
# Programs that fail without undoing their effects

A C function that returns an error code has usually changed something before it returned.  The
monad `EStateM ε σ` is exactly that: an error comes with the state at the point of the error.  This
file collects what one needs in order to run such programs symbolically.

`after x s` is the state a call leaves behind, whatever it returned, and `failIf c e` is the C
idiom of an early return.  The lemmas `bind_of_ok` and
`bind_of_error` step over the first call of a sequence whose outcome is known, and `bind_congr_at`
replaces it by a call that behaves the same in the state at hand.

`Keeps P x` says that a call leaves a property of the state intact, however it returns.  It is
closed under everything programs are built from, so that a program keeps `P` as soon as its basic
calls do.
-/

set_option autoImplicit false

namespace Program

universe u

variable {ε σ α β : Type u}

/-- The state a call leaves behind, whether it succeeded or not. -/
def after (x : EStateM ε σ α) (s : σ) : σ :=
  match x s with
  | .ok _ s' => s'
  | .error _ s' => s'

/-- `if (c) return e;` -/
def failIf (c : Prop) [Decidable c] (e : ε) : EStateM ε σ PUnit :=
  if c then throw e else pure ⟨⟩

/-- The value of an optional result, or the error that its absence stands for. -/
def expect (o : Option α) (e : ε) : EStateM ε σ α :=
  match o with
  | some a => pure a
  | none => throw e

/-- Whether a call succeeds; its effect stays either way. -/
def succeeds {ε σ α : Type} (x : EStateM ε σ α) : EStateM ε σ Bool := fun s ↦
  match x s with
  | .ok _ s' => .ok true s'
  | .error _ s' => .ok false s'

/-- `x` run on a part of the state. -/
def zoom {τ : Type u} (get : σ → τ) (put : τ → σ → σ) (x : EStateM ε τ α) : EStateM ε σ α := fun s ↦
  match x (get s) with
  | .ok a t => .ok a (put t s)
  | .error e t => .error e (put t s)

/-- `x`, and if it fails, a last change of the state before the error is passed on. -/
def onError (x : EStateM ε σ α) (f : σ → σ) : EStateM ε σ α := fun s ↦
  match x s with
  | .ok a s' => .ok a s'
  | .error e s' => .error e (f s')

/-- The error a call ends in, if any. -/
def errorOf (x : EStateM ε σ α) (s : σ) : Option ε :=
  match x s with
  | .ok _ _ => none
  | .error e _ => some e

/-- What a call returns, without the state it leaves behind. -/
def result (x : EStateM ε σ α) (s : σ) : Except ε α :=
  match x s with
  | .ok a _ => .ok a
  | .error e _ => .error e

theorem after_of_ok {x : EStateM ε σ α} {s s' : σ} {a : α} (h : x s = .ok a s') :
    after x s = s' := by
  rw [after, h]

theorem after_of_error {x : EStateM ε σ α} {s s' : σ} {e : ε} (h : x s = .error e s') :
    after x s = s' := by
  rw [after, h]

theorem errorOf_of_ok {x : EStateM ε σ α} {s s' : σ} {a : α} (h : x s = .ok a s') :
    errorOf x s = none := by
  rw [errorOf, h]

theorem errorOf_of_error {x : EStateM ε σ α} {s s' : σ} {e : ε} (h : x s = .error e s') :
    errorOf x s = some e := by
  rw [errorOf, h]

theorem result_of_ok {x : EStateM ε σ α} {s s' : σ} {a : α} (h : x s = .ok a s') :
    result x s = .ok a := by
  rw [result, h]

theorem result_of_error {x : EStateM ε σ α} {s s' : σ} {e : ε} (h : x s = .error e s') :
    result x s = .error e := by
  rw [result, h]

theorem errorOf_eq_none {x : EStateM ε σ α} {s : σ} :
    errorOf x s = none ↔ ∃ a s', x s = .ok a s' := by
  rw [errorOf]
  cases x s <;> simp

theorem eq_ok_of_errorOf {x : EStateM ε σ PUnit} {s : σ} (h : errorOf x s = none) :
    x s = .ok ⟨⟩ (after x s) := by
  obtain ⟨a, s', hx⟩ := errorOf_eq_none.1 h
  rw [after_of_ok hx, hx]

theorem bind_of_ok {x : EStateM ε σ α} {f : α → EStateM ε σ β} {s s' : σ} {a : α}
    (h : x s = .ok a s') : (x >>= f) s = f a s' := by
  show EStateM.bind x f s = f a s'
  rw [EStateM.bind, h]

theorem bind_of_error {x : EStateM ε σ α} {f : α → EStateM ε σ β} {s s' : σ} {e : ε}
    (h : x s = .error e s') : (x >>= f) s = .error e s' := by
  show EStateM.bind x f s = .error e s'
  rw [EStateM.bind, h]

theorem after_bind_of_ok {x : EStateM ε σ α} {f : α → EStateM ε σ β} {s s' : σ} {a : α}
    (h : x s = .ok a s') : after (x >>= f) s = after (f a) s' := by
  rw [after, bind_of_ok h, after]

theorem bind_eq_ok {x : EStateM ε σ α} {f : α → EStateM ε σ β} {s s'' : σ} {b : β} :
    (x >>= f) s = .ok b s'' ↔ ∃ a s', x s = .ok a s' ∧ f a s' = .ok b s'' := by
  cases h : x s with
  | ok a s' => simp [bind_of_ok h]
  | error e s' => simp [bind_of_error h]

theorem onError_eq_ok {x : EStateM ε σ α} {g : σ → σ} {s s' : σ} {a : α} :
    onError x g s = .ok a s' ↔ x s = .ok a s' := by
  rw [onError]
  cases x s <;> simp

theorem bind_congr_at {x y : EStateM ε σ α} {f g : α → EStateM ε σ β} {s : σ}
    (hx : x s = y s) (hf : ∀ a s', y s = .ok a s' → f a s' = g a s') :
    (x >>= f) s = (y >>= g) s := by
  cases h : y s with
  | ok a s' => rw [bind_of_ok (hx.trans h), bind_of_ok h, hf a s' h]
  | error e s' => rw [bind_of_error (hx.trans h), bind_of_error h]

theorem get_apply (s : σ) : (get : EStateM ε σ σ) s = .ok s s := rfl

theorem modify_apply (g : σ → σ) (s : σ) : (modify g : EStateM ε σ PUnit) s = .ok ⟨⟩ (g s) := rfl

theorem failIf_of_pos {c : Prop} [Decidable c] (h : c) (e : ε) (s : σ) :
    failIf c e s = .error e s := by
  rw [failIf, if_pos h]; rfl

theorem failIf_of_neg {c : Prop} [Decidable c] (h : ¬ c) (e : ε) (s : σ) :
    failIf c e s = .ok ⟨⟩ s := by
  rw [failIf, if_neg h]; rfl

theorem expect_some (a : α) (e : ε) (s : σ) : expect (some a) e s = .ok a s := rfl

theorem expect_none (e : ε) (s : σ) : expect (none : Option α) e s = .error e s := rfl

theorem forM_congr {l : List β} {f g : β → EStateM ε σ PUnit} (h : ∀ b ∈ l, ∀ s, f b s = g b s)
    (s : σ) : l.forM f s = l.forM g s := by
  induction l generalizing s with
  | nil => rfl
  | cons b l ih =>
    exact bind_congr_at (h b List.mem_cons_self s)
      fun _ s' _ ↦ ih (fun c hc ↦ h c (List.mem_cons_of_mem _ hc)) s'

theorem forM_map {γ : Type u} {l : List β} {f : γ → EStateM ε σ PUnit} {g : β → γ} :
    (l.map g).forM f = l.forM fun b ↦ f (g b) := by
  induction l with
  | nil => rfl
  | cons b l ih => exact congrArg (fun x ↦ f (g b) >>= fun _ ↦ x) ih

/-- A loop of checks that all pass. -/
theorem forM_of_ok {l : List β} {f : β → EStateM ε σ PUnit} {s : σ}
    (h : ∀ b ∈ l, f b s = .ok ⟨⟩ s) : l.forM f s = .ok ⟨⟩ s := by
  induction l with
  | nil => rfl
  | cons b l ih =>
    show (f b >>= fun _ ↦ l.forM f) s = .ok ⟨⟩ s
    rw [bind_of_ok (h b List.mem_cons_self)]
    exact ih fun c hc ↦ h c (List.mem_cons_of_mem _ hc)

/-! ## Properties that survive a call -/

/-- However `x` returns, the property `P` of the state survives. -/
def Keeps (P : σ → Prop) (x : EStateM ε σ α) : Prop := ∀ s, P s → P (after x s)

section Keeps

variable {P : σ → Prop}

theorem keeps_of_eq {x : EStateM ε σ α} (h : ∀ s, after x s = s) : Keeps P x := fun s hs ↦
  (h s).symm ▸ hs

theorem keeps_pure (a : α) : Keeps P (pure a : EStateM ε σ α) := keeps_of_eq fun _ ↦ rfl

theorem keeps_get : Keeps P (get : EStateM ε σ σ) := keeps_of_eq fun _ ↦ rfl

theorem keeps_failIf (c : Prop) [Decidable c] (e : ε) :
    Keeps P (failIf c e : EStateM ε σ PUnit) := by
  refine keeps_of_eq fun s ↦ ?_
  by_cases h : c
  · exact after_of_error (failIf_of_pos h e s)
  · exact after_of_ok (failIf_of_neg h e s)

theorem keeps_expect (o : Option α) (e : ε) : Keeps P (expect o e : EStateM ε σ α) := by
  refine keeps_of_eq fun s ↦ ?_
  cases o with
  | none => exact after_of_error (expect_none e s)
  | some a => exact after_of_ok (expect_some a e s)

theorem keeps_bind {x : EStateM ε σ α} {f : α → EStateM ε σ β} (hx : Keeps P x)
    (hf : ∀ a, Keeps P (f a)) : Keeps P (x >>= f) := by
  intro s hs
  have hx' := hx s hs
  cases h : x s with
  | ok a s' =>
    rw [after_of_ok h] at hx'
    rw [after_bind_of_ok h]
    exact hf a s' hx'
  | error e s' =>
    rw [after_of_error h] at hx'
    rwa [after, bind_of_error h]

theorem keeps_forM {l : List β} {f : β → EStateM ε σ PUnit} (hf : ∀ b ∈ l, Keeps P (f b)) :
    Keeps P (l.forM f) := by
  induction l with
  | nil => exact keeps_pure _
  | cons b l ih =>
    exact keeps_bind (hf b List.mem_cons_self) fun _ ↦ ih fun c hc ↦
      hf c (List.mem_cons_of_mem _ hc)

end Keeps

end Program
