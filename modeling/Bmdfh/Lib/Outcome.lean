import Mathlib.Order.Defs.Unbundled

/-!
# Computations that return or throw

A computation of `EStateM` ends in a state either way. `Leads R x` says that `x` leads every state
to one in the relation `R`, whichever way it ends. For a reflexive and transitive `R` this
composes; `Keeps P` (an invariant) and `Same f` (a frame) are such relations. The other lemmas run
a sequence whose first part is known to return or to throw.
-/

namespace Outcome

variable {ε σ α β : Type}

/-- The state a computation leaves. -/
def final : EStateM.Result ε σ α → σ
  | .ok _ s => s
  | .error _ s => s

/-! ## Sequences -/

section
variable {x : EStateM ε σ α} {f : α → EStateM ε σ β} {s s' : σ}

theorem bind_of_ok {a : α} (h : x s = .ok a s') : (x >>= f) s = f a s' := by
  show (match x s with | .ok a s => f a s | .error e s => .error e s) = _
  rw [h]

theorem bind_of_error {e : ε} (h : x s = .error e s') : (x >>= f) s = .error e s' := by
  show (match x s with | .ok a s => f a s | .error e s => .error e s) = _
  rw [h]

theorem bind_ok {b : β} {t : σ} (h : (x >>= f) s = .ok b t) :
    ∃ a s', x s = .ok a s' ∧ f a s' = .ok b t := by
  cases hx : x s with
  | ok a s' => exact ⟨a, s', rfl, (bind_of_ok hx).symm.trans h⟩
  | error e s' =>
    rw [bind_of_error hx] at h
    cases h

end

/-! ## Where a computation leads -/

/-- However `x` ends, the state it leaves is in the relation `R` to the one it starts in. -/
def Leads (R : σ → σ → Prop) (x : EStateM ε σ α) : Prop := ∀ s, R s (final (x s))

/-- `P` holds after if it holds before. -/
def Keeps (P : σ → Prop) (s s' : σ) : Prop := P s → P s'

/-- `f` reads the same before and after. -/
def Same {γ : Type} (f : σ → γ) (s s' : σ) : Prop := f s' = f s

instance (P : σ → Prop) : Std.Refl (Keeps P) := ⟨fun _ => id⟩

instance (P : σ → Prop) : IsTrans σ (Keeps P) := ⟨fun _ _ _ h h' => h' ∘ h⟩

instance {γ : Type} (f : σ → γ) : Std.Refl (Same f) := ⟨fun _ => rfl⟩

instance {γ : Type} (f : σ → γ) : IsTrans σ (Same f) := ⟨fun _ _ _ h h' => h'.trans h⟩

section
variable {R : σ → σ → Prop}

theorem Leads.ok {x : EStateM ε σ α} (h : Leads R x) {s s' : σ} {a : α} (hx : x s = .ok a s') :
    R s s' := by
  have := h s
  rw [hx] at this
  exact this

theorem Leads.error {x : EStateM ε σ α} (h : Leads R x) {s s' : σ} {e : ε}
    (hx : x s = .error e s') : R s s' := by
  have := h s
  rw [hx] at this
  exact this

theorem Leads.modify {f : σ → σ} (h : ∀ s, R s (f s)) :
    Leads R (modify f : EStateM ε σ PUnit) := h

theorem Leads.pure [Std.Refl R] (a : α) : Leads R (pure a : EStateM ε σ α) := fun s =>
  Std.Refl.refl s

theorem Leads.throw [Std.Refl R] (e : ε) : Leads R (throw e : EStateM ε σ α) := fun s =>
  Std.Refl.refl s

variable [IsTrans σ R]

/-- The second part starts in a state that the first has returned. -/
theorem Leads.bind_at {x : EStateM ε σ α} {f : α → EStateM ε σ β} {s : σ} (hx : R s (final (x s)))
    (hf : ∀ a s', x s = .ok a s' → R s' (final (f a s'))) : R s (final ((x >>= f) s)) := by
  cases h : x s with
  | ok a s' =>
    rw [h] at hx
    rw [bind_of_ok h]
    exact IsTrans.trans _ _ _ hx (hf a s' h)
  | error e s' =>
    rw [h] at hx
    rw [bind_of_error h]
    exact hx

theorem Leads.bind {x : EStateM ε σ α} {f : α → EStateM ε σ β} (hx : Leads R x)
    (hf : ∀ a, Leads R (f a)) : Leads R (x >>= f) := fun s =>
  bind_at (hx s) fun a s' _ => hf a s'

end

end Outcome
