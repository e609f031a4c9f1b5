import Bmdfh.Lib.Outcome

/-!
# Two computations side by side

`Agree R r r'`: two runs end the same way, with the same value or the same error, in states that
the relation `R` holds between. Two sequences agree when their first parts do and the second parts
do from related states (`Agree.bind`). With `R` the graph of a function this says that a
computation on a state with more in it does what the one on the smaller state does.
-/

namespace Outcome

variable {ε σ τ α β : Type} {R : σ → τ → Prop}

/-- The same end, in related states. -/
inductive Agree (R : σ → τ → Prop) : EStateM.Result ε σ α → EStateM.Result ε τ α → Prop
  | ok {a : α} {s : σ} {t : τ} (related : R s t) : Agree R (.ok a s) (.ok a t)
  | error {e : ε} {s : σ} {t : τ} (related : R s t) : Agree R (.error e s) (.error e t)

theorem Agree.final {r : EStateM.Result ε σ α} {r' : EStateM.Result ε τ α} (h : Agree R r r') :
    R (final r) (final r') := by
  cases h with
  | ok related => exact related
  | error related => exact related

theorem Agree.of_ok {r : EStateM.Result ε σ α} {a : α} {t : τ} (h : Agree R r (.ok a t)) :
    ∃ s, r = .ok a s ∧ R s t := by
  cases h with
  | ok related => exact ⟨_, rfl, related⟩

theorem Agree.of_error {r : EStateM.Result ε σ α} {e : ε} {t : τ} (h : Agree R r (.error e t)) :
    ∃ s, r = .error e s ∧ R s t := by
  cases h with
  | error related => exact ⟨_, rfl, related⟩

theorem Agree.to_ok {r' : EStateM.Result ε τ α} {a : α} {s : σ} (h : Agree R (.ok a s) r') :
    ∃ t, r' = .ok a t ∧ R s t := by
  cases h with
  | ok related => exact ⟨_, rfl, related⟩

theorem Agree.to_error {r' : EStateM.Result ε τ α} {e : ε} {s : σ}
    (h : Agree R (.error e s) r') : ∃ t, r' = .error e t ∧ R s t := by
  cases h with
  | error related => exact ⟨_, rfl, related⟩

theorem Agree.mono {R' : σ → τ → Prop} {r : EStateM.Result ε σ α} {r' : EStateM.Result ε τ α}
    (h : Agree R r r') (hR : ∀ s t, R s t → R' s t) : Agree R' r r' := by
  cases h with
  | ok related => exact .ok (hR _ _ related)
  | error related => exact .error (hR _ _ related)

theorem get_eq (s : σ) : (get : EStateM ε σ σ) s = .ok s s := rfl

theorem modify_eq (f : σ → σ) (s : σ) :
    (modify f : EStateM ε σ PUnit) s = .ok ⟨⟩ (f s) := rfl

/-- **Sequences.** -/
theorem Agree.bind {x : EStateM ε σ α} {y : EStateM ε τ α} {f : α → EStateM ε σ β}
    {g : α → EStateM ε τ β} {s : σ} {t : τ} (hx : Agree R (x s) (y t))
    (hf : ∀ a s' t', R s' t' → Agree R (f a s') (g a t')) :
    Agree R ((x >>= f) s) ((y >>= g) t) := by
  cases hxs : x s with
  | ok a s' =>
    rw [hxs] at hx
    cases hyt : y t with
    | ok b t' =>
      rw [hyt] at hx
      cases hx with
      | ok related =>
        rw [bind_of_ok hxs, bind_of_ok hyt]
        exact hf _ _ _ related
    | error e t' =>
      rw [hyt] at hx
      cases hx
  | error e s' =>
    rw [hxs] at hx
    cases hyt : y t with
    | ok b t' =>
      rw [hyt] at hx
      cases hx
    | error e' t' =>
      rw [hyt] at hx
      cases hx with
      | error related =>
        rw [bind_of_error hxs, bind_of_error hyt]
        exact .error related

end Outcome
