import Mathlib.Logic.Relation
import Mathlib.Order.WellFounded

/-!
# What is bound to happen

A system whose steps are moves, which make progress, and quiet steps, which may be taken at any
time and any number of times. `Inevitable`: unless the moves stop although one is always possible, a
goal is reached. The rule for it is `Inevitable.of_measure`, an invariant with a measure that moves
decrease.
-/

section
variable {σ : Type} (move quiet : σ → σ → Prop) (goal : σ → Prop)

/-- The goal holds, or a move is possible and stays so during quiet steps, and after any of the
moves the goal is inevitable. -/
inductive Inevitable : σ → Prop
  | here {s : σ} (holds : goal s) : Inevitable s
  | next {s : σ} (enabled : ∀ t, Relation.ReflTransGen quiet s t → ∃ u, move t u)
      (rest : ∀ t u, Relation.ReflTransGen quiet s t → move t u → Inevitable u) : Inevitable s

end

namespace Inevitable

variable {σ μ : Type} [LT μ] [WellFoundedLT μ] {move quiet : σ → σ → Prop} {goal : σ → Prop}
  {I : μ → σ → Prop}

theorem of_measure (enabled : ∀ {m s}, I m s → ∃ t, move s t)
    (moves : ∀ {m s t}, I m s → move s t → goal t ∨ ∃ m' < m, I m' t)
    (quiets : ∀ {m s t}, I m s → quiet s t → I m t) {m : μ} {s : σ} (h : I m s) :
    Inevitable move quiet goal s := by
  induction m using WellFoundedLT.induction generalizing s with
  | ind m ih =>
    have stays : ∀ t, Relation.ReflTransGen quiet s t → I m t := by
      intro t hst
      induction hst with
      | refl => exact h
      | tail _ hq ih => exact quiets ih hq
    refine .next (fun t hst => enabled (stays t hst)) fun t u hst hm => ?_
    rcases moves (stays t hst) hm with hgoal | ⟨m', hlt, hi⟩
    · exact .here hgoal
    · exact ih m' hlt hi

/-- Moves alone can reach the goal. -/
theorem exists_run {s : σ} (h : Inevitable move quiet goal s) :
    ∃ t, Relation.ReflTransGen move s t ∧ goal t := by
  induction h with
  | @here s holds => exact ⟨s, .refl, holds⟩
  | @next s enabled _ ih =>
    obtain ⟨u, hu⟩ := enabled s .refl
    obtain ⟨t, hrun, hgoal⟩ := ih s u .refl hu
    exact ⟨t, .head hu hrun, hgoal⟩

end Inevitable
