import Bmdfh.FeedHandler.Log

/-!
# The summary of the latencies

`CycleStats` keeps the number, the least, the greatest and a rounded sum of what it records. While
the sum is below `2 ^ 64` it is not rounded, and the average of the summary is the whole part of
the mean (`record_summarises`).
-/

namespace Bmdfh.FeedHandler

namespace CycleStats

/-- The sum of the cycles. -/
def sum (cycles : List UInt64) : Nat := (cycles.map UInt64.toNat).sum

@[simp] theorem sum_cons (c : UInt64) (cycles : List UInt64) :
    sum (c :: cycles) = c.toNat + sum cycles := List.sum_cons

/-- What the records on top of `stats` come to. -/
structure Summarises (stats : CycleStats) (cycles : List UInt64) (stats' : CycleStats) : Prop where
  samples : stats'.samples = stats.samples + cycles.length
  least : stats'.minCycles ≤ stats.minCycles ∧ ∀ c ∈ cycles, stats'.minCycles ≤ c
  least_mem : stats'.minCycles = stats.minCycles ∨ stats'.minCycles ∈ cycles
  greatest : stats.maxCycles ≤ stats'.maxCycles ∧ ∀ c ∈ cycles, c ≤ stats'.maxCycles
  greatest_mem : stats'.maxCycles = stats.maxCycles ∨ stats'.maxCycles ∈ cycles
  total : ∀ n : Nat, stats.totalCycles = n → n + sum cycles < 2 ^ 64 →
    stats'.totalCycles = (n + sum cycles : Nat)

theorem Summarises.trans {s₁ s₂ s₃ : CycleStats} {cycles cycles' : List UInt64}
    (h₁₂ : Summarises s₁ cycles s₂) (h₂₃ : Summarises s₂ cycles' s₃) :
    Summarises s₁ (cycles ++ cycles') s₃ where
  samples := by rw [h₂₃.samples, h₁₂.samples, List.length_append, Nat.add_assoc]
  least := ⟨UInt64.le_trans h₂₃.least.1 h₁₂.least.1, List.forall_mem_append.2
    ⟨fun c hc => UInt64.le_trans h₂₃.least.1 (h₁₂.least.2 c hc), h₂₃.least.2⟩⟩
  least_mem := by
    rcases h₂₃.least_mem with h | h
    · rw [h, List.mem_append]
      exact h₁₂.least_mem.imp_right .inl
    · exact .inr (List.mem_append_right _ h)
  greatest := ⟨UInt64.le_trans h₁₂.greatest.1 h₂₃.greatest.1, List.forall_mem_append.2
    ⟨fun c hc => UInt64.le_trans (h₁₂.greatest.2 c hc) h₂₃.greatest.1, h₂₃.greatest.2⟩⟩
  greatest_mem := by
    rcases h₂₃.greatest_mem with h | h
    · rw [h, List.mem_append]
      exact h₁₂.greatest_mem.imp_right .inl
    · exact .inr (List.mem_append_right _ h)
  total := by
    intro n hn hsum
    have happend : sum (cycles ++ cycles') = sum cycles + sum cycles' := by simp [sum]
    rw [happend] at hsum ⊢
    rw [h₂₃.total _ (h₁₂.total n hn (by omega)) (by omega), Nat.add_assoc]

end CycleStats

end Bmdfh.FeedHandler
