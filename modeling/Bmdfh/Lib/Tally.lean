import Bmdfh.Lib.OrdMap
import Mathlib.Algebra.BigOperators.Fin
import Mathlib.Data.Fintype.BigOperators
import Mathlib.Algebra.Order.BigOperators.Group.Finset

/-!
# Running tallies

Abstractly, every holder `i : ι` has at most one holding, a weight at a key, and `total h k` is
the sum of the weights held at `k`. Concretely, a tally keeps a machine word for each key: `add`
wraps around, `sub` erases a key as soon as the amount taken reaches the word kept.

* `Exact t T`: the tally keeps exactly the nonzero totals. Kept by `add` and `sub` as long as the
  totals fit a word (`Exact.add`, `Exact.sub`), and determines the tally (`Exact.unique`).
* `Bounded t T`: the tally keeps at most the totals. Kept by `add` and `sub` with no condition
  (`Bounded.add`, `Bounded.sub`).
* `Reads t T`: the tally reads as the totals, a missing key as zero; unlike `Exact`, a key may be
  kept at zero. Kept by `add` as long as the totals fit a word, and by `sub`.
* `Kept R C`: what the three have in common.
-/

namespace Tally

open Std OrdMap

/-! ## Holdings -/

section
variable {ι κ : Type} [DecidableEq κ]

/-- The weight a holding has at `k`. -/
def weightAt (k : κ) : Option (κ × Nat) → Nat
  | none => 0
  | some (k', w) => if k' = k then w else 0

@[simp] theorem weightAt_none (k : κ) : weightAt k none = 0 := rfl

@[simp] theorem weightAt_some (k k' : κ) (w : Nat) :
    weightAt k (some (k', w)) = if k' = k then w else 0 := rfl

variable [Fintype ι]

/-- The sum of all weights held at `k`. -/
noncomputable def total (h : ι → Option (κ × Nat)) (k : κ) : Nat := ∑ i, weightAt k (h i)

@[simp] theorem total_none (k : κ) : total (fun _ : ι => none) k = 0 := by simp [total]

theorem weightAt_le_total (h : ι → Option (κ × Nat)) (i : ι) (k : κ) :
    weightAt k (h i) ≤ total h k :=
  Finset.single_le_sum (f := fun j => weightAt k (h j)) (fun _ _ => Nat.zero_le _)
    (Finset.mem_univ i)

/-- A nonzero total is held by someone. -/
theorem exists_of_total_pos {h : ι → Option (κ × Nat)} {k : κ} (hp : 0 < total h k) :
    ∃ i w, h i = some (k, w) ∧ 0 < w := by
  obtain ⟨i, -, hi⟩ := Finset.exists_ne_zero_of_sum_ne_zero (Nat.pos_iff_ne_zero.1 hp)
  cases hx : h i with
  | none => simp [hx] at hi
  | some x =>
    obtain ⟨k', w⟩ := x
    rw [hx, weightAt_some] at hi
    split at hi
    · rename_i hk
      subst hk
      exact ⟨i, w, hx, Nat.pos_of_ne_zero hi⟩
    · exact absurd rfl hi

/-- Replacing one holding: the new weight for the old one. -/
theorem total_update [DecidableEq ι] (h : ι → Option (κ × Nat)) (i : ι) (x : Option (κ × Nat))
    (k : κ) :
    total (Function.update h i x) k + weightAt k (h i) = total h k + weightAt k x := by
  have hrest : ∑ j ∈ Finset.univ.erase i, weightAt k (Function.update h i x j)
      = ∑ j ∈ Finset.univ.erase i, weightAt k (h j) :=
    Finset.sum_congr rfl fun j hj => by rw [Function.update_of_ne (Finset.ne_of_mem_erase hj)]
  have h1 := Finset.add_sum_erase Finset.univ (fun j => weightAt k (Function.update h i x j))
    (Finset.mem_univ i)
  have h2 := Finset.add_sum_erase Finset.univ (fun j => weightAt k (h j)) (Finset.mem_univ i)
  simp only [Function.update_self, hrest] at h1
  simp only [total]
  omega

end

/-! ## Words -/

section
variable {κ : Type} [Ord κ] [TransOrd κ]

def add (t : ExtTreeMap κ UInt32) (k : κ) (q : UInt32) : ExtTreeMap κ UInt32 :=
  t.insert k (t.getD k 0 + q)

def sub (t : ExtTreeMap κ UInt32) (k : κ) (q : UInt32) : ExtTreeMap κ UInt32 :=
  match t[k]? with
  | none => t
  | some v => if v ≤ q then t.erase k else t.insert k (v - q)

/-! ## Exact and bounded tallies -/

/-- The tally keeps the total of every key where it is not zero, and nothing else. -/
def Exact (t : ExtTreeMap κ UInt32) (T : κ → Nat) : Prop :=
  ∀ k, T k < 2 ^ 32 ∧ t[k]? = if T k = 0 then none else some (UInt32.ofNat (T k))

variable {t t' : ExtTreeMap κ UInt32} {T T' : κ → Nat} {k : κ} {q : UInt32}

theorem Exact.empty : Exact (∅ : ExtTreeMap κ UInt32) fun _ => 0 := fun k => by simp

theorem Exact.get (h : Exact t T) {v : UInt32} (hv : t[k]? = some v) : v.toNat = T k ∧ 0 < T k := by
  obtain ⟨hlt, hg⟩ := h k
  rw [hv] at hg
  split at hg
  · cases hg
  · simp only [Option.some.injEq] at hg
    rw [hg, UInt32.toNat_ofNat_of_lt' hlt]
    omega

theorem Exact.get_isSome (h : Exact t T) : (t[k]?).isSome ↔ 0 < T k := by
  rw [(h k).2]
  split
  · simp; omega
  · simp; omega

/-- The tally keeps at most the total of every key. -/
def Bounded (t : ExtTreeMap κ UInt32) (T : κ → Nat) : Prop :=
  ∀ k v, t[k]? = some v → v.toNat ≤ T k

theorem Bounded.empty : Bounded (∅ : ExtTreeMap κ UInt32) fun _ => 0 := fun k v h => by simp at h

/-- The word kept at a key, zero where there is none. -/
def read (t : ExtTreeMap κ UInt32) (k : κ) : Nat := ((t[k]?).getD 0).toNat

theorem read_lt (t : ExtTreeMap κ UInt32) (k : κ) : read t k < 2 ^ 32 := UInt32.toNat_lt _

/-- The tally reads as the total of every key. -/
def Reads (t : ExtTreeMap κ UInt32) (T : κ → Nat) : Prop := ∀ k, read t k = T k

theorem Reads.empty : Reads (∅ : ExtTreeMap κ UInt32) fun _ => 0 := fun k => by simp [read]

theorem Reads.lt (h : Reads t T) (k : κ) : T k < 2 ^ 32 := h k ▸ read_lt t k

variable [LawfulEqOrd κ]

theorem Exact.unique (h : Exact t T) (h' : Exact t' T) : t = t' :=
  ExtTreeMap.ext_getElem? fun k => by rw [(h k).2, (h' k).2]

/-! ## Adding and taking -/

theorem get_add_ne {t : ExtTreeMap κ UInt32} {k k' : κ} (q : UInt32) (h : k ≠ k') :
    (add t k q)[k']? = t[k']? := get_insert_ne t _ h

theorem get_sub_ne {t : ExtTreeMap κ UInt32} {k k' : κ} (q : UInt32) (h : k ≠ k') :
    (sub t k q)[k']? = t[k']? := by
  unfold sub
  split
  · rfl
  · split
    · exact get_erase_ne t h
    · exact get_insert_ne t _ h

theorem get_add_self (t : ExtTreeMap κ UInt32) (k : κ) (q : UInt32) :
    (add t k q)[k]? = some ((t[k]?).getD 0 + q) := by
  rw [add, get_insert_self, ExtTreeMap.getD_eq_getD_getElem?]

theorem get_sub_self (t : ExtTreeMap κ UInt32) (k : κ) (q : UInt32) :
    (sub t k q)[k]? = match t[k]? with
      | none => none
      | some v => if v ≤ q then none else some (v - q) := by
  unfold sub
  split
  · assumption
  · split
    · exact get_erase_self t k
    · exact get_insert_self t k _

/-- Taking twice is taking the sum, as long as it is a word. -/
theorem sub_sub (t : ExtTreeMap κ UInt32) (k : κ) (q r : UInt32)
    (h : q.toNat + r.toNat < 2 ^ 32) :
    sub (sub t k q) k r = sub t k (q + r) := by
  have hqr : (q + r).toNat = q.toNat + r.toNat := by
    rw [UInt32.toNat_add, Nat.mod_eq_of_lt h]
  refine ExtTreeMap.ext_getElem? fun k' => ?_
  by_cases hk : k = k'
  · subst hk
    rw [get_sub_self, get_sub_self, get_sub_self]
    cases t[k]? with
    | none => rfl
    | some v =>
      simp only [UInt32.le_iff_toNat_le, hqr]
      by_cases hvq : v.toNat ≤ q.toNat
      · rw [if_pos hvq, if_pos (by omega)]
      · have hsub := UInt32.toNat_sub_of_le v q (UInt32.le_iff_toNat_le.2 (by omega))
        rw [if_neg hvq]
        by_cases hvr : v.toNat ≤ q.toNat + r.toNat
        · rw [if_pos hvr]
          exact if_pos (by omega)
        · rw [if_neg hvr]
          refine (if_neg (by omega)).trans ?_
          congr 1
          grind
  · rw [get_sub_ne r hk, get_sub_ne q hk, get_sub_ne (q + r) hk]

/-- Adding an amount that leaves a nonzero total below the word size. -/
theorem Exact.add (h : Exact t T) (hk : T' k = T k + q.toNat) (hne : ∀ k', k ≠ k' → T' k' = T k')
    (hlt : T' k < 2 ^ 32) (hpos : 0 < T' k) : Exact (add t k q) T' := by
  intro k'
  by_cases hkk : k = k'
  · subst hkk
    refine ⟨hlt, ?_⟩
    rw [get_add_self, if_neg (by omega), Option.some.injEq, hk,
      UInt32.ofNat_add, UInt32.ofNat_toNat, (h k).2]
    congr 1
    split
    · rename_i h0; rw [h0]; rfl
    · rfl
  · rw [hne k' hkk, get_add_ne q hkk]
    exact h k'

/-- Taking an amount that the total has. -/
theorem Exact.sub (h : Exact t T) (hk : T' k + q.toNat = T k) (hne : ∀ k', k ≠ k' → T' k' = T k') :
    Exact (sub t k q) T' := by
  intro k'
  by_cases hkk : k = k'
  · subst hkk
    obtain ⟨hlt, hg⟩ := h k
    refine ⟨by omega, ?_⟩
    rw [get_sub_self]
    split
    · rename_i hv
      rw [hv] at hg
      split at hg
      · rw [if_pos (by omega)]
      · cases hg
    · rename_i v hv
      have hvn := (h.get hv).1
      by_cases hle : v ≤ q
      · rw [UInt32.le_iff_toNat_le] at hle
        rw [if_pos (UInt32.le_iff_toNat_le.2 hle), if_pos (by omega)]
      · rw [if_neg hle]
        rw [UInt32.le_iff_toNat_le] at hle
        rw [if_neg (by omega), Option.some.injEq]
        apply UInt32.toNat_inj.1
        rw [UInt32.toNat_sub_of_le _ _ (UInt32.le_iff_toNat_le.2 (by omega)),
          UInt32.toNat_ofNat_of_lt' (show T' k < 2 ^ 32 by omega)]
        omega
  · rw [hne k' hkk, get_sub_ne q hkk]
    exact h k'

theorem Bounded.add (h : Bounded t T) (hk : T' k = T k + q.toNat)
    (hne : ∀ k', k ≠ k' → T' k' = T k') : Bounded (Tally.add t k q) T' := by
  intro k' v hv
  by_cases hkk : k = k'
  · subst hkk
    rw [get_add_self, Option.some.injEq] at hv
    subst hv
    have hle : ((t[k]?).getD 0).toNat ≤ T k := by
      cases hg : t[k]? with
      | none => exact Nat.zero_le _
      | some v => exact h k v hg
    calc (((t[k]?).getD 0) + q).toNat ≤ ((t[k]?).getD 0).toNat + q.toNat := by
          rw [UInt32.toNat_add]; exact Nat.mod_le _ _
      _ ≤ T' k := by omega
  · rw [get_add_ne q hkk] at hv
    rw [hne k' hkk]
    exact h k' v hv

/-- What is left of a key after taking from it: the rest, and it is not zero. -/
theorem of_get_sub {v : UInt32} (hv : (Tally.sub t k q)[k]? = some v) :
    ∃ u : UInt32, t[k]? = some u ∧ v.toNat + q.toNat = u.toNat ∧ 0 < v.toNat := by
  rw [get_sub_self] at hv
  split at hv
  · cases hv
  · rename_i u hu
    split at hv
    · cases hv
    · rename_i hlt
      obtain rfl := Option.some.inj hv
      rw [UInt32.le_iff_toNat_le] at hlt
      have hsub := UInt32.toNat_sub_of_le u q (UInt32.le_iff_toNat_le.2 (by omega))
      exact ⟨u, hu, by omega, by omega⟩

theorem Bounded.sub (h : Bounded t T) (hk : T' k + q.toNat = T k)
    (hne : ∀ k', k ≠ k' → T' k' = T k') : Bounded (Tally.sub t k q) T' := by
  intro k' v hv
  by_cases hkk : k = k'
  · subst hkk
    obtain ⟨u, hu, hrest, -⟩ := of_get_sub hv
    have := h k u hu
    omega
  · rw [get_sub_ne q hkk] at hv
    rw [hne k' hkk]
    exact h k' v hv

theorem read_add_self (t : ExtTreeMap κ UInt32) (k : κ) (q : UInt32) :
    read (Tally.add t k q) k = (read t k + q.toNat) % 2 ^ 32 := by
  rw [read, get_add_self, Option.getD_some, UInt32.toNat_add, read]

theorem Reads.add (h : Reads t T) (hk : T' k = T k + q.toNat) (hne : ∀ k', k ≠ k' → T' k' = T k')
    (hlt : T' k < 2 ^ 32) : Reads (Tally.add t k q) T' := by
  intro k'
  by_cases hkk : k = k'
  · subst hkk
    rw [read_add_self, h k, ← hk, Nat.mod_eq_of_lt hlt]
  · rw [read, get_add_ne q hkk, hne k' hkk]
    exact h k'

theorem Reads.sub (h : Reads t T) (hk : T' k + q.toNat = T k)
    (hne : ∀ k', k ≠ k' → T' k' = T k') : Reads (Tally.sub t k q) T' := by
  intro k'
  by_cases hkk : k = k'
  · subst hkk
    have hr := h k
    rw [read] at hr ⊢
    rw [get_sub_self]
    cases hv : t[k]? with
    | none =>
      simp only [hv, Option.getD_none, UInt32.toNat_zero] at hr ⊢
      omega
    | some v =>
      simp only [hv, Option.getD_some] at hr ⊢
      by_cases hle : v ≤ q
      · rw [if_pos hle]
        rw [UInt32.le_iff_toNat_le] at hle
        simp only [Option.getD_none, UInt32.toNat_zero]
        omega
      · rw [if_neg hle]
        rw [UInt32.le_iff_toNat_le] at hle
        rw [Option.getD_some, UInt32.toNat_sub_of_le _ _ (UInt32.le_iff_toNat_le.2 (by omega))]
        omega
  · rw [read, get_sub_ne q hkk, hne k' hkk]
    exact h k'

/-! ## Relations kept by both operations -/

/-- Adding keeps `R` where the new total satisfies `C`; taking always keeps it. -/
structure Kept (R : ExtTreeMap κ UInt32 → (κ → Nat) → Prop) (C : Nat → Prop) : Prop where
  add : ∀ {t T T' k} {q : UInt32}, R t T → T' k = T k + q.toNat →
    (∀ k', k ≠ k' → T' k' = T k') → C (T' k) → R (Tally.add t k q) T'
  sub : ∀ {t T T' k} {q : UInt32}, R t T → T' k + q.toNat = T k →
    (∀ k', k ≠ k' → T' k' = T k') → R (Tally.sub t k q) T'

theorem kept_exact : Kept (κ := κ) Exact fun n => 0 < n ∧ n < 2 ^ 32 where
  add h hk hne hc := h.add hk hne hc.2 hc.1
  sub h hk hne := h.sub hk hne

theorem kept_reads : Kept (κ := κ) Reads (· < 2 ^ 32) where
  add h hk hne hc := h.add hk hne hc
  sub h hk hne := h.sub hk hne

theorem kept_bounded : Kept (κ := κ) Bounded fun _ => True where
  add h hk hne _ := h.add hk hne
  sub h hk hne := h.sub hk hne

end

end Tally
