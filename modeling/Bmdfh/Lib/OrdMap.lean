import Std.Data.ExtTreeMap

/-!
# Ordered maps

What an iterator at either end of an ordered map points at: `first?` and `last?`, the entries of
the least and the greatest key (`first?_eq_some`, `last?_eq_some`), which stay where a map changes
only on their far side (`first?_eq_of_above`, `last?_eq_of_below`), and the entry-wise reading of
`insert` and `erase` at keys compared by equality.
-/

namespace OrdMap

open Std

/-- The head of a list sorted by an order on distinct keys is its member below all others. -/
theorem head?_eq_some_of_sorted {κ β : Type} (le : κ → κ → Prop) (hrefl : ∀ k, le k k)
    (hanti : ∀ k k', le k k' → le k' k → k = k') (key : β → κ) {l : List β} {e : β}
    (hp : l.Pairwise fun a b => le (key a) (key b) ∧ key a ≠ key b) :
    l.head? = some e ↔ e ∈ l ∧ ∀ b ∈ l, le (key e) (key b) := by
  cases l with
  | nil => simp
  | cons x l =>
    simp only [List.pairwise_cons] at hp
    simp only [List.head?_cons, Option.some.injEq, List.mem_cons]
    constructor
    · rintro rfl
      refine ⟨.inl rfl, fun b hb => ?_⟩
      rcases hb with rfl | hb
      · exact hrefl _
      · exact (hp.1 _ hb).1
    · rintro ⟨rfl | he, hle⟩
      · rfl
      · have hx := hp.1 _ he
        exact absurd (hanti _ _ hx.1 (hle _ (.inl rfl))) hx.2

variable {κ α : Type} [Ord κ] [TransOrd κ] [LawfulEqOrd κ]

theorem get_insert (m : ExtTreeMap κ α) (k k' : κ) (a : α) [Decidable (k = k')] :
    (m.insert k a)[k']? = if k = k' then some a else m[k']? := by
  simp only [ExtTreeMap.getElem?_insert, LawfulEqCmp.compare_eq_iff_eq]

theorem get_erase (m : ExtTreeMap κ α) (k k' : κ) [Decidable (k = k')] :
    (m.erase k)[k']? = if k = k' then none else m[k']? := by
  simp only [ExtTreeMap.getElem?_erase, LawfulEqCmp.compare_eq_iff_eq]

@[simp] theorem get_insert_self (m : ExtTreeMap κ α) (k : κ) (a : α) :
    (m.insert k a)[k]? = some a := by simp

@[simp] theorem get_erase_self (m : ExtTreeMap κ α) (k : κ) : (m.erase k)[k]? = none := by simp

theorem get_insert_ne (m : ExtTreeMap κ α) {k k' : κ} (a : α) (h : k ≠ k') :
    (m.insert k a)[k']? = m[k']? := by
  simp [ExtTreeMap.getElem?_insert, h]

theorem get_erase_ne (m : ExtTreeMap κ α) {k k' : κ} (h : k ≠ k') :
    (m.erase k)[k']? = m[k']? := by
  simp [ExtTreeMap.getElem?_erase, h]

@[simp] theorem erase_insert (m : ExtTreeMap κ α) (k : κ) (a : α) :
    (m.insert k a).erase k = m.erase k := by
  refine ExtTreeMap.ext_getElem? fun k' => ?_
  by_cases h : k = k'
  · subst h
    rw [get_erase_self, get_erase_self]
  · rw [get_erase_ne _ h, get_erase_ne _ h, get_insert_ne _ _ h]

@[simp] theorem insert_erase (m : ExtTreeMap κ α) (k : κ) (a : α) :
    (m.erase k).insert k a = m.insert k a := by
  refine ExtTreeMap.ext_getElem? fun k' => ?_
  by_cases h : k = k'
  · subst h
    rw [get_insert_self, get_insert_self]
  · rw [get_insert_ne _ _ h, get_insert_ne _ _ h, get_erase_ne _ h]

/-- Entries inserted one after the other: the last one of a key is what the map holds. -/
theorem get_foldl_insert [BEq κ] [LawfulBEq κ] (entries : List (κ × α)) (m : ExtTreeMap κ α)
    (k : κ) :
    (entries.foldl (fun m e => m.insert e.1 e.2) m)[k]? = (entries.reverse.lookup k).or m[k]? := by
  induction entries generalizing m with
  | nil => rfl
  | cons e entries ih =>
    rw [List.foldl_cons, ih, List.reverse_cons, List.lookup_append, Option.or_assoc]
    congr 1
    obtain ⟨k', a⟩ := e
    by_cases h : k' = k
    · subst h
      simp
    · rw [get_insert_ne _ _ h]
      simp [List.lookup_cons, beq_eq_false_iff_ne.2 (Ne.symm h)]

omit [LawfulEqOrd κ] in
/-- Erasing a key that is there. -/
theorem size_erase_of_get {m : ExtTreeMap κ α} {k : κ} {a : α} (h : m[k]? = some a) :
    (m.erase k).size + 1 = m.size := by
  have hmem : m.contains k = true := by
    rw [ExtTreeMap.contains_eq_isSome_getElem?, h]
    rfl
  have hsize := ExtTreeMap.size_erase (t := m) (k := k)
  have hpos : m.size ≠ 0 := by
    intro h0
    rw [← ExtTreeMap.eq_empty_iff_size_eq_zero] at h0
    rw [h0] at h
    cases h
  rw [if_pos hmem] at hsize
  omega

/-! ## The ends -/

/-- The entry of the least key. -/
def first? (m : ExtTreeMap κ α) : Option (κ × α) := m.toList.head?

/-- The entry of the greatest key. -/
def last? (m : ExtTreeMap κ α) : Option (κ × α) := m.toList.getLast?

theorem first?_eq_none {m : ExtTreeMap κ α} : first? m = none ↔ ∀ k : κ, m[k]? = none := by
  rw [first?, List.head?_eq_none_iff]
  constructor
  · intro h k
    cases hk : m[k]? with
    | none => rfl
    | some a =>
      have := ExtTreeMap.mem_toList_iff_getElem?_eq_some.2 hk
      rw [h] at this
      cases this
  · intro h
    refine List.eq_nil_iff_forall_not_mem.2 fun e he => ?_
    have := ExtTreeMap.mem_toList_iff_getElem?_eq_some.1 he
    rw [h] at this
    cases this

/-- The entry that bounds all others does so as well where only entries beyond it differ. -/
theorem bound_of_beyond {κ β : Type} (le : κ → κ → Prop) {f f' : κ → Option β} {k : κ} {b : β}
    (hk : f k = some b ∧ ∀ k' b', f k' = some b' → le k k')
    (h : ∀ k', f' k' = f k' ∨ le k k' ∧ k ≠ k') :
    f' k = some b ∧ ∀ k' b', f' k' = some b' → le k k' := by
  refine ⟨?_, fun k' b' hb => ?_⟩
  · rcases h k with heq | ⟨-, hne⟩
    · rw [heq, hk.1]
    · exact absurd rfl hne
  · rcases h k' with heq | ⟨hle, -⟩
    · exact hk.2 k' b' (heq ▸ hb)
    · exact hle

theorem last?_eq_none {m : ExtTreeMap κ α} : last? m = none ↔ ∀ k : κ, m[k]? = none := by
  rw [last?, List.getLast?_eq_none_iff, ← List.head?_eq_none_iff, ← first?, first?_eq_none]

section
variable [LE κ] [LawfulOrderOrd κ]

theorem sorted_toList (m : ExtTreeMap κ α) :
    m.toList.Pairwise fun a b => a.1 ≤ b.1 ∧ a.1 ≠ b.1 := by
  refine List.Pairwise.imp (fun {a b} h => ?_) (ExtTreeMap.ordered_keys_toList (t := m))
  refine ⟨isLE_compare.1 (by rw [h]; rfl), fun he => ?_⟩
  rw [he] at h
  have hr : compare b.1 b.1 = .eq := ReflCmp.compare_self
  rw [hr] at h
  cases h

variable [IsPartialOrder κ]

theorem first?_eq_some {m : ExtTreeMap κ α} {k : κ} {a : α} :
    first? m = some (k, a) ↔ m[k]? = some a ∧ ∀ k' b, m[k']? = some b → k ≤ k' := by
  rw [first?, head?_eq_some_of_sorted (· ≤ ·) IsPreorder.le_refl
    IsPartialOrder.le_antisymm Prod.fst (sorted_toList m)]
  simp only [Prod.forall, ExtTreeMap.mem_toList_iff_getElem?_eq_some]

theorem last?_eq_some {m : ExtTreeMap κ α} {k : κ} {a : α} :
    last? m = some (k, a) ↔ m[k]? = some a ∧ ∀ k' b, m[k']? = some b → k' ≤ k := by
  have hp : m.toList.reverse.Pairwise fun a b => b.1 ≤ a.1 ∧ a.1 ≠ b.1 :=
    List.pairwise_reverse.2 ((sorted_toList m).imp fun h => ⟨h.1, h.2.symm⟩)
  rw [last?, ← List.head?_reverse, head?_eq_some_of_sorted (fun k k' => k' ≤ k)
    IsPreorder.le_refl (fun k k' h h' => IsPartialOrder.le_antisymm k k' h' h) Prod.fst hp]
  simp only [Prod.forall, List.mem_reverse, ExtTreeMap.mem_toList_iff_getElem?_eq_some]

theorem first?_insert_empty (k : κ) (a : α) :
    first? ((∅ : ExtTreeMap κ α).insert k a) = some (k, a) := by
  classical
  refine first?_eq_some.2 ⟨get_insert_self _ _ _, fun k' b hb => ?_⟩
  rw [get_insert, ExtTreeMap.getElem?_empty] at hb
  split at hb
  · rename_i heq
    exact heq ▸ IsPreorder.le_refl k
  · cases hb

/-- The first entry stays when a map differs only at keys above it. -/
theorem first?_eq_of_above [LT κ] [LawfulOrderLT κ] {m m' : ExtTreeMap κ α}
    (h : ∀ k : κ, m'[k]? = m[k]? ∨ ∃ e, first? m = some e ∧ e.1 < k) : first? m' = first? m := by
  cases hm : first? m with
  | none =>
    rw [hm] at h
    exact first?_eq_none.2 fun k => by simpa [first?_eq_none.1 hm k] using h k
  | some e =>
    rw [hm] at h
    refine first?_eq_some.2
      (bound_of_beyond (· ≤ ·) (first?_eq_some.1 hm) fun k => (h k).imp_right ?_)
    rintro ⟨e', he, hlt⟩
    obtain rfl := Option.some.inj he
    exact ⟨Std.le_of_lt hlt, Std.ne_of_lt hlt⟩

/-- The last entry stays when a map differs only at keys below it. -/
theorem last?_eq_of_below [LT κ] [LawfulOrderLT κ] {m m' : ExtTreeMap κ α}
    (h : ∀ k : κ, m'[k]? = m[k]? ∨ ∃ e, last? m = some e ∧ k < e.1) : last? m' = last? m := by
  cases hm : last? m with
  | none =>
    rw [hm] at h
    exact last?_eq_none.2 fun k => by simpa [last?_eq_none.1 hm k] using h k
  | some e =>
    rw [hm] at h
    refine last?_eq_some.2
      (bound_of_beyond (fun k k' => k' ≤ k) (last?_eq_some.1 hm) fun k => (h k).imp_right ?_)
    rintro ⟨e', he, hlt⟩
    obtain rfl := Option.some.inj he
    exact ⟨Std.le_of_lt hlt, (Std.ne_of_lt hlt).symm⟩

end

end OrdMap
