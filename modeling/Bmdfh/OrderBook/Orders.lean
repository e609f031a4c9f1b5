import Bmdfh.Lib.Tally
import Bmdfh.OrderBook.Book
import Mathlib.Data.FinEnum

/-!
# What the order book is for

The abstract book: the set of live orders alone (`Orders`), what each message does to it
(`Orders.step`) and the aggregates a reader wants of it, as unbounded sums (`Orders.sum`).
-/

namespace Bmdfh

open Protocol Tally

/-- The live orders, by order id. -/
abbrev Orders := UInt64 → Option OrderState

namespace Orders

def empty : Orders := fun _ => none

/-- An order of `x` after `q` of it was executed. -/
def remaining (x : OrderState) (q : UInt32) : Option OrderState :=
  if x.quantity ≤ q then none else some { x with quantity := x.quantity - q }

theorem remaining_eq_none {x : OrderState} {q : UInt32} :
    remaining x q = none ↔ x.quantity ≤ q := by
  simp [remaining]

theorem remaining_eq_some {x y : OrderState} {q : UInt32} :
    remaining x q = some y ↔ q < x.quantity ∧ y = { x with quantity := x.quantity - q } := by
  rw [← UInt32.not_le]
  unfold remaining
  by_cases h : x.quantity ≤ q
  · simp [h]
  · simp [h, eq_comm]

/-- What is left of an order, with the amount gone: the order. -/
theorem toNat_remaining {x y : OrderState} {q : UInt32} (h : remaining x q = some y) :
    y.quantity.toNat + q.toNat = x.quantity.toNat := by
  obtain ⟨hlt, rfl⟩ := remaining_eq_some.1 h
  rw [UInt32.lt_iff_toNat_lt] at hlt
  rw [UInt32.toNat_sub_of_le _ _ (UInt32.le_iff_toNat_le.2 (by omega))]
  omega

/-- What a message makes of the order it names (`none`: no such order). -/
def next (o : Option OrderState) : Message → Option OrderState
  | .addOrder m =>
    match m.decodeSide with
    | none => o
    | some side => some { side, quantity := m.decodeQuantity, price := m.decodePrice }
  | .modifyOrder m =>
    o.bind fun x =>
      if m.decodeQuantity = 0 then none
      else some { x with price := m.decodePrice, quantity := m.decodeQuantity }
  | .deleteOrder _ => none
  | .trade m => o.bind fun x => remaining x m.decodeQuantity

def step (o : Orders) (m : Message) : Orders :=
  Function.update o m.orderId (next (o m.orderId) m)

def run (o : Orders) (ms : List Message) : Orders := ms.foldl step o

/-! ## Aggregates -/

/-- An order as a holding of its quantity at its side and price. -/
def held : Option OrderState → Option ((Side × UInt32) × Nat) :=
  Option.map fun x => ((x.side, x.price), x.quantity.toNat)

/-- The sum of the quantities of the live orders of `side` at `price`. -/
noncomputable def sum (o : Orders) (side : Side) (price : UInt32) : Nat :=
  total (fun id => held (o id)) (side, price)

/-- Some live order of `side` rests at `price`. -/
def Rests (o : Orders) (side : Side) (price : UInt32) : Prop :=
  ∃ id x, o id = some x ∧ x.side = side ∧ x.price = price

/-- What an order adds to the sum of `side` and `price`. -/
def weight (side : Side) (price : UInt32) (x : Option OrderState) : Nat :=
  weightAt (side, price) (held x)

@[simp] theorem weight_none (s : Side) (p : UInt32) : weight s p none = 0 := rfl

theorem weight_some (s : Side) (p : UInt32) (x : OrderState) :
    weight s p (some x) = if x.side = s ∧ x.price = p then x.quantity.toNat else 0 := by
  simp [weight, held]

@[simp] theorem sum_empty (s : Side) (p : UInt32) : sum empty s p = 0 := total_none _

/-- Replacing one order: the new quantity for the old one. -/
theorem sum_update (o : Orders) (id : UInt64) (x : Option OrderState) (s : Side) (p : UInt32) :
    sum (Function.update o id x) s p + weight s p (o id) = sum o s p + weight s p x := by
  have h := total_update (fun i => held (o i)) id (held x) (s, p)
  have hu : (fun i => held (Function.update o id x i))
      = Function.update (fun i => held (o i)) id (held x) := by
    funext i
    exact (Function.apply_update (fun _ => held) o id x i)
  rw [sum, hu]
  exact h

theorem weight_le_sum (o : Orders) (id : UInt64) (s : Side) (p : UInt32) :
    weight s p (o id) ≤ sum o s p := weightAt_le_total (fun i => held (o i)) id (s, p)

theorem rests_of_sum_pos {o : Orders} {s : Side} {p : UInt32} (h : 0 < sum o s p) :
    Rests o s p := by
  obtain ⟨id, w, hw, -⟩ := exists_of_total_pos h
  simp only [held, Option.map_eq_some_iff, Prod.mk.injEq] at hw
  obtain ⟨x, hx, ⟨hs, hp⟩, -⟩ := hw
  exact ⟨id, x, hx, hs, hp⟩

theorem sum_pos_of_rests {o : Orders} {s : Side} {p : UInt32} (h : Rests o s p)
    (hpos : ∀ id x, o id = some x → 0 < x.quantity) : 0 < sum o s p := by
  obtain ⟨id, x, hx, hs, hp⟩ := h
  have hw := weight_le_sum o id s p
  rw [hx, weight_some, if_pos ⟨hs, hp⟩] at hw
  have := UInt32.lt_iff_toNat_lt.1 (hpos id x hx)
  exact Nat.lt_of_lt_of_le this hw

/-! ## Steps -/

@[simp] theorem run_nil (o : Orders) : run o [] = o := rfl

@[simp] theorem run_cons (o : Orders) (m : Message) (ms : List Message) :
    run o (m :: ms) = run (step o m) ms := rfl

theorem step_self (o : Orders) (m : Message) : step o m m.orderId = next (o m.orderId) m :=
  Function.update_self ..

theorem step_ne (o : Orders) {m : Message} {id : UInt64} (h : id ≠ m.orderId) :
    step o m id = o id := Function.update_of_ne h ..

theorem step_makeAddOrderMsg (o : Orders) (id : UInt64) (s : Side) (p q : UInt32) :
    step o (.addOrder (makeAddOrderMsg id s p q))
      = Function.update o id (some { side := s, quantity := q, price := p }) := by
  simp [step, next, Message.orderId, makeAddOrderMsg, AddOrderMsg.decodeSide,
    AddOrderMsg.decodeOrderId, AddOrderMsg.decodePrice, AddOrderMsg.decodeQuantity]

theorem step_makeModifyOrderMsg {o : Orders} {id : UInt64} {x : OrderState} (p : UInt32)
    {q : UInt32} (hx : o id = some x) (hq : q ≠ 0) :
    step o (.modifyOrder (makeModifyOrderMsg id p q))
      = Function.update o id (some { x with price := p, quantity := q }) := by
  simp [step, next, Message.orderId, makeModifyOrderMsg, ModifyOrderMsg.decodeOrderId,
    ModifyOrderMsg.decodePrice, ModifyOrderMsg.decodeQuantity, hx, hq]

theorem step_makeDeleteOrderMsg (o : Orders) (id : UInt64) :
    step o (.deleteOrder (makeDeleteOrderMsg id)) = Function.update o id none := by
  simp [step, next, Message.orderId, makeDeleteOrderMsg, DeleteOrderMsg.decodeOrderId]

/-- An order depends only on the messages that name it. -/
theorem run_eq_foldl (ms : List Message) (o : Orders) (id : UInt64) :
    run o ms id = (ms.filter (·.orderId = id)).foldl next (o id) := by
  induction ms generalizing o with
  | nil => rfl
  | cons m ms ih =>
    rw [run_cons, ih]
    by_cases h : m.orderId = id
    · subst h
      simp [step_self]
    · rw [step_ne o (Ne.symm h), List.filter_cons_of_neg (by simpa using h)]

/-- An add has a nonzero quantity. -/
def AddsNonzero : Message → Prop
  | .addOrder m => m.decodeQuantity ≠ 0
  | _ => True

instance : DecidablePred AddsNonzero
  | .addOrder m => inferInstanceAs (Decidable (m.decodeQuantity ≠ 0))
  | .modifyOrder _ => isTrue trivial
  | .deleteOrder _ => isTrue trivial
  | .trade _ => isTrue trivial

/-- An add that puts an order has a nonzero quantity. -/
def PutsNonzero : Message → Prop
  | .addOrder m => m.decodeSide ≠ none → m.decodeQuantity ≠ 0
  | _ => True

theorem AddsNonzero.puts {m : Message} (h : AddsNonzero m) : PutsNonzero m := by
  cases m with
  | addOrder w => exact fun _ => h
  | modifyOrder w => trivial
  | deleteOrder w => trivial
  | trade w => trivial

/-- Then every live order has a nonzero quantity. -/
theorem pos_next {o : Option OrderState} {m : Message} (hm : PutsNonzero m)
    (hpos : ∀ x, o = some x → 0 < x.quantity) : ∀ x, next o m = some x → 0 < x.quantity := by
  intro x hx
  cases m with
  | addOrder w =>
    simp only [next] at hx
    split at hx
    · exact hpos x hx
    · rename_i hs
      cases hx
      exact UInt32.pos_iff_ne_zero.2 (hm (by simp [hs]))
  | modifyOrder w =>
    simp only [next, Option.bind_eq_some_iff] at hx
    obtain ⟨y, -, hx⟩ := hx
    split at hx
    · cases hx
    · rename_i hq
      cases hx
      exact UInt32.pos_iff_ne_zero.2 hq
  | deleteOrder w => cases hx
  | trade w =>
    simp only [next, remaining, Option.bind_eq_some_iff] at hx
    obtain ⟨y, -, hx⟩ := hx
    split at hx
    · cases hx
    · rename_i hle
      cases hx
      rw [UInt32.le_iff_toNat_le] at hle
      rw [UInt32.lt_iff_toNat_lt, UInt32.toNat_sub_of_le _ _ (UInt32.le_iff_toNat_le.2 (by omega))]
      simp
      omega

theorem pos_run {o : Orders} {ms : List Message} (hms : ∀ m ∈ ms, PutsNonzero m)
    (hpos : ∀ id x, o id = some x → 0 < x.quantity) :
    ∀ id x, run o ms id = some x → 0 < x.quantity := by
  induction ms generalizing o with
  | nil => exact hpos
  | cons m ms ih =>
    refine ih (fun m hm => hms m (.tail _ hm)) fun id x hx => ?_
    by_cases h : id = m.orderId
    · subst h
      rw [step_self] at hx
      exact pos_next (hms m (.head _)) (hpos _) x hx
    · rw [step_ne o h] at hx
      exact hpos id x hx

/-! ## Sums that fit a word -/

/-- The sum of every side and price fits a word after every prefix. -/
def SumsFit (ms : List Message) : Prop :=
  ∀ pre, pre <+: ms → ∀ side price, sum (run empty pre) side price < 2 ^ 32

theorem SumsFit.of_prefix {ms pre : List Message} (h : SumsFit ms) (hpre : pre <+: ms) :
    SumsFit pre := fun p hp => h p (hp.trans hpre)

/-- The quantity a message may bring to a price. -/
def brings : Message → Nat
  | .addOrder m => m.decodeQuantity.toNat
  | .modifyOrder m => m.decodeQuantity.toNat
  | .deleteOrder _ => 0
  | .trade _ => 0

theorem weight_some_le (s : Side) (p : UInt32) (x : OrderState) :
    weight s p (some x) ≤ x.quantity.toNat := by
  rw [weight_some]
  split
  · exact Nat.le_refl _
  · exact Nat.zero_le _

theorem weight_next_le (o : Option OrderState) (m : Message) (s : Side) (p : UInt32) :
    weight s p (next o m) ≤ weight s p o + brings m := by
  cases m with
  | addOrder w =>
    simp only [next]
    split
    · exact Nat.le_add_right _ _
    · exact Nat.le_trans (weight_some_le ..) (Nat.le_add_left _ _)
  | modifyOrder w =>
    cases o with
    | none => exact Nat.zero_le _
    | some x =>
      simp only [next, Option.bind_some]
      split
      · exact Nat.zero_le _
      · exact Nat.le_trans (weight_some_le ..) (Nat.le_add_left _ _)
  | deleteOrder w => exact Nat.zero_le _
  | trade w =>
    cases o with
    | none => exact Nat.zero_le _
    | some x =>
      simp only [next, Option.bind_some, remaining]
      split
      · exact Nat.zero_le _
      · rename_i hle
        rw [UInt32.le_iff_toNat_le] at hle
        have hsub := UInt32.toNat_sub_of_le x.quantity w.decodeQuantity
          (UInt32.le_iff_toNat_le.2 (by omega))
        rw [weight_some, weight_some]
        simp only [hsub, brings, Nat.add_zero]
        split
        · exact Nat.sub_le ..
        · exact Nat.le_refl _

theorem sum_run_le (ms : List Message) (o : Orders) (s : Side) (p : UInt32) :
    sum (run o ms) s p ≤ sum o s p + (ms.map brings).sum := by
  induction ms generalizing o with
  | nil => rw [run_nil, List.map_nil, List.sum_nil, Nat.add_zero]
  | cons m ms ih =>
    have hm := weight_next_le (o m.orderId) m s p
    have hu := sum_update o m.orderId (next (o m.orderId) m) s p
    have hi := ih (step o m)
    rw [step] at hi
    rw [run_cons, step, List.map_cons, List.sum_cons]
    omega

/-- Messages that bring less than a word can hold. -/
theorem sumsFit_of_brings {ms : List Message} (h : (ms.map brings).sum < 2 ^ 32) : SumsFit ms := by
  intro pre hpre s p
  obtain ⟨post, rfl⟩ := hpre
  have := sum_run_le pre empty s p
  simp only [sum_empty, List.map_append, List.sum_append] at *
  omega

end Orders

end Bmdfh
