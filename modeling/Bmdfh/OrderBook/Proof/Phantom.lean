import Bmdfh.OrderBook.Proof.Refines

/-!
# No phantom liquidity

Whatever the messages, a level stands for some order resting there and shows at most the sum of
the orders resting there (`Backed`, `applyAll_no_phantom`). Levels may show less than the sum, or
be missing, once sums have wrapped; the bound is all that survives.
-/

namespace Bmdfh

open Std OrdMap Protocol Tally Orders

namespace OrderBook

/-- Every level is backed by an order, and no level shows more than the sum. -/
structure Backed (b : OrderBook) (o : Orders) : Prop extends Agrees Bounded b o where
  rests : ∀ s p v, (b.levels s)[p]? = some v → o.Rests s p

section
variable {b : OrderBook} {o : Orders}

/-- An order stays at rest when another id is updated, or one that did not rest there. -/
theorem rests_update {id : UInt64} (x : Option OrderState) {s : Side} {p : UInt32}
    (h : o.Rests s p) (hid : ∀ y, o id = some y → ¬ (y.side = s ∧ y.price = p)) :
    Rests (Function.update o id x) s p := by
  obtain ⟨id', y, hy, hs, hp⟩ := h
  have hne : id' ≠ id := by
    rintro rfl
    exact hid y hy ⟨hs, hp⟩
  exact ⟨id', y, by rw [Function.update_of_ne hne, hy], hs, hp⟩

theorem Backed.take (h : Backed b o) {id : UInt64} {x : OrderState} {q : UInt32}
    (hx : o id = some x) (hq : q ≤ x.quantity) :
    Backed (b.take id x q) (Function.update o id (remaining x q)) := by
  have ha := h.toAgrees.take kept_bounded hx hq
  refine ⟨ha, fun s p v hv => ?_⟩
  by_cases hsp : x.side = s ∧ x.price = p
  · -- what is left of the level is not zero, so the bound leaves an order there
    have hle := ha.level s p v hv
    have hpos : 0 < v.toNat := by
      rw [levels_take, if_pos hsp.1, ← hsp.2] at hv
      obtain ⟨_, _, _, hpos⟩ := of_get_sub hv
      exact hpos
    exact rests_of_sum_pos (Nat.lt_of_lt_of_le hpos hle)
  · rw [get_levels_take_ne b id q hsp] at hv
    refine rests_update _ (h.rests s p v hv) fun y hy => ?_
    rw [hx, Option.some.injEq] at hy
    exact hy ▸ hsp

theorem Backed.put (h : Backed b o) {id : UInt64} {y : OrderState} (ho : o id = none) :
    Backed (b.put id y) (Function.update o id (some y)) := by
  refine ⟨h.toAgrees.put kept_bounded ho trivial, fun s p v hv => ?_⟩
  by_cases hsp : y.side = s ∧ y.price = p
  · exact ⟨id, y, Function.update_self .., hsp⟩
  · rw [get_levels_put_ne b id hsp] at hv
    exact rests_update _ (h.rests s p v hv) fun z hz => by rw [ho] at hz; cases hz

theorem Backed.update (h : Backed b o) (m : Message) : Backed (b.update m) (step o m) := by
  obtain ⟨hb, ho⟩ | ⟨x, q, hx, hq, hb, ho⟩ | ⟨y, hx, hb, ho⟩ | ⟨x, y, hx, hb, ho⟩ :=
    update_step h.live m
  · rw [hb, ho]
    exact h
  · rw [hb, ho]
    exact h.take hx hq
  · rw [hb, ho]
    exact h.put hx
  · have ht := h.take hx (UInt32.le_refl x.quantity)
    rw [remaining_self] at ht
    rw [hb, ho]
    exact ht.put (Function.update_self ..)

theorem Backed.applyAll (h : Backed b o) (ms : List Message) :
    Backed (b.applyAll ms) (run o ms) := by
  induction ms generalizing b o with
  | nil => exact h
  | cons m ms ih => exact ih (h.update m)

theorem backed_empty : Backed {} Orders.empty := by
  refine ⟨agrees_empty Bounded.empty, fun s p v hv => ?_⟩
  cases s <;> simp [levels] at hv

end

/-- The books reached by messages are backed by their own live orders. -/
theorem backed_applyAll (ms : List Message) :
    Backed (applyAll {} ms) (applyAll {} ms).orders := by
  have h := backed_empty.applyAll ms
  have ho : (applyAll {} ms).orders = run empty ms := funext h.live
  rw [ho]
  exact h

/-- A side without live orders has no levels. -/
theorem Backed.levels_eq_empty {b : OrderBook} {o : Orders} (h : Backed b o) {s : Side}
    (hs : ∀ id x, o id = some x → x.side ≠ s) : b.levels s = ∅ := by
  refine ExtTreeMap.ext_getElem? fun p => ?_
  rw [ExtTreeMap.getElem?_empty]
  cases hv : (b.levels s)[p]? with
  | none => rfl
  | some v => exact absurd (h.rests s p v hv) ((forall_side_iff s).2 hs p)

/-- **No phantom liquidity.** -/
theorem applyAll_no_phantom (ms : List Message) :
    let book := applyAll {} ms
    (∀ side price q, (book.levels side)[price]? = some q →
      book.orders.Rests side price ∧ q.toNat ≤ book.orders.sum side price) ∧
    ((∀ (id : UInt64) x, book.liveOrders[id]? = some x → x.side ≠ .buy) →
      book.bids = ∅ ∧ book.bbo.bestBid = none) ∧
    ((∀ (id : UInt64) x, book.liveOrders[id]? = some x → x.side ≠ .sell) →
      book.asks = ∅ ∧ book.bbo.bestAsk = none) := by
  intro book
  have h : Backed book book.orders := backed_applyAll ms
  refine ⟨fun s p q hq => ⟨h.rests s p q hq, h.level s p q hq⟩, fun hs => ?_, fun hs => ?_⟩
  · have he : book.bids = ∅ := h.levels_eq_empty (s := .buy) hs
    exact ⟨he, bestBid_eq_none.2 fun p => by rw [he, ExtTreeMap.getElem?_empty]⟩
  · have he : book.asks = ∅ := h.levels_eq_empty (s := .sell) hs
    exact ⟨he, bestAsk_eq_none.2 fun p => by rw [he, ExtTreeMap.getElem?_empty]⟩

end OrderBook

end Bmdfh
