import Bmdfh.OrderBook.Proof.Steps

/-!
# A message touches only what it names

`Touches b m s p`: on side `s` the order that `m` names rested at price `p`, or `m` puts it there.
A `Frame` of an id and a set of levels leaves every other order and every other level alone; frames
compose, `take` and `put` are frames (`Frame.take`, `Frame.put`), and so by `update_cases` is every
message (`frame_update`). Where a side's best level is better than every level touched on it, that
side's best stays (`Frame.bbo_eq`).
-/

namespace Bmdfh

open Std OrdMap Protocol

/-- The best level of a side. -/
def BboSnapshot.best (bbo : BboSnapshot) : Side → Option Level
  | .buy => bbo.bestBid
  | .sell => bbo.bestAsk

/-- `price` is strictly better than `price'` on its side. -/
def Better : Side → UInt32 → UInt32 → Prop
  | .buy, price, price' => price' < price
  | .sell, price, price' => price < price'

namespace OrderBook

/-! ## What a message names -/

/-- The side and the price at which a message puts the order it names. -/
def putsAt (b : OrderBook) : Message → Option (Side × UInt32)
  | .addOrder m => m.decodeSide.map fun side => (side, m.decodePrice)
  | .modifyOrder m =>
    (b.liveOrders[m.decodeOrderId]?).bind fun order =>
      if m.decodeQuantity = 0 then none else some (order.side, m.decodePrice)
  | .deleteOrder _ => none
  | .trade _ => none

/-- The named order rested at the level, or the message puts it there. -/
def Touches (b : OrderBook) (m : Message) (side : Side) (price : UInt32) : Prop :=
  (∃ order, b.liveOrders[m.orderId]? = some order ∧ order.side = side ∧ order.price = price) ∨
    b.putsAt m = some (side, price)

/-- Where the order is after the message is where the message puts it, or where it was. -/
theorem touches_next {b : OrderBook} {m : Message} {y : OrderState}
    (h : Orders.next b.liveOrders[m.orderId]? m = some y) : b.Touches m y.side y.price := by
  cases m with
  | addOrder w =>
    simp only [Orders.next] at h
    cases hs : w.decodeSide with
    | none =>
      -- an order of no side leaves the one with its id
      rw [hs] at h
      exact .inl ⟨y, h, rfl, rfl⟩
    | some side =>
      rw [hs] at h
      obtain rfl := Option.some.inj h
      exact .inr (by rw [putsAt, hs]; rfl)
  | modifyOrder w =>
    obtain ⟨x, hx, hy⟩ := Option.bind_eq_some_iff.1 h
    split at hy
    · cases hy
    · rename_i hq
      obtain rfl := Option.some.inj hy
      refine .inr ?_
      rw [putsAt, show b.liveOrders[w.decodeOrderId]? = some x from hx, Option.bind_some, if_neg hq]
  | deleteOrder w => cases h
  | trade w =>
    obtain ⟨x, hx, hy⟩ := Option.bind_eq_some_iff.1 h
    obtain ⟨-, rfl⟩ := Orders.remaining_eq_some.1 hy
    exact .inl ⟨x, hx, rfl, rfl⟩

/-! ## Frames -/

/-- `b'` differs from `b` at most in the order `id` and in the levels `T`. -/
structure Frame (id : UInt64) (T : Side → UInt32 → Prop) (b b' : OrderBook) : Prop where
  orders : ∀ id', id' ≠ id → b'.liveOrders[id']? = b.liveOrders[id']?
  levels : ∀ side price, ¬ T side price → (b'.levels side)[price]? = (b.levels side)[price]?

section
variable {id : UInt64} {T : Side → UInt32 → Prop} {b b' b'' : OrderBook}

theorem Frame.refl (id : UInt64) (T : Side → UInt32 → Prop) (b : OrderBook) : Frame id T b b :=
  ⟨fun _ _ => rfl, fun _ _ _ => rfl⟩

theorem Frame.trans (h : Frame id T b b') (h' : Frame id T b' b'') : Frame id T b b'' where
  orders id' hne := (h'.orders id' hne).trans (h.orders id' hne)
  levels side price hT := (h'.levels side price hT).trans (h.levels side price hT)

theorem Frame.take (b : OrderBook) (id : UInt64) {x : OrderState} (q : UInt32)
    (hT : T x.side x.price) : Frame id T b (b.take id x q) where
  orders id' hne := (get_setOrder b.liveOrders id id' _).trans (if_neg hne.symm)
  levels side price hn := by
    refine get_levels_take_ne b id q ?_
    rintro ⟨rfl, rfl⟩
    exact hn hT

theorem Frame.put (b : OrderBook) (id : UInt64) {y : OrderState} (hT : T y.side y.price) :
    Frame id T b (b.put id y) where
  orders id' hne := get_insert_ne b.liveOrders y hne.symm
  levels side price hn := by
    refine get_levels_put_ne b id ?_
    rintro ⟨rfl, rfl⟩
    exact hn hT

/-- **The frame of a message.** -/
theorem frame_update (b : OrderBook) (m : Message) :
    Frame m.orderId (b.Touches m) b (b.update m) := by
  obtain ⟨hb, -⟩ | ⟨x, q, hx, -, -, hb⟩ | ⟨y, -, hn, hb⟩ | ⟨x, y, hx, hn, hb⟩ := update_cases b m
  · rw [hb]
    exact .refl _ _ b
  · rw [hb]
    exact .take b m.orderId q (.inl ⟨x, hx, rfl, rfl⟩)
  · rw [hb]
    exact .put b m.orderId (touches_next hn)
  · rw [hb]
    have htake := Frame.take b m.orderId (T := b.Touches m) x.quantity (.inl ⟨x, hx, rfl, rfl⟩)
    exact htake.trans (.put _ m.orderId (touches_next hn))

/-! ## The best levels -/

/-- The best levels stay when what is touched is worse. -/
theorem Frame.bbo_eq (h : Frame id T b b')
    (hworse : ∀ side price, T side price →
      ∃ best, b.bbo.best side = some best ∧ Better side best.price price) :
    b'.bbo = b.bbo := by
  have hbids : last? b'.bids = last? b.bids := by
    refine last?_eq_of_below fun price => ?_
    by_cases hT : T .buy price
    · obtain ⟨best, hbest, hlt⟩ := hworse .buy price hT
      obtain ⟨e, he, rfl⟩ := Option.map_eq_some_iff.1 hbest
      exact .inr ⟨e, he, hlt⟩
    · exact .inl (h.levels .buy price hT)
  have hasks : first? b'.asks = first? b.asks := by
    refine first?_eq_of_above fun price => ?_
    by_cases hT : T .sell price
    · obtain ⟨best, hbest, hlt⟩ := hworse .sell price hT
      obtain ⟨e, he, rfl⟩ := Option.map_eq_some_iff.1 hbest
      exact .inr ⟨e, he, hlt⟩
    · exact .inl (h.levels .sell price hT)
  rw [bbo, bbo, hbids, hasks]

end

/-- **A message touches only what it names.** Every other order and every other level is as it was;
there is no change of the best levels when each level touched had a better one on its side before;
and the two snapshots are those of the book before and after. -/
theorem apply_frame (b : OrderBook) (m : MessageView) :
    (∀ id, id ≠ m.orderId → (b.apply m).2.liveOrders[id]? = b.liveOrders[id]?) ∧
    (∀ side price, ¬ b.Touches m side price →
      ((b.apply m).2.levels side)[price]? = (b.levels side)[price]?) ∧
    ((∀ side price, b.Touches m side price →
        ∃ best, b.bbo.best side = some best ∧ Better side best.price price) →
      (b.apply m).1.bboChanged = false) ∧
    (b.apply m).1.before = b.bbo ∧ (b.apply m).1.after = (b.apply m).2.bbo := by
  have hframe := frame_update b m
  refine ⟨hframe.orders, hframe.levels, fun hworse => ?_, rfl, rfl⟩
  have hbbo : b.bbo = (b.update m).bbo := (hframe.bbo_eq hworse).symm
  exact decide_eq_false (not_not_intro hbbo)

end OrderBook

end Bmdfh
