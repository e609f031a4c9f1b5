import Bmdfh.OrderBook.Orders

/-!
# The steps of the order book

Every message either leaves the book as it is, takes an amount from the order it names (`take`),
puts an order under a free id (`put`), or takes an order whole and puts one in its place:
`update_cases`. `Agrees R b o` ties a book to its live orders, with the levels of each side in the
relation `R` to the sums; it is kept by every message for which `R` allows the sum it adds to
(`Agrees.update`).
-/

namespace Bmdfh

open Std OrdMap Protocol Tally LawfulOrderLeftLeaningMin

namespace OrderBook

/-- The levels of a side. -/
def levels (book : OrderBook) : Side → ExtTreeMap UInt32 UInt32
  | .buy => book.bids
  | .sell => book.asks

/-- The live orders of a book. -/
def orders (book : OrderBook) : Orders := fun id => book.liveOrders[id]?

/-! ## Levels -/

@[simp] theorem liveOrders_addLevel (b : OrderBook) (s : Side) (p q : UInt32) :
    (b.addLevel s p q).liveOrders = b.liveOrders := by
  cases s <;> rfl

@[simp] theorem liveOrders_subtractLevel (b : OrderBook) (s : Side) (p q : UInt32) :
    (b.subtractLevel s p q).liveOrders = b.liveOrders := by
  cases s <;> simp only [subtractLevel] <;> split <;> (try split) <;> rfl

@[simp] theorem levels_with (b : OrderBook) (live : ExtTreeMap UInt64 OrderState) (s : Side) :
    levels { b with liveOrders := live } s = b.levels s := by
  cases s <;> rfl

theorem levels_addLevel (b : OrderBook) (s s' : Side) (p q : UInt32) :
    (b.addLevel s p q).levels s' = if s = s' then add (b.levels s) p q else b.levels s' := by
  cases s <;> cases s' <;> rfl

theorem levels_subtractLevel (b : OrderBook) (s s' : Side) (p q : UInt32) :
    (b.subtractLevel s p q).levels s' = if s = s' then sub (b.levels s) p q else b.levels s' := by
  cases s with
  | buy =>
    simp only [subtractLevel, sub, levels]
    cases b.bids[p]? with
    | none => cases s' <;> rfl
    | some level =>
      by_cases h : level ≤ q
      · cases s' <;> simp [h]
      · cases s' <;> simp [h]
  | sell =>
    simp only [subtractLevel, sub, levels]
    cases b.asks[p]? with
    | none => cases s' <;> rfl
    | some level =>
      by_cases h : level ≤ q
      · cases s' <;> simp [h]
      · cases s' <;> simp [h]

/-- Books with the same live orders and levels. -/
theorem ext_levels {b b' : OrderBook} (h : b.liveOrders = b'.liveOrders)
    (hl : ∀ s, b.levels s = b'.levels s) : b = b' := by
  cases b
  cases b'
  have hb := hl .buy
  have ha := hl .sell
  simp only [levels] at hb ha h
  rw [h, hb, ha]

/-! ## Take and put -/

def setOrder (live : ExtTreeMap UInt64 OrderState) (id : UInt64) :
    Option OrderState → ExtTreeMap UInt64 OrderState
  | none => live.erase id
  | some x => live.insert id x

theorem get_setOrder (live : ExtTreeMap UInt64 OrderState) (id id' : UInt64)
    (x : Option OrderState) :
    (setOrder live id x)[id']? = if id = id' then x else live[id']? := by
  cases x with
  | none => exact get_erase live id id'
  | some x => exact get_insert live id id' x

@[simp] theorem setOrder_setOrder (live : ExtTreeMap UInt64 OrderState) (id : UInt64)
    (x y : Option OrderState) : setOrder (setOrder live id x) id y = setOrder live id y := by
  refine ExtTreeMap.ext_getElem? fun id' => ?_
  by_cases h : id = id'
  · simp [get_setOrder, h]
  · simp [get_setOrder, h]

/-- The book after `q` of the order `x` is gone. -/
def take (b : OrderBook) (id : UInt64) (x : OrderState) (q : UInt32) : OrderBook :=
  { b.subtractLevel x.side x.price q with
    liveOrders := setOrder b.liveOrders id (Orders.remaining x q) }

/-- The book with the order `y` put under the id. -/
def put (b : OrderBook) (id : UInt64) (y : OrderState) : OrderBook :=
  { b.addLevel y.side y.price y.quantity with liveOrders := b.liveOrders.insert id y }

theorem levels_take (b : OrderBook) (id : UInt64) (x : OrderState) (q : UInt32) (s : Side) :
    (b.take id x q).levels s = if x.side = s then sub (b.levels x.side) x.price q else b.levels s :=
  levels_subtractLevel b x.side s x.price q

theorem levels_put (b : OrderBook) (id : UInt64) (y : OrderState) (s : Side) :
    (b.put id y).levels s
      = if y.side = s then add (b.levels y.side) y.price y.quantity else b.levels s :=
  levels_addLevel b y.side s y.price y.quantity

/-- A level other than that of the order is left alone. -/
theorem get_levels_take_ne (b : OrderBook) (id : UInt64) {x : OrderState} (q : UInt32) {s : Side}
    {p : UInt32} (h : ¬ (x.side = s ∧ x.price = p)) :
    ((b.take id x q).levels s)[p]? = (b.levels s)[p]? := by
  rw [levels_take]
  by_cases hs : x.side = s
  · subst hs
    rw [if_pos rfl]
    exact get_sub_ne q fun hp => h ⟨rfl, hp⟩
  · rw [if_neg hs]

theorem get_levels_put_ne (b : OrderBook) (id : UInt64) {y : OrderState} {s : Side} {p : UInt32}
    (h : ¬ (y.side = s ∧ y.price = p)) :
    ((b.put id y).levels s)[p]? = (b.levels s)[p]? := by
  rw [levels_put]
  by_cases hs : y.side = s
  · subst hs
    rw [if_pos rfl]
    exact get_add_ne _ fun hp => h ⟨rfl, hp⟩
  · rw [if_neg hs]

theorem remaining_self (x : OrderState) : Orders.remaining x x.quantity = none := by
  simp [Orders.remaining]

/-- No more than the order has is taken. -/
theorem remaining_min (x : OrderState) (q : UInt32) :
    Orders.remaining x (min x.quantity q) = Orders.remaining x q := by
  unfold Orders.remaining
  by_cases h : x.quantity ≤ q
  · rw [min_eq_left x.quantity q h]
    simp [h]
  · rw [min_eq_right x.quantity q h]

theorem sub_eq_zero_iff {a q : UInt32} (h : q ≤ a) : a - q = 0 ↔ a ≤ q := by
  rw [← UInt32.toNat_inj, UInt32.toNat_sub_of_le _ _ h, UInt32.le_iff_toNat_le]
  rw [UInt32.le_iff_toNat_le] at h
  show a.toNat - q.toNat = 0 ↔ a.toNat ≤ q.toNat
  omega

theorem eraseOrder_eq (b : OrderBook) (id : UInt64) :
    b.eraseOrder id = match b.liveOrders[id]? with
      | none => b
      | some x => b.take id x x.quantity := by
  unfold eraseOrder
  cases b.liveOrders[id]? with
  | none => rfl
  | some x => simp [take, remaining_self, setOrder]

/-! ## The operations -/

section
variable {b : OrderBook}

theorem eraseOrder_of_none {id : UInt64} (h : b.liveOrders[id]? = none) : b.eraseOrder id = b := by
  rw [eraseOrder_eq, h]

theorem eraseOrder_of_some {id : UInt64} {x : OrderState} (h : b.liveOrders[id]? = some x) :
    b.eraseOrder id = b.take id x x.quantity := by
  rw [eraseOrder_eq, h]

theorem applyAdd_of_none {w : AddOrderMsg} (h : w.decodeSide = none) : b.applyAdd w = b := by
  rw [applyAdd, h]

theorem applyAdd_of_some {w : AddOrderMsg} {s : Side} (h : w.decodeSide = some s) :
    b.applyAdd w = (b.eraseOrder w.decodeOrderId).put w.decodeOrderId
      { side := s, quantity := w.decodeQuantity, price := w.decodePrice } := by
  rw [applyAdd, h]
  simp [put]

theorem applyModify_of_none {w : ModifyOrderMsg} (h : b.liveOrders[w.decodeOrderId]? = none) :
    b.applyModify w = b := by
  rw [applyModify, h]

theorem applyModify_of_zero {w : ModifyOrderMsg} {x : OrderState}
    (h : b.liveOrders[w.decodeOrderId]? = some x) (hq : w.decodeQuantity = 0) :
    b.applyModify w = b.take w.decodeOrderId x x.quantity := by
  rw [applyModify, h]
  simp [hq, take, remaining_self, setOrder]

theorem applyModify_of_ne_zero {w : ModifyOrderMsg} {x : OrderState}
    (h : b.liveOrders[w.decodeOrderId]? = some x) (hq : w.decodeQuantity ≠ 0) :
    b.applyModify w = (b.take w.decodeOrderId x x.quantity).put w.decodeOrderId
      { x with price := w.decodePrice, quantity := w.decodeQuantity } := by
  rw [applyModify, h]
  refine ext_levels ?_ fun s => ?_
  · simp [hq, put, take, remaining_self, setOrder]
  · simp [hq, put, take, levels_addLevel]

theorem applyTrade_of_none {w : TradeMsg} (h : b.liveOrders[w.decodeOrderId]? = none) :
    b.applyTrade w = b := by
  rw [applyTrade, h]

theorem applyTrade_of_some {w : TradeMsg} {x : OrderState}
    (h : b.liveOrders[w.decodeOrderId]? = some x) :
    b.applyTrade w = b.take w.decodeOrderId x (min x.quantity w.decodeQuantity) := by
  have hle : min x.quantity w.decodeQuantity ≤ x.quantity := Std.min_le_left
  rw [applyTrade, h]
  by_cases hm : x.quantity ≤ min x.quantity w.decodeQuantity
  · simp [take, Orders.remaining, setOrder, sub_eq_zero_iff hle, hm]
  · simp [take, Orders.remaining, setOrder, sub_eq_zero_iff hle, hm]

end

/-- **What a message does to the book**, and to the order it names. -/
theorem update_cases (b : OrderBook) (m : Message) :
    (b.update m = b ∧ Orders.next b.liveOrders[m.orderId]? m = b.liveOrders[m.orderId]?) ∨
    (∃ x q, b.liveOrders[m.orderId]? = some x ∧ q ≤ x.quantity ∧
      Orders.next b.liveOrders[m.orderId]? m = Orders.remaining x q ∧
      b.update m = b.take m.orderId x q) ∨
    (∃ y, b.liveOrders[m.orderId]? = none ∧ Orders.next b.liveOrders[m.orderId]? m = some y ∧
      b.update m = b.put m.orderId y) ∨
    (∃ x y, b.liveOrders[m.orderId]? = some x ∧
      Orders.next b.liveOrders[m.orderId]? m = some y ∧
      b.update m = (b.take m.orderId x x.quantity).put m.orderId y) := by
  cases m with
  | addOrder w =>
    simp only [update, Message.orderId, Orders.next]
    cases hs : w.decodeSide with
    | none => exact .inl ⟨applyAdd_of_none hs, rfl⟩
    | some side =>
      rw [applyAdd_of_some hs]
      cases hx : b.liveOrders[w.decodeOrderId]? with
      | none => exact .inr (.inr (.inl ⟨_, rfl, rfl, by rw [eraseOrder_of_none hx]⟩))
      | some x => exact .inr (.inr (.inr ⟨x, _, rfl, rfl, by rw [eraseOrder_of_some hx]⟩))
  | modifyOrder w =>
    simp only [update, Message.orderId, Orders.next]
    cases hx : b.liveOrders[w.decodeOrderId]? with
    | none => exact .inl ⟨applyModify_of_none hx, rfl⟩
    | some x =>
      simp only [Option.bind_some]
      by_cases hq : w.decodeQuantity = 0
      · -- modified to zero: taken whole
        rw [if_pos hq]
        exact .inr (.inl ⟨x, x.quantity, rfl, UInt32.le_refl _, (remaining_self x).symm,
          applyModify_of_zero hx hq⟩)
      · rw [if_neg hq]
        exact .inr (.inr (.inr ⟨x, _, rfl, rfl, applyModify_of_ne_zero hx hq⟩))
  | deleteOrder w =>
    simp only [update, applyDelete, Message.orderId, Orders.next]
    cases hx : b.liveOrders[w.decodeOrderId]? with
    | none => exact .inl ⟨eraseOrder_of_none hx, rfl⟩
    | some x =>
      exact .inr (.inl ⟨x, x.quantity, rfl, UInt32.le_refl _, (remaining_self x).symm,
        eraseOrder_of_some hx⟩)
  | trade w =>
    simp only [update, Message.orderId, Orders.next]
    cases hx : b.liveOrders[w.decodeOrderId]? with
    | none => exact .inl ⟨applyTrade_of_none hx, rfl⟩
    | some x =>
      exact .inr (.inl ⟨x, min x.quantity w.decodeQuantity, rfl, Std.min_le_left,
        (remaining_min x w.decodeQuantity).symm, applyTrade_of_some hx⟩)

/-! ## Agreement with the live orders -/

/-- The book keeps the orders `o`, and the levels of each side are in the relation `R` to their
sums. -/
structure Agrees (R : ExtTreeMap UInt32 UInt32 → (UInt32 → Nat) → Prop) (b : OrderBook)
    (o : Orders) : Prop where
  live : ∀ id, b.liveOrders[id]? = o id
  level : ∀ s, R (b.levels s) (o.sum s)

section
open Orders

variable {R : ExtTreeMap UInt32 UInt32 → (UInt32 → Nat) → Prop} {C : Nat → Prop}
  {b : OrderBook} {o : Orders}

theorem weight_remaining (x : OrderState) (q : UInt32) (s : Side) (p : UInt32)
    (h : q ≤ x.quantity) :
    weight s p (remaining x q) + (if x.side = s ∧ x.price = p then q.toNat else 0)
      = weight s p (some x) := by
  rw [weight_some, remaining]
  have hn := UInt32.le_iff_toNat_le.1 h
  by_cases hsp : x.side = s ∧ x.price = p
  · split
    · rename_i hle
      rw [UInt32.le_iff_toNat_le] at hle
      rw [weight_none]
      omega
    · rw [weight_some]
      simp only [hsp, and_self, ↓reduceIte, UInt32.toNat_sub_of_le _ _ h]
      omega
  · rw [if_neg hsp, if_neg hsp]
    split
    · rfl
    · rw [weight_some, if_neg hsp]

theorem Agrees.take (K : Kept R C) (h : Agrees R b o) {id : UInt64} {x : OrderState} {q : UInt32}
    (hx : o id = some x) (hq : q ≤ x.quantity) :
    Agrees R (b.take id x q) (Function.update o id (remaining x q)) := by
  refine ⟨fun id' => ?_, fun s => ?_⟩
  · show (setOrder b.liveOrders id (remaining x q))[id']? = _
    rw [get_setOrder, Function.update_apply, h.live]
    exact if_congr eq_comm rfl rfl
  · have hsum : ∀ p, sum (Function.update o id (remaining x q)) s p
        + (if x.side = s ∧ x.price = p then q.toNat else 0) = sum o s p := fun p => by
      have hu := sum_update o id (remaining x q) s p
      have hw := weight_remaining x q s p hq
      rw [hx] at hu
      omega
    rw [levels_take]
    by_cases hs : x.side = s
    · subst hs
      rw [if_pos rfl]
      refine K.sub (h.level x.side) ?_ fun p hp => ?_
      · have := hsum x.price
        simpa using this
      · have := hsum p
        simpa [hp] using this
    · rw [if_neg hs]
      have : sum (Function.update o id (remaining x q)) s = sum o s :=
        funext fun p => by have := hsum p; simpa [hs] using this
      rw [this]
      exact h.level s

theorem Agrees.put (K : Kept R C) (h : Agrees R b o) {id : UInt64} {y : OrderState}
    (ho : o id = none) (hC : C (sum (Function.update o id (some y)) y.side y.price)) :
    Agrees R (b.put id y) (Function.update o id (some y)) := by
  refine ⟨fun id' => ?_, fun s => ?_⟩
  · show (b.liveOrders.insert id y)[id']? = _
    rw [get_insert, Function.update_apply, h.live]
    exact if_congr eq_comm rfl rfl
  · have hsum : ∀ p, sum (Function.update o id (some y)) s p
        = sum o s p + (if y.side = s ∧ y.price = p then y.quantity.toNat else 0) := fun p => by
      have hu := sum_update o id (some y) s p
      rw [ho, weight_none, weight_some, Nat.add_zero] at hu
      exact hu
    rw [levels_put]
    by_cases hs : y.side = s
    · subst hs
      rw [if_pos rfl]
      refine K.add (h.level y.side) ?_ (fun p hp => ?_) hC
      · have := hsum y.price
        simpa using this
      · have := hsum p
        simpa [hp] using this
    · rw [if_neg hs]
      have : sum (Function.update o id (some y)) s = sum o s :=
        funext fun p => by have := hsum p; simpa [hs] using this
      rw [this]
      exact h.level s

/-- `update_cases` for a book that keeps the orders `o`. -/
theorem update_step (h : ∀ id, b.liveOrders[id]? = o id) (m : Message) :
    (b.update m = b ∧ step o m = o) ∨
    (∃ x q, o m.orderId = some x ∧ q ≤ x.quantity ∧ b.update m = b.take m.orderId x q ∧
      step o m = Function.update o m.orderId (remaining x q)) ∨
    (∃ y, o m.orderId = none ∧ b.update m = b.put m.orderId y ∧
      step o m = Function.update o m.orderId (some y)) ∨
    (∃ x y, o m.orderId = some x ∧
      b.update m = (b.take m.orderId x x.quantity).put m.orderId y ∧
      step o m = Function.update (Function.update o m.orderId none) m.orderId (some y)) := by
  have hstep : step o m = Function.update o m.orderId (next b.liveOrders[m.orderId]? m) := by
    rw [h]
    rfl
  rw [hstep]
  obtain ⟨hb, hn⟩ | ⟨x, q, hx, hq, hn, hb⟩ | ⟨y, hx, hn, hb⟩ | ⟨x, y, hx, hn, hb⟩ :=
    update_cases b m
  · exact .inl ⟨hb, by rw [hn, h, Function.update_eq_self]⟩
  · exact .inr (.inl ⟨x, q, by rw [← h, hx], hq, hb, by rw [hn]⟩)
  · exact .inr (.inr (.inl ⟨y, by rw [← h, hx], hb, by rw [hn]⟩))
  · exact .inr (.inr (.inr ⟨x, y, by rw [← h, hx], hb, by rw [hn, Function.update_idem]⟩))

/-- Agreement is kept by a message, when the sum at the order it puts satisfies `C`. -/
theorem Agrees.update (K : Kept R C) (h : Agrees R b o) (m : Message)
    (hC : ∀ y, step o m m.orderId = some y → C (sum (step o m) y.side y.price)) :
    Agrees R (b.update m) (step o m) := by
  obtain ⟨hb, ho⟩ | ⟨x, q, hx, hq, hb, ho⟩ | ⟨y, hx, hb, ho⟩ | ⟨x, y, hx, hb, ho⟩ :=
    update_step h.live m
  · rw [hb, ho]
    exact h
  · rw [hb, ho]
    exact h.take K hx hq
  · rw [ho] at hC ⊢
    rw [hb]
    exact h.put K hx (hC y (Function.update_self ..))
  · have ht := h.take K hx (UInt32.le_refl x.quantity)
    rw [remaining_self] at ht
    rw [ho] at hC ⊢
    rw [hb]
    exact ht.put K (Function.update_self ..) (hC y (Function.update_self ..))

/-- Agreement is kept by messages whose every prefix leaves the sums at all orders in `C`. -/
theorem Agrees.applyAll (K : Kept R C) (h : Agrees R b o) {ms : List Message}
    (hC : ∀ pre, pre <+: ms → ∀ id y, run o pre id = some y → C (sum (run o pre) y.side y.price)) :
    Agrees R (b.applyAll ms) (run o ms) := by
  induction ms generalizing b o with
  | nil => exact h
  | cons m ms ih =>
    refine ih (h.update K m fun y hy => hC [m] ⟨ms, rfl⟩ m.orderId y hy) fun pre hpre => ?_
    exact hC (m :: pre) (List.cons_prefix_cons.2 ⟨rfl, hpre⟩)

end

end OrderBook

end Bmdfh
