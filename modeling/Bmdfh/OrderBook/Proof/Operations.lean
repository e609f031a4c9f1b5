import Bmdfh.OrderBook.Proof.Refines

/-!
# How the operations of the book relate

* `operations_agree`: on a live order, a trade is a modify to what is left of it, a modify is a
  delete and an add, and so is an add over it.
* `applyAll_delete`: a delete leaves the book the other orders alone would have made.
* `applyAll_trades`: trades on one order are a single trade of their sum, on any book.
-/

namespace Bmdfh

open Std OrdMap Protocol Tally Orders LawfulOrderLeftLeaningMin

/-- What a message asks of the book, by its decoded fields. -/
inductive Operation where
  | add (orderId : UInt64) (side : Option Side) (price quantity : UInt32)
  | modify (orderId : UInt64) (price quantity : UInt32)
  | delete (orderId : UInt64)
  | trade (orderId : UInt64) (price quantity : UInt32)
deriving DecidableEq

def Protocol.Message.operation : Message → Operation
  | .addOrder m => .add m.decodeOrderId m.decodeSide m.decodePrice m.decodeQuantity
  | .modifyOrder m => .modify m.decodeOrderId m.decodePrice m.decodeQuantity
  | .deleteOrder m => .delete m.decodeOrderId
  | .trade m => .trade m.decodeOrderId m.decodePrice m.decodeQuantity

section
variable {m : Message} {id : UInt64} {p q : UInt32}

theorem operation_eq_add {s : Option Side} (h : m.operation = .add id s p q) :
    ∃ w, m = .addOrder w ∧ w.decodeOrderId = id ∧ w.decodeSide = s ∧ w.decodePrice = p ∧
      w.decodeQuantity = q := by
  cases m with
  | addOrder w =>
    simp only [Message.operation, Operation.add.injEq] at h
    exact ⟨w, rfl, h⟩
  | modifyOrder w => cases h
  | deleteOrder w => cases h
  | trade w => cases h

theorem operation_eq_modify (h : m.operation = .modify id p q) :
    ∃ w, m = .modifyOrder w ∧ w.decodeOrderId = id ∧ w.decodePrice = p ∧
      w.decodeQuantity = q := by
  cases m with
  | addOrder w => cases h
  | modifyOrder w =>
    simp only [Message.operation, Operation.modify.injEq] at h
    exact ⟨w, rfl, h⟩
  | deleteOrder w => cases h
  | trade w => cases h

theorem operation_eq_delete (h : m.operation = .delete id) :
    ∃ w, m = .deleteOrder w ∧ w.decodeOrderId = id := by
  cases m with
  | addOrder w => cases h
  | modifyOrder w => cases h
  | deleteOrder w =>
    simp only [Message.operation, Operation.delete.injEq] at h
    exact ⟨w, rfl, h⟩
  | trade w => cases h

theorem operation_eq_trade (h : m.operation = .trade id p q) :
    ∃ w, m = .trade w ∧ w.decodeOrderId = id ∧ w.decodePrice = p ∧ w.decodeQuantity = q := by
  cases m with
  | addOrder w => cases h
  | modifyOrder w => cases h
  | deleteOrder w => cases h
  | trade w =>
    simp only [Message.operation, Operation.trade.injEq] at h
    exact ⟨w, rfl, h⟩

end

namespace OrderBook

variable {b : OrderBook} {id : UInt64} {x : OrderState}

/-! ## Delete and add -/

theorem update_delete {d : Message} (hd : d.operation = .delete id) :
    b.update d = b.eraseOrder id := by
  obtain ⟨w, rfl, rfl⟩ := operation_eq_delete hd
  rfl

theorem liveOrders_eraseOrder_self (b : OrderBook) (id : UInt64) :
    (b.eraseOrder id).liveOrders[id]? = none := by
  cases hx : b.liveOrders[id]? with
  | none => rw [eraseOrder_of_none hx, hx]
  | some x =>
    rw [eraseOrder_of_some hx]
    show (setOrder b.liveOrders id (remaining x x.quantity))[id]? = none
    rw [get_setOrder, if_pos rfl, remaining_self]

theorem update_add {a : Message} {s : Side} {p q : UInt32}
    (ha : a.operation = .add id (some s) p q) :
    b.update a = (b.eraseOrder id).put id { side := s, quantity := q, price := p } := by
  obtain ⟨w, rfl, rfl, hs, rfl, rfl⟩ := operation_eq_add ha
  exact applyAdd_of_some hs

/-- An add replaces the order, as a delete before it would have. -/
theorem update_add_eq {d a : Message} {s : Side} {p q : UInt32} (hd : d.operation = .delete id)
    (ha : a.operation = .add id (some s) p q) : b.update a = b.applyAll [d, a] := by
  rw [applyAll_cons, applyAll_cons, applyAll_nil, update_add ha, update_add ha, update_delete hd,
    eraseOrder_of_none (liveOrders_eraseOrder_self b id)]

theorem update_modify_eq {m d a : Message} {p q : UInt32} (hx : b.liveOrders[id]? = some x)
    (hm : m.operation = .modify id p q) (hq : q ≠ 0) (hd : d.operation = .delete id)
    (ha : a.operation = .add id (some x.side) p q) : b.update m = b.applyAll [d, a] := by
  obtain ⟨w, rfl, rfl, rfl, rfl⟩ := operation_eq_modify hm
  rw [← update_add_eq hd ha, update_add ha, eraseOrder_of_some hx]
  exact applyModify_of_ne_zero hx hq

theorem update_modify_zero {m d : Message} {p : UInt32} (hx : b.liveOrders[id]? = some x)
    (hm : m.operation = .modify id p 0) (hd : d.operation = .delete id) :
    b.update m = b.update d := by
  obtain ⟨w, rfl, rfl, rfl, hq⟩ := operation_eq_modify hm
  rw [update_delete hd, eraseOrder_of_some hx]
  exact applyModify_of_zero hx hq

theorem update_of_none {m : Message} (h : b.liveOrders[id]? = none) {p q : UInt32}
    (hm : m.operation = .modify id p q ∨ m.operation = .delete id ∨ m.operation = .trade id p q) :
    b.update m = b := by
  rcases hm with hm | hm | hm
  · obtain ⟨w, rfl, rfl, -, -⟩ := operation_eq_modify hm
    exact applyModify_of_none h
  · rw [update_delete hm, eraseOrder_of_none h]
  · obtain ⟨w, rfl, rfl, -, -⟩ := operation_eq_trade hm
    exact applyTrade_of_none h

/-! ## Trade and modify -/

theorem step_eq_update {o : Orders} {m : Message} {y : Option OrderState}
    (hid : m.orderId = id) (hn : next (o id) m = y) : step o m = Function.update o id y := by
  subst hid hn
  rfl

/-- What is left of an order keeps every sum positive there and within a word. -/
theorem sum_remaining {o : Orders} (h : Agrees Exact b o) (hx : o id = some x) {q : UInt32}
    (hq : q ≤ x.quantity) {y : OrderState} (hy : remaining x q = some y) :
    0 < sum (Function.update o id (remaining x q)) y.side y.price ∧
      sum (Function.update o id (remaining x q)) y.side y.price < 2 ^ 32 := by
  have hlt := ((h.level y.side) y.price).1
  have hu := sum_update o id (remaining x q) y.side y.price
  have hw := weight_remaining x q y.side y.price hq
  have hle := weight_le_sum (Function.update o id (remaining x q)) id y.side y.price
  have hpos : 0 < y.quantity.toNat := by
    unfold remaining at hy
    split at hy
    · cases hy
    · rename_i hxq
      cases hy
      rw [UInt32.le_iff_toNat_le] at hq hxq
      rw [UInt32.toNat_sub_of_le _ _ (UInt32.le_iff_toNat_le.2 hq)]
      omega
  rw [Function.update_self, hy, weight_some, if_pos ⟨rfl, rfl⟩, ← hy] at hle
  rw [hx] at hu
  omega

/-- A message after which `q` of the order is gone. -/
theorem Agrees.update_remaining {o : Orders} (h : Agrees Exact b o) {m : Message}
    (hx : o id = some x) {q : UInt32} (hq : q ≤ x.quantity) (hid : m.orderId = id)
    (hn : next (o id) m = remaining x q) :
    Agrees Exact (b.update m) (Function.update o id (remaining x q)) := by
  have hstep := step_eq_update hid hn
  rw [← hstep]
  refine h.update kept_exact m fun y hy => ?_
  rw [hid, hstep, Function.update_self] at hy
  rw [hstep]
  exact sum_remaining h hx hq hy

theorem Agrees.update_trade_eq {o : Orders} (h : Agrees Exact b o) {t m : Message}
    {p e : UInt32} (hx : b.liveOrders[id]? = some x) (ht : t.operation = .trade id p e)
    (hm : m.operation = .modify id x.price (x.quantity - min x.quantity e)) :
    b.update t = b.update m := by
  obtain ⟨w, rfl, hw, -, rfl⟩ := operation_eq_trade ht
  obtain ⟨v, rfl, hv, hp, hq⟩ := operation_eq_modify hm
  have hle : min x.quantity w.decodeQuantity ≤ x.quantity := Std.min_le_left
  have ho : o id = some x := by rw [← h.live, hx]
  -- both leave the same of the order
  have htrade : next (o id) (.trade w) = remaining x (min x.quantity w.decodeQuantity) := by
    rw [ho, remaining_min]
    rfl
  have hmodify : next (o id) (.modifyOrder v)
      = remaining x (min x.quantity w.decodeQuantity) := by
    rw [ho]
    simp only [next, Option.bind_some, hp, hq, sub_eq_zero_iff hle]
    rfl
  have hT := h.update_remaining (m := .trade w) ho hle hw htrade
  exact hT.unique (h.update_remaining (m := .modifyOrder v) ho hle hv hmodify)

/-- **The operations agree with each other** on every book reached with nonzero adds and sums that
fit a word. -/
theorem operations_agree (ms : List Message) (hms : ∀ m ∈ ms, AddsNonzero m) (hfit : SumsFit ms)
    (id : UInt64) :
    let book := applyAll {} ms
    (∀ x, book.liveOrders[id]? = some x →
      (∀ t m p e, t.operation = .trade id p e →
        m.operation = .modify id x.price (x.quantity - min x.quantity e) →
        book.update t = book.update m) ∧
      (∀ m d a p q, m.operation = .modify id p q → 0 < q → d.operation = .delete id →
        a.operation = .add id (some x.side) p q → book.update m = book.applyAll [d, a]) ∧
      (∀ m d p, m.operation = .modify id p 0 → d.operation = .delete id →
        book.update m = book.update d) ∧
      (∀ d a s p q, d.operation = .delete id → a.operation = .add id (some s) p q →
        book.update a = book.applyAll [d, a])) ∧
    (book.liveOrders[id]? = none → ∀ m p q,
      m.operation = .modify id p q ∨ m.operation = .delete id ∨ m.operation = .trade id p q →
      book.update m = book) := by
  intro book
  have h : Agrees Exact book (run empty ms) := agrees_applyAll (fun m hm => (hms m hm).puts) hfit
  refine ⟨fun x hx => ⟨?_, ?_, ?_, ?_⟩, fun hn m p q hm => update_of_none hn hm⟩
  · intro t m p e ht hm
    exact h.update_trade_eq hx ht hm
  · intro m d a p q hm hq hd ha
    exact update_modify_eq hx hm (UInt32.pos_iff_ne_zero.1 hq) hd ha
  · intro m d p hm hd
    exact update_modify_zero hx hm hd
  · intro d a s p q hd ha
    exact update_add_eq hd ha

theorem operations_agree_of_two_orders :
    let ms : List Message := [.addOrder (makeAddOrderMsg 1 .buy 100 50),
      .addOrder (makeAddOrderMsg 2 .buy 100 20)]
    let t : Message := .trade (makeTradeMsg 1 7 30)
    let m : Message := .modifyOrder (makeModifyOrderMsg 1 100 20)
    (applyAll {} ms).update t = (applyAll {} ms).update m ∧
      ((applyAll {} ms).update t).bbo.bestBid = some { price := 100, quantity := 40 } := by
  intro ms t m
  have h := operations_agree ms (by decide +kernel) (sumsFit_of_brings (by decide +kernel)) 1
  exact ⟨(h.1 { side := .buy, quantity := 50, price := 100 } (by decide +kernel)).1 _ _ 7 30
    (by decide +kernel) (by decide +kernel), by decide +kernel⟩

/-! ## Deleting an order -/

theorem run_filter_ne (ms : List Message) (id : UInt64) :
    run empty (ms.filter (·.orderId ≠ id)) = Function.update (run empty ms) id none := by
  funext id'
  rw [run_eq_foldl, List.filter_filter, Function.update_apply]
  by_cases h : id' = id
  · subst h
    rw [if_pos rfl, List.filter_eq_nil_iff.2 fun m _ => by simp]
    rfl
  · rw [if_neg h, run_eq_foldl]
    congr 1
    refine List.filter_congr fun m _ => ?_
    by_cases hm : m.orderId = id'
    · simp [hm, h]
    · simp [hm]

theorem sum_update_none_le (o : Orders) (id : UInt64) (s : Side) (p : UInt32) :
    sum (Function.update o id none) s p ≤ sum o s p := by
  have := sum_update o id none s p
  rw [weight_none] at this
  omega

theorem sumsFit_filter_ne {ms : List Message} (h : SumsFit ms) (id : UInt64) :
    SumsFit (ms.filter (·.orderId ≠ id)) := by
  intro pre hpre s p
  obtain ⟨l, hl, rfl⟩ := List.prefix_filter_iff.1 hpre
  rw [run_filter_ne]
  exact Nat.lt_of_le_of_lt (sum_update_none_le ..) (h l hl s p)

theorem update_delete_agrees {o : Orders} (h : Agrees Exact b o) {d : Message}
    (hd : d.operation = .delete id) : Agrees Exact (b.update d) (Function.update o id none) := by
  obtain ⟨w, rfl, hw⟩ := operation_eq_delete hd
  have hstep : step o (.deleteOrder w) = Function.update o id none := step_eq_update hw rfl
  rw [← hstep]
  refine h.update kept_exact _ fun y hy => ?_
  rw [step_self] at hy
  cases hy

/-- **A delete erases the past of the order.** -/
theorem applyAll_delete (ms : List Message) (hms : ∀ m ∈ ms, AddsNonzero m) (hfit : SumsFit ms)
    (id : UInt64) (d : Message) (hd : d.operation = .delete id) :
    applyAll {} (ms ++ [d]) = applyAll {} (ms.filter (·.orderId ≠ id)) := by
  have h := agrees_applyAll (fun m hm => (hms m hm).puts) hfit
  have h' := agrees_applyAll (fun m hm => (hms m (List.mem_of_mem_filter hm)).puts)
    (sumsFit_filter_ne hfit id)
  rw [run_filter_ne] at h'
  rw [applyAll_append]
  exact (update_delete_agrees h hd).unique h'

theorem applyAll_delete_of_shared_level :
    let ms : List Message := [.addOrder (makeAddOrderMsg 1 .buy 100 50),
      .addOrder (makeAddOrderMsg 2 .buy 100 20), .trade (makeTradeMsg 1 100 30),
      .modifyOrder (makeModifyOrderMsg 1 98 10)]
    applyAll {} (ms ++ [.deleteOrder (makeDeleteOrderMsg 1)])
      = applyAll {} [.addOrder (makeAddOrderMsg 2 .buy 100 20)] := by
  intro ms
  exact applyAll_delete ms (by decide +kernel) (sumsFit_of_brings (by decide +kernel)) 1 _
    (by decide +kernel)

/-! ## Trades on one order -/

theorem remaining_remaining {x y : OrderState} {q r : UInt32} (hx : remaining x q = some y)
    (hr : r ≤ y.quantity) : q.toNat + r.toNat ≤ x.quantity.toNat ∧
      remaining y r = remaining x (q + r) := by
  have hy := toNat_remaining hx
  have hlt := x.quantity.toNat_lt
  rw [UInt32.le_iff_toNat_le] at hr
  have hqr : (q + r).toNat = q.toNat + r.toNat := by
    rw [UInt32.toNat_add, Nat.mod_eq_of_lt (by omega)]
  refine ⟨by omega, ?_⟩
  by_cases h : y.quantity.toNat ≤ r.toNat
  · rw [remaining_eq_none.2 (UInt32.le_iff_toNat_le.2 h), eq_comm, remaining_eq_none,
      UInt32.le_iff_toNat_le]
    omega
  · have hyr : r < y.quantity := UInt32.lt_iff_toNat_lt.2 (by omega)
    have hxq : q + r < x.quantity := UInt32.lt_iff_toNat_lt.2 (by omega)
    rw [remaining_eq_some.2 ⟨hyr, rfl⟩, remaining_eq_some.2 ⟨hxq, rfl⟩]
    obtain ⟨-, rfl⟩ := remaining_eq_some.1 hx
    congr 2
    grind

/-- Taking from what is left is taking both at once. -/
theorem take_take {x y : OrderState} {q r : UInt32} (hx : remaining x q = some y)
    (hr : r ≤ y.quantity) : (b.take id x q).take id y r = b.take id x (q + r) := by
  obtain ⟨hle, hrem⟩ := remaining_remaining hx hr
  have hfit := x.quantity.toNat_lt
  have hsp : y.side = x.side ∧ y.price = x.price := by
    rw [(remaining_eq_some.1 hx).2]
    exact ⟨rfl, rfl⟩
  refine ext_levels ?_ fun s => ?_
  · show setOrder (setOrder b.liveOrders id (remaining x q)) id (remaining y r)
      = setOrder b.liveOrders id (remaining x (q + r))
    rw [hrem]
    exact setOrder_setOrder ..
  · rw [levels_take, levels_take, levels_take, levels_take, hsp.1, hsp.2]
    by_cases hs : x.side = s
    · subst hs
      rw [if_pos rfl, if_pos rfl, if_pos rfl, sub_sub _ _ _ _ (by omega)]
    · rw [if_neg hs, if_neg hs, if_neg hs]

theorem liveOrders_take_self (b : OrderBook) (id : UInt64) (x : OrderState) (q : UInt32) :
    (b.take id x q).liveOrders[id]? = remaining x q := by
  show (setOrder b.liveOrders id (remaining x q))[id]? = _
  rw [get_setOrder, if_pos rfl]

theorem applyTrade_applyTrade {u v w : TradeMsg} (hu : u.decodeOrderId = id)
    (hv : v.decodeOrderId = id) (hw : w.decodeOrderId = id)
    (hq : w.decodeQuantity.toNat = u.decodeQuantity.toNat + v.decodeQuantity.toNat) :
    (b.applyTrade u).applyTrade v = b.applyTrade w := by
  have hwq : w.decodeQuantity = u.decodeQuantity + v.decodeQuantity := by
    apply UInt32.toNat_inj.1
    rw [UInt32.toNat_add, ← hq, Nat.mod_eq_of_lt w.decodeQuantity.toNat_lt]
  cases hx : b.liveOrders[id]? with
  | none =>
    have hb := applyTrade_of_none (b := b) (w := u) (hu ▸ hx)
    rw [hb, applyTrade_of_none (hv ▸ hx), applyTrade_of_none (hw ▸ hx)]
  | some x =>
    have hxu := applyTrade_of_some (b := b) (w := u) (hu ▸ hx)
    have hxw := applyTrade_of_some (b := b) (w := w) (hw ▸ hx)
    have hlive : (b.applyTrade u).liveOrders[v.decodeOrderId]? = remaining x u.decodeQuantity := by
      rw [hxu, hu, hv, liveOrders_take_self, remaining_min]
    cases hy : remaining x u.decodeQuantity with
    | none =>
      -- gone with the first trade
      have hle := remaining_eq_none.1 hy
      have hlw : x.quantity ≤ w.decodeQuantity := by
        rw [UInt32.le_iff_toNat_le] at hle ⊢
        omega
      rw [applyTrade_of_none (hlive.trans hy), hxu, hxw, hu, hw, min_eq_left _ _ hle,
        min_eq_left _ _ hlw]
    | some y =>
      have hyq := toNat_remaining hy
      have hlt := UInt32.not_le.2 (remaining_eq_some.1 hy).1
      rw [applyTrade_of_some (hlive.trans hy), hxu, hxw, hu, hv, hw,
        min_eq_right _ _ hlt, take_take hy Std.min_le_left, hwq]
      congr 1
      -- what both take of `x`: up to the whole of it
      by_cases hle : y.quantity ≤ v.decodeQuantity
      · have hxw' : x.quantity ≤ u.decodeQuantity + v.decodeQuantity := by
          rw [UInt32.le_iff_toNat_le] at hle
          rw [← hwq, UInt32.le_iff_toNat_le]
          omega
        rw [min_eq_left _ _ hle, min_eq_left _ _ hxw', (remaining_eq_some.1 hy).2]
        grind
      · have hxw' : ¬ x.quantity ≤ u.decodeQuantity + v.decodeQuantity := by
          rw [UInt32.le_iff_toNat_le] at hle
          rw [← hwq, UInt32.le_iff_toNat_le]
          omega
        rw [min_eq_right _ _ hle, min_eq_right _ _ hxw']

/-- What a list of trades executes. -/
def executed (ts : List TradeMsg) : Nat := (ts.map (·.decodeQuantity.toNat)).sum

@[simp] theorem executed_cons (t : TradeMsg) (ts : List TradeMsg) :
    executed (t :: ts) = t.decodeQuantity.toNat + executed ts := rfl

theorem decodeOrderId_makeTradeMsg (id : UInt64) (p q : UInt32) :
    (makeTradeMsg id p q).decodeOrderId = id := by
  simp [makeTradeMsg, TradeMsg.decodeOrderId]

theorem decodeQuantity_makeTradeMsg (id : UInt64) (p q : UInt32) :
    (makeTradeMsg id p q).decodeQuantity = q := by
  simp [makeTradeMsg, TradeMsg.decodeQuantity]

theorem applyTrade_congr {u t : TradeMsg} (hid : u.decodeOrderId = t.decodeOrderId)
    (hq : u.decodeQuantity = t.decodeQuantity) : b.applyTrade u = b.applyTrade t := by
  simp only [applyTrade, hid, hq]

theorem applyAll_trades_eq {ts : List TradeMsg} {u t : TradeMsg}
    (hid : ∀ v ∈ u :: ts, v.decodeOrderId = id) (ht : t.decodeOrderId = id)
    (hq : t.decodeQuantity.toNat = executed (u :: ts)) :
    b.applyAll ((u :: ts).map .trade) = b.applyTrade t := by
  have hu := hid u (.head _)
  induction ts generalizing u with
  | nil => exact applyTrade_congr (hu.trans ht.symm) (UInt32.toNat_inj.1 hq.symm)
  | cons v ts ih =>
    -- the first two trades are one
    have hlt := t.decodeQuantity.toNat_lt
    simp only [executed_cons] at hq
    let w := makeTradeMsg id 0 (u.decodeQuantity + v.decodeQuantity)
    have hw : w.decodeOrderId = id := decodeOrderId_makeTradeMsg ..
    have hwq : w.decodeQuantity.toNat = u.decodeQuantity.toNat + v.decodeQuantity.toNat := by
      rw [decodeQuantity_makeTradeMsg, UInt32.toNat_add, Nat.mod_eq_of_lt (by omega)]
    have huv : (b.applyTrade u).applyTrade v = b.applyTrade w :=
      applyTrade_applyTrade hu (hid v (.tail _ (.head _))) hw hwq
    have hrest : ∀ z ∈ w :: ts, z.decodeOrderId = id := fun z hz => by
      rcases List.mem_cons.1 hz with rfl | hz
      · exact hw
      · exact hid z (.tail _ (.tail _ hz))
    have hi := ih hrest (by rw [executed_cons, hwq]; omega) hw
    rw [List.map_cons, applyAll_cons] at hi
    rw [List.map_cons, List.map_cons, applyAll_cons, applyAll_cons, ← hi]
    exact congrArg (applyAll · (ts.map .trade)) huv

theorem applyAll_trades_of_none {ts : List TradeMsg} (h : b.liveOrders[id]? = none)
    (hid : ∀ t ∈ ts, t.decodeOrderId = id) : b.applyAll (ts.map .trade) = b := by
  induction ts with
  | nil => rfl
  | cons t ts ih =>
    have ht : b.applyTrade t = b := applyTrade_of_none (hid t (.head _) ▸ h)
    rw [List.map_cons, applyAll_cons]
    show (b.applyTrade t).applyAll _ = b
    rw [ht]
    exact ih fun t ht => hid t (.tail _ ht)

/-- **Executions add up**, on any book: trades on one order are one trade of their sum. -/
theorem applyAll_trades (book : OrderBook) (id : UInt64) (ts : List TradeMsg) (hne : ts ≠ [])
    (hid : ∀ t ∈ ts, t.decodeOrderId = id) (hsum : executed ts < 2 ^ 32) :
    (∀ t : TradeMsg, t.decodeOrderId = id → t.decodeQuantity.toNat = executed ts →
      book.applyAll (ts.map .trade) = book.update (.trade t)) ∧
    (∀ x, book.liveOrders[id]? = some x →
      ((book.applyAll (ts.map .trade)).liveOrders[id]? = none ↔
        x.quantity.toNat ≤ executed ts) ∧
      (∀ y, (book.applyAll (ts.map .trade)).liveOrders[id]? = some y →
        y.quantity.toNat + executed ts = x.quantity.toNat) ∧
      (x.quantity.toNat ≤ executed ts → ∀ us : List TradeMsg, (∀ u ∈ us, u.decodeOrderId = id) →
        book.applyAll ((ts ++ us).map .trade) = book.applyAll (ts.map .trade))) := by
  obtain ⟨u, ts, rfl⟩ := List.exists_cons_of_ne_nil hne
  have hmerge := fun t => applyAll_trades_eq (b := book) (t := t) hid
  refine ⟨hmerge, fun x hx => ?_⟩
  let t := makeTradeMsg id 0 (UInt32.ofNat (executed (u :: ts)))
  have ht : t.decodeOrderId = id := decodeOrderId_makeTradeMsg ..
  have htq : t.decodeQuantity.toNat = executed (u :: ts) := by
    rw [decodeQuantity_makeTradeMsg, UInt32.toNat_ofNat_of_lt' hsum]
  have hlive : (book.applyAll ((u :: ts).map .trade)).liveOrders[id]?
      = remaining x t.decodeQuantity := by
    rw [hmerge t ht htq, applyTrade_of_some (ht ▸ hx), ht, liveOrders_take_self, remaining_min]
  have hgone : remaining x t.decodeQuantity = none ↔ x.quantity.toNat ≤ executed (u :: ts) := by
    rw [remaining_eq_none, UInt32.le_iff_toNat_le, htq]
  refine ⟨by rw [hlive, hgone], fun y hy => ?_, fun hle us hus => ?_⟩
  · rw [hlive] at hy
    rw [← toNat_remaining hy, htq]
  · rw [List.map_append, applyAll_append]
    exact applyAll_trades_of_none (by rw [hlive, hgone.2 hle]) hus

theorem applyAll_trades_of_thin_level :
    let book : OrderBook :=
      { liveOrders := (∅ : ExtTreeMap UInt64 OrderState).insert 1 ⟨.buy, 50, 100⟩,
        bids := (∅ : ExtTreeMap UInt32 UInt32).insert 100 30 }
    book.applyAll [.trade (makeTradeMsg 1 100 20), .trade (makeTradeMsg 1 99 25)]
        = book.update (.trade (makeTradeMsg 1 100 45)) ∧
      (book.update (.trade (makeTradeMsg 1 100 45))).bids = ∅ := by
  intro book
  have h := applyAll_trades book 1 [makeTradeMsg 1 100 20, makeTradeMsg 1 99 25]
    (by decide) (by decide +kernel) (by decide +kernel)
  exact ⟨h.1 (makeTradeMsg 1 100 45) (by decide +kernel) (by decide +kernel), by decide +kernel⟩

end OrderBook

end Bmdfh
