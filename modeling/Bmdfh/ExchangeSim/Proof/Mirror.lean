import Bmdfh.ExchangeSim.Generator
import Bmdfh.OrderBook.Proof.Phantom

/-!
# The book mirrors the generator

`Lists o xs`: the vector `xs` holds each live order of `o` once. Every call of `next` changes the
vector as its message changes the live orders (`next_lists`), so the book that applies the messages
keeps the orders of the vector, and it is never crossed (`emit_mirrored`).
-/

namespace Bmdfh

open Protocol Orders

def LiveOrder.state (order : LiveOrder) : OrderState where
  side := order.side
  quantity := order.quantity
  price := order.price

/-! ## Swap and pop -/

/-- Overwriting an entry by the last one and dropping the last one removes the entry. -/
theorem dropLast_set_getLast_perm {α : Type} (pre post : List α) (x back : α)
    (h : (pre ++ x :: post).getLast? = some back) :
    ((pre ++ x :: post).set pre.length back).dropLast.Perm (pre ++ post) := by
  rw [List.set_append_right _ _ (Nat.le_refl _), Nat.sub_self, List.set_cons_zero]
  rcases List.eq_nil_or_concat post with rfl | ⟨mid, last, rfl⟩
  · simp
  · have hb : last = back := by
      rw [List.concat_eq_append, ← List.cons_append, ← List.append_assoc, List.getLast?_concat,
        Option.some.injEq] at h
      exact h
    subst hb
    have he : pre ++ last :: (mid ++ [last]) = (pre ++ last :: mid) ++ [last] := by simp
    rw [List.concat_eq_append, he, List.dropLast_concat]
    refine (List.perm_append_left_iff pre).2 ?_
    exact (List.perm_append_singleton last mid).symm

/-! ## A vector of live orders -/

/-- The vector holds each live order once. -/
structure Lists (o : Orders) (xs : List LiveOrder) : Prop where
  nodup : (xs.map LiveOrder.orderId).Nodup
  iff : ∀ id y, o id = some y ↔ ∃ x ∈ xs, x.orderId = id ∧ x.state = y

section
variable {o : Orders} {xs ys : List LiveOrder}

theorem Lists.empty : Lists Orders.empty [] := ⟨List.nodup_nil, fun id y => by simp [Orders.empty]⟩

theorem Lists.perm (h : Lists o xs) (hp : xs.Perm ys) : Lists o ys :=
  ⟨(hp.map _).nodup_iff.1 h.nodup, fun id y => by simp only [h.iff, hp.mem_iff]⟩

/-- An order under an id that no order of the vector has. -/
theorem Lists.cons (h : Lists o xs) {x : LiveOrder} (hx : ∀ z ∈ xs, z.orderId ≠ x.orderId) :
    Lists (Function.update o x.orderId (some x.state)) (x :: xs) := by
  refine ⟨?_, fun id y => ?_⟩
  · rw [List.map_cons, List.nodup_cons]
    refine ⟨fun hm => ?_, h.nodup⟩
    obtain ⟨z, hz, he⟩ := List.mem_map.1 hm
    exact hx z hz he
  · by_cases hid : x.orderId = id
    · subst hid
      rw [Function.update_self, Option.some.injEq]
      constructor
      · intro he
        exact ⟨x, .head _, rfl, he⟩
      · rintro ⟨z, hz, he, rfl⟩
        rcases List.mem_cons.1 hz with rfl | hz
        · rfl
        · exact absurd he (hx z hz)
    · rw [Function.update_of_ne (Ne.symm hid), h.iff]
      simp [hid]

/-- The first order of the vector leaves. -/
theorem Lists.tail {x : LiveOrder} (h : Lists o (x :: xs)) :
    Lists (Function.update o x.orderId none) xs ∧ ∀ z ∈ xs, z.orderId ≠ x.orderId := by
  have hnd := h.nodup
  rw [List.map_cons, List.nodup_cons] at hnd
  have hne : ∀ z ∈ xs, z.orderId ≠ x.orderId := fun z hz he =>
    hnd.1 (he ▸ List.mem_map_of_mem hz)
  refine ⟨⟨hnd.2, fun id y => ?_⟩, hne⟩
  by_cases hid : x.orderId = id
  · subst hid
    rw [Function.update_self]
    constructor
    · intro he
      cases he
    · rintro ⟨z, hz, he, -⟩
      exact absurd he (hne z hz)
  · rw [Function.update_of_ne (Ne.symm hid), h.iff]
    simp [hid]

end

/-! ## Calls of `next` -/

/-- An order with the prices of its side. -/
def LiveOrder.Priced (x : LiveOrder) : Prop :=
  match x.side with
  | .buy => x.price ≤ 10000
  | .sell => 10001 ≤ x.price

namespace MarketDataGenerator

theorem priced_price (draws : Draws) (orderId : UInt64) (side : Side) (quantity : UInt32) :
    LiveOrder.Priced { orderId, side, quantity, price := price draws side } := by
  cases side
  · exact draws.bidPrice.2.2
  · exact draws.askPrice.2.1

/-- The order at the picked index. -/
theorem pickOrderIndex_spec {g : MarketDataGenerator} (draws : Draws)
    (h : g.liveOrders.isEmpty = false) :
    ∃ pre x post, g.liveOrders = pre ++ x :: post ∧ g.pickOrderIndex draws = some pre.length := by
  have hpos : 0 < g.liveOrders.length := by
    rw [List.isEmpty_eq_false_iff] at h
    exact List.length_pos_iff.2 h
  obtain ⟨i, hi⟩ : ∃ i, i = (draws.index (g.liveOrders.length - 1)).val := ⟨_, rfl⟩
  have hlt : i < g.liveOrders.length := by
    have := (draws.index (g.liveOrders.length - 1)).isLt
    omega
  refine ⟨g.liveOrders.take i, g.liveOrders[i], g.liveOrders.drop (i + 1), ?_, ?_⟩
  · rw [← List.drop_eq_getElem_cons hlt, List.take_append_drop]
  · rw [pickOrderIndex, if_neg (by simp [h]), List.length_take_of_le
      (Nat.le_of_lt hlt), hi]

/-- What a call of `next` does: it always returns, with one of three messages. -/
theorem next_cases (g : MarketDataGenerator) (draws : Draws) :
    (∃ x : LiveOrder, x.orderId = g.nextOrderId ∧ x.Priced ∧
      g.next draws = some (.addOrder (makeAddOrderMsg x.orderId x.side x.price x.quantity),
        { nextOrderId := g.nextOrderId + 1, liveOrders := g.liveOrders ++ [x] })) ∨
    (∃ pre x post y, g.liveOrders = pre ++ x :: post ∧ y.orderId = x.orderId ∧ y.side = x.side ∧
      y.quantity ≠ 0 ∧ y.Priced ∧
      g.next draws = some (.modifyOrder (makeModifyOrderMsg y.orderId y.price y.quantity),
        { g with liveOrders := pre ++ y :: post })) ∨
    (∃ pre x post rest, g.liveOrders = pre ++ x :: post ∧ rest.Perm (pre ++ post) ∧
      g.next draws = some (.deleteOrder (makeDeleteOrderMsg x.orderId),
        { g with liveOrders := rest })) := by
  unfold next
  by_cases hlt : g.liveOrders.length < 4
  · rw [if_pos hlt]
    exact .inl ⟨_, rfl, priced_price draws .., rfl⟩
  rw [if_neg hlt]
  have he : g.liveOrders.isEmpty = false := by
    rw [List.isEmpty_eq_false_iff]
    rintro h
    rw [h] at hlt
    exact hlt (by decide)
  obtain ⟨pre, x, post, hg, hp⟩ := pickOrderIndex_spec draws he
  have hx : g.liveOrders[pre.length]? = some x := by rw [hg]; simp
  by_cases ha : draws.action < 45
  · simp only [ha, ↓reduceIte]
    exact .inl ⟨_, rfl, priced_price draws .., rfl⟩
  by_cases hm : draws.action < 80
  · simp only [ha, hm, ↓reduceIte]
    refine .inr (.inl ⟨pre, x, post,
      { x with price := price draws x.side, quantity := draws.quantity }, hg, rfl, rfl, ?_,
      priced_price draws .., ?_⟩)
    · intro h0
      have := draws.quantity.2.1
      simp only at h0
      rw [h0] at this
      exact absurd this (by decide)
    · rw [modifyOrder, if_neg (by simp [he]), hp, Option.bind_eq_bind, Option.bind_some, hx]
      simp [hg]
  · simp only [ha, hm, ↓reduceIte]
    obtain ⟨back, hb⟩ : ∃ back, g.liveOrders.getLast? = some back :=
      Option.isSome_iff_exists.1 (by simp [hg])
    refine .inr (.inr ⟨pre, x, post, (g.liveOrders.set pre.length back).dropLast, hg, ?_, ?_⟩)
    · rw [hg] at hb ⊢
      exact dropLast_set_getLast_perm pre post x back hb
    · rw [deleteOrder, if_neg (by simp [he]), hp, Option.bind_eq_bind, Option.bind_some, hx, hb]
      rfl

/-! ## The invariant -/

/-- After `n` adds the vector holds the live orders `o`, under ids not above `n`. -/
structure Holds (g : MarketDataGenerator) (o : Orders) (n : Nat) : Prop where
  lists : Lists o g.liveOrders
  nextOrderId : g.nextOrderId = UInt64.ofNat (n + 1)
  bound : ∀ x ∈ g.liveOrders, 0 < x.orderId.toNat ∧ x.orderId.toNat ≤ n
  priced : ∀ x ∈ g.liveOrders, x.Priced

/-- The adds among the messages. -/
def adds (ms : List Message) : Nat := ms.countP (·.type = .addOrder)

section
variable {g : MarketDataGenerator} {o : Orders} {n : Nat} {x y : LiveOrder}
  {pre post rest : List LiveOrder}

/-- A new order. -/
theorem Holds.add (h : g.Holds o n) (hlt : n + 1 < 2 ^ 64) (hid : x.orderId = g.nextOrderId)
    (hx : x.Priced) :
    Holds { nextOrderId := g.nextOrderId + 1, liveOrders := g.liveOrders ++ [x] }
      (Function.update o x.orderId (some x.state)) (n + 1) := by
  have hnew : x.orderId.toNat = n + 1 := by
    rw [hid, h.nextOrderId, UInt64.toNat_ofNat_of_lt' hlt]
  have hfresh : ∀ z ∈ g.liveOrders, z.orderId ≠ x.orderId := by
    intro z hz he
    have := (h.bound z hz).2
    rw [he, hnew] at this
    omega
  have hc := h.lists.cons hfresh
  refine ⟨hc.perm (List.perm_append_singleton x _).symm, ?_, fun z hz => ?_, fun z hz => ?_⟩
  · show g.nextOrderId + 1 = UInt64.ofNat (n + 1 + 1)
    rw [h.nextOrderId, UInt64.ofNat_add (n + 1)]
    rfl
  · rcases List.mem_append.1 hz with hz | hz
    · have := h.bound z hz
      omega
    · rw [List.mem_singleton.1 hz, hnew]
      omega
  · rcases List.mem_append.1 hz with hz | hz
    · exact h.priced z hz
    · rw [List.mem_singleton.1 hz]
      exact hx

/-- A listed order changed in place. -/
theorem Holds.modify (h : g.Holds o n) (hg : g.liveOrders = pre ++ x :: post)
    (hid : y.orderId = x.orderId) (hy : y.Priced) :
    Holds { g with liveOrders := pre ++ y :: post }
      (Function.update o y.orderId (some y.state)) n := by
  have hl := h.lists
  rw [hg] at hl
  obtain ⟨ht, hne⟩ := (hl.perm List.perm_middle).tail
  rw [← hid] at ht hne
  have hc := (ht.cons hne).perm List.perm_middle.symm
  rw [Function.update_idem] at hc
  have hmem : x ∈ g.liveOrders := by rw [hg]; simp
  have hsub : ∀ z ∈ pre ++ y :: post, z = y ∨ z ∈ g.liveOrders := by
    intro z hz
    rw [hg]
    simp only [List.mem_append, List.mem_cons] at hz ⊢
    tauto
  refine ⟨hc, h.nextOrderId, fun z hz => ?_, fun z hz => ?_⟩
  · rcases hsub z hz with rfl | hz
    · rw [hid]
      exact h.bound x hmem
    · exact h.bound z hz
  · rcases hsub z hz with rfl | hz
    · exact hy
    · exact h.priced z hz

/-- A listed order taken out. -/
theorem Holds.delete (h : g.Holds o n) (hg : g.liveOrders = pre ++ x :: post)
    (hrest : rest.Perm (pre ++ post)) :
    Holds { g with liveOrders := rest } (Function.update o x.orderId none) n := by
  have hl := h.lists
  rw [hg] at hl
  obtain ⟨ht, -⟩ := (hl.perm List.perm_middle).tail
  have hsub : ∀ z ∈ rest, z ∈ g.liveOrders := by
    intro z hz
    rw [hg]
    have := hrest.mem_iff.1 hz
    simp only [List.mem_append, List.mem_cons] at this ⊢
    tauto
  exact ⟨ht.perm hrest.symm, h.nextOrderId, fun z hz => h.bound z (hsub z hz),
    fun z hz => h.priced z (hsub z hz)⟩

end

/-- A message of the generator does to the orders what the generator did to its vector. -/
theorem next_holds {g : MarketDataGenerator} {o : Orders} {n : Nat} (h : g.Holds o n)
    (draws : Draws) : ∃ m g', g.next draws = some (m, g') ∧
      (m.type = .modifyOrder ∨ m.type = .deleteOrder →
        ∃ order ∈ g.liveOrders, order.orderId = m.orderId) ∧
      (n + adds [m] < 2 ^ 64 → g'.Holds (step o m) (n + adds [m])) := by
  obtain ⟨x, hid, hx, hn⟩ | ⟨pre, x, post, y, hg, hid, hs, hq, hy, hn⟩ |
    ⟨pre, x, post, rest, hg, hrest, hn⟩ := g.next_cases draws
  · refine ⟨_, _, hn, fun ht => ?_, fun hlt => ?_⟩
    · rcases ht with ht | ht <;> cases ht
    · rw [step_makeAddOrderMsg]
      exact h.add hlt hid hx
  · have hmem : x ∈ g.liveOrders := by rw [hg]; simp
    have ho : o y.orderId = some x.state := (h.lists.iff ..).2 ⟨x, hmem, hid.symm, rfl⟩
    have hst : y.state = { x.state with price := y.price, quantity := y.quantity } := by
      simp [LiveOrder.state, hs]
    refine ⟨_, _, hn, fun _ => ⟨x, hmem, ?_⟩, fun _ => ?_⟩
    · simp [Message.orderId, ModifyOrderMsg.decodeOrderId, makeModifyOrderMsg, hid]
    · rw [step_makeModifyOrderMsg _ ho hq, ← hst]
      exact h.modify hg hid hy
  · have hmem : x ∈ g.liveOrders := by rw [hg]; simp
    refine ⟨_, _, hn, fun _ => ⟨x, hmem, ?_⟩, fun _ => ?_⟩
    · simp [Message.orderId, DeleteOrderMsg.decodeOrderId, makeDeleteOrderMsg]
    · rw [step_makeDeleteOrderMsg]
      exact h.delete hg hrest

theorem holds_empty : Holds {} Orders.empty 0 :=
  ⟨Lists.empty, rfl, fun _ hx => (List.not_mem_nil hx).elim, fun _ hx => (List.not_mem_nil hx).elim⟩

theorem adds_cons (m : Message) (ms : List Message) : adds (m :: ms) = adds [m] + adds ms := by
  rw [adds, ← List.singleton_append, List.countP_append]
  rfl

/-- Calling `next` over and over never fails. -/
theorem emit_isSome (g : MarketDataGenerator) (ds : List Draws) :
    ∃ ms g', g.emit ds = some (ms, g') := by
  induction ds generalizing g with
  | nil => exact ⟨_, _, rfl⟩
  | cons d ds ih =>
    obtain ⟨m, g', hn⟩ : ∃ m g', g.next d = some (m, g') := by
      obtain ⟨_, _, _, hn⟩ | ⟨_, _, _, _, _, _, _, _, _, hn⟩ | ⟨_, _, _, _, _, _, hn⟩ :=
        g.next_cases d
      all_goals exact ⟨_, _, hn⟩
    obtain ⟨ms, g'', he⟩ := ih g'
    exact ⟨m :: ms, g'', by simp [emit, hn, he]⟩

theorem emit_holds {g g' : MarketDataGenerator} {o : Orders} {n : Nat} {ds : List Draws}
    {ms : List Message} (h : g.Holds o n) (he : g.emit ds = some (ms, g'))
    (hlt : n + adds ms < 2 ^ 64) : g'.Holds (run o ms) (n + adds ms) := by
  induction ds generalizing g o n ms with
  | nil =>
    simp only [emit, Option.some.injEq, Prod.mk.injEq] at he
    obtain ⟨rfl, rfl⟩ := he
    exact h
  | cons d ds ih =>
    obtain ⟨m, g₁, hn, -, hh⟩ := next_holds h d
    obtain ⟨ms', g₂, he'⟩ := emit_isSome g₁ ds
    simp only [emit, hn, he', Option.bind_eq_bind, Option.bind_some, Option.some.injEq,
      Prod.mk.injEq] at he
    obtain ⟨rfl, rfl⟩ := he
    rw [adds_cons, ← Nat.add_assoc] at hlt ⊢
    exact ih (hh (by omega)) he' hlt

theorem emit_append {g g' : MarketDataGenerator} {ds ds' : List Draws} {ms : List Message}
    (h : g.emit ds = some (ms, g')) :
    g.emit (ds ++ ds') = (g'.emit ds').map fun r => (ms ++ r.1, r.2) := by
  induction ds generalizing g ms with
  | nil =>
    simp only [emit, Option.some.injEq, Prod.mk.injEq] at h
    obtain ⟨rfl, rfl⟩ := h
    simp
  | cons d ds ih =>
    simp only [emit, Option.bind_eq_bind, Option.bind_eq_some_iff, Option.some.injEq,
      Prod.mk.injEq] at h
    obtain ⟨⟨m, g₁⟩, hn, ⟨ms', g₂⟩, he, rfl, rfl⟩ := h
    rw [List.cons_append, emit, hn, Option.bind_eq_bind, Option.bind_some]
    simp only [ih he]
    cases g₂.emit ds' <;> rfl

/-- A book that keeps the orders of the vector is not crossed. -/
theorem Holds.uncrossed {g : MarketDataGenerator} {b : OrderBook} {o : Orders} {n : Nat}
    (h : g.Holds o n) (hb : b.Backed o) {bid ask : Level} (hbid : b.bbo.bestBid = some bid)
    (hask : b.bbo.bestAsk = some ask) : bid.price < ask.price := by
  obtain ⟨id, y, hy, hys, hyp⟩ := hb.rests .buy _ _ (OrderBook.bestBid_eq_some.1 hbid).1
  obtain ⟨id', z, hz, hzs, hzp⟩ := hb.rests .sell _ _ (OrderBook.bestAsk_eq_some.1 hask).1
  obtain ⟨x, hx, -, rfl⟩ := (h.lists.iff ..).1 hy
  obtain ⟨w, hw, -, rfl⟩ := (h.lists.iff ..).1 hz
  have hpx := h.priced x hx
  have hpw := h.priced w hw
  simp only [LiveOrder.state] at hys hyp hzs hzp
  rw [LiveOrder.Priced, hys, hyp] at hpx
  rw [LiveOrder.Priced, hzs, hzp] at hpw
  exact Nat.lt_of_lt_of_le (Nat.lt_succ_of_le hpx) hpw

/-- **The book mirrors the generator.** -/
theorem emit_mirrored (ds : List Draws) :
    ∃ ms g, emit {} ds = some (ms, g) ∧ (adds ms < 2 ^ 64 →
      let book := OrderBook.applyAll {} ms
      (g.liveOrders.map LiveOrder.orderId).Nodup ∧
      (∀ pre draws post, ds = pre ++ draws :: post → ∃ sent g' m g'',
        emit {} pre = some (sent, g') ∧ g'.next draws = some (m, g'') ∧ sent ++ [m] <+: ms ∧
        (m.type = .modifyOrder ∨ m.type = .deleteOrder →
          ∃ order ∈ g'.liveOrders, order.orderId = m.orderId)) ∧
      (∀ id state, book.liveOrders[id]? = some state ↔
        ∃ order ∈ g.liveOrders, order.orderId = id ∧ order.state = state) ∧
      (∀ bid ask, book.bbo.bestBid = some bid → book.bbo.bestAsk = some ask →
        bid.price < ask.price)) := by
  obtain ⟨ms, g, he⟩ := emit_isSome {} ds
  refine ⟨ms, g, he, fun hlt => ?_⟩
  have hh := emit_holds holds_empty he (by omega)
  have hb := OrderBook.backed_empty.applyAll ms
  refine ⟨hh.lists.nodup, ?_, fun id x => ?_, fun bid ask hbid hask => hh.uncrossed hb hbid hask⟩
  · rintro pre draws post rfl
    obtain ⟨sent, g', hs⟩ := emit_isSome {} pre
    rw [emit_append hs, emit] at he
    simp only [Option.bind_eq_bind, Option.map_eq_some_iff, Option.bind_eq_some_iff,
      Option.some.injEq, Prod.mk.injEq] at he
    obtain ⟨_, ⟨⟨m, g''⟩, hn, ⟨ms', _⟩, -, rfl⟩, rfl, -⟩ := he
    have hs' := emit_holds holds_empty hs (by
      rw [adds, List.countP_append] at hlt
      rw [adds]
      omega)
    obtain ⟨m₁, g₁, hn₁, hnames, -⟩ := next_holds hs' draws
    rw [hn, Option.some.injEq, Prod.mk.injEq] at hn₁
    obtain ⟨rfl, rfl⟩ := hn₁
    exact ⟨sent, g', m, g'', hs, hn, ⟨ms', by simp⟩, hnames⟩
  · rw [hb.live]
    exact hh.lists.iff id x

end MarketDataGenerator

end Bmdfh
