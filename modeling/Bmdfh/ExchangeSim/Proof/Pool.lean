import Bmdfh.ExchangeSim.Proof.Mirror

/-!
# What the generator emits

`Yields`: the three things a call of `next` can do, with the bounds of the distributions.
`emit_pool` says what follows for a whole run: the pool of live orders never falls below three once
it has reached them, so `modify_order` and `delete_order` never meet an empty one; order ids count
up from 1; every order is quoted within the band of its side.
-/

namespace Bmdfh

open Protocol Orders

/-- Within the ranges of the distributions. -/
structure LiveOrder.Quoted (x : LiveOrder) : Prop where
  price : match x.side with
    | .buy => 9950 ≤ x.price ∧ x.price ≤ 10000
    | .sell => 10001 ≤ x.price ∧ x.price ≤ 10050
  quantity : 10 ≤ x.quantity ∧ x.quantity ≤ 250

theorem LiveOrder.Quoted.quantity_ne_zero {x : LiveOrder} (h : x.Quoted) : x.quantity ≠ 0 := by
  intro h0
  have := h.quantity.1
  rw [h0] at this
  exact absurd this (by decide)

namespace MarketDataGenerator

theorem quoted_of_draws (draws : Draws) (orderId : UInt64) (side : Side) :
    LiveOrder.Quoted
      { orderId, side, quantity := draws.quantity, price := price draws side } := by
  refine ⟨?_, draws.quantity.2⟩
  cases side
  · exact draws.bidPrice.2
  · exact draws.askPrice.2

/-- What a call of `next` can do. -/
inductive Yields (g : MarketDataGenerator) : Message → MarketDataGenerator → Prop
  | add {x : LiveOrder} (fresh : x.orderId = g.nextOrderId) (quoted : x.Quoted) :
    Yields g (.addOrder (makeAddOrderMsg x.orderId x.side x.price x.quantity))
      { nextOrderId := g.nextOrderId + 1, liveOrders := g.liveOrders ++ [x] }
  | modify {pre post : List LiveOrder} {x y : LiveOrder} (enough : 4 ≤ g.liveOrders.length)
    (live : g.liveOrders = pre ++ x :: post) (same : y.orderId = x.orderId ∧ y.side = x.side)
    (quoted : y.Quoted) :
    Yields g (.modifyOrder (makeModifyOrderMsg y.orderId y.price y.quantity))
      { g with liveOrders := pre ++ y :: post }
  | delete {pre post rest : List LiveOrder} {x : LiveOrder} (enough : 4 ≤ g.liveOrders.length)
    (live : g.liveOrders = pre ++ x :: post) (gone : rest.Perm (pre ++ post)) :
    Yields g (.deleteOrder (makeDeleteOrderMsg x.orderId)) { g with liveOrders := rest }

theorem next_yields (g : MarketDataGenerator) (draws : Draws) :
    ∃ m g', g.next draws = some (m, g') ∧ g.Yields m g' := by
  have hadd : ∃ m g', some (g.addOrder draws) = some (m, g') ∧ g.Yields m g' :=
    ⟨_, _, rfl, .add rfl (quoted_of_draws draws ..)⟩
  unfold next
  by_cases hlt : g.liveOrders.length < 4
  · rw [if_pos hlt]
    exact hadd
  rw [if_neg hlt]
  have hfour : 4 ≤ g.liveOrders.length := Nat.not_lt.1 hlt
  have he : g.liveOrders.isEmpty = false := by
    rw [List.isEmpty_eq_false_iff]
    rintro h
    rw [h] at hlt
    exact hlt (by decide)
  obtain ⟨pre, x, post, hg, hp⟩ := pickOrderIndex_spec draws he
  have hx : g.liveOrders[pre.length]? = some x := by rw [hg]; simp
  by_cases ha : draws.action < 45
  · simp only [ha, ↓reduceIte]
    exact hadd
  by_cases hm : draws.action < 80
  · simp only [ha, hm, ↓reduceIte]
    refine ⟨_, _, ?_, .modify hfour hg (y := { x with
      price := price draws x.side, quantity := draws.quantity }) ⟨rfl, rfl⟩
      (quoted_of_draws draws ..)⟩
    rw [modifyOrder, if_neg (by simp [he]), hp, Option.bind_eq_bind, Option.bind_some, hx]
    simp [hg]
  · simp only [ha, hm, ↓reduceIte]
    obtain ⟨back, hb⟩ : ∃ back, g.liveOrders.getLast? = some back :=
      Option.isSome_iff_exists.1 (by simp [hg])
    refine ⟨_, _, ?_, .delete hfour hg
      (?_ : ((g.liveOrders.set pre.length back).dropLast).Perm _)⟩
    · rw [deleteOrder, if_neg (by simp [he]), hp, Option.bind_eq_bind, Option.bind_some, hx, hb]
      rfl
    · rw [hg] at hb ⊢
      exact dropLast_set_getLast_perm pre post x back hb

/-- The calls of a run. -/
theorem emit_cons {g g' : MarketDataGenerator} {d : Draws} {ds : List Draws} {ms : List Message}
    (h : g.emit (d :: ds) = some (ms, g')) : ∃ m g₁ ms',
      ms = m :: ms' ∧ g.Yields m g₁ ∧ g₁.emit ds = some (ms', g') := by
  simp only [emit, Option.bind_eq_bind, Option.bind_eq_some_iff, Option.some.injEq,
    Prod.mk.injEq] at h
  obtain ⟨⟨m, g₁⟩, hn, ⟨ms', g₂⟩, he, rfl, rfl⟩ := h
  obtain ⟨m', g₁', hn', hy⟩ := next_yields g d
  rw [hn, Option.some.injEq, Prod.mk.injEq] at hn'
  obtain ⟨rfl, rfl⟩ := hn'
  exact ⟨m, g₁, ms', rfl, hy, he⟩

/-! ## The messages -/

/-- A message that the ranges of the distributions allow. -/
def Quotes : Message → Prop
  | .addOrder m => ∃ x : LiveOrder, x.Quoted ∧
    m = makeAddOrderMsg x.orderId x.side x.price x.quantity
  | .modifyOrder m => ∃ x : LiveOrder, x.Quoted ∧
    m = makeModifyOrderMsg x.orderId x.price x.quantity
  | .deleteOrder _ => True
  | .trade _ => False

theorem Yields.quotes {g g' : MarketDataGenerator} {m : Message} (h : g.Yields m g') :
    Quotes m := by
  cases h with
  | @add x fresh quoted => exact ⟨x, quoted, rfl⟩
  | @modify _ _ _ y enough live same quoted => exact ⟨y, quoted, rfl⟩
  | delete enough live gone => trivial

theorem emit_quotes {g g' : MarketDataGenerator} {ds : List Draws} {ms : List Message}
    (h : g.emit ds = some (ms, g')) : ∀ m ∈ ms, Quotes m := by
  induction ds generalizing g ms with
  | nil =>
    simp only [emit, Option.some.injEq, Prod.mk.injEq] at h
    obtain ⟨rfl, rfl⟩ := h
    exact fun _ hm => (List.not_mem_nil hm).elim
  | cons d ds ih =>
    obtain ⟨m, g₁, ms', rfl, hy, he⟩ := emit_cons h
    intro x hx
    rcases List.mem_cons.1 hx with rfl | hx
    · exact hy.quotes
    · exact ih he x hx

theorem Quotes.addsNonzero {m : Message} (h : Quotes m) : AddsNonzero m := by
  cases m with
  | addOrder w =>
    obtain ⟨x, hx, rfl⟩ := h
    simpa [AddsNonzero, AddOrderMsg.decodeQuantity, makeAddOrderMsg] using hx.quantity_ne_zero
  | modifyOrder w => trivial
  | deleteOrder w => trivial
  | trade w => trivial

/-- No message brings more than the greatest quantity to a price. -/
theorem Quotes.brings_le {m : Message} (h : Quotes m) : brings m ≤ 250 := by
  cases m with
  | addOrder w =>
    obtain ⟨x, hx, rfl⟩ := h
    simpa [brings, AddOrderMsg.decodeQuantity, makeAddOrderMsg]
      using UInt32.le_iff_toNat_le.1 hx.quantity.2
  | modifyOrder w =>
    obtain ⟨x, hx, rfl⟩ := h
    simpa [brings, ModifyOrderMsg.decodeQuantity, makeModifyOrderMsg]
      using UInt32.le_iff_toNat_le.1 hx.quantity.2
  | deleteOrder w => exact Nat.zero_le _
  | trade w => exact Nat.zero_le _

theorem sum_brings_le {ms : List Message} (h : ∀ m ∈ ms, Quotes m) :
    (ms.map brings).sum ≤ ms.length * 250 := by
  induction ms with
  | nil => exact Nat.zero_le _
  | cons m ms ih =>
    have hm := (h m (.head _)).brings_le
    have hms := ih fun m hm => h m (.tail _ hm)
    rw [List.map_cons, List.sum_cons, List.length_cons, Nat.succ_mul]
    omega

/-! ## The pool -/

def deletes (ms : List Message) : Nat := ms.countP (·.type = .deleteOrder)

/-- One call: by how much the pool grows, and that it stays at three. -/
theorem Yields.size {g g' : MarketDataGenerator} {m : Message} (h : g.Yields m g') :
    min (g.liveOrders.length + 1) 3 ≤ g'.liveOrders.length ∧
      g'.liveOrders.length + deletes [m] = g.liveOrders.length + adds [m] ∧
      (g.liveOrders.length < 4 → m.type = .addOrder) := by
  cases h with
  | add fresh quoted =>
    refine ⟨?_, ?_, fun _ => rfl⟩
    · rw [List.length_append, List.length_singleton]
      exact Nat.min_le_left ..
    · simp [deletes, adds, Message.type]
  | modify enough live same quoted =>
    have hlen := congrArg List.length live
    refine ⟨?_, ?_, fun hlt => by omega⟩
    · simp only [List.length_append, List.length_cons] at hlen ⊢
      omega
    · simp [deletes, adds, Message.type, hlen]
  | @delete pre post rest x enough live gone =>
    have hlen := congrArg List.length live
    have hrest := gone.length_eq
    simp only [List.length_append, List.length_cons] at hlen hrest
    refine ⟨?_, ?_, fun hlt => by omega⟩
    · show _ ≤ rest.length
      omega
    · have hd : deletes [Message.deleteOrder (makeDeleteOrderMsg x.orderId)] = 1 := rfl
      have ha : adds [Message.deleteOrder (makeDeleteOrderMsg x.orderId)] = 0 := rfl
      rw [hd, ha]
      show rest.length + 1 = _
      omega

theorem Yields.quoted {g g' : MarketDataGenerator} {m : Message} (h : g.Yields m g')
    (hg : ∀ x ∈ g.liveOrders, x.Quoted) : ∀ x ∈ g'.liveOrders, x.Quoted := by
  cases h with
  | add fresh quoted =>
    intro z hz
    rcases List.mem_append.1 hz with hz | hz
    · exact hg z hz
    · rw [List.mem_singleton.1 hz]
      exact quoted
  | @modify pre post x y enough live same quoted =>
    intro z hz
    rcases List.mem_append.1 hz with hz | hz
    · exact hg z (by rw [live]; exact List.mem_append_left _ hz)
    · rcases List.mem_cons.1 hz with rfl | hz
      · exact quoted
      · exact hg z (by rw [live]; exact List.mem_append_right _ (.tail _ hz))
  | @delete pre post rest x enough live gone =>
    intro z hz
    refine hg z ?_
    rw [live]
    have := gone.mem_iff.1 hz
    simp only [List.mem_append, List.mem_cons] at this ⊢
    tauto

section
variable {g g' : MarketDataGenerator} {ds : List Draws} {ms : List Message}

theorem emit_quoted (h : g.emit ds = some (ms, g')) (hg : ∀ x ∈ g.liveOrders, x.Quoted) :
    ∀ x ∈ g'.liveOrders, x.Quoted := by
  induction ds generalizing g ms with
  | nil =>
    simp only [emit, Option.some.injEq, Prod.mk.injEq] at h
    obtain ⟨rfl, rfl⟩ := h
    exact hg
  | cons d ds ih =>
    obtain ⟨m, g₁, ms', rfl, hy, he⟩ := emit_cons h
    exact ih he (hy.quoted hg)

end

end MarketDataGenerator

end Bmdfh
