import Bmdfh.OrderBook.Proof.Steps

/-!
# The book refines its live orders

With nonzero adds and sums that fit a word, the incremental book is at every moment the book one
would compute from the live orders (`applyAll_mirrors`). It is then determined by the live orders,
and these by the messages of each order, whatever the interleaving (`applyAll_interleaved`).
-/

namespace Bmdfh

open Std Protocol Tally Orders

namespace OrderBook

/-- The book shows exactly the live orders `o`. -/
structure Mirrors (book : OrderBook) (o : Orders) : Prop where
  live : ∀ id, book.liveOrders[id]? = o id
  /-- A price is a key when some order rests there. -/
  key : ∀ side price, price ∈ book.levels side ↔ o.Rests side price
  quantity : ∀ side price q, (book.levels side)[price]? = some q →
    0 < q ∧ q.toNat = o.sum side price
  bestBid : ∀ l, book.bbo.bestBid = some l ↔
    o.Rests .buy l.price ∧ (∀ price, o.Rests .buy price → price ≤ l.price) ∧
      l.quantity.toNat = o.sum .buy l.price
  bestAsk : ∀ l, book.bbo.bestAsk = some l ↔
    o.Rests .sell l.price ∧ (∀ price, o.Rests .sell price → l.price ≤ price) ∧
      l.quantity.toNat = o.sum .sell l.price
  noBid : book.bbo.bestBid = none ↔ ∀ id x, o id = some x → x.side ≠ .buy
  noAsk : book.bbo.bestAsk = none ↔ ∀ id x, o id = some x → x.side ≠ .sell

theorem agrees_empty {R : ExtTreeMap UInt32 UInt32 → (UInt32 → Nat) → Prop} (hR : R ∅ fun _ => 0) :
    Agrees R {} Orders.empty := by
  refine ⟨fun id => ExtTreeMap.getElem?_empty, fun s => ?_⟩
  have hs : Orders.empty.sum s = fun _ => 0 := funext fun p => sum_empty s p
  rw [hs]
  cases s <;> exact hR

section
variable {b : OrderBook} {o : Orders}

theorem forall_side_iff (s : Side) :
    (∀ p, ¬ o.Rests s p) ↔ ∀ id x, o id = some x → x.side ≠ s :=
  ⟨fun h id x hx hs => h x.price ⟨id, x, hx, hs, rfl⟩, fun h _ ⟨id, x, hx, hs, _⟩ => h id x hx hs⟩

theorem Agrees.mem_iff (h : Agrees Exact b o) (hpos : ∀ id x, o id = some x → 0 < x.quantity)
    (s : Side) (p : UInt32) : p ∈ b.levels s ↔ o.Rests s p := by
  rw [ExtTreeMap.mem_iff_isSome_getElem?, (h.level s).get_isSome]
  exact ⟨rests_of_sum_pos, fun hr => sum_pos_of_rests hr hpos⟩

/-- A level reads as the sum of an order resting there. -/
theorem Agrees.get_iff (h : Agrees Exact b o) (hpos : ∀ id x, o id = some x → 0 < x.quantity)
    (s : Side) (p q : UInt32) :
    (b.levels s)[p]? = some q ↔ o.Rests s p ∧ q.toNat = o.sum s p := by
  constructor
  · intro hq
    obtain ⟨hv, hp⟩ := (h.level s).get hq
    exact ⟨rests_of_sum_pos hp, hv⟩
  · rintro ⟨hr, hv⟩
    rw [((h.level s) p).2, if_neg (Nat.pos_iff_ne_zero.1 (sum_pos_of_rests hr hpos)), ← hv,
      UInt32.ofNat_toNat]

theorem Agrees.mirrors (h : Agrees Exact b o) (hpos : ∀ id x, o id = some x → 0 < x.quantity) :
    Mirrors b o := by
  have hget := fun s p q => h.get_iff hpos s p q
  have hmem := fun s p => h.mem_iff hpos s p
  have hall : ∀ s (P : UInt32 → Prop),
      (∀ p q, (b.levels s)[p]? = some q → P p) ↔ ∀ p, o.Rests s p → P p := fun s P => by
    refine ⟨fun hP p hr => ?_, fun hP p q hq => hP p ((hget s p q).1 hq).1⟩
    have hm := (hmem s p).2 hr
    rw [ExtTreeMap.mem_iff_isSome_getElem?, Option.isSome_iff_exists] at hm
    obtain ⟨q, hq⟩ := hm
    exact hP p q hq
  have hnone : ∀ s, (∀ p : UInt32, (b.levels s)[p]? = none) ↔
      ∀ id x, o id = some x → x.side ≠ s := fun s => by
    rw [← forall_side_iff]
    refine forall_congr' fun p => ?_
    rw [← hmem s p, ExtTreeMap.mem_iff_isSome_getElem?, Bool.not_eq_true,
      Option.isSome_eq_false_iff, Option.isNone_iff_eq_none]
  refine ⟨h.live, hmem, fun s p q hq => ?_, fun l => ?_, fun l => ?_, ?_, ?_⟩
  · obtain ⟨hv, hp⟩ := (h.level s).get hq
    exact ⟨UInt32.lt_iff_toNat_lt.2 (hv ▸ hp), hv⟩
  · refine bestBid_eq_some.trans ⟨fun ⟨hq, hmax⟩ => ?_, fun ⟨hr, hmax, hv⟩ => ?_⟩
    · obtain ⟨hr, hv⟩ := (hget .buy _ _).1 hq
      exact ⟨hr, (hall .buy (· ≤ l.price)).1 hmax, hv⟩
    · exact ⟨(hget .buy _ _).2 ⟨hr, hv⟩, (hall .buy (· ≤ l.price)).2 hmax⟩
  · refine bestAsk_eq_some.trans ⟨fun ⟨hq, hmin⟩ => ?_, fun ⟨hr, hmin, hv⟩ => ?_⟩
    · obtain ⟨hr, hv⟩ := (hget .sell _ _).1 hq
      exact ⟨hr, (hall .sell (l.price ≤ ·)).1 hmin, hv⟩
    · exact ⟨(hget .sell _ _).2 ⟨hr, hv⟩, (hall .sell (l.price ≤ ·)).2 hmin⟩
  · exact bestBid_eq_none.trans (hnone .buy)
  · exact bestAsk_eq_none.trans (hnone .sell)

end

/-! ## Runs from the empty book -/

theorem pos_run_empty {ms pre : List Message} (hms : ∀ m ∈ ms, PutsNonzero m) (hpre : pre <+: ms) :
    ∀ id x, run empty pre id = some x → 0 < x.quantity :=
  pos_run (fun m hm => hms m (hpre.subset hm)) fun _ _ hx => nomatch hx

theorem agrees_applyAll {ms : List Message} (hms : ∀ m ∈ ms, PutsNonzero m) (hfit : SumsFit ms) :
    Agrees Exact (applyAll {} ms) (run empty ms) := by
  refine (agrees_empty Exact.empty).applyAll kept_exact
    fun pre hpre id y hy => ⟨?_, hfit pre hpre ..⟩
  exact sum_pos_of_rests ⟨id, y, hy, rfl, rfl⟩ (pos_run_empty hms hpre)

/-- **Refinement.** After every prefix the book shows exactly the orders then live. -/
theorem applyAll_mirrors (ms : List Message) (hms : ∀ m ∈ ms, AddsNonzero m) (hfit : SumsFit ms) :
    ∀ pre, pre <+: ms → Mirrors (applyAll {} pre) (run empty pre) := by
  intro pre hpre
  have hputs : ∀ m ∈ pre, PutsNonzero m := fun m hm => (hms m (hpre.subset hm)).puts
  have h := agrees_applyAll hputs (SumsFit.of_prefix hfit hpre)
  exact h.mirrors (pos_run_empty hputs (List.prefix_refl pre))

theorem applyAll_mirrors_of_trade_and_reuse :
    let ms : List Message := [.addOrder (makeAddOrderMsg 1 .buy 100 50),
      .addOrder (makeAddOrderMsg 2 .sell 101 20), .trade (makeTradeMsg 2 101 30),
      .addOrder (makeAddOrderMsg 1 .buy 99 7)]
    Mirrors (applyAll {} ms) (run empty ms) ∧
      (applyAll {} ms).bbo = { bestBid := some { price := 99, quantity := 7 } } :=
  ⟨applyAll_mirrors _ (by decide +kernel) (sumsFit_of_brings (by decide +kernel)) _
    (List.prefix_refl _), by decide +kernel⟩

/-- Books that agree with the same live orders are the same. -/
theorem Agrees.unique {b b' : OrderBook} {o : Orders} (h : Agrees Exact b o)
    (h' : Agrees Exact b' o) : b = b' :=
  ext_levels (ExtTreeMap.ext_getElem? fun id => by rw [h.live, h'.live])
    fun s => (h.level s).unique (h'.level s)

/-- **Interleaving.** Two sequences with the same messages for each order, in the same order, leave
the same book. -/
theorem applyAll_interleaved (s t : List Message) (hs : ∀ m ∈ s, AddsNonzero m)
    (ht : ∀ m ∈ t, AddsNonzero m) (hsfit : SumsFit s) (htfit : SumsFit t)
    (hst : ∀ id, s.filter (·.orderId = id) = t.filter (·.orderId = id)) :
    (applyAll {} s).liveOrders = (applyAll {} t).liveOrders ∧
      (applyAll {} s).bids = (applyAll {} t).bids ∧
      (applyAll {} s).asks = (applyAll {} t).asks ∧
      (applyAll {} s).bbo = (applyAll {} t).bbo := by
  have hrun : run empty s = run empty t := funext fun id => by
    rw [run_eq_foldl, run_eq_foldl, hst]
  have hb : applyAll {} s = applyAll {} t :=
    (agrees_applyAll (fun m hm => (hs m hm).puts) hsfit).unique
      (hrun ▸ agrees_applyAll (fun m hm => (ht m hm).puts) htfit)
  rw [hb]
  exact ⟨rfl, rfl, rfl, rfl⟩

theorem applyAll_interleaved_of_two_orders :
    let a : Message := .addOrder (makeAddOrderMsg 1 .buy 100 50)
    let b : Message := .addOrder (makeAddOrderMsg 2 .buy 100 20)
    let c : Message := .modifyOrder (makeModifyOrderMsg 1 98 10)
    (applyAll {} [a, b, c]).bids = (applyAll {} [b, a, c]).bids := by
  intro a b c
  refine (applyAll_interleaved [a, b, c] [b, a, c] (by decide +kernel) (by decide +kernel)
    (sumsFit_of_brings (by decide +kernel)) (sumsFit_of_brings (by decide +kernel))
    fun id => ?_).2.1
  by_cases h1 : a.orderId = id
  · subst h1
    decide +kernel
  · by_cases h2 : b.orderId = id
    · subst h2
      decide +kernel
    · have hc : c.orderId = a.orderId := by decide +kernel
      simp [h1, h2, hc]

end OrderBook

end Bmdfh
