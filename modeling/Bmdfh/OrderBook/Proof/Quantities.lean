import Bmdfh.OrderBook.Proof.Operations

/-!
# Sums and zeros

What the quantities of the messages do to the levels when nothing is known of them.

* `add_level_exact_iff`: the sums kept by `add_level` are the true ones exactly when the live
  orders of every side and price add up to a word at most.
* `zero_free_iff`: within that, no order and no level is at zero exactly when no add puts an
  order of quantity zero.
-/

namespace Bmdfh

open Std OrdMap Protocol Tally Orders

namespace OrderBook

/-- The quantity shown at a price, zero where there is no level. -/
def shown (book : OrderBook) (side : Side) (price : UInt32) : Nat := read (book.levels side) price

/-- The call of `add_level` a message leads to: the book at the call, and its arguments. -/
def addLevelCall (book : OrderBook) : Message → Option (OrderBook × Side × UInt32 × UInt32)
  | .addOrder m =>
    m.decodeSide.map fun side =>
      (book.eraseOrder m.decodeOrderId, side, m.decodePrice, m.decodeQuantity)
  | .modifyOrder m =>
    book.liveOrders[m.decodeOrderId]?.bind fun order =>
      if m.decodeQuantity = 0 then none
      else
        let order' : OrderState :=
          { order with price := m.decodePrice, quantity := m.decodeQuantity }
        let book := book.subtractLevel order.side order.price order.quantity
        some ({ book with liveOrders := book.liveOrders.insert m.decodeOrderId order' },
          order'.side, order'.price, order'.quantity)
  | .deleteOrder _ => none
  | .trade _ => none

/-- Every call of `add_level` adds as on natural numbers, so that an add under a fresh id never
makes its level smaller. -/
structure AddsUp (ms : List Message) : Prop where
  exact : ∀ pre m post, ms = pre ++ m :: post →
    ∀ book side price quantity,
      (applyAll {} pre).addLevelCall m = some (book, side, price, quantity) →
      (book.addLevel side price quantity).shown side price
        = book.shown side price + quantity.toNat
  grows : ∀ pre m post, ms = pre ++ m :: post →
    ∀ id side price quantity, m.operation = .add id (some side) price quantity →
      (applyAll {} pre).liveOrders[id]? = none →
      (applyAll {} pre).shown side price ≤ ((applyAll {} pre).update m).shown side price

section
variable {b b' : OrderBook} {o : Orders} {m : Message} {s : Side} {p q : UInt32}

theorem addLevelCall_eq_some (h : b.addLevelCall m = some (b', s, p, q)) :
    (∀ s', (b.update m).levels s' = (b'.addLevel s p q).levels s') ∧
    next b.liveOrders[m.orderId]? m = some { side := s, quantity := q, price := p } ∧
    (∀ s', b'.levels s' = (b.eraseOrder m.orderId).levels s') := by
  cases m with
  | addOrder w =>
    simp only [addLevelCall, Option.map_eq_some_iff, Prod.mk.injEq] at h
    obtain ⟨s', hs, rfl, rfl, rfl, rfl⟩ := h
    refine ⟨fun s' => ?_, ?_, fun s' => rfl⟩
    · rw [update, applyAdd_of_some hs, levels_put, levels_addLevel]
    · simp only [next, hs]
  | modifyOrder w =>
    simp only [addLevelCall, Option.bind_eq_some_iff] at h
    obtain ⟨x, hx, h⟩ := h
    split at h
    · cases h
    · rename_i hq
      simp only [Option.some.injEq, Prod.mk.injEq] at h
      obtain ⟨rfl, rfl, rfl, rfl⟩ := h
      refine ⟨fun s' => ?_, ?_, fun s' => ?_⟩
      · rw [update, applyModify_of_ne_zero hx hq]
        simp only [levels_put, levels_addLevel, levels_with, take]
      · simp only [Message.orderId, next, hx, Option.bind_some, if_neg hq]
      · rw [Message.orderId, eraseOrder_of_some hx]
        simp only [levels_with, take]
  | deleteOrder w => cases h
  | trade w => cases h

/-- Without a call no sum grows. -/
theorem addLevelCall_eq_none (hlive : ∀ id, b.liveOrders[id]? = o id)
    (h : b.addLevelCall m = none) (s : Side) (p : UInt32) : sum (step o m) s p ≤ sum o s p := by
  have hu := sum_update o m.orderId (next (o m.orderId) m) s p
  have hw : weight s p (next (o m.orderId) m) ≤ weight s p (o m.orderId) := by
    cases m with
    | addOrder w =>
      simp only [addLevelCall, Option.map_eq_none_iff] at h
      simp only [next, h]
      exact Nat.le_refl _
    | modifyOrder w =>
      rw [← hlive]
      simp only [addLevelCall, Message.orderId, next] at h ⊢
      cases hx : b.liveOrders[w.decodeOrderId]? with
      | none => exact Nat.zero_le _
      | some x =>
        rw [hx, Option.bind_some] at h
        split at h
        · rename_i hq
          rw [Option.bind_some, if_pos hq]
          exact Nat.zero_le _
        · cases h
    | deleteOrder w => exact Nat.zero_le _
    | trade w => exact weight_next_le _ (.trade w) s p
  rw [step]
  omega

/-- The order erased, as far as levels go. -/
theorem reads_eraseOrder (h : Agrees Reads b o) (id : UInt64) (s : Side) :
    Reads ((b.eraseOrder id).levels s) (sum (Function.update o id none) s) := by
  cases hx : b.liveOrders[id]? with
  | none =>
    have ho : o id = none := by rw [← h.live, hx]
    rw [eraseOrder_of_none hx, ← ho, Function.update_eq_self]
    exact h.level s
  | some x =>
    have ho : o id = some x := by rw [← h.live, hx]
    have ht := h.take kept_reads ho (UInt32.le_refl x.quantity)
    rw [remaining_self] at ht
    rw [eraseOrder_of_some hx]
    exact ht.level s

/-- The sum after a call of `add_level`: what was shown, and the quantity added. -/
theorem sum_of_addLevelCall (h : Agrees Reads b o) (hc : b.addLevelCall m = some (b', s, p, q)) :
    sum (step o m) s p = b'.shown s p + q.toNat := by
  obtain ⟨-, hn, hl⟩ := addLevelCall_eq_some hc
  have hr := reads_eraseOrder h m.orderId s p
  have hu := sum_update (Function.update o m.orderId none) m.orderId (next (o m.orderId) m) s p
  rw [Function.update_idem, Function.update_self, weight_none, Nat.add_zero, ← h.live, hn,
    weight_some, if_pos ⟨rfl, rfl⟩] at hu
  rw [step, ← h.live, hn, shown, hl, hr]
  exact hu

theorem shown_addLevel (b : OrderBook) (s : Side) (p q : UInt32) :
    (b.addLevel s p q).shown s p = (b.shown s p + q.toNat) % 2 ^ 32 := by
  show read ((b.addLevel s p q).levels s) p = (read (b.levels s) p + q.toNat) % 2 ^ 32
  rw [levels_addLevel, if_pos rfl, read_add_self]

/-- One message: its call of `add_level` is exact when the sums still fit. -/
theorem exact_iff_sum_lt (h : Agrees Reads b o) :
    (∀ b' s p q, b.addLevelCall m = some (b', s, p, q) →
      (b'.addLevel s p q).shown s p = b'.shown s p + q.toNat) ↔
    ∀ s p, sum (step o m) s p < 2 ^ 32 := by
  cases hc : b.addLevelCall m with
  | none =>
    refine ⟨fun _ s p => ?_, fun _ b' s p q h' => nomatch h'⟩
    exact Nat.lt_of_le_of_lt (addLevelCall_eq_none h.live hc s p) ((h.level s).lt p)
  | some c =>
    obtain ⟨b', s, p, q⟩ := c
    have hsum := sum_of_addLevelCall h hc
    constructor
    · intro hex
      have hlt : sum (step o m) s p < 2 ^ 32 := by
        rw [hsum, ← hex b' s p q rfl]
        exact read_lt ..
      have hupdate : Agrees Reads (b.update m) (step o m) := by
        refine h.update kept_reads m fun y hy => ?_
        rw [step_self, ← h.live, (addLevelCall_eq_some hc).2.1] at hy
        cases hy
        exact hlt
      exact fun s p => (hupdate.level s).lt p
    · intro hlt b'' s' p' q' he
      cases he
      rw [shown_addLevel, Nat.mod_eq_of_lt (hsum ▸ hlt s p)]

/-- A run: every call is exact when the sums fit after every prefix. -/
theorem exact_run_iff (h : Agrees Reads b o) (ms : List Message) :
    (∀ pre m post, ms = pre ++ m :: post → ∀ b' s p q,
      (b.applyAll pre).addLevelCall m = some (b', s, p, q) →
      (b'.addLevel s p q).shown s p = b'.shown s p + q.toNat) ↔
    ∀ pre, pre <+: ms → ∀ s p, sum (run o pre) s p < 2 ^ 32 := by
  induction ms generalizing b o with
  | nil =>
    refine ⟨fun _ pre hpre s p => ?_, fun _ pre m post hms => ?_⟩
    · rw [List.prefix_nil.1 hpre]
      exact (h.level s).lt p
    · exact absurd hms (by simp)
  | cons m ms ih =>
    constructor
    · intro hex pre hpre s p
      have hfirst := (exact_iff_sum_lt h).1 (hex [] m ms rfl)
      have hm := h.update kept_reads m fun y _ => hfirst y.side y.price
      cases pre with
      | nil => exact (h.level s).lt p
      | cons m' pre =>
        obtain ⟨rfl, htail⟩ := List.cons_prefix_cons.1 hpre
        refine (ih hm).1 (fun pre m'' post hms => ?_) pre htail s p
        exact hex (m' :: pre) m'' post (by rw [hms]; rfl)
    · intro hfit pre m' post hms
      have hfirst : ∀ s p, sum (step o m) s p < 2 ^ 32 := hfit [m] ⟨ms, rfl⟩
      have hm := h.update kept_reads m fun y _ => hfirst y.side y.price
      cases pre with
      | nil =>
        obtain ⟨rfl, rfl⟩ := List.cons.inj hms
        exact (exact_iff_sum_lt h).2 hfirst
      | cons m'' pre =>
        obtain ⟨rfl, htail⟩ := List.cons.inj hms
        refine (ih hm).2 (fun pre hpre => ?_) pre m' post htail
        exact hfit (m :: pre) (List.cons_prefix_cons.2 ⟨rfl, hpre⟩)

end

theorem agrees_reads_empty : Agrees Reads {} Orders.empty := agrees_empty Reads.empty

/-- **Level sums** are exact exactly when the sums of the live orders fit a word. -/
theorem add_level_exact_iff (ms : List Message) : AddsUp ms ↔ SumsFit ms := by
  refine ⟨fun h => (exact_run_iff agrees_reads_empty ms).1 h.exact, fun h => ?_⟩
  have hexact := (exact_run_iff agrees_reads_empty ms).2 h
  refine ⟨hexact, fun pre m post hms id s p q hm hid => ?_⟩
  obtain ⟨w, rfl, hw, hs, rfl, rfl⟩ := operation_eq_add hm
  have hfresh : (applyAll {} pre).eraseOrder w.decodeOrderId = applyAll {} pre :=
    eraseOrder_of_none (hw ▸ hid)
  have hc : (applyAll {} pre).addLevelCall (.addOrder w)
      = some (applyAll {} pre, s, w.decodePrice, w.decodeQuantity) := by
    simp only [addLevelCall, hs, Option.map_some, hfresh]
  have he := hexact pre _ post hms _ _ _ _ hc
  rw [shown] at he
  rw [shown, shown, (addLevelCall_eq_some hc).1, he]
  exact Nat.le_add_right ..

/-- Two orders at one price, together more than a word. -/
theorem not_addsUp_of_wrap :
    ¬ AddsUp [.addOrder (makeAddOrderMsg 1 .buy 100 0xFFFFFFFF),
      .addOrder (makeAddOrderMsg 2 .buy 100 1)] := by
  intro h
  have := h.grows [.addOrder (makeAddOrderMsg 1 .buy 100 0xFFFFFFFF)] _ [] rfl 2 .buy 100 1
    (by decide +kernel) (by decide +kernel)
  revert this
  decide +kernel

/-! ## Zeros -/

/-- No order and no level is at zero, and the best bid and offer say so. -/
structure ZeroFree (book : OrderBook) : Prop where
  order : ∀ (id : UInt64) x, book.liveOrders[id]? = some x → 0 < x.quantity ∧
    x.price ∈ book.levels x.side
  level : ∀ side (price : UInt32) q, (book.levels side)[price]? = some q → 0 < q
  bestBid : ∀ l, book.bbo.bestBid = some l → 0 < l.quantity
  bestAsk : ∀ l, book.bbo.bestAsk = some l → 0 < l.quantity
  bid : ∀ (id : UInt64) x, book.liveOrders[id]? = some x → x.side = .buy →
    book.bbo.bestBid ≠ none
  ask : ∀ (id : UInt64) x, book.liveOrders[id]? = some x → x.side = .sell →
    book.bbo.bestAsk ≠ none

theorem Mirrors.zeroFree {book : OrderBook} {o : Orders} (h : Mirrors book o)
    (hpos : ∀ id x, o id = some x → 0 < x.quantity) : ZeroFree book := by
  refine ⟨fun id x hx => ?_, fun s p q hq => (h.quantity s p q hq).1, fun l hl => ?_,
    fun l hl => ?_, fun id x hx hs hn => ?_, fun id x hx hs hn => ?_⟩
  · rw [h.live] at hx
    exact ⟨hpos id x hx, (h.key x.side x.price).2 ⟨id, x, hx, rfl, rfl⟩⟩
  · exact (h.quantity .buy _ _ (bestBid_eq_some.1 hl).1).1
  · exact (h.quantity .sell _ _ (bestAsk_eq_some.1 hl).1).1
  · exact h.noBid.1 hn id x (h.live id ▸ hx) hs
  · exact h.noAsk.1 hn id x (h.live id ▸ hx) hs

/-- An add that is not `PutsNonzero` leaves an order of quantity zero. -/
theorem not_zeroFree_of_put {b : OrderBook} {m : Message} (hm : ¬ PutsNonzero m) :
    ¬ ZeroFree (b.update m) := by
  cases m with
  | addOrder w =>
    simp only [PutsNonzero, Classical.not_imp, not_not] at hm
    obtain ⟨hs, hq⟩ := hm
    obtain ⟨s, hs⟩ := Option.ne_none_iff_exists'.1 hs
    intro h
    have hlive : (b.update (.addOrder w)).liveOrders[w.decodeOrderId]?
        = some { side := s, quantity := w.decodeQuantity, price := w.decodePrice } := by
      rw [update, applyAdd_of_some hs]
      exact get_insert_self ..
    have hpos := (h.order _ _ hlive).1
    simp only [hq] at hpos
    exact absurd hpos (by decide)
  | modifyOrder w => exact absurd trivial hm
  | deleteOrder w => exact absurd trivial hm
  | trade w => exact absurd trivial hm

/-- **Zeros**: with sums that fit a word, none ever shows exactly when no add puts one. -/
theorem zero_free_iff (ms : List Message) (hfit : SumsFit ms) :
    (∀ pre, pre <+: ms → ZeroFree (applyAll {} pre)) ↔ ∀ m ∈ ms, PutsNonzero m := by
  constructor
  · intro h m hm
    obtain ⟨pre, post, rfl⟩ := List.append_of_mem hm
    by_contra hz
    have hpre := h (pre ++ [m]) ⟨post, by simp⟩
    rw [applyAll_append, applyAll_cons, applyAll_nil] at hpre
    exact not_zeroFree_of_put hz hpre
  · intro hms pre hpre
    have hputs : ∀ m ∈ pre, PutsNonzero m := fun m hm => hms m (hpre.subset hm)
    have hpos := pos_run_empty hputs (List.prefix_refl pre)
    exact ((agrees_applyAll hputs (hfit.of_prefix hpre)).mirrors hpos).zeroFree hpos

theorem zero_free_iff_of_modify_to_zero :
    let ms : List Message := [.addOrder (makeAddOrderMsg 1 .buy 100 5),
      .modifyOrder (makeModifyOrderMsg 1 100 0)]
    (∀ pre, pre <+: ms → ZeroFree (applyAll {} pre)) ↔ ∀ m ∈ ms, PutsNonzero m :=
  zero_free_iff _ (sumsFit_of_brings (by decide +kernel))

/-- An add of quantity zero rests, and shows as the best bid. -/
theorem not_zeroFree_of_zero_add :
    let ms : List Message := [.addOrder (makeAddOrderMsg 1 .buy 100 0)]
    SumsFit ms ∧ ¬ (∀ pre, pre <+: ms → ZeroFree (applyAll {} pre)) ∧
      (applyAll {} ms).bbo.bestBid = some { price := 100, quantity := 0 } := by
  intro ms
  refine ⟨sumsFit_of_brings (by decide +kernel), fun h => ?_, by decide +kernel⟩
  have hbid := (h ms (List.prefix_refl ms)).bestBid { price := 100, quantity := 0 }
    (by decide +kernel)
  exact absurd hbid (by decide)

end OrderBook

end Bmdfh
