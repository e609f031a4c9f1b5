import Bmdfh.EndToEnd.Proof.Agreement
import Bmdfh.ExchangeSim.Proof.Pool
import Bmdfh.OrderBook.Proof.Refines

/-!
# The book of a handler and the pool of the exchange

The book of a member of the group shows the live orders that the generator had when it had emitted
the messages the member has received (`mirrors_exchange`), over any network and with any limit.
-/

namespace Bmdfh

open Protocol Orders MarketDataGenerator

namespace Publisher

variable {options : Options} {p : Publisher}

/-- The messages stored are no more than those asked for. -/
theorem Paced.stored_le (hp : Paced options p) :
    p.published.flatten.length ≤ options.messages := by
  have hs := hp.stored
  have he := hp.emitted
  cases hpacket : p.packet with
  | none =>
    rw [hpacket, Option.elim_none] at hs
    omega
  | some packet =>
    obtain ⟨-, hlt, hlen⟩ := hp.packet packet.1 packet.2 hpacket
    rw [hpacket, Option.elim_some, hlen, batchSize] at hs
    omega

theorem Paced.stored_le_mul (hp : Paced options p) :
    p.published.flatten.length ≤ p.published.length * kMaxMessagesPerPacket := by
  have hs := hp.stored
  have he := hp.emitted
  refine Nat.le_trans ?_ (Nat.mul_le_mul_left _ options.messagesPerPacket_le)
  cases hpacket : p.packet with
  | none =>
    rw [hpacket, Option.elim_none] at hs
    rw [turns_of_idle hpacket] at he
    omega
  | some packet =>
    obtain ⟨hpos, -, hlen⟩ := hp.packet packet.1 packet.2 hpacket
    rw [hpacket, Option.elim_some, hlen, batchSize] at hs
    rw [turns_of_packet hpacket] at he
    obtain ⟨k, hk⟩ : ∃ k, p.published.length = k + 1 := ⟨_, (Nat.succ_pred_eq_of_pos hpos).symm⟩
    rw [hk, Nat.add_sub_cancel] at he
    rw [hk, Nat.succ_mul]
    omega

/-- The first messages, and the generator that has emitted them. -/
theorem Paced.emitted_take (hp : Paced options p) (n : Nat) : ∃ draws g,
    emit {} draws = some (p.published.flatten.take n, g) ∧
      (p.published.flatten.length ≤ n → g = p.generator) := by
  obtain ⟨draws, he⟩ := hp.generated
  by_cases hn : p.published.flatten.length ≤ n
  · rw [List.take_of_length_le hn]
    exact ⟨draws, p.generator, he, fun _ => rfl⟩
  · obtain ⟨g, hg⟩ := emit_take he n
    exact ⟨draws.take n, g, hg, fun hle => (hn hle).elim⟩

end Publisher

/-- The book shows the orders of the pool, uncrossed. -/
structure Shows (book : OrderBook) (g : MarketDataGenerator) : Prop where
  orders : ∀ id state, book.liveOrders[id]? = some state ↔
    ∃ order ∈ g.liveOrders, order.orderId = id ∧ order.state = state
  bid : ∀ bid, book.bbo.bestBid = some bid → 9950 ≤ bid.price ∧ bid.price ≤ 10000
  ask : ∀ ask, book.bbo.bestAsk = some ask → 10001 ≤ ask.price ∧ ask.price ≤ 10050

/-- The best price of a side is that of an order of the pool. -/
theorem OrderBook.Backed.best {book : OrderBook} {o : Orders} {g : MarketDataGenerator} {n : Nat}
    (hb : book.Backed o) (hh : g.Holds o n) {s : Side} {price quantity : UInt32}
    (hlevel : (book.levels s)[price]? = some quantity) :
    ∃ x ∈ g.liveOrders, x.side = s ∧ x.price = price := by
  obtain ⟨id, y, hy, hs, hp⟩ := hb.rests s _ _ hlevel
  obtain ⟨x, hx, -, rfl⟩ := (hh.lists.iff ..).1 hy
  exact ⟨x, hx, hs, hp⟩

/-- The book of what a generator has emitted. -/
theorem shows_of_emit {ds : List Draws} {ms : List Message} {g : MarketDataGenerator}
    (he : emit {} ds = some (ms, g)) (hlt : ms.length < 2 ^ 64) :
    Shows (OrderBook.applyAll {} ms) g := by
  have hadds : adds ms ≤ ms.length := List.countP_le_length
  have hh := emit_holds holds_empty he (by omega)
  have hb := OrderBook.backed_empty.applyAll ms
  have hq := emit_quoted he fun _ hx => (List.not_mem_nil hx).elim
  refine ⟨fun id x => ?_, fun bid hbid => ?_, fun ask hask => ?_⟩
  · rw [hb.live]
    exact hh.lists.iff id x
  · obtain ⟨x, hx, hs, hp⟩ := hb.best hh (s := .buy) (OrderBook.bestBid_eq_some.1 hbid).1
    have hprice := (hq x hx).price
    rw [hs] at hprice
    rw [← hp]
    exact hprice
  · obtain ⟨x, hx, hs, hp⟩ := hb.best hh (s := .sell) (OrderBook.bestAsk_eq_some.1 hask).1
    have hprice := (hq x hx).price
    rw [hs] at hprice
    rw [← hp]
    exact hprice

namespace Group

variable {ι : Type} [DecidableEq ι]

/-- **The handlers mirror the exchange.** At the head of its loop a handler's book shows the pool
as it was after the messages received, so the pool of now when it has received all that is
published; and when no sum of `--messages` orders can wrap, every level shows the exact sum of the
orders resting there. -/
theorem mirrors_exchange (options : Options) (messages : ι → Nat) (s : Group ι)
    (h : Reachable options messages s) (hlt : s.publisher.published.length < 2 ^ 32 - 1) (i : ι)
    (hi : (s.member i).phase = .head) :
    let handler := (s.member i).handler
    ∃ draws g, emit {} draws = some (s.stream.take handler.receivedMessages, g) ∧
      handler.receivedMessages ≤ s.stream.length ∧
      Shows handler.orderBook g ∧
      (handler.receivedMessages = s.stream.length → g = s.publisher.generator) ∧
      (options.messages * 250 < 2 ^ 32 →
        handler.orderBook.Mirrors (run empty (s.stream.take handler.receivedMessages))) := by
  intro handler
  have hs := h.sound hlt
  obtain ⟨n, hn, -⟩ := hs.head hi
  have hreceived : handler.receivedMessages ≤ s.stream.length := by
    refine Nat.le_trans hn.received_le ?_
    conv_rhs => rw [stream, ← List.take_append_drop n s.publisher.published]
    rw [List.flatten_append, List.length_append]
    exact Nat.le_add_right ..
  have hwords : s.stream.length < 2 ^ 64 := by
    have hmax : kMaxMessagesPerPacket = 42 := rfl
    have := hs.paced.stored_le_mul
    rw [hmax] at this
    show s.publisher.published.flatten.length < _
    omega
  obtain ⟨draws, g, he, hall⟩ := hs.paced.emitted_take handler.receivedMessages
  have hbook : handler.orderBook
      = OrderBook.applyAll {} (s.stream.take handler.receivedMessages) := hn.orderBook
  have hlen : (s.stream.take handler.receivedMessages).length = handler.receivedMessages :=
    List.length_take_of_le hreceived
  refine ⟨draws, g, he, hreceived, ?_, fun heq => hall (Nat.le_of_eq heq.symm), fun hsmall => ?_⟩
  · rw [hbook]
    exact shows_of_emit he (by omega)
  · -- the quantities of all the messages together fit a word
    have hq : ∀ m ∈ s.stream.take handler.receivedMessages, Quotes m := emit_quotes he
    have hsum := sum_brings_le hq
    have hstored := hs.paced.stored_le
    have hfit : SumsFit (s.stream.take handler.receivedMessages) := by
      refine sumsFit_of_brings (Nat.lt_of_le_of_lt hsum (Nat.lt_of_le_of_lt ?_ hsmall))
      rw [hlen]
      exact Nat.mul_le_mul_right _ (Nat.le_trans hreceived hstored)
    have hputs : ∀ m ∈ s.stream.take handler.receivedMessages, PutsNonzero m := fun m hm =>
      (hq m hm).addsNonzero.puts
    rw [hbook]
    exact (OrderBook.agrees_applyAll hputs hfit).mirrors
      (OrderBook.pos_run_empty hputs (List.prefix_refl _))

/-- A handler that has received the only packet. -/
theorem mirrors_exchange_of_one_packet :
    ∃ s : Group Unit, Reachable { messages := 1 } (fun _ => 0) s ∧
      (s.member ()).delivered.length = 1 ∧
      ∃ draws g, emit {} draws
          = some (s.stream.take (s.member ()).handler.receivedMessages, g) ∧
        Shows (s.member ()).handler.orderBook g := by
  obtain ⟨s, hs, hlen, hphase, hdelivered, -⟩ := exists_one_packet (fun _ => 0) ()
  obtain ⟨draws, g, he, -, hshow, -⟩ :=
    mirrors_exchange _ _ _ hs (by rw [hlen]; decide) () hphase
  exact ⟨s, hs, hdelivered, draws, g, he, hshow⟩

end Group

end Bmdfh
