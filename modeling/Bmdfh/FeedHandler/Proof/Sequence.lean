import Bmdfh.FeedHandler.Proof.Runs

/-!
# Sequence safety

Whatever arrives and whatever the recovery server answers, the packets processed carry the numbers
1, 2, 3, … modulo `2 ^ 32` (`Sequenced`), and the book is the one that the messages applied make of
the empty book (`Recorded`). Both hold at the head of the receive loop (`Reachable.sequenced`,
`Reachable.recorded`); `Proof.Machine` has them at every point.
-/

namespace Bmdfh.Handler

open Std OrdMap Protocol Outcome

/-! ## The two invariants -/

/-- The packets processed are numbered without gap, and the counters count them. -/
structure Sequenced (h : Handler) : Prop where
  numbered : ∀ i (hi : i < h.processed.length), ∃ packet,
    parsePacket h.processed[i].2 = some packet ∧
      decodeSeqNum packet.header = UInt32.ofNat (i + 1)
  expected : h.expectedPacketSeq = UInt32.ofNat (h.processed.length + 1)
  processedPackets : h.processedPackets = h.processed.length
  sources : h.livePackets + h.replayPackets + h.drainPackets = h.processed.length

/-- The book and the message counter record the messages applied. -/
structure Recorded (h : Handler) : Prop where
  orderBook : h.orderBook = OrderBook.applyAll {} (h.applied.map Prod.snd)
  receivedMessages : h.receivedMessages = h.applied.length

theorem finish_sources (h : Handler) (bytes : Bytes) (source : PacketSource) (seq : UInt32) :
    (h.finish bytes source seq).livePackets + (h.finish bytes source seq).replayPackets
      + (h.finish bytes source seq).drainPackets
      = h.livePackets + h.replayPackets + h.drainPackets + 1 := by
  cases source <;> simp only [finish, countPacket] <;> omega

theorem Sequenced.finish {h : Handler} (hs : Sequenced h) {bytes : Bytes} {packet : PacketView}
    (source : PacketSource) (hp : parsePacket bytes = some packet)
    (hseq : decodeSeqNum packet.header = h.expectedPacketSeq) :
    Sequenced (h.finish bytes source (decodeSeqNum packet.header)) := by
  refine ⟨fun i hi => ?_, ?_, ?_, ?_⟩
  · simp only [finish_processed, List.length_append, List.length_singleton] at hi ⊢
    by_cases hlt : i < h.processed.length
    · rw [List.getElem_append_left hlt]
      exact hs.numbered i hlt
    · have he : i = h.processed.length := by omega
      subst he
      refine ⟨packet, ?_, hseq.trans hs.expected⟩
      simpa using hp
  · rw [finish_expectedPacketSeq, finish_processed, hseq, hs.expected, List.length_append,
      List.length_singleton, UInt32.ofNat_add (h.processed.length + 1)]
    rfl
  · rw [finish_processedPackets, finish_processed, hs.processedPackets, List.length_append,
      List.length_singleton]
  · rw [finish_sources, finish_processed, hs.sources, List.length_append, List.length_singleton]

theorem respected_sequenced : Respected (Keeps Sequenced) where
  apply _ _ _ hs := ⟨hs.numbered, hs.expected, hs.processedPackets, hs.sources⟩
  finish _ _ _ source hp hseq hs := hs.finish source hp hseq
  unpark _ _ hs := ⟨hs.numbered, hs.expected, hs.processedPackets, hs.sources⟩

theorem Recorded.apply {h : Handler} (hr : Recorded h) (bytes : Bytes) (m : Message) :
    Recorded (h.applyMessage bytes m) := by
  refine ⟨?_, ?_⟩
  · show (h.orderBook.apply m).2 = _
    rw [hr.orderBook, applyMessage, List.map_append, OrderBook.applyAll_append]
    rfl
  · show h.receivedMessages + 1 = _
    rw [hr.receivedMessages, applyMessage, List.length_append]
    rfl

theorem respected_recorded : Respected (Keeps Recorded) where
  apply _ bytes m hr := hr.apply bytes m
  finish h bytes packet source _ _ hr := by
    refine ⟨?_, ?_⟩
    · rw [finish_orderBook, finish_applied, hr.orderBook]
    · rw [finish_receivedMessages, finish_applied, hr.receivedMessages]
  unpark _ _ hr := ⟨hr.orderBook, hr.receivedMessages⟩

/-! ## Runs of the receive loop -/

/-- The states at the head of the receive loop. -/
def Reachable (messages : Nat) (h : Handler) : Prop :=
  ∃ arrivals, receiveLoop messages arrivals {} = .ok () h

theorem sequenced_init : Sequenced {} :=
  ⟨fun _ hi => (Nat.not_lt_zero _ hi).elim, rfl, rfl, rfl⟩

theorem Reachable.sequenced {messages : Nat} {h : Handler} (hh : Reachable messages h) :
    Sequenced h := by
  obtain ⟨arrivals, hrun⟩ := hh
  refine (respected_sequenced.receiveLoop (fun _ hs => ?_) (fun _ _ _ hs => ?_) arrivals).ok hrun
    sequenced_init
  all_goals exact ⟨hs.numbered, hs.expected, hs.processedPackets, hs.sources⟩

theorem Reachable.recorded {messages : Nat} {h : Handler} (hh : Reachable messages h) :
    Recorded h := by
  obtain ⟨arrivals, hrun⟩ := hh
  refine (respected_recorded.receiveLoop (fun _ hr => ?_) (fun _ _ _ hr => ?_) arrivals).ok hrun
    ⟨rfl, rfl⟩
  all_goals exact ⟨hr.orderBook, hr.receivedMessages⟩

/-- A stale datagram is discarded. -/
theorem handleDatagram_stale {messages : Nat} {recovery : Recovery} {h : Handler} {bytes : Bytes}
    {packet : PacketView} (hp : parsePacket bytes = some packet)
    (hlt : decodeSeqNum packet.header < h.expectedPacketSeq) :
    handleDatagram messages recovery bytes h = .ok () h := by
  unfold handleDatagram
  rw [hp]
  show (if _ then _ else _ : HandlerM Unit) h = _
  rw [if_pos hlt]
  rfl

/-- A packet without messages. -/
def emptyPacket (seqNum : UInt32) : Bytes :=
  PacketHeader.layout.store (makePacketHeader seqNum 0 0)

end Bmdfh.Handler
