import Bmdfh.ExchangeSim.Publisher
import Bmdfh.FeedHandler.Handler
import Mathlib.Logic.Relation

/-!
# The whole system

A publisher, a network that loses, duplicates, delays and reorders datagrams, and a feed handler
started with `--messages 0`. A handler takes two steps for a datagram: it takes it off the socket,
and it handles it. The publisher and the network may act in between; a replay request is answered
from the history as it stands when it is made.
-/

namespace Bmdfh

open Protocol

/-- Where the feed handler is. -/
inductive Phase
  /-- At the head of the receive loop. -/
  | head
  | handling (received : Bytes)
  | thrown (error : RuntimeError)
deriving DecidableEq

structure System where
  publisher : Publisher := {}
  /-- The datagrams in flight. -/
  network : List Bytes := []
  handler : Handler := {}
  phase : Phase := .head
  /-- The datagrams the handler has taken off the socket. Not in the source. -/
  delivered : List Bytes := []

namespace System

/-- Requests are answered from the history as it is now. -/
def recovery (s : System) : Recovery := fun startSeq endSeq =>
  .ok (s.publisher.packetHistory.lookupRange startSeq endSeq)

inductive Step (options : Options) : System → System → Prop
  | store {s : System} {draws : List Draws} {publishTsc : UInt64} {publisher : Publisher}
      (stored : s.publisher.storePacket options draws publishTsc = some publisher) :
      Step options s { s with publisher }
  | send {s : System} {publisher : Publisher} {datagram : Option Bytes}
      (sent : s.publisher.sendPacket options = some (publisher, datagram)) :
      Step options s { s with publisher, network := s.network ++ datagram.toList }
  | lose {s : System} {datagram : Bytes} {network : List Bytes}
      (lost : s.network.Perm (datagram :: network)) : Step options s { s with network }
  | duplicate {s : System} {datagram : Bytes} (mem : datagram ∈ s.network) :
      Step options s { s with network := datagram :: s.network }
  | receive {s : System} {datagram : Bytes} {network : List Bytes}
      (idle : s.phase = .head) (arrives : s.network.Perm (datagram :: network)) :
      Step options s { s with
        network
        phase := .handling (datagram.take Handler.kReceiveBufferSize)
        delivered := s.delivered ++ [datagram] }
  | handle {s : System} {received : Bytes} {handler : Handler}
      (busy : s.phase = .handling received)
      (returns : Handler.handleDatagram 0 s.recovery received s.handler = .ok () handler) :
      Step options s { s with handler, phase := .head }
  | throw {s : System} {received : Bytes} {handler : Handler} {error : RuntimeError}
      (busy : s.phase = .handling received)
      (throws : Handler.handleDatagram 0 s.recovery received s.handler = .error error handler) :
      Step options s { s with handler, phase := .thrown error }

abbrev Reachable (options : Options) (s : System) : Prop :=
  Relation.ReflTransGen (Step options) {} s

/-- The sequence number of a datagram. -/
def seqNumOf (datagram : Bytes) : Option Nat :=
  (parsePacket datagram).map fun packet => (decodeSeqNum packet.header).toNat

/-- The largest sequence number delivered, 0 if none. -/
def largestDelivered (s : System) : Nat := (s.delivered.filterMap seqNumOf).foldl max 0

end System

end Bmdfh
