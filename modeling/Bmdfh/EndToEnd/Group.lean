import Bmdfh.EndToEnd.System
import Mathlib.Logic.Function.Basic

/-!
# A group of feed handlers

The publisher with any number of feed handlers in its multicast group, each started with a
`--messages` of its own. A datagram that is multicast is on its way to each of them; each of these
networks loses, duplicates, delays and reorders for itself. The handlers share the history and the
recovery server. The server has one client at a time: it accepts a connection when it has none, and
keeps it until the handler at the other end is gone. A handler connects with its first request.

The exchange keeps running: the server is not stopped, and neither `sendto` nor a recovery
connection fails.
-/

namespace Bmdfh

open OrdMap Protocol

/-- The range that `request_replay` requests while the datagram is handled. -/
def Handler.replayRange (messages : Nat) (packetBytes : Bytes) (h : Handler) :
    Option (UInt32 × UInt32) :=
  match parsePacket packetBytes with
  | none => none
  | some packet =>
    let packetSeq := decodeSeqNum packet.header
    if packetSeq < h.expectedPacketSeq then none
    else if packetSeq > h.expectedPacketSeq then
      match first? (h.park packetSeq packetBytes).bufferedPackets with
      | none => none
      | some first =>
        let gapEnd := first.1 - 1
        if h.expectedPacketSeq > gapEnd || h.limitReached messages then none
        else some (h.expectedPacketSeq, gapEnd)
    else none

/-- A feed handler, with the datagrams on their way to it. -/
structure Member where
  network : List Bytes := []
  handler : Handler := {}
  phase : Phase := .head
  /-- The datagrams the handler has taken off the socket. Not in the source. -/
  delivered : List Bytes := []

namespace Member

/-- The handler requests packets while it handles what it has received. -/
def Requests (messages : Nat) (m : Member) : Prop :=
  ∃ received, m.phase = .handling received ∧
    (m.handler.replayRange messages received).isSome = true

/-- The program has ended: its socket is closed. -/
def Ended (messages : Nat) (m : Member) : Prop :=
  (∃ error, m.phase = .thrown error) ∨ (m.phase = .head ∧ m.handler.limitReached messages = true)

/-- A step of a handler started with `--messages messages`, or of its network. The server answers
the handler if it is `served`. -/
inductive Step (messages : Nat) (recovery : Recovery) (served : Prop) : Member → Member → Prop
  | lose {m : Member} {datagram : Bytes} {network : List Bytes}
      (lost : m.network.Perm (datagram :: network)) :
      Step messages recovery served m { m with network }
  | duplicate {m : Member} {datagram : Bytes} (mem : datagram ∈ m.network) :
      Step messages recovery served m { m with network := datagram :: m.network }
  | receive {m : Member} {datagram : Bytes} {network : List Bytes}
      (idle : m.phase = .head) (goesOn : m.handler.limitReached messages = false)
      (arrives : m.network.Perm (datagram :: network)) :
      Step messages recovery served m { m with
        network
        phase := .handling (datagram.take Handler.kReceiveBufferSize)
        delivered := m.delivered ++ [datagram] }
  | handle {m : Member} {received : Bytes} {handler : Handler}
      (busy : m.phase = .handling received) (answered : m.Requests messages → served)
      (returns : Handler.handleDatagram messages recovery received m.handler = .ok () handler) :
      Step messages recovery served m { m with handler, phase := .head }
  | throw {m : Member} {received : Bytes} {handler : Handler} {error : RuntimeError}
      (busy : m.phase = .handling received) (answered : m.Requests messages → served)
      (throws : Handler.handleDatagram messages recovery received m.handler
        = .error error handler) :
      Step messages recovery served m { m with handler, phase := .thrown error }

/-- The largest sequence number delivered, 0 if none. -/
def largestDelivered (m : Member) : Nat :=
  (m.delivered.filterMap System.seqNumOf).foldl max 0

/-- A datagram is on its way to the member. -/
def hear (m : Member) (datagram : Option Bytes) : Member :=
  { m with network := m.network ++ datagram.toList }

end Member

structure Group (ι : Type) where
  publisher : Publisher := {}
  member : ι → Member := fun _ => {}
  /-- The handler whose connection the server has accepted. -/
  serving : Option ι := none

namespace Group

variable {ι : Type} [DecidableEq ι]

/-- Requests are answered from the history as it is now. -/
def recovery (s : Group ι) : Recovery := fun startSeq endSeq =>
  .ok (s.publisher.packetHistory.lookupRange startSeq endSeq)

inductive Step (options : Options) (messages : ι → Nat) : Group ι → Group ι → Prop
  | store {s : Group ι} {draws : List Draws} {publishTsc : UInt64} {publisher : Publisher}
      (stored : s.publisher.storePacket options draws publishTsc = some publisher) :
      Step options messages s { s with publisher }
  | send {s : Group ι} {publisher : Publisher} {datagram : Option Bytes}
      (sent : s.publisher.sendPacket options = some (publisher, datagram)) :
      Step options messages s { s with
        publisher
        member := fun i => (s.member i).hear datagram }
  | accept {s : Group ι} {i : ι} (free : s.serving = none)
      (requests : (s.member i).Requests (messages i)) :
      Step options messages s { s with serving := some i }
  | leave {s : Group ι} {i : ι} (serves : s.serving = some i)
      (ended : (s.member i).Ended (messages i)) : Step options messages s { s with serving := none }
  | member {s : Group ι} {m : Member} (i : ι)
      (step : Member.Step (messages i) s.recovery (s.serving = some i) (s.member i) m) :
      Step options messages s { s with member := Function.update s.member i m }

abbrev Reachable (options : Options) (messages : ι → Nat) (s : Group ι) : Prop :=
  Relation.ReflTransGen (Step options messages) {} s

/-- The messages published so far, in order. -/
def stream (s : Group ι) : List Message := s.publisher.published.flatten

/-- What the `i`-th handler and the publisher are, the others left out. -/
def project (s : Group ι) (i : ι) : System where
  publisher := s.publisher
  network := (s.member i).network
  handler := (s.member i).handler
  phase := (s.member i).phase
  delivered := (s.member i).delivered

end Group

end Bmdfh
