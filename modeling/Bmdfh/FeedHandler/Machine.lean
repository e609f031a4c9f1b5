import Bmdfh.FeedHandler.Handler
import Mathlib.Logic.Relation

/-!
# The feed handler, step by step

The program of `Handler.lean` as a machine, one turn of one of its loops at a time, so that the
states in the middle of a packet, of a replay batch and of a drain are states as well. A throw
has no next state.
-/

namespace Bmdfh.Handler

open Std OrdMap Protocol

/-- Where the handler is between two packets. -/
inductive Task
  /-- At the head of the receive loop. -/
  | receive
  /-- At the head of the replay loop, with the rest of the batch. -/
  | batch (rest : List Bytes)
  /-- At the head of the drain loop. -/
  | drain
deriving DecidableEq

/-- Where the handler is. -/
inductive Point
  | between (task : Task)
  /-- At the head of the message loop of a packet, with what comes after the packet. -/
  | message (packetBytes : Bytes) (packet : PacketView) (source : PacketSource) (index : Nat)
      (next : Task)
  /-- Behind the message loop. -/
  | finish (packetBytes : Bytes) (packet : PacketView) (source : PacketSource) (next : Task)

/-- The packet whose messages are being applied. -/
def Point.inHand : Point → List Bytes
  | .between _ => []
  | .message packetBytes _ _ _ _ => [packetBytes]
  | .finish packetBytes _ _ _ => [packetBytes]

/-- The start of `process_packet_bytes`. -/
def enter (packetBytes : Bytes) (source : PacketSource) (next : Task) (h : Handler) :
    Option (Point × Handler) :=
  match parsePacket packetBytes with
  | none => none
  | some packet =>
    if decodeSeqNum packet.header ≠ h.expectedPacketSeq then none
    else some (.message packetBytes packet source 0 next, h)

/-- The start of `request_replay`. -/
def enterReplay (messages : Nat) (recovery : Recovery) (startSeq endSeq : UInt32) (h : Handler) :
    Option (Point × Handler) :=
  if startSeq > endSeq || h.limitReached messages then some (.between .receive, h)
  else
    let h := { h with replayRequests := h.replayRequests + 1 }
    match recovery startSeq endSeq with
    | .error _ => none
    | .ok replayBatch =>
      if replayBatch.length ≠ (endSeq - startSeq).toNat + 1 then none
      else some (.between (.batch replayBatch), h)

/-- A datagram taken off the socket. -/
def receiveTurn (messages : Nat) (arrival : Arrival) (h : Handler) : Option (Point × Handler) :=
  if h.limitReached messages then none
  else
    let packetBytes := arrival.datagram.take kReceiveBufferSize
    match parsePacket packetBytes with
    | none => some (.between .receive, h)
    | some packet =>
      let packetSeq := decodeSeqNum packet.header
      if packetSeq < h.expectedPacketSeq then some (.between .receive, h)
      else if packetSeq > h.expectedPacketSeq then
        let h := h.park packetSeq packetBytes
        match first? h.bufferedPackets with
        | none => some (.between .receive, h)
        | some first =>
          enterReplay messages arrival.recovery h.expectedPacketSeq (first.1 - 1) h
      else enter packetBytes .live .drain h

/-- A turn of a loop other than the receive loop. -/
def turn (messages : Nat) : Point → Handler → Option (Point × Handler)
  | .between .receive, _ => none
  | .between (.batch []), h => some (.between .drain, h)
  | .between (.batch (replayPacket :: rest)), h =>
    if h.limitReached messages then some (.between .drain, h)
    else enter replayPacket .replay (.batch rest) h
  | .between .drain, h =>
    if h.limitReached messages then some (.between .receive, h)
    else
      match h.bufferedPackets[h.expectedPacketSeq]? with
      | none => some (.between .receive, h)
      | some packetBytes =>
        enter packetBytes .drain .drain
          { h with bufferedPackets := h.bufferedPackets.erase h.expectedPacketSeq }
  | .message packetBytes packet source index next, h =>
    if index < (decodeMsgCount packet.header).toNat then
      match messageAt packet index with
      | none => none
      | some message =>
        let h := h.applyMessage packetBytes message
        if h.limitReached messages then some (.finish packetBytes packet source next, h)
        else some (.message packetBytes packet source (index + 1) next, h)
    else some (.finish packetBytes packet source next, h)
  | .finish packetBytes packet source next, h =>
    some (.between next,
      { h.countPacket packetBytes source with
        expectedPacketSeq := decodeSeqNum packet.header + 1 })

/-- A step: a turn, or a datagram with what the recovery server would answer. -/
inductive Step (messages : Nat) : Point × Handler → Point × Handler → Prop
  | turn {p h s} : turn messages p h = some s → Step messages (p, h) s
  | receive {h s} (arrival : Arrival) :
    receiveTurn messages arrival h = some s → Step messages (.between .receive, h) s

/-- The states the handler reaches from its start, at whatever point it is. -/
def Reaches (messages : Nat) : Point × Handler → Prop :=
  Relation.ReflTransGen (Step messages) (.between .receive, {})

end Bmdfh.Handler
