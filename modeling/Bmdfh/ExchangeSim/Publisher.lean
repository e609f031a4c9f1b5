import Bmdfh.ExchangeSim.Generator
import Bmdfh.Protocol.Packet
import Bmdfh.Recovery.History

/-!
# The publisher

The publisher loop of `exchange_sim/main.cpp`. A turn of the loop is two steps, as others see it:
the packet is stored in the history (`storePacket`), then it is multicast or skipped
(`sendPacket`). Left out: logging, sleeping and the command line beyond the checks on
`--messages-per-packet`, which are fields of `Options`.
-/

namespace Bmdfh

open Packed Protocol

def kPacketBufferSize : Nat := 1024

def kMaxMessagesPerPacket : Nat :=
  (kPacketBufferSize - PacketHeader.layout.size) / kFixedMessageSize

structure Options where
  messages : Nat := 20
  messagesPerPacket : Nat := 4
  skipEvery : Nat := 0
  messagesPerPacket_ne_zero : messagesPerPacket ≠ 0 := by decide
  messagesPerPacket_le : messagesPerPacket ≤ kMaxMessagesPerPacket := by decide

/-! ## Serializing into the buffer -/

/-- `sizeof(WireMessage)` of the message's alternative. -/
def Protocol.Message.wireSize : Message → Nat
  | .addOrder _ => AddOrderMsg.layout.size
  | .modifyOrder _ => ModifyOrderMsg.layout.size
  | .deleteOrder _ => DeleteOrderMsg.layout.size
  | .trade _ => TradeMsg.layout.size

/-- The loop of `serialize_packet_to_buffer`: a struct at `cursor`, one after the other. -/
def writeMessages (buffer : Bytes) (cursor : Nat) : List Message → Bytes
  | [] => buffer
  | message :: rest =>
    writeMessages (writeAt buffer cursor message.wireBytes) (cursor + message.wireSize) rest

/-- The packet size, and the buffer with the packet written to it. -/
def serializePacketToBuffer (seqNum : UInt32) (publishTsc : UInt64) (messages : List Message)
    (buffer : Bytes) (bufferSize : Nat) : Except RuntimeError (Nat × Bytes) :=
  if messages.length > UInt16.size - 1 then throw "too many messages in one packet"
  else
    let msgCount := UInt16.ofNat messages.length
    let packetSize := packetSizeBytes msgCount
    if packetSize > bufferSize then throw "packet would overflow the fixed publisher buffer"
    else
      let header := makePacketHeader seqNum msgCount publishTsc
      let buffer := writeAt buffer 0 (PacketHeader.layout.store header)
      pure (packetSize, writeMessages buffer PacketHeader.layout.size messages)

/-! ## Serializing into memory

The same function with the buffer as its state: what is written stays when it throws. -/

abbrev BufferM := EStateM RuntimeError Bytes

/-- A struct assigned through the pointer `cursor`. -/
def assignAt (cursor : Nat) (bytes : Bytes) : BufferM Unit :=
  modify fun buffer => writeAt buffer cursor bytes

def assignMessages (cursor : Nat) : List Message → BufferM Unit
  | [] => pure ()
  | message :: rest => do
    assignAt cursor message.wireBytes
    assignMessages (cursor + message.wireSize) rest

def serializePacketInto (seqNum : UInt32) (publishTsc : UInt64) (messages : List Message)
    (bufferSize : Nat) : BufferM Nat := do
  if messages.length > UInt16.size - 1 then throw "too many messages in one packet"
  let msgCount := UInt16.ofNat messages.length
  let packetSize := packetSizeBytes msgCount
  if packetSize > bufferSize then throw "packet would overflow the fixed publisher buffer"
  assignAt 0 (PacketHeader.layout.store (makePacketHeader seqNum msgCount publishTsc))
  assignMessages PacketHeader.layout.size messages
  return packetSize

/-! ## The loop -/

structure Publisher where
  generator : MarketDataGenerator := {}
  packetHistory : PacketHistory := ∅
  emittedMessages : Nat := 0
  sentPackets : Nat := 0
  droppedPackets : Nat := 0
  sentMessages : Nat := 0
  droppedMessages : Nat := 0
  packetSequence : UInt32 := 1
  /-- The batch and the packet of the turn, once stored. -/
  packet : Option (List Message × Bytes) := none
  /-- The batches stored so far. Not in the source. -/
  published : List (List Message) := []

namespace Publisher

def batchSize (options : Options) (p : Publisher) : Nat :=
  min options.messagesPerPacket (options.messages - p.emittedMessages)

/-- The first half of a turn, up to `packet_history.store`. -/
def storePacket (options : Options) (draws : List Draws) (publishTsc : UInt64) (p : Publisher) :
    Option Publisher :=
  if p.packet.isSome || options.messages ≤ p.emittedMessages
      || draws.length ≠ p.batchSize options then none
  else do
    let (batch, generator) ← p.generator.emit draws
    let packetBuffer := List.replicate kPacketBufferSize 0
    let (packetSize, packetBuffer) ←
      (serializePacketToBuffer p.packetSequence publishTsc batch packetBuffer
        packetBuffer.length).toOption
    let bytes := packetBuffer.take packetSize
    some { p with
      generator
      packetHistory := p.packetHistory.store p.packetSequence bytes
      packet := some (batch, bytes)
      published := p.published ++ [batch] }

/-- The second half of a turn, with the datagram it multicasts. -/
def sendPacket (options : Options) (p : Publisher) : Option (Publisher × Option Bytes) :=
  match p.packet with
  | none => none
  | some (batch, bytes) =>
    let shouldSkip := options.skipEvery ≠ 0 ∧ p.packetSequence.toNat % options.skipEvery = 0
    let p := { p with
      emittedMessages := p.emittedMessages + batch.length
      packetSequence := p.packetSequence + 1
      packet := none }
    if shouldSkip then
      some ({ p with
        droppedPackets := p.droppedPackets + 1
        droppedMessages := p.droppedMessages + batch.length }, none)
    else
      some ({ p with
        sentPackets := p.sentPackets + 1
        sentMessages := p.sentMessages + batch.length }, some bytes)

/-- A turn of the loop, on the engine's draws from the messages emitted so far on, and the clock
at the packet. `none`: an exception. -/
def turn (options : Options) (engine : Nat → Draws) (readTsc : UInt32 → UInt64) (p : Publisher) :
    Option (Publisher × Option Bytes) := do
  let draws := (List.range (p.batchSize options)).map fun index =>
    engine (p.emittedMessages + index)
  let p ← p.storePacket options draws (readTsc p.packetSequence)
  p.sendPacket options

/-- The loop, with the datagrams multicast so far. `none`: an exception, or no more fuel. -/
def loop (options : Options) (engine : Nat → Draws) (readTsc : UInt32 → UInt64) :
    Nat → Publisher → List Bytes → Option (Publisher × List Bytes)
  | 0, _, _ => none
  | fuel + 1, p, multicast =>
    if p.emittedMessages < options.messages then do
      let (p, datagram) ← p.turn options engine readTsc
      loop options engine readTsc fuel p (multicast ++ datagram.toList)
    else some (p, multicast)

end Publisher

end Bmdfh
