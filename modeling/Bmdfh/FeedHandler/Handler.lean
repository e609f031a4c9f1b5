import Bmdfh.OrderBook.Book

/-!
# The feed handler

`feed_handler/main.cpp`. The locals of `main` that the lambdas share are a state, and a lambda is a
computation on it that may throw; what was assigned before a throw stays assigned. `messages` is
the `--messages` option. Counters of type `std::size_t` are natural numbers. Left out: logging,
latencies, and epoll, whose only effect here is to wait for the next datagram.

The fields `applied` and `processed` are not in the source. They list what `received_messages` and
`processed_packets` count.
-/

namespace Bmdfh

open Std OrdMap Protocol

inductive PacketSource
  | live
  | replay
  | drain
deriving DecidableEq

def PacketSource.text : PacketSource → String
  | live => "live"
  | replay => "replay"
  | drain => "drain"

structure Handler where
  orderBook : OrderBook := {}
  bufferedPackets : ExtTreeMap UInt32 Bytes := ∅
  processedPackets : Nat := 0
  livePackets : Nat := 0
  replayPackets : Nat := 0
  drainPackets : Nat := 0
  replayRequests : Nat := 0
  outOfOrderPackets : Nat := 0
  receivedMessages : Nat := 0
  expectedPacketSeq : UInt32 := 1
  /-- The messages applied to the book, each with the packet it came in. -/
  applied : List (Bytes × Message) := []
  /-- The packets processed. -/
  processed : List (PacketSource × Bytes) := []
deriving DecidableEq

abbrev HandlerM := EStateM RuntimeError Handler

/-- What `recovery_client.request_packets` answers to a request. -/
abbrev Recovery := UInt32 → UInt32 → Except RuntimeError (List Bytes)

namespace Handler

def limitReached (messages : Nat) (h : Handler) : Bool :=
  messages ≠ 0 && messages ≤ h.receivedMessages

/-- `order_book.apply(*message)` and `++received_messages`. -/
def applyMessage (h : Handler) (packetBytes : Bytes) (message : Message) : Handler :=
  { h with
    orderBook := (h.orderBook.apply message).2
    receivedMessages := h.receivedMessages + 1
    applied := h.applied ++ [(packetBytes, message)] }

/-- `++processed_packets` and the counter of the source. -/
def countPacket (h : Handler) (packetBytes : Bytes) (source : PacketSource) : Handler :=
  let h := { h with
    processedPackets := h.processedPackets + 1
    processed := h.processed ++ [(source, packetBytes)] }
  match source with
  | .live => { h with livePackets := h.livePackets + 1 }
  | .replay => { h with replayPackets := h.replayPackets + 1 }
  | .drain => { h with drainPackets := h.drainPackets + 1 }

def malformedMessage (packet : PacketView) (source : PacketSource) (index : Nat) : RuntimeError :=
  "malformed message from " ++ source.text ++ " packet seq="
    ++ toString (decodeSeqNum packet.header) ++ " at index=" ++ toString index

/-- The message loop of `process_packet_bytes`, over the indices to come. -/
def applyMessages (messages : Nat) (packetBytes : Bytes) (packet : PacketView)
    (source : PacketSource) : List Nat → HandlerM Unit
  | [] => pure ()
  | index :: rest =>
    match messageAt packet index with
    | none => throw (malformedMessage packet source index)
    | some message => do
      modify (applyMessage · packetBytes message)
      if (← get).limitReached messages then pure ()
      else applyMessages messages packetBytes packet source rest

def processPacketBytes (messages : Nat) (packetBytes : Bytes) (source : PacketSource) :
    HandlerM Unit :=
  match parsePacket packetBytes with
  | none => throw (source.text ++ " packet is malformed")
  | some packet => do
    let packetSeq := decodeSeqNum packet.header
    let msgCount := decodeMsgCount packet.header
    let expectedPacketSeq := (← get).expectedPacketSeq
    if packetSeq ≠ expectedPacketSeq then
      throw (source.text ++ " packet sequence mismatch: expected seq="
        ++ toString expectedPacketSeq ++ " got seq=" ++ toString packetSeq)
    else do
      applyMessages messages packetBytes packet source (List.range msgCount.toNat)
      modify fun h => { h.countPacket packetBytes source with expectedPacketSeq := packetSeq + 1 }

/-- The loop of `drain_buffered_packets`, for at most `fuel` turns. -/
def drainLoop (messages : Nat) : Nat → HandlerM Unit
  | 0 => pure ()
  | fuel + 1 => do
    let h ← get
    if h.limitReached messages then pure ()
    else
      match h.bufferedPackets[h.expectedPacketSeq]? with
      | none => pure ()
      | some packetBytes => do
        set { h with bufferedPackets := h.bufferedPackets.erase h.expectedPacketSeq }
        processPacketBytes messages packetBytes .drain
        drainLoop messages fuel

-- every turn takes a packet out of the map, so its size is enough
def drainBufferedPackets (messages : Nat) : HandlerM Unit := do
  drainLoop messages (← get).bufferedPackets.size

/-- The loop of `request_replay` over the rest of the batch. -/
def processBatch (messages : Nat) : List Bytes → HandlerM Unit
  | [] => pure ()
  | replayPacket :: rest => do
    if (← get).limitReached messages then pure ()
    else do
      processPacketBytes messages replayPacket .replay
      processBatch messages rest

def requestReplay (messages : Nat) (recovery : Recovery) (startSeq endSeq : UInt32) :
    HandlerM Unit := do
  if startSeq > endSeq || (← get).limitReached messages then pure ()
  else do
    modify fun h => { h with replayRequests := h.replayRequests + 1 }
    match recovery startSeq endSeq with
    | .error e => throw e
    | .ok replayBatch =>
      let expectedCount := (endSeq - startSeq).toNat + 1
      if replayBatch.length ≠ expectedCount then
        throw ("recovery server returned " ++ toString replayBatch.length ++ " packets for gap ["
          ++ toString startSeq ++ ", " ++ toString endSeq ++ "]")
      else do
        processBatch messages replayBatch
        drainBufferedPackets messages

/-- `buffered_packets[packet_seq] = packet_bytes`, counted as out of order. -/
def park (h : Handler) (packetSeq : UInt32) (packetBytes : Bytes) : Handler :=
  { h with
    outOfOrderPackets := h.outOfOrderPackets + 1
    bufferedPackets := h.bufferedPackets.insert packetSeq packetBytes }

/-- What the receive loop does with the bytes of one datagram. -/
def handleDatagram (messages : Nat) (recovery : Recovery) (packetBytes : Bytes) : HandlerM Unit :=
  match parsePacket packetBytes with
  | none => pure ()
  | some packet => do
    let packetSeq := decodeSeqNum packet.header
    let expectedPacketSeq := (← get).expectedPacketSeq
    if packetSeq < expectedPacketSeq then pure ()
    else if packetSeq > expectedPacketSeq then do
      modify (park · packetSeq packetBytes)
      match first? (← get).bufferedPackets with
      | none => pure ()  -- the map is not empty here
      | some first => requestReplay messages recovery expectedPacketSeq (first.1 - 1)
    else do
      processPacketBytes messages packetBytes .live
      drainBufferedPackets messages

/-- The size of the buffer that `try_receive` fills. -/
def kReceiveBufferSize : Nat := 4096

/-- A datagram on the socket, and what the recovery server would answer while it is handled. -/
structure Arrival where
  datagram : Bytes
  recovery : Recovery

/-- The receive loop, until the datagrams run out. -/
def receiveLoop (messages : Nat) : List Arrival → HandlerM Unit
  | [] => pure ()
  | arrival :: rest => do
    if (← get).limitReached messages then pure ()
    else do
      handleDatagram messages arrival.recovery (arrival.datagram.take kReceiveBufferSize)
      receiveLoop messages rest

end Handler

end Bmdfh
