import Bmdfh.CommandLine.Programs
import Bmdfh.Protocol.Text
import Bmdfh.Recovery.Thread

/-!
# The `main` of the publisher

The loop of `Publisher.lean` once more, with what it prints and with the results of `sendto`, and
around it `main`. `engine` gives the draws for each message, `tsc` the reading of the time-stamp
counter for each packet and `sendTo` the result of each call of `sendto`. The construction of the
sender and of the recovery server is its outcome, `setup`, and the generator has no engine if
`random_device` throws. Sleeping is left out, and what the thread of the server prints. At the end
of the `try` block the server is destroyed, and `main` goes on when its thread is joined: `owner`
says whether it is.
-/

namespace Bmdfh.ExchangeSim

open Protocol CommandLine

/-! ## What is printed -/

inductive LogLine
  | dropped (seq : UInt32) (msgCount : Nat) (publishTsc : UInt64)
  | sent (seq : UInt32) (msgCount bytes : Nat) (publishTsc : UInt64)
  | message (skipped : Bool) (seq : UInt32) (index : Nat) (message : MessageView)
deriving DecidableEq

/-- The line, without the `'\n'` at its end. -/
def LogLine.text : LogLine → String
  | dropped seq msgCount publishTsc =>
    "dropped packet seq=" ++ toString seq ++ " msg_count=" ++ toString msgCount
      ++ " publish_tsc=" ++ toString publishTsc ++ " (intentional)"
  | sent seq msgCount bytes publishTsc =>
    "sent packet seq=" ++ toString seq ++ " msg_count=" ++ toString msgCount
      ++ " bytes=" ++ toString bytes ++ " publish_tsc=" ++ toString publishTsc
  | message skipped seq index m =>
    "  " ++ (if skipped then "drop " else "send ") ++ describe seq index m

/-- What a call of `sendto` returns. -/
inductive SendTo
  | sent (n : Nat)
  | failed (error : String)
deriving DecidableEq

/-- What `UdpMulticastSender::send` throws. -/
def SendTo.error? (payload : Bytes) : SendTo → Option RuntimeError
  | failed error => some ("sendto: " ++ error)
  | sent n => if n ≠ payload.length then some "partial UDP datagram send" else none

structure Run where
  publisher : Publisher := {}
  /-- The datagrams sent as a whole. Not in the source. -/
  multicast : List Bytes := []
  log : List LogLine := []

abbrev RunM := EStateM RuntimeError Run

namespace Run

/-- An assignment to what `Publisher` models. -/
def onPublisher (f : Publisher → Publisher) : RunM Unit :=
  modify fun r => { r with publisher := f r.publisher }

/-- A line to `std::cout`, unless `quiet`. -/
def print (options : Options) (line : LogLine) : RunM Unit :=
  if options.quiet then pure () else modify fun r => { r with log := r.log ++ [line] }

/-- The loop over the messages of a packet. -/
def printMessages (options : Options) (skipped : Bool) (seq : UInt32) :
    Nat → List Message → RunM Unit
  | _, [] => pure ()
  | index, message :: rest => do
    print options (.message skipped seq index message)
    printMessages options skipped seq (index + 1) rest

/-- `UdpMulticastSender::send`. -/
def send (sendTo : Nat → Bytes → SendTo) (bytes : Bytes) : RunM Unit := do
  match (sendTo (← get).publisher.sentPackets bytes).error? bytes with
  | some error => throw error
  | none => modify fun r => { r with multicast := r.multicast ++ [bytes] }

/-- A turn from `packet_history.store` on. -/
def sendPacket (options : Options) (sendTo : Nat → Bytes → SendTo) (batch : List Message)
    (publishTsc : UInt64) (packetSize : Nat) (bytes : Bytes) : RunM Unit := do
  let seq := (← get).publisher.packetSequence
  let shouldSkip : Bool := options.skipEvery ≠ 0 && seq.toNat % options.skipEvery = 0
  if shouldSkip then do
    onPublisher fun p => { p with
      droppedPackets := p.droppedPackets + 1
      droppedMessages := p.droppedMessages + batch.length }
    print options (.dropped seq batch.length publishTsc)
  else do
    send sendTo bytes
    onPublisher fun p => { p with
      sentPackets := p.sentPackets + 1
      sentMessages := p.sentMessages + batch.length }
    print options (.sent seq batch.length packetSize publishTsc)
  printMessages options shouldSkip seq 0 batch
  onPublisher fun p => { p with
    emittedMessages := p.emittedMessages + batch.length
    packetSequence := p.packetSequence + 1
    packet := none }

/-- A turn of the loop. -/
def turn (options : Options) (engine : Nat → Draws) (tsc : Nat → UInt64)
    (sendTo : Nat → Bytes → SendTo) : RunM Unit := do
  let p := (← get).publisher
  let draws := (List.range (p.batchSize options.toOptions)).map fun index =>
    engine (p.emittedMessages + index)
  match p.generator.emit draws with
  | none => pure ()  -- an index can always be picked
  | some (batch, generator) => do
    onPublisher ({ · with generator })
    let publishTsc := tsc p.published.length
    let packetBuffer := List.replicate kPacketBufferSize 0
    match serializePacketToBuffer p.packetSequence publishTsc batch packetBuffer
        packetBuffer.length with
    | .error error => throw error
    | .ok (packetSize, packetBuffer) => do
      let bytes := packetBuffer.take packetSize
      onPublisher fun p => { p with
        packetHistory := p.packetHistory.store p.packetSequence bytes
        packet := some (batch, bytes)
        published := p.published ++ [batch] }
      sendPacket options sendTo batch publishTsc packetSize bytes

/-- The loop, for at most `fuel` turns. -/
def loop (options : Options) (engine : Nat → Draws) (tsc : Nat → UInt64)
    (sendTo : Nat → Bytes → SendTo) : Nat → RunM Unit
  | 0 => pure ()
  | fuel + 1 => do
    if (← get).publisher.emittedMessages < options.messages then do
      turn options engine tsc sendTo
      loop options engine tsc sendTo fuel
    else pure ()

-- every turn emits a message
def publish (options : Options) (engine : Nat → Draws) (tsc : Nat → UInt64)
    (sendTo : Nat → Bytes → SendTo) : RunM Unit :=
  loop options engine tsc sendTo options.messages

def lines (r : Run) : List String := r.log.map LogLine.text

end Run

/-! ## The program -/

namespace Ending

end Ending

end Bmdfh.ExchangeSim
