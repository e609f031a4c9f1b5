import Bmdfh.CommandLine.Programs
import Bmdfh.FeedHandler.Log

/-!
# The `main` of the feed handler

The functions of `Handler.lean` once more, with what they print and measure, and around them the
event loop and `main`. `tsc` gives the readings of the time-stamp counter, `waits` and `receives`
the results of the calls of `epoll_wait` and `recvfrom`; where they end the program waits for the
next one. The constructions before the loop are their outcome, `setup`, and the elapsed time and
the rates of the summary are a text, `timing`.
-/

namespace Bmdfh.FeedHandler

open Std OrdMap Protocol CommandLine Handler

structure Run where
  handler : Handler := {}
  packetLatencyCycles : CycleStats := {}
  bboUpdateLatencyCycles : CycleStats := {}
  /-- The calls of `read_tsc`. -/
  tscReads : Nat := 0
  log : List LogLine := []
deriving DecidableEq

abbrev RunM := EStateM RuntimeError Run

namespace Run

def readTsc (tsc : Nat → UInt64) : RunM UInt64 :=
  modifyGet fun r => (tsc r.tscReads, { r with tscReads := r.tscReads + 1 })

/-- A line to `std::cout`, when `verbose`. -/
def print (options : Options) (line : LogLine) : RunM Unit :=
  if options.benchmark then pure () else modify fun r => { r with log := r.log ++ [line] }

/-- A line to `std::cerr`. -/
def printError (line : LogLine) : RunM Unit :=
  modify fun r => { r with log := r.log ++ [line] }

/-- An assignment to the locals that `Handler` models. -/
def onHandler (f : Handler → Handler) : RunM Unit :=
  modify fun r => { r with handler := f r.handler }

def recordBboUpdate (publishTsc latencyCycles : UInt64) : RunM Unit :=
  if publishTsc ≠ 0 then
    modify fun r =>
      { r with bboUpdateLatencyCycles := r.bboUpdateLatencyCycles.record latencyCycles }
  else pure ()

def recordPacket (publishTsc latencyCycles : UInt64) : RunM Unit :=
  if publishTsc ≠ 0 then
    modify fun r => { r with packetLatencyCycles := r.packetLatencyCycles.record latencyCycles }
  else pure ()

/-- `if (apply_result.bbo_changed())`. -/
def reportBbo (options : Options) (tsc : Nat → UInt64) (publishTsc : UInt64)
    (applyResult : ApplyResult) : RunM Unit :=
  if applyResult.bboChanged then do
    let updateTsc ← readTsc tsc
    recordBboUpdate publishTsc (updateTsc - publishTsc)
    print options (.alert applyResult (updateTsc - publishTsc))
  else pure ()

/-- The body of the message loop, up to the test of the limit. -/
def applyMessage (options : Options) (tsc : Nat → UInt64) (packetBytes : Bytes)
    (packet : PacketView) (source : PacketSource) (index : Nat) (message : MessageView) :
    RunM Unit := do
  let applyResult := ((← get).handler.orderBook.apply message).1
  onHandler (·.applyMessage packetBytes message)
  reportBbo options tsc (decodePublishTsc packet.header) applyResult
  let book := (← get).handler.orderBook
  print options (.recv source (decodeSeqNum packet.header) index message book.bbo
    book.liveOrderCount)

/-- The message loop of `process_packet_bytes`, over the indices to come. -/
def applyMessages (options : Options) (tsc : Nat → UInt64) (packetBytes : Bytes)
    (packet : PacketView) (source : PacketSource) : List Nat → RunM Unit
  | [] => pure ()
  | index :: rest =>
    match messageAt packet index with
    | none => throw (malformedMessage packet source index)
    | some message => do
      applyMessage options tsc packetBytes packet source index message
      if (← get).handler.limitReached options.messages then pure ()
      else applyMessages options tsc packetBytes packet source rest

/-- The end of `process_packet_bytes`. -/
def finishPacket (tsc : Nat → UInt64) (packetBytes : Bytes) (packet : PacketView)
    (source : PacketSource) : RunM Unit := do
  let publishTsc := decodePublishTsc packet.header
  let appliedTsc ← readTsc tsc
  recordPacket publishTsc (appliedTsc - publishTsc)
  onHandler fun h =>
    { h.countPacket packetBytes source with
      expectedPacketSeq := decodeSeqNum packet.header + 1 }

def processPacketBytes (options : Options) (tsc : Nat → UInt64) (packetBytes : Bytes)
    (source : PacketSource) : RunM Unit :=
  match parsePacket packetBytes with
  | none => throw (source.text ++ " packet is malformed")
  | some packet => do
    let packetSeq := decodeSeqNum packet.header
    let msgCount := decodeMsgCount packet.header
    let expectedPacketSeq := (← get).handler.expectedPacketSeq
    if packetSeq ≠ expectedPacketSeq then
      throw (source.text ++ " packet sequence mismatch: expected seq="
        ++ toString expectedPacketSeq ++ " got seq=" ++ toString packetSeq)
    else do
      print options (.packet source packetSeq msgCount (decodePublishTsc packet.header))
      applyMessages options tsc packetBytes packet source (List.range msgCount.toNat)
      finishPacket tsc packetBytes packet source

/-- The loop of `drain_buffered_packets`, for at most `fuel` turns. -/
def drainLoop (options : Options) (tsc : Nat → UInt64) : Nat → RunM Unit
  | 0 => pure ()
  | fuel + 1 => do
    let h := (← get).handler
    if h.limitReached options.messages then pure ()
    else
      match h.bufferedPackets[h.expectedPacketSeq]? with
      | none => pure ()
      | some packetBytes => do
        onHandler fun h =>
          { h with bufferedPackets := h.bufferedPackets.erase h.expectedPacketSeq }
        processPacketBytes options tsc packetBytes .drain
        drainLoop options tsc fuel

-- as many turns as in `Handler.drainBufferedPackets`
def drainBufferedPackets (options : Options) (tsc : Nat → UInt64) : RunM Unit := do
  drainLoop options tsc (← get).handler.bufferedPackets.size

/-- The loop of `request_replay` over the rest of the batch. -/
def processBatch (options : Options) (tsc : Nat → UInt64) : List Bytes → RunM Unit
  | [] => pure ()
  | replayPacket :: rest => do
    if (← get).handler.limitReached options.messages then pure ()
    else do
      processPacketBytes options tsc replayPacket .replay
      processBatch options tsc rest

def requestReplay (options : Options) (tsc : Nat → UInt64) (recovery : Recovery)
    (startSeq endSeq : UInt32) : RunM Unit := do
  if startSeq > endSeq || (← get).handler.limitReached options.messages then pure ()
  else do
    onHandler fun h => { h with replayRequests := h.replayRequests + 1 }
    print options (.requestingReplay startSeq endSeq)
    match recovery startSeq endSeq with
    | .error e => throw e
    | .ok replayBatch =>
      let expectedCount := (endSeq - startSeq).toNat + 1
      if replayBatch.length ≠ expectedCount then
        throw ("recovery server returned " ++ toString replayBatch.length ++ " packets for gap ["
          ++ toString startSeq ++ ", " ++ toString endSeq ++ "]")
      else do
        processBatch options tsc replayBatch
        drainBufferedPackets options tsc

/-- What the receive loop does with the bytes of one datagram. -/
def handleDatagram (options : Options) (tsc : Nat → UInt64) (recovery : Recovery)
    (packetBytes : Bytes) : RunM Unit :=
  match parsePacket packetBytes with
  | none => printError (.discardedMalformed packetBytes.length)
  | some packet => do
    let packetSeq := decodeSeqNum packet.header
    let msgCount := decodeMsgCount packet.header
    let expectedPacketSeq := (← get).handler.expectedPacketSeq
    if packetSeq < expectedPacketSeq then
      printError (.discardedStale packetSeq expectedPacketSeq)
    else if packetSeq > expectedPacketSeq then do
      onHandler (park · packetSeq packetBytes)
      print options (.buffered packetSeq msgCount)
      match first? (← get).handler.bufferedPackets with
      | none => pure ()  -- the map is not empty here
      | some first => requestReplay options tsc recovery expectedPacketSeq (first.1 - 1)
    else do
      processPacketBytes options tsc packetBytes .live
      drainBufferedPackets options tsc

end Run

/-! ## The event loop -/

/-- What a call of `epoll_wait` returns: the `events` of each descriptor that is ready, or -1. -/
inductive Wait
  | ready (events : List UInt32)
  | interrupted
  | failed
deriving DecidableEq

/-- What a call of `recvfrom` returns. -/
inductive Receive
  | datagram (arrival : Arrival)
  | again
  | failed (error : RuntimeError)

def kEpollIn : UInt32 := 0x001
def kEpollErr : UInt32 := 0x008
def kEpollHup : UInt32 := 0x010

/-- `EpollInstance::wait`: the events, and the results of the calls to come. -/
def EpollInstance.wait : List Wait → Except RuntimeError (Option (List UInt32 × List Wait))
  | [] => .ok none
  | .ready events :: waits => .ok (some (events, waits))
  | .interrupted :: waits => EpollInstance.wait waits
  | .failed :: _ => .error "epoll_wait failed"

namespace Run

/-- The loop around `try_receive`. It returns the results of `recvfrom` to come, or nothing when
it waits for one. -/
def receiveAll (options : Options) (tsc : Nat → UInt64) :
    List Receive → RunM (Option (List Receive))
  | [] => do
    if (← get).handler.limitReached options.messages then return some [] else return none
  | receive :: receives => do
    if (← get).handler.limitReached options.messages then return some (receive :: receives)
    else
      match receive with
      | .again => return some receives
      | .failed error => throw ("recvfrom: " ++ error)
      | .datagram arrival => do
        handleDatagram options tsc arrival.recovery (arrival.datagram.take kReceiveBufferSize)
        receiveAll options tsc receives

/-- The loop over the events of a wait. -/
def handleEvents (options : Options) (tsc : Nat → UInt64) :
    List UInt32 → List Receive → RunM (Option (List Receive))
  | [], receives => return some receives
  | events :: rest, receives => do
    if (← get).handler.limitReached options.messages then return some receives
    else if events &&& (kEpollErr ||| kEpollHup) ≠ 0 then
      throw "epoll reported a socket error"
    else if events &&& kEpollIn = 0 then handleEvents options tsc rest receives
    else
      match ← receiveAll options tsc receives with
      | none => return none
      | some receives =>
        if (← get).handler.limitReached options.messages then return some receives
        else handleEvents options tsc rest receives

/-- The outer loop, for at most `fuel` turns: whether it is over. -/
def eventLoop (options : Options) (tsc : Nat → UInt64) :
    Nat → List Wait → List Receive → RunM Bool
  | 0, _, _ => return false
  | fuel + 1, waits, receives => do
    if (← get).handler.limitReached options.messages then return true
    else
      match EpollInstance.wait waits with
      | .error error => throw error
      | .ok none => return false
      | .ok (some (events, waits)) =>
        match ← handleEvents options tsc events receives with
        | none => return false
        | some receives => eventLoop options tsc fuel waits receives

-- every turn but the last takes a result of `epoll_wait`
def receiveEvents (options : Options) (tsc : Nat → UInt64) (waits : List Wait)
    (receives : List Receive) : RunM Bool :=
  eventLoop options tsc (waits.length + 1) waits receives

end Run

/-! ## The program -/

/-- The lines printed while the loop ran. -/
def Run.lines (r : Run) (isError : Bool) : List String :=
  (r.log.filter (·.isError = isError)).map LogLine.text

end Bmdfh.FeedHandler
