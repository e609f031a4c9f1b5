import Bmdfh.Lib.Stream
import Bmdfh.Protocol.Packet

/-!
# The two ends of the recovery connection

`RecoveryServer::handle_client` and `RecoveryClient::request_packets` of `recovery.cpp`, as programs
over a stream. `send_all` and `recv_exact_or_eof` are `sendAll` and `recvExactOrEof`, their turns
`sendTurn` and `recvTurn` with the errors `socketFaults`. The server queries the packet history, the
client its socket. The accept loop and `stop_` are in `Recovery.Thread`.
-/

namespace Bmdfh

open Packed Protocol Stream Prog

def kMaxRecoveryPacketSize : Nat := 4096

structure RecoveryRequestWire where
  startSeq : UInt32
  endSeq : UInt32
deriving DecidableEq

structure RecoveryResponseWire where
  packetCount : UInt32
deriving DecidableEq

structure RecoveryPacketFrameWire where
  packetSize : UInt16
deriving DecidableEq

def RecoveryRequestWire.layout : Layout RecoveryRequestWire :=
  (Layout.u32.seq Layout.u32).iso
    ⟨fun (s, e) => ⟨s, e⟩, fun r => (r.startSeq, r.endSeq), fun _ => rfl, fun _ => rfl⟩

def RecoveryResponseWire.layout : Layout RecoveryResponseWire :=
  Layout.u32.iso ⟨fun c => ⟨c⟩, fun r => r.packetCount, fun _ => rfl, fun _ => rfl⟩

def RecoveryPacketFrameWire.layout : Layout RecoveryPacketFrameWire :=
  Layout.u16.iso ⟨fun s => ⟨s⟩, fun f => f.packetSize, fun _ => rfl, fun _ => rfl⟩

-- the `static_assert`s on the sizes
@[simp] theorem size_recoveryRequestWire : RecoveryRequestWire.layout.size = 8 := rfl
@[simp] theorem size_recoveryResponseWire : RecoveryResponseWire.layout.size = 4 := rfl
@[simp] theorem size_recoveryPacketFrameWire : RecoveryPacketFrameWire.layout.size = 2 := rfl

/-- `error` is the text of `errno`. -/
def socketError (action error : String) : RuntimeError := action ++ ": " ++ error

/-- What `send_all` and `recv_exact_or_eof` throw. -/
def socketFaults : Faults RuntimeError where
  sendFailed := socketError "send"
  sentNothing := "send returned zero bytes"
  recvFailed := socketError "recv"
  cutOff := "unexpected EOF on recovery socket"

/-! ## The server -/

namespace RecoveryServer

/-- Its query is a range to look up. -/
abbrev ServerM := Prog UInt8 RuntimeError fun _ : UInt32 × UInt32 => List Bytes

/-- The loop over the packets. -/
def sendPackets : List Bytes → ServerM Unit
  | [] => pure ()
  | packet :: rest =>
    if packet.length = 0 ∨ packet.length > UInt16.size - 1 then
      throw "recovery packet size is out of bounds"
    else do
      let packetSize := htons (UInt16.ofNat packet.length)
      sendAll (RecoveryPacketFrameWire.layout.store { packetSize })
      sendAll packet
      sendPackets rest

/-- From the lookup to the end of the turn. -/
def respond (packets : List Bytes) : ServerM Bool := do
  let packetCount := UInt32.ofNat packets.length
  sendAll (RecoveryResponseWire.layout.store { packetCount := htonl packetCount })
  sendPackets packets
  return true

/-- A turn of the loop of `handle_client`, and whether there is another. -/
def handleRequest : ServerM Bool := do
  let some bytes ← recvExactOrEof RecoveryRequestWire.layout.size | return false
  let requestWire := RecoveryRequestWire.layout.load bytes
  let startSeq := ntohl requestWire.startSeq
  let endSeq := ntohl requestWire.endSeq
  let packets ← ask (startSeq, endSeq)
  respond packets

/-- The loop of `handle_client`. -/
def handleClient : ServerM Bool → ServerM Bool
  | .ret true => handleRequest
  | server => server

end RecoveryServer

/-! ## The client -/

namespace RecoveryClient

/-- What the client does with `socket_fd_`, reading and writing apart. -/
inductive Query
  /-- `socket_fd_ >= 0`. -/
  | isOpen
  | socket
  | inetPton
  | connect
  | close

@[reducible] def Query.Answer : Query → Type
  | .isOpen => Bool
  | .socket => Except String Unit
  | .inetPton => Bool
  | .connect => Except String Unit
  | .close => Unit

abbrev ClientM := Prog UInt8 RuntimeError Query.Answer

def onSocket (query : Query) : ClientM query.Answer := ask query

def closeConnection : ClientM Unit := onSocket .close

def ensureConnected (host : String) : ClientM Unit := do
  match ← onSocket .isOpen with
  | true => return ()
  | false =>
    match ← onSocket .socket with
    | .error error => throw (socketError "socket" error)
    | .ok () =>
      match ← onSocket .inetPton with
      | false =>
        closeConnection
        throw ("invalid recovery host: " ++ host)
      | true =>
        match ← onSocket .connect with
        | .error error =>
          closeConnection
          throw (socketError "connect" error)
        | .ok () => return ()

/-- The loop over the packets, `n` of them to come. -/
def receivePackets : Nat → List Bytes → ClientM (List Bytes)
  | 0, packets => return packets
  | n + 1, packets => do
    let some frame ← recvExactOrEof RecoveryPacketFrameWire.layout.size
      | closeConnection
        throw "recovery server closed during packet replay"
    let packetSize := ntohs (RecoveryPacketFrameWire.layout.load frame).packetSize
    if packetSize = 0 ∨ packetSize.toNat > kMaxRecoveryPacketSize then
      throw "recovery server returned an invalid packet size"
    else
      let some packet ← recvExactOrEof packetSize.toNat
        | closeConnection
          throw "recovery server closed during packet replay"
      receivePackets n (packets ++ [packet])

/-- From the request on. -/
def receiveResponse (startSeq endSeq : UInt32) : ClientM (List Bytes) := do
  let some response ← recvExactOrEof RecoveryResponseWire.layout.size
    | closeConnection
      throw "recovery server closed the connection"
  let packetCount := ntohl (RecoveryResponseWire.layout.load response).packetCount
  let expectedCount := (endSeq - startSeq).toNat + 1
  if packetCount.toNat > expectedCount then
    throw "recovery server returned more packets than requested"
  else receivePackets packetCount.toNat []

def requestPackets (host : String) (startSeq endSeq : UInt32) : ClientM (List Bytes) :=
  if startSeq > endSeq then return []
  else do
    ensureConnected host
    sendAll (RecoveryRequestWire.layout.store
      { startSeq := htonl startSeq, endSeq := htonl endSeq })
    receiveResponse startSeq endSeq

end RecoveryClient

end Bmdfh
