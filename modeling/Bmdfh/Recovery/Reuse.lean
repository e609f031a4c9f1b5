import Bmdfh.Recovery.Session

/-!
# One client, call after call

The calls of `request_packets` on one client, whatever its surroundings do: `socket`, `inet_pton`
and `connect` answer as they like, a call of `send` or `recv` transfers any number of bytes, is
interrupted or fails, the server sends any bytes and may end the stream, and the memory for the
packets may run out. `place` reads the bytes of a connection as responses, one after the other. The
responses belong to the requests on that connection in their order, and a request is any eight bytes
that follow the one before: a call that fails within its request leaves the rest of it to the next
call.
-/

namespace Bmdfh

open Packed Protocol Stream Prog RecoveryClient

/-! ## A stream of responses -/

/-- A field of a response; `n` frames follow the one it belongs to. -/
inductive Field
  | count
  | head (n : Nat)
  | payload (n size : Nat)
deriving DecidableEq

def Field.size : Field → Nat
  | .count => RecoveryResponseWire.layout.size
  | .head _ => RecoveryPacketFrameWire.layout.size
  | .payload _ size => size

def announcedCount (response : Bytes) : Nat :=
  (ntohl (RecoveryResponseWire.layout.load response).packetCount).toNat

def announcedSize (frame : Bytes) : Nat :=
  (ntohs (RecoveryPacketFrameWire.layout.load frame).packetSize).toNat

/-- After so many responses, in a field of the next one of which `got` has come. -/
structure Place where
  responses : Nat := 0
  field : Field := .count
  got : Bytes := []
deriving DecidableEq

namespace Place

/-- Where `n` frames are to come. -/
def frames (responses : Nat) : Nat → Place
  | 0 => { responses := responses + 1 }
  | n + 1 => { responses, field := .head n }

/-- The place after a field that has come whole. -/
def pass (p : Place) : Place :=
  match p.field with
  | .count => frames p.responses (announcedCount p.got)
  | .head n =>
    if announcedSize p.got = 0 then frames p.responses n
    else { responses := p.responses, field := .payload n (announcedSize p.got) }
  | .payload n _ => frames p.responses n

def settle (p : Place) : Place := if p.got.length < p.field.size then p else p.pass

def add (p : Place) (chunk : Bytes) : Place := { p with got := p.got ++ chunk }

def read (p : Place) (byte : UInt8) : Place := settle (p.add [byte])

/-- The field, which has come whole, announces what the client takes. It does not take a packet of
size 0, but if that is the last one, the response is at its end. -/
def Accepted (expectedCount : Nat) (p : Place) : Prop :=
  match p.field with
  | .count => announcedCount p.got ≤ expectedCount
  | .head n => announcedSize p.got ≤ kMaxRecoveryPacketSize ∧ (announcedSize p.got = 0 → n = 0)
  | .payload _ _ => True

end Place

def place (taken : Bytes) : Place := taken.foldl Place.read {}

/-! ## The client -/

/-- The socket, and the stream it is connected to since it was opened. Only `socketOpen` is in the
source. -/
structure Connection where
  socketOpen : Bool := false
  /-- The number of bytes sent. -/
  sent : Nat := 0
  /-- The number of those that earlier calls sent. -/
  earlier : Nat := 0
  /-- The bytes received. -/
  taken : Bytes := []
  /-- `recv` has found the end of the stream. -/
  ended : Bool := false

/-- Where so many requests end. -/
def requestEnd (requests : Nat) : Nat := RecoveryRequestWire.layout.size * requests

/-- All bytes sent are of requests to which the responses have come, and nothing more has come. -/
def Connection.AtBoundary (connection : Connection) : Prop :=
  ∃ responses, place connection.taken = { responses } ∧ connection.sent = requestEnd responses

structure Client where
  connection : Connection := {}
  call : Option Call := none

namespace Client

/-- What the system calls on the socket return. -/
structure Results where
  socket : Except String Unit
  inetPton : Bool
  connect : Except String Unit

/-- A socket that is opened is connected to a stream of its own. -/
def socketAnswer (results : Results) (connection : Connection) :
    (query : Query) → query.Answer × Connection
  | .isOpen => (connection.socketOpen, connection)
  | .socket =>
    match results.socket with
    | .error error => (.error error, { connection with socketOpen := false })
    | .ok () => (.ok (), { socketOpen := true })
  | .inetPton => (results.inetPton, connection)
  | .connect => (results.connect, connection)
  | .close => ((), { connection with socketOpen := false })

inductive Event
  | request (startSeq endSeq : UInt32)
  | asked (results : Results)
  | sent (chunk : Bytes)
  | sentNothing
  | sendFailed (error : String)
  | received (chunk : Bytes)
  | eof
  | recvFailed (error : String)
  | exhausted
  | interrupted
  | returned
  | threw

inductive Step (host : String) : Client → Event → Client → Prop
  | request {s : Client} {startSeq endSeq : UInt32} (idle : s.call = none) :
      Step host s (.request startSeq endSeq) {
        connection := { s.connection with earlier := s.connection.sent }
        call := some ⟨startSeq, endSeq, requestPackets host startSeq endSeq⟩ }
  | asked {s : Client} {call : Call} {results : Results} {connection : Connection}
      {prog : ClientM (List Bytes)} (calls : s.call = some call)
      (asks : Asks (socketAnswer results) s.connection call.prog connection prog) :
      Step host s (.asked results) { connection, call := some { call with prog } }
  | sent {s : Client} {call : Call} {chunk : Bytes} {prog : ClientM (List Bytes)}
      (calls : s.call = some call) (sends : SendsChunk socketFaults call.prog chunk prog) :
      Step host s (.sent chunk) {
        connection := { s.connection with sent := s.connection.sent + chunk.length }
        call := some { call with prog } }
  | sentNothing {s : Client} {call : Call} {data : Bytes} {next : ClientM (List Bytes)}
      (calls : s.call = some call) (sends : call.prog = .sending data next) :
      Step host s .sentNothing { s with
        call := some { call with prog := sendTurn socketFaults (.sent 0) data next } }
  | sendFailed {s : Client} {call : Call} {data : Bytes} {next : ClientM (List Bytes)}
      {error : String} (calls : s.call = some call) (sends : call.prog = .sending data next) :
      Step host s (.sendFailed error) { s with
        call := some { call with prog := sendTurn socketFaults (.failed error) data next } }
  | received {s : Client} {call : Call} {chunk : Bytes} {prog : ClientM (List Bytes)}
      (calls : s.call = some call) (lasts : s.connection.ended = false)
      (receives : ReceivesChunk socketFaults call.prog chunk prog) :
      Step host s (.received chunk) {
        connection := { s.connection with taken := s.connection.taken ++ chunk }
        call := some { call with prog } }
  | eof {s : Client} {call : Call} {size : Nat} {got : Bytes}
      {next : Option Bytes → ClientM (List Bytes)} (calls : s.call = some call)
      (receives : call.prog = .receiving size got next) :
      Step host s .eof {
        connection := { s.connection with ended := true }
        call := some { call with prog := recvTurn socketFaults (.received []) size got next } }
  | recvFailed {s : Client} {call : Call} {size : Nat} {got : Bytes}
      {next : Option Bytes → ClientM (List Bytes)} {error : String} (calls : s.call = some call)
      (receives : call.prog = .receiving size got next) :
      Step host s (.recvFailed error) { s with
        call := some { call with prog := recvTurn socketFaults (.failed error) size got next } }
  /-- `std::bad_alloc`: no memory for the packets announced, before the first of them, or for the
  next one, once its size has come. -/
  | exhausted {s : Client} {call : Call} {size : Nat} {next : Option Bytes → ClientM (List Bytes)}
      (calls : s.call = some call) (receives : call.prog = .receiving size [] next)
      (counted : call.prog ≠ receiveResponse call.startSeq call.endSeq)
      (reserves : ∀ n packets, call.prog = receivePackets n packets → packets = []) :
      Step host s .exhausted { s with call := some { call with prog := .throw "std::bad_alloc" } }
  | interrupted {s : Client} {call : Call} {prog : ClientM (List Bytes)}
      (calls : s.call = some call) (interrupted : Interrupted socketFaults call.prog prog) :
      Step host s .interrupted { s with call := some { call with prog } }
  | returned {s : Client} {call : Call} {packets : List Bytes} (calls : s.call = some call)
      (returns : call.prog = .ret packets) :
      Step host s .returned { s with call := none }
  | threw {s : Client} {call : Call} {error : RuntimeError} (calls : s.call = some call)
      (throws : call.prog = .throw error) :
      Step host s .threw { s with call := none }

/-- A run, as its steps: the state before each, and the event. -/
inductive Run (host : String) : Client → List (Client × Event) → Client → Prop
  | nil {s : Client} : Run host s [] s
  | cons {s t u : Client} {event : Event} {steps : List (Client × Event)}
      (step : Step host s event t) (rest : Run host t steps u) :
      Run host s ((s, event) :: steps) u

/-- The states that a run goes through. -/
def states (steps : List (Client × Event)) (last : Client) : List Client :=
  steps.map Prod.fst ++ [last]

/-! ## What is wanted -/

/-- The next byte that the call in progress takes is of the response to a request that an earlier
call has begun. -/
def Stale (s : Client) : Prop :=
  (∃ call, s.call = some call ∧ call.prog.isReceiving = true) ∧ s.connection.ended = false ∧
    requestEnd (place s.connection.taken).responses < s.connection.earlier

structure Clean (s : Client) : Prop where
  thrown : ∀ call error, s.call = some call → call.prog = .throw error →
    s.connection.socketOpen = false ∨ s.connection.AtBoundary
  not_stale : ¬ s.Stale

/-- `send` fails only if nothing of the request is sent yet, `recv` does not fail and there is
memory, every field announces what the client takes, and the stream does not end within a field. -/
def Sound (s : Client) : Event → Prop
  | .sentNothing => s.connection.sent = s.connection.earlier
  | .sendFailed _ => s.connection.sent = s.connection.earlier
  | .recvFailed _ => False
  | .exhausted => False
  | .received chunk => ∀ call, s.call = some call →
      let p := (place s.connection.taken).add chunk
      p.field.size ≤ p.got.length → p.Accepted ((call.endSeq - call.startSeq).toNat + 1)
  | .eof => (place s.connection.taken).got = []
  | _ => True

end Client

end Bmdfh
