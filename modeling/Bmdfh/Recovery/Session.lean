import Bmdfh.Lib.Inevitable
import Bmdfh.Recovery.Endpoints
import Bmdfh.Recovery.History
import Mathlib.Data.PNat.Defs

/-!
# A recovery session

One client and the server on one connection that nothing cuts: the two byte streams between the
programs of `Recovery.Endpoints`, and the packet history. A call of `send` or `recv` transfers any
number of bytes from one on, as far as the stream has room for them or holds them, or it is
interrupted by a signal (`EINTR`). The history grows meanwhile; the client makes one request after
the other.
-/

namespace Bmdfh

open Protocol Stream Prog RecoveryServer RecoveryClient

/-- A call of `request_packets` in progress. -/
structure Call where
  startSeq : UInt32
  endSeq : UInt32
  prog : ClientM (List Bytes)

def Call.range (call : Call) : UInt32 × UInt32 := (call.startSeq, call.endSeq)

/-- A lookup, and the history at that moment. -/
structure Lookup where
  startSeq : UInt32
  endSeq : UInt32
  history : PacketHistory

def Lookup.range (lookup : Lookup) : UInt32 × UInt32 := (lookup.startSeq, lookup.endSeq)

/-- A call of `request_packets` that has returned or thrown. -/
structure Reply where
  startSeq : UInt32
  endSeq : UInt32
  packets : Except RuntimeError (List Bytes)

/-- The reply that a lookup asks for. -/
def Lookup.reply (lookup : Lookup) : Reply where
  startSeq := lookup.startSeq
  endSeq := lookup.endSeq
  packets := .ok (lookup.history.lookupRange lookup.startSeq lookup.endSeq)

structure Session where
  history : PacketHistory
  socketOpen : Bool := false
  call : Option Call := none
  server : ServerM Bool := handleRequest
  /-- From the client to the server. -/
  up : Bytes := []
  /-- From the server to the client. -/
  down : Bytes := []
  /-- The ranges requested. Not in the source. -/
  requests : List (UInt32 × UInt32) := []
  /-- The lookups made. Not in the source. -/
  lookups : List Lookup := []
  /-- What the client was given. Not in the source. -/
  replies : List Reply := []

namespace Session

/-- A packet that the history may hold. -/
def Sendable (packet : Bytes) : Prop := packet ≠ [] ∧ packet.length ≤ kMaxRecoveryPacketSize

/-- The count of a range fits the response. -/
def CountFits (history : PacketHistory) (startSeq endSeq : UInt32) : Prop :=
  (history.lookupRange startSeq endSeq).length < 2 ^ 32

/-- The socket's answers when nothing fails, and whether it is open then. -/
def socketAnswer (socketOpen : Bool) : (query : Query) → query.Answer × Bool
  | .isOpen => (socketOpen, socketOpen)
  | .socket => (.ok (), true)
  | .inetPton => (true, socketOpen)
  | .connect => (.ok (), socketOpen)
  | .close => ((), false)

/-- A step of one of the two programs, with a stream holding up to `capacity` bytes. -/
inductive Move (capacity : ℕ+) : Session → Session → Prop
  | clientAsks {s : Session} {call : Call} {socketOpen : Bool} {prog : ClientM (List Bytes)}
      (calls : s.call = some call)
      (asks : Asks socketAnswer s.socketOpen call.prog socketOpen prog) :
      Move capacity s { s with socketOpen, call := some { call with prog } }
  | clientSends {s : Session} {call : Call} {chunk : Bytes} {prog : ClientM (List Bytes)}
      (calls : s.call = some call) (sends : SendsChunk socketFaults call.prog chunk prog)
      (room : (s.up ++ chunk).length ≤ capacity) :
      Move capacity s { s with up := s.up ++ chunk, call := some { call with prog } }
  | clientReceives {s : Session} {call : Call} {chunk down : Bytes} {prog : ClientM (List Bytes)}
      (calls : s.call = some call) (receives : ReceivesChunk socketFaults call.prog chunk prog)
      (arrived : s.down = chunk ++ down) :
      Move capacity s { s with down, call := some { call with prog } }
  | clientReturns {s : Session} {call : Call} {packets : List Bytes}
      (calls : s.call = some call) (returns : call.prog = .ret packets) :
      Move capacity s { s with
        call := none
        replies := s.replies ++ [⟨call.startSeq, call.endSeq, .ok packets⟩] }
  | clientThrows {s : Session} {call : Call} {error : RuntimeError}
      (calls : s.call = some call) (throws : call.prog = .throw error) :
      Move capacity s { s with
        call := none
        replies := s.replies ++ [⟨call.startSeq, call.endSeq, .error error⟩] }
  | serverReceives {s : Session} {chunk up : Bytes} {server : ServerM Bool}
      (receives : ReceivesChunk socketFaults s.server chunk server)
      (arrived : s.up = chunk ++ up) :
      Move capacity s { s with up, server := handleClient server }
  | serverLooksUp {s : Session} {startSeq endSeq : UInt32} {next : List Bytes → ServerM Bool}
      (asks : s.server = .query (startSeq, endSeq) next) :
      Move capacity s { s with
        server := handleClient (next (s.history.lookupRange startSeq endSeq))
        lookups := s.lookups ++ [⟨startSeq, endSeq, s.history⟩] }
  | serverSends {s : Session} {chunk : Bytes} {server : ServerM Bool}
      (sends : SendsChunk socketFaults s.server chunk server)
      (room : (s.down ++ chunk).length ≤ capacity) :
      Move capacity s { s with down := s.down ++ chunk, server := handleClient server }

/-- A step that leaves both programs where they are. -/
inductive Quiet : Session → Session → Prop
  | clientInterrupted {s : Session} {call : Call} {prog : ClientM (List Bytes)}
      (calls : s.call = some call) (interrupted : Interrupted socketFaults call.prog prog) :
      Quiet s { s with call := some { call with prog } }
  | serverInterrupted {s : Session} {server : ServerM Bool}
      (interrupted : Interrupted socketFaults s.server server) :
      Quiet s { s with server := handleClient server }
  | store {s : Session} {seqNum : UInt32} {packet : Bytes} (sendable : Sendable packet)
      (fits : ∀ call, s.call = some call →
        CountFits (s.history.store seqNum packet) call.startSeq call.endSeq) :
      Quiet s { s with history := s.history.store seqNum packet }

inductive Step (host : String) (capacity : ℕ+) : Session → Session → Prop
  | move {s t : Session} (move : Move capacity s t) : Step host capacity s t
  | quiet {s t : Session} (quiet : Quiet s t) : Step host capacity s t
  | request {s : Session} {startSeq endSeq : UInt32} (idle : s.call = none)
      (le : startSeq ≤ endSeq) (fits : CountFits s.history startSeq endSeq) :
      Step host capacity s { s with
        call := some ⟨startSeq, endSeq, requestPackets host startSeq endSeq⟩
        requests := s.requests ++ [(startSeq, endSeq)] }

/-- Reachable from the start of a session over `history`. -/
abbrev Reachable (host : String) (capacity : ℕ+) (history : PacketHistory) (s : Session) : Prop :=
  Relation.ReflTransGen (Step host capacity) { history } s

/-- The call in progress returns. -/
abbrev Returns (capacity : ℕ+) : Session → Prop :=
  Inevitable (Move capacity) Quiet fun s => s.call = none

end Session

end Bmdfh
