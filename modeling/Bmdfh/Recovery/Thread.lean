import Bmdfh.Recovery.Session

/-!
# The thread of the server

`RecoveryServer::run`, which polls for 200 ms at a time and accepts, and the loop of `handle_client`
around the program `handleRequest`; `stop_` is tested at the head of either loop. The owner's
destructor sets `stop_` and joins the thread. Clients connect, send, read and disconnect as they
like, or do nothing for ever.

A step is the thread's own if it can be taken with nothing done by anyone else: the time of a poll
passes by itself, but a call of `accept`, `recv` or `send` may have to wait.
-/

namespace Bmdfh

open Protocol Stream Prog

namespace RecoveryServer

/-- A connection, at the server's end. -/
structure Peer where
  /-- From the client, to be received. -/
  up : Bytes := []
  /-- Sent, and not read by the client. -/
  down : Bytes := []
  disconnected : Bool := false

/-- Where the thread is. -/
inductive Control
  /-- At the test of `stop_` in `run`. -/
  | head
  | polling
  | accepting
  /-- At the test of `stop_` in `handle_client`. -/
  | turn
  | serving (server : ServerM Bool)
  | closing
  | returned

inductive Owner
  | running
  | joining
  | joined

end RecoveryServer

open RecoveryServer

structure Server where
  stop : Bool := false
  owner : Owner := .running
  control : Control := .head
  /-- The client that has been accepted. -/
  peer : Option Peer := none
  /-- The clients that wait to be accepted. -/
  backlog : List Peer := []
  history : PacketHistory := ∅

namespace Server

/-- The thread's own steps; a connection holds up to `capacity` bytes that its client does not
read. -/
inductive Own (capacity : ℕ+) : Server → Server → Prop
  | loops {s : Server} (control : s.control = .head) (goesOn : s.stop = false) :
      Own capacity s { s with control := .polling }
  | returns {s : Server} (control : s.control = .head) (stops : s.stop = true) :
      Own capacity s { s with control := .returned }
  | timesOut {s : Server} (control : s.control = .polling) :
      Own capacity s { s with control := .head }
  | finds {s : Server} (control : s.control = .polling) (ready : s.backlog ≠ []) :
      Own capacity s { s with control := .accepting }
  | accepts {s : Server} {peer : Peer} {backlog : List Peer} (control : s.control = .accepting)
      (first : s.backlog = peer :: backlog) :
      Own capacity s { s with control := .turn, peer := some peer, backlog }
  | serves {s : Server} (control : s.control = .turn) (goesOn : s.stop = false) :
      Own capacity s { s with control := .serving handleRequest }
  | leaves {s : Server} (control : s.control = .turn) (stops : s.stop = true) :
      Own capacity s { s with control := .closing }
  | receives {s : Server} {peer : Peer} {server server' : ServerM Bool} {chunk up : Bytes}
      (control : s.control = .serving server) (peer_eq : s.peer = some peer)
      (receives : ReceivesChunk socketFaults server chunk server')
      (arrived : peer.up = chunk ++ up) :
      Own capacity s { s with control := .serving server', peer := some { peer with up } }
  | receivesEnd {s : Server} {peer : Peer} {size : Nat} {got : Bytes}
      {next : Option Bytes → ServerM Bool}
      (control : s.control = .serving (.receiving size got next)) (peer_eq : s.peer = some peer)
      (disconnected : peer.disconnected = true) (empty : peer.up = []) :
      Own capacity s { s with
        control := .serving (recvTurn socketFaults (.received []) size got next) }
  | looksUp {s : Server} {startSeq endSeq : UInt32} {next : List Bytes → ServerM Bool}
      (control : s.control = .serving (.query (startSeq, endSeq) next)) :
      Own capacity s { s with
        control := .serving (next (s.history.lookupRange startSeq endSeq)) }
  | sends {s : Server} {peer : Peer} {server server' : ServerM Bool} {chunk : Bytes}
      (control : s.control = .serving server) (peer_eq : s.peer = some peer)
      (sends : SendsChunk socketFaults server chunk server')
      (room : (peer.down ++ chunk).length ≤ capacity) :
      Own capacity s { s with
        control := .serving server', peer := some { peer with down := peer.down ++ chunk } }
  /-- `EPIPE` or `ECONNRESET`. -/
  | isRefused {s : Server} {peer : Peer} {data : Bytes} {next : ServerM Bool} (error : String)
      (control : s.control = .serving (.sending data next)) (peer_eq : s.peer = some peer)
      (disconnected : peer.disconnected = true) :
      Own capacity s { s with
        control := .serving (sendTurn socketFaults (.failed error) data next) }
  | endsTurn {s : Server} (control : s.control = .serving (.ret true)) :
      Own capacity s { s with control := .turn }
  | endsClient {s : Server} (control : s.control = .serving (.ret false)) :
      Own capacity s { s with control := .closing }
  | catches {s : Server} {error : RuntimeError} (control : s.control = .serving (.throw error)) :
      Own capacity s { s with control := .closing }
  | closes {s : Server} (control : s.control = .closing) :
      Own capacity s { s with control := .head, peer := none }

/-- What a client does with its connection. -/
inductive Acts : Peer → Peer → Prop
  | sends {peer : Peer} {chunk : Bytes} : Acts peer { peer with up := peer.up ++ chunk }
  | reads {peer : Peer} {chunk down : Bytes} (arrived : peer.down = chunk ++ down) :
      Acts peer { peer with down }
  | disconnects {peer : Peer} : Acts peer { peer with disconnected := true }

/-- A step of a client; one that waits may be gone before it is accepted. -/
inductive OfClient : Server → Server → Prop
  | connects {s : Server} : OfClient s { s with backlog := s.backlog ++ [{}] }
  | acts {s : Server} {peer peer' : Peer} (peer_eq : s.peer = some peer) (acts : Acts peer peer') :
      OfClient s { s with peer := some peer' }
  | waitingActs {s : Server} {before rest : List Peer} {peer peer' : Peer}
      (waits : s.backlog = before ++ peer :: rest) (acts : Acts peer peer') :
      OfClient s { s with backlog := before ++ peer' :: rest }
  | waitingGoes {s : Server} {before rest : List Peer} {peer : Peer}
      (waits : s.backlog = before ++ peer :: rest) :
      OfClient s { s with backlog := before ++ rest }

/-- A call that a signal interrupts, or that fails; a `SIGPIPE` is the failure of its `send`. -/
inductive Fault : Server → Server → Prop
  | pollInterrupted {s : Server} (control : s.control = .polling) :
      Fault s { s with control := .head }
  | pollFails {s : Server} (control : s.control = .polling) :
      Fault s { s with control := .returned }
  /-- Interrupted or not, `run` goes on. -/
  | acceptFails {s : Server} (control : s.control = .accepting) :
      Fault s { s with control := .head }
  | interrupted {s : Server} {server server' : ServerM Bool}
      (control : s.control = .serving server)
      (interrupted : Interrupted socketFaults server server') :
      Fault s { s with control := .serving server' }
  | recvFails {s : Server} {size : Nat} {got : Bytes} {next : Option Bytes → ServerM Bool}
      {error : String} (control : s.control = .serving (.receiving size got next)) :
      Fault s { s with control := .serving (recvTurn socketFaults (.failed error) size got next) }
  | sendFails {s : Server} {data : Bytes} {next : ServerM Bool} {result : SendResult}
      (control : s.control = .serving (.sending data next))
      (fails : result = .sent 0 ∨ ∃ error, result = .failed error) :
      Fault s { s with control := .serving (sendTurn socketFaults result data next) }

/-- A step of the owner: it stores packets, and destroys the server. -/
inductive OfOwner : Server → Server → Prop
  | stores {s : Server} {seqNum : UInt32} {packet : Bytes} :
      OfOwner s { s with history := s.history.store seqNum packet }
  | stops {s : Server} (owner : s.owner = .running) :
      OfOwner s { s with stop := true, owner := .joining }
  | joins {s : Server} (owner : s.owner = .joining) (control : s.control = .returned) :
      OfOwner s { s with owner := .joined }

inductive Step (capacity : ℕ+) (s t : Server) : Prop
  | own (own : Own capacity s t)
  | client (client : OfClient s t)
  | fault (fault : Fault s t)
  | owner (owner : OfOwner s t)

/-- Without the clients, and with no fault. -/
inductive Unaided (capacity : ℕ+) (s t : Server) : Prop
  | own (own : Own capacity s t)
  | owner (owner : OfOwner s t)

abbrev Reachable (capacity : ℕ+) (s : Server) : Prop :=
  Relation.ReflTransGen (Step capacity) {} s

/-- The thread is in a call that waits for a client: `accept` with none to accept, `recv` with a
connected client of which nothing is left to receive, `send` with a connected client that has left
too much unread. -/
inductive Waits (capacity : ℕ+) (s : Server) : Prop
  | accept (control : s.control = .accepting) (empty : s.backlog = [])
  | recv {peer : Peer} {size : Nat} {got : Bytes} {next : Option Bytes → ServerM Bool}
      (control : s.control = .serving (.receiving size got next)) (peer_eq : s.peer = some peer)
      (connected : peer.disconnected = false) (silent : peer.up = [])
  | send {peer : Peer} {data : Bytes} {next : ServerM Bool}
      (control : s.control = .serving (.sending data next)) (peer_eq : s.peer = some peer)
      (connected : peer.disconnected = false) (full : capacity ≤ peer.down.length)

end Server

end Bmdfh
