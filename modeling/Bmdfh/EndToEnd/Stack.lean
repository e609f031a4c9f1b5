import Bmdfh.EndToEnd.Group
import Bmdfh.Recovery.Session

/-!
# The group with its connections

The group of `EndToEnd.Group` with the recovery connections as pairs of byte streams. A handler that
requests packets runs `request_packets` on its connection, as a program that sends and receives
parts of the bytes; the server runs `handle_client` on the one connection it has accepted, over the
history as it is by then. In between the publisher and the other handlers go on. The connections
themselves do not fail, and the server is not stopped.
-/

namespace Bmdfh

open Protocol RecoveryClient

/-- Where a feed handler is. -/
inductive SubscriberPhase
  /-- At the head of the receive loop. -/
  | head
  | handling (received : Bytes)
  /-- In `request_packets`. -/
  | requesting (received : Bytes)
  | thrown (error : RuntimeError)

/-- A feed handler, with the datagrams on their way to it and its connection to the server. -/
structure Subscriber where
  network : List Bytes := []
  handler : Handler := {}
  phase : SubscriberPhase := .head
  session : Session := { history := ∅ }
  /-- The datagrams the handler has taken off the socket. Not in the source. -/
  delivered : List Bytes := []

namespace Subscriber

/-- A datagram is on its way to the handler. -/
def hear (m : Subscriber) (datagram : Option Bytes) : Subscriber :=
  { m with network := m.network ++ datagram.toList }

/-- The history that the server looks up in. -/
def withHistory (m : Subscriber) (history : PacketHistory) : Subscriber :=
  { m with session := { m.session with history } }

/-- The program has ended: its sockets are closed. -/
def Ended (messages : Nat) (m : Subscriber) : Prop :=
  (∃ error, m.phase = .thrown error) ∨ (m.phase = .head ∧ m.handler.limitReached messages = true)

/-- `connect` has returned. -/
def Connected (m : Subscriber) : Prop :=
  m.session.socketOpen = true ∧ ∀ call query next, m.session.call = some call →
    call.prog ≠ .query query next

/-- No packets are requested. -/
def unasked : Recovery := fun _ _ => .error "no request"

/-- A step of a handler, its network or its connection. The server acts if it has accepted the
connection (`served`); a move of the client leaves the server as it is. -/
inductive Step (messages : Nat) (host : String) (capacity : ℕ+) (served : Prop) :
    Subscriber → Subscriber → Prop
  | lose {m : Subscriber} {datagram : Bytes} {network : List Bytes}
      (lost : m.network.Perm (datagram :: network)) :
      Step messages host capacity served m { m with network }
  | duplicate {m : Subscriber} {datagram : Bytes} (mem : datagram ∈ m.network) :
      Step messages host capacity served m { m with network := datagram :: m.network }
  | receive {m : Subscriber} {datagram : Bytes} {network : List Bytes}
      (idle : m.phase = .head) (goesOn : m.handler.limitReached messages = false)
      (arrives : m.network.Perm (datagram :: network)) :
      Step messages host capacity served m { m with
        network
        phase := .handling (datagram.take Handler.kReceiveBufferSize)
        delivered := m.delivered ++ [datagram] }
  | handle {m : Subscriber} {received : Bytes} {handler : Handler}
      (busy : m.phase = .handling received)
      (quiet : m.handler.replayRange messages received = none)
      (returns : Handler.handleDatagram messages unasked received m.handler = .ok () handler) :
      Step messages host capacity served m { m with handler, phase := .head }
  | throw {m : Subscriber} {received : Bytes} {handler : Handler} {error : RuntimeError}
      (busy : m.phase = .handling received)
      (quiet : m.handler.replayRange messages received = none)
      (throws : Handler.handleDatagram messages unasked received m.handler
        = .error error handler) :
      Step messages host capacity served m { m with handler, phase := .thrown error }
  | request {m : Subscriber} {received : Bytes} {startSeq endSeq : UInt32}
      (busy : m.phase = .handling received)
      (asks : m.handler.replayRange messages received = some (startSeq, endSeq)) :
      Step messages host capacity served m { m with
        phase := .requesting received
        session := { m.session with
          call := some ⟨startSeq, endSeq, requestPackets host startSeq endSeq⟩
          requests := m.session.requests ++ [(startSeq, endSeq)] } }
  | clientMoves {m : Subscriber} {session : Session}
      (move : Session.Move capacity m.session session)
      (same : session.server = m.session.server ∧ session.lookups = m.session.lookups) :
      Step messages host capacity served m { m with session }
  | serverMoves {m : Subscriber} {session : Session} (serves : served)
      (move : Session.Move capacity m.session session) :
      Step messages host capacity served m { m with session }
  | answer {m : Subscriber} {received : Bytes} {reply : Reply} {handler : Handler}
      (waits : m.phase = .requesting received) (returned : m.session.call = none)
      (last : m.session.replies.getLast? = some reply)
      (returns : Handler.handleDatagram messages (fun _ _ => reply.packets) received m.handler
        = .ok () handler) :
      Step messages host capacity served m { m with handler, phase := .head }
  | fail {m : Subscriber} {received : Bytes} {reply : Reply} {handler : Handler}
      {error : RuntimeError} (waits : m.phase = .requesting received)
      (returned : m.session.call = none) (last : m.session.replies.getLast? = some reply)
      (throws : Handler.handleDatagram messages (fun _ _ => reply.packets) received m.handler
        = .error error handler) :
      Step messages host capacity served m { m with handler, phase := .thrown error }

end Subscriber

structure Stack (ι : Type) where
  publisher : Publisher := {}
  member : ι → Subscriber := fun _ => {}
  /-- The handler whose connection the server has accepted. -/
  serving : Option ι := none

namespace Stack

variable {ι : Type} [DecidableEq ι]

inductive Step (options : Options) (messages : ι → Nat) (host : String) (capacity : ℕ+) :
    Stack ι → Stack ι → Prop
  | store {s : Stack ι} {draws : List Draws} {publishTsc : UInt64} {publisher : Publisher}
      (stored : s.publisher.storePacket options draws publishTsc = some publisher) :
      Step options messages host capacity s { s with
        publisher
        member := fun i => (s.member i).withHistory publisher.packetHistory }
  | send {s : Stack ι} {publisher : Publisher} {datagram : Option Bytes}
      (sent : s.publisher.sendPacket options = some (publisher, datagram)) :
      Step options messages host capacity s { s with
        publisher
        member := fun i => (s.member i).hear datagram }
  | accept {s : Stack ι} {i : ι} (free : s.serving = none)
      (connected : (s.member i).Connected)
      (alive : ¬ (s.member i).Ended (messages i)) :
      Step options messages host capacity s { s with serving := some i }
  | leave {s : Stack ι} {i : ι} (serves : s.serving = some i)
      (ended : (s.member i).Ended (messages i)) :
      Step options messages host capacity s { s with serving := none }
  | member {s : Stack ι} {m : Subscriber} (i : ι)
      (step : Subscriber.Step (messages i) host capacity (s.serving = some i) (s.member i) m) :
      Step options messages host capacity s { s with member := Function.update s.member i m }

abbrev Reachable (options : Options) (messages : ι → Nat) (host : String) (capacity : ℕ+)
    (s : Stack ι) : Prop :=
  Relation.ReflTransGen (Step options messages host capacity) {} s

end Stack

end Bmdfh
