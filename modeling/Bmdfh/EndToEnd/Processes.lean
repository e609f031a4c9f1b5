import Bmdfh.EndToEnd.Group
import Bmdfh.ExchangeSim.Main
import Bmdfh.FeedHandler.Main

/-!
# The group with what its programs print

The group of `EndToEnd.Group` once more, with the states of the two `main`s in the place of what
`Publisher` and `Handler` keep of them. The publisher prints the lines of a packet when it has sent
it, a handler those about a datagram while it handles it. As in `EndToEnd.Group`, the exchange keeps
running, and neither `sendto` nor a recovery connection fails. `publishTsc` and `tsc` are the
readings of the time-stamp counters.
-/

namespace Bmdfh

open Protocol

/-- A feed handler, with the datagrams on their way to it. -/
structure Process where
  network : List Bytes := []
  run : FeedHandler.Run := {}
  phase : Phase := .head
  /-- The datagrams the handler has taken off the socket. Not in the source. -/
  delivered : List Bytes := []

namespace Process

/-- What the group knows of the handler. -/
def member (m : Process) : Member where
  network := m.network
  handler := m.run.handler
  phase := m.phase
  delivered := m.delivered

/-- Datagrams are on their way to the handler. -/
def hear (m : Process) (datagrams : List Bytes) : Process :=
  { m with network := m.network ++ datagrams }

inductive Step (options : FeedHandler.Options) (tsc : Nat → UInt64) (recovery : Recovery)
    (served : Prop) : Process → Process → Prop
  | lose {m : Process} {datagram : Bytes} {network : List Bytes}
      (lost : m.network.Perm (datagram :: network)) :
      Step options tsc recovery served m { m with network }
  | duplicate {m : Process} {datagram : Bytes} (mem : datagram ∈ m.network) :
      Step options tsc recovery served m { m with network := datagram :: m.network }
  | receive {m : Process} {datagram : Bytes} {network : List Bytes} (idle : m.phase = .head)
      (goesOn : m.run.handler.limitReached options.messages = false)
      (arrives : m.network.Perm (datagram :: network)) :
      Step options tsc recovery served m { m with
        network
        phase := .handling (datagram.take Handler.kReceiveBufferSize)
        delivered := m.delivered ++ [datagram] }
  | handle {m : Process} {received : Bytes} {run : FeedHandler.Run}
      (busy : m.phase = .handling received)
      (answered : m.member.Requests options.messages → served)
      (returns : FeedHandler.Run.handleDatagram options tsc recovery received m.run = .ok () run) :
      Step options tsc recovery served m { m with run, phase := .head }
  | throw {m : Process} {received : Bytes} {run : FeedHandler.Run} {error : RuntimeError}
      (busy : m.phase = .handling received)
      (answered : m.member.Requests options.messages → served)
      (throws : FeedHandler.Run.handleDatagram options tsc recovery received m.run
        = .error error run) :
      Step options tsc recovery served m { m with run, phase := .thrown error }

end Process

structure Processes (ι : Type) where
  publisher : ExchangeSim.Run := {}
  handler : ι → Process := fun _ => {}
  /-- The handler whose connection the server has accepted. -/
  serving : Option ι := none

namespace Processes

variable {ι : Type} [DecidableEq ι]

/-- What is printed is left out. -/
def group (s : Processes ι) : Group ι where
  publisher := s.publisher.publisher
  member := fun i => (s.handler i).member
  serving := s.serving

/-- `sendto` sends the whole datagram. -/
def sendTo (_ : Nat) (bytes : Bytes) : ExchangeSim.SendTo := .sent bytes.length

inductive Step (options : ExchangeSim.Options) (handlerOptions : ι → FeedHandler.Options)
    (publishTsc : Nat → UInt64) (tsc : ι → Nat → UInt64) : Processes ι → Processes ι → Prop
  | store {s : Processes ι} {draws : List Draws} {publisher : Publisher}
      (stored : s.publisher.publisher.storePacket options.toOptions draws
        (publishTsc s.publisher.publisher.published.length) = some publisher) :
      Step options handlerOptions publishTsc tsc s { s with
        publisher := { s.publisher with publisher } }
  | send {s : Processes ι} {batch : List Message} {bytes : Bytes} {run : ExchangeSim.Run}
      (stored : s.publisher.publisher.packet = some (batch, bytes))
      (sent : ExchangeSim.Run.sendPacket options sendTo batch
        (publishTsc (s.publisher.publisher.published.length - 1))
        (packetSizeBytes (UInt16.ofNat batch.length)) bytes s.publisher = .ok () run) :
      Step options handlerOptions publishTsc tsc s { s with
        publisher := run
        handler := fun i =>
          (s.handler i).hear (run.multicast.drop s.publisher.multicast.length) }
  | accept {s : Processes ι} {i : ι} (free : s.serving = none)
      (requests : (s.handler i).member.Requests (handlerOptions i).messages) :
      Step options handlerOptions publishTsc tsc s { s with serving := some i }
  | leave {s : Processes ι} {i : ι} (serves : s.serving = some i)
      (ended : (s.handler i).member.Ended (handlerOptions i).messages) :
      Step options handlerOptions publishTsc tsc s { s with serving := none }
  | handler {s : Processes ι} {m : Process} (i : ι)
      (step : Process.Step (handlerOptions i) (tsc i) s.group.recovery (s.serving = some i)
        (s.handler i) m) :
      Step options handlerOptions publishTsc tsc s { s with
        handler := Function.update s.handler i m }

abbrev Reachable (options : ExchangeSim.Options) (handlerOptions : ι → FeedHandler.Options)
    (publishTsc : Nat → UInt64) (tsc : ι → Nat → UInt64) (s : Processes ι) : Prop :=
  Relation.ReflTransGen (Step options handlerOptions publishTsc tsc) {} s

end Processes

end Bmdfh
