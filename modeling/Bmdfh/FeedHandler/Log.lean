import Bmdfh.FeedHandler.Handler
import Bmdfh.Lib.Rounding
import Bmdfh.Protocol.Text

/-!
# What the feed handler prints and measures

The lines of `feed_handler/main.cpp` with what each of them shows, and `CycleStats`. A line goes to
`std::cout` unless it is about a datagram that is discarded; those go to `std::cerr`. The total of
`CycleStats` is a `long double`, with a significand of 64 bits.
-/

namespace Bmdfh.FeedHandler

open Protocol

inductive LogLine
  | packet (source : PacketSource) (seq : UInt32) (msgCount : UInt16) (publishTsc : UInt64)
  | alert (result : ApplyResult) (latencyCycles : UInt64)
  | recv (source : PacketSource) (seq : UInt32) (index : Nat) (message : MessageView)
      (top : BboSnapshot) (liveOrders : Nat)
  | requestingReplay (startSeq endSeq : UInt32)
  | buffered (seq : UInt32) (msgCount : UInt16)
  | discardedMalformed (receivedBytes : Nat)
  | discardedStale (seq expectedSeq : UInt32)
deriving DecidableEq

namespace LogLine

/-- The line, without the `'\n'` at its end. -/
def text : LogLine → String
  | packet source seq msgCount publishTsc =>
    source.text ++ " packet seq=" ++ toString seq ++ " msg_count=" ++ toString msgCount
      ++ " publish_tsc=" ++ toString publishTsc
  | alert result latencyCycles =>
    "alert BBO changed: " ++ OrderBook.formatBbo result.before ++ " -> "
      ++ OrderBook.formatBbo result.after ++ " | latency_cycles=" ++ toString latencyCycles
  | recv source seq index message top liveOrders =>
    source.text ++ " recv " ++ describe seq index message ++ " | " ++ OrderBook.formatBbo top
      ++ " | live_orders=" ++ toString liveOrders
  | requestingReplay startSeq endSeq =>
    "requesting replay for packets " ++ toString startSeq ++ " to " ++ toString endSeq
      ++ " over TCP"
  | buffered seq msgCount =>
    "buffered out-of-order packet seq=" ++ toString seq ++ " msg_count=" ++ toString msgCount
  | discardedMalformed receivedBytes =>
    "discarded malformed packet (" ++ toString receivedBytes ++ " bytes)"
  | discardedStale seq expectedSeq =>
    "discarded stale packet seq=" ++ toString seq ++ " expected seq=" ++ toString expectedSeq

/-- The line goes to `std::cerr`. -/
def isError : LogLine → Bool
  | discardedMalformed _ => true
  | discardedStale _ _ => true
  | _ => false

end LogLine

structure CycleStats where
  samples : Nat := 0
  minCycles : UInt64 := UInt64.ofNat (UInt64.size - 1)
  maxCycles : UInt64 := 0
  totalCycles : ℚ := 0
deriving DecidableEq

namespace CycleStats

/-- A `long double` nearest to the number. -/
def longDouble (x : ℚ) : ℚ := Rounding.toPrecision 64 x

def record (stats : CycleStats) (cycles : UInt64) : CycleStats where
  samples := stats.samples + 1
  minCycles := if cycles < stats.minCycles then cycles else stats.minCycles
  maxCycles := if cycles > stats.maxCycles then cycles else stats.maxCycles
  totalCycles := longDouble (stats.totalCycles + longDouble cycles.toNat)

end CycleStats

end Bmdfh.FeedHandler
