import Bmdfh.CommandLine.Flags
import Bmdfh.ExchangeSim.Publisher

/-!
# The command lines of the two programs

The `Options` and the `parse_args` of `feed_handler/main.cpp` and `exchange_sim/main.cpp`. An
option of type `std::size_t` or `std::uint64_t` is a natural number below `2 ^ 64`.
-/

namespace Bmdfh

open Protocol CommandLine

namespace FeedHandler

structure Options where
  group : String := "239.255.42.99"
  port : UInt16 := 30001
  recoveryHost : String := "127.0.0.1"
  recoveryPort : UInt16 := 31001
  messages : Nat := 0
  cpuCore : Nat := 0
  benchmark : Bool := false
deriving DecidableEq

def flags (argument : String) : Option (Flag Options) :=
  if argument = "--group" then some (.text fun value options => { options with group := value })
  else if argument = "--port" then
    some (.number 16 fun value options => { options with port := UInt16.ofNat value })
  else if argument = "--recovery-host" then
    some (.text fun value options => { options with recoveryHost := value })
  else if argument = "--recovery-port" then
    some (.number 16 fun value options => { options with recoveryPort := UInt16.ofNat value })
  else if argument = "--messages" then
    some (.number 64 fun value options => { options with messages := value })
  else if argument = "--cpu-core" then
    some (.number 64 fun value options => { options with cpuCore := value })
  else if argument = "--benchmark" then
    some (.switch fun options => { options with benchmark := true })
  else if argument = "--help" then some .help
  else none

def parseArgs (args : List String) : Except RuntimeError (Parsed Options) :=
  parseLoop flags args {}

end FeedHandler

namespace ExchangeSim

/-- The options while they are read. -/
structure RawOptions where
  group : String := "239.255.42.99"
  port : UInt16 := 30001
  recoveryPort : UInt16 := 31001
  messages : Nat := 20
  messagesPerPacket : Nat := 4
  skipEvery : Nat := 0
  intervalMs : Nat := 100
  recoveryGraceMs : Nat := 1000
  quiet : Bool := false
deriving DecidableEq

def flags (argument : String) : Option (Flag RawOptions) :=
  if argument = "--group" then some (.text fun value options => { options with group := value })
  else if argument = "--port" then
    some (.number 16 fun value options => { options with port := UInt16.ofNat value })
  else if argument = "--recovery-port" then
    some (.number 16 fun value options => { options with recoveryPort := UInt16.ofNat value })
  else if argument = "--messages" then
    some (.number 64 fun value options => { options with messages := value })
  else if argument = "--messages-per-packet" then
    some (.number 64 fun value options => { options with messagesPerPacket := value })
  else if argument = "--skip-every" then
    some (.number 64 fun value options => { options with skipEvery := value })
  else if argument = "--interval-ms" then
    some (.number 64 fun value options => { options with intervalMs := value })
  else if argument = "--recovery-grace-ms" then
    some (.number 64 fun value options => { options with recoveryGraceMs := value })
  else if argument = "--quiet" then
    some (.switch fun options => { options with quiet := true })
  else if argument = "--help" then some .help
  else none

/-- The options that `parse_args` returns, those of the publisher among them. -/
structure Options extends Bmdfh.Options where
  group : String
  port : UInt16
  recoveryPort : UInt16
  intervalMs : Nat
  recoveryGraceMs : Nat
  quiet : Bool

/-- The checks at the end of `parse_args`. -/
def RawOptions.check (raw : RawOptions) : Except RuntimeError Options :=
  if zero : raw.messagesPerPacket = 0 then
    throw "--messages-per-packet must be greater than zero"
  else if large : raw.messagesPerPacket > kMaxMessagesPerPacket then
    throw "--messages-per-packet is too large for the fixed 1024-byte packet buffer"
  else
    pure { raw with
      messagesPerPacket_ne_zero := zero
      messagesPerPacket_le := Nat.not_lt.1 large }

def parseArgs (args : List String) : Except RuntimeError (Parsed Options) := do
  match ← parseLoop flags args {} with
  | .help => pure .help
  | .options raw => return .options (← raw.check)

end ExchangeSim

end Bmdfh
