import Bmdfh.Protocol.Wire

/-!
# The market data generator

`MarketDataGenerator` of `exchange_sim/main.cpp`. The random engine is replaced by the values the
distributions return (`Draws`), each within its range; a call of `next` asks each at most once.
Picking an index from an empty vector has no value (`none`).
-/

namespace Bmdfh

open Protocol

structure LiveOrder where
  orderId : UInt64
  side : Side
  quantity : UInt32
  price : UInt32
deriving DecidableEq

structure MarketDataGenerator where
  nextOrderId : UInt64 := 1
  liveOrders : List LiveOrder := []
deriving DecidableEq

/-- The values of `std::uniform_int_distribution<std::uint32_t> {low, high}`. -/
abbrev UniformIntDistribution (low high : UInt32) := { x : UInt32 // low ≤ x ∧ x ≤ high }

/-- What the distributions return during one call of `next`. -/
structure Draws where
  action : Fin 100
  side : Fin 2
  bidPrice : UniformIntDistribution 9950 10000
  askPrice : UniformIntDistribution 10001 10050
  quantity : UniformIntDistribution 10 250
  /-- The index distribution, by its upper end. -/
  index : (high : Nat) → Fin (high + 1)

namespace MarketDataGenerator

def price (draws : Draws) (side : Side) : UInt32 :=
  if side = .buy then draws.bidPrice else draws.askPrice

def addOrder (g : MarketDataGenerator) (draws : Draws) : Message × MarketDataGenerator :=
  let side := if draws.side = 0 then .buy else .sell
  let order : LiveOrder :=
    { orderId := g.nextOrderId, side, quantity := draws.quantity, price := price draws side }
  (.addOrder (makeAddOrderMsg order.orderId order.side order.price order.quantity),
    { nextOrderId := g.nextOrderId + 1, liveOrders := g.liveOrders ++ [order] })

def pickOrderIndex (g : MarketDataGenerator) (draws : Draws) : Option Nat :=
  if g.liveOrders.isEmpty then none else some (draws.index (g.liveOrders.length - 1))

def modifyOrder (g : MarketDataGenerator) (draws : Draws) :
    Option (Message × MarketDataGenerator) :=
  if g.liveOrders.isEmpty then some (g.addOrder draws)
  else do
    let index ← g.pickOrderIndex draws
    let order ← g.liveOrders[index]?
    let order := { order with price := price draws order.side, quantity := draws.quantity }
    some (.modifyOrder (makeModifyOrderMsg order.orderId order.price order.quantity),
      { g with liveOrders := g.liveOrders.set index order })

def deleteOrder (g : MarketDataGenerator) (draws : Draws) :
    Option (Message × MarketDataGenerator) :=
  if g.liveOrders.isEmpty then some (g.addOrder draws)
  else do
    let index ← g.pickOrderIndex draws
    let orderId := (← g.liveOrders[index]?).orderId
    let back ← g.liveOrders.getLast?
    some (.deleteOrder (makeDeleteOrderMsg orderId),
      { g with liveOrders := (g.liveOrders.set index back).dropLast })

def next (g : MarketDataGenerator) (draws : Draws) : Option (Message × MarketDataGenerator) :=
  if g.liveOrders.length < 4 then some (g.addOrder draws)
  else
    let action := draws.action
    if action < 45 then some (g.addOrder draws)
    else if action < 80 then g.modifyOrder draws
    else g.deleteOrder draws

/-- Calling `next` again and again: the messages in order, and the generator in the end. -/
def emit (g : MarketDataGenerator) : List Draws → Option (List Message × MarketDataGenerator)
  | [] => some ([], g)
  | draws :: rest => do
    let (message, g) ← g.next draws
    let (messages, g) ← emit g rest
    some (message :: messages, g)

end MarketDataGenerator

end Bmdfh
