import Bmdfh.Lib.OrdMap
import Bmdfh.Protocol.Packet

/-!
# The order book

`order_book.hpp` and `order_book.cpp`. A `std::map` is an `ExtTreeMap`, its `begin()` and
`rbegin()` are `first?` and `last?`; `live_orders_` is never iterated, so it is one as well.
A member function that changes the book returns the book it leaves.
-/

namespace Bmdfh

open Std OrdMap Protocol

structure Level where
  price : UInt32
  quantity : UInt32
deriving DecidableEq

structure BboSnapshot where
  bestBid : Option Level := none
  bestAsk : Option Level := none
deriving DecidableEq

structure ApplyResult where
  before : BboSnapshot
  after : BboSnapshot
deriving DecidableEq

def ApplyResult.bboChanged (result : ApplyResult) : Bool := result.before ≠ result.after

structure OrderState where
  side : Side
  quantity : UInt32
  price : UInt32
deriving DecidableEq

structure OrderBook where
  liveOrders : ExtTreeMap UInt64 OrderState := ∅
  bids : ExtTreeMap UInt32 UInt32 := ∅
  asks : ExtTreeMap UInt32 UInt32 := ∅
deriving DecidableEq

namespace OrderBook

def bbo (book : OrderBook) : BboSnapshot where
  bestBid := (last? book.bids).map fun bid => { price := bid.1, quantity := bid.2 }
  bestAsk := (first? book.asks).map fun ask => { price := ask.1, quantity := ask.2 }

def addLevel (book : OrderBook) (side : Side) (price quantity : UInt32) : OrderBook :=
  match side with
  | .buy => { book with bids := book.bids.insert price (book.bids.getD price 0 + quantity) }
  | .sell => { book with asks := book.asks.insert price (book.asks.getD price 0 + quantity) }

def subtractLevel (book : OrderBook) (side : Side) (price quantity : UInt32) : OrderBook :=
  match side with
  | .buy =>
    match book.bids[price]? with
    | none => book
    | some level =>
      if level ≤ quantity then { book with bids := book.bids.erase price }
      else { book with bids := book.bids.insert price (level - quantity) }
  | .sell =>
    match book.asks[price]? with
    | none => book
    | some level =>
      if level ≤ quantity then { book with asks := book.asks.erase price }
      else { book with asks := book.asks.insert price (level - quantity) }

def eraseOrder (book : OrderBook) (orderId : UInt64) : OrderBook :=
  match book.liveOrders[orderId]? with
  | none => book
  | some order =>
    let book := book.subtractLevel order.side order.price order.quantity
    { book with liveOrders := book.liveOrders.erase orderId }

def applyAdd (book : OrderBook) (add : AddOrderMsg) : OrderBook :=
  match add.decodeSide with
  | none => book
  | some side =>
    let orderId := add.decodeOrderId
    let book := book.eraseOrder orderId
    let state : OrderState := { side, quantity := add.decodeQuantity, price := add.decodePrice }
    let book := book.addLevel state.side state.price state.quantity
    { book with liveOrders := book.liveOrders.insert orderId state }

def applyModify (book : OrderBook) (modify : ModifyOrderMsg) : OrderBook :=
  let orderId := modify.decodeOrderId
  match book.liveOrders[orderId]? with
  | none => book
  | some order =>
    let book := book.subtractLevel order.side order.price order.quantity
    let order : OrderState :=
      { order with price := modify.decodePrice, quantity := modify.decodeQuantity }
    let book : OrderBook := { book with liveOrders := book.liveOrders.insert orderId order }
    if order.quantity = 0 then { book with liveOrders := book.liveOrders.erase orderId }
    else book.addLevel order.side order.price order.quantity

def applyDelete (book : OrderBook) (deleted : DeleteOrderMsg) : OrderBook :=
  book.eraseOrder deleted.decodeOrderId

def applyTrade (book : OrderBook) (trade : TradeMsg) : OrderBook :=
  let orderId := trade.decodeOrderId
  match book.liveOrders[orderId]? with
  | none => book
  | some order =>
    let executedQuantity := min order.quantity trade.decodeQuantity
    let book := book.subtractLevel order.side order.price executedQuantity
    let order : OrderState := { order with quantity := order.quantity - executedQuantity }
    let book : OrderBook := { book with liveOrders := book.liveOrders.insert orderId order }
    if order.quantity = 0 then { book with liveOrders := book.liveOrders.erase orderId } else book

/-- The book after `apply`. -/
def update (book : OrderBook) (message : MessageView) : OrderBook :=
  match message with
  | .addOrder m => book.applyAdd m
  | .modifyOrder m => book.applyModify m
  | .deleteOrder m => book.applyDelete m
  | .trade m => book.applyTrade m

def apply (book : OrderBook) (message : MessageView) : ApplyResult × OrderBook :=
  let before := book.bbo
  let book := book.update message
  ({ before, after := book.bbo }, book)

/-- The messages applied in order. -/
def applyAll (book : OrderBook) (messages : List Message) : OrderBook :=
  messages.foldl (fun book message => (book.apply message).2) book

@[simp] theorem apply_snd (book : OrderBook) (m : Message) : (book.apply m).2 = book.update m := rfl

@[simp] theorem applyAll_nil (book : OrderBook) : book.applyAll [] = book := rfl

@[simp] theorem applyAll_cons (book : OrderBook) (m : Message) (ms : List Message) :
    book.applyAll (m :: ms) = (book.update m).applyAll ms := rfl

theorem bestBid_eq_some {book : OrderBook} {l : Level} :
    book.bbo.bestBid = some l ↔
      book.bids[l.price]? = some l.quantity ∧ ∀ p q, book.bids[p]? = some q → p ≤ l.price := by
  rw [← last?_eq_some]
  simp only [bbo, Option.map_eq_some_iff]
  exact ⟨fun ⟨_, h, he⟩ => he ▸ h, fun h => ⟨_, h, rfl⟩⟩

theorem bestAsk_eq_some {book : OrderBook} {l : Level} :
    book.bbo.bestAsk = some l ↔
      book.asks[l.price]? = some l.quantity ∧ ∀ p q, book.asks[p]? = some q → l.price ≤ p := by
  rw [← first?_eq_some]
  simp only [bbo, Option.map_eq_some_iff]
  exact ⟨fun ⟨_, h, he⟩ => he ▸ h, fun h => ⟨_, h, rfl⟩⟩

theorem bestBid_eq_none {book : OrderBook} :
    book.bbo.bestBid = none ↔ ∀ p : UInt32, book.bids[p]? = none := by
  rw [← last?_eq_none]
  simp [bbo]

theorem bestAsk_eq_none {book : OrderBook} :
    book.bbo.bestAsk = none ↔ ∀ p : UInt32, book.asks[p]? = none := by
  rw [← first?_eq_none]
  simp [bbo]

theorem applyAll_append (book : OrderBook) (ms ms' : List Message) :
    book.applyAll (ms ++ ms') = (book.applyAll ms).applyAll ms' := List.foldl_append

end OrderBook

end Bmdfh
