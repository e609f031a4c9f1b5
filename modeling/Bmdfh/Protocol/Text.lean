import Bmdfh.OrderBook.Book

/-!
# What the programs print of messages and books

`describe` of `protocol.cpp`, `format_bbo`, `top_of_book` and `live_order_count` of
`order_book.cpp`.
-/

namespace Bmdfh

open Protocol

namespace Protocol

/-- `to_string` of a side. -/
def Side.text : Side → String
  | .buy => "BUY"
  | .sell => "SELL"

/-- The side as `describe` prints it. -/
def sideText : Option Side → String
  | some side => side.text
  | none => "INVALID"

/-- The part of `describe` that depends on the message's type. -/
def describeFields : MessageView → String
  | .addOrder m =>
    "ADD order_id=" ++ toString m.decodeOrderId
      ++ " side=" ++ sideText m.decodeSide
      ++ " price=" ++ toString m.decodePrice
      ++ " qty=" ++ toString m.decodeQuantity
  | .modifyOrder m =>
    "MODIFY order_id=" ++ toString m.decodeOrderId
      ++ " price=" ++ toString m.decodePrice
      ++ " qty=" ++ toString m.decodeQuantity
  | .deleteOrder m => "DELETE order_id=" ++ toString m.decodeOrderId
  | .trade m =>
    "TRADE order_id=" ++ toString m.decodeOrderId
      ++ " price=" ++ toString m.decodePrice
      ++ " qty=" ++ toString m.decodeQuantity

def describe (seqNum : UInt32) (messageIndex : Nat) (message : MessageView) : String :=
  "pkt_seq=" ++ toString seqNum ++ " msg=" ++ toString (messageIndex + 1) ++ " "
    ++ describeFields message

end Protocol

/-- Half of `format_bbo`. -/
def formatLevel (label : String) : Option Level → String
  | some level => label ++ " " ++ toString level.price ++ " x " ++ toString level.quantity
  | none => label ++ " --"

namespace OrderBook

def formatBbo (bbo : BboSnapshot) : String :=
  formatLevel "BID" bbo.bestBid ++ " | " ++ formatLevel "ASK" bbo.bestAsk

def topOfBook (book : OrderBook) : String := formatBbo book.bbo

def liveOrderCount (book : OrderBook) : Nat := book.liveOrders.size

end OrderBook

end Bmdfh
