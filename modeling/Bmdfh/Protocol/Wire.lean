import Bmdfh.Lib.Packed

/-!
# The wire structures

The packed structures of `protocol.hpp` with their layouts, the byte-order conversions and the
`make_*` and `decode_*` functions of `protocol.cpp`. A structure holds its integers as the packet
does, in network byte order; the host is little-endian, so storing a field writes its least
significant byte first and the conversions swap bytes. A `char` is its byte.
-/

namespace Bmdfh.Protocol

open Packed

abbrev Bytes := List UInt8

def kFixedMessageSize : Nat := 24

/-! ## Enumerations -/

inductive Side
  | buy
  | sell
deriving DecidableEq, Repr

def Side.toChar : Side → UInt8
  | .buy => 'B'.toUInt8
  | .sell => 'S'.toUInt8

inductive MessageType
  | addOrder
  | modifyOrder
  | deleteOrder
  | trade
deriving DecidableEq, Repr

def MessageType.toChar : MessageType → UInt8
  | .addOrder => 'A'.toUInt8
  | .modifyOrder => 'M'.toUInt8
  | .deleteOrder => 'D'.toUInt8
  | .trade => 'T'.toUInt8

def messageTypeFromChar (msgType : UInt8) : Option MessageType :=
  if msgType = MessageType.addOrder.toChar then some .addOrder
  else if msgType = MessageType.modifyOrder.toChar then some .modifyOrder
  else if msgType = MessageType.deleteOrder.toChar then some .deleteOrder
  else if msgType = MessageType.trade.toChar then some .trade
  else none

def sideFromChar (side : UInt8) : Option Side :=
  if side = Side.buy.toChar then some .buy
  else if side = Side.sell.toChar then some .sell
  else none

@[simp] theorem messageTypeFromChar_toChar (t : MessageType) :
    messageTypeFromChar t.toChar = some t := by
  cases t <;> decide

@[simp] theorem sideFromChar_toChar (s : Side) : sideFromChar s.toChar = some s := by
  cases s <;> decide

/-! ## Structures -/

structure PacketHeader where
  seqNum : UInt32
  msgCount : UInt16
  publishTsc : UInt64
deriving DecidableEq

structure AddOrderMsg where
  msgType : UInt8 := 'A'.toUInt8
  orderId : UInt64 := 0
  side : UInt8 := 'B'.toUInt8
  price : UInt32 := 0
  quantity : UInt32 := 0
  reserved : Vector UInt8 6 := Vector.replicate 6 0
deriving DecidableEq

structure ModifyOrderMsg where
  msgType : UInt8 := 'M'.toUInt8
  orderId : UInt64 := 0
  price : UInt32 := 0
  quantity : UInt32 := 0
  reserved : Vector UInt8 7 := Vector.replicate 7 0
deriving DecidableEq

structure DeleteOrderMsg where
  msgType : UInt8 := 'D'.toUInt8
  orderId : UInt64 := 0
  reserved : Vector UInt8 15 := Vector.replicate 15 0
deriving DecidableEq

structure TradeMsg where
  msgType : UInt8 := 'T'.toUInt8
  orderId : UInt64 := 0
  price : UInt32 := 0
  quantity : UInt32 := 0
  reserved : Vector UInt8 7 := Vector.replicate 7 0
deriving DecidableEq

def PacketHeader.layout : Layout PacketHeader :=
  (Layout.u32.seq (Layout.u16.seq Layout.u64)).iso
    ⟨fun (s, c, t) => ⟨s, c, t⟩, fun h => (h.seqNum, h.msgCount, h.publishTsc),
      fun _ => rfl, fun _ => rfl⟩

def AddOrderMsg.layout : Layout AddOrderMsg :=
  (Layout.u8.seq (Layout.u64.seq (Layout.u8.seq (Layout.u32.seq
    (Layout.u32.seq (Layout.bytes 6)))))).iso
    ⟨fun (t, i, s, p, q, r) => ⟨t, i, s, p, q, r⟩,
      fun m => (m.msgType, m.orderId, m.side, m.price, m.quantity, m.reserved),
      fun _ => rfl, fun _ => rfl⟩

def ModifyOrderMsg.layout : Layout ModifyOrderMsg :=
  (Layout.u8.seq (Layout.u64.seq (Layout.u32.seq (Layout.u32.seq (Layout.bytes 7))))).iso
    ⟨fun (t, i, p, q, r) => ⟨t, i, p, q, r⟩,
      fun m => (m.msgType, m.orderId, m.price, m.quantity, m.reserved),
      fun _ => rfl, fun _ => rfl⟩

def DeleteOrderMsg.layout : Layout DeleteOrderMsg :=
  (Layout.u8.seq (Layout.u64.seq (Layout.bytes 15))).iso
    ⟨fun (t, i, r) => ⟨t, i, r⟩, fun m => (m.msgType, m.orderId, m.reserved),
      fun _ => rfl, fun _ => rfl⟩

def TradeMsg.layout : Layout TradeMsg :=
  (Layout.u8.seq (Layout.u64.seq (Layout.u32.seq (Layout.u32.seq (Layout.bytes 7))))).iso
    ⟨fun (t, i, p, q, r) => ⟨t, i, p, q, r⟩,
      fun m => (m.msgType, m.orderId, m.price, m.quantity, m.reserved),
      fun _ => rfl, fun _ => rfl⟩

-- the `static_assert`s on the sizes
@[simp] theorem size_packetHeader : PacketHeader.layout.size = 14 := rfl
@[simp] theorem size_addOrderMsg : AddOrderMsg.layout.size = kFixedMessageSize := rfl
@[simp] theorem size_modifyOrderMsg : ModifyOrderMsg.layout.size = kFixedMessageSize := rfl
@[simp] theorem size_deleteOrderMsg : DeleteOrderMsg.layout.size = kFixedMessageSize := rfl
@[simp] theorem size_tradeMsg : TradeMsg.layout.size = kFixedMessageSize := rfl

/-! ## Byte order -/

def htons (x : UInt16) : UInt16 := UInt16.ofNat (byteSwap 2 x.toNat)
def htonl (x : UInt32) : UInt32 := UInt32.ofNat (byteSwap 4 x.toNat)
def hostToNetworkU64 (x : UInt64) : UInt64 := UInt64.ofNat (byteSwap 8 x.toNat)

def ntohs (x : UInt16) : UInt16 := UInt16.ofNat (byteSwap 2 x.toNat)
def ntohl (x : UInt32) : UInt32 := UInt32.ofNat (byteSwap 4 x.toNat)
def networkToHostU64 (x : UInt64) : UInt64 := UInt64.ofNat (byteSwap 8 x.toNat)

/-- The conversions of one width: both swap the bytes, and swapping twice is the identity. -/
theorem ofNat_byteSwap_twice {α : Type} {w : Nat} {toNat : α → Nat} {ofNat : Nat → α}
    (hlt : ∀ a, toNat a < 256 ^ w) (hof : ∀ a, ofNat (toNat a) = a)
    (hto : ∀ n < 256 ^ w, toNat (ofNat n) = n) (a : α) :
    ofNat (byteSwap w (toNat (ofNat (byteSwap w (toNat a))))) = a := by
  rw [hto _ (byteSwap_lt w _), byteSwap_byteSwap (hlt a), hof]

@[simp] theorem ntohs_htons (x : UInt16) : ntohs (htons x) = x :=
  ofNat_byteSwap_twice (fun a => a.toNat_lt) (fun _ => UInt16.ofNat_toNat)
    (fun _ h => UInt16.toNat_ofNat_of_lt' h) x

@[simp] theorem ntohl_htonl (x : UInt32) : ntohl (htonl x) = x :=
  ofNat_byteSwap_twice (fun a => a.toNat_lt) (fun _ => UInt32.ofNat_toNat)
    (fun _ h => UInt32.toNat_ofNat_of_lt' h) x

@[simp] theorem networkToHostU64_hostToNetworkU64 (x : UInt64) :
    networkToHostU64 (hostToNetworkU64 x) = x :=
  ofNat_byteSwap_twice (fun a => a.toNat_lt) (fun _ => UInt64.ofNat_toNat)
    (fun _ h => UInt64.toNat_ofNat_of_lt' h) x

@[simp] theorem htons_ntohs (x : UInt16) : htons (ntohs x) = x := ntohs_htons x
@[simp] theorem htonl_ntohl (x : UInt32) : htonl (ntohl x) = x := ntohl_htonl x
@[simp] theorem hostToNetworkU64_networkToHostU64 (x : UInt64) :
    hostToNetworkU64 (networkToHostU64 x) = x := networkToHostU64_hostToNetworkU64 x

/-! ## Making messages -/

def makePacketHeader (seqNum : UInt32) (msgCount : UInt16) (publishTsc : UInt64) :
    PacketHeader where
  seqNum := htonl seqNum
  msgCount := htons msgCount
  publishTsc := hostToNetworkU64 publishTsc

def makeAddOrderMsg (orderId : UInt64) (side : Side) (price quantity : UInt32) : AddOrderMsg where
  msgType := MessageType.addOrder.toChar
  orderId := hostToNetworkU64 orderId
  side := side.toChar
  price := htonl price
  quantity := htonl quantity

def makeModifyOrderMsg (orderId : UInt64) (price quantity : UInt32) : ModifyOrderMsg where
  msgType := MessageType.modifyOrder.toChar
  orderId := hostToNetworkU64 orderId
  price := htonl price
  quantity := htonl quantity

def makeDeleteOrderMsg (orderId : UInt64) : DeleteOrderMsg where
  msgType := MessageType.deleteOrder.toChar
  orderId := hostToNetworkU64 orderId

def makeTradeMsg (orderId : UInt64) (price quantity : UInt32) : TradeMsg where
  msgType := MessageType.trade.toChar
  orderId := hostToNetworkU64 orderId
  price := htonl price
  quantity := htonl quantity

/-! ## Reading fields -/

def decodeSeqNum (header : PacketHeader) : UInt32 := ntohl header.seqNum
def decodeMsgCount (header : PacketHeader) : UInt16 := ntohs header.msgCount
def decodePublishTsc (header : PacketHeader) : UInt64 := networkToHostU64 header.publishTsc

def AddOrderMsg.decodeSide (message : AddOrderMsg) : Option Side := sideFromChar message.side

def AddOrderMsg.decodeOrderId (message : AddOrderMsg) : UInt64 := networkToHostU64 message.orderId
def ModifyOrderMsg.decodeOrderId (message : ModifyOrderMsg) : UInt64 :=
  networkToHostU64 message.orderId
def DeleteOrderMsg.decodeOrderId (message : DeleteOrderMsg) : UInt64 :=
  networkToHostU64 message.orderId
def TradeMsg.decodeOrderId (message : TradeMsg) : UInt64 := networkToHostU64 message.orderId

def AddOrderMsg.decodePrice (message : AddOrderMsg) : UInt32 := ntohl message.price
def ModifyOrderMsg.decodePrice (message : ModifyOrderMsg) : UInt32 := ntohl message.price
def TradeMsg.decodePrice (message : TradeMsg) : UInt32 := ntohl message.price

def AddOrderMsg.decodeQuantity (message : AddOrderMsg) : UInt32 := ntohl message.quantity
def ModifyOrderMsg.decodeQuantity (message : ModifyOrderMsg) : UInt32 := ntohl message.quantity
def TradeMsg.decodeQuantity (message : TradeMsg) : UInt32 := ntohl message.quantity

/-! ## Messages -/

inductive Message
  | addOrder (wire : AddOrderMsg)
  | modifyOrder (wire : ModifyOrderMsg)
  | deleteOrder (wire : DeleteOrderMsg)
  | trade (wire : TradeMsg)
deriving DecidableEq

/-- A view points at a message inside a buffer; here it is the message read there. -/
abbrev MessageView := Message

/-- What `copy_wire` copies. -/
def Message.wireBytes : Message → Bytes
  | .addOrder m => AddOrderMsg.layout.store m
  | .modifyOrder m => ModifyOrderMsg.layout.store m
  | .deleteOrder m => DeleteOrderMsg.layout.store m
  | .trade m => TradeMsg.layout.store m

@[simp] theorem Message.length_wireBytes (m : Message) :
    m.wireBytes.length = kFixedMessageSize := by
  cases m <;> simp [Message.wireBytes]

def Message.type : Message → MessageType
  | .addOrder _ => .addOrder
  | .modifyOrder _ => .modifyOrder
  | .deleteOrder _ => .deleteOrder
  | .trade _ => .trade

/-- The order a message names. -/
def Message.orderId : Message → UInt64
  | .addOrder m => m.decodeOrderId
  | .modifyOrder m => m.decodeOrderId
  | .deleteOrder m => m.decodeOrderId
  | .trade m => m.decodeOrderId

end Bmdfh.Protocol
