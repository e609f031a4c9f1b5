import Bmdfh.Protocol.Wire

/-!
# Packets

`parse_packet`, `message_at` and `serialize_packet` of `protocol.cpp`. A pointer into a buffer is
the rest of the buffer from there on, so `as_wire` is `Layout.load` and `copy_wire` is `writeAt`.
A thrown `std::runtime_error` is its text.

`parsePacket_eq_some`, `messageAt_eq_some` and `serializePacket_eq` say what the three compute.
-/

namespace Bmdfh.Protocol

open Packed

abbrev RuntimeError := String

structure PacketView where
  header : PacketHeader
  messageBytes : Bytes
deriving DecidableEq

def packetSizeBytes (msgCount : UInt16) : Nat :=
  PacketHeader.layout.size + msgCount.toNat * kFixedMessageSize

def parsePacket (bytes : Bytes) : Option PacketView :=
  if bytes.length < PacketHeader.layout.size then none
  else
    let header := PacketHeader.layout.load (bytes.take PacketHeader.layout.size)
    if bytes.length ≠ packetSizeBytes (decodeMsgCount header) then none
    else some { header, messageBytes := bytes.drop PacketHeader.layout.size }

/-- The `index`-th slot of the message bytes. -/
def PacketView.slot (packet : PacketView) (index : Nat) : Bytes :=
  (packet.messageBytes.drop (index * kFixedMessageSize)).take kFixedMessageSize

/-- The `switch` of `message_at` on a slot's first byte. -/
def readSlot (chunk : Bytes) : Option MessageView :=
  match chunk with
  | [] => none
  | front :: _ =>
    match messageTypeFromChar front with
    | none => none
    | some .addOrder =>
      let add := AddOrderMsg.layout.load chunk
      if (sideFromChar add.side).isNone then none else some (.addOrder add)
    | some .modifyOrder => some (.modifyOrder (ModifyOrderMsg.layout.load chunk))
    | some .deleteOrder => some (.deleteOrder (DeleteOrderMsg.layout.load chunk))
    | some .trade => some (.trade (TradeMsg.layout.load chunk))

def messageAt (packet : PacketView) (index : Nat) : Option MessageView :=
  if (decodeMsgCount packet.header).toNat ≤ index then none else readSlot (packet.slot index)

/-- The loop of `serialize_packet`: each message at `cursor`, one slot after the other. -/
def copyMessages (bytes : Bytes) (cursor : Nat) : List Message → Bytes
  | [] => bytes
  | message :: messages =>
    copyMessages (writeAt bytes cursor message.wireBytes) (cursor + kFixedMessageSize) messages

def serializePacket (seqNum : UInt32) (messages : List Message) (publishTsc : UInt64) :
    Except RuntimeError Bytes :=
  if messages.length > UInt16.size - 1 then throw "too many messages in one packet"
  else
    let msgCount := UInt16.ofNat messages.length
    let bytes := List.replicate (packetSizeBytes msgCount) 0
    let header := makePacketHeader seqNum msgCount publishTsc
    let bytes := writeAt bytes 0 (PacketHeader.layout.store header)
    pure (copyMessages bytes PacketHeader.layout.size messages)

/-- The messages of the slots that `messageAt` accepts, in order. -/
def PacketView.messages (packet : PacketView) : List Message :=
  (List.range (decodeMsgCount packet.header).toNat).filterMap (messageAt packet)

/-! ## Parsing -/

/-- A packet is its header and `msg_count` slots. -/
theorem parsePacket_eq_some {bytes : Bytes} {packet : PacketView} :
    parsePacket bytes = some packet ↔
      bytes = PacketHeader.layout.store packet.header ++ packet.messageBytes ∧
        packet.messageBytes.length = (decodeMsgCount packet.header).toNat * kFixedMessageSize := by
  constructor
  · intro h
    unfold parsePacket at h
    split at h
    · cases h
    rename_i hlen
    dsimp only at h
    split at h
    · cases h
    rename_i hsize
    simp only [Option.some.injEq] at h
    subst h
    rw [size_packetHeader] at hlen
    have ht : (bytes.take 14).length = PacketHeader.layout.size := by
      rw [List.length_take, size_packetHeader]
      omega
    refine ⟨?_, ?_⟩
    · show bytes = PacketHeader.layout.store (PacketHeader.layout.load (bytes.take 14)) ++ _
      rw [PacketHeader.layout.store_load_self ht]
      exact (List.take_append_drop 14 bytes).symm
    · simp only [packetSizeBytes, size_packetHeader, ne_eq, Decidable.not_not] at hsize
      simp only [List.length_drop, size_packetHeader]
      omega
  · rintro ⟨rfl, hl⟩
    have hH : (PacketHeader.layout.store packet.header).length = PacketHeader.layout.size := by simp
    unfold parsePacket
    rw [List.take_left' hH, List.drop_left' hH, Layout.load_store_self, List.length_append, hH, hl]
    simp [packetSizeBytes]

/-- The type byte is the message's own and an `AddOrder` has a side. -/
def Message.WellFormed : Message → Prop
  | .addOrder m => m.msgType = MessageType.addOrder.toChar ∧ (sideFromChar m.side).isSome
  | .modifyOrder m => m.msgType = MessageType.modifyOrder.toChar
  | .deleteOrder m => m.msgType = MessageType.deleteOrder.toChar
  | .trade m => m.msgType = MessageType.trade.toChar

instance : DecidablePred Message.WellFormed
  | .addOrder _ => inferInstanceAs (Decidable (_ ∧ _))
  | .modifyOrder _ => inferInstanceAs (Decidable (_ = _))
  | .deleteOrder _ => inferInstanceAs (Decidable (_ = _))
  | .trade _ => inferInstanceAs (Decidable (_ = _))

/-! ## Slots -/

theorem messageTypeFromChar_eq_some {c : UInt8} {t : MessageType} :
    messageTypeFromChar c = some t ↔ c = t.toChar := by
  constructor
  · intro h
    unfold messageTypeFromChar at h
    split at h
    · rename_i hc
      cases h
      exact hc
    split at h
    · rename_i hc
      cases h
      exact hc
    split at h
    · rename_i hc
      cases h
      exact hc
    split at h
    · rename_i hc
      cases h
      exact hc
    · cases h
  · rintro rfl
    exact messageTypeFromChar_toChar t

/-- A structure's first field is its first byte. -/
theorem load_u8_cons (b : UInt8) (bs : Bytes) : Layout.u8.load (b :: bs) = b := by
  simp [Layout.u8, Layout.word, ofLeBytes]

theorem store_u8 (b : UInt8) : Layout.u8.store b = [b] := by
  simp [Layout.u8, Layout.word, leBytes]

/-- A well-formed message starts with the byte of its type. -/
theorem Message.WellFormed.wireBytes {m : Message} (h : m.WellFormed) :
    ∃ t rest, m.wireBytes = t :: rest ∧ messageTypeFromChar t = some m.type := by
  cases m with
  | addOrder w => exact ⟨w.msgType, _, congrArg (· ++ _) (store_u8 _), by rw [h.1]; rfl⟩
  | modifyOrder w => exact ⟨w.msgType, _, congrArg (· ++ _) (store_u8 _), by rw [h]; rfl⟩
  | deleteOrder w => exact ⟨w.msgType, _, congrArg (· ++ _) (store_u8 _), by rw [h]; rfl⟩
  | trade w => exact ⟨w.msgType, _, congrArg (· ++ _) (store_u8 _), by rw [h]; rfl⟩

theorem readSlot_wireBytes {m : Message} (h : m.WellFormed) : readSlot m.wireBytes = some m := by
  obtain ⟨t, rest, hm, ht⟩ := h.wireBytes
  unfold readSlot
  rw [hm]
  dsimp only
  rw [ht, ← hm]
  cases m with
  | addOrder w =>
    obtain ⟨s, hs⟩ := Option.isSome_iff_exists.1 h.2
    simp [Message.type, Message.wireBytes, hs]
  | _ => simp [Message.type, Message.wireBytes]

/-- A slot is read as the well-formed message whose bytes it holds. -/
theorem readSlot_eq_some {chunk : Bytes} {m : Message} (hc : chunk.length = kFixedMessageSize) :
    readSlot chunk = some m ↔ chunk = m.wireBytes ∧ m.WellFormed := by
  constructor
  · intro h
    unfold readSlot at h
    split at h
    · cases h
    rename_i front rest
    split at h
    · cases h
    · rename_i ht
      rw [messageTypeFromChar_eq_some] at ht
      dsimp only at h
      split at h
      · cases h
      rename_i hs
      cases h
      refine ⟨(AddOrderMsg.layout.store_load_self hc).symm, (load_u8_cons front rest).trans ht, ?_⟩
      rwa [Option.isNone_iff_eq_none, ← ne_eq, Option.ne_none_iff_isSome] at hs
    all_goals
      rename_i ht
      rw [messageTypeFromChar_eq_some] at ht
      cases h
      exact ⟨(Layout.store_load_self _ hc).symm, (load_u8_cons front rest).trans ht⟩
  · rintro ⟨rfl, hw⟩
    exact readSlot_wireBytes hw

theorem length_slot {packet : PacketView} {n i : Nat}
    (hl : packet.messageBytes.length = n * kFixedMessageSize) (hi : i < n) :
    (packet.slot i).length = kFixedMessageSize := by
  have : (i + 1) * kFixedMessageSize ≤ n * kFixedMessageSize := Nat.mul_le_mul_right _ hi
  rw [Nat.succ_mul] at this
  rw [PacketView.slot, List.length_take, List.length_drop]
  omega

theorem messageAt_eq_some {packet : PacketView} {i : Nat} {m : Message}
    (hl : packet.messageBytes.length
      = (decodeMsgCount packet.header).toNat * kFixedMessageSize) :
    messageAt packet i = some m ↔
      i < (decodeMsgCount packet.header).toNat ∧ packet.slot i = m.wireBytes ∧ m.WellFormed := by
  unfold messageAt
  split
  · rename_i hi
    simp only [reduceCtorEq, false_iff]
    omega
  · rename_i hi
    rw [readSlot_eq_some (length_slot hl (by omega))]
    constructor
    · exact fun h => ⟨by omega, h⟩
    · exact fun h => h.2

/-! ## Serializing -/

theorem length_flatMap_wireBytes (ms : List Message) :
    (ms.flatMap Message.wireBytes).length = ms.length * kFixedMessageSize := by
  induction ms with
  | nil => simp
  | cons m ms ih =>
    rw [List.flatMap_cons, List.length_append, ih, Message.length_wireBytes, List.length_cons,
      Nat.succ_mul, Nat.add_comm]

/-- The loop writes the messages one after the other. -/
theorem copyMessages_eq {bytes : Bytes} {cursor : Nat} (ms : List Message)
    (h : cursor + ms.length * kFixedMessageSize ≤ bytes.length) :
    copyMessages bytes cursor ms = writeAt bytes cursor (ms.flatMap Message.wireBytes) := by
  induction ms generalizing bytes cursor with
  | nil => simp [copyMessages]
  | cons m ms ih =>
    have hm := m.length_wireBytes
    rw [List.length_cons, Nat.succ_mul] at h
    have hw : cursor + m.wireBytes.length ≤ bytes.length := by omega
    rw [copyMessages, ih (by rw [length_writeAt hw]; omega), List.flatMap_cons, ← hm,
      writeAt_writeAt hw]

/-- A serialized packet is its header and its messages. -/
theorem serializePacket_eq {seqNum : UInt32} {ms : List Message} {publishTsc : UInt64}
    (h : ms.length < UInt16.size) :
    serializePacket seqNum ms publishTsc = .ok
      (PacketHeader.layout.store (makePacketHeader seqNum (UInt16.ofNat ms.length) publishTsc)
        ++ ms.flatMap Message.wireBytes) := by
  have hn : (UInt16.ofNat ms.length).toNat = ms.length := UInt16.toNat_ofNat_of_lt' h
  have hsz : packetSizeBytes (UInt16.ofNat ms.length) = 14 + ms.length * kFixedMessageSize := by
    simp [packetSizeBytes, hn]
  have hms := length_flatMap_wireBytes ms
  generalize hH : PacketHeader.layout.store
    (makePacketHeader seqNum (UInt16.ofNat ms.length) publishTsc) = header
  have hl : header.length = 14 := by simp [← hH]
  generalize hb : List.replicate (packetSizeBytes (UInt16.ofNat ms.length)) (0 : UInt8) = buffer
  have hbl : buffer.length = 14 + ms.length * kFixedMessageSize := by
    rw [← hb, List.length_replicate, hsz]
  unfold serializePacket
  rw [if_neg (by omega)]
  dsimp only
  rw [hH, hb, size_packetHeader, copyMessages_eq _ (by rw [length_writeAt] <;> omega), ← hl]
  have hw := writeAt_writeAt (b := ms.flatMap Message.wireBytes)
    (show 0 + header.length ≤ buffer.length by omega)
  rw [Nat.zero_add] at hw
  rw [hw, writeAt_whole (by rw [List.length_append]; omega)]
  rfl

end Bmdfh.Protocol
