import Bmdfh.Protocol.Packet

/-!
# The wire codec is a bijection

`Fields` are the host values a message is made from. Serializing made messages and parsing the
result gives every value back (`parsePacket_serialized`, `messageAt_serialized`); serializing what
an accepted packet decodes to gives its bytes back (`serializePacket_messages`).
-/

namespace Bmdfh.Protocol

open Packed

/-! ## Host values -/

/-- The host values a message is made from. -/
inductive Fields
  | addOrder (orderId : UInt64) (side : Side) (price quantity : UInt32)
  | modifyOrder (orderId : UInt64) (price quantity : UInt32)
  | deleteOrder (orderId : UInt64)
  | trade (orderId : UInt64) (price quantity : UInt32)
deriving DecidableEq

def Fields.make : Fields → Message
  | .addOrder i s p q => .addOrder (makeAddOrderMsg i s p q)
  | .modifyOrder i p q => .modifyOrder (makeModifyOrderMsg i p q)
  | .deleteOrder i => .deleteOrder (makeDeleteOrderMsg i)
  | .trade i p q => .trade (makeTradeMsg i p q)

/-- What the `decode_*` functions read off a message. -/
def Message.fields : Message → Option Fields
  | .addOrder m =>
    m.decodeSide.map fun s => .addOrder m.decodeOrderId s m.decodePrice m.decodeQuantity
  | .modifyOrder m => some (.modifyOrder m.decodeOrderId m.decodePrice m.decodeQuantity)
  | .deleteOrder m => some (.deleteOrder m.decodeOrderId)
  | .trade m => some (.trade m.decodeOrderId m.decodePrice m.decodeQuantity)

@[simp] theorem Fields.fields_make (f : Fields) : f.make.fields = some f := by
  cases f <;>
    simp [Fields.make, Message.fields, makeAddOrderMsg, makeModifyOrderMsg, makeDeleteOrderMsg,
      makeTradeMsg, AddOrderMsg.decodeSide, AddOrderMsg.decodeOrderId, AddOrderMsg.decodePrice,
      AddOrderMsg.decodeQuantity, ModifyOrderMsg.decodeOrderId, ModifyOrderMsg.decodePrice,
      ModifyOrderMsg.decodeQuantity, DeleteOrderMsg.decodeOrderId, TradeMsg.decodeOrderId,
      TradeMsg.decodePrice, TradeMsg.decodeQuantity]

theorem Fields.wellFormed_make (f : Fields) : f.make.WellFormed := by
  cases f with
  | addOrder i s p q => exact ⟨rfl, by simp [makeAddOrderMsg]⟩
  | _ => rfl

/-! ## Equal blocks -/

/-- Block `i` of a concatenation of blocks of `k` elements. -/
theorem block_flatMap {α β : Type} {f : α → List β} {k : Nat} (hf : ∀ a, (f a).length = k) :
    ∀ (l : List α) (i : Nat) (h : i < l.length), ((l.flatMap f).drop (i * k)).take k = f l[i]
  | a :: l, 0, _ => by simp [List.take_left' (hf a)]
  | a :: l, i + 1, h => by
    have ih := block_flatMap hf l i (by simpa using h)
    rw [List.flatMap_cons, Nat.succ_mul, Nat.add_comm, ← List.drop_drop, List.drop_left' (hf a), ih]
    rfl

/-- A list of `n * k` elements is the concatenation of its blocks. -/
theorem flatMap_blocks {β : Type} (k : Nat) :
    ∀ (n : Nat) (l : List β), l.length = n * k →
      (List.range n).flatMap (fun i => (l.drop (i * k)).take k) = l
  | 0, l, h => by simp_all
  | n + 1, l, h => by
    rw [Nat.succ_mul] at h
    have ih := flatMap_blocks k n (l.drop k) (by rw [List.length_drop]; omega)
    rw [List.range_succ_eq_map, List.flatMap_cons, List.flatMap_map]
    simp only [Nat.succ_eq_add_one, Nat.succ_mul, Nat.add_comm _ k, ← List.drop_drop]
    rw [ih, Nat.zero_mul, List.drop_zero, List.take_append_drop]

/-! ## From values to bytes and back -/

section
variable (seqNum : UInt32) (publishTsc : UInt64) {ms : List Message}

/-- A serialized packet is accepted, with its header and its messages' bytes. -/
theorem parsePacket_serialized (h : ms.length < UInt16.size) :
    parsePacket (PacketHeader.layout.store
      (makePacketHeader seqNum (UInt16.ofNat ms.length) publishTsc)
        ++ ms.flatMap Message.wireBytes) =
      some ⟨makePacketHeader seqNum (UInt16.ofNat ms.length) publishTsc,
        ms.flatMap Message.wireBytes⟩ := by
  have hn : (UInt16.ofNat ms.length).toNat = ms.length := UInt16.toNat_ofNat_of_lt' h
  rw [parsePacket_eq_some]
  refine ⟨rfl, ?_⟩
  rw [length_flatMap_wireBytes, decodeMsgCount, makePacketHeader, ntohs_htons, hn]

/-- Its slots hold the messages. -/
theorem messageAt_serialized (h : ms.length < UInt16.size) (hw : ∀ m ∈ ms, m.WellFormed) (i : Nat) :
    messageAt ⟨makePacketHeader seqNum (UInt16.ofNat ms.length) publishTsc,
      ms.flatMap Message.wireBytes⟩ i = ms[i]? := by
  have hn : (decodeMsgCount (makePacketHeader seqNum (UInt16.ofNat ms.length) publishTsc)).toNat
      = ms.length := by
    simpa [decodeMsgCount, makePacketHeader] using UInt16.toNat_ofNat_of_lt' h
  by_cases hi : i < ms.length
  · rw [List.getElem?_eq_getElem hi, messageAt_eq_some (by rw [length_flatMap_wireBytes, hn])]
    refine ⟨by rw [hn]; exact hi, ?_, hw _ (List.getElem_mem hi)⟩
    exact block_flatMap Message.length_wireBytes ms i hi
  · rw [List.getElem?_eq_none (by omega), messageAt]
    exact if_pos (by rw [hn]; omega)

end

/-! ## From bytes to values and back -/

theorem flatMap_filterMap {α β γ : Type} {f : α → Option β} {g : β → List γ} {s : α → List γ} :
    ∀ l : List α, (∀ a ∈ l, ∃ b, f a = some b ∧ s a = g b) → (l.filterMap f).flatMap g = l.flatMap s
  | [], _ => rfl
  | a :: l, h => by
    obtain ⟨b, hb, hs⟩ := h a (.head _)
    rw [List.filterMap_cons_some hb, List.flatMap_cons, List.flatMap_cons, hs,
      flatMap_filterMap l fun a ha => h a (.tail _ ha)]

section
variable {bytes : Bytes} {packet : PacketView}

/-- Every slot of an accepted packet is accepted. -/
def PacketView.Complete (packet : PacketView) : Prop :=
  ∀ i < (decodeMsgCount packet.header).toNat, (messageAt packet i).isSome

theorem messages_eq_map (hc : packet.Complete) :
    packet.messages.map some = (List.range (decodeMsgCount packet.header).toNat).map
      (messageAt packet) := by
  unfold PacketView.messages
  generalize hl : List.range (decodeMsgCount packet.header).toNat = l
  have hs : ∀ i ∈ l, (messageAt packet i).isSome := fun i hi => hc i (by simpa [← hl] using hi)
  clear hl
  induction l with
  | nil => rfl
  | cons i l ih =>
    obtain ⟨m, hm⟩ := Option.isSome_iff_exists.1 (hs i (.head _))
    rw [List.filterMap_cons_some hm, List.map_cons, List.map_cons, hm,
      ih fun i hi => hs i (.tail _ hi)]

/-- The messages of a complete packet are its slots, in order. -/
theorem length_messages (hc : packet.Complete) :
    packet.messages.length = (decodeMsgCount packet.header).toNat := by
  simpa using congrArg List.length (messages_eq_map hc)

theorem getElem?_messages (hc : packet.Complete) (i : Nat) :
    packet.messages[i]? = messageAt packet i := by
  have h := congrArg (·[i]?) (messages_eq_map hc)
  simp only [List.getElem?_map] at h
  by_cases hi : i < (decodeMsgCount packet.header).toNat
  · rw [List.getElem?_range hi, Option.map_some] at h
    cases hm : packet.messages[i]? with
    | none => rw [hm] at h; cases h
    | some m => rw [hm, Option.map_some, Option.some.injEq] at h; exact h
  · rw [List.getElem?_eq_none (by rw [length_messages hc]; omega), messageAt]
    exact (if_pos (by omega)).symm

/-- Serializing what a complete packet decodes to. -/
theorem serializePacket_messages (hp : parsePacket bytes = some packet) (hc : packet.Complete) :
    serializePacket (decodeSeqNum packet.header) packet.messages (decodePublishTsc packet.header)
      = .ok bytes := by
  obtain ⟨hbytes, hl⟩ := parsePacket_eq_some.1 hp
  have hlen := length_messages hc
  have hslots : packet.messages.flatMap Message.wireBytes = packet.messageBytes := by
    rw [← flatMap_blocks _ _ _ hl]
    refine flatMap_filterMap _ fun i hi => ?_
    obtain ⟨m, hm⟩ := Option.isSome_iff_exists.1 (hc i (by simpa using hi))
    exact ⟨m, hm, ((messageAt_eq_some hl).1 hm).2.1⟩
  have hheader : makePacketHeader (decodeSeqNum packet.header) (UInt16.ofNat packet.messages.length)
      (decodePublishTsc packet.header) = packet.header := by
    simp [makePacketHeader, decodeSeqNum, decodePublishTsc, hlen, decodeMsgCount]
  rw [serializePacket_eq (by rw [hlen]; exact (decodeMsgCount packet.header).toNat_lt), hslots,
    hheader, ← hbytes]

end

/-! ## The bijection -/

/-- **The wire codec is a bijection on its format**: made messages come back from their packet
field by field, and an accepted packet comes back from its decoded values byte by byte. -/
theorem codec_bijection :
    (∀ (seqNum : UInt32) (publishTsc : UInt64) (fs : List Fields), fs.length ≤ 65535 →
      ∃ bytes packet, serializePacket seqNum (fs.map Fields.make) publishTsc = .ok bytes ∧
        parsePacket bytes = some packet ∧ decodeSeqNum packet.header = seqNum ∧
        (decodeMsgCount packet.header).toNat = fs.length ∧
        decodePublishTsc packet.header = publishTsc ∧
        (∀ (i : Nat) (h : i < fs.length),
          ∃ m, messageAt packet i = some m ∧ m.fields = some fs[i]) ∧
        ∀ i, fs.length ≤ i → messageAt packet i = none) ∧
    ∀ (bytes : Bytes) (packet : PacketView), parsePacket bytes = some packet →
      (∀ i < (decodeMsgCount packet.header).toNat, (messageAt packet i).isSome) →
      (∀ i, packet.messages[i]? = messageAt packet i) ∧
        serializePacket (decodeSeqNum packet.header) packet.messages
          (decodePublishTsc packet.header) = .ok bytes := by
  constructor
  · intro seqNum publishTsc fs hfs
    have hlt : (fs.map Fields.make).length < UInt16.size := by
      rw [List.length_map]
      exact Nat.lt_succ_of_le hfs
    have hw : ∀ m ∈ fs.map Fields.make, m.WellFormed := by
      intro m hm
      obtain ⟨f, -, rfl⟩ := List.mem_map.1 hm
      exact f.wellFormed_make
    have hat := messageAt_serialized seqNum publishTsc hlt hw
    refine ⟨_, _, serializePacket_eq hlt, parsePacket_serialized _ _ hlt, ?_, ?_, ?_, ?_, ?_⟩
    · simp [decodeSeqNum, makePacketHeader]
    · simpa [decodeMsgCount, makePacketHeader] using UInt16.toNat_ofNat_of_lt' hlt
    · simp [decodePublishTsc, makePacketHeader]
    · intro i hi
      exact ⟨fs[i].make, by rw [hat]; simp [hi], fs[i].fields_make⟩
    · intro i hi
      rw [hat]
      simpa using hi
  · intro bytes packet hp hc
    exact ⟨getElem?_messages hc, serializePacket_messages hp hc⟩

/-- An order sold and deleted, to bytes and back, and to bytes again. -/
theorem codec_bijection_of_add_delete : ∃ bytes packet,
    serializePacket 7 ([Fields.addOrder 1 .sell 10001 250, .deleteOrder 1].map Fields.make) 99
      = .ok bytes ∧ parsePacket bytes = some packet ∧ (decodeMsgCount packet.header).toNat = 2 ∧
      serializePacket 7 packet.messages 99 = .ok bytes := by
  obtain ⟨bytes, packet, hs, hp, hseq, hcount, htsc, hslots, -⟩ := codec_bijection.1 7 99
    [.addOrder 1 .sell 10001 250, .deleteOrder 1] (by decide)
  have hc : ∀ i < (decodeMsgCount packet.header).toNat, (messageAt packet i).isSome := by
    intro i hi
    rw [hcount] at hi
    obtain ⟨m, hm, -⟩ := hslots i hi
    rw [hm]
    rfl
  have hback := (codec_bijection.2 bytes packet hp hc).2
  rw [hseq, htsc] at hback
  exact ⟨bytes, packet, hs, hp, hcount, hback⟩

end Bmdfh.Protocol
