import Bmdfh.Protocol.Packet

/-!
# The grammar of packets

Which byte strings `parse_packet` accepts and which slots `message_at` reads, in terms of the bytes
themselves: a count in bytes 4 and 5 that the length agrees with (`isSome_parsePacket`), and a slot
that starts with the byte of a type and, for an `AddOrder`, has that of a side at offset 9
(`isSome_messageAt`).

`checkedParsePacket` and `checkedMessageAt` are the two functions with every `subspan` and every
cast to a wire structure checked against the end of its span. They compute what the unchecked ones
do (`checkedParsePacket_eq`, `checkedMessageAt_eq`), so no read leaves its span.
-/

namespace Bmdfh.Protocol

open Packed

/-! ## Checked reads -/

/-- `subspan(offset, count)`; `none` where it would reach past the end. -/
def subspan (bytes : Bytes) (offset count : Nat) : Option Bytes :=
  if offset + count ≤ bytes.length then some ((bytes.drop offset).take count) else none

/-- `as_wire`; `none` where the structure would reach past the end. -/
def asWire {α : Type} (layout : Layout α) (bytes : Bytes) : Option α :=
  if layout.size ≤ bytes.length then some (layout.load bytes) else none

/-- `parse_packet`; the outer `none` is a read outside the bytes. -/
def checkedParsePacket (bytes : Bytes) : Option (Option PacketView) :=
  if bytes.length < PacketHeader.layout.size then some none
  else do
    let first ← subspan bytes 0 PacketHeader.layout.size
    let header ← asWire PacketHeader.layout first
    if bytes.length ≠ packetSizeBytes (decodeMsgCount header) then some none
    else
      let messageBytes ← subspan bytes PacketHeader.layout.size
        (bytes.length - PacketHeader.layout.size)
      some (some { header, messageBytes })

/-- The `switch` of `message_at`. -/
def checkedReadSlot (chunk : Bytes) : Option (Option MessageView) :=
  match chunk with
  | [] => some none
  | front :: _ =>
    match messageTypeFromChar front with
    | none => some none
    | some .addOrder =>
      (asWire AddOrderMsg.layout chunk).map fun add =>
        if (sideFromChar add.side).isNone then none else some (.addOrder add)
    | some .modifyOrder => (asWire ModifyOrderMsg.layout chunk).map fun m => some (.modifyOrder m)
    | some .deleteOrder => (asWire DeleteOrderMsg.layout chunk).map fun m => some (.deleteOrder m)
    | some .trade => (asWire TradeMsg.layout chunk).map fun m => some (.trade m)

/-- `message_at`; the outer `none` is a read outside the message bytes. -/
def checkedMessageAt (packet : PacketView) (index : Nat) : Option (Option MessageView) :=
  if (decodeMsgCount packet.header).toNat ≤ index then some none
  else
    (subspan packet.messageBytes (index * kFixedMessageSize) kFixedMessageSize).bind
      checkedReadSlot

theorem subspan_of_le {bytes : Bytes} {offset count : Nat} (h : offset + count ≤ bytes.length) :
    subspan bytes offset count = some ((bytes.drop offset).take count) := if_pos h

theorem asWire_of_le {α : Type} {layout : Layout α} {bytes : Bytes}
    (h : layout.size ≤ bytes.length) : asWire layout bytes = some (layout.load bytes) := if_pos h

theorem checkedParsePacket_eq (bytes : Bytes) :
    checkedParsePacket bytes = some (parsePacket bytes) := by
  unfold checkedParsePacket parsePacket
  by_cases hlen : bytes.length < PacketHeader.layout.size
  · rw [if_pos hlen, if_pos hlen]
  · have hfirst : subspan bytes 0 PacketHeader.layout.size
        = some (bytes.take PacketHeader.layout.size) := by
      rw [subspan_of_le (by omega), List.drop_zero]
    have hheader : asWire PacketHeader.layout (bytes.take PacketHeader.layout.size)
        = some (PacketHeader.layout.load (bytes.take PacketHeader.layout.size)) :=
      asWire_of_le (by rw [List.length_take]; omega)
    have hrest : subspan bytes PacketHeader.layout.size
        (bytes.length - PacketHeader.layout.size)
          = some (bytes.drop PacketHeader.layout.size) := by
      rw [subspan_of_le (by omega), List.take_of_length_le (by rw [List.length_drop])]
    simp only [hlen, hfirst, hheader, hrest, ↓reduceIte, Option.bind_eq_bind, Option.bind_some]
    split <;> rfl

/-- A slot of the right length is read within its bytes. -/
theorem checkedReadSlot_eq {chunk : Bytes} (hc : chunk.length = kFixedMessageSize) :
    checkedReadSlot chunk = some (readSlot chunk) := by
  cases chunk with
  | nil => rfl
  | cons front rest =>
    have hread : ∀ {α : Type} (layout : Layout α), layout.size = kFixedMessageSize →
        asWire layout (front :: rest) = some (layout.load (front :: rest)) :=
      fun _ hsize => asWire_of_le (by rw [hc, hsize])
    simp only [checkedReadSlot, readSlot]
    cases messageTypeFromChar front with
    | none => rfl
    | some t =>
      cases t with
      | addOrder => simp only [hread AddOrderMsg.layout rfl, Option.map_some]
      | modifyOrder => simp only [hread ModifyOrderMsg.layout rfl, Option.map_some]
      | deleteOrder => simp only [hread DeleteOrderMsg.layout rfl, Option.map_some]
      | trade => simp only [hread TradeMsg.layout rfl, Option.map_some]

section
variable {packet : PacketView} {n i : Nat}

/-- A slot of the packet ends within the message bytes. -/
theorem slot_in_bounds (hl : packet.messageBytes.length = n * kFixedMessageSize) (hi : i < n) :
    i * kFixedMessageSize + kFixedMessageSize ≤ packet.messageBytes.length := by
  rw [hl, ← Nat.succ_mul]
  exact Nat.mul_le_mul_right _ hi

theorem checkedMessageAt_eq (hl : packet.messageBytes.length
      = (decodeMsgCount packet.header).toNat * kFixedMessageSize) (i : Nat) :
    checkedMessageAt packet i = some (messageAt packet i) := by
  unfold checkedMessageAt messageAt
  split
  · rfl
  · rename_i hi
    rw [subspan_of_le (slot_in_bounds hl (by omega)), Option.bind_some]
    exact checkedReadSlot_eq (length_slot hl (by omega))

end

/-! ## The announced count -/

/-- The number in bytes 4 and 5, the most significant byte first. -/
def announcedMessages (bytes : Bytes) : Nat :=
  256 * (bytes.getD 4 0).toNat + (bytes.getD 5 0).toNat

theorem take_two_drop {bytes : Bytes} {i : Nat} (h : i + 2 ≤ bytes.length) :
    (bytes.drop i).take 2 = [bytes.getD i 0, bytes.getD (i + 1) 0] := by
  rw [List.drop_eq_getElem_cons (by omega), List.drop_eq_getElem_cons (by omega),
    List.getD_eq_getElem?_getD, List.getD_eq_getElem?_getD, List.getElem?_eq_getElem (by omega),
    List.getElem?_eq_getElem (by omega)]
  rfl

/-- The network order of two bytes in a host's word. -/
theorem toNat_ntohs_load {bytes : Bytes} {b₀ b₁ : UInt8} (h : bytes.take 2 = [b₀, b₁]) :
    (ntohs (Layout.u16.load bytes)).toNat = 256 * b₀.toNat + b₁.toNat := by
  have hlow : ofLeBytes [b₀, b₁] < 256 ^ 2 := ofLeBytes_lt [b₀, b₁]
  have hswap : byteSwap 2 (ofLeBytes [b₀, b₁]) = ofLeBytes [b₁, b₀] :=
    byteSwap_ofLeBytes [b₀, b₁]
  have hhigh := byteSwap_lt 2 (ofLeBytes [b₀, b₁])
  show (UInt16.ofNat (byteSwap 2 (UInt16.ofNat (ofLeBytes (bytes.take 2))).toNat)).toNat = _
  rw [h, UInt16.toNat_ofNat_of_lt' hlow, UInt16.toNat_ofNat_of_lt' hhigh]
  rw [hswap, ofLeBytes_cons, ofLeBytes_cons, ofLeBytes, List.foldr_nil]
  omega

theorem decodeMsgCount_load {bytes : Bytes} (h : PacketHeader.layout.size ≤ bytes.length) :
    (decodeMsgCount (PacketHeader.layout.load (bytes.take PacketHeader.layout.size))).toNat
      = announcedMessages bytes := by
  rw [size_packetHeader] at h ⊢
  refine toNat_ntohs_load ?_
  show ((bytes.take 14).drop 4).take 2 = _
  rw [List.drop_take, List.take_take]
  exact take_two_drop (by omega)

/-- The parts of an accepted packet. -/
theorem parsePacket_parts {bytes : Bytes} {packet : PacketView}
    (h : parsePacket bytes = some packet) :
    packet.messageBytes = bytes.drop 14 ∧
      (decodeMsgCount packet.header).toNat = announcedMessages bytes := by
  obtain ⟨rfl, -⟩ := parsePacket_eq_some.1 h
  have hheader := PacketHeader.layout.length_store packet.header
  constructor
  · exact (List.drop_left' hheader).symm
  · rw [← decodeMsgCount_load (by rw [List.length_append, hheader]; exact Nat.le_add_right _ _),
      List.take_left' hheader, Layout.load_store_self]

/-- **What is accepted**: a header, and as many slots as it announces. -/
theorem isSome_parsePacket {bytes : Bytes} :
    (parsePacket bytes).isSome ↔
      14 ≤ bytes.length ∧ bytes.length = 14 + 24 * announcedMessages bytes := by
  rw [Option.isSome_iff_exists]
  constructor
  · rintro ⟨packet, hp⟩
    obtain ⟨heq, hl⟩ := parsePacket_eq_some.1 hp
    have hlen := congrArg List.length heq
    rw [List.length_append, PacketHeader.layout.length_store, size_packetHeader, hl,
      (parsePacket_parts hp).2, kFixedMessageSize] at hlen
    omega
  · rintro ⟨hmin, hlen⟩
    have hcount := decodeMsgCount_load hmin
    have htake : (bytes.take 14).length = PacketHeader.layout.size := by
      rw [List.length_take, size_packetHeader]
      omega
    refine ⟨⟨PacketHeader.layout.load (bytes.take 14), bytes.drop 14⟩,
      parsePacket_eq_some.2 ⟨?_, ?_⟩⟩
    · rw [PacketHeader.layout.store_load_self htake, List.take_append_drop]
    · rw [size_packetHeader] at hcount
      rw [hcount, List.length_drop, kFixedMessageSize]
      omega

/-! ## Slots -/

theorem isSome_messageTypeFromChar {c : UInt8} :
    (messageTypeFromChar c).isSome ↔
      c = 'A'.toUInt8 ∨ c = 'M'.toUInt8 ∨ c = 'D'.toUInt8 ∨ c = 'T'.toUInt8 := by
  rw [Option.isSome_iff_exists]
  constructor
  · rintro ⟨t, ht⟩
    obtain rfl := messageTypeFromChar_eq_some.1 ht
    cases t with
    | addOrder => exact .inl rfl
    | modifyOrder => exact .inr (.inl rfl)
    | deleteOrder => exact .inr (.inr (.inl rfl))
    | trade => exact .inr (.inr (.inr rfl))
  · rintro (rfl | rfl | rfl | rfl)
    · exact ⟨.addOrder, rfl⟩
    · exact ⟨.modifyOrder, rfl⟩
    · exact ⟨.deleteOrder, rfl⟩
    · exact ⟨.trade, rfl⟩

theorem isSome_sideFromChar {c : UInt8} :
    (sideFromChar c).isSome ↔ c = 'B'.toUInt8 ∨ c = 'S'.toUInt8 := by
  unfold sideFromChar
  split
  · rename_i hc
    simp [hc, Side.toChar]
  · rename_i hb
    split
    · rename_i hc
      simp [hc, Side.toChar]
    · rename_i hs
      simpa [Side.toChar] using And.intro hb hs

/-- What the grammar asks of the slot that starts at `start`. -/
def SlotAccepted (messageBytes : Bytes) (start : Nat) : Prop :=
  ∃ front, messageBytes[start]? = some front ∧
    (front = 'A'.toUInt8 ∨ front = 'M'.toUInt8 ∨ front = 'D'.toUInt8 ∨ front = 'T'.toUInt8) ∧
    (front = 'A'.toUInt8 →
      messageBytes[start + 9]? = some 'B'.toUInt8 ∨ messageBytes[start + 9]? = some 'S'.toUInt8)

/-- The side of an `AddOrder` is its byte 9. -/
theorem side_load {chunk : Bytes} {side : UInt8} (h : chunk[9]? = some side) :
    (AddOrderMsg.layout.load chunk).side = side := by
  obtain ⟨hlen, rfl⟩ := List.getElem?_eq_some_iff.1 h
  show Layout.u8.load ((chunk.drop 1).drop 8) = _
  rw [List.drop_drop, List.drop_eq_getElem_cons hlen]
  exact load_u8_cons _ _

theorem isSome_readSlot {chunk : Bytes} (hc : chunk.length = kFixedMessageSize) :
    (readSlot chunk).isSome ↔ SlotAccepted chunk 0 := by
  unfold kFixedMessageSize at hc
  obtain ⟨side, hside⟩ : ∃ side, chunk[9]? = some side :=
    ⟨_, List.getElem?_eq_getElem (show 9 < chunk.length by omega)⟩
  cases chunk with
  | nil => cases hc
  | cons front rest =>
    simp only [SlotAccepted, List.getElem?_cons_zero, Option.some.injEq, exists_eq_left',
      Nat.zero_add, hside]
    rw [← isSome_messageTypeFromChar, ← isSome_sideFromChar]
    cases ht : messageTypeFromChar front with
    | none => simp [readSlot, ht]
    | some t =>
      have hadd : front = 'A'.toUInt8 ↔ t = .addOrder := by
        rw [messageTypeFromChar_eq_some.1 ht]
        cases t <;> decide
      simp only [readSlot, ht, hadd]
      cases t with
      | addOrder =>
        rw [side_load hside]
        cases sideFromChar side <;> simp
      | modifyOrder => simp
      | deleteOrder => simp
      | trade => simp

section
variable {packet : PacketView} {i : Nat}

/-- A byte of a slot in the message bytes. -/
theorem getElem?_slot {j : Nat} (hj : j < kFixedMessageSize) :
    (packet.slot i)[j]? = packet.messageBytes[24 * i + j]? := by
  rw [PacketView.slot, List.getElem?_take_of_lt hj, List.getElem?_drop, Nat.mul_comm]
  rfl

/-- **Which slots are read**: those of the announced count that the grammar accepts. -/
theorem isSome_messageAt (hl : packet.messageBytes.length
      = (decodeMsgCount packet.header).toNat * kFixedMessageSize) (i : Nat) :
    (messageAt packet i).isSome ↔
      i < (decodeMsgCount packet.header).toNat ∧ SlotAccepted packet.messageBytes (24 * i) := by
  unfold messageAt
  split
  · rename_i hi
    simp only [Option.isSome_none, Bool.false_eq_true, false_iff]
    omega
  · rename_i hi
    rw [isSome_readSlot (length_slot hl (by omega)), SlotAccepted, SlotAccepted,
      getElem?_slot (by decide), getElem?_slot (by decide)]
    simp only [Nat.add_zero, Nat.zero_add]
    constructor
    · exact fun h => ⟨by omega, h⟩
    · exact fun h => h.2

end

end Bmdfh.Protocol
