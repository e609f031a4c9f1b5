import Bmdfh.ExchangeSim.Proof.Mirror
import Bmdfh.ExchangeSim.Publisher
import Bmdfh.Lib.Outcome
import Bmdfh.Protocol.Proof.Codec

/-!
# What the publisher stores

The publisher's own serializer writes what `serialize_packet` returns
(`serializers_agree`). Every packet it stores carries its number and its batch
(`Carries`), and stays in the history (`Publisher.Kept`), whatever the generator draws.
-/

namespace Bmdfh

open Packed Protocol

/-! ## The two serializers -/

@[simp] theorem Protocol.Message.wireSize_eq (m : Message) : m.wireSize = kFixedMessageSize := by
  cases m <;> rfl

theorem assignMessages_run (cursor : Nat) (ms : List Message) (buffer : Bytes) :
    (assignMessages cursor ms).run buffer = .ok () (writeMessages buffer cursor ms) := by
  induction ms generalizing cursor buffer with
  | nil => rfl
  | cons m ms ih => exact ih (cursor + m.wireSize) (writeAt buffer cursor m.wireBytes)

/-- With the buffer as memory: the checks come before any write. -/
theorem serializePacketInto_run {seqNum : UInt32} {publishTsc : UInt64} {ms : List Message}
    {bufferSize : Nat} {buffer : Bytes} :
    (∀ n buffer',
      serializePacketToBuffer seqNum publishTsc ms buffer bufferSize = .ok (n, buffer') →
      (serializePacketInto seqNum publishTsc ms bufferSize).run buffer = .ok n buffer') ∧
    (∀ e, serializePacketToBuffer seqNum publishTsc ms buffer bufferSize = .error e →
      (serializePacketInto seqNum publishTsc ms bufferSize).run buffer = .error e buffer) := by
  unfold serializePacketInto serializePacketToBuffer
  by_cases hmany : ms.length > UInt16.size - 1
  · rw [if_pos hmany, if_pos hmany]
    constructor
    · intro n buffer' h
      cases h
    · intro e h
      cases h
      rfl
  · rw [if_neg hmany, if_neg hmany]
    dsimp only
    by_cases hbig : packetSizeBytes (UInt16.ofNat ms.length) > bufferSize
    · rw [if_pos hbig, if_pos hbig]
      constructor
      · intro n buffer' h
        cases h
      · intro e h
        cases h
        rfl
    · rw [if_neg hbig, if_neg hbig]
      constructor
      · intro n buffer' h
        cases h
        exact Outcome.bind_of_ok (assignMessages_run ..)
      · intro e h
        cases h

/-- Messages written behind what is written already. -/
theorem writeMessages_append (written rest : Bytes) (ms : List Message) :
    writeMessages (written ++ rest) written.length ms
      = written ++ ms.flatMap Message.wireBytes ++ rest.drop (ms.length * kFixedMessageSize) := by
  induction ms generalizing written rest with
  | nil => simp [writeMessages]
  | cons m ms ih =>
    have hm := m.length_wireBytes
    have hw : writeAt (written ++ rest) written.length m.wireBytes
        = (written ++ m.wireBytes) ++ rest.drop kFixedMessageSize := by
      rw [writeAt, hm, List.take_left, List.drop_append, List.drop_eq_nil_of_le (by omega),
        List.nil_append, Nat.add_sub_cancel_left]
    have hl : written.length + m.wireSize = (written ++ m.wireBytes).length := by
      rw [List.length_append, hm, Message.wireSize_eq]
    rw [writeMessages, hw, hl, ih, List.drop_drop, List.flatMap_cons, List.length_cons,
      Nat.succ_mul, Nat.add_comm kFixedMessageSize]
    simp only [List.append_assoc]

theorem serializePacketToBuffer_run (seqNum : UInt32) (publishTsc : UInt64) {ms : List Message}
    {bufferSize : Nat} (buffer : Bytes) (h : ms.length < UInt16.size)
    (hfit : 14 + ms.length * kFixedMessageSize ≤ bufferSize) :
    ∃ packet, serializePacket seqNum ms publishTsc = .ok packet ∧
      packet.length = 14 + ms.length * kFixedMessageSize ∧
      serializePacketToBuffer seqNum publishTsc ms buffer bufferSize
        = .ok (packet.length, packet ++ buffer.drop packet.length) := by
  have hn : (UInt16.ofNat ms.length).toNat = ms.length := UInt16.toNat_ofNat_of_lt' h
  have hsz : packetSizeBytes (UInt16.ofNat ms.length) = 14 + ms.length * kFixedMessageSize := by
    simp [packetSizeBytes, hn]
  refine ⟨_, serializePacket_eq h, ?_⟩
  generalize hH : PacketHeader.layout.store
    (makePacketHeader seqNum (UInt16.ofNat ms.length) publishTsc) = header
  have hl : header.length = 14 := by simp [← hH]
  have hlen : (header ++ ms.flatMap Message.wireBytes).length
      = 14 + ms.length * kFixedMessageSize := by
    rw [List.length_append, length_flatMap_wireBytes, hl]
  have hwrite : writeAt buffer 0 header = header ++ buffer.drop header.length := by
    simp [writeAt]
  refine ⟨hlen, ?_⟩
  unfold serializePacketToBuffer
  rw [if_neg (by omega)]
  dsimp only
  rw [hsz, if_neg (by omega), hH, size_packetHeader, ← hl, hwrite, writeMessages_append, hl, hlen,
    List.drop_drop]
  rfl

/-- **The two serializers agree**: the publisher's own writes at the start of its buffer what
`serialize_packet` returns, or throws and writes nothing. -/
theorem serializers_agree (seqNum : UInt32) (publishTsc : UInt64) (ms : List Message)
    (buffer : Bytes) (bufferSize : Nat) :
    (ms.length ≤ 65535 ∧ 14 + 24 * ms.length ≤ bufferSize →
      ∃ packet buffer', serializePacket seqNum ms publishTsc = .ok packet ∧
        (serializePacketInto seqNum publishTsc ms bufferSize).run buffer
          = .ok packet.length buffer' ∧
        packet.length ≤ bufferSize ∧ buffer'.take packet.length = packet ∧
        buffer'.drop packet.length = buffer.drop packet.length ∧
        (bufferSize ≤ buffer.length → buffer'.length = buffer.length)) ∧
    (¬ (ms.length ≤ 65535 ∧ 14 + 24 * ms.length ≤ bufferSize) →
      ∃ e, (serializePacketInto seqNum publishTsc ms bufferSize).run buffer = .error e buffer) ∧
    (∀ e, serializePacket seqNum ms publishTsc = .error e →
      ∃ e', (serializePacketInto seqNum publishTsc ms bufferSize).run buffer
        = .error e' buffer) := by
  have hmany : 65535 < ms.length →
      (serializePacketInto seqNum publishTsc ms bufferSize).run buffer
        = .error "too many messages in one packet" buffer := fun h =>
    serializePacketInto_run.2 _ (if_pos h)
  refine ⟨fun ⟨hle, hfit⟩ => ?_, fun hno => ?_, fun e he => ?_⟩
  · have hsize : 14 + ms.length * kFixedMessageSize ≤ bufferSize := by
      rw [kFixedMessageSize]
      omega
    obtain ⟨packet, hp, hl, hrun⟩ := serializePacketToBuffer_run seqNum publishTsc buffer
      (show ms.length < 65536 by omega) hsize
    rw [kFixedMessageSize] at hl
    refine ⟨packet, _, hp, serializePacketInto_run.1 _ _ hrun, by omega, List.take_left,
      List.drop_left, fun hb => ?_⟩
    rw [List.length_append, List.length_drop]
    omega
  · by_cases hle : 65535 < ms.length
    · exact ⟨_, hmany hle⟩
    · have hn : (UInt16.ofNat ms.length).toNat = ms.length :=
        UInt16.toNat_ofNat_of_lt' (show ms.length < 65536 by omega)
      have hbig : packetSizeBytes (UInt16.ofNat ms.length) > bufferSize := by
        simp only [packetSizeBytes, size_packetHeader, hn, kFixedMessageSize]
        omega
      exact ⟨_, serializePacketInto_run.2 "packet would overflow the fixed publisher buffer"
        ((if_neg hle).trans (if_pos hbig))⟩
  · by_cases hle : 65535 < ms.length
    · exact ⟨_, hmany hle⟩
    · rw [serializePacket_eq (show ms.length < 65536 by omega)] at he
      cases he

/-! ## Packets of batches -/

/-- The packet carries its number and exactly the messages of the batch. -/
structure Carries (bytes : Bytes) (seqNum : UInt32) (batch : List Message) : Prop where
  parsed : ∃ packet, parsePacket bytes = some packet ∧ decodeSeqNum packet.header = seqNum ∧
    packet.Complete ∧ packet.messages = batch
  length_le : bytes.length ≤ kPacketBufferSize

theorem messages_serialized (seqNum : UInt32) (publishTsc : UInt64) {ms : List Message}
    (h : ms.length < UInt16.size) (hw : ∀ m ∈ ms, m.WellFormed) :
    let packet : PacketView := ⟨makePacketHeader seqNum (UInt16.ofNat ms.length) publishTsc,
      ms.flatMap Message.wireBytes⟩
    packet.Complete ∧ packet.messages = ms := by
  intro packet
  have hat := messageAt_serialized seqNum publishTsc h hw
  have hn : (decodeMsgCount packet.header).toNat = ms.length := by
    simpa [packet, decodeMsgCount, makePacketHeader] using UInt16.toNat_ofNat_of_lt' h
  have hc : packet.Complete := fun i hi => by
    rw [hn] at hi
    rw [hat, List.getElem?_eq_getElem hi]
    rfl
  refine ⟨hc, List.ext_getElem? fun i => ?_⟩
  rw [getElem?_messages hc, hat]

/-- What the publisher stores for a batch. -/
theorem carries_serialized (seqNum : UInt32) (publishTsc : UInt64) {batch : List Message}
    (hlen : batch.length ≤ kMaxMessagesPerPacket) (hw : ∀ m ∈ batch, m.WellFormed) :
    ∃ packetSize buffer,
      serializePacketToBuffer seqNum publishTsc batch (List.replicate kPacketBufferSize 0)
        (List.replicate kPacketBufferSize (0 : UInt8)).length = .ok (packetSize, buffer) ∧
      Carries (buffer.take packetSize) seqNum batch := by
  have hmax : kMaxMessagesPerPacket = 42 := rfl
  have hlt : batch.length < UInt16.size := Nat.lt_of_le_of_lt hlen (by decide)
  have hsize : 14 + batch.length * kFixedMessageSize
      ≤ (List.replicate kPacketBufferSize (0 : UInt8)).length := by
    rw [List.length_replicate, kPacketBufferSize, kFixedMessageSize]
    omega
  obtain ⟨packet, hp, hl, hrun⟩ := serializePacketToBuffer_run seqNum publishTsc
    (List.replicate kPacketBufferSize 0) hlt hsize
  obtain rfl := Except.ok.inj ((serializePacket_eq hlt).symm.trans hp)
  obtain ⟨hc, hm⟩ := messages_serialized seqNum publishTsc hlt hw
  refine ⟨_, _, hrun, ?_⟩
  rw [List.take_left]
  refine ⟨⟨_, parsePacket_serialized _ _ hlt, ?_, hc, hm⟩, ?_⟩
  · simp [decodeSeqNum, makePacketHeader]
  · rw [hl]
    rwa [List.length_replicate] at hsize

/-! ## Batches of the generator -/

namespace MarketDataGenerator

theorem wellFormed_next {g g' : MarketDataGenerator} {draws : Draws} {m : Message}
    (h : g.next draws = some (m, g')) : m.WellFormed := by
  obtain ⟨x, _, _, hn⟩ | ⟨_, _, _, y, _, _, _, _, _, hn⟩ | ⟨_, x, _, _, _, _, hn⟩ :=
    g.next_cases draws
  · rw [hn] at h
    cases h
    exact (Fields.addOrder x.orderId x.side x.price x.quantity).wellFormed_make
  · rw [hn] at h
    cases h
    exact (Fields.modifyOrder y.orderId y.price y.quantity).wellFormed_make
  · rw [hn] at h
    cases h
    exact (Fields.deleteOrder x.orderId).wellFormed_make

theorem emit_batch {g g' : MarketDataGenerator} {ds : List Draws} {ms : List Message}
    (h : g.emit ds = some (ms, g')) : ms.length = ds.length ∧ ∀ m ∈ ms, m.WellFormed := by
  induction ds generalizing g ms with
  | nil =>
    simp only [emit, Option.some.injEq, Prod.mk.injEq] at h
    obtain ⟨rfl, rfl⟩ := h
    exact ⟨rfl, fun _ hm => absurd hm List.not_mem_nil⟩
  | cons d ds ih =>
    simp only [emit, Option.bind_eq_bind, Option.bind_eq_some_iff, Option.some.injEq,
      Prod.mk.injEq] at h
    obtain ⟨⟨m, g₁⟩, hn, ⟨ms', g₂⟩, he, rfl, rfl⟩ := h
    obtain ⟨hl, hw⟩ := ih he
    refine ⟨congrArg Nat.succ hl, fun x hx => ?_⟩
    rcases List.mem_cons.1 hx with rfl | hx
    · exact wellFormed_next hn
    · exact hw x hx

end MarketDataGenerator

/-! ## The history of a publisher -/

namespace Publisher

/-- Every packet published is in the history under its number, the one in hand included. -/
structure Kept (p : Publisher) : Prop where
  sequence : p.packetSequence
    = UInt32.ofNat (if p.packet.isSome then p.published.length else p.published.length + 1)
  history : ∀ i (hi : i < p.published.length), ∃ bytes,
    p.packetHistory[UInt32.ofNat (i + 1)]? = some bytes ∧
      Carries bytes (UInt32.ofNat (i + 1)) p.published[i]
  packet : ∀ batch bytes, p.packet = some (batch, bytes) →
    0 < p.published.length ∧ p.packetHistory[p.packetSequence]? = some bytes

theorem kept_init : Kept {} :=
  ⟨rfl, fun _ hi => (Nat.not_lt_zero _ hi).elim, fun _ _ h => nomatch h⟩

/-- The number that the next packet gets. -/
theorem Kept.sequence_of_idle {p : Publisher} (hk : Kept p) (hp : p.packet = none) :
    p.packetSequence = UInt32.ofNat (p.published.length + 1) := by
  have hseq := hk.sequence
  rwa [hp] at hseq

/-- The number of the packet in hand. -/
theorem Kept.sequence_of_packet {p : Publisher} (hk : Kept p) {batch : List Message}
    {bytes : Bytes} (hp : p.packet = some (batch, bytes)) :
    p.packetSequence = UInt32.ofNat p.published.length := by
  have hseq := hk.sequence
  rwa [hp] at hseq

/-- The batch of a turn is serialized, and the packet carries it. -/
theorem emitted_carries {options : Options} {draws : List Draws} {p : Publisher}
    {batch : List Message} {generator : MarketDataGenerator} (publishTsc : UInt64)
    (he : p.generator.emit draws = some (batch, generator))
    (hlen : draws.length = p.batchSize options) :
    ∃ packetSize buffer,
      serializePacketToBuffer p.packetSequence publishTsc batch
        (List.replicate kPacketBufferSize 0)
        (List.replicate kPacketBufferSize (0 : UInt8)).length = .ok (packetSize, buffer) ∧
      Carries (buffer.take packetSize) p.packetSequence batch := by
  obtain ⟨hl, hw⟩ := MarketDataGenerator.emit_batch he
  have hmax : batch.length ≤ kMaxMessagesPerPacket := by
    rw [hl, hlen, batchSize]
    exact Nat.le_trans (Nat.min_le_left _ _) options.messagesPerPacket_le
  exact carries_serialized p.packetSequence publishTsc hmax hw

/-- What a store does. -/
theorem storePacket_eq_some {options : Options} {draws : List Draws} {publishTsc : UInt64}
    {p p' : Publisher} (h : p.storePacket options draws publishTsc = some p') :
    p.packet = none ∧ ∃ batch generator bytes, Carries bytes p.packetSequence batch ∧
      p.generator.emit draws = some (batch, generator) ∧
      p' = { p with
        generator
        packetHistory := p.packetHistory.store p.packetSequence bytes
        packet := some (batch, bytes)
        published := p.published ++ [batch] } := by
  unfold storePacket at h
  split at h
  · cases h
  · rename_i hc
    simp only [Bool.or_eq_true, not_or, Bool.not_eq_true, Option.isSome_eq_false_iff,
      Option.isNone_iff_eq_none, decide_eq_true_eq, Decidable.not_not] at hc
    obtain ⟨⟨hp, -⟩, hlen⟩ := hc
    refine ⟨hp, ?_⟩
    simp only [Option.bind_eq_bind, Option.bind_eq_some_iff] at h
    obtain ⟨⟨batch, generator⟩, he, ⟨size, buffer⟩, hs, h⟩ := h
    obtain ⟨size', buffer', hok, hc⟩ := emitted_carries publishTsc he hlen
    rw [hok] at hs
    cases hs
    cases h
    exact ⟨batch, generator, _, hc, he, rfl⟩

theorem Kept.storePacket {options : Options} {draws : List Draws} {publishTsc : UInt64}
    {p p' : Publisher} (hk : Kept p) (h : p.storePacket options draws publishTsc = some p')
    (hlt : p'.published.length < 2 ^ 32) : Kept p' := by
  obtain ⟨hp, batch, generator, bytes, hc, -, rfl⟩ := storePacket_eq_some h
  have hseq := hk.sequence_of_idle hp
  simp only [List.length_append, List.length_singleton] at hlt
  refine ⟨?_, fun i hi => ?_, fun batch' bytes' he => ?_⟩
  · simpa using hseq
  · simp only [List.length_append, List.length_singleton] at hi
    show ∃ bytes', (p.packetHistory.store p.packetSequence bytes)[UInt32.ofNat (i + 1)]?
      = some bytes' ∧ Carries bytes' _ (p.published ++ [batch])[i]
    by_cases hlast : i = p.published.length
    · subst hlast
      rw [← hseq, PacketHistory.store, OrdMap.get_insert_self]
      exact ⟨bytes, rfl, by simpa using hc⟩
    · rw [hseq, PacketHistory.get_store_ofNat_ne _ _ (by omega) (by omega) (by omega),
        List.getElem_append_left (by omega)]
      exact hk.history i (by omega)
  · cases he
    exact ⟨by simp, OrdMap.get_insert_self ..⟩

/-- What a send does: the packet in hand is counted, multicast or not, and no longer in hand. -/
structure Sends (options : Options) (p : Publisher) (batch : List Message) (bytes : Bytes)
    (p' : Publisher) (datagram : Option Bytes) : Prop where
  generator : p'.generator = p.generator
  packetHistory : p'.packetHistory = p.packetHistory
  published : p'.published = p.published
  packetSequence : p'.packetSequence = p.packetSequence + 1
  packet : p'.packet = none
  emitted : p'.emittedMessages = p.emittedMessages + batch.length
  counted : p'.sentMessages + p'.droppedMessages
    = p.sentMessages + p.droppedMessages + batch.length
  datagram : datagram
    = if options.skipEvery ≠ 0 ∧ p.packetSequence.toNat % options.skipEvery = 0 then none
      else some bytes

theorem sendPacket_of_packet (options : Options) {p : Publisher} {batch : List Message}
    {bytes : Bytes} (hp : p.packet = some (batch, bytes)) :
    ∃ p' datagram, p.sendPacket options = some (p', datagram) ∧
      Sends options p batch bytes p' datagram := by
  unfold sendPacket
  rw [hp]
  dsimp only
  by_cases hskip : options.skipEvery ≠ 0 ∧ p.packetSequence.toNat % options.skipEvery = 0
  · rw [if_pos hskip]
    refine ⟨_, _, rfl, rfl, rfl, rfl, rfl, rfl, rfl, ?_, (if_pos hskip).symm⟩
    exact (Nat.add_assoc ..).symm
  · rw [if_neg hskip]
    refine ⟨_, _, rfl, rfl, rfl, rfl, rfl, rfl, rfl, ?_, (if_neg hskip).symm⟩
    exact Nat.add_right_comm ..

theorem sendPacket_eq_some {options : Options} {p p' : Publisher} {datagram : Option Bytes}
    (h : p.sendPacket options = some (p', datagram)) :
    ∃ batch bytes, p.packet = some (batch, bytes) ∧ Sends options p batch bytes p' datagram := by
  cases hp : p.packet with
  | none =>
    unfold sendPacket at h
    rw [hp] at h
    cases h
  | some packet =>
    obtain ⟨batch, bytes⟩ := packet
    obtain ⟨_, _, hsend, hs⟩ := sendPacket_of_packet options hp
    rw [hsend] at h
    cases h
    exact ⟨batch, bytes, rfl, hs⟩

theorem Kept.sendPacket {options : Options} {p p' : Publisher} {datagram : Option Bytes}
    (hk : Kept p) (h : p.sendPacket options = some (p', datagram)) : Kept p' := by
  obtain ⟨batch, bytes, hp, hs⟩ := sendPacket_eq_some h
  obtain ⟨-, hh, hpub, hseq, hp', -, -, -⟩ := hs
  refine ⟨?_, ?_, fun _ _ he => by rw [hp'] at he; cases he⟩
  · rw [hseq, hp', hpub, hk.sequence_of_packet hp]
    exact (UInt32.ofNat_add _ _).symm
  · rw [hh, hpub]
    exact hk.history

/-- A datagram that is multicast is a published packet. -/
theorem Kept.datagram {options : Options} {p p' : Publisher} {d : Bytes} (hk : Kept p)
    (h : p.sendPacket options = some (p', some d)) :
    ∃ i, i < p'.published.length ∧ p'.packetHistory[UInt32.ofNat (i + 1)]? = some d := by
  obtain ⟨batch, bytes, hp, hs⟩ := sendPacket_eq_some h
  obtain ⟨-, hh, hpub, -, -, -, -, hd⟩ := hs
  obtain ⟨hpos, hget⟩ := hk.packet batch bytes hp
  have hdb : d = bytes := by
    split at hd
    · cases hd
    · exact Option.some.inj hd
  refine ⟨p.published.length - 1, by rw [hpub]; omega, ?_⟩
  rw [hh, hdb, Nat.sub_add_cancel hpos, ← hk.sequence_of_packet hp]
  exact hget

end Publisher

end Bmdfh
