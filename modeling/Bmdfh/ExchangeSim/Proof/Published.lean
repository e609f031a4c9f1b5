import Bmdfh.ExchangeSim.Proof.Stored
import Bmdfh.FeedHandler.Handler
import Bmdfh.Recovery.Endpoints

/-!
# The whole publisher loop

The loop stops after `packetCount` turns, with every message of the generator stored once and in
order (`loop_publishes`). `AfterTurns` is what holds of the publisher at the head of the loop.
-/

namespace Bmdfh

open Protocol

/-- The packets that the messages need: `ceil(messages / messages_per_packet)`. -/
def packetCount (options : Options) : Nat :=
  (options.messages + options.messagesPerPacket - 1) / options.messagesPerPacket

/-- The messages of the packets stored under `1 .. n`, in the order of the keys. -/
def PacketHistory.messages (history : PacketHistory) (n : Nat) : List Message :=
  (List.range n).flatMap fun i =>
    ((history[UInt32.ofNat (i + 1)]?).bind parsePacket).elim [] PacketView.messages

/-- The packets stored under `1 .. n` that are not skipped, in the order of the keys. -/
def PacketHistory.notSkipped (options : Options) (history : PacketHistory) (n : Nat) :
    List Bytes :=
  (List.range n).filterMap fun i =>
    if options.skipEvery ≠ 0 ∧ (i + 1) % options.skipEvery = 0 then none
    else history[UInt32.ofNat (i + 1)]?

theorem lt_packetCount (options : Options) {j : Nat} :
    j < packetCount options ↔ j * options.messagesPerPacket < options.messages := by
  have hpos : 0 < options.messagesPerPacket := Nat.pos_of_ne_zero options.messagesPerPacket_ne_zero
  rw [packetCount, Nat.lt_iff_add_one_le, Nat.le_div_iff_mul_le hpos, Nat.succ_mul]
  omega

namespace Publisher

/-- The head of the loop after `j` turns. -/
structure AfterTurns (options : Options) (engine : Nat → Draws) (j : Nat) (p : Publisher)
    (multicast : List Bytes) : Prop extends Kept p where
  turns : p.published.length = j
  idle : p.packet = none
  emitted : p.emittedMessages = min (j * options.messagesPerPacket) options.messages
  generated : MarketDataGenerator.emit {} ((List.range p.emittedMessages).map engine)
    = some (p.published.flatten, p.generator)
  counted : p.sentMessages + p.droppedMessages = p.emittedMessages
  keys : ∀ k : UInt32, k ∈ p.packetHistory ↔ 1 ≤ k.toNat ∧ k.toNat ≤ j
  datagrams : multicast = p.packetHistory.notSkipped options j

variable {options : Options} {engine : Nat → Draws} {j : Nat} {p : Publisher}
  {multicast : List Bytes}

theorem afterTurns_init (options : Options) (engine : Nat → Draws) :
    AfterTurns options engine 0 {} [] := by
  refine ⟨kept_init, rfl, rfl, by simp, rfl, rfl, fun k => ?_, rfl⟩
  rw [Std.ExtTreeMap.mem_iff_isSome_getElem?]
  show ((∅ : PacketHistory)[k]?).isSome ↔ _
  simp
  omega

theorem storePacket_ok {draws : List Draws} (publishTsc : UInt64) (hp : p.packet = none)
    (hlt : p.emittedMessages < options.messages) (hlen : draws.length = p.batchSize options) :
    ∃ batch generator bytes, p.generator.emit draws = some (batch, generator) ∧
      p.storePacket options draws publishTsc = some { p with
        generator
        packetHistory := p.packetHistory.store p.packetSequence bytes
        packet := some (batch, bytes)
        published := p.published ++ [batch] } := by
  obtain ⟨batch, generator, he⟩ := MarketDataGenerator.emit_isSome p.generator draws
  obtain ⟨size, buffer, hok, -⟩ := emitted_carries publishTsc he hlen
  refine ⟨batch, generator, buffer.take size, he, ?_⟩
  unfold storePacket
  rw [if_neg (by simp [hp, hlen]; omega)]
  simp only [he, hok, Option.bind_eq_bind, Option.bind_some, Except.toOption]

/-- A packet stored under the next number leaves those before it. -/
theorem notSkipped_store {history : PacketHistory} {bytes : Bytes} (hj : j + 1 < 2 ^ 32) :
    (history.store (UInt32.ofNat (j + 1)) bytes).notSkipped options (j + 1)
      = history.notSkipped options j
        ++ (if options.skipEvery ≠ 0 ∧ (j + 1) % options.skipEvery = 0 then none
          else some bytes).toList := by
  have hget : ∀ i, i < j → (history.store (UInt32.ofNat (j + 1)) bytes)[UInt32.ofNat (i + 1)]?
      = history[UInt32.ofNat (i + 1)]? := fun i hi =>
    history.get_store_ofNat_ne bytes (by omega) hj (by omega)
  rw [PacketHistory.notSkipped, List.range_succ, List.filterMap_append]
  congr 1
  · refine List.filterMap_congr fun i hi => ?_
    rw [hget i (List.mem_range.1 hi)]
  · have hlast : (history.store (UInt32.ofNat (j + 1)) bytes)[UInt32.ofNat (j + 1)]?
        = some bytes := OrdMap.get_insert_self ..
    rw [List.filterMap_cons, hlast]
    split
    · rename_i hn
      rw [hn]
      rfl
    · rename_i hs
      rw [hs]
      rfl

/-- A turn of the loop. -/
theorem AfterTurns.turn (h : AfterTurns options engine j p multicast) (readTsc : UInt32 → UInt64)
    (hj : j < packetCount options) (hcount : packetCount options < 2 ^ 32) :
    ∃ p' datagram, p.turn options engine readTsc = some (p', datagram) ∧
      AfterTurns options engine (j + 1) p' (multicast ++ datagram.toList) := by
  have hlt := (lt_packetCount options).1 hj
  have hemitted := h.emitted
  rw [Nat.min_eq_left (Nat.le_of_lt hlt)] at hemitted
  have hsize : p.batchSize options
      = min options.messagesPerPacket (options.messages - p.emittedMessages) := rfl
  let draws := (List.range (p.batchSize options)).map fun index =>
    engine (p.emittedMessages + index)
  have hlen : draws.length = p.batchSize options := by simp [draws]
  obtain ⟨batch, generator, bytes, he, hstore⟩ :=
    storePacket_ok (readTsc p.packetSequence) h.idle (by omega) hlen
  have hbatch : batch.length = p.batchSize options := by
    rw [(MarketDataGenerator.emit_batch he).1, hlen]
  have hkept := h.toKept.storePacket hstore (by
    rw [List.length_append, h.turns, List.length_singleton]; omega)
  obtain ⟨p', datagram, hsend, hs⟩ := sendPacket_of_packet options (p := { p with
    generator
    packetHistory := p.packetHistory.store p.packetSequence bytes
    packet := some (batch, bytes)
    published := p.published ++ [batch] }) rfl
  have hseq : p.packetSequence = UInt32.ofNat (j + 1) := by
    rw [h.sequence_of_idle h.idle, h.turns]
  have hseqn : p.packetSequence.toNat = j + 1 := by
    rw [hseq, UInt32.toNat_ofNat_of_lt' (show j + 1 < 2 ^ 32 by omega)]
  have hemitted' : p'.emittedMessages = p.emittedMessages + batch.length := hs.emitted
  have hmul : (j + 1) * options.messagesPerPacket
      = j * options.messagesPerPacket + options.messagesPerPacket := Nat.succ_mul ..
  have hturn : p.turn options engine readTsc = some (p', datagram) := by
    rw [Publisher.turn, hstore]
    exact hsend
  refine ⟨p', datagram, hturn, hkept.sendPacket hsend, ?_, hs.packet, ?_, ?_, ?_, ?_, ?_⟩
  · rw [hs.published, List.length_append, h.turns, List.length_singleton]
  · rw [hemitted', hbatch, hsize, hemitted, hmul]
    omega
  · rw [hemitted', hbatch, List.range_add, List.map_append, List.map_map,
      MarketDataGenerator.emit_append h.generated]
    show (p.generator.emit draws).map _ = _
    rw [he, hs.published, hs.generator]
    simp
  · rw [hs.counted, hemitted']
    exact congrArg (· + batch.length) h.counted
  · intro k
    rw [hs.packetHistory]
    show k ∈ p.packetHistory.insert p.packetSequence bytes ↔ _
    rw [Std.ExtTreeMap.mem_insert, h.keys k, Std.LawfulEqCmp.compare_eq_iff_eq,
      ← UInt32.toNat_inj, hseqn]
    omega
  · rw [hs.packetHistory, hs.datagram, h.datagrams]
    show _ = (p.packetHistory.store p.packetSequence bytes).notSkipped options (j + 1)
    rw [hseqn, hseq, notSkipped_store (by omega)]

/-- The loop from the head of a turn, with enough fuel. -/
theorem AfterTurns.loop (h : AfterTurns options engine j p multicast) (readTsc : UInt32 → UInt64)
    (hj : j ≤ packetCount options) (hcount : packetCount options < 2 ^ 32) :
    ∃ p' multicast', AfterTurns options engine (packetCount options) p' multicast' ∧
      ∀ fuel, packetCount options - j < fuel →
        Publisher.loop options engine readTsc fuel p multicast = some (p', multicast') := by
  obtain ⟨n, hn⟩ : ∃ n, n = packetCount options - j := ⟨_, rfl⟩
  induction n generalizing j p multicast with
  | zero =>
    obtain rfl : j = packetCount options := by omega
    refine ⟨p, multicast, h, fun fuel hf => ?_⟩
    obtain ⟨fuel, rfl⟩ : ∃ f, fuel = f + 1 := ⟨fuel - 1, by omega⟩
    have hge := mt (lt_packetCount options).2 (Nat.lt_irrefl _)
    have hemitted := h.emitted
    rw [Publisher.loop, if_neg (by omega)]
  | succ n ih =>
    have hlt : j < packetCount options := by omega
    obtain ⟨p₁, datagram, hturn, h₁⟩ := h.turn readTsc hlt hcount
    obtain ⟨p', multicast', hp', hloop⟩ := ih h₁ hlt (by omega)
    refine ⟨p', multicast', hp', fun fuel hf => ?_⟩
    obtain ⟨fuel, rfl⟩ : ∃ f, fuel = f + 1 := ⟨fuel - 1, by omega⟩
    have hmore := (lt_packetCount options).1 hlt
    have hemitted := h.emitted
    rw [Publisher.loop, if_pos (by omega), hturn]
    exact hloop fuel (by omega)

/-- The packets under `1 .. j` hold the batches published. -/
theorem AfterTurns.messages_eq (h : AfterTurns options engine j p multicast) :
    p.packetHistory.messages j = p.published.flatten := by
  rw [PacketHistory.messages, List.flatMap_def]
  congr 1
  refine List.ext_getElem (by simp [h.turns]) fun i hi hi' => ?_
  obtain ⟨bytes, hget, hc⟩ := h.history i hi'
  obtain ⟨packet, hp, -, -, hm⟩ := hc.parsed
  rw [List.getElem_map, List.getElem_range, hget, Option.bind_some, hp]
  exact hm

theorem AfterTurns.stored (h : AfterTurns options engine j p multicast) {k : UInt32}
    {bytes : Bytes} (hk : p.packetHistory[k]? = some bytes) : ∃ batch, Carries bytes k batch := by
  have hmem : k ∈ p.packetHistory := by
    rw [Std.ExtTreeMap.mem_iff_isSome_getElem?, hk]
    rfl
  obtain ⟨h1, hj⟩ := (h.keys k).1 hmem
  have hi : k.toNat - 1 < p.published.length := by
    rw [h.turns]
    omega
  have hofNat : UInt32.ofNat (k.toNat - 1 + 1) = k := by
    rw [Nat.sub_add_cancel h1, UInt32.ofNat_toNat]
  obtain ⟨bytes', hget, hc⟩ := h.history (k.toNat - 1) hi
  rw [hofNat] at hget hc
  rw [hk] at hget
  cases hget
  exact ⟨_, hc⟩

/-- **The publisher neither loses nor reorders messages.** -/
theorem loop_publishes (options : Options) (engine : Nat → Draws) (readTsc : UInt32 → UInt64)
    (hcount : packetCount options < 2 ^ 32) :
    ∃ p multicast,
      (∀ fuel, packetCount options < fuel →
        loop options engine readTsc fuel {} [] = some (p, multicast)) ∧
      (∀ k : UInt32, k ∈ p.packetHistory ↔ 1 ≤ k.toNat ∧ k.toNat ≤ packetCount options) ∧
      (∀ (k : UInt32) bytes, p.packetHistory[k]? = some bytes →
        bytes.length ≤ 1024 ∧ bytes.length ≤ Handler.kReceiveBufferSize ∧
        bytes.length ≤ kMaxRecoveryPacketSize ∧
        ∃ packet, parsePacket bytes = some packet ∧ decodeSeqNum packet.header = k ∧
          packet.Complete) ∧
      (∃ generator, MarketDataGenerator.emit {} ((List.range options.messages).map engine)
        = some (p.packetHistory.messages (packetCount options), generator)) ∧
      multicast = p.packetHistory.notSkipped options (packetCount options) ∧
      p.sentMessages + p.droppedMessages = options.messages := by
  obtain ⟨p, multicast, h, hloop⟩ :=
    (afterTurns_init options engine).loop readTsc (Nat.zero_le _) hcount
  have hemitted : p.emittedMessages = options.messages := by
    have hge := mt (lt_packetCount options).2 (Nat.lt_irrefl _)
    have := h.emitted
    omega
  refine ⟨p, multicast, fun fuel hf => hloop fuel (by omega), h.keys, fun k bytes hk => ?_,
    ⟨p.generator, ?_⟩, h.datagrams, ?_⟩
  · obtain ⟨batch, hc⟩ := h.stored hk
    obtain ⟨packet, hp, hseq, hcomplete, -⟩ := hc.parsed
    have hle : bytes.length ≤ 1024 := hc.length_le
    refine ⟨hle, ?_, ?_, packet, hp, hseq, hcomplete⟩
    · exact Nat.le_trans hle (show 1024 ≤ 4096 by omega)
    · exact Nat.le_trans hle (show 1024 ≤ 4096 by omega)
  · rw [h.messages_eq, ← hemitted]
    exact h.generated
  · rw [h.counted, hemitted]

theorem loop_publishes_of_five_messages :
    let options : Options := { messages := 5, messagesPerPacket := 2, skipEvery := 2 }
    let engine : Nat → Draws := fun _ =>
      { action := 0, side := 0, bidPrice := ⟨9950, by decide⟩, askPrice := ⟨10001, by decide⟩,
        quantity := ⟨10, by decide⟩, index := fun _ => 0 }
    ∃ p multicast, (∀ fuel, 3 < fuel →
        loop options engine (fun _ => 0) fuel {} [] = some (p, multicast)) ∧
      p.sentMessages + p.droppedMessages = 5 := by
  intro options engine
  have hcount : packetCount options = 3 := by decide
  obtain ⟨p, multicast, hloop, -, -, -, -, hsum⟩ :=
    loop_publishes options engine (fun _ => 0) (by rw [hcount]; decide)
  rw [hcount] at hloop
  exact ⟨p, multicast, hloop, hsum⟩

end Publisher

end Bmdfh
