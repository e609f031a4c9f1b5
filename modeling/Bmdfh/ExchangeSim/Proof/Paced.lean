import Bmdfh.ExchangeSim.Proof.Published

/-!
# The pace of the publisher

`Paced`: how far the publisher is, and what it has counted, after any number of stores and sends,
in the middle of a turn as well as at its end. In closed form `skip_every` drops every
`skip_every`-th packet, and only the last packet may hold fewer messages than the others.
-/

namespace Bmdfh

open Protocol

instance : Inhabited Draws where
  default :=
    ⟨⟨0, by decide⟩, ⟨0, by decide⟩, ⟨9950, by decide⟩, ⟨10001, by decide⟩, ⟨10, by decide⟩,
      fun _ => ⟨0, Nat.succ_pos _⟩⟩

namespace MarketDataGenerator

/-- Fewer calls of `next`: fewer of the same messages. -/
theorem emit_take {g g' : MarketDataGenerator} {ds : List Draws} {ms : List Message}
    (h : g.emit ds = some (ms, g')) (n : Nat) :
    ∃ g₁, g.emit (ds.take n) = some (ms.take n, g₁) := by
  induction ds generalizing g ms n with
  | nil =>
    simp only [emit, Option.some.injEq, Prod.mk.injEq] at h
    obtain ⟨rfl, rfl⟩ := h
    exact ⟨g, by simp [emit]⟩
  | cons d ds ih =>
    simp only [emit, Option.bind_eq_bind, Option.bind_eq_some_iff, Option.some.injEq,
      Prod.mk.injEq] at h
    obtain ⟨⟨m, g₁⟩, hn, ⟨ms', g₂⟩, he, rfl, rfl⟩ := h
    cases n with
    | zero => exact ⟨g, rfl⟩
    | succ n =>
      obtain ⟨g₃, he'⟩ := ih he n
      refine ⟨g₃, ?_⟩
      simp only [List.take_succ_cons, emit, hn, he', Option.bind_eq_bind, Option.bind_some]

end MarketDataGenerator

namespace Publisher

/-- The turns of the loop that are over. -/
def turns (p : Publisher) : Nat := p.published.length - if p.packet.isSome then 1 else 0

/-- The messages that `t` packets of the full size hold and that there are not. -/
def shortfall (options : Options) (t : Nat) : Nat :=
  t * options.messagesPerPacket - options.messages

/-- What has been stored and counted so far. -/
structure Paced (options : Options) (p : Publisher) : Prop where
  length_le : p.published.length ≤ packetCount options
  emitted : p.emittedMessages = min (p.turns * options.messagesPerPacket) options.messages
  packet : ∀ batch bytes, p.packet = some (batch, bytes) →
    0 < p.published.length ∧ p.emittedMessages < options.messages ∧
      batch.length = p.batchSize options
  stored : p.published.flatten.length
    = p.emittedMessages + p.packet.elim 0 (·.1.length)
  sizes : ∀ batch ∈ p.published, batch.length ≤ options.messagesPerPacket
  generated : ∃ draws, MarketDataGenerator.emit {} draws
    = some (p.published.flatten, p.generator)
  packets : p.sentPackets + p.droppedPackets = p.turns
  droppedPackets : p.droppedPackets = p.turns / options.skipEvery
  messages : p.sentMessages + p.droppedMessages = p.emittedMessages
  droppedMessages : p.droppedMessages
    + (if p.turns % options.skipEvery = 0 then shortfall options p.turns else 0)
      = p.turns / options.skipEvery * options.messagesPerPacket

variable {options : Options} {p p' : Publisher}

theorem turns_of_idle (hp : p.packet = none) : p.turns = p.published.length := by
  simp [turns, hp]

theorem turns_of_packet {packet : List Message × Bytes} (hp : p.packet = some packet) :
    p.turns = p.published.length - 1 := by
  simp [turns, hp]

theorem paced_init (options : Options) : Paced options {} := by
  refine ⟨Nat.zero_le _, by simp [turns], fun _ _ h => (nomatch h), rfl,
    fun _ h => (nomatch h), ⟨[], rfl⟩, rfl, ?_, rfl, ?_⟩
  · simp [turns]
  · simp [turns, shortfall]

theorem Paced.storePacket {draws : List Draws} {publishTsc : UInt64} (hp : Paced options p)
    (h : p.storePacket options draws publishTsc = some p') : Paced options p' := by
  obtain ⟨hidle, batch, generator, bytes, -, he, rfl⟩ := storePacket_eq_some h
  have hlt : p.emittedMessages < options.messages ∧ draws.length = p.batchSize options := by
    unfold Publisher.storePacket at h
    split at h
    · cases h
    · rename_i hc
      simp only [Bool.or_eq_true, not_or, decide_eq_true_eq, Nat.not_le,
        Decidable.not_not] at hc
      exact ⟨hc.1.2, hc.2⟩
  have hlen : batch.length = p.batchSize options := by
    rw [(MarketDataGenerator.emit_batch he).1, hlt.2]
  have hturns : turns { p with
      generator
      packetHistory := p.packetHistory.store p.packetSequence bytes
      packet := some (batch, bytes)
      published := p.published ++ [batch] } = p.turns := by
    rw [turns_of_idle hidle]
    simp [turns]
  have hemitted := hp.emitted
  have hcount := lt_packetCount options (j := p.turns)
  obtain ⟨ds, hds⟩ := hp.generated
  refine ⟨?_, ?_, ?_, ?_, ?_, ⟨ds ++ draws, ?_⟩, ?_, ?_, hp.messages, ?_⟩
  · rw [List.length_append, List.length_singleton, ← turns_of_idle hidle]
    omega
  · rw [hturns]
    exact hemitted
  · rintro batch' bytes' ⟨⟩
    exact ⟨by simp, hlt.1, hlen⟩
  · have hs := hp.stored
    rw [hidle] at hs
    simp only [List.flatten_append, List.flatten_singleton, List.length_append, Option.elim_some]
    rw [hs]
    rfl
  · intro b hb
    rcases List.mem_append.1 hb with hb | hb
    · exact hp.sizes b hb
    · rw [List.mem_singleton.1 hb, hlen]
      exact Nat.min_le_left ..
  · rw [MarketDataGenerator.emit_append hds, he]
    simp
  · rw [hturns]
    exact hp.packets
  · rw [hturns]
    exact hp.droppedPackets
  · rw [hturns]
    exact hp.droppedMessages

/-- The two ways a turn ends. -/
theorem sendPacket_cases {datagram : Option Bytes}
    (h : p.sendPacket options = some (p', datagram)) : ∃ batch bytes,
    p.packet = some (batch, bytes) ∧
    p'.published = p.published ∧ p'.generator = p.generator ∧ p'.packet = none ∧
    p'.emittedMessages = p.emittedMessages + batch.length ∧
    ((options.skipEvery ≠ 0 ∧ p.packetSequence.toNat % options.skipEvery = 0 ∧
        p'.droppedPackets = p.droppedPackets + 1 ∧ p'.sentPackets = p.sentPackets ∧
        p'.droppedMessages = p.droppedMessages + batch.length ∧
        p'.sentMessages = p.sentMessages) ∨
      (¬ (options.skipEvery ≠ 0 ∧ p.packetSequence.toNat % options.skipEvery = 0) ∧
        p'.droppedPackets = p.droppedPackets ∧ p'.sentPackets = p.sentPackets + 1 ∧
        p'.droppedMessages = p.droppedMessages ∧
        p'.sentMessages = p.sentMessages + batch.length)) := by
  unfold Publisher.sendPacket at h
  cases hp : p.packet with
  | none =>
    rw [hp] at h
    cases h
  | some packet =>
    obtain ⟨batch, bytes⟩ := packet
    rw [hp] at h
    dsimp only at h
    by_cases hskip : options.skipEvery ≠ 0 ∧ p.packetSequence.toNat % options.skipEvery = 0
    · rw [if_pos hskip] at h
      cases h
      exact ⟨batch, bytes, rfl, rfl, rfl, rfl, rfl, .inl ⟨hskip.1, hskip.2, rfl, rfl, rfl, rfl⟩⟩
    · rw [if_neg hskip] at h
      cases h
      exact ⟨batch, bytes, rfl, rfl, rfl, rfl, rfl, .inr ⟨hskip, rfl, rfl, rfl, rfl⟩⟩

/-- The numbers up to `t + 1` that `k` divides. -/
theorem div_succ (t k : Nat) :
    (t + 1) / k = t / k + if k ≠ 0 ∧ (t + 1) % k = 0 then 1 else 0 := by
  rw [Nat.succ_div]
  congr 1
  refine if_congr ?_ rfl rfl
  rw [Nat.dvd_iff_mod_eq_zero]
  refine ⟨fun h => ⟨fun hk => ?_, h⟩, fun h => h.2⟩
  subst hk
  simp at h

theorem Paced.sendPacket {datagram : Option Bytes} (hk : Kept p) (hp : Paced options p)
    (h : p.sendPacket options = some (p', datagram)) (hlt : p.published.length < 2 ^ 32) :
    Paced options p' := by
  obtain ⟨batch, bytes, hpacket, hpub, hgen, hidle, hemit, hcases⟩ := sendPacket_cases h
  obtain ⟨hpos, hmore, hlen⟩ := hp.packet batch bytes hpacket
  have ht := turns_of_packet hpacket
  have ht' : p'.turns = p.turns + 1 := by
    rw [turns_of_idle hidle, hpub, ht]
    omega
  have hseq : p.packetSequence.toNat = p.turns + 1 := by
    rw [hk.sequence_of_packet hpacket, UInt32.toNat_ofNat_of_lt' (show _ < 2 ^ 32 from hlt), ht]
    omega
  have hbatch : batch.length
      = min options.messagesPerPacket (options.messages - p.emittedMessages) := hlen
  have hemitted := hp.emitted
  have hmul : (p.turns + 1) * options.messagesPerPacket
      = p.turns * options.messagesPerPacket + options.messagesPerPacket := Nat.succ_mul ..
  have hemitted' : p'.emittedMessages
      = min (p'.turns * options.messagesPerPacket) options.messages := by
    rw [hemit, ht', hmul]
    omega
  have hpackets := hp.packets
  have hmessages := hp.messages
  have hdiv := div_succ p.turns options.skipEvery
  refine ⟨hpub ▸ hp.length_le, hemitted', fun _ _ he => ?_, ?_, hpub ▸ hp.sizes, ?_, ?_, ?_, ?_,
    ?_⟩
  · rw [hidle] at he
    cases he
  · rw [hpub, hp.stored, hpacket, hidle, hemit]
    rfl
  · rw [hpub, hgen]
    exact hp.generated
  · rcases hcases with ⟨-, -, hd, hs, -, -⟩ | ⟨-, hd, hs, -, -⟩ <;> omega
  · rw [ht', hdiv, ← hp.droppedPackets]
    rcases hcases with ⟨hne, hmod, hd, -⟩ | ⟨hskip, hd, -⟩
    · rw [if_pos ⟨hne, hseq ▸ hmod⟩, hd]
    · rw [if_neg (hseq ▸ hskip), hd, Nat.add_zero]
  · rcases hcases with ⟨-, -, -, -, hd, hs⟩ | ⟨-, -, -, hd, hs⟩ <;> omega
  · -- before the turn every packet was full
    have hfull : shortfall options p.turns = 0 := by
      rw [shortfall]
      omega
    have hdropped := hp.droppedMessages
    rw [hfull, ite_self, Nat.add_zero] at hdropped
    rw [ht', hdiv, Nat.add_mul, ← hdropped]
    rcases hcases with ⟨hne, hmod, -, -, hd, -⟩ | ⟨hskip, -, -, hd, -⟩
    · rw [hseq] at hmod
      rw [if_pos hmod, if_pos ⟨hne, hmod⟩, hd, Nat.one_mul, shortfall, hmul]
      omega
    · rw [hseq] at hskip
      rw [if_neg hskip, hd, Nat.zero_mul]
      split
      · rename_i hmod
        -- a skip of 0 leaves every remainder as it is
        have hzero : options.skipEvery = 0 := by
          by_contra hne
          exact hskip ⟨hne, hmod⟩
        rw [hzero, Nat.mod_zero] at hmod
        cases hmod
      · rfl

/-- When every packet is stored, so is every message. -/
theorem Paced.stored_all (hp : Paced options p)
    (hall : p.published.length = packetCount options) :
    p.published.flatten.length = options.messages := by
  have hcount := mt (lt_packetCount options).2 (Nat.lt_irrefl _)
  have hs := hp.stored
  have he := hp.emitted
  cases hpacket : p.packet with
  | none =>
    rw [turns_of_idle hpacket, hall] at he
    rw [hpacket, Option.elim_none] at hs
    omega
  | some packet =>
    obtain ⟨hpos, -, hlen⟩ := hp.packet packet.1 packet.2 hpacket
    rw [turns_of_packet hpacket, hall] at he
    rw [hpacket, Option.elim_some, hlen, batchSize] at hs
    rw [hall] at hpos
    obtain ⟨c, hc⟩ := Nat.exists_eq_succ_of_ne_zero (Nat.ne_of_gt hpos)
    rw [hc, Nat.succ_sub_one] at he
    rw [hc, Nat.succ_mul] at hcount
    omega

/-- The first `k` packets hold no more than `k` packets can. -/
theorem Paced.stored_take_le (hp : Paced options p) (k : Nat) :
    (p.published.take k).flatten.length ≤ k * options.messagesPerPacket := by
  have hsum : ((p.published.take k).map List.length).sum
      ≤ ((p.published.take k).map List.length).length * options.messagesPerPacket := by
    refine List.sum_le_card_nsmul _ _ fun n hn => ?_
    obtain ⟨batch, hb, rfl⟩ := List.mem_map.1 hn
    exact hp.sizes batch (List.mem_of_mem_take hb)
  rw [List.length_flatten]
  refine Nat.le_trans hsum (Nat.mul_le_mul_right _ ?_)
  rw [List.length_map]
  exact List.length_take_le ..

end Publisher

end Bmdfh
