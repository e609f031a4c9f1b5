import Bmdfh.FeedHandler.Proof.Heads

/-!
# Wrap-around

A stream numbers its packets modulo `2 ^ 32`, and the handler compares the numbers as they are. It
classifies a packet by its place in the stream exactly when the packet and the one expected lie in
the same block of `2 ^ 32` indices (`classified_iff`).
-/

namespace Bmdfh.Handler

open Std OrdMap Protocol Outcome

/-- The packets of a publisher, from index 1 on, numbered by their index. -/
structure PublisherStream where
  packet : Nat → Bytes
  numbered : ∀ k, 1 ≤ k → ∃ view, parsePacket (packet k) = some view ∧
    decodeSeqNum view.header = UInt32.ofNat k ∧ view.Complete

/-- The handler has applied the first `n` packets, and no others. -/
def AppliedFirst (stream : PublisherStream) (n : Nat) (h : Handler) : Prop :=
  h.processed.map Prod.snd = (List.range n).map fun i => stream.packet (i + 1)

/-- With the first `n` packets applied, packet `j` is discarded, processed or treated as a gap
according to its place in the stream. -/
def Classified (messages : Nat) (stream : PublisherStream) (h : Handler) (n j : Nat) : Prop :=
  ∀ recovery,
    (j ≤ n → handleDatagram messages recovery (stream.packet j) h = .ok () h) ∧
    (j = n + 1 → ∃ h', handleDatagram messages recovery (stream.packet j) h = .ok () h' ∧
      h'.processed = h.processed ++ [(.live, stream.packet j)]) ∧
    (n + 1 < j → ∃ first last,
      handleDatagram messages recovery (stream.packet j) h
        = requestReplay messages recovery first last (h.park (UInt32.ofNat j) (stream.packet j)) ∧
      (final (handleDatagram messages recovery (stream.packet j) h)).replayRequests
        = h.replayRequests + 1 ∧
      ∀ seq, first ≤ seq ∧ seq ≤ last ↔ ∃ k, n < k ∧ k < j ∧ seq = UInt32.ofNat k)

/-! ## The classification of a packet -/

section
variable {messages n j : Nat} {stream : PublisherStream} {h : Handler}

theorem AppliedFirst.expected (hn : AppliedFirst stream n h) (hh : Reachable messages h) :
    h.expectedPacketSeq = UInt32.ofNat (n + 1) := by
  have hlen : h.processed.length = n := by
    have := congrArg List.length hn
    simpa using this
  rw [hh.sequenced.expected, hlen]

theorem respected_sameRequests : Respected (Same replayRequests) where
  apply _ _ _ := rfl
  finish _ _ _ _ _ _ := finish_replayRequests ..
  unpark _ _ := rfl

theorem respected_sameOutOfOrder : Respected (Same outOfOrderPackets) where
  apply _ _ _ := rfl
  finish _ _ _ _ _ _ := finish_outOfOrderPackets ..
  unpark _ _ := rfl

/-- A request that is made is counted, whatever comes of it. -/
theorem requestReplay_counted {recovery : Recovery} {startSeq endSeq : UInt32}
    (hle : startSeq ≤ endSeq) (hl : ¬ LimitWithin messages h 0) :
    (final (requestReplay messages recovery startSeq endSeq h)).replayRequests
      = h.replayRequests + 1 := by
  rw [requestReplay_eq hle hl]
  cases recovery startSeq endSeq with
  | error e => rfl
  | ok batch =>
    dsimp only
    split
    · rfl
    · exact Leads.bind (respected_sameRequests.batch batch)
        (fun _ => respected_sameRequests.drain) h.requested

/-- Numbers are compared by where they are in their block. -/
theorem ofNat_lt_iff_mod {i j : Nat} :
    UInt32.ofNat i < UInt32.ofNat j ↔ i % 2 ^ 32 < j % 2 ^ 32 := by
  rw [UInt32.lt_iff_toNat_lt, UInt32.toNat_ofNat', UInt32.toNat_ofNat']

theorem classified_of_same_block (hh : Reachable messages h) (hl : ¬ LimitWithin messages h 0)
    (hn : AppliedFirst stream n h) (hj : 1 ≤ j) (hblock : j / 2 ^ 32 = (n + 1) / 2 ^ 32) :
    Classified messages stream h n j := by
  intro recovery
  obtain ⟨view, hp, hseq, hc⟩ := stream.numbered j hj
  have he := hn.expected hh
  have hlt : decodeSeqNum view.header < h.expectedPacketSeq ↔ j < n + 1 := by
    rw [hseq, he, ofNat_lt_iff_mod]
    omega
  have hgt : h.expectedPacketSeq < decodeSeqNum view.header ↔ n + 1 < j := by
    rw [hseq, he, ofNat_lt_iff_mod]
    omega
  refine ⟨fun hle => handleDatagram_stale hp (hlt.2 (by omega)), fun hj => ?_, fun hj => ?_⟩
  · subst hj
    have hb := hh.bufferedPackets hl
    rw [handleDatagram_next hp (hseq.trans he.symm)]
    obtain ⟨ms, hok, -⟩ := processPacketBytes_complete .live hl hp (hseq.trans he.symm) hc
    rw [bind_of_ok hok, drainBufferedPackets_none]
    · exact ⟨_, rfl, finish_processed ..⟩
    · rw [finish_bufferedPackets]
      show h.bufferedPackets[_]? = none
      rw [hb]
      rfl
  · obtain ⟨hle, h1, -, -⟩ := gap_of_lt (hgt.2 hj)
    have hahead : handleDatagram messages recovery _ h = _ :=
      handleDatagram_ahead (hh.bufferedPackets hl) hp (hgt.2 hj)
    rw [hseq] at hahead hle h1
    refine ⟨_, _, hahead, ?_, fun seq => ?_⟩
    · rw [hahead]
      exact requestReplay_counted hle hl
    · rw [UInt32.le_iff_toNat_le, UInt32.le_iff_toNat_le, he]
      rw [UInt32.toNat_ofNat'] at h1 ⊢
      constructor
      · rintro ⟨h2, h3⟩
        refine ⟨n + 1 + (seq.toNat - (n + 1) % 2 ^ 32), by omega, by omega, ?_⟩
        apply UInt32.toNat_inj.1
        rw [UInt32.toNat_ofNat']
        omega
      · rintro ⟨k, h2, h3, rfl⟩
        rw [UInt32.toNat_ofNat']
        omega

/-- Across a wrap, an old packet looks new and a new one looks old. -/
theorem same_block_of_classified (hh : Reachable messages h) (hl : ¬ LimitWithin messages h 0)
    (hn : AppliedFirst stream n h) (hj : 1 ≤ j) (hnear : j < n + 1 + 2 ^ 31 ∧ n + 1 < j + 2 ^ 31)
    (hc : Classified messages stream h n j) : j / 2 ^ 32 = (n + 1) / 2 ^ 32 := by
  by_contra hblock
  obtain ⟨view, hp, hseq, -⟩ := stream.numbered j hj
  have he := hn.expected hh
  obtain ⟨hold, -, hnew⟩ := hc fun _ _ => .ok []
  by_cases hle : j ≤ n
  · -- parked, and so counted as out of order
    have hlt : h.expectedPacketSeq < decodeSeqNum view.header := by
      rw [hseq, he, ofNat_lt_iff_mod]
      omega
    have hd := hold hle
    rw [handleDatagram_ahead (hh.bufferedPackets hl) hp hlt] at hd
    have := (respected_sameOutOfOrder.requestReplay (fun _ => rfl) _ _ _).ok hd
    exact Nat.succ_ne_self h.outOfOrderPackets this.symm
  · -- discarded, and so nothing is requested
    have hlt : decodeSeqNum view.header < h.expectedPacketSeq := by
      rw [hseq, he, ofNat_lt_iff_mod]
      omega
    obtain ⟨first, last, -, hreq, -⟩ := hnew (by omega)
    rw [handleDatagram_stale hp hlt] at hreq
    exact Nat.succ_ne_self h.replayRequests hreq.symm

/-- **Sequence classification**, exactly. -/
theorem classified_iff (hh : Reachable messages h) (hl : h.limitReached messages = false)
    (hn : AppliedFirst stream n h) (hj : 1 ≤ j)
    (hnear : j < n + 1 + 2 ^ 31 ∧ n + 1 < j + 2 ^ 31) :
    Classified messages stream h n j ↔ j / 2 ^ 32 = (n + 1) / 2 ^ 32 := by
  rw [limitReached_eq_false_iff] at hl
  exact ⟨same_block_of_classified hh hl hn hj hnear, classified_of_same_block hh hl hn hj⟩

end

/-! ## A stream that arrives in order -/

/-- A stream delivered in order is applied, however long. -/
theorem reachable_appliedFirst (stream : PublisherStream)
    (hfit : ∀ k, (stream.packet k).length ≤ kReceiveBufferSize) (n : Nat) :
    ∃ h, Reachable 0 h ∧ AppliedFirst stream n h := by
  induction n with
  | zero => exact ⟨{}, ⟨[], rfl⟩, rfl⟩
  | succ n ih =>
    obtain ⟨h, hh, hn⟩ := ih
    have hl : ¬ LimitWithin 0 h 0 := fun hw => hw.1 rfl
    obtain ⟨-, hnext, -⟩ := classified_of_same_block hh hl hn (Nat.le_add_left 1 n) rfl
      fun _ _ => .ok []
    obtain ⟨h', hok, hp⟩ := hnext rfl
    refine ⟨h', hh.step ⟨stream.packet (n + 1), fun _ _ => .ok []⟩ hl ?_, ?_⟩
    · show handleDatagram 0 _ ((stream.packet (n + 1)).take _) h = _
      rw [List.take_of_length_le (hfit _)]
      exact hok
    · rw [AppliedFirst, hp, List.map_append, hn, List.range_succ, List.map_append]
      rfl

/-- The stream of packets without messages. -/
def emptyStream : PublisherStream where
  packet k := emptyPacket (UInt32.ofNat k)
  numbered k _ := by
    refine ⟨⟨makePacketHeader (UInt32.ofNat k) 0 0, []⟩, ?_, ?_, ?_⟩
    · exact parsePacket_eq_some.2
        ⟨by simp [emptyPacket], by simp [decodeMsgCount, makePacketHeader]⟩
    · simp [decodeSeqNum, makePacketHeader]
    · intro i hi
      simp [decodeMsgCount, makePacketHeader] at hi

theorem classified_iff_at_start :
    Classified 0 emptyStream {} 0 2 ↔ 2 / 2 ^ 32 = (0 + 1) / 2 ^ 32 :=
  classified_iff ⟨[], rfl⟩ rfl rfl (by decide) (by decide)

/-- After `2 ^ 32 - 2` packets, packet `2 ^ 32` is newer than all of them and is discarded. -/
theorem new_packet_discarded :
    ∃ h, Reachable 0 h ∧ h.limitReached 0 = false ∧
      AppliedFirst emptyStream (2 ^ 32 - 2) h ∧
      (2 ^ 32 < 2 ^ 32 - 2 + 1 + 2 ^ 31 ∧ 2 ^ 32 - 2 + 1 < 2 ^ 32 + 2 ^ 31) ∧
      ¬ Classified 0 emptyStream h (2 ^ 32 - 2) (2 ^ 32) := by
  have hfit : ∀ k, (emptyStream.packet k).length ≤ kReceiveBufferSize := fun k => by
    simp [emptyStream, emptyPacket, kReceiveBufferSize]
  obtain ⟨h, hh, hn⟩ := reachable_appliedFirst emptyStream hfit (2 ^ 32 - 2)
  have hl : ¬ LimitWithin 0 h 0 := fun hw => hw.1 rfl
  refine ⟨h, hh, rfl, hn, by decide, fun hc => ?_⟩
  exact absurd (same_block_of_classified hh hl hn (by decide) (by decide) hc) (by decide)

end Bmdfh.Handler
