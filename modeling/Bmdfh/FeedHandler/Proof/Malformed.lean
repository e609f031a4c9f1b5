import Bmdfh.FeedHandler.Proof.Heads
import Bmdfh.Protocol.Proof.Grammar

/-!
# Malformed datagrams

A datagram parses exactly when it is of the grammar and fits the receive buffer: what `recvfrom`
cuts it to is then the datagram itself, and the cut length is no packet's (`received_iff_grammar`).

A datagram that parses but has a bad slot applies the messages before that slot, and then throws.
It is rejected whole exactly when it is never processed: it does not parse, it is stale, or the
message limit is met in the batch that fills the gap before it (`rejectedWhole_iff`).
-/

namespace Bmdfh.Handler

open Std OrdMap Protocol Outcome

/-- The messages `new` were applied, counted and listed. -/
structure Adds (h h' : Handler) (new : List (Bytes × Message)) : Prop where
  applied : h'.applied = h.applied ++ new
  orderBook : h'.orderBook = h.orderBook.applyAll (new.map Prod.snd)
  receivedMessages : h'.receivedMessages = h.receivedMessages + new.length

/-- The handler does not throw, and no message that it applies or counts is of this datagram. -/
def RejectedWhole (messages : Nat) (recovery : Recovery) (h : Handler) (bytes : Bytes) : Prop :=
  ∃ h' new, handleDatagram messages recovery bytes h = .ok () h' ∧ Adds h h' new ∧
    ∀ entry ∈ new, entry.1 ≠ bytes

/-- The messages that a batch yields from a number on, up to the first thing wrong with it. -/
def usable (expected : UInt32) : List Bytes → List Message
  | [] => []
  | bytes :: rest =>
    match parsePacket bytes with
    | none => []
    | some packet =>
      if decodeSeqNum packet.header ≠ expected then []
      else if (goodMessages packet).length ≠ (decodeMsgCount packet.header).toNat then
        goodMessages packet
      else goodMessages packet ++ usable (expected + 1) rest

/-! ## What is accepted -/

/-- A datagram that fits the buffer is received whole; one that does not is no packet. -/
theorem isSome_parsePacket_received {datagram : Bytes} :
    (parsePacket (datagram.take kReceiveBufferSize)).isSome ↔
      datagram.length ≤ kReceiveBufferSize ∧ 14 ≤ datagram.length ∧
        datagram.length = 14 + 24 * announcedMessages datagram := by
  rw [isSome_parsePacket, kReceiveBufferSize]
  by_cases hfit : datagram.length ≤ 4096
  · rw [List.take_of_length_le hfit]
    exact (and_iff_right hfit).symm
  · -- the length of what is left of it is that of the buffer
    have hcut : (datagram.take 4096).length = 4096 := by
      rw [List.length_take]
      omega
    rw [hcut]
    omega

/-- **The parser accepts exactly its grammar**, and reads nothing outside the datagram. -/
theorem received_iff_grammar (datagram : Bytes) :
    checkedParsePacket (datagram.take kReceiveBufferSize)
        = some (parsePacket (datagram.take kReceiveBufferSize)) ∧
    ((parsePacket (datagram.take kReceiveBufferSize)).isSome ↔
      datagram.length ≤ kReceiveBufferSize ∧ 14 ≤ datagram.length ∧
        datagram.length = 14 + 24 * announcedMessages datagram) ∧
    ∀ packet, parsePacket (datagram.take kReceiveBufferSize) = some packet →
      packet.messageBytes = datagram.drop 14 ∧
      ∀ i, checkedMessageAt packet i = some (messageAt packet i) ∧
        (i < announcedMessages datagram → 24 * i + 24 ≤ packet.messageBytes.length) ∧
        ((messageAt packet i).isSome ↔
          i < announcedMessages datagram ∧ SlotAccepted packet.messageBytes (24 * i)) := by
  refine ⟨checkedParsePacket_eq _, isSome_parsePacket_received, fun packet hp => ?_⟩
  have hfit := (isSome_parsePacket_received.1 (by rw [hp]; rfl)).1
  rw [List.take_of_length_le hfit] at hp
  obtain ⟨hbytes, hcount⟩ := parsePacket_parts hp
  have hl := (parsePacket_eq_some.1 hp).2
  refine ⟨hbytes, fun i => ⟨checkedMessageAt_eq hl i, fun hi => ?_, ?_⟩⟩
  · have hslot := slot_in_bounds hl (hcount ▸ hi)
    rw [kFixedMessageSize] at hslot
    omega
  · rw [← hcount]
    exact isSome_messageAt hl i

/-! ## What is added -/

theorem Adds.refl (h : Handler) : Adds h h [] := ⟨(List.append_nil _).symm, rfl, rfl⟩

theorem Adds.trans {h h₁ h₂ : Handler} {a b : List (Bytes × Message)} (h1 : Adds h h₁ a)
    (h2 : Adds h₁ h₂ b) : Adds h h₂ (a ++ b) := by
  refine ⟨?_, ?_, ?_⟩
  · rw [h2.applied, h1.applied, List.append_assoc]
  · rw [h2.orderBook, h1.orderBook, List.map_append, OrderBook.applyAll_append]
  · rw [h2.receivedMessages, h1.receivedMessages, List.length_append, Nat.add_assoc]

theorem adds_packet (h : Handler) (bytes : Bytes) (ms : List Message) (source : PacketSource)
    (seq : UInt32) :
    Adds h ((h.applyMany bytes ms).finish bytes source seq) (ms.map (bytes, ·)) := by
  refine ⟨finish_applied .., ?_, ?_⟩
  · have hid : (Prod.snd ∘ fun m : Message => (bytes, m)) = id := rfl
    rw [finish_orderBook, List.map_map, hid, List.map_id]
    rfl
  · rw [finish_receivedMessages, List.length_map]
    rfl

/-! ## Batches -/

section
variable {messages : Nat} {recovery : Recovery} {h h' : Handler} {bytes : Bytes}
  {packet : PacketView}

/-- The first packet of a batch uses up its part of what the batch yields. -/
theorem limitWithin_finish {ms : List Message} {source : PacketSource} {seq : UInt32} {n : Nat} :
    LimitWithin messages ((h.applyMany bytes ms).finish bytes source seq) n ↔
      LimitWithin messages h (ms.length + n) := by
  rw [← limitWithin_applyMany bytes]
  simp [LimitWithin]

/-- A limit that is met in a batch is met in its first packet, or that is whole and the limit is
met in the rest. -/
theorem within_usable_cons {expected : UInt32} {rest : List Bytes} (hl : ¬ LimitWithin messages h 0)
    (hw : LimitWithin messages h (usable expected (bytes :: rest)).length) :
    ∃ packet, parsePacket bytes = some packet ∧ decodeSeqNum packet.header = expected ∧
      (LimitWithin messages h (goodMessages packet).length ∨
        (¬ LimitWithin messages h (goodMessages packet).length ∧
          (goodMessages packet).length = (decodeMsgCount packet.header).toNat ∧
          LimitWithin messages h
            ((goodMessages packet).length + (usable (expected + 1) rest).length))) := by
  unfold usable at hw
  split at hw
  · exact absurd hw hl
  · rename_i packet hp
    split at hw
    · exact absurd hw hl
    · rename_i hseq
      refine ⟨packet, hp, not_not.1 hseq, ?_⟩
      by_cases hg : LimitWithin messages h (goodMessages packet).length
      · exact .inl hg
      · split at hw
        · exact absurd hw hg
        · rename_i hc
          rw [List.length_append] at hw
          exact .inr ⟨hg, not_not.1 hc, hw⟩

/-- The limit is met in the batch. -/
theorem processBatch_within {batch : List Bytes} (hl : ¬ LimitWithin messages h 0)
    (hw : LimitWithin messages h (usable h.expectedPacketSeq batch).length) :
    ∃ h' new, processBatch messages batch h = .ok () h' ∧ LimitWithin messages h' 0 ∧
      Adds h h' new ∧ ∀ entry ∈ new, ∃ i < batch.length, ∃ packet,
        parsePacket entry.1 = some packet ∧
          decodeSeqNum packet.header = h.expectedPacketSeq + UInt32.ofNat i := by
  induction batch generalizing h with
  | nil => exact absurd hw hl
  | cons bytes rest ih =>
    obtain ⟨packet, hp, hseq, hcases⟩ := within_usable_cons hl hw
    have he := processPacketBytes_eq .replay hl hp hseq
    dsimp only at he
    rw [hseq] at he
    rw [processBatch_cons hl]
    have hfirst : ∀ ms : List Message, ∀ entry ∈ ms.map (bytes, ·),
        ∃ i < (bytes :: rest).length, ∃ packet, parsePacket entry.1 = some packet ∧
          decodeSeqNum packet.header = h.expectedPacketSeq + UInt32.ofNat i := by
      rintro ms _ hm
      obtain ⟨m, -, rfl⟩ := List.mem_map.1 hm
      exact ⟨0, Nat.succ_pos _, packet, hp, by rw [hseq]; exact (UInt32.add_zero _).symm⟩
    rcases hcases with hg | ⟨hg, hc, hrest⟩
    · rw [if_pos hg] at he
      have hlim := length_take_limit bytes hg _ rfl
      rw [limitWithin_applyMany] at hlim
      rw [bind_of_ok he, processBatch_limit (limitWithin_finish.2 hlim)]
      exact ⟨_, _, rfl, limitWithin_finish.2 hlim, adds_packet .., hfirst _⟩
    · rw [if_neg hg, if_pos hc] at he
      rw [bind_of_ok he]
      obtain ⟨h', new, hok, hlim, hadd, hnew⟩ := ih (mt limitWithin_finish.1 hg)
        (limitWithin_finish.2 hrest)
      refine ⟨h', _, hok, hlim, (adds_packet ..).trans hadd, fun entry hentry => ?_⟩
      rcases List.mem_append.1 hentry with hm | hm
      · exact hfirst _ entry hm
      · obtain ⟨i, hi, packet', hp', hs'⟩ := hnew entry hm
        refine ⟨i + 1, Nat.succ_lt_succ hi, packet', hp', ?_⟩
        rw [hs', finish_expectedPacketSeq, UInt32.ofNat_add, UInt32.add_assoc,
          UInt32.add_comm 1]
        rfl

/-- The limit is not met in the batch. -/
theorem processBatch_not_within {batch : List Bytes}
    (hw : ¬ LimitWithin messages h (usable h.expectedPacketSeq batch).length)
    (hok : processBatch messages batch h = .ok () h') : ¬ LimitWithin messages h' 0 := by
  have hl : ¬ LimitWithin messages h 0 := fun hl => hw (hl.mono (Nat.zero_le _))
  induction batch generalizing h with
  | nil =>
    cases hok
    exact hl
  | cons bytes rest ih =>
    rw [processBatch_cons hl] at hok
    obtain ⟨_, h₁, h1, h2⟩ := bind_ok hok
    unfold usable at hw
    obtain ⟨packet, -, hp, hseq, -, -⟩ := processPacketBytes_ok hl h1
    rw [hp] at hw
    rw [processPacketBytes_eq _ hl hp hseq] at h1
    dsimp only at hw h1
    rw [if_neg (not_not_intro hseq)] at hw
    by_cases hc : (goodMessages packet).length = (decodeMsgCount packet.header).toNat
    · rw [if_neg (not_not_intro hc), List.length_append] at hw
      have hg : ¬ LimitWithin messages h (goodMessages packet).length :=
        fun hg => hw (hg.mono (Nat.le_add_right _ _))
      rw [if_neg hg, if_pos hc] at h1
      cases h1
      refine ih ?_ h2 (mt limitWithin_finish.1 hg)
      rw [finish_expectedPacketSeq, hseq]
      exact mt limitWithin_finish.1 hw
    · rw [if_pos hc] at hw
      rw [if_neg hw, if_neg hc] at h1
      cases h1

/-! ## A packet with a bad slot -/

/-- A packet with a bad slot that does not throw was cut by the limit, after one of its own
messages. -/
theorem processPacketBytes_incomplete {source : PacketSource} (hl : ¬ LimitWithin messages h 0)
    (hp : parsePacket bytes = some packet) (hc : ¬ packet.Complete)
    (hok : processPacketBytes messages bytes source h = .ok () h') :
    LimitWithin messages h' 0 ∧ ∃ m ms, h'.applied = h.applied ++ (bytes, m) :: ms := by
  obtain ⟨packet', ms, hp', -, rfl, hfull⟩ := processPacketBytes_ok hl hok
  rw [hp, Option.some.injEq] at hp'
  subst hp'
  have hlim : LimitWithin messages ((h.applyMany bytes ms).finish bytes source h.expectedPacketSeq)
      0 := by
    by_contra hn
    exact hc (hfull hn).1
  refine ⟨hlim, ?_⟩
  cases ms with
  | nil => exact absurd (limitWithin_finish.1 hlim) hl
  | cons m ms => exact ⟨m, ms.map (bytes, ·), finish_applied ..⟩

/-- The list of messages applied only grows. -/
def AppliedGrows (h h' : Handler) : Prop := h.applied <+: h'.applied

instance : Std.Refl AppliedGrows := ⟨fun h => List.prefix_refl h.applied⟩

instance : IsTrans Handler AppliedGrows := ⟨fun _ _ _ h1 h2 => h1.trans h2⟩

theorem respected_appliedGrows : Respected AppliedGrows where
  apply _ _ _ := List.prefix_append _ _
  finish _ _ _ _ _ _ := ⟨[], (List.append_nil _).trans (finish_applied ..).symm⟩
  unpark h _ := List.prefix_refl h.applied

/-- Nothing new comes from a datagram of which a message was applied. -/
theorem not_adds {new : List (Bytes × Message)} {m : Message} {ms : List (Bytes × Message)}
    {h₁ : Handler} (hgrow : h.applied <+: h₁.applied)
    (happ : h'.applied = h₁.applied ++ (bytes, m) :: ms) (hadd : Adds h h' new) :
    ¬ ∀ entry ∈ new, entry.1 ≠ bytes := by
  intro hne
  obtain ⟨old, hold⟩ := hgrow
  rw [hadd.applied, ← hold, List.append_assoc, List.append_cancel_left_eq] at happ
  exact hne (bytes, m) (by rw [happ]; simp) rfl

/-! ## The exact condition -/

theorem rejectedWhole_of_within (hh : Reachable messages h) (hl : ¬ LimitWithin messages h 0)
    (hp : parsePacket bytes = some packet) (hlt : h.expectedPacketSeq < decodeSeqNum packet.header)
    {batch : List Bytes}
    (hbatch : recovery h.expectedPacketSeq (decodeSeqNum packet.header - 1) = .ok batch)
    (hlen : batch.length = (decodeSeqNum packet.header).toNat - h.expectedPacketSeq.toNat)
    (hw : LimitWithin messages h (usable h.expectedPacketSeq batch).length) :
    RejectedWhole messages recovery h bytes := by
  obtain ⟨hle, -, hgap, -⟩ := gap_of_lt hlt
  obtain ⟨h₁, new, hok, hlim, hadd, hnew⟩ := processBatch_within
    (h := (h.park (decodeSeqNum packet.header) bytes).requested) hl hw
  refine ⟨h₁, new, ?_, ⟨hadd.applied, hadd.orderBook, hadd.receivedMessages⟩, ?_⟩
  · rw [handleDatagram_ahead (hh.bufferedPackets hl) hp hlt,
      requestReplay_eq (h := h.park _ bytes) hle hl, hbatch]
    dsimp only
    rw [if_neg (not_not_intro (hlen.trans hgap.symm)), bind_of_ok hok,
      drainBufferedPackets_limit hlim]
  · -- the packets of the batch carry smaller numbers
    rintro entry hentry rfl
    obtain ⟨i, hi, packet', hp', hseq⟩ := hnew entry hentry
    rw [hp, Option.some.injEq] at hp'
    subst hp'
    replace hseq : decodeSeqNum packet.header = h.expectedPacketSeq + UInt32.ofNat i := hseq
    have hn := (decodeSeqNum packet.header).toNat_lt
    have := congrArg UInt32.toNat hseq
    rw [UInt32.toNat_add, UInt32.toNat_ofNat'] at this
    omega

theorem within_of_rejectedWhole (hh : Reachable messages h) (hl : ¬ LimitWithin messages h 0)
    (hp : parsePacket bytes = some packet) (hc : ¬ packet.Complete)
    (hr : RejectedWhole messages recovery h bytes) :
    decodeSeqNum packet.header < h.expectedPacketSeq ∨
      (h.expectedPacketSeq < decodeSeqNum packet.header ∧ ∃ batch,
        recovery h.expectedPacketSeq (decodeSeqNum packet.header - 1) = .ok batch ∧
        batch.length = (decodeSeqNum packet.header).toNat - h.expectedPacketSeq.toNat ∧
        LimitWithin messages h (usable h.expectedPacketSeq batch).length) := by
  obtain ⟨h', new, hok, hadd, hnew⟩ := hr
  rcases lt_or_eq_or_gt (decodeSeqNum packet.header) h.expectedPacketSeq with hs | hs | hs
  · exact .inl hs
  · rw [handleDatagram_next hp hs] at hok
    obtain ⟨_, h₁, h1, h2⟩ := bind_ok hok
    obtain ⟨hlim, m, ms, happ⟩ := processPacketBytes_incomplete hl hp hc h1
    rw [drainBufferedPackets_limit hlim] at h2
    cases h2
    exact absurd hnew (not_adds (List.prefix_refl _) happ hadd)
  · refine .inr ⟨hs, ?_⟩
    obtain ⟨hle, -, hgap, -⟩ := gap_of_lt hs
    rw [handleDatagram_ahead (hh.bufferedPackets hl) hp hs] at hok
    obtain ⟨batch, h₁, hbatch, hlen, h1, h2⟩ := requestReplay_ok hle (by exact hl) hok
    refine ⟨batch, hbatch, hlen.trans hgap, ?_⟩
    by_contra hw
    have hl₁ := processBatch_not_within (by exact hw) h1
    obtain ⟨he₁, hb₁⟩ := gap_filled (hh.bufferedPackets hl) hs (hlen.trans hgap) h1 hl₁
    have hf : h₁.bufferedPackets[h₁.expectedPacketSeq]? = some bytes := by
      rw [hb₁, he₁, get_insert_self]
    rw [drainBufferedPackets_some hl₁ hf] at h2
    obtain ⟨_, h₂, h3, h4⟩ := bind_ok h2
    obtain ⟨hlim, m, ms, happ⟩ := processPacketBytes_incomplete (by exact hl₁) hp hc h3
    rw [drainBufferedPackets_limit hlim] at h4
    cases h4
    have hgrow : AppliedGrows (h.park (decodeSeqNum packet.header) bytes).requested h₁ :=
      (respected_appliedGrows.batch batch).ok h1
    exact absurd hnew (not_adds (h := h) hgrow happ hadd)

/-- **Malformed datagrams**, exactly. -/
theorem rejectedWhole_iff (hh : Reachable messages h) (hl : h.limitReached messages = false)
    (hd : ¬ FullyWellFormed bytes) :
    RejectedWhole messages recovery h bytes ↔
      ∀ packet, parsePacket bytes = some packet →
        decodeSeqNum packet.header < h.expectedPacketSeq ∨
          (h.expectedPacketSeq < decodeSeqNum packet.header ∧ ∃ batch,
            recovery h.expectedPacketSeq (decodeSeqNum packet.header - 1) = .ok batch ∧
            batch.length = (decodeSeqNum packet.header).toNat - h.expectedPacketSeq.toNat ∧
            LimitWithin messages h (usable h.expectedPacketSeq batch).length) := by
  rw [limitReached_eq_false_iff] at hl
  constructor
  · intro hr packet hp
    exact within_of_rejectedWhole hh hl hp (fun hc => hd ⟨packet, hp, hc⟩) hr
  · intro hcond
    cases hp : parsePacket bytes with
    | none => exact ⟨h, [], handleDatagram_malformed hp, Adds.refl h, fun _ he => nomatch he⟩
    | some packet =>
      rcases hcond packet hp with hs | ⟨hs, batch, hbatch, hlen, hw⟩
      · exact ⟨h, [], handleDatagram_stale hp hs, Adds.refl h, fun _ he => nomatch he⟩
      · exact rejectedWhole_of_within hh hl hp hs hbatch hlen hw

end

/-- Packet 1 with a good message and a slot of an unknown type. -/
def badSlotPacket : Bytes :=
  PacketHeader.layout.store (makePacketHeader 1 2 0)
    ++ (Message.addOrder (makeAddOrderMsg 7 .buy 9950 10)).wireBytes
    ++ List.replicate kFixedMessageSize 'X'.toUInt8

theorem not_fullyWellFormed_badSlotPacket : ¬ FullyWellFormed badSlotPacket := by
  rintro ⟨packet, hp, hc⟩
  have hp' : parsePacket badSlotPacket
      = some ⟨makePacketHeader 1 2 0, badSlotPacket.drop PacketHeader.layout.size⟩ := by
    decide +kernel
  rw [hp', Option.some.injEq] at hp
  subst hp
  exact absurd (hc 1 (by decide +kernel)) (by decide +kernel)

theorem rejectedWhole_iff_of_badSlotPacket :
    RejectedWhole 0 (fun _ _ => .ok []) {} badSlotPacket ↔
      ∀ packet, parsePacket badSlotPacket = some packet →
        decodeSeqNum packet.header < 1 ∨ (1 < decodeSeqNum packet.header ∧ ∃ batch,
          Except.ok [] = (Except.ok batch : Except RuntimeError (List Bytes)) ∧
          batch.length = (decodeSeqNum packet.header).toNat - (1 : UInt32).toNat ∧
          LimitWithin 0 {} (usable 1 batch).length) :=
  rejectedWhole_iff ⟨[], rfl⟩ rfl not_fullyWellFormed_badSlotPacket

/-- The good message of the packet is applied and counted, and then the handler throws. -/
theorem badSlotPacket_not_rejected :
    ¬ FullyWellFormed badSlotPacket ∧ ¬ RejectedWhole 0 (fun _ _ => .ok []) {} badSlotPacket ∧
      ∃ h, handleDatagram 0 (fun _ _ => .ok []) badSlotPacket {}
          = .error "malformed message from live packet seq=1 at index=1" h ∧
        h.receivedMessages = 1 ∧ h.orderBook.bids[(9950 : UInt32)]? = some 10 := by
  have herr : ∃ h, handleDatagram 0 (fun _ _ => .ok []) badSlotPacket {}
      = .error "malformed message from live packet seq=1 at index=1" h ∧
      h.receivedMessages = 1 ∧ h.orderBook.bids[(9950 : UInt32)]? = some 10 :=
    ⟨_, rfl, rfl, by decide +kernel⟩
  refine ⟨not_fullyWellFormed_badSlotPacket, ?_, herr⟩
  rintro ⟨h', new, hok, -⟩
  obtain ⟨h, he, -⟩ := herr
  rw [he] at hok
  cases hok

end Bmdfh.Handler
