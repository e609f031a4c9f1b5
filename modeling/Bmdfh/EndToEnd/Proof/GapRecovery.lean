import Bmdfh.EndToEnd.System
import Bmdfh.ExchangeSim.Proof.Stored
import Bmdfh.FeedHandler.Proof.Heads

/-!
# Gap recovery, end to end

`InSync p h n`: the handler has applied the first `n` packets of the publisher and nothing else. A
published packet, whichever arrives next, takes it in step to the greater of the two numbers
(`InSync.handle`): stale packets are discarded, and a gap is filled from the history. With that,
the system stays in `Sound` states (`Step.sound`), and every reachable one is described by
`gap_recovery`.
-/

namespace Bmdfh

open Std OrdMap Protocol Outcome Handler PacketHistory

/-! ## Batches of consecutive packets -/

/-- The packets carry the batches, under consecutive numbers. -/
def CarriesAll : UInt32 → List Bytes → List (List Message) → Prop
  | _, [], [] => True
  | seq, bytes :: rest, batch :: batches =>
    Carries bytes seq batch ∧ CarriesAll (seq + 1) rest batches
  | _, _, _ => False

theorem CarriesAll.length_eq {seq : UInt32} {packets : List Bytes} {batches : List (List Message)}
    (h : CarriesAll seq packets batches) : packets.length = batches.length := by
  induction packets generalizing seq batches with
  | nil =>
    cases batches with
    | nil => rfl
    | cons _ _ => cases h
  | cons bytes rest ih =>
    cases batches with
    | nil => cases h
    | cons batch batches => exact congrArg Nat.succ (ih h.2)

theorem not_limitWithin_zero (h : Handler) (n : Nat) : ¬ LimitWithin 0 h n := fun hw => hw.1 rfl

/-- A packet with the number expected. -/
theorem processPacketBytes_carries {h : Handler} {bytes : Bytes} {batch : List Message}
    (hc : Carries bytes h.expectedPacketSeq batch) (source : PacketSource) :
    processPacketBytes 0 bytes source h
      = .ok () ((h.applyMany bytes batch).finish bytes source h.expectedPacketSeq) := by
  obtain ⟨packet, hp, hseq, hcomplete, hm⟩ := hc.parsed
  obtain ⟨ms, hok, hms⟩ := processPacketBytes_complete source
    (not_limitWithin_zero h 0) hp hseq hcomplete
  rw [hms (not_limitWithin_zero h _), hm] at hok
  exact hok

/-- A batch from the number expected on is applied whole. -/
theorem processBatch_carries {h : Handler} {packets : List Bytes} {batches : List (List Message)}
    (hc : CarriesAll h.expectedPacketSeq packets batches) : ∃ h',
      processBatch 0 packets h = .ok () h' ∧
        h'.orderBook = h.orderBook.applyAll batches.flatten := by
  induction packets generalizing h batches with
  | nil =>
    cases batches with
    | nil => exact ⟨h, rfl, rfl⟩
    | cons _ _ => cases hc
  | cons bytes rest ih =>
    cases batches with
    | nil => cases hc
    | cons batch batches =>
      rw [processBatch_cons (not_limitWithin_zero h 0),
        bind_of_ok (processPacketBytes_carries hc.1 .replay)]
      obtain ⟨h', hok, hbook⟩ := ih (h := (h.applyMany bytes batch).finish bytes .replay
        h.expectedPacketSeq) hc.2
      refine ⟨h', hok, ?_⟩
      rw [hbook, finish_orderBook, List.flatten_cons, OrderBook.applyAll_append]
      rfl

/-! ## Lookups in the history of a publisher -/

/-- The packets stored from a number on. -/
theorem carriesAll_seqRange {p : Publisher} (hk : p.Kept) (k n : Nat)
    (hle : n + k ≤ p.published.length) :
    CarriesAll (UInt32.ofNat (n + 1))
      ((seqRange (UInt32.ofNat (n + 1)) k).filterMap (p.packetHistory[·]?))
      ((p.published.drop n).take k) := by
  induction k generalizing n with
  | zero => exact trivial
  | succ k ih =>
    obtain ⟨bytes, hget, hc⟩ := hk.history n (by omega)
    have hdrop : (p.published.drop n).take (k + 1)
        = p.published[n] :: (p.published.drop (n + 1)).take k := by
      rw [List.drop_eq_getElem_cons (by omega), List.take_succ_cons]
    have hnext : UInt32.ofNat (n + 1) + 1 = UInt32.ofNat (n + 1 + 1) := by
      rw [UInt32.ofNat_add (n + 1)]
      rfl
    rw [seqRange_succ, List.filterMap_cons_some hget, hdrop, hnext]
    refine ⟨hc, ?_⟩
    rw [hnext]
    exact ih (n + 1) (by omega)

/-! ## One datagram -/

/-- The handler has applied the first `n` packets of the publisher, and nothing is parked. -/
structure InSync (p : Publisher) (h : Handler) (n : Nat) : Prop where
  le : n ≤ p.published.length
  expected : h.expectedPacketSeq = UInt32.ofNat (n + 1)
  orderBook : h.orderBook = OrderBook.applyAll {} (p.published.take n).flatten
  bufferedPackets : h.bufferedPackets = ∅

section
variable {p : Publisher} {h : Handler} {n i : Nat} {bytes : Bytes}

theorem applyAll_take_succ (hi : i < p.published.length)
    (hb : h.orderBook = OrderBook.applyAll {} (p.published.take i).flatten) :
    h.orderBook.applyAll p.published[i]
      = OrderBook.applyAll {} (p.published.take (i + 1)).flatten := by
  rw [hb, ← OrderBook.applyAll_append, List.take_succ_eq_append_getElem hi, List.flatten_append]
  simp

/-- The next packet. -/
theorem InSync.process (hs : InSync p h i) (hi : i < p.published.length)
    (hc : Carries bytes (UInt32.ofNat (i + 1)) p.published[i]) (source : PacketSource) : ∃ h',
      processPacketBytes 0 bytes source h = .ok () h' ∧ InSync p h' (i + 1) := by
  rw [← hs.expected] at hc
  refine ⟨_, processPacketBytes_carries hc source, hi, ?_, ?_, ?_⟩
  · rw [finish_expectedPacketSeq, hs.expected, UInt32.ofNat_add (i + 1)]
    rfl
  · rw [finish_orderBook]
    exact applyAll_take_succ hi hs.orderBook
  · rw [finish_bufferedPackets]
    exact hs.bufferedPackets

theorem InSync.drain (hs : InSync p h n) : drainBufferedPackets 0 h = .ok () h := by
  refine drainBufferedPackets_none ?_
  rw [hs.bufferedPackets]
  rfl

theorem toNat_seqNum (hlt : p.published.length < 2 ^ 32 - 1) (hi : i ≤ p.published.length) :
    (UInt32.ofNat (i + 1)).toNat = i + 1 :=
  UInt32.toNat_ofNat_of_lt' (show i + 1 < 2 ^ 32 by omega)

/-- Once the gap is replayed, the parked packet is the next one. -/
theorem InSync.unpark (hs : InSync p h n) (hn : n ≤ i) (hi : i < p.published.length)
    {h₁ : Handler} (he : h₁.expectedPacketSeq = UInt32.ofNat (i + 1))
    (hb : h₁.bufferedPackets = (∅ : ExtTreeMap UInt32 Bytes).insert (UInt32.ofNat (i + 1)) bytes)
    (hbook : h₁.orderBook
      = h.orderBook.applyAll ((p.published.drop n).take (i - n)).flatten) :
    InSync p { h₁ with
      bufferedPackets := h₁.bufferedPackets.erase h₁.expectedPacketSeq } i := by
  refine ⟨by omega, he, ?_, ?_⟩
  · show h₁.orderBook = _
    rw [hbook, hs.orderBook, ← OrderBook.applyAll_append, ← List.flatten_append,
      ← List.take_add, Nat.add_sub_cancel' hn]
  · show h₁.bufferedPackets.erase h₁.expectedPacketSeq = ∅
    rw [hb, he, erase_insert, ExtTreeMap.erase_empty]

/-- A packet ahead of the next: those from `n + 1` to `i` are replayed, then it is drained. -/
theorem InSync.ahead (hk : p.Kept) (hlt : p.published.length < 2 ^ 32 - 1) (hs : InSync p h n)
    (hi : i < p.published.length) (hc : Carries bytes (UInt32.ofNat (i + 1)) p.published[i])
    (hgt : n < i) : ∃ h',
      handleDatagram 0 (fun a b => .ok (p.packetHistory.lookupRange a b)) bytes h = .ok () h' ∧
        InSync p h' (i + 1) := by
  obtain ⟨packet, hp, hseq, -, -⟩ := hc.parsed
  have hn := toNat_seqNum hlt hs.le
  have hin := toNat_seqNum hlt (Nat.le_of_lt hi)
  have hahead : h.expectedPacketSeq < decodeSeqNum packet.header := by
    rw [hseq, hs.expected, UInt32.lt_iff_toNat_lt, hn, hin]
    omega
  obtain ⟨hfirst, hlast, hcount, -⟩ := gap_of_lt hahead
  rw [handleDatagram_ahead hs.bufferedPackets hp hahead, requestReplay_eq
    (h := h.park (decodeSeqNum packet.header) bytes) hfirst (not_limitWithin_zero _ 0)]
  dsimp only
  -- the lookup finds the whole gap
  have hrange :
      (decodeSeqNum packet.header - 1).toNat + 1 - h.expectedPacketSeq.toNat = i - n := by
    rw [hlast, hseq, hs.expected, hn, hin]
    omega
  rw [lookupRange_eq, hrange]
  have hall := carriesAll_seqRange hk (i - n) n (by omega)
  rw [← hs.expected] at hall
  have hlen := hall.length_eq
  rw [List.length_take, List.length_drop, Nat.min_eq_left (by omega)] at hlen
  have hcount' : (decodeSeqNum packet.header - 1 - h.expectedPacketSeq).toNat + 1 = i - n := by
    rw [hcount, hseq, hs.expected, hn, hin]
    omega
  rw [if_neg (not_not_intro (hlen.trans hcount'.symm))]
  obtain ⟨h₁, hok, hbook⟩ := processBatch_carries
    (h := (h.park (decodeSeqNum packet.header) bytes).requested) hall
  obtain ⟨he₁, hb₁⟩ := gap_filled hs.bufferedPackets hahead
    (hlen.trans (hcount'.symm.trans hcount)) hok (not_limitWithin_zero _ 0)
  have hf : h₁.bufferedPackets[h₁.expectedPacketSeq]? = some bytes := by
    rw [hb₁, he₁, get_insert_self]
  rw [hseq] at he₁ hb₁
  have hs₁ := hs.unpark (Nat.le_of_lt hgt) hi he₁ hb₁ hbook
  obtain ⟨h₂, hok₂, hs₂⟩ := hs₁.process hi hc .drain
  refine ⟨h₂, ?_, hs₂⟩
  rw [bind_of_ok hok, drainBufferedPackets_some (not_limitWithin_zero _ 0) hf, bind_of_ok hok₂]
  exact hs₂.drain

/-- **One datagram**: a published packet takes the handler to the greater number. -/
theorem InSync.handle (hk : p.Kept) (hlt : p.published.length < 2 ^ 32 - 1) (hs : InSync p h n)
    (hi : i < p.published.length) (hget : p.packetHistory[UInt32.ofNat (i + 1)]? = some bytes) :
    ∃ h', handleDatagram 0 (fun a b => .ok (p.packetHistory.lookupRange a b)) bytes h = .ok () h' ∧
      InSync p h' (max n (i + 1)) := by
  obtain ⟨bytes', hget', hc⟩ := hk.history i hi
  rw [hget, Option.some.injEq] at hget'
  subst hget'
  obtain ⟨packet, hp, hseq, -, -⟩ := hc.parsed
  rcases Nat.lt_trichotomy i n with hlt' | rfl | hgt
  · refine ⟨h, handleDatagram_stale hp ?_, ?_⟩
    · rw [hseq, hs.expected, UInt32.lt_iff_toNat_lt, toNat_seqNum hlt hs.le,
        toNat_seqNum hlt (Nat.le_of_lt hi)]
      omega
    · rw [Nat.max_eq_left (by omega)]
      exact hs
  · obtain ⟨h', hok, hs'⟩ := hs.process hi hc .live
    refine ⟨h', ?_, by rwa [Nat.max_eq_right (Nat.le_succ _)]⟩
    rw [handleDatagram_next hp (hseq.trans hs.expected.symm), bind_of_ok hok]
    exact hs'.drain
  · rw [Nat.max_eq_right (by omega)]
    exact hs.ahead hk hlt hi hc hgt

end

/-! ## The publisher goes on -/

/-- The datagram is a packet the publisher has stored. -/
def Publisher.Published (p : Publisher) (datagram : Bytes) (i : Nat) : Prop :=
  i < p.published.length ∧ p.packetHistory[UInt32.ofNat (i + 1)]? = some datagram

/-- What was published stays as it was. -/
structure Publisher.Extends (p p' : Publisher) : Prop where
  published : p.published <+: p'.published
  history : ∀ i < p.published.length,
    p'.packetHistory[UInt32.ofNat (i + 1)]? = p.packetHistory[UInt32.ofNat (i + 1)]?

section
variable {options : Options} {p p' : Publisher}

theorem extends_storePacket {draws : List Draws} {publishTsc : UInt64} (hk : p.Kept)
    (h : p.storePacket options draws publishTsc = some p') (hlt : p'.published.length < 2 ^ 32) :
    p.Extends p' := by
  obtain ⟨hp, batch, generator, bytes, -, -, rfl⟩ := Publisher.storePacket_eq_some h
  refine ⟨List.prefix_append _ _, fun i hi => ?_⟩
  simp only [List.length_append, List.length_singleton] at hlt
  show (p.packetHistory.store p.packetSequence bytes)[UInt32.ofNat (i + 1)]? = _
  rw [hk.sequence_of_idle hp]
  exact p.packetHistory.get_store_ofNat_ne bytes (by omega) (by omega) (by omega)

theorem extends_sendPacket {datagram : Option Bytes}
    (h : p.sendPacket options = some (p', datagram)) : p.Extends p' := by
  obtain ⟨-, -, -, -, hh, hpub, -⟩ := Publisher.sendPacket_eq_some h
  exact ⟨hpub ▸ List.prefix_refl _, fun i _ => by rw [hh]⟩

theorem Publisher.Published.extend {d : Bytes} {i : Nat} (h : p.Published d i)
    (hext : p.Extends p') : p'.Published d i :=
  ⟨Nat.lt_of_lt_of_le h.1 hext.published.length_le, (hext.history i h.1).trans h.2⟩

theorem InSync.extend {h : Handler} {n : Nat} (hs : InSync p h n) (hext : p.Extends p') :
    InSync p' h n := by
  refine ⟨Nat.le_trans hs.le hext.published.length_le, hs.expected, ?_, hs.bufferedPackets⟩
  obtain ⟨new, hnew⟩ := hext.published
  rw [hs.orderBook, ← hnew, List.take_append_of_le_length hs.le]

theorem Publisher.Published.seqNumOf {d : Bytes} {i : Nat} (h : p.Published d i) (hk : p.Kept)
    (hlt : p.published.length < 2 ^ 32 - 1) : System.seqNumOf d = some (i + 1) := by
  obtain ⟨hi, hget⟩ := h
  obtain ⟨bytes, hget', hc⟩ := hk.history i hi
  rw [hget, Option.some.injEq] at hget'
  subst hget'
  obtain ⟨packet, hp, hseq, -, -⟩ := hc.parsed
  rw [System.seqNumOf, hp, Option.map_some, hseq, UInt32.toNat_ofNat_of_lt']
  show i + 1 < 2 ^ 32
  omega

end

/-! ## The states of the system -/

namespace System

/-- What holds of the handler in each phase. -/
def SoundPhase (s : System) : Phase → Prop
  | .head => InSync s.publisher s.handler s.largestDelivered
  | .handling received => ∃ n i, InSync s.publisher s.handler n ∧
    s.publisher.Published received i ∧ s.largestDelivered = max n (i + 1)
  | .thrown _ => False

structure Sound (s : System) : Prop where
  publisher : s.publisher.Kept
  network : ∀ d ∈ s.network, ∃ i, s.publisher.Published d i
  phase : SoundPhase s s.phase

theorem sound_init : Sound {} :=
  ⟨Publisher.kept_init, fun _ hd => (nomatch hd), InSync.mk (Nat.le_refl _) rfl rfl rfl⟩

/-- A state in which only the publisher has moved on. -/
theorem Sound.publish {s : System} (hs : Sound s) {p' : Publisher} {network : List Bytes}
    (hk : p'.Kept) (hext : s.publisher.Extends p')
    (hnet : ∀ d ∈ network, d ∈ s.network ∨ ∃ i, p'.Published d i) :
    Sound { s with publisher := p', network := network } := by
  refine ⟨hk, fun d hd => ?_, ?_⟩
  · rcases hnet d hd with hd | hd
    · obtain ⟨i, hi⟩ := hs.network d hd
      exact ⟨i, hi.extend hext⟩
    · exact hd
  · have hp := hs.phase
    show SoundPhase _ s.phase
    cases hphase : s.phase with
    | head =>
      rw [hphase] at hp
      exact InSync.extend hp hext
    | handling received =>
      rw [hphase] at hp
      obtain ⟨n, i, hn, hi, hl⟩ := hp
      exact ⟨n, i, hn.extend hext, hi.extend hext, hl⟩
    | thrown e =>
      rw [hphase] at hp
      exact hp.elim

theorem Step.published_le {options : Options} {s s' : System} (h : Step options s s') :
    s.publisher.published.length ≤ s'.publisher.published.length := by
  cases h with
  | store stored =>
    obtain ⟨-, _, _, _, -, -, rfl⟩ := Publisher.storePacket_eq_some stored
    simp
  | send sent =>
    obtain ⟨-, -, -, -, -, hpub, -⟩ := Publisher.sendPacket_eq_some sent
    exact Nat.le_of_eq (congrArg List.length hpub.symm)
  | _ => exact Nat.le_refl _

theorem length_le_bufferSize {p : Publisher} {d : Bytes} {i : Nat} (hk : p.Kept)
    (h : p.Published d i) : d.length ≤ kReceiveBufferSize := by
  obtain ⟨bytes, hget, hc⟩ := hk.history i h.1
  rw [h.2, Option.some.injEq] at hget
  subst hget
  exact Nat.le_trans hc.length_le (by decide)

/-- The datagram in hand is handled without a throw. -/
theorem Sound.handle {s : System} {received : Bytes} (hs : Sound s)
    (hlt : s.publisher.published.length < 2 ^ 32 - 1) (busy : s.phase = .handling received) :
    ∃ h', Handler.handleDatagram 0 s.recovery received s.handler = .ok () h' ∧
      InSync s.publisher h' s.largestDelivered := by
  have hp := hs.phase
  rw [busy] at hp
  obtain ⟨n, i, hn, ⟨hi, hget⟩, hl⟩ := hp
  rw [hl]
  exact hn.handle hs.publisher hlt hi hget

/-- **One step** of the system. -/
theorem Step.sound {options : Options} {s s' : System} (h : Step options s s') (hs : Sound s)
    (hlt : s'.publisher.published.length < 2 ^ 32 - 1) : Sound s' := by
  cases h with
  | @store draws publishTsc p' stored =>
    have hlt : p'.published.length < 2 ^ 32 - 1 := hlt
    refine hs.publish (hs.publisher.storePacket stored (by omega))
      (extends_storePacket hs.publisher stored (by omega)) fun d hd => .inl hd
  | send sent =>
    refine hs.publish (hs.publisher.sendPacket sent) (extends_sendPacket sent) fun d hd => ?_
    rcases List.mem_append.1 hd with hd | hd
    · exact .inl hd
    · rw [Option.mem_toList] at hd
      subst hd
      obtain ⟨i, hi, hget⟩ := hs.publisher.datagram sent
      exact .inr ⟨i, hi, hget⟩
  | lose lost =>
    exact ⟨hs.publisher, fun d hd => hs.network d (lost.symm.subset (.tail _ hd)), hs.phase⟩
  | @duplicate datagram mem =>
    refine ⟨hs.publisher, fun d hd => ?_, hs.phase⟩
    rcases List.mem_cons.1 hd with rfl | hd
    · exact hs.network d mem
    · exact hs.network d hd
  | @receive datagram network idle arrives =>
    obtain ⟨i, hi⟩ := hs.network datagram (arrives.symm.subset (.head _))
    have hp := hs.phase
    rw [idle] at hp
    refine ⟨hs.publisher, fun d hd => hs.network d (arrives.symm.subset (.tail _ hd)),
      s.largestDelivered, i, hp, ?_, ?_⟩
    · rw [List.take_of_length_le (length_le_bufferSize hs.publisher hi)]
      exact hi
    · show ((s.delivered ++ [datagram]).filterMap seqNumOf).foldl max 0 = _
      rw [List.filterMap_append, List.filterMap_cons_some (hi.seqNumOf hs.publisher hlt),
        List.foldl_append]
      rfl
  | handle busy returns =>
    obtain ⟨h', hok, hs'⟩ := hs.handle hlt busy
    cases hok.symm.trans returns
    exact ⟨hs.publisher, hs.network, hs'⟩
  | throw busy throws =>
    obtain ⟨h', hok, hs'⟩ := hs.handle hlt busy
    cases hok.symm.trans throws

theorem Reachable.sound {options : Options} {s : System} (h : Reachable options s)
    (hlt : s.publisher.published.length < 2 ^ 32 - 1) : Sound s := by
  induction h with
  | refl => exact sound_init
  | tail _ hstep ih => exact hstep.sound (ih (Nat.lt_of_le_of_lt hstep.published_le hlt)) hlt

/-- **Gap recovery.** The handler never throws, and between datagrams its book is that of all
packets published up to the largest number delivered. -/
theorem gap_recovery (options : Options) (s : System) (h : Reachable options s)
    (hlt : s.publisher.published.length < 2 ^ 32 - 1) :
    (∀ error, s.phase ≠ .thrown error) ∧
      (s.phase = .head →
        s.handler.expectedPacketSeq.toNat = 1 + s.largestDelivered ∧
        s.handler.orderBook = OrderBook.applyAll {}
          (s.publisher.published.take (s.handler.expectedPacketSeq.toNat - 1)).flatten) := by
  have hp := (h.sound hlt).phase
  refine ⟨fun error he => ?_, fun he => ?_⟩
  · rw [he] at hp
    exact hp
  · rw [he] at hp
    have hle := hp.le
    have hn : s.handler.expectedPacketSeq.toNat = s.largestDelivered + 1 := by
      rw [hp.expected]
      exact UInt32.toNat_ofNat_of_lt' (show _ < 2 ^ 32 by omega)
    refine ⟨by omega, ?_⟩
    rw [hn]
    exact hp.orderBook

/-- A datagram taken off the socket can be handled. -/
theorem Reachable.handled {options : Options} {s : System} {received : Bytes}
    (h : Reachable options s) (hlt : s.publisher.published.length < 2 ^ 32 - 1)
    (busy : s.phase = .handling received) :
    ∃ handler, Reachable options { s with handler, phase := .head } := by
  obtain ⟨handler, hok, -⟩ := (h.sound hlt).handle hlt busy
  exact ⟨handler, h.tail (.handle busy hok)⟩

/-- A publisher that stores and sends two packets, one after the other. -/
theorem exists_two_sent : ∃ draws p₁ p₂ p₃ p₄ datagram₁ datagram₂,
    let options : Options := { messages := 2, messagesPerPacket := 1 }
    Publisher.storePacket options draws 5 {} = some p₁ ∧
      p₁.sendPacket options = some (p₂, some datagram₁) ∧
      p₂.storePacket options draws 6 = some p₃ ∧
      p₃.sendPacket options = some (p₄, some datagram₂) ∧
      p₄.published.length = 2 ∧ seqNumOf datagram₂ = some 2 := by
  let draws : Draws := ⟨0, 0, ⟨9950, by decide⟩, ⟨10001, by decide⟩, ⟨10, by decide⟩, fun _ => 0⟩
  let options : Options := { messages := 2, messagesPerPacket := 1 }
  have hrun : ((Publisher.storePacket options [draws] 5 {}).bind fun p₁ =>
      (p₁.sendPacket options).bind fun sent =>
      (sent.1.storePacket options [draws] 6).bind fun p₃ =>
      (p₃.sendPacket options).map fun sent' =>
        (sent.2.isSome, sent'.1.published.length, sent'.2.bind seqNumOf))
      = some (true, 2, some 2) := by
    decide +kernel
  simp only [Option.bind_eq_some_iff, Option.map_eq_some_iff, Prod.exists, Prod.mk.injEq] at hrun
  obtain ⟨p₁, h₁, p₂, datagram₁, h₂, p₃, h₃, p₄, datagram₂, h₄, hsome, hlen, _, rfl, hnum⟩ := hrun
  obtain ⟨datagram₁, rfl⟩ := Option.isSome_iff_exists.1 hsome
  exact ⟨_, p₁, p₂, p₃, p₄, datagram₁, _, h₁, h₂, h₃, h₄, hlen, hnum⟩

/-- The first of two packets is lost, and replayed when the second one is received. -/
theorem gap_recovery_of_lost_packet :
    ∃ s, Reachable { messages := 2, messagesPerPacket := 1 } s ∧ s.phase = .head ∧
      s.publisher.published.length = 2 ∧ s.delivered.length = 1 ∧
      s.handler.expectedPacketSeq.toNat = 3 ∧
      s.handler.orderBook = OrderBook.applyAll {} s.publisher.published.flatten := by
  obtain ⟨draws, p₁, p₂, p₃, p₄, datagram₁, datagram₂, h₁, h₂, h₃, h₄, hlen, hnum⟩ :=
    exists_two_sent
  have hlost : Reachable _ { publisher := p₂ } :=
    ((Relation.ReflTransGen.refl.tail (Step.store h₁)).tail (.send h₂)).tail
      (.lose (.refl [datagram₁]))
  have hsent := (hlost.tail (.store h₃)).tail (.send h₄)
  have hreceived := hsent.tail (.receive rfl (.refl [datagram₂]))
  have hlt : p₄.published.length < 2 ^ 32 - 1 := by
    rw [hlen]
    decide
  obtain ⟨handler, h⟩ := Reachable.handled hreceived hlt rfl
  obtain ⟨hexpected, hbook⟩ := (gap_recovery _ _ h hlt).2 rfl
  change _ = 1 + ([datagram₂].filterMap seqNumOf).foldl max 0 at hexpected
  rw [List.filterMap_cons_some hnum] at hexpected
  refine ⟨_, h, rfl, hlen, rfl, hexpected, ?_⟩
  rw [hexpected] at hbook
  change _ = OrderBook.applyAll {} (p₄.published.take 2).flatten at hbook
  rwa [List.take_of_length_le (Nat.le_of_eq hlen)] at hbook

end System

end Bmdfh
