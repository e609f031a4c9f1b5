import Bmdfh.EndToEnd.Proof.Connections

/-!
# What the handlers are replayed

A handler requests a range when a packet behind it has arrived, so the range has been published;
the next range begins behind it. So what comes back over the connection is what was published under
these numbers, each at most once (`Stack.replayed`).
-/

namespace Bmdfh

open Std OrdMap Protocol Handler PacketHistory

/-! ## Ranges that have been published -/

/-- What was published under the numbers of a range. -/
def Publisher.batches (p : Publisher) (startSeq endSeq : UInt32) : List (List Message) :=
  (p.published.take endSeq.toNat).drop (startSeq.toNat - 1)

section
variable {p p' : Publisher} {startSeq endSeq : UInt32}

theorem carriesAll_lookupRange (hk : p.Kept) (hne : startSeq ≠ 0) (hle : startSeq ≤ endSeq)
    (hend : endSeq.toNat ≤ p.published.length) :
    CarriesAll startSeq (p.packetHistory.lookupRange startSeq endSeq)
      (p.batches startSeq endSeq) := by
  have hpos : startSeq.toNat ≠ 0 := fun h => hne (UInt32.toNat_inj.1 h)
  have hle' := UInt32.le_iff_toNat_le.1 hle
  have hall := carriesAll_seqRange hk (endSeq.toNat + 1 - startSeq.toNat) (startSeq.toNat - 1)
    (by omega)
  have hstart : UInt32.ofNat (startSeq.toNat - 1 + 1) = startSeq := by
    rw [Nat.sub_add_cancel (Nat.pos_of_ne_zero hpos), UInt32.ofNat_toNat]
  rw [hstart] at hall
  rw [lookupRange_eq, Publisher.batches, List.drop_take]
  have hcount : endSeq.toNat - (startSeq.toNat - 1) = endSeq.toNat + 1 - startSeq.toNat := by
    omega
  rwa [hcount]

theorem Publisher.Extends.batches (hext : p.Extends p')
    (hend : endSeq.toNat ≤ p.published.length) :
    p'.batches startSeq endSeq = p.batches startSeq endSeq := by
  obtain ⟨new, hnew⟩ := hext.published
  unfold Publisher.batches
  rw [← hnew, List.take_append_of_le_length hend]

theorem Publisher.length_batches (hne : startSeq ≠ 0) (hle : startSeq ≤ endSeq)
    (hend : endSeq.toNat ≤ p.published.length) :
    (p.batches startSeq endSeq).length = (endSeq - startSeq).toNat + 1 := by
  have hpos : startSeq.toNat ≠ 0 := fun h => hne (UInt32.toNat_inj.1 h)
  have hle' := UInt32.le_iff_toNat_le.1 hle
  rw [Publisher.batches, List.length_drop, List.length_take, Nat.min_eq_left hend,
    UInt32.toNat_sub_of_le _ _ hle]
  omega

end

/-- A handler with nothing parked requests the range before the packet in hand. -/
theorem Handler.replayRange_of_parked {messages : Nat} {received : Bytes} {h : Handler}
    {startSeq endSeq : UInt32} (hb : h.bufferedPackets = ∅)
    (hr : h.replayRange messages received = some (startSeq, endSeq)) :
    ∃ packet, parsePacket received = some packet ∧
      h.expectedPacketSeq < decodeSeqNum packet.header ∧
      endSeq = decodeSeqNum packet.header - 1 := by
  unfold replayRange at hr
  cases hp : parsePacket received with
  | none =>
    rw [hp] at hr
    cases hr
  | some packet =>
    rw [hp] at hr
    dsimp only at hr
    by_cases hgt : decodeSeqNum packet.header > h.expectedPacketSeq
    · have hfirst : first? (h.park (decodeSeqNum packet.header) received).bufferedPackets
          = some (decodeSeqNum packet.header, received) := (parkedAt_park hb _ _).first?
      rw [if_neg (UInt32.lt_asymm hgt), if_pos hgt, hfirst] at hr
      dsimp only at hr
      split at hr
      · cases hr
      · obtain ⟨-, rfl⟩ := Prod.mk.inj (Option.some.inj hr)
        exact ⟨packet, rfl, hgt, rfl⟩
    · rw [if_neg hgt] at hr
      split at hr <;> cases hr

/-! ## One handler -/

namespace Member

variable {messages : Nat} {p : Publisher} {m : Member}

/-- With a datagram in hand, what the handler expects is not beyond the next of what has been
delivered. -/
theorem Sound.expected_le (hs : Sound messages p m) (hlt : p.published.length < 2 ^ 32 - 1)
    {received : Bytes} (busy : m.phase = .handling received) :
    m.handler.expectedPacketSeq.toNat ≤ m.largestDelivered + 1 := by
  have hp := hs.phase
  rw [busy] at hp
  obtain ⟨n, i, hn, -, -, hmax⟩ := hp
  rw [hn.expected, toNat_seqNum hlt hn.le, hmax]
  exact Nat.succ_le_succ (Nat.le_max_left ..)

theorem Sound.expected_eq (hs : Sound messages p m) (hlt : p.published.length < 2 ^ 32 - 1)
    (idle : m.phase = .head) (hl : ¬ LimitWithin messages m.handler 0) :
    m.handler.expectedPacketSeq.toNat = m.largestDelivered + 1 := by
  have hp := hs.phase
  rw [idle] at hp
  obtain ⟨n, hn, hmax⟩ := hp
  rw [hn.expected, toNat_seqNum hlt hn.le, hmax hl]

/-- The range that is requested ends before the packet in hand. -/
theorem Sound.requested (hs : Sound messages p m) (hk : p.Kept)
    (hlt : p.published.length < 2 ^ 32 - 1) {received : Bytes} {startSeq endSeq : UInt32}
    (busy : m.phase = .handling received)
    (asks : m.handler.replayRange messages received = some (startSeq, endSeq)) :
    startSeq ≠ 0 ∧ endSeq.toNat < m.largestDelivered ∧ endSeq.toNat ≤ p.published.length := by
  have hp := hs.phase
  rw [busy] at hp
  obtain ⟨n, i, hn, hl, ⟨hi, hget⟩, hmax⟩ := hp
  obtain ⟨bytes, hget', hc⟩ := hk.history i hi
  rw [hget, Option.some.injEq] at hget'
  subst hget'
  obtain ⟨packet, hparse, hseq, -, -⟩ := hc.parsed
  obtain ⟨packet', hparse', hgt, rfl⟩ := replayRange_of_parked (hn.parked hl) asks
  obtain rfl := Option.some.inj (hparse.symm.trans hparse')
  obtain ⟨-, hend, -⟩ := gap_of_lt hgt
  rw [hseq, toNat_seqNum hlt (Nat.le_of_lt hi)] at hend
  rw [hseq, hmax]
  refine ⟨fun hzero => ?_, by omega, by omega⟩
  have hstart := congrArg UInt32.toNat (replayRange_eq_some asks).1
  rw [hzero, hn.expected, toNat_seqNum hlt hn.le] at hstart
  exact Nat.succ_ne_zero n hstart.symm

end Member

namespace Subscriber

variable {messages : Nat} {host : String} {capacity : ℕ+} {served : Prop} {p p' : Publisher}
  {m m' : Subscriber} {received : Bytes}

/-- The largest sequence number delivered, 0 if none. -/
def largestDelivered (m : Subscriber) : Nat := (m.toMember .head).largestDelivered

/-- The ranges requested lie behind what the handler is to process next. -/
def BehindPhase (messages : Nat) (m : Subscriber) (requests : List (UInt32 × UInt32)) :
    SubscriberPhase → Prop
  | .head => ¬ LimitWithin messages m.handler 0 →
    ∀ range ∈ requests, range.2 < m.handler.expectedPacketSeq
  | .handling _ => ∀ range ∈ requests, range.2 < m.handler.expectedPacketSeq
  | .requesting _ => ∀ range ∈ requests, range.2.toNat < m.largestDelivered
  | .thrown _ => True

/-- What has been requested and looked up has been published, and nothing is requested twice. -/
structure Replayed (messages : Nat) (p : Publisher) (m : Subscriber) : Prop where
  requests : ∀ range ∈ m.session.requests, range.1 ≠ 0 ∧ range.1 ≤ range.2 ∧
    range.2.toNat ≤ p.published.length
  lookups : ∀ lookup ∈ m.session.lookups, lookup.endSeq.toNat ≤ p.published.length ∧
    CarriesAll lookup.startSeq (lookup.history.lookupRange lookup.startSeq lookup.endSeq)
      (p.batches lookup.startSeq lookup.endSeq)
  once : m.session.requests.Pairwise fun range range' => range.2 < range'.1
  behind : BehindPhase messages m m.session.requests m.phase

theorem replayed_init (messages : Nat) : Replayed messages {} {} :=
  ⟨nofun, nofun, .nil, fun _ => nofun⟩

/-- The publisher has moved on. -/
theorem Replayed.extend (hr : Replayed messages p m) (hext : p.Extends p') :
    Replayed messages p' m := by
  have hle := hext.published.length_le
  refine ⟨fun range hmem => ?_, fun lookup hmem => ?_, hr.once, hr.behind⟩
  · obtain ⟨hne, hrange, hend⟩ := hr.requests range hmem
    exact ⟨hne, hrange, Nat.le_trans hend hle⟩
  · obtain ⟨hend, hc⟩ := hr.lookups lookup hmem
    rw [hext.batches hend]
    exact ⟨Nat.le_trans hend hle, hc⟩

/-- A move of an end of the connection. -/
theorem Replayed.move (hr : Replayed messages p m) (hk : p.Kept)
    (hs : Sound messages p.packetHistory m) {session : Session}
    (hm : Session.Move capacity m.session session) : Replayed messages p { m with session } := by
  have hlookups : ∀ lookup ∈ session.lookups, lookup.endSeq.toNat ≤ p.published.length ∧
      CarriesAll lookup.startSeq (lookup.history.lookupRange lookup.startSeq lookup.endSeq)
        (p.batches lookup.startSeq lookup.endSeq) := by
    obtain ⟨_, hbusy⟩ := hs.session.busy hm
    cases hm with
    | @serverLooksUp startSeq endSeq next asks =>
      intro lookup hmem
      rcases List.mem_append.1 hmem with hmem | hmem
      · exact hr.lookups lookup hmem
      · -- the range is the last one requested
        have hrange : (startSeq, endSeq) ∈ m.session.requests := by
          rw [hbusy.looksUp asks]
          exact List.mem_append_right _ (List.mem_singleton_self _)
        obtain ⟨hne, hle, hend⟩ := hr.requests _ hrange
        rw [List.mem_singleton.1 hmem]
        dsimp only
        rw [hs.history_eq]
        exact ⟨hend, carriesAll_lookupRange hk hne hle hend⟩
    | _ => exact hr.lookups
  refine ⟨?_, hlookups, ?_, ?_⟩
  · show ∀ range ∈ session.requests, _
    rw [hm.requests_eq]
    exact hr.requests
  · show session.requests.Pairwise _
    rw [hm.requests_eq]
    exact hr.once
  · show BehindPhase messages _ session.requests m.phase
    rw [hm.requests_eq]
    exact hr.behind

/-- **One step** of a handler. -/
theorem Step.replayed (h : Step messages host capacity served m m') (hk : p.Kept)
    (hlt : p.published.length < 2 ^ 32 - 1) (hr : Replayed messages p m)
    (hs : Sound messages p.packetHistory m) (hm : (m.abstract messages).Sound messages p)
    (hm' : (m'.abstract messages).Sound messages p) : Replayed messages p m' := by
  have hbehind := hr.behind
  cases h with
  | lose => exact ⟨hr.requests, hr.lookups, hr.once, hbehind⟩
  | duplicate => exact ⟨hr.requests, hr.lookups, hr.once, hbehind⟩
  | receive idle goesOn _ =>
    rw [idle] at hbehind
    exact ⟨hr.requests, hr.lookups, hr.once, hbehind (limitReached_eq_false_iff.1 goesOn)⟩
  | @handle received handler busy _ _ =>
    rw [busy] at hbehind
    rw [abstract_handling busy] at hm
    rw [abstract_head rfl] at hm'
    refine ⟨hr.requests, hr.lookups, hr.once, fun hl range hmem => ?_⟩
    rw [UInt32.lt_iff_toNat_lt]
    calc range.2.toNat < m.handler.expectedPacketSeq.toNat :=
          UInt32.lt_iff_toNat_lt.1 (hbehind range hmem)
      _ ≤ m.largestDelivered + 1 := hm.expected_le hlt rfl
      _ = handler.expectedPacketSeq.toNat := (hm'.expected_eq hlt rfl hl).symm
  | throw => exact ⟨hr.requests, hr.lookups, hr.once, trivial⟩
  | @request received startSeq endSeq busy asks =>
    rw [busy] at hbehind
    rw [abstract_handling busy] at hm
    obtain ⟨hne, hdelivered, hend⟩ := hm.requested hk hlt rfl asks
    obtain ⟨hstart, hle⟩ := replayRange_eq_some asks
    have hlast : endSeq.toNat < m.largestDelivered := hdelivered
    refine ⟨fun range hmem => ?_, hr.lookups, ?_, fun range hmem => ?_⟩
    · rcases List.mem_append.1 hmem with hmem | hmem
      · exact hr.requests range hmem
      · rw [List.mem_singleton.1 hmem]
        exact ⟨hne, hle, hend⟩
    · refine List.pairwise_append.2 ⟨hr.once, List.pairwise_singleton .., fun range hmem _ hl => ?_⟩
      rw [List.mem_singleton.1 hl, hstart]
      exact hbehind range hmem
    · rcases List.mem_append.1 hmem with hmem | hmem
      · -- it lies behind the range requested now
        have hlt := UInt32.lt_iff_toNat_lt.1 (hstart ▸ hbehind range hmem)
        have := UInt32.le_iff_toNat_le.1 hle
        show range.2.toNat < m.largestDelivered
        omega
      · rw [List.mem_singleton.1 hmem]
        exact hlast
  | clientMoves move _ => exact hr.move hk hs move
  | serverMoves _ move => exact hr.move hk hs move
  | @answer received reply handler waits _ _ _ =>
    rw [waits] at hbehind
    rw [abstract_head rfl] at hm'
    refine ⟨hr.requests, hr.lookups, hr.once, fun hl range hmem => ?_⟩
    have hexpected : handler.expectedPacketSeq.toNat = m.largestDelivered + 1 :=
      hm'.expected_eq hlt rfl hl
    rw [UInt32.lt_iff_toNat_lt, hexpected]
    exact Nat.lt_succ_of_lt (hbehind range hmem)
  | fail => exact ⟨hr.requests, hr.lookups, hr.once, trivial⟩

end Subscriber

/-! ## The group -/

/-- The replies are to the first of the requests, one to each. -/
theorem Session.Sound.replies {s : Session} (h : s.Sound) :
    ∃ lookups, lookups <+: s.lookups ∧ s.replies = lookups.map Lookup.reply ∧
      lookups.map Lookup.range <+: s.requests := by
  rcases h.stage with hidle | ⟨_, hbusy⟩
  · refine ⟨s.lookups, List.prefix_refl _, hidle.replies, ?_⟩
    rw [hidle.requests]
  · cases hbusy with
    | asking hasking =>
      refine ⟨s.lookups, List.prefix_refl _, hasking.replies, ?_⟩
      rw [hasking.requests]
      exact List.prefix_append ..
    | answering hanswering =>
      obtain ⟨lookups, hlookups, hreplies⟩ := hanswering.replies
      have hfirst : lookups <+: s.lookups := hlookups ▸ List.prefix_append ..
      refine ⟨lookups, hfirst, hreplies, ?_⟩
      rw [hanswering.requests]
      exact hfirst.map Lookup.range

namespace Stack

variable {ι : Type} [DecidableEq ι] {options : Options} {messages : ι → Nat} {host : String}
  {capacity : ℕ+} {s s' : Stack ι}

theorem Step.replayed (h : Step options messages host capacity s s') (hs : Sound messages s)
    (hg : Group.Sound options messages (s.abstract messages))
    (hg' : Group.Sound options messages (s'.abstract messages))
    (hlt : s'.publisher.published.length < 2 ^ 32 - 1)
    (hr : ∀ i, (s.member i).Replayed (messages i) s.publisher) :
    ∀ i, (s'.member i).Replayed (messages i) s'.publisher := by
  have hle := h.published_le
  cases h with
  | @store draws publishTsc publisher stored =>
    intro i
    have hlt : publisher.published.length < 2 ^ 32 - 1 := hlt
    have hi := (hr i).extend (extends_storePacket hg.kept stored (by omega))
    exact ⟨hi.requests, hi.lookups, hi.once, hi.behind⟩
  | send sent =>
    intro i
    have hi := (hr i).extend (extends_sendPacket sent)
    exact ⟨hi.requests, hi.lookups, hi.once, hi.behind⟩
  | accept => exact hr
  | leave => exact hr
  | @member m i step =>
    intro j
    have hj' := hg'.members j
    rw [abstract_update] at hj'
    show Subscriber.Replayed _ _ (Function.update s.member i m j)
    by_cases hij : j = i
    · subst hij
      have hm : Function.update (s.abstract messages).member j (m.abstract (messages j)) j
          = m.abstract (messages j) := Function.update_self ..
      rw [Function.update_self]
      exact step.replayed hg.kept hlt (hr j) (hs.members j) (hg.members j) (hm ▸ hj')
    · rw [Function.update_of_ne hij]
      exact hr j

theorem Reachable.replayed (h : Reachable options messages host capacity s)
    (hlt : s.publisher.published.length < 2 ^ 32 - 1) :
    ∀ i, (s.member i).Replayed (messages i) s.publisher := by
  induction h with
  | refl => exact fun i => Subscriber.replayed_init (messages i)
  | @tail s s' hrun hstep ih =>
    have hlt' := Nat.lt_of_le_of_lt hstep.published_le hlt
    obtain ⟨hgroup, hs⟩ := Reachable.abstract hrun hlt'
    obtain ⟨hgroup', -⟩ := Reachable.abstract (hrun.tail hstep) hlt
    exact hstep.replayed hs (Group.Reachable.sound hgroup hlt') (Group.Reachable.sound hgroup' hlt)
      hlt (ih hlt')

/-- **Replay over the connections.** No handler throws; the ranges that one requests follow each
other; what it has been given are, for the first of these, just the packets published under their
numbers; and a call that the server serves returns. -/
theorem replays_published (options : Options) (messages : ι → Nat) (host : String) (capacity : ℕ+)
    (s : Stack ι) (h : Reachable options messages host capacity s)
    (hlt : s.publisher.published.length < 2 ^ 32 - 1) (i : ι) :
    let session := (s.member i).session
    (∀ error, (s.member i).phase ≠ .thrown error) ∧
    session.requests.Pairwise (fun range range' => range.2 < range'.1) ∧
    session.replies.map (fun reply => (reply.startSeq, reply.endSeq)) <+: session.requests ∧
    (∀ reply ∈ session.replies, ∃ packets, reply.packets = .ok packets ∧
      packets.length = (reply.endSeq - reply.startSeq).toNat + 1 ∧
      CarriesAll reply.startSeq packets (s.publisher.batches reply.startSeq reply.endSeq)) ∧
    (s.serving = some i → session.Returns capacity) := by
  intro session
  obtain ⟨hgroup, hs⟩ := h.abstract hlt
  have hr := Reachable.replayed h hlt i
  have hm := hs.members i
  obtain ⟨lookups, hfirst, hreplies, hranges⟩ := hm.session.replies
  refine ⟨fun error hthrown => ?_, hr.once, ?_, fun reply hmem => ?_,
    fun _ => hm.session.returns⟩
  · have hp := ((Group.Reachable.sound hgroup hlt).members i).phase
    have habstract : (s.abstract messages).member i = (s.member i).toMember (.thrown error) :=
      Subscriber.abstract_thrown hthrown
    rw [habstract] at hp
    exact hp
  · show session.replies.map _ <+: _
    rw [hreplies, List.map_map]
    exact hranges
  · rw [hreplies] at hmem
    obtain ⟨lookup, hlookup, rfl⟩ := List.mem_map.1 hmem
    obtain ⟨hend, hc⟩ := hr.lookups lookup (hfirst.subset hlookup)
    have hrange : lookup.range ∈ session.requests :=
      hranges.subset (List.mem_map_of_mem hlookup)
    obtain ⟨hne, hle, -⟩ := hr.requests _ hrange
    exact ⟨_, rfl, hc.length_eq.trans (Publisher.length_batches hne hle hend), hc⟩

/-- A handler that lacks the first of two packets has it replayed, byte by byte. -/
theorem exists_replied :
    ∃ s : Stack Bool,
      Reachable { messages := 2, messagesPerPacket := 1 } (fun _ => 0) "127.0.0.1" 1 s ∧
      s.publisher.published.length < 2 ^ 32 - 1 ∧ (s.member true).session.replies ≠ [] := by
  obtain ⟨g, hg, hstalled, requests⟩ := Group.exists_stalled
  have hcount : packetCount { messages := 2, messagesPerPacket := 1 } < 2 ^ 32 - 1 := by decide
  have hsound := Group.Reachable.sound_of_count hg hcount
  have hlt := Nat.lt_of_le_of_lt hsound.paced.length_le hcount
  obtain ⟨s, hs, rfl, hw⟩ := exists_of_group "127.0.0.1" 1 hg hlt
  have hm := (Reachable.abstract hs hlt).2.members true
  have hserving : s.serving = some true := hstalled.serving
  obtain ⟨received, hphase, hsome⟩ := requests
  obtain ⟨handler, n, hreturns, -⟩ := (hsound.members true).handle hsound.kept hlt hphase
  obtain ⟨phase, habstract, -, hhandling, -⟩ := (hw true).abstract 0
  have hmember : (abstract (fun _ => 0) s).member true = (s.member true).toMember phase := habstract
  rw [hmember] at hphase hsome hreturns
  obtain ⟨range, hrange⟩ := Option.isSome_iff_exists.1 hsome
  obtain ⟨session, hrun, hne⟩ := hm.answers "127.0.0.1" 1 (hw true)
    (fun _ => expected_ne_zero hsound hlt) hserving (hhandling received hphase) hrange hreturns
  refine ⟨_, hs.trans (run_of_member true hrun), hlt, ?_⟩
  show (Function.update s.member true _ true).session.replies ≠ []
  rw [Function.update_self]
  exact hne

theorem replays_published_of_two :
    ∃ s : Stack Bool, (s.member true).session.replies ≠ [] ∧
      ∀ reply ∈ (s.member true).session.replies, ∃ packets, reply.packets = .ok packets ∧
        packets.length = (reply.endSeq - reply.startSeq).toNat + 1 ∧
        CarriesAll reply.startSeq packets
          (s.publisher.batches reply.startSeq reply.endSeq) := by
  obtain ⟨s, hs, hlt, hne⟩ := exists_replied
  exact ⟨s, hne, (replays_published _ _ _ _ s hs hlt true).2.2.2.1⟩

end Stack

end Bmdfh
