import Bmdfh.EndToEnd.Group
import Bmdfh.EndToEnd.Proof.GapRecovery
import Bmdfh.ExchangeSim.Proof.Paced

/-!
# Agreement in a group

`Synced messages p h n`: the handler has processed the first `n` packets of the publisher, up to
its limit, so that its book is that of the first `received_messages` messages published. A
published packet, whichever arrives next, keeps it so (`Synced.handle`). With that every member of
a group stays `Sound`, whatever the others do, and two members differ by nothing but how far they
have come (`agreement`).
-/

namespace Bmdfh

open Std OrdMap Protocol Outcome Handler PacketHistory

/-! ## Packets cut at the limit -/

/-- Of `k` messages, those up to the limit. -/
def capped (messages k : Nat) : Nat := if messages = 0 then k else min messages k

theorem capped_le (messages k : Nat) : capped messages k ≤ k := by
  unfold capped
  split
  · exact Nat.le_refl _
  · exact Nat.min_le_right ..

/-- A packet with the number expected. -/
theorem processPacketBytes_capped {messages : Nat} {h : Handler} {bytes : Bytes}
    {batch : List Message} (hl : ¬ LimitWithin messages h 0)
    (hc : Carries bytes h.expectedPacketSeq batch) (source : PacketSource) :
    processPacketBytes messages bytes source h
      = .ok () ((h.applyMany bytes (batch.take
          (capped messages (h.receivedMessages + batch.length) - h.receivedMessages))).finish
        bytes source h.expectedPacketSeq) := by
  obtain ⟨packet, hp, hseq, hcomplete, hm⟩ := hc.parsed
  have he := processPacketBytes_eq source hl hp hseq
  dsimp only at he
  rw [hseq, goodMessages_of_complete hcomplete, hm] at he
  rw [he]
  unfold capped
  by_cases hw : LimitWithin messages h batch.length
  · rw [if_pos hw, if_neg hw.1, Nat.min_eq_left hw.2]
  · have hall : (if messages = 0 then h.receivedMessages + batch.length
        else min messages (h.receivedMessages + batch.length))
        = h.receivedMessages + batch.length := by
      split
      · rfl
      · rename_i hne
        exact Nat.min_eq_right (Nat.le_of_lt (Nat.not_le.1 fun hle => hw ⟨hne, hle⟩))
    rw [if_neg hw, if_pos (hm ▸ length_messages hcomplete), hall, Nat.add_sub_cancel_left,
      List.take_length]

/-! ## One datagram -/

/-- The handler has processed the first `n` packets, up to its limit. -/
structure Synced (messages : Nat) (p : Publisher) (h : Handler) (n : Nat) : Prop where
  le : n ≤ p.published.length
  expected : h.expectedPacketSeq = UInt32.ofNat (n + 1)
  received : h.receivedMessages = capped messages (p.published.take n).flatten.length
  orderBook : h.orderBook = OrderBook.applyAll {} (p.published.flatten.take h.receivedMessages)

section
variable {messages : Nat} {p : Publisher} {h : Handler} {n i : Nat} {bytes : Bytes}

/-- Below the limit all of their messages have been applied. -/
theorem Synced.received_eq (hs : Synced messages p h n) (hl : ¬ LimitWithin messages h 0) :
    h.receivedMessages = (p.published.take n).flatten.length := by
  have hr := hs.received
  unfold capped at hr
  split at hr
  · exact hr
  · rename_i hne
    have : ¬ messages ≤ h.receivedMessages := fun hle => hl ⟨hne, hle⟩
    omega

theorem Synced.received_le (hs : Synced messages p h n) :
    h.receivedMessages ≤ (p.published.take n).flatten.length := by
  rw [hs.received]
  exact capped_le ..

/-- The next packet. -/
theorem Synced.process (hs : Synced messages p h i) (hl : ¬ LimitWithin messages h 0)
    (hi : i < p.published.length) (hc : Carries bytes (UInt32.ofNat (i + 1)) p.published[i])
    (source : PacketSource) : ∃ h', processPacketBytes messages bytes source h = .ok () h' ∧
      Synced messages p h' (i + 1) ∧ h'.bufferedPackets = h.bufferedPackets := by
  rw [← hs.expected] at hc
  have hr := hs.received_eq hl
  have hsplit : p.published.flatten
      = (p.published.take i).flatten ++ (p.published[i] ++ (p.published.drop (i + 1)).flatten) := by
    rw [← List.flatten_cons, ← List.drop_eq_getElem_cons hi, ← List.flatten_append,
      List.take_append_drop]
  have hlen : (p.published.take (i + 1)).flatten.length
      = h.receivedMessages + p.published[i].length := by
    rw [List.take_succ_eq_append_getElem hi, List.flatten_append, List.length_append, hr,
      List.flatten_singleton]
  obtain ⟨k, hk⟩ : ∃ k, k = capped messages (h.receivedMessages + p.published[i].length)
    - h.receivedMessages := ⟨_, rfl⟩
  have hcap := capped_le messages (h.receivedMessages + p.published[i].length)
  have hge : h.receivedMessages
      ≤ capped messages (h.receivedMessages + p.published[i].length) := by
    unfold capped
    split
    · exact Nat.le_add_right ..
    · rename_i hne
      have : ¬ messages ≤ h.receivedMessages := fun hle => hl ⟨hne, hle⟩
      omega
  have hkle : k ≤ p.published[i].length := by omega
  refine ⟨_, processPacketBytes_capped hl hc source, ⟨hi, ?_, ?_, ?_⟩,
    finish_bufferedPackets ..⟩
  · rw [finish_expectedPacketSeq, hs.expected, UInt32.ofNat_add (i + 1)]
    rfl
  · rw [finish_receivedMessages, hlen, ← hk]
    simp only [applyMany, List.length_take, Nat.min_eq_left hkle]
    omega
  · rw [finish_orderBook, finish_receivedMessages, ← hk]
    simp only [applyMany, List.length_take, Nat.min_eq_left hkle]
    rw [hs.orderBook, ← OrderBook.applyAll_append, hsplit, hr, List.take_left,
      List.take_length_add_append, List.take_append_of_le_length hkle]

/-- The next `k` packets, as a lookup returns them. -/
theorem Synced.batch (hk : p.Kept) (hs : Synced messages p h n) (k : Nat)
    (hle : n + k ≤ p.published.length) : ∃ h' n',
      processBatch messages
          ((seqRange (UInt32.ofNat (n + 1)) k).filterMap (p.packetHistory[·]?)) h = .ok () h' ∧
        Synced messages p h' n' ∧ h'.bufferedPackets = h.bufferedPackets ∧
        (¬ LimitWithin messages h' 0 → n' = n + k) := by
  induction k generalizing n h with
  | zero => exact ⟨h, n, rfl, hs, rfl, fun _ => rfl⟩
  | succ k ih =>
    by_cases hl : LimitWithin messages h 0
    · exact ⟨h, n, processBatch_limit hl _, hs, rfl, fun hn => (hn hl).elim⟩
    · obtain ⟨bytes, hget, hc⟩ := hk.history n (by omega)
      obtain ⟨h₁, hok, hs₁, hb₁⟩ := hs.process hl (by omega) hc .replay
      obtain ⟨h', n', hok', hs', hb', hn'⟩ := ih hs₁ (by omega)
      have hnext : UInt32.ofNat (n + 1) + 1 = UInt32.ofNat (n + 1 + 1) := by
        rw [UInt32.ofNat_add (n + 1)]
        rfl
      refine ⟨h', n', ?_, hs', hb'.trans hb₁, fun hl' => by rw [hn' hl']; omega⟩
      rw [seqRange_succ, List.filterMap_cons_some hget, processBatch_cons hl, bind_of_ok hok, hnext]
      exact hok'

/-- The handler at the head of its loop: below the limit nothing is parked. -/
structure Settled (messages : Nat) (p : Publisher) (h : Handler) (n : Nat) : Prop
    extends Synced messages p h n where
  parked : ¬ LimitWithin messages h 0 → h.bufferedPackets = ∅

/-- After a packet that leaves nothing parked, the drain loop has nothing to do. -/
theorem Synced.drain (hs : Synced messages p h n) (hb : h.bufferedPackets = ∅) :
    drainBufferedPackets messages h = .ok () h ∧ Settled messages p h n := by
  refine ⟨drainBufferedPackets_none ?_, hs, fun _ => hb⟩
  rw [hb]
  rfl

/-- A packet ahead of the next: those from `n + 1` to `i` are replayed, then it is drained. -/
theorem Settled.ahead (hk : p.Kept) (hlt : p.published.length < 2 ^ 32 - 1)
    (hs : Settled messages p h n) (hl : ¬ LimitWithin messages h 0) (hi : i < p.published.length)
    (hc : Carries bytes (UInt32.ofNat (i + 1)) p.published[i]) (hgt : n < i) : ∃ h' n',
      handleDatagram messages (fun a b => .ok (p.packetHistory.lookupRange a b)) bytes h
        = .ok () h' ∧ Settled messages p h' n' ∧ (¬ LimitWithin messages h' 0 → n' = i + 1) := by
  obtain ⟨packet, hp, hseq, -, -⟩ := hc.parsed
  have hn := toNat_seqNum hlt hs.le
  have hin := toNat_seqNum hlt (Nat.le_of_lt hi)
  have hahead : h.expectedPacketSeq < decodeSeqNum packet.header := by
    rw [hseq, hs.expected, UInt32.lt_iff_toNat_lt, hn, hin]
    omega
  obtain ⟨hfirst, hlast, hcount, -⟩ := gap_of_lt hahead
  rw [handleDatagram_ahead (hs.parked hl) hp hahead, requestReplay_eq
    (h := h.park (decodeSeqNum packet.header) bytes) hfirst hl]
  dsimp only
  -- the lookup finds the whole gap
  have hrange :
      (decodeSeqNum packet.header - 1).toNat + 1 - h.expectedPacketSeq.toNat = i - n := by
    rw [hlast, hseq, hs.expected, hn, hin]
    omega
  have hcount' : (decodeSeqNum packet.header - 1 - h.expectedPacketSeq).toNat + 1 = i - n := by
    rw [hcount, hseq, hs.expected, hn, hin]
    omega
  have hall := carriesAll_seqRange hk (i - n) n (by omega)
  have hlen := hall.length_eq
  rw [List.length_take, List.length_drop, Nat.min_eq_left (by omega), ← hs.expected] at hlen
  rw [lookupRange_eq, hrange, if_neg (not_not_intro (hlen.trans hcount'.symm))]
  have hs₀ : Synced messages p (h.park (decodeSeqNum packet.header) bytes).requested n :=
    ⟨hs.le, hs.expected, hs.received, hs.orderBook⟩
  obtain ⟨h₁, n₁, hok, hs₁, hb₁, hn₁⟩ := hs₀.batch hk (i - n) (by omega)
  rw [← hs.expected] at hok
  rw [bind_of_ok hok]
  by_cases hl₁ : LimitWithin messages h₁ 0
  · exact ⟨h₁, n₁, drainBufferedPackets_limit hl₁, ⟨hs₁, fun hn => (hn hl₁).elim⟩,
      fun hn => (hn hl₁).elim⟩
  · obtain rfl : n₁ = i := by
      rw [hn₁ hl₁]
      omega
    -- the packet parked is the next one
    have hparked : h₁.bufferedPackets
        = (∅ : ExtTreeMap UInt32 Bytes).insert (UInt32.ofNat (n₁ + 1)) bytes := by
      rw [hb₁, ← hseq]
      show h.bufferedPackets.insert _ _ = _
      rw [hs.parked hl]
    have hf : h₁.bufferedPackets[h₁.expectedPacketSeq]? = some bytes := by
      rw [hparked, hs₁.expected, get_insert_self]
    have hs₂ : Synced messages p { h₁ with
        bufferedPackets := h₁.bufferedPackets.erase h₁.expectedPacketSeq } n₁ :=
      ⟨hs₁.le, hs₁.expected, hs₁.received, hs₁.orderBook⟩
    obtain ⟨h₃, hok₃, hs₃, hb₃⟩ := hs₂.process hl₁ hi hc .drain
    have hempty : h₃.bufferedPackets = ∅ := by
      rw [hb₃]
      show h₁.bufferedPackets.erase h₁.expectedPacketSeq = ∅
      rw [hparked, hs₁.expected, erase_insert, ExtTreeMap.erase_empty]
    obtain ⟨hdrain, hs₄⟩ := hs₃.drain hempty
    refine ⟨h₃, n₁ + 1, ?_, hs₄, fun _ => rfl⟩
    rw [drainBufferedPackets_some hl₁ hf, bind_of_ok hok₃]
    exact hdrain

/-- **One datagram**: a published packet takes the handler to the greater number, unless the limit
stops it. -/
theorem Settled.handle (hk : p.Kept) (hlt : p.published.length < 2 ^ 32 - 1)
    (hs : Settled messages p h n) (hl : ¬ LimitWithin messages h 0)
    (hpub : p.Published bytes i) : ∃ h' n',
      handleDatagram messages (fun a b => .ok (p.packetHistory.lookupRange a b)) bytes h
        = .ok () h' ∧ Settled messages p h' n' ∧
        (¬ LimitWithin messages h' 0 → n' = max n (i + 1)) := by
  obtain ⟨hi, hget⟩ := hpub
  obtain ⟨bytes', hget', hc⟩ := hk.history i hi
  rw [hget, Option.some.injEq] at hget'
  subst hget'
  obtain ⟨packet, hp, hseq, -, -⟩ := hc.parsed
  rcases Nat.lt_trichotomy i n with hlt' | rfl | hgt
  · refine ⟨h, n, handleDatagram_stale hp ?_, hs, fun _ => (Nat.max_eq_left (by omega)).symm⟩
    rw [hseq, hs.expected, UInt32.lt_iff_toNat_lt, toNat_seqNum hlt hs.le,
      toNat_seqNum hlt (Nat.le_of_lt hi)]
    omega
  · obtain ⟨h', hok, hs', hb'⟩ := hs.toSynced.process hl hi hc .live
    obtain ⟨hdrain, hs''⟩ := hs'.drain (hb'.trans (hs.parked hl))
    refine ⟨h', i + 1, ?_, hs'', fun _ => (Nat.max_eq_right (Nat.le_succ _)).symm⟩
    rw [handleDatagram_next hp (hseq.trans hs.expected.symm), bind_of_ok hok]
    exact hdrain
  · rw [Nat.max_eq_right (by omega)]
    exact hs.ahead hk hlt hl hi hc hgt

end

/-! ## The publisher goes on -/

section
variable {messages : Nat} {p p' : Publisher} {h : Handler} {n : Nat}

theorem Synced.extend (hs : Synced messages p h n) (hext : p.Extends p') :
    Synced messages p' h n := by
  obtain ⟨new, hnew⟩ := hext.published
  have htake : p'.published.take n = p.published.take n := by
    rw [← hnew, List.take_append_of_le_length hs.le]
  refine ⟨Nat.le_trans hs.le hext.published.length_le, hs.expected, ?_, ?_⟩
  · rw [htake]
    exact hs.received
  · have hle : h.receivedMessages ≤ p.published.flatten.length := by
      refine Nat.le_trans hs.received_le ?_
      conv_rhs => rw [← List.take_append_drop n p.published]
      rw [List.flatten_append, List.length_append]
      exact Nat.le_add_right ..
    rw [hs.orderBook, ← hnew, List.flatten_append, List.take_append_of_le_length hle]

theorem Settled.extend (hs : Settled messages p h n) (hext : p.Extends p') :
    Settled messages p' h n :=
  ⟨hs.toSynced.extend hext, hs.parked⟩

end

/-! ## One member -/

namespace Member

variable {messages : Nat} {p p' : Publisher} {m m' : Member}

/-- What holds of the handler in each phase. -/
def SoundPhase (messages : Nat) (p : Publisher) (m : Member) : Phase → Prop
  | .head => ∃ n, Settled messages p m.handler n ∧
    (¬ LimitWithin messages m.handler 0 → n = m.largestDelivered)
  | .handling received => ∃ n i, Settled messages p m.handler n ∧
    ¬ LimitWithin messages m.handler 0 ∧ p.Published received i ∧
    m.largestDelivered = max n (i + 1)
  | .thrown _ => False

structure Sound (messages : Nat) (p : Publisher) (m : Member) : Prop where
  network : ∀ d ∈ m.network, ∃ i, p.Published d i
  phase : SoundPhase messages p m m.phase

theorem sound_init (messages : Nat) : Sound messages {} {} := by
  refine ⟨fun _ hd => (nomatch hd), 0, ⟨⟨Nat.le_refl _, rfl, ?_, rfl⟩, fun _ => rfl⟩, fun _ => rfl⟩
  show 0 = capped messages 0
  unfold capped
  split
  · rfl
  · exact (Nat.min_zero _).symm

/-- The publisher has moved on, and a packet it has published is on its way. -/
theorem Sound.hear (hs : Sound messages p m) (hext : p.Extends p') {datagram : Option Bytes}
    (hd : ∀ d ∈ datagram, ∃ i, p'.Published d i) : Sound messages p' (m.hear datagram) := by
  refine ⟨fun d hmem => ?_, ?_⟩
  · rcases List.mem_append.1 hmem with hmem | hmem
    · obtain ⟨i, hi⟩ := hs.network d hmem
      exact ⟨i, hi.extend hext⟩
    · exact hd d (Option.mem_toList.1 hmem)
  · have hp := hs.phase
    show SoundPhase messages p' _ m.phase
    cases hphase : m.phase with
    | head =>
      rw [hphase] at hp
      obtain ⟨n, hn, hl⟩ := hp
      exact ⟨n, hn.extend hext, hl⟩
    | handling received =>
      rw [hphase] at hp
      obtain ⟨n, i, hn, hl, hi, hmax⟩ := hp
      exact ⟨n, i, hn.extend hext, hl, hi.extend hext, hmax⟩
    | thrown e =>
      rw [hphase] at hp
      exact hp.elim

/-- The datagram in hand is handled without a throw. -/
theorem Sound.handle {received : Bytes} (hk : p.Kept) (hlt : p.published.length < 2 ^ 32 - 1)
    (hs : Sound messages p m) (busy : m.phase = .handling received) : ∃ h' n,
      Handler.handleDatagram messages (fun a b => .ok (p.packetHistory.lookupRange a b)) received
        m.handler = .ok () h' ∧ Settled messages p h' n ∧
      (¬ LimitWithin messages h' 0 → n = m.largestDelivered) := by
  have hp := hs.phase
  rw [busy] at hp
  obtain ⟨n, i, hn, hl, hi, hmax⟩ := hp
  rw [hmax]
  exact hn.handle hk hlt hl hi

/-- **One step** of a member. -/
theorem Step.sound {served : Prop} (hk : p.Kept) (hlt : p.published.length < 2 ^ 32 - 1)
    (h : Step messages (fun a b => .ok (p.packetHistory.lookupRange a b)) served m m')
    (hs : Sound messages p m) : Sound messages p m' := by
  cases h with
  | lose lost => exact ⟨fun d hd => hs.network d (lost.symm.subset (.tail _ hd)), hs.phase⟩
  | duplicate mem =>
    refine ⟨fun d hd => ?_, hs.phase⟩
    rcases List.mem_cons.1 hd with rfl | hd
    · exact hs.network _ mem
    · exact hs.network d hd
  | @receive datagram network idle goesOn arrives =>
    obtain ⟨i, hi⟩ := hs.network datagram (arrives.symm.subset (.head _))
    have hp := hs.phase
    rw [idle] at hp
    obtain ⟨n, hn, hmax⟩ := hp
    have hl := limitReached_eq_false_iff.1 goesOn
    refine ⟨fun d hd => hs.network d (arrives.symm.subset (.tail _ hd)), n, i, hn, hl, ?_, ?_⟩
    · rw [List.take_of_length_le (System.length_le_bufferSize hk hi)]
      exact hi
    · rw [hmax hl]
      show ((m.delivered ++ [datagram]).filterMap System.seqNumOf).foldl max 0 = _
      rw [List.filterMap_append, List.filterMap_cons_some (hi.seqNumOf hk hlt),
        List.foldl_append]
      rfl
  | handle busy _ returns =>
    obtain ⟨h', n, hok, hn, hmax⟩ := hs.handle hk hlt busy
    cases hok.symm.trans returns
    exact ⟨hs.network, n, hn, hmax⟩
  | throw busy _ throws =>
    obtain ⟨h', n, hok, -, -⟩ := hs.handle hk hlt busy
    cases hok.symm.trans throws

end Member

/-! ## The group -/

/-- The messages up to the `l`-th: those up to the `k`-th, and those in between. -/
theorem applyAll_take_of_le (ms : List Message) {k l : Nat} (h : k ≤ l) :
    OrderBook.applyAll {} (ms.take l)
      = (OrderBook.applyAll {} (ms.take k)).applyAll ((ms.drop k).take (l - k)) := by
  rw [← OrderBook.applyAll_append, ← List.take_add, Nat.add_sub_cancel' h]

namespace Group

variable {ι : Type} {options : Options} {messages : ι → Nat} {s s' : Group ι}

structure Sound (options : Options) (messages : ι → Nat) (s : Group ι) : Prop where
  kept : s.publisher.Kept
  paced : s.publisher.Paced options
  members : ∀ i, (s.member i).Sound (messages i) s.publisher

theorem sound_init (options : Options) (messages : ι → Nat) : Sound options messages {} :=
  ⟨Publisher.kept_init, Publisher.paced_init options, fun i => Member.sound_init (messages i)⟩

/-- What is known of a member at the head of its loop. -/
theorem Sound.head (hs : Sound options messages s) {i : ι} (hi : (s.member i).phase = .head) :
    ∃ n, Settled (messages i) s.publisher (s.member i).handler n ∧
      (¬ LimitWithin (messages i) (s.member i).handler 0 → n = (s.member i).largestDelivered) := by
  have hp := (hs.members i).phase
  rwa [hi] at hp

variable [DecidableEq ι]

theorem Step.published_le (h : Step options messages s s') :
    s.publisher.published.length ≤ s'.publisher.published.length := by
  cases h with
  | store stored =>
    obtain ⟨-, _, _, _, -, -, rfl⟩ := Publisher.storePacket_eq_some stored
    simp
  | send sent =>
    obtain ⟨_, _, -, hs⟩ := Publisher.sendPacket_eq_some sent
    exact Nat.le_of_eq (congrArg List.length hs.published.symm)
  | accept => exact Nat.le_refl _
  | leave => exact Nat.le_refl _
  | member i step => exact Nat.le_refl _

/-- **One step** of the group. -/
theorem Step.sound (h : Step options messages s s') (hs : Sound options messages s)
    (hlt : s'.publisher.published.length < 2 ^ 32 - 1) : Sound options messages s' := by
  have hle := h.published_le
  cases h with
  | @store draws publishTsc p' stored =>
    have hlt : p'.published.length < 2 ^ 32 - 1 := hlt
    refine ⟨hs.kept.storePacket stored (by omega), hs.paced.storePacket stored, fun i => ?_⟩
    have hheard := (hs.members i).hear (extends_storePacket hs.kept stored (by omega))
      fun d (hd : d ∈ (none : Option Bytes)) => nomatch hd
    rwa [Member.hear, Option.toList_none, List.append_nil] at hheard
  | send sent =>
    have hpub : s.publisher.published.length < 2 ^ 32 := by omega
    refine ⟨hs.kept.sendPacket sent, hs.paced.sendPacket hs.kept sent hpub, fun i => ?_⟩
    refine (hs.members i).hear (extends_sendPacket sent) fun d hd => ?_
    obtain rfl := Option.mem_def.1 hd
    obtain ⟨j, hj, hget⟩ := hs.kept.datagram sent
    exact ⟨j, hj, hget⟩
  | accept => exact ⟨hs.kept, hs.paced, hs.members⟩
  | leave => exact ⟨hs.kept, hs.paced, hs.members⟩
  | member i step =>
    refine ⟨hs.kept, hs.paced, fun j => ?_⟩
    show Member.Sound _ _ (Function.update s.member i _ j)
    by_cases hij : j = i
    · subst hij
      rw [Function.update_self]
      exact step.sound hs.kept hlt (hs.members j)
    · rw [Function.update_of_ne hij]
      exact hs.members j

/-- Only as many packets are published as the messages need. -/
theorem Step.published_le_count (h : Step options messages s s') (hs : Sound options messages s) :
    s'.publisher.published.length ≤ packetCount options := by
  cases h with
  | store stored => exact (hs.paced.storePacket stored).length_le
  | send sent =>
    obtain ⟨_, _, -, hsends⟩ := Publisher.sendPacket_eq_some sent
    exact Nat.le_trans (Nat.le_of_eq (congrArg List.length hsends.published)) hs.paced.length_le
  | accept => exact hs.paced.length_le
  | leave => exact hs.paced.length_le
  | member i step => exact hs.paced.length_le

/-- With options that need few enough packets. -/
theorem Reachable.sound_of_count (h : Reachable options messages s)
    (hcount : packetCount options < 2 ^ 32 - 1) : Sound options messages s := by
  induction h with
  | refl => exact sound_init options messages
  | tail _ hstep ih =>
    exact hstep.sound ih (Nat.lt_of_le_of_lt (hstep.published_le_count ih) hcount)

theorem Reachable.sound (h : Reachable options messages s)
    (hlt : s.publisher.published.length < 2 ^ 32 - 1) : Sound options messages s := by
  induction h with
  | refl => exact sound_init options messages
  | tail _ hstep ih => exact hstep.sound (ih (Nat.lt_of_le_of_lt hstep.published_le hlt)) hlt

/-- **Agreement.** No handler throws; the book of each is that of the first messages published, as
many as it has received; and the book of one that is behind becomes that of another by the messages
in between. -/
theorem agreement (options : Options) (messages : ι → Nat) (s : Group ι)
    (h : Reachable options messages s) (hlt : s.publisher.published.length < 2 ^ 32 - 1) :
    (∀ i error, (s.member i).phase ≠ .thrown error) ∧
    (∀ i, (s.member i).phase = .head →
      let handler := (s.member i).handler
      (messages i ≠ 0 → handler.receivedMessages ≤ messages i) ∧
      (handler.limitReached (messages i) = false →
        handler.expectedPacketSeq.toNat = 1 + (s.member i).largestDelivered) ∧
      handler.orderBook = OrderBook.applyAll {} (s.stream.take handler.receivedMessages)) ∧
    (∀ i j, (s.member i).phase = .head → (s.member j).phase = .head →
      let behind := (s.member i).handler
      let ahead := (s.member j).handler
      behind.receivedMessages ≤ ahead.receivedMessages →
      ahead.orderBook = behind.orderBook.applyAll ((s.stream.drop behind.receivedMessages).take
        (ahead.receivedMessages - behind.receivedMessages))) := by
  have hs := h.sound hlt
  refine ⟨fun i error he => ?_, fun i hi => ⟨fun hne => ?_, fun hl => ?_, ?_⟩,
    fun i j hi hj => ?_⟩
  · have hp := (hs.members i).phase
    rw [he] at hp
    exact hp
  · obtain ⟨n, hn, -⟩ := hs.head hi
    rw [hn.received, capped, if_neg hne]
    exact Nat.min_le_left ..
  · obtain ⟨n, hn, hmax⟩ := hs.head hi
    obtain rfl := hmax (limitReached_eq_false_iff.1 hl)
    have hle := hn.le
    rw [hn.expected, UInt32.toNat_ofNat_of_lt' (show _ < 2 ^ 32 by omega)]
    omega
  · obtain ⟨n, hn, -⟩ := hs.head hi
    exact hn.orderBook
  · intro behind ahead hle
    obtain ⟨n, hn, -⟩ := hs.head hi
    obtain ⟨n', hn', -⟩ := hs.head hj
    show (s.member j).handler.orderBook = (s.member i).handler.orderBook.applyAll _
    rw [hn'.orderBook, hn.orderBook]
    exact applyAll_take_of_le _ hle

/-- A step of a member is one of its system. -/
theorem project_member {i : ι} (hi : messages i = 0) {m : Member}
    (h : Member.Step (messages i) s.recovery (s.serving = some i) (s.member i) m) :
    System.Step options (s.project i)
      (project { s with member := Function.update s.member i m } i) := by
  rw [hi] at h
  have hp : project { s with member := Function.update s.member i m } i
      = { publisher := s.publisher, network := m.network, handler := m.handler,
          phase := m.phase, delivered := m.delivered } := by
    simp [project]
  rw [hp]
  cases h with
  | lose lost => exact .lose (s := s.project i) lost
  | duplicate mem => exact .duplicate (s := s.project i) mem
  | receive idle _ arrives => exact .receive (s := s.project i) idle arrives
  | handle busy _ returns => exact .handle (s := s.project i) busy returns
  | throw busy _ throws => exact .throw (s := s.project i) busy throws

/-- A member with no limit and the publisher are a system of their own, whatever the other members
do. -/
theorem Reachable.project {i : ι} (hi : messages i = 0) (h : Reachable options messages s) :
    System.Reachable options (s.project i) := by
  induction h with
  | refl => exact .refl
  | @tail s s' _ hstep ih =>
    cases hstep with
    | store stored => exact ih.tail (.store stored)
    | send sent => exact ih.tail (.send sent)
    | accept => exact ih
    | leave => exact ih
    | @member m j step =>
      by_cases hij : i = j
      · subst hij
        exact ih.tail (project_member hi step)
      · have hsame : Group.project { s with member := Function.update s.member j m } i
            = s.project i := by
          simp [Group.project, Function.update_of_ne hij]
        rw [hsame]
        exact ih

/-- The server serves the handler, or nobody. -/
def FreeFor (s : Group ι) (i : ι) : Prop := s.serving = none ∨ s.serving = some i

/-- What the handler has received it can handle. -/
theorem Reachable.handles (h : Reachable options messages s)
    (hlt : s.publisher.published.length < 2 ^ 32 - 1) {i : ι} (hfree : s.FreeFor i)
    {received : Bytes} (busy : (s.member i).phase = .handling received) :
    ∃ (s' : Group ι) (handler : Handler), Relation.ReflTransGen (Step options messages) s s' ∧
      s'.publisher = s.publisher ∧ s'.FreeFor i ∧
      s'.member = Function.update s.member i { s.member i with handler, phase := .head } := by
  have hs := h.sound hlt
  obtain ⟨handler, n, hok, -⟩ := (hs.members i).handle hs.kept hlt busy
  by_cases hserved : s.serving = some i
  · exact ⟨_, handler, .single (.member i (.handle busy (fun _ => hserved) hok)), rfl, hfree, rfl⟩
  · by_cases hrequests : (s.member i).Requests (messages i)
    · -- the server accepts its connection first
      have haccept : Step options messages s { s with serving := some i } :=
        .accept (hfree.resolve_right hserved) hrequests
      exact ⟨_, handler, .tail (.single haccept) (.member i (.handle busy (fun _ => rfl) hok)), rfl,
        .inr rfl, rfl⟩
    · exact ⟨_, handler, .single (.member i (.handle busy (fun hr => (hrequests hr).elim) hok)),
        rfl, hfree, rfl⟩

/-- A handler at the head of its loop can take a datagram off its socket, and handle it. -/
theorem Reachable.receives (h : Reachable options messages s)
    (hlt : s.publisher.published.length < 2 ^ 32 - 1) {i : ι} (hfree : s.FreeFor i)
    (idle : (s.member i).phase = .head)
    (goesOn : (s.member i).handler.limitReached (messages i) = false) {datagram : Bytes}
    (mem : datagram ∈ (s.member i).network) :
    ∃ (s' : Group ι) (m : Member), Relation.ReflTransGen (Step options messages) s s' ∧
      s'.publisher = s.publisher ∧ s'.member = Function.update s.member i m ∧
      m.phase = .head ∧ m.delivered = (s.member i).delivered ++ [datagram] := by
  obtain ⟨before, rest, hnet⟩ := List.append_of_mem mem
  let m : Member := { s.member i with
    network := before ++ rest
    phase := .handling (datagram.take kReceiveBufferSize)
    delivered := (s.member i).delivered ++ [datagram] }
  have hstep : Step options messages s { s with member := Function.update s.member i m } :=
    .member i (.receive idle goesOn (hnet ▸ List.perm_middle))
  have hm : (Function.update s.member i m) i = m := Function.update_self ..
  obtain ⟨s', handler, hrun, hpub, -, hmember⟩ := Reachable.handles (h.tail hstep) hlt hfree
    (congrArg Member.phase hm)
  refine ⟨s', { m with handler, phase := .head }, .head hstep hrun, hpub, ?_, rfl, rfl⟩
  rw [hmember]
  dsimp only
  rw [hm, Function.update_idem]

/-- A run in which the `i`-th handler receives the only packet, and the others nothing. -/
theorem exists_one_packet (messages : ι → Nat) (i : ι) :
    ∃ s : Group ι, Reachable { messages := 1 } messages s ∧
      s.publisher.published.length = 1 ∧ (s.member i).phase = .head ∧
      (s.member i).delivered.length = 1 ∧
      ∀ j, j ≠ i → (s.member j).phase = .head ∧ (s.member j).handler = {} := by
  have hstored : (Publisher.storePacket { messages := 1 } [default] 5 {}).isSome := by
    decide +kernel
  obtain ⟨p, hp⟩ := Option.isSome_iff_exists.1 hstored
  have h1 : Reachable { messages := 1 } messages { publisher := p } := .tail .refl (.store hp)
  obtain ⟨-, batch, generator, bytes, -, -, rfl⟩ := Publisher.storePacket_eq_some hp
  have h2 := h1.tail (.send rfl)
  have hidle : (({} : Handler).limitReached (messages i)) = false :=
    limitReached_eq_false_iff.2 fun hw => hw.1 (Nat.le_zero.1 hw.2)
  have hlt : 1 < 2 ^ 32 - 1 := by decide
  obtain ⟨s', m, hrun, hpub, hmember, hphase, hdelivered⟩ := Reachable.receives h2 hlt (i := i)
    (.inl rfl) rfl hidle (List.mem_singleton_self bytes)
  refine ⟨s', h2.trans hrun, by rw [hpub]; rfl, ?_, ?_, fun j hj => ?_⟩
  · rw [hmember, Function.update_self, hphase]
  · rw [hmember, Function.update_self, hdelivered]
    rfl
  · rw [hmember, Function.update_of_ne hj]
    exact ⟨rfl, rfl⟩

/-- Two handlers, one of which has received the only packet. -/
theorem agreement_of_two_handlers :
    ∃ s : Group Bool, Reachable { messages := 1 } (fun i => if i then 1 else 0) s ∧
      (s.member true).delivered.length = 1 ∧ (s.member false).handler = {} ∧
      (s.member true).handler.orderBook = (s.member false).handler.orderBook.applyAll
        ((s.stream.drop (s.member false).handler.receivedMessages).take
          ((s.member true).handler.receivedMessages
            - (s.member false).handler.receivedMessages)) := by
  obtain ⟨s, hs, hlen, hphase, hdelivered, hothers⟩ :=
    exists_one_packet (fun i => if i then 1 else 0) true
  obtain ⟨hphase', hstart⟩ := hothers false (by decide)
  refine ⟨s, hs, hdelivered, hstart, (agreement _ _ _ hs (by rw [hlen]; decide)).2.2 false true
    hphase' hphase ?_⟩
  rw [hstart]
  exact Nat.zero_le _

end Group

end Bmdfh
