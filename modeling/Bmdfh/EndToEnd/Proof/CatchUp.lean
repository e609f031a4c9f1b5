import Bmdfh.EndToEnd.Proof.Agreement

/-!
# What a handler can still come to apply

The handler asks for what it has missed only when something later arrives. So what it can come to
apply is bounded by the numbers that have reached it, are on their way or are still to be multicast
(`Coming`): no step adds to these (`Step.coming`), and each of them can be delivered, and with it
everything before it (`catches_up_iff`). What was dropped behind the last packet that is multicast
stays lost (`completes_iff`).
-/

namespace Bmdfh

open Protocol Handler

/-- The packet is not multicast. -/
def Skipped (options : Options) (n : Nat) : Prop :=
  options.skipEvery ≠ 0 ∧ n % options.skipEvery = 0

instance (options : Options) (n : Nat) : Decidable (Skipped options n) :=
  inferInstanceAs (Decidable (_ ∧ _))

namespace Member

theorem largestDelivered_eq_max (m : Member) :
    (0 :: m.delivered.filterMap System.seqNumOf).max? = some m.largestDelivered :=
  List.max?_cons'

theorem exists_delivered (m : Member) (h : m.largestDelivered ≠ 0) :
    ∃ d ∈ m.delivered, System.seqNumOf d = some m.largestDelivered := by
  rcases List.mem_cons.1 (List.max?_mem m.largestDelivered_eq_max) with h0 | hmem
  · exact (h h0).elim
  · exact List.mem_filterMap.1 hmem

theorem le_largestDelivered (m : Member) {d : Bytes} {k : Nat} (hd : d ∈ m.delivered)
    (hk : System.seqNumOf d = some k) : k ≤ m.largestDelivered := by
  have hmax := (List.max?_eq_some_iff.1 m.largestDelivered_eq_max).2
  exact hmax k (.tail _ (List.mem_filterMap.2 ⟨d, hd, hk⟩))

end Member

namespace Group

variable {ι : Type} {options : Options} {messages : ι → Nat} {s s' : Group ι} {i : ι} {k : Nat}

/-- The `k`-th packet has reached the handler, is on its way, or is still to be multicast. -/
inductive Coming (options : Options) (s : Group ι) (i : ι) (k : Nat) : Prop
  | delivered {datagram : Bytes} (mem : datagram ∈ (s.member i).delivered)
    (number : System.seqNumOf datagram = some k)
  | flies {datagram : Bytes} (mem : datagram ∈ (s.member i).network)
    (number : System.seqNumOf datagram = some k)
  | later (sequence : s.publisher.packetSequence.toNat ≤ k) (le : k ≤ packetCount options)
    (multicast : ¬ Skipped options k)

/-! ## No step adds a number -/

/-- What becomes of a member on its own. -/
theorem coming_member {m m' : Member} {messages : Nat} {recovery : Recovery} {served : Prop}
    {datagram : Bytes} (h : Member.Step messages recovery served m m') :
    (datagram ∈ m'.delivered → datagram ∈ m.delivered ∨ datagram ∈ m.network) ∧
      (datagram ∈ m'.network → datagram ∈ m.network) := by
  cases h with
  | lose lost => exact ⟨.inl, fun hd => lost.symm.subset (.tail _ hd)⟩
  | duplicate mem =>
    refine ⟨.inl, fun hd => ?_⟩
    rcases List.mem_cons.1 hd with rfl | hd
    · exact mem
    · exact hd
  | receive idle goesOn arrives =>
    refine ⟨fun hd => ?_, fun hd => arrives.symm.subset (.tail _ hd)⟩
    rcases List.mem_append.1 hd with hd | hd
    · exact .inl hd
    · rw [List.mem_singleton] at hd
      subst hd
      exact .inr (arrives.symm.subset (.head _))
  | handle => exact ⟨.inl, id⟩
  | throw => exact ⟨.inl, id⟩

/-- The number of the packet in hand. -/
theorem sequence_of_packet {p : Publisher} (hk : p.Kept) (hlt : p.published.length < 2 ^ 32 - 1)
    {packet : List Message × Bytes} (hpacket : p.packet = some packet) :
    p.packetSequence.toNat = p.published.length ∧
      (p.packetSequence + 1).toNat = p.published.length + 1 := by
  have hnext : UInt32.ofNat p.published.length + 1 = UInt32.ofNat (p.published.length + 1) :=
    (UInt32.ofNat_add _ _).symm
  rw [hk.sequence_of_packet hpacket, hnext]
  exact ⟨UInt32.toNat_ofNat_of_lt' (show _ < 2 ^ 32 by omega),
    UInt32.toNat_ofNat_of_lt' (show _ < 2 ^ 32 by omega)⟩

/-- A datagram that is multicast has the number of the packet in hand, which is not skipped. -/
theorem number_of_sent {p p' : Publisher} (hk : p.Kept) (hlt : p.published.length < 2 ^ 32 - 1)
    {d : Bytes} (h : p.sendPacket options = some (p', some d)) :
    System.seqNumOf d = some p.published.length ∧ ¬ Skipped options p.published.length := by
  obtain ⟨batch, bytes, hpacket, hs⟩ := Publisher.sendPacket_eq_some h
  obtain ⟨hseq, -⟩ := sequence_of_packet hk hlt hpacket
  obtain ⟨hpos, hget⟩ := hk.packet batch bytes hpacket
  have hd := hs.datagram
  rw [hseq] at hd
  split at hd
  · cases hd
  · rename_i hskip
    cases hd
    refine ⟨?_, hskip⟩
    have hpub : p.Published d (p.published.length - 1) := by
      refine ⟨by omega, ?_⟩
      rw [Nat.sub_add_cancel hpos, ← hk.sequence_of_packet hpacket]
      exact hget
    rw [hpub.seqNumOf hk hlt, Nat.sub_add_cancel hpos]

/-- A handler with no limit expects the number after the largest delivered. -/
theorem expected_of_head (hs : Sound options messages s)
    (hlt : s.publisher.published.length < 2 ^ 32 - 1) (hi : messages i = 0)
    (hhead : (s.member i).phase = .head) :
    (s.member i).handler.expectedPacketSeq.toNat = (s.member i).largestDelivered + 1 ∧
      (s.member i).largestDelivered ≤ s.publisher.published.length := by
  obtain ⟨n, hn, hmax⟩ := hs.head hhead
  obtain rfl := hmax fun hl => hl.1 hi
  have hle := hn.le
  rw [hn.expected, UInt32.toNat_ofNat_of_lt' (show _ < 2 ^ 32 by omega)]
  exact ⟨rfl, hle⟩

/-- A handler that has received every message has applied the last packet. -/
theorem last_of_received_all (hs : Sound options messages s)
    (hcount : packetCount options < 2 ^ 32 - 1) (hi : messages i = 0)
    (hhead : (s.member i).phase = .head)
    (hall : (s.member i).handler.receivedMessages = options.messages) :
    packetCount options < (s.member i).handler.expectedPacketSeq.toNat := by
  obtain ⟨n, hn, hmax⟩ := hs.head hhead
  have hl : ¬ LimitWithin (messages i) (s.member i).handler 0 := fun hl => hl.1 hi
  obtain ⟨hexpected, -⟩ := expected_of_head hs
    (Nat.lt_of_le_of_lt hs.paced.length_le hcount) hi hhead
  have hge : packetCount options ≤ n := by
    by_contra hlt
    have hmore := (lt_packetCount options).1 (Nat.not_le.1 hlt)
    have hle := hs.paced.stored_take_le n
    have hreceived := hn.toSynced.received_eq hl
    omega
  rw [hexpected, ← hmax hl]
  omega

/-- A handler that has applied the last packet has received every message. -/
theorem received_all_of_last (hs : Sound options messages s)
    (hcount : packetCount options < 2 ^ 32 - 1) (hi : messages i = 0)
    (hhead : (s.member i).phase = .head)
    (hlast : packetCount options < (s.member i).handler.expectedPacketSeq.toNat) :
    (s.member i).handler.receivedMessages = options.messages := by
  obtain ⟨n, hn, hmax⟩ := hs.head hhead
  have hl : ¬ LimitWithin (messages i) (s.member i).handler 0 := fun hl => hl.1 hi
  have hlen := hs.paced.length_le
  obtain ⟨hexpected, hle⟩ := expected_of_head hs (Nat.lt_of_le_of_lt hlen hcount) hi hhead
  rw [← hmax hl] at hexpected hle
  rw [hn.toSynced.received_eq hl, List.take_of_length_le (by omega)]
  exact hs.paced.stored_all (by omega)

section
variable [DecidableEq ι]

theorem Step.coming (h : Step options messages s s') (hs : Sound options messages s)
    (hlt : s'.publisher.published.length < 2 ^ 32 - 1) (hc : Coming options s' i k) :
    Coming options s i k := by
  have hle := h.published_le
  cases h with
  | store stored =>
    obtain ⟨-, _, _, _, -, -, rfl⟩ := Publisher.storePacket_eq_some stored
    cases hc with
    | delivered mem number => exact .delivered mem number
    | flies mem number => exact .flies mem number
    | later sequence le multicast => exact .later sequence le multicast
  | @send p' datagram sent =>
    have hlt₀ : s.publisher.published.length < 2 ^ 32 - 1 := by omega
    obtain ⟨batch, bytes, hpacket, hsends⟩ := Publisher.sendPacket_eq_some sent
    obtain ⟨hseq, hnext⟩ := sequence_of_packet hs.kept hlt₀ hpacket
    cases hc with
    | delivered mem number => exact .delivered mem number
    | @flies d mem number =>
      rcases List.mem_append.1 mem with hmem | hmem
      · exact .flies hmem number
      · -- the datagram of this step
        rw [Option.mem_toList] at hmem
        subst hmem
        obtain ⟨hnumber, hmulticast⟩ := number_of_sent hs.kept hlt₀ sent
        rw [number, Option.some.injEq] at hnumber
        subst hnumber
        exact .later (Nat.le_of_eq hseq) hs.paced.length_le hmulticast
    | later sequence le multicast =>
      refine .later ?_ le multicast
      rw [hsends.packetSequence] at sequence
      omega
  | accept =>
    cases hc with
    | delivered mem number => exact .delivered mem number
    | flies mem number => exact .flies mem number
    | later sequence le multicast => exact .later sequence le multicast
  | leave =>
    cases hc with
    | delivered mem number => exact .delivered mem number
    | flies mem number => exact .flies mem number
    | later sequence le multicast => exact .later sequence le multicast
  | @member m j step =>
    by_cases hij : i = j
    · subst hij
      cases hc with
      | delivered mem number =>
        simp only [Function.update_self] at mem
        rcases (coming_member step).1 mem with hmem | hmem
        · exact .delivered hmem number
        · exact .flies hmem number
      | flies mem number =>
        simp only [Function.update_self] at mem
        exact .flies ((coming_member step).2 mem) number
      | later sequence le multicast => exact .later sequence le multicast
    · cases hc with
      | delivered mem number =>
        simp only [Function.update_of_ne hij] at mem
        exact .delivered mem number
      | flies mem number =>
        simp only [Function.update_of_ne hij] at mem
        exact .flies mem number
      | later sequence le multicast => exact .later sequence le multicast

theorem coming_of_run (hcount : packetCount options < 2 ^ 32 - 1)
    (h : Reachable options messages s) (hrun : Relation.ReflTransGen (Step options messages) s s')
    (hc : Coming options s' i k) : Coming options s i k := by
  induction hrun with
  | refl => exact hc
  | tail hrun hstep ih =>
    have hs := Reachable.sound_of_count (h.trans hrun) hcount
    exact ih (hstep.coming hs
      (Nat.lt_of_le_of_lt (hstep.published_le_count hs) hcount) hc)

/-! ## Each of them can be delivered -/

/-- The publisher can go on until the `k`-th packet is multicast. -/
theorem exists_sent (hcount : packetCount options < 2 ^ 32 - 1)
    (h : Reachable options messages s) (hseq : s.publisher.packetSequence.toNat ≤ k)
    (hk : k ≤ packetCount options) (hskip : ¬ Skipped options k) :
    ∃ s', Relation.ReflTransGen (Step options messages) s s' ∧ s'.serving = s.serving ∧
      ∀ i, (s'.member i).phase = (s.member i).phase ∧
        (s'.member i).handler = (s.member i).handler ∧
        ∃ d ∈ (s'.member i).network, System.seqNumOf d = some k := by
  -- two halves to every turn before the `k`-th packet is sent
  obtain ⟨n, hn⟩ : ∃ n, n = 2 * (k - s.publisher.packetSequence.toNat)
    + if s.publisher.packet.isSome then 0 else 1 := ⟨_, rfl⟩
  induction n using Nat.strongRecOn generalizing s with
  | _ n ih =>
    have hs := h.sound_of_count hcount
    have hlen := hs.paced.length_le
    cases hpacket : s.publisher.packet with
    | none =>
      have hseq' := hs.kept.sequence_of_idle hpacket
      rw [hseq', UInt32.toNat_ofNat_of_lt' (show _ < 2 ^ 32 by omega)] at hseq
      have hmore := (lt_packetCount options (j := s.publisher.published.length)).1 (by omega)
      have hemitted := hs.paced.emitted
      rw [Publisher.turns_of_idle hpacket] at hemitted
      have hdraws : (List.replicate (s.publisher.batchSize options) (default : Draws)).length
          = s.publisher.batchSize options := List.length_replicate
      obtain ⟨batch, generator, bytes, -, hstore⟩ :=
        Publisher.storePacket_ok 0 hpacket (by omega) hdraws
      have hstep : Step options messages s _ := .store hstore
      obtain ⟨s', hrun, hs'⟩ := ih _ (by
        rw [hn, hpacket]
        simp) (h.tail hstep) (by
          show s.publisher.packetSequence.toNat ≤ k
          rw [hseq', UInt32.toNat_ofNat_of_lt' (show _ < 2 ^ 32 by omega)]
          exact hseq) rfl
      exact ⟨s', .head hstep hrun, hs'⟩
    | some packet =>
      obtain ⟨hnumber, hnext⟩ := sequence_of_packet hs.kept (by omega) hpacket
      obtain ⟨p', datagram, hsend, hsends⟩ :=
        @Publisher.sendPacket_of_packet options _ packet.1 packet.2 hpacket
      have hstep : Step options messages s _ := .send hsend
      by_cases hlast : s.publisher.packetSequence.toNat = k
      · -- this is the packet
        obtain rfl : datagram = some packet.2 :=
          hsends.datagram.trans (if_neg (by rw [hlast]; exact hskip))
        obtain ⟨hnum, -⟩ := number_of_sent hs.kept (by omega) hsend
        rw [← hnumber, hlast] at hnum
        exact ⟨_, .single hstep, rfl, fun i =>
          ⟨rfl, rfl, packet.2, List.mem_append_right _ (List.mem_singleton_self _), hnum⟩⟩
      · have hseq₁ : p'.packetSequence.toNat = s.publisher.packetSequence.toNat + 1 := by
          rw [hsends.packetSequence, hnext, hnumber]
        obtain ⟨s', hrun, hs'⟩ := ih _ (by
          rw [hn, hpacket]
          simp only [hsends.packet, hseq₁]
          simp
          omega) (h.tail hstep) (by
            show p'.packetSequence.toNat ≤ k
            omega) rfl
        exact ⟨s', .head hstep hrun, hs'⟩

/-! ## What a handler can come to apply -/

/-- The handler can come to the head of its loop, with nothing more delivered. -/
theorem exists_head (h : Reachable options messages s)
    (hlt : s.publisher.published.length < 2 ^ 32 - 1) (hfree : s.FreeFor i) :
    ∃ s', Relation.ReflTransGen (Step options messages) s s' ∧ s'.publisher = s.publisher ∧
      s'.FreeFor i ∧ (s'.member i).phase = .head ∧
      (s'.member i).network = (s.member i).network ∧
      (s'.member i).delivered = (s.member i).delivered := by
  have hs := h.sound hlt
  cases hphase : (s.member i).phase with
  | head => exact ⟨s, .refl, rfl, hfree, hphase, rfl, rfl⟩
  | handling received =>
    obtain ⟨s', handler, hrun, hpub, hfree', hmember⟩ := h.handles hlt hfree hphase
    refine ⟨s', hrun, hpub, hfree', ?_⟩
    rw [hmember, Function.update_self]
    exact ⟨rfl, rfl, rfl⟩
  | thrown e =>
    have hp := (hs.members i).phase
    rw [hphase] at hp
    exact hp.elim

/-- Safety: what has been applied was to come. -/
theorem coming_of_applied (h : Reachable options messages s)
    (hcount : packetCount options < 2 ^ 32 - 1) (hi : messages i = 0) {n : Nat} (hn : n ≠ 0)
    (hrun : Relation.ReflTransGen (Step options messages) s s')
    (hhead : (s'.member i).phase = .head)
    (hlt : n < (s'.member i).handler.expectedPacketSeq.toNat) :
    ∃ k, n ≤ k ∧ Coming options s i k := by
  have hs' := Reachable.sound_of_count (h.trans hrun) hcount
  obtain ⟨hexpected, -⟩ := expected_of_head hs'
    (Nat.lt_of_le_of_lt hs'.paced.length_le hcount) hi hhead
  have hle : n ≤ (s'.member i).largestDelivered := by omega
  obtain ⟨d, hd, hnum⟩ := (s'.member i).exists_delivered (by omega)
  exact ⟨_, hle, coming_of_run hcount h hrun (.delivered hd hnum)⟩

/-- A datagram on its way can be received and handled. -/
theorem applies_of_flies (h : Reachable options messages s)
    (hcount : packetCount options < 2 ^ 32 - 1) (hi : messages i = 0) (hfree : s.FreeFor i)
    (hhead : (s.member i).phase = .head) {d : Bytes} (hd : d ∈ (s.member i).network)
    (hnum : System.seqNumOf d = some k) :
    ∃ s', Relation.ReflTransGen (Step options messages) s s' ∧ (s'.member i).phase = .head ∧
      k < (s'.member i).handler.expectedPacketSeq.toNat := by
  have hlt := Nat.lt_of_le_of_lt (h.sound_of_count hcount).paced.length_le hcount
  obtain ⟨s', m, hrun, hpub, hmember, hmhead, hmdel⟩ := h.receives hlt hfree hhead
    (limitReached_eq_false_iff.2 fun hl => hl.1 hi) hd
  have hs := Reachable.sound_of_count (h.trans hrun) hcount
  have hupdate : s'.member i = m := by rw [hmember, Function.update_self]
  have hhead' := (congrArg Member.phase hupdate).trans hmhead
  obtain ⟨hexpected, -⟩ := expected_of_head hs (hpub ▸ hlt) hi hhead'
  refine ⟨_, hrun, hhead', ?_⟩
  have hle := m.le_largestDelivered
    (hmdel ▸ List.mem_append_right _ (List.mem_singleton_self d)) hnum
  rw [hexpected, hupdate]
  omega

/-- Liveness: what is to come can be applied. -/
theorem applies_of_coming (h : Reachable options messages s)
    (hcount : packetCount options < 2 ^ 32 - 1) (hi : messages i = 0) (hfree : s.FreeFor i)
    (hc : Coming options s i k) :
    ∃ s', Relation.ReflTransGen (Step options messages) s s' ∧ (s'.member i).phase = .head ∧
      k < (s'.member i).handler.expectedPacketSeq.toNat := by
  obtain ⟨s₁, hrun₁, hpub, hfree₁, hhead₁, hnet₁, hdel₁⟩ := exists_head h
    (Nat.lt_of_le_of_lt (h.sound_of_count hcount).paced.length_le hcount) hfree
  have h₁ : Reachable options messages s₁ := h.trans hrun₁
  have hs₁ := h₁.sound_of_count hcount
  cases hc with
  | delivered mem number =>
    obtain ⟨hexpected, -⟩ := expected_of_head hs₁
      (Nat.lt_of_le_of_lt hs₁.paced.length_le hcount) hi hhead₁
    have hle := (s₁.member i).le_largestDelivered (hdel₁ ▸ mem) number
    exact ⟨s₁, hrun₁, hhead₁, by omega⟩
  | flies mem number =>
    obtain ⟨s', hrun, hs'⟩ := applies_of_flies h₁ hcount hi hfree₁ hhead₁ (hnet₁ ▸ mem) number
    exact ⟨s', hrun₁.trans hrun, hs'⟩
  | later sequence le multicast =>
    obtain ⟨s₂, hrun₂, hserving, hs₂⟩ := exists_sent hcount h₁ (hpub ▸ sequence) le multicast
    obtain ⟨hphase, -, d, hd, hnum⟩ := hs₂ i
    have hfree₂ : s₂.FreeFor i := by rwa [FreeFor, hserving]
    obtain ⟨s', hrun, hs'⟩ := applies_of_flies (h₁.trans hrun₂) hcount hi hfree₂
      (hphase.trans hhead₁) hd hnum
    exact ⟨s', (hrun₁.trans hrun₂).trans hrun, hs'⟩

/-- **Catching up.** A handler with no limit, which the server is free for, can come to have
applied the `n`-th packet just when its number, or a later one, has reached it, is on its way, or
is still to be multicast. -/
theorem catches_up_iff (options : Options) (messages : ι → Nat) (s : Group ι) (i : ι) (n : Nat)
    (h : Reachable options messages s) (hcount : packetCount options < 2 ^ 32 - 1)
    (hi : messages i = 0) (hfree : s.FreeFor i) (hn : n ≠ 0) :
    (∃ s', Relation.ReflTransGen (Step options messages) s s' ∧ (s'.member i).phase = .head ∧
      n < (s'.member i).handler.expectedPacketSeq.toNat) ↔
        ∃ k, n ≤ k ∧ Coming options s i k := by
  constructor
  · rintro ⟨s', hrun, hhead, hlt⟩
    exact coming_of_applied h hcount hi hn hrun hhead hlt
  · rintro ⟨k, hnk, hc⟩
    obtain ⟨s', hrun, hhead, hlt⟩ := applies_of_coming h hcount hi hfree hc
    exact ⟨s', hrun, hhead, Nat.lt_of_le_of_lt hnk hlt⟩

/-- The first of two packets is lost, and the second one is on its way: the first can still come to
be applied. -/
theorem catches_up_iff_of_lost_packet :
    let options : Options := { messages := 2, messagesPerPacket := 1 }
    ∃ s : Group Unit, Reachable options (fun _ => 0) s ∧ s.publisher.published.length = 2 ∧
      (s.member ()).delivered = [] ∧
      ∃ s', Relation.ReflTransGen (Step options fun _ => 0) s s' ∧
        (s'.member ()).phase = .head ∧ 1 < (s'.member ()).handler.expectedPacketSeq.toNat := by
  obtain ⟨draws, p₁, p₂, p₃, p₄, datagram₁, datagram₂, h₁, h₂, h₃, h₄, hlen, hnum⟩ :=
    System.exists_two_sent
  have hsent : Reachable _ (fun _ => 0) { publisher := p₂, member := fun _ : Unit => _ } :=
    (Relation.ReflTransGen.refl.tail (Step.store h₁)).tail (.send h₂)
  have hlost := hsent.tail (.member () (.lose (.refl [datagram₁])))
  have h := (hlost.tail (.store h₃)).tail (.send h₄)
  refine ⟨_, h, hlen, rfl, ?_⟩
  refine (catches_up_iff _ _ _ () 1 h (by decide) rfl (.inl rfl) (by decide)).2 ?_
  exact ⟨2, by decide, .flies (List.mem_singleton_self datagram₂) hnum⟩

/-- **What is dropped at the end stays lost.** A handler with no limit can come to have received
every message just when the last packet is multicast. -/
theorem completes_iff (options : Options) (messages : ι → Nat) (i : ι)
    (hcount : packetCount options < 2 ^ 32 - 1) (hi : messages i = 0)
    (hm : options.messages ≠ 0) :
    (∃ s, Reachable options messages s ∧ (s.member i).phase = .head ∧
      (s.member i).handler.receivedMessages = options.messages) ↔
        ¬ Skipped options (packetCount options) := by
  have hpos : 0 < packetCount options := (lt_packetCount options).2 (by omega)
  constructor
  · rintro ⟨s, h, hhead, hall⟩
    have hlast := last_of_received_all (Reachable.sound_of_count h hcount) hcount hi hhead hall
    obtain ⟨k, hk, hc⟩ := coming_of_applied .refl hcount hi (Nat.ne_of_gt hpos) h hhead hlast
    -- at the start nothing has been multicast yet
    cases hc with
    | delivered mem => exact (List.not_mem_nil mem).elim
    | flies mem => exact (List.not_mem_nil mem).elim
    | later _ hle hskip => exact Nat.le_antisymm hle hk ▸ hskip
  · intro hskip
    obtain ⟨s, h, hhead, hlast⟩ := applies_of_coming (s := {}) (i := i) .refl hcount hi
      (.inl rfl) (.later hpos (Nat.le_refl _) hskip)
    have hs := Reachable.sound_of_count h hcount
    exact ⟨s, h, hhead, received_all_of_last hs hcount hi hhead hlast⟩

/-- Five messages in packets of two: with every third packet dropped no handler receives them
all. -/
theorem not_completes_of_five :
    ¬ ∃ s : Group Unit, Reachable { messages := 5, messagesPerPacket := 2, skipEvery := 3 }
      (fun _ => 0) s ∧ (s.member ()).phase = .head ∧
      (s.member ()).handler.receivedMessages = 5 := fun h =>
  (completes_iff { messages := 5, messagesPerPacket := 2, skipEvery := 3 } (fun _ => 0) ()
    (by decide) rfl (by decide)).1 h (by decide)

end

end Group

end Bmdfh
