import Bmdfh.FeedHandler.Proof.Machine

/-!
# Parked packets are never stranded

A packet is parked only when a batch is requested for the gap before it. From then on its number is
the one expected, plus the packets of the batch that are still to be processed (`Parked.waits`): the
length of the batch was checked, and every packet of it carries the number expected. So it is next
once the batch is consumed, and the drain loop takes it (`Parked.behind`), unless the message limit
ends the program before. Below the limit the receive loop never finds a packet parked earlier, and
the gap it computes is the one before the packet it has just parked (`ParkedAt.gapBefore`).
-/

namespace Bmdfh.Handler

open Std OrdMap Protocol Relation

/-! ## Gaps -/

/-- The gap between two numbers in order. -/
theorem gap_of_lt {a b : UInt32} (h : a < b) :
    a ≤ b - 1 ∧ (b - 1).toNat + 1 = b.toNat ∧ (b - 1 - a).toNat + 1 = b.toNat - a.toNat ∧
      a + UInt32.ofNat (b.toNat - a.toNat) = b := by
  rw [UInt32.lt_iff_toNat_lt] at h
  have hb := b.toNat_lt
  have h1 : (b - 1).toNat = b.toNat - 1 := by
    have : (1 : UInt32) ≤ b := UInt32.le_iff_toNat_le.2 (by simp; omega)
    rw [UInt32.toNat_sub_of_le _ _ this]
    rfl
  have hle : a ≤ b - 1 := UInt32.le_iff_toNat_le.2 (by omega)
  refine ⟨hle, by omega, ?_, ?_⟩
  · rw [UInt32.toNat_sub_of_le _ _ hle, h1]
    omega
  · apply UInt32.toNat_inj.1
    rw [UInt32.toNat_add, UInt32.toNat_ofNat_of_lt' (by show _ < 2 ^ 32; omega)]
    omega

/-! ## The packets of a batch to come -/

/-- How many packets of the batch are still to be processed; `none` outside a batch. -/
def Task.pending : Task → Option Nat
  | .receive => none
  | .batch rest => some rest.length
  | .drain => none

/-- The same, with the packet in hand. -/
def Point.pending : Point → Option Nat
  | .between task => task.pending
  | .message _ _ _ _ next => next.pending.map (· + 1)
  | .finish _ _ _ next => next.pending.map (· + 1)

/-- One packet is parked. -/
def ParkedAt (h : Handler) (seq : UInt32) (bytes : Bytes) : Prop :=
  h.bufferedPackets = (∅ : ExtTreeMap UInt32 Bytes).insert seq bytes

/-- What is parked, by where the handler is. -/
inductive Parked (messages : Nat) : Point → Handler → Prop
  | nothing {p h} : p.pending = none → h.bufferedPackets = ∅ → Parked messages p h
  /-- The packet behind the gap that the batch fills. -/
  | waits {p h seq bytes n} : p.pending = some n → h.ParkedAt seq bytes →
    seq.toNat = h.expectedPacketSeq.toNat + n → Parked messages p h
  /-- The same packet behind the batch, next in the drain loop unless the limit is reached. -/
  | behind {task h seq bytes} : task.pending = none → h.ParkedAt seq bytes →
    h.expectedPacketSeq ≤ seq →
    (h.limitReached messages = false → task = .drain ∧ seq = h.expectedPacketSeq) →
    Parked messages (.between task) h

section
variable {messages : Nat} {h : Handler} {p : Point} {s s' : Point × Handler} {seq : UInt32}
  {bytes : Bytes}

/-! ## One packet parked -/

theorem ParkedAt.get (hs : h.ParkedAt seq bytes) (seq' : UInt32) :
    h.bufferedPackets[seq']? = if seq = seq' then some bytes else none := by
  rw [hs, get_insert, ExtTreeMap.getElem?_empty]

theorem ParkedAt.size (hs : h.ParkedAt seq bytes) : h.bufferedPackets.size = 1 := by
  rw [hs, ExtTreeMap.size_insert]
  simp

theorem ParkedAt.first? (hs : h.ParkedAt seq bytes) :
    OrdMap.first? h.bufferedPackets = some (seq, bytes) := by
  rw [hs]
  exact first?_insert_empty seq bytes

/-- Parked where nothing was. -/
theorem parkedAt_park (hb : h.bufferedPackets = ∅) (seq : UInt32) (bytes : Bytes) :
    (h.park seq bytes).ParkedAt seq bytes := by
  show h.bufferedPackets.insert seq bytes = _
  rw [hb]

/-! ## Steps -/

/-- Nothing is parked at the head of the receive loop. -/
theorem Parked.head (hp : Parked messages (.between .receive) h)
    (hlim : h.limitReached messages = false) : h.bufferedPackets = ∅ := by
  cases hp with
  | nothing _ hb => exact hb
  | waits hn _ _ => cases hn
  | behind _ _ _ hnext => cases (hnext hlim).1

/-- In the replay loop the packet behind the gap waits for the rest of the batch. -/
theorem Parked.batch {rest : List Bytes} (hp : Parked messages (.between (.batch rest)) h) :
    ∃ seq bytes, h.ParkedAt seq bytes ∧ seq.toNat = h.expectedPacketSeq.toNat + rest.length := by
  cases hp with
  | nothing hn _ => cases hn
  | @waits _ _ seq bytes _ hn hs hto =>
    obtain rfl := Option.some.inj hn
    exact ⟨seq, bytes, hs, hto⟩
  | behind hn _ _ _ => cases hn

/-- In the drain loop nothing is parked, or below the limit the packet that is next. -/
theorem Parked.drain (hp : Parked messages (.between .drain) h) :
    h.bufferedPackets = ∅ ∨ ∃ seq bytes, h.ParkedAt seq bytes ∧ h.expectedPacketSeq ≤ seq ∧
      (h.limitReached messages = false → seq = h.expectedPacketSeq) := by
  cases hp with
  | nothing _ hb => exact .inl hb
  | waits hn _ _ => cases hn
  | @behind _ _ seq bytes _ hs hle hnext =>
    exact .inr ⟨seq, bytes, hs, hle, fun hlim => (hnext hlim).2⟩

/-- The message loop leaves alone what is parked and the number expected. -/
theorem Parked.inHand {packet : PacketView} {source : PacketSource} {index : Nat} {next : Task}
    {p' : Point} {h' : Handler}
    (hp : Parked messages (.message bytes packet source index next) h)
    (hpending : p'.pending = next.pending.map (· + 1))
    (hb : h'.bufferedPackets = h.bufferedPackets)
    (he : h'.expectedPacketSeq = h.expectedPacketSeq) : Parked messages p' h' := by
  cases hp with
  | nothing hn hempty => exact .nothing (hpending.trans hn) (hb.trans hempty)
  | waits hn hs hto => exact .waits (hpending.trans hn) (hb.trans hs) (he ▸ hto)

/-- The packet parked with a gap before it waits for as many packets as are requested. -/
theorem Parked.requested {batch : List Bytes} (hb : h.bufferedPackets = ∅)
    (hlt : h.expectedPacketSeq < seq)
    (hlen : batch.length = (seq - 1 - h.expectedPacketSeq).toNat + 1) :
    Parked messages (.between (.batch batch)) (h.park seq bytes).requested := by
  refine .waits rfl (parkedAt_park hb seq bytes) ?_
  have hgap := (gap_of_lt hlt).2.2.1
  rw [UInt32.lt_iff_toNat_lt] at hlt
  show seq.toNat = h.expectedPacketSeq.toNat + batch.length
  omega

/-- A packet is processed: one less to come, and the next number expected. -/
theorem Parked.finished {packet : PacketView} {source : PacketSource} {next : Task}
    (hp : Parked messages (.finish bytes packet source next) h)
    (hseq : decodeSeqNum packet.header = h.expectedPacketSeq) :
    Parked messages (.between next) (h.finish bytes source (decodeSeqNum packet.header)) := by
  have hbuffered := finish_bufferedPackets h bytes source (decodeSeqNum packet.header)
  cases hp with
  | nothing hn hb => exact .nothing (Option.map_eq_none_iff.1 hn) (hbuffered.trans hb)
  | @waits _ _ seq _ _ hn hs hto =>
    obtain ⟨n, htask, rfl⟩ := Option.map_eq_some_iff.1 hn
    refine .waits htask (hbuffered.trans hs) ?_
    have hlt := seq.toNat_lt
    rw [finish_expectedPacketSeq, hseq, UInt32.toNat_add, UInt32.toNat_one,
      Nat.mod_eq_of_lt (by omega)]
    omega

theorem Parked.acts (hp : Parked messages s.1 s.2) (he : Expects s.1 s.2)
    (ha : Acts messages s s') : Parked messages s'.1 s'.2 := by
  cases ha with
  | discards _ => exact hp
  | receives hlim _ _ => exact .nothing rfl (hp.head hlim)
  | @parks seq bytes h hlim hlt hnone =>
    -- what is parked is ahead, so there is something to request
    have hf := (parkedAt_park (hp.head hlim) seq bytes).first?
    have hgap := (gap_of_lt hlt).1
    exact absurd (hnone _ hf) (UInt32.not_lt.2 hgap)
  | @requests seq bytes _ _ h hlim hlt hf hlen =>
    obtain rfl := Option.some.inj ((parkedAt_park (hp.head hlim) seq bytes).first?.symm.trans hf)
    exact .requested (hp.head hlim) hlt hlen
  | replays _ _ _ =>
    obtain ⟨seq, bytes, hs, hto⟩ := hp.batch
    exact .waits rfl hs hto
  | batchEnds =>
    obtain ⟨seq, bytes, hs, hto⟩ := hp.batch
    have hnext := UInt32.toNat_inj.1 hto
    exact .behind rfl hs (hnext ▸ UInt32.le_refl _) fun _ => ⟨rfl, hnext⟩
  | batchStops hlim =>
    obtain ⟨seq, bytes, hs, hto⟩ := hp.batch
    refine .behind rfl hs (UInt32.le_iff_toNat_le.2 (Nat.le.intro hto.symm)) fun hbelow => ?_
    rw [hlim] at hbelow
    cases hbelow
  | drains hlim hget _ _ =>
    rcases hp.drain with hb | ⟨seq, bytes, hs, -, hnext⟩
    · rw [hb] at hget
      cases hget
    · obtain rfl := hnext hlim
      refine .nothing rfl ?_
      show ExtTreeMap.erase _ _ = _
      rw [hs, erase_insert, ExtTreeMap.erase_empty]
  | drainEnds hlim hget =>
    rcases hp.drain with hb | ⟨seq, bytes, hs, -, hnext⟩
    · exact .nothing rfl hb
    · rw [hs.get, if_pos (hnext hlim)] at hget
      cases hget
  | drainStops hlim =>
    rcases hp.drain with hb | ⟨seq, bytes, hs, hle, -⟩
    · exact .nothing rfl hb
    · refine .behind rfl hs hle fun hbelow => ?_
      rw [hlim] at hbelow
      cases hbelow
  | applies _ _ _ => exact hp.inHand rfl rfl rfl
  | reaches _ _ _ => exact hp.inHand rfl rfl rfl
  | ends _ => exact hp.inHand rfl rfl rfl
  | finishes =>
    cases he with
    | finish _ hseq => exact hp.finished hseq

theorem Reaches.parked (hr : Reaches messages (p, h)) : Parked messages p h :=
  hr.induction (.nothing rfl rfl) fun _ _ hrun hp ha => hp.acts (Reaches.expects hrun) ha

/-! ## Behind the limit -/

/-- Between packets, once the limit is reached, nothing changes any more. -/
theorem turns_limitReached {task : Task} (hlim : h.limitReached messages = true)
    (ht : Turns messages (.between task, h) s) : (∃ task', s.1 = .between task') ∧ s.2 = h := by
  induction ht with
  | refl => exact ⟨⟨task, rfl⟩, rfl⟩
  | @tail s s' _ hstep ih =>
    obtain ⟨⟨task', hp⟩, rfl⟩ := ih
    obtain ⟨p, h⟩ := s
    obtain rfl : p = _ := hp
    cases hstep.acts with
    | batchEnds => exact ⟨⟨_, rfl⟩, rfl⟩
    | batchStops _ => exact ⟨⟨_, rfl⟩, rfl⟩
    | drainStops _ => exact ⟨⟨_, rfl⟩, rfl⟩
    -- every other step from there needs room below the limit
    | _ => simp_all

/-! ## The gap -/

/-- One packet is parked, ahead of the one expected. The range up to it is not empty, and its end
is no underflow. -/
def GapBefore (h : Handler) : Prop :=
  h.bufferedPackets.size = 1 ∧ ∃ first, OrdMap.first? h.bufferedPackets = some first ∧
    h.expectedPacketSeq < first.1 ∧ h.expectedPacketSeq ≤ first.1 - 1 ∧
    (first.1 - 1).toNat + 1 = first.1.toNat

theorem ParkedAt.gapBefore (hs : h.ParkedAt seq bytes) (hlt : h.expectedPacketSeq < seq) :
    h.GapBefore := by
  obtain ⟨hle, hend, -, -⟩ := gap_of_lt hlt
  exact ⟨hs.size, (seq, bytes), hs.first?, hlt, hle, hend⟩

theorem Parked.size_le (hp : Parked messages p h) : h.bufferedPackets.size ≤ 1 := by
  cases hp with
  | nothing _ hb =>
    rw [hb]
    exact Nat.zero_le 1
  | waits _ hs _ => exact Nat.le_of_eq hs.size
  | behind _ hs _ _ => exact Nat.le_of_eq hs.size

/-- While packets of the batch are to come, there is a gap. -/
theorem Parked.gapBefore (hp : Parked messages p h) {n : Nat} (hn : p.pending = some (n + 1)) :
    h.GapBefore := by
  cases hp with
  | nothing hn' _ =>
    rw [hn'] at hn
    cases hn
  | waits hn' hs hto =>
    obtain rfl := Option.some.inj (hn'.symm.trans hn)
    exact hs.gapBefore (UInt32.lt_iff_toNat_lt.2 (by omega))
  | behind hn' _ _ _ =>
    rw [Point.pending, hn'] at hn
    cases hn

/-- **Parked packets are never stranded.** At the head of the receive loop, below the limit, nothing
is parked. Otherwise at most one packet is; it is ahead of the one expected from the time it is
parked (at the head) until the batch is consumed, or for good when the limit stops the batch. -/
theorem parked_never_stranded (messages : Nat) (p : Point) (h : Handler)
    (hr : Reaches messages (p, h)) :
    (p = .between .receive → h.limitReached messages = false →
      h.bufferedPackets = ∅ ∧
        ∀ seq bytes, h.expectedPacketSeq < seq → (h.park seq bytes).GapBefore) ∧
    h.bufferedPackets.size ≤ 1 ∧
    (∀ n, p.pending = some (n + 1) → h.GapBefore) ∧
    ∀ task, p = .between task → h.limitReached messages = true →
      ∀ p' h', Turns messages (p, h) (p', h') → h' = h := by
  have hp := hr.parked
  refine ⟨?head, hp.size_le, fun n hn => hp.gapBefore hn, ?stopped⟩
  case head =>
    rintro rfl hlim
    have hb := hp.head hlim
    exact ⟨hb, fun seq bytes hlt => (parkedAt_park hb seq bytes).gapBefore hlt⟩
  case stopped =>
    rintro task rfl hlim p' h' ht
    exact (turns_limitReached hlim ht).2

/-- Packet 3 first: two packets are requested, and until they are processed it is parked. -/
theorem parked_never_stranded_of_gap : ∃ p h, Reaches 0 (p, h) ∧ p.pending = some 2 ∧
    h.GapBefore := by
  obtain ⟨s, hs, hn⟩ : ∃ s, receiveTurn 0
      ⟨emptyPacket 3, fun _ _ => .ok [emptyPacket 1, emptyPacket 2]⟩ {} = some s ∧
        s.1.pending = some 2 := ⟨_, rfl, rfl⟩
  have hr : Reaches 0 (s.1, s.2) := .single (.receive _ hs)
  exact ⟨s.1, s.2, hr, hn, (parked_never_stranded 0 s.1 s.2 hr).2.2.1 1 hn⟩

end

end Bmdfh.Handler
