import Bmdfh.FeedHandler.Proof.Machine

/-!
# The message limit

At every point the messages applied are those of the packets taken up so far, cut at the limit
(`limit_exact`). `Limited` is the invariant, with a case for each kind of point; once the limit is
reached the machine only leaves its loops (`Stopped`).
-/

namespace Bmdfh.Handler

open Std OrdMap Protocol Relation

/-- The messages in the slots of a packet, each with the packet. -/
def messagesOf (packetBytes : Bytes) : List (Bytes × Message) :=
  (parsePacket packetBytes).elim [] fun packet => packet.messages.map (packetBytes, ·)

/-- The messages of `done` were applied, and the first `n` slots of another packet. -/
structure AppliedUpTo (applied : List (Bytes × Message)) (done : List Bytes) (packetBytes : Bytes)
    (packet : PacketView) (n : Nat) : Prop where
  parsed : parsePacket packetBytes = some packet
  whole : ∀ bytes ∈ done, FullyWellFormed bytes
  good : ∀ i < n, (messageAt packet i).isSome
  le : n ≤ (decodeMsgCount packet.header).toNat
  applied_eq : applied = done.flatMap messagesOf
    ++ ((List.range n).filterMap (messageAt packet)).map (packetBytes, ·)

/-- The packets processed. -/
def packets (h : Handler) : List Bytes := h.processed.map (·.2)

/-- The invariant, by where the handler is. -/
inductive Limited (messages : Nat) : Point → Handler → Prop
  | whole {task h} : h.receivedMessages ≤ messages → (∀ bytes ∈ h.packets, FullyWellFormed bytes) →
    h.applied = h.packets.flatMap messagesOf → Limited messages (.between task) h
  | cut {task h done packetBytes packet n} : h.receivedMessages = messages →
    h.packets = done ++ [packetBytes] → AppliedUpTo h.applied done packetBytes packet n →
    Limited messages (.between task) h
  | message {packetBytes packet source index next h} : h.receivedMessages < messages →
    AppliedUpTo h.applied h.packets packetBytes packet index →
    Limited messages (.message packetBytes packet source index next) h
  | finish {packetBytes packet source next h n} : h.receivedMessages ≤ messages →
    AppliedUpTo h.applied h.packets packetBytes packet n →
    (h.receivedMessages = messages ∨ n = (decodeMsgCount packet.header).toNat) →
    Limited messages (.finish packetBytes packet source next) h

section
variable {messages : Nat} {h h' : Handler} {p p' : Point}

theorem limitReached_iff_le (hM : messages ≠ 0) :
    h.limitReached messages = true ↔ messages ≤ h.receivedMessages := by
  simp [limitReached, hM]

theorem AppliedUpTo.zero {packetBytes : Bytes} {packet : PacketView}
    (hp : parsePacket packetBytes = some packet) (hw : ∀ bytes ∈ h.packets, FullyWellFormed bytes)
    (ha : h.applied = h.packets.flatMap messagesOf) :
    AppliedUpTo h.applied h.packets packetBytes packet 0 :=
  ⟨hp, hw, fun _ hi => (Nat.not_lt_zero _ hi).elim, Nat.zero_le _, by simpa using ha⟩

theorem AppliedUpTo.succ {applied : List (Bytes × Message)} {done : List Bytes}
    {packetBytes : Bytes} {packet : PacketView} {n : Nat} {m : Message}
    (ha : AppliedUpTo applied done packetBytes packet n)
    (hlt : n < (decodeMsgCount packet.header).toNat) (hm : messageAt packet n = some m) :
    AppliedUpTo (applied ++ [(packetBytes, m)]) done packetBytes packet (n + 1) := by
  refine ⟨ha.parsed, ha.whole, fun i hi => ?_, hlt, ?_⟩
  · rcases Nat.lt_succ_iff_lt_or_eq.1 hi with hi | rfl
    · exact ha.good i hi
    · rw [hm]
      rfl
  · rw [ha.applied_eq, List.range_succ, List.filterMap_append, List.filterMap_cons_some hm]
    simp

/-- All slots applied: one more packet whole. -/
theorem AppliedUpTo.complete {applied : List (Bytes × Message)} {done : List Bytes}
    {packetBytes : Bytes} {packet : PacketView}
    (ha : AppliedUpTo applied done packetBytes packet (decodeMsgCount packet.header).toNat) :
    (∀ bytes ∈ done ++ [packetBytes], FullyWellFormed bytes) ∧
      applied = (done ++ [packetBytes]).flatMap messagesOf := by
  constructor
  · intro bytes hb
    rcases List.mem_append.1 hb with hb | hb
    · exact ha.whole bytes hb
    · rw [List.mem_singleton.1 hb]
      exact ⟨packet, ha.parsed, ha.good⟩
  · rw [ha.applied_eq, List.flatMap_append, List.flatMap_singleton, messagesOf, ha.parsed]
    rfl

theorem below_of_not_limitReached (hM : messages ≠ 0) (h' : h.limitReached messages = false) :
    h.receivedMessages < messages := by
  rw [← Nat.not_le, ← limitReached_iff_le hM, h']
  nofun

/-- Below the limit, between packets, all packets are whole. -/
theorem Limited.below (hM : messages ≠ 0) {task : Task} (hl : Limited messages (.between task) h)
    (hlim : h.limitReached messages = false) :
    h.receivedMessages < messages ∧ (∀ bytes ∈ h.packets, FullyWellFormed bytes) ∧
      h.applied = h.packets.flatMap messagesOf := by
  have hlt := below_of_not_limitReached hM hlim
  cases hl with
  | whole _ hw ha => exact ⟨hlt, hw, ha⟩
  | cut he _ _ => omega

/-- Another point between packets. -/
theorem Limited.task {task task' : Task} (hl : Limited messages (.between task) h) :
    Limited messages (.between task') h := by
  cases hl with
  | whole hle hw ha => exact .whole hle hw ha
  | cut he hp ha => exact .cut he hp ha

theorem Limited.finished {bytes : Bytes} {packet : PacketView} {source : PacketSource}
    {next : Task} (hl : Limited messages (.finish bytes packet source next) h) :
    Limited messages (.between next) (h.finish bytes source (decodeSeqNum packet.header)) := by
  have hpackets : (h.finish bytes source (decodeSeqNum packet.header)).packets
      = h.packets ++ [bytes] := by
    simp [packets]
  have hreceived := finish_receivedMessages h bytes source (decodeSeqNum packet.header)
  have happlied := finish_applied h bytes source (decodeSeqNum packet.header)
  cases hl with
  | @finish _ _ _ _ _ n hle ha hn =>
    rcases hn with hn | rfl
    · exact .cut (hreceived.trans hn) hpackets (happlied.symm ▸ ha)
    · obtain ⟨hw, ha'⟩ := ha.complete
      refine .whole (hreceived.symm ▸ hle) ?_ ?_
      · exact hpackets.symm ▸ hw
      · exact happlied.trans (ha'.trans (congrArg _ hpackets.symm))

theorem Limited.moves (hM : messages ≠ 0) {s s' : Point × Handler} (hl : Limited messages s.1 s.2)
    (hm : Moves messages s s') : Limited messages s'.1 s'.2 := by
  cases hm with
  | passes => exact hl.task
  | parks hlim =>
    obtain ⟨hlt, hw, ha⟩ := hl.below hM hlim
    exact .whole (Nat.le_of_lt hlt) hw ha
  | requests hlim =>
    obtain ⟨hlt, hw, ha⟩ := hl.below hM hlim
    exact .whole (Nat.le_of_lt hlt) hw ha
  | enters hlim hp _ =>
    obtain ⟨hlt, hw, ha⟩ := hl.below hM hlim
    exact .message hlt (.zero hp hw ha)
  | @unparks _ seq _ _ _ _ h hlim hp _ =>
    obtain ⟨hlt, hw, ha⟩ := hl.below hM hlim
    exact .message hlt (.zero (h := { h with bufferedPackets := h.bufferedPackets.erase seq }) hp
      hw ha)
  | applies hi hm hlim =>
    cases hl with
    | message _ ha => exact .message (below_of_not_limitReached hM hlim) (ha.succ hi hm)
  | reaches hi hm hlim =>
    cases hl with
    | message hlt ha =>
      -- the message just applied is the last
      rw [limitReached_iff_le hM] at hlim
      exact .finish hlt (ha.succ hi hm) (.inl (Nat.le_antisymm hlt hlim))
  | ends hge =>
    cases hl with
    | message hlt ha => exact .finish (Nat.le_of_lt hlt) ha (.inr (Nat.le_antisymm ha.le hge))
  | finishes => exact hl.finished

/-! ## Behind the limit -/

/-- The limit is reached, and no message loop is entered any more. -/
def Stopped (messages : Nat) (s : Point × Handler) : Prop :=
  messages ≤ s.2.receivedMessages ∧
    ((∃ task, s.1 = .between task) ∨
      ∃ bytes packet source next, s.1 = .finish bytes packet source next)

/-- Nothing is applied or requested from one state to the other. -/
structure Frozen (h h' : Handler) : Prop where
  applied : h'.applied = h.applied
  orderBook : h'.orderBook = h.orderBook
  receivedMessages : h'.receivedMessages = h.receivedMessages
  replayRequests : h'.replayRequests = h.replayRequests

theorem Frozen.refl (h : Handler) : Frozen h h := ⟨rfl, rfl, rfl, rfl⟩

theorem Frozen.trans {h₁ h₂ h₃ : Handler} (h₁₂ : Frozen h₁ h₂) (h₂₃ : Frozen h₂ h₃) :
    Frozen h₁ h₃ :=
  ⟨h₂₃.applied.trans h₁₂.applied, h₂₃.orderBook.trans h₁₂.orderBook,
    h₂₃.receivedMessages.trans h₁₂.receivedMessages,
    h₂₃.replayRequests.trans h₁₂.replayRequests⟩

theorem Stopped.moves (hM : messages ≠ 0) {s s' : Point × Handler} (hs : Stopped messages s)
    (hm : Moves messages s s') : Stopped messages s' ∧ Frozen s.2 s'.2 := by
  obtain ⟨hle, hat⟩ := hs
  have hlim := (limitReached_iff_le hM).2 hle
  cases hm with
  | passes => exact ⟨⟨hle, .inl ⟨_, rfl⟩⟩, .refl _⟩
  | @finishes bytes packet source _ h =>
    have hreceived := finish_receivedMessages h bytes source (decodeSeqNum packet.header)
    exact ⟨⟨hreceived.symm ▸ hle, .inl ⟨_, rfl⟩⟩, finish_applied .., finish_orderBook ..,
      hreceived, finish_replayRequests ..⟩
  -- every other step needs a message loop, or room below the limit
  | _ => simp_all

theorem Stopped.run (hM : messages ≠ 0) {s s' : Point × Handler} (hs : Stopped messages s)
    (ht : Turns messages s s') : Stopped messages s' ∧ Frozen s.2 s'.2 := by
  induction ht with
  | refl => exact ⟨hs, .refl _⟩
  | tail _ hstep ih =>
    obtain ⟨hstop, hfrozen⟩ := ih
    obtain ⟨hstop', hfrozen'⟩ := hstop.moves hM hstep.moves
    exact ⟨hstop', hfrozen.trans hfrozen'⟩

/-! ## Reachable states -/

theorem Reaches.limited (hM : messages ≠ 0) (hr : Reaches messages (p, h)) :
    Limited messages p h := by
  refine hr.induction ?_ fun _ _ _ hl ha => hl.moves hM ha.moves
  exact .whole (Nat.zero_le _) (fun _ hb => absurd hb List.not_mem_nil) rfl

theorem Reaches.recorded (hr : Reaches messages (p, h)) : Recorded h := by
  refine respected_recorded.reaches (fun _ hr => ?_) (fun _ _ _ hr => ?_) hr ⟨rfl, rfl⟩
  all_goals exact ⟨hr.orderBook, hr.receivedMessages⟩

/-- What is applied of a packet is the start of its messages. -/
theorem AppliedUpTo.start {applied : List (Bytes × Message)} {done : List Bytes}
    {bytes : Bytes} {packet : PacketView} {n : Nat}
    (ha : AppliedUpTo applied done bytes packet n) :
    done.flatMap messagesOf <+: applied ∧ applied <+: (done ++ [bytes]).flatMap messagesOf := by
  have hslots : ((List.range n).filterMap (messageAt packet)).map (bytes, ·)
      <+: messagesOf bytes := by
    rw [messagesOf, ha.parsed]
    refine List.IsPrefix.map _ (List.IsPrefix.filterMap _ ?_)
    obtain ⟨k, hk⟩ := Nat.exists_eq_add_of_le ha.le
    rw [hk, List.range_add]
    exact List.prefix_append _ _
  rw [ha.applied_eq, List.flatMap_append, List.flatMap_singleton]
  exact ⟨List.prefix_append _ _, (List.prefix_append_right_inj _).2 hslots⟩

/-- At every point: the packets before the last are whole and applied whole, and what is applied
is the start of what the packets hold. -/
theorem Limited.applied (hl : Limited messages p h) :
    let packets := h.packets ++ p.inHand
    h.receivedMessages ≤ messages ∧ (∀ bytes ∈ packets.dropLast, FullyWellFormed bytes) ∧
      packets.dropLast.flatMap messagesOf <+: h.applied ∧
      h.applied <+: packets.flatMap messagesOf := by
  have hhand : ∀ {bytes : Bytes} {packet : PacketView} {n : Nat} {done : List Bytes},
      h.receivedMessages ≤ messages → AppliedUpTo h.applied done bytes packet n →
      h.packets ++ p.inHand = done ++ [bytes] →
      h.receivedMessages ≤ messages ∧
        (∀ bytes ∈ (h.packets ++ p.inHand).dropLast, FullyWellFormed bytes) ∧
        (h.packets ++ p.inHand).dropLast.flatMap messagesOf <+: h.applied ∧
        h.applied <+: (h.packets ++ p.inHand).flatMap messagesOf := by
    intro bytes packet n done hle ha hd
    rw [hd, List.dropLast_concat]
    exact ⟨hle, ha.whole, ha.start⟩
  cases hl with
  | whole hle hw ha =>
    show _ ∧ (∀ bytes ∈ (h.packets ++ []).dropLast, _) ∧ (h.packets ++ []).dropLast.flatMap _ <+: _
      ∧ _ <+: (h.packets ++ []).flatMap _
    rw [List.append_nil, ha]
    obtain ⟨last, hlast⟩ := List.dropLast_prefix h.packets
    refine ⟨hle, fun bytes hb => hw bytes (List.dropLast_subset _ hb), ?_, List.prefix_rfl⟩
    exact ⟨last.flatMap messagesOf, by rw [← List.flatMap_append, hlast]⟩
  | cut he hd ha => exact hhand (Nat.le_of_eq he) ha ((List.append_nil _).trans hd)
  | message hlt ha => exact hhand (Nat.le_of_lt hlt) ha rfl
  | finish hle ha _ => exact hhand hle ha rfl

theorem Limited.stopped (hl : Limited messages p h) (he : messages ≤ h.receivedMessages) :
    Stopped messages (p, h) := by
  cases hl with
  | whole _ _ _ => exact ⟨he, .inl ⟨_, rfl⟩⟩
  | cut _ _ _ => exact ⟨he, .inl ⟨_, rfl⟩⟩
  | message hlt _ => omega
  | finish _ _ _ => exact ⟨he, .inr ⟨_, _, _, _, rfl⟩⟩

/-- **The message limit is exact**, at every point the handler reaches. -/
theorem limit_exact (messages : Nat) (hM : messages ≠ 0) (p : Point) (h : Handler)
    (hr : Reaches messages (p, h)) :
    let packets := h.packets ++ p.inHand
    h.receivedMessages ≤ messages ∧ h.applied.length = h.receivedMessages ∧
      h.applied = (packets.flatMap messagesOf).take h.receivedMessages ∧
      h.orderBook = OrderBook.applyAll {}
        (((packets.flatMap messagesOf).take h.receivedMessages).map Prod.snd) ∧
      (∀ bytes ∈ packets.dropLast, FullyWellFormed bytes) ∧
      packets.dropLast.flatMap messagesOf <+: h.applied ∧
      (h.receivedMessages = messages → ∀ p' h', Turns messages (p, h) (p', h') → Frozen h h') := by
  intro packets
  have hl := hr.limited hM
  have hrec := hr.recorded
  obtain ⟨hle, hw, hdone, hstart⟩ := hl.applied
  have happlied : h.applied = (packets.flatMap messagesOf).take h.receivedMessages := by
    rw [hrec.receivedMessages]
    exact List.prefix_iff_eq_take.1 hstart
  refine ⟨hle, hrec.receivedMessages.symm, happlied, ?_, hw, hdone, fun he p' h' ht => ?_⟩
  · rw [← happlied]
    exact hrec.orderBook
  · exact ((hl.stopped (Nat.le_of_eq he.symm)).run hM ht).2

def twoOrdersPacket : Bytes :=
  PacketHeader.layout.store (makePacketHeader 1 2 0)
    ++ Message.wireBytes (.addOrder (makeAddOrderMsg 1 .buy 100 50))
    ++ Message.wireBytes (.addOrder (makeAddOrderMsg 2 .buy 100 20))

/-- The limit in the middle of a packet. -/
theorem limit_exact_of_cut_packet :
    ∃ h, receiveLoop 1 [⟨twoOrdersPacket, fun _ _ => .error "no request"⟩] {} = .ok () h ∧
      h.packets = [twoOrdersPacket] ∧ h.receivedMessages = 1 ∧
      ∀ p' h', Turns 1 (.between .receive, h) (p', h') → Frozen h h' := by
  obtain ⟨h, hrun, hpackets, hreceived⟩ : ∃ h,
      receiveLoop 1 [⟨twoOrdersPacket, fun _ _ => .error "no request"⟩] {} = .ok () h ∧
      h.packets = [twoOrdersPacket] ∧ h.receivedMessages = 1 := ⟨_, rfl, rfl, rfl⟩
  have hlimit := limit_exact 1 (by decide) (.between .receive) h (Reachable.reaches ⟨_, hrun⟩)
  exact ⟨h, hrun, hpackets, hreceived, hlimit.2.2.2.2.2.2 hreceived⟩

end

end Bmdfh.Handler
