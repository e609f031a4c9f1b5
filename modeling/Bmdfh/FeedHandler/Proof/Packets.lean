import Bmdfh.FeedHandler.Proof.Sequence
import Bmdfh.Protocol.Proof.Codec

/-!
# What a packet does to the handler

A packet applies its messages up to its first bad slot (`leading`), fewer when the message limit
comes first. `processPacketBytes_eq` is its exact outcome; `processBatch_ok` and
`drainBufferedPackets_some` are what a replay batch and the drain loop do.
-/

namespace Bmdfh.Handler

open Std OrdMap Protocol Outcome

/-- The messages of the slots before the first bad one. -/
def leading (packet : PacketView) : List Nat → List Message
  | [] => []
  | index :: rest =>
    match messageAt packet index with
    | none => []
    | some message => message :: leading packet rest

/-- The messages a packet applies when no limit stops it. -/
def goodMessages (packet : PacketView) : List Message :=
  leading packet (List.range (decodeMsgCount packet.header).toNat)

theorem length_leading_le (packet : PacketView) (indices : List Nat) :
    (leading packet indices).length ≤ indices.length := by
  induction indices with
  | nil => exact Nat.le_refl _
  | cons index rest ih =>
    unfold leading
    cases messageAt packet index with
    | none => exact Nat.zero_le _
    | some m => exact Nat.succ_le_succ ih

theorem length_leading_eq_iff (packet : PacketView) (indices : List Nat) :
    (leading packet indices).length = indices.length ↔
      ∀ i ∈ indices, (messageAt packet i).isSome := by
  induction indices with
  | nil => simp [leading]
  | cons index rest ih =>
    unfold leading
    cases hm : messageAt packet index with
    | none => simp [hm]
    | some m => simp [hm, ih]

theorem leading_eq_filterMap {packet : PacketView} {indices : List Nat}
    (h : ∀ i ∈ indices, (messageAt packet i).isSome) :
    leading packet indices = indices.filterMap (messageAt packet) := by
  induction indices with
  | nil => rfl
  | cons index rest ih =>
    obtain ⟨m, hm⟩ := Option.isSome_iff_exists.1 (h index (.head _))
    rw [leading, hm, List.filterMap_cons_some hm, ih fun i hi => h i (.tail _ hi)]

theorem length_goodMessages_eq_iff {packet : PacketView} :
    (goodMessages packet).length = (decodeMsgCount packet.header).toNat ↔ packet.Complete := by
  have h := length_leading_eq_iff packet (List.range (decodeMsgCount packet.header).toNat)
  simp only [List.length_range, List.mem_range] at h
  exact h

theorem goodMessages_of_complete {packet : PacketView} (h : packet.Complete) :
    goodMessages packet = packet.messages :=
  leading_eq_filterMap fun i hi => h i (List.mem_range.1 hi)

/-- Every slot of the packet is accepted. -/
def FullyWellFormed (bytes : Bytes) : Prop :=
  ∃ packet, parsePacket bytes = some packet ∧ packet.Complete

/-! ## The limit -/

/-- `n` more messages reach the limit. -/
def LimitWithin (messages : Nat) (h : Handler) (n : Nat) : Prop :=
  messages ≠ 0 ∧ messages ≤ h.receivedMessages + n

instance (messages : Nat) (h : Handler) (n : Nat) : Decidable (LimitWithin messages h n) :=
  inferInstanceAs (Decidable (_ ∧ _))

theorem limitReached_iff {messages : Nat} {h : Handler} :
    h.limitReached messages = true ↔ LimitWithin messages h 0 := by
  simp [limitReached, LimitWithin]

theorem limitReached_eq_false_iff {messages : Nat} {h : Handler} :
    h.limitReached messages = false ↔ ¬ LimitWithin messages h 0 := by
  rw [← limitReached_iff, Bool.not_eq_true]

/-- The messages `ms` of a packet applied. -/
def applyMany (h : Handler) (packetBytes : Bytes) (ms : List Message) : Handler :=
  { h with
    orderBook := h.orderBook.applyAll ms
    receivedMessages := h.receivedMessages + ms.length
    applied := h.applied ++ ms.map (packetBytes, ·) }

@[simp] theorem applyMany_nil (h : Handler) (bytes : Bytes) : h.applyMany bytes [] = h := by
  simp [applyMany]

@[simp] theorem applyMany_cons (h : Handler) (bytes : Bytes) (m : Message) (ms : List Message) :
    h.applyMany bytes (m :: ms) = (h.applyMessage bytes m).applyMany bytes ms := by
  simp [applyMany, applyMessage, Nat.add_assoc, Nat.add_comm 1]

theorem limitWithin_applyMessage {messages : Nat} {h : Handler} {bytes : Bytes} {m : Message}
    {n : Nat} :
    LimitWithin messages (h.applyMessage bytes m) n ↔ LimitWithin messages h (n + 1) := by
  simp only [LimitWithin, applyMessage]
  omega

theorem LimitWithin.mono {messages : Nat} {h : Handler} {n n' : Nat}
    (hn : LimitWithin messages h n) (hle : n ≤ n') : LimitWithin messages h n' :=
  ⟨hn.1, Nat.le_trans hn.2 (Nat.add_le_add_left hle _)⟩

theorem limitWithin_applyMany {messages : Nat} {h : Handler} (bytes : Bytes) {ms : List Message}
    {n : Nat} :
    LimitWithin messages (h.applyMany bytes ms) n ↔ LimitWithin messages h (ms.length + n) := by
  simp only [LimitWithin, applyMany, Nat.add_assoc]

/-! ## One packet -/

section
variable {messages : Nat} {h : Handler} {bytes : Bytes} {packet : PacketView}
  {source : PacketSource}

/-- The message loop: stopped by the limit, at the end, or at a bad slot. -/
theorem applyMessages_eq (bytes : Bytes) (packet : PacketView) (source : PacketSource)
    (hl : ¬ LimitWithin messages h 0) (indices : List Nat) :
    applyMessages messages bytes packet source indices h =
      let ms := leading packet indices
      if LimitWithin messages h ms.length then
        .ok () (h.applyMany bytes (ms.take (messages - h.receivedMessages)))
      else if ms.length = indices.length then .ok () (h.applyMany bytes ms)
      else .error (malformedMessage packet source (indices.getD ms.length 0))
        (h.applyMany bytes ms) := by
  induction indices generalizing h with
  | nil =>
    simp only [leading, List.length_nil, if_neg hl, applyMany_nil, ite_true]
    rfl
  | cons index rest ih =>
    unfold applyMessages leading
    cases hm : messageAt packet index with
    | none =>
      dsimp only
      rw [List.length_nil, if_neg hl, if_neg (by simp), applyMany_nil]
      rfl
    | some m =>
      show (if (h.applyMessage bytes m).limitReached messages then pure ()
        else applyMessages messages bytes packet source rest : HandlerM Unit)
          (h.applyMessage bytes m) = _
      have h1 : ∀ {n}, LimitWithin messages (h.applyMessage bytes m) n ↔
          LimitWithin messages h (n + 1) := limitWithin_applyMessage
      by_cases hr : LimitWithin messages (h.applyMessage bytes m) 0
      · -- the message just applied is the last
        have hw : LimitWithin messages h ((m :: leading packet rest).length) :=
          (h1.1 hr).mono (Nat.succ_le_succ (Nat.zero_le _))
        have ht : messages - h.receivedMessages = 1 := by
          have := (h1.1 hr).2
          have : ¬ messages ≤ h.receivedMessages := fun hle => hl ⟨hr.1, hle⟩
          omega
        rw [if_pos (limitReached_iff.2 hr)]
        dsimp only
        rw [if_pos hw, ht]
        simp
        rfl
      · rw [if_neg (mt limitReached_iff.1 hr), ih hr]
        dsimp only
        rw [List.length_cons, List.length_cons, List.getD_cons_succ]
        by_cases hw : LimitWithin messages h ((leading packet rest).length + 1)
        · have ht : messages - h.receivedMessages
              = messages - (h.applyMessage bytes m).receivedMessages + 1 := by
            have : ¬ messages ≤ (h.applyMessage bytes m).receivedMessages :=
              fun hle => hr ⟨hw.1, hle⟩
            simp only [applyMessage] at this ⊢
            omega
          rw [if_pos (h1.2 hw), if_pos hw, ht, List.take_succ_cons, applyMany_cons]
        · rw [if_neg (mt h1.1 hw), if_neg hw, applyMany_cons]
          exact if_congr Nat.add_right_cancel_iff.symm rfl rfl

/-- **The outcome of a packet** with the number expected. -/
theorem processPacketBytes_eq (source : PacketSource) (hl : ¬ LimitWithin messages h 0)
    (hp : parsePacket bytes = some packet)
    (hseq : decodeSeqNum packet.header = h.expectedPacketSeq) :
    processPacketBytes messages bytes source h =
      let ms := goodMessages packet
      let seq := decodeSeqNum packet.header
      if LimitWithin messages h ms.length then
        .ok ()
          ((h.applyMany bytes (ms.take (messages - h.receivedMessages))).finish bytes source seq)
      else if ms.length = (decodeMsgCount packet.header).toNat then
        .ok () ((h.applyMany bytes ms).finish bytes source seq)
      else .error (malformedMessage packet source ms.length) (h.applyMany bytes ms) := by
  unfold processPacketBytes
  rw [hp]
  show (if _ then _ else _ : HandlerM Unit) h = _
  rw [if_neg (not_not_intro hseq)]
  have hm := applyMessages_eq bytes packet source hl
    (List.range (decodeMsgCount packet.header).toNat)
  dsimp only at hm ⊢
  rw [List.length_range] at hm
  unfold goodMessages
  split
  · rename_i hw
    rw [if_pos hw] at hm
    rw [bind_of_ok hm]
    rfl
  · rename_i hw
    rw [if_neg hw] at hm
    split
    · rename_i hc
      rw [if_pos hc] at hm
      rw [bind_of_ok hm]
      rfl
    · rename_i hc
      rw [if_neg hc] at hm
      have hle := length_leading_le packet (List.range (decodeMsgCount packet.header).toNat)
      rw [List.length_range] at hle
      rw [bind_of_error hm, List.getD_eq_getElem?_getD, List.getElem?_range (by omega),
        Option.getD_some]

theorem length_take_limit (bytes : Bytes) {n : Nat} (hw : LimitWithin messages h n)
    (ms : List Message) (hn : ms.length = n) : LimitWithin messages
      (h.applyMany bytes (ms.take (messages - h.receivedMessages))) 0 := by
  refine ⟨hw.1, ?_⟩
  have := hw.2
  simp only [applyMany, List.length_take]
  omega

/-- What is known after a packet that did not throw. -/
theorem processPacketBytes_ok {h' : Handler} (hl : ¬ LimitWithin messages h 0)
    (hok : processPacketBytes messages bytes source h = .ok () h') :
    ∃ packet ms, parsePacket bytes = some packet ∧
      decodeSeqNum packet.header = h.expectedPacketSeq ∧
      h' = (h.applyMany bytes ms).finish bytes source h.expectedPacketSeq ∧
      (¬ LimitWithin messages h' 0 → packet.Complete ∧ ms = packet.messages) := by
  cases hp : parsePacket bytes with
  | none =>
    unfold processPacketBytes at hok
    rw [hp] at hok
    cases hok
  | some packet =>
    by_cases hseq : decodeSeqNum packet.header = h.expectedPacketSeq
    · rw [processPacketBytes_eq source hl hp hseq] at hok
      dsimp only at hok
      by_cases hw : LimitWithin messages h (goodMessages packet).length
      · rw [if_pos hw] at hok
        cases hok
        refine ⟨packet, _, rfl, hseq, by rw [hseq], fun hn => (hn ?_).elim⟩
        have := length_take_limit bytes hw _ rfl
        simpa [LimitWithin] using this
      · rw [if_neg hw] at hok
        by_cases hc : (goodMessages packet).length = (decodeMsgCount packet.header).toNat
        · rw [if_pos hc] at hok
          cases hok
          have hc := length_goodMessages_eq_iff.1 hc
          exact ⟨packet, _, rfl, hseq, by rw [hseq], fun _ => ⟨hc, goodMessages_of_complete hc⟩⟩
        · rw [if_neg hc] at hok
          cases hok
    · unfold processPacketBytes at hok
      rw [hp] at hok
      change (if _ then _ else _ : HandlerM Unit) h = _ at hok
      rw [if_pos hseq] at hok
      cases hok

/-- A packet whose every slot is good does not throw. -/
theorem processPacketBytes_complete (source : PacketSource) (hl : ¬ LimitWithin messages h 0)
    (hp : parsePacket bytes = some packet)
    (hseq : decodeSeqNum packet.header = h.expectedPacketSeq) (hc : packet.Complete) : ∃ ms,
    processPacketBytes messages bytes source h
      = .ok () ((h.applyMany bytes ms).finish bytes source h.expectedPacketSeq) ∧
    (¬ LimitWithin messages h packet.messages.length → ms = packet.messages) := by
  have he := processPacketBytes_eq source hl hp hseq
  dsimp only at he
  rw [hseq, goodMessages_of_complete hc] at he
  by_cases hw : LimitWithin messages h packet.messages.length
  · rw [if_pos hw] at he
    exact ⟨_, he, fun hn => (hn hw).elim⟩
  · rw [if_neg hw, if_pos (length_messages hc)] at he
    exact ⟨_, he, fun _ => rfl⟩

end

/-! ## Batches and the drain loop -/

section
variable {messages : Nat} {h h' : Handler}

theorem processBatch_limit (hl : LimitWithin messages h 0) (batch : List Bytes) :
    processBatch messages batch h = .ok () h := by
  cases batch with
  | nil => rfl
  | cons bytes rest =>
    unfold processBatch
    show (if h.limitReached messages then _ else _ : HandlerM Unit) h = _
    rw [if_pos (limitReached_iff.2 hl)]
    rfl

theorem processBatch_cons (hl : ¬ LimitWithin messages h 0) (bytes : Bytes) (rest : List Bytes) :
    processBatch messages (bytes :: rest) h
      = (processPacketBytes messages bytes .replay >>= fun _ => processBatch messages rest) h := by
  show (if h.limitReached messages then _ else _ : HandlerM Unit) h = _
  rw [if_neg (mt limitReached_iff.1 hl)]

/-- A batch that neither throws nor meets the limit is processed whole. -/
theorem processBatch_ok {batch : List Bytes} (hok : processBatch messages batch h = .ok () h')
    (hl : ¬ LimitWithin messages h' 0) :
    h'.expectedPacketSeq = h.expectedPacketSeq + UInt32.ofNat batch.length ∧
      h'.bufferedPackets = h.bufferedPackets := by
  induction batch generalizing h with
  | nil =>
    cases hok
    exact ⟨(UInt32.add_zero _).symm, rfl⟩
  | cons bytes rest ih =>
    by_cases hw : LimitWithin messages h 0
    · rw [processBatch_limit hw] at hok
      cases hok
      exact (hl hw).elim
    · rw [processBatch_cons hw] at hok
      obtain ⟨_, h₁, h1, h2⟩ := bind_ok hok
      obtain ⟨packet, ms, -, -, rfl, -⟩ := processPacketBytes_ok hw h1
      obtain ⟨he, hb⟩ := ih h2
      refine ⟨?_, by rw [hb, finish_bufferedPackets]; rfl⟩
      rw [he, finish_expectedPacketSeq, List.length_cons, UInt32.ofNat_add, UInt32.add_assoc,
        UInt32.add_comm 1]
      rfl

theorem drainBufferedPackets_limit (hl : LimitWithin messages h 0) :
    drainBufferedPackets messages h = .ok () h := by
  show drainLoop messages h.bufferedPackets.size h = _
  cases h.bufferedPackets.size with
  | zero => rfl
  | succ n =>
    show (if h.limitReached messages then _ else _ : HandlerM Unit) h = _
    rw [if_pos (limitReached_iff.2 hl)]
    rfl

theorem drainBufferedPackets_none (hf : h.bufferedPackets[h.expectedPacketSeq]? = none) :
    drainBufferedPackets messages h = .ok () h := by
  show drainLoop messages h.bufferedPackets.size h = _
  cases h.bufferedPackets.size with
  | zero => rfl
  | succ n =>
    show (if h.limitReached messages then _ else _ : HandlerM Unit) h = _
    rw [hf]
    split <;> rfl

/-- One turn of the drain loop. -/
theorem drainBufferedPackets_some {bytes : Bytes} (hl : ¬ LimitWithin messages h 0)
    (hf : h.bufferedPackets[h.expectedPacketSeq]? = some bytes) :
    drainBufferedPackets messages h
      = (processPacketBytes messages bytes .drain >>= fun _ => drainBufferedPackets messages)
          { h with bufferedPackets := h.bufferedPackets.erase h.expectedPacketSeq } := by
  have hsize := size_erase_of_get hf
  show drainLoop messages h.bufferedPackets.size h = _
  rw [← hsize]
  show (if h.limitReached messages then _ else _ : HandlerM Unit) h = _
  rw [if_neg (mt limitReached_iff.1 hl), hf]
  show (processPacketBytes messages bytes .drain >>= fun _ => drainLoop messages _) _ = _
  cases hx : processPacketBytes messages bytes .drain
      { h with bufferedPackets := h.bufferedPackets.erase h.expectedPacketSeq } with
  | error e h' => rw [bind_of_error hx, bind_of_error hx]
  | ok u h' =>
    rw [bind_of_ok hx, bind_of_ok hx]
    have hb : h'.bufferedPackets = h.bufferedPackets.erase h.expectedPacketSeq :=
      (processPacketBytes_leads (R := Same bufferedPackets) (fun _ _ _ => rfl)
        (fun _ _ _ _ _ _ => finish_bufferedPackets ..) bytes .drain).ok hx
    show _ = drainLoop messages h'.bufferedPackets.size h'
    rw [hb]

end

end Bmdfh.Handler
