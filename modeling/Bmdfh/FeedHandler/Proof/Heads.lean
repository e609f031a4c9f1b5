import Bmdfh.FeedHandler.Proof.Parked

/-!
# The head of the receive loop

The three ways a datagram is classified, each with what the handler then runs
(`handleDatagram_stale`, `handleDatagram_next`, `handleDatagram_ahead`), and what the handler never
leaves behind: at the head of the receive loop nothing is parked (`Reachable.bufferedPackets`).
-/

namespace Bmdfh.Handler

open Std OrdMap Protocol Outcome

section
variable {messages : Nat} {recovery : Recovery} {h h' : Handler} {bytes : Bytes}
  {packet : PacketView}

theorem handleDatagram_malformed (hp : parsePacket bytes = none) :
    handleDatagram messages recovery bytes h = .ok () h := by
  unfold handleDatagram
  rw [hp]
  rfl

theorem handleDatagram_next (hp : parsePacket bytes = some packet)
    (hseq : decodeSeqNum packet.header = h.expectedPacketSeq) :
    handleDatagram messages recovery bytes h
      = (processPacketBytes messages bytes .live >>= fun _ => drainBufferedPackets messages) h := by
  unfold handleDatagram
  rw [hp]
  show (if _ then _ else if _ then _ else _ : HandlerM Unit) h = _
  rw [hseq, if_neg (UInt32.lt_irrefl _), if_neg (UInt32.lt_irrefl _)]

/-- A packet ahead of the one expected, with nothing parked: the gap up to it is requested. -/
theorem handleDatagram_ahead (hb : h.bufferedPackets = ∅) (hp : parsePacket bytes = some packet)
    (hlt : h.expectedPacketSeq < decodeSeqNum packet.header) :
    handleDatagram messages recovery bytes h
      = requestReplay messages recovery h.expectedPacketSeq (decodeSeqNum packet.header - 1)
          (h.park (decodeSeqNum packet.header) bytes) := by
  unfold handleDatagram
  rw [hp]
  show (if _ then _ else if _ then _ else _ : HandlerM Unit) h = _
  rw [if_neg (UInt32.lt_asymm hlt), if_pos hlt]
  have hpark : (modify (park · (decodeSeqNum packet.header) bytes) : HandlerM PUnit) h
      = .ok () (h.park (decodeSeqNum packet.header) bytes) := rfl
  have hget : (get : HandlerM Handler) (h.park (decodeSeqNum packet.header) bytes)
      = .ok (h.park (decodeSeqNum packet.header) bytes)
          (h.park (decodeSeqNum packet.header) bytes) := rfl
  have hf : first? (h.park (decodeSeqNum packet.header) bytes).bufferedPackets
      = some (decodeSeqNum packet.header, bytes) := (parkedAt_park hb _ _).first?
  rw [bind_of_ok hpark, bind_of_ok hget, hf]

/-! ## Requests -/

variable {startSeq endSeq : UInt32}

theorem requestReplay_eq (hle : startSeq ≤ endSeq) (hl : ¬ LimitWithin messages h 0) :
    requestReplay messages recovery startSeq endSeq h
      = (match recovery startSeq endSeq with
        | .error e => throw e
        | .ok replayBatch =>
          if replayBatch.length ≠ (endSeq - startSeq).toNat + 1 then
            throw ("recovery server returned " ++ toString replayBatch.length
              ++ " packets for gap [" ++ toString startSeq ++ ", " ++ toString endSeq ++ "]")
          else do
            processBatch messages replayBatch
            drainBufferedPackets messages : HandlerM Unit) h.requested := by
  unfold requestReplay
  show (if _ then _ else _ : HandlerM Unit) h = _
  have hc : ¬ (decide (startSeq > endSeq) || h.limitReached messages) = true := by
    rw [Bool.or_eq_true, decide_eq_true_eq, limitReached_iff]
    rintro (hgt | hw)
    · exact UInt32.not_lt.2 hle hgt
    · exact hl hw
  rw [if_neg hc]
  rfl

/-- A request that does not throw has been answered in full. -/
theorem requestReplay_ok (hle : startSeq ≤ endSeq) (hl : ¬ LimitWithin messages h 0)
    (hok : requestReplay messages recovery startSeq endSeq h = .ok () h') :
    ∃ batch h₁, recovery startSeq endSeq = .ok batch ∧
      batch.length = (endSeq - startSeq).toNat + 1 ∧
      processBatch messages batch h.requested = .ok () h₁ ∧
      drainBufferedPackets messages h₁ = .ok () h' := by
  rw [requestReplay_eq hle hl] at hok
  cases hr : recovery startSeq endSeq with
  | error e =>
    rw [hr] at hok
    cases hok
  | ok batch =>
    rw [hr] at hok
    dsimp only at hok
    by_cases hlen : batch.length = (endSeq - startSeq).toNat + 1
    · rw [if_neg (not_not_intro hlen)] at hok
      obtain ⟨_, h₁, h1, h2⟩ := bind_ok hok
      exact ⟨batch, h₁, rfl, hlen, h1, h2⟩
    · rw [if_pos hlen] at hok
      cases hok

/-! ## The packet behind a gap -/

theorem lt_or_eq_or_gt (a b : UInt32) : a < b ∨ a = b ∨ b < a := by
  rw [UInt32.lt_iff_toNat_lt, UInt32.lt_iff_toNat_lt, ← UInt32.toNat_inj]
  omega

/-- After the batch of a gap the packet parked behind it is next. -/
theorem gap_filled {seq : UInt32} {batch : List Bytes} (hb : h.bufferedPackets = ∅)
    (hlt : h.expectedPacketSeq < seq) (hlen : batch.length = seq.toNat - h.expectedPacketSeq.toNat)
    (hok : processBatch messages batch (h.park seq bytes).requested = .ok () h')
    (hl : ¬ LimitWithin messages h' 0) :
    h'.expectedPacketSeq = seq ∧
      h'.bufferedPackets = (∅ : ExtTreeMap UInt32 Bytes).insert seq bytes := by
  obtain ⟨he, hb'⟩ := processBatch_ok hok hl
  rw [hlen] at he
  refine ⟨he.trans (gap_of_lt hlt).2.2.2, ?_⟩
  rw [hb', ← hb]
  rfl

/-! ## The receive loop -/

theorem receiveLoop_limit (hl : LimitWithin messages h 0) (arrivals : List Arrival) :
    receiveLoop messages arrivals h = .ok () h := by
  cases arrivals with
  | nil => rfl
  | cons arrival rest =>
    show (if h.limitReached messages then _ else _ : HandlerM Unit) h = _
    rw [if_pos (limitReached_iff.2 hl)]
    rfl

theorem receiveLoop_cons (hl : ¬ LimitWithin messages h 0) (arrival : Arrival)
    (rest : List Arrival) :
    receiveLoop messages (arrival :: rest) h
      = (handleDatagram messages arrival.recovery (arrival.datagram.take kReceiveBufferSize) >>=
          fun _ => receiveLoop messages rest) h := by
  show (if h.limitReached messages then _ else _ : HandlerM Unit) h = _
  rw [if_neg (mt limitReached_iff.1 hl)]

theorem receiveLoop_append_eq (arrivals rest : List Arrival) (h : Handler) :
    receiveLoop messages (arrivals ++ rest) h
      = (receiveLoop messages arrivals >>= fun _ => receiveLoop messages rest) h := by
  induction arrivals generalizing h with
  | nil => rfl
  | cons arrival arrivals ih =>
    rw [List.cons_append]
    by_cases hl : LimitWithin messages h 0
    · rw [receiveLoop_limit hl, bind_of_ok (receiveLoop_limit hl _), receiveLoop_limit hl]
    · rw [receiveLoop_cons hl]
      cases hhandle : handleDatagram messages arrival.recovery
          (arrival.datagram.take kReceiveBufferSize) h with
      | error e h₁ =>
        rw [bind_of_error hhandle, bind_of_error]
        rw [receiveLoop_cons hl, bind_of_error hhandle]
      | ok _ h₁ =>
        rw [bind_of_ok hhandle, ih h₁]
        cases hrun : receiveLoop messages arrivals h₁ with
        | error e h₂ =>
          rw [bind_of_error hrun, bind_of_error]
          rw [receiveLoop_cons hl, bind_of_ok hhandle, hrun]
        | ok _ h₂ =>
          rw [bind_of_ok hrun, bind_of_ok]
          rw [receiveLoop_cons hl, bind_of_ok hhandle, hrun]

theorem receiveLoop_append {h₁ : Handler} {arrivals : List Arrival}
    (hok : receiveLoop messages arrivals h = .ok () h₁) (rest : List Arrival) :
    receiveLoop messages (arrivals ++ rest) h = receiveLoop messages rest h₁ := by
  rw [receiveLoop_append_eq, bind_of_ok hok]

theorem receiveLoop_append_error {h₁ : Handler} {e : RuntimeError} {arrivals : List Arrival}
    (hthrow : receiveLoop messages arrivals h = .error e h₁) (rest : List Arrival) :
    receiveLoop messages (arrivals ++ rest) h = .error e h₁ := by
  rw [receiveLoop_append_eq, bind_of_error hthrow]

/-- One more datagram after a run. -/
theorem Reachable.step (hh : Reachable messages h) (arrival : Arrival)
    (hl : ¬ LimitWithin messages h 0)
    (hok : handleDatagram messages arrival.recovery (arrival.datagram.take kReceiveBufferSize) h
      = .ok () h') : Reachable messages h' := by
  obtain ⟨arrivals, hrun⟩ := hh
  refine ⟨arrivals ++ [arrival], ?_⟩
  rw [receiveLoop_append hrun, receiveLoop_cons hl, bind_of_ok hok]
  rfl

/-- Nothing is parked at the head of the receive loop. -/
theorem Reachable.bufferedPackets (hh : Reachable messages h) (hl : ¬ LimitWithin messages h 0) :
    h.bufferedPackets = ∅ :=
  hh.reaches.parked.head (limitReached_eq_false_iff.2 hl)

end

end Bmdfh.Handler
