import Bmdfh.FeedHandler.Handler
import Bmdfh.Lib.Outcome

/-!
# Running the feed handler

A relation between states that the changes a handler makes respect (`Respected`) holds between the
state any of its functions starts in and the one it leaves, also when it throws
(`Respected.handleDatagram`, `Respected.receiveLoop`).
-/

namespace Bmdfh.Handler

open Std OrdMap Protocol Outcome

/-- The state after the last message of a packet. -/
def finish (h : Handler) (packetBytes : Bytes) (source : PacketSource) (packetSeq : UInt32) :
    Handler :=
  { h.countPacket packetBytes source with expectedPacketSeq := packetSeq + 1 }

section
variable (h : Handler) (packetBytes : Bytes) (source : PacketSource) (packetSeq : UInt32)

@[simp] theorem finish_expectedPacketSeq :
    (h.finish packetBytes source packetSeq).expectedPacketSeq = packetSeq + 1 := rfl

@[simp] theorem finish_processed : (h.finish packetBytes source packetSeq).processed
    = h.processed ++ [(source, packetBytes)] := by
  cases source <;> rfl

@[simp] theorem finish_processedPackets :
    (h.finish packetBytes source packetSeq).processedPackets = h.processedPackets + 1 := by
  cases source <;> rfl

@[simp] theorem finish_orderBook :
    (h.finish packetBytes source packetSeq).orderBook = h.orderBook := by
  cases source <;> rfl

@[simp] theorem finish_bufferedPackets :
    (h.finish packetBytes source packetSeq).bufferedPackets = h.bufferedPackets := by
  cases source <;> rfl

@[simp] theorem finish_receivedMessages :
    (h.finish packetBytes source packetSeq).receivedMessages = h.receivedMessages := by
  cases source <;> rfl

@[simp] theorem finish_applied :
    (h.finish packetBytes source packetSeq).applied = h.applied := by
  cases source <;> rfl

@[simp] theorem finish_replayRequests :
    (h.finish packetBytes source packetSeq).replayRequests = h.replayRequests := by
  cases source <;> rfl

@[simp] theorem finish_outOfOrderPackets :
    (h.finish packetBytes source packetSeq).outOfOrderPackets = h.outOfOrderPackets := by
  cases source <;> rfl

end

/-! ## Relations that every step respects -/

section
variable {R : Handler → Handler → Prop} [Std.Refl R] [IsTrans Handler R] {messages : Nat}

theorem applyMessages_leads (happly : ∀ h bytes m, R h (applyMessage h bytes m))
    (packetBytes : Bytes) (packet : PacketView) (source : PacketSource) (indices : List Nat) :
    Leads R (applyMessages messages packetBytes packet source indices) := by
  induction indices with
  | nil => exact .pure ()
  | cons index rest ih =>
    unfold applyMessages
    cases messageAt packet index with
    | none => exact .throw _
    | some message =>
      refine .bind (.modify fun h => happly h packetBytes message) fun _ h => ?_
      show R h (final ((if h.limitReached messages then Pure.pure () else _ : HandlerM Unit) h))
      split
      · exact Std.Refl.refl h
      · exact ih h

/-- The messages of a packet change nothing but the book and what counts them. -/
theorem applyMessages_same {γ : Type} {f : Handler → γ}
    (hf : ∀ h bytes m, f (applyMessage h bytes m) = f h) (packetBytes : Bytes)
    (packet : PacketView) (source : PacketSource) (indices : List Nat) :
    Leads (Same f) (applyMessages messages packetBytes packet source indices) :=
  applyMessages_leads (R := Same f) hf packetBytes packet source indices

/-- A packet is counted in a state that expects its number. -/
theorem processPacketBytes_leads (happly : ∀ h bytes m, R h (applyMessage h bytes m))
    (hfinish : ∀ h bytes packet source, parsePacket bytes = some packet →
      decodeSeqNum packet.header = h.expectedPacketSeq →
      R h (h.finish bytes source (decodeSeqNum packet.header)))
    (packetBytes : Bytes) (source : PacketSource) :
    Leads R (processPacketBytes messages packetBytes source) := by
  unfold processPacketBytes
  cases hp : parsePacket packetBytes with
  | none => exact .throw _
  | some packet =>
    intro h
    by_cases hseq : decodeSeqNum packet.header = h.expectedPacketSeq
    · show R h (final ((if _ then _ else _ : HandlerM Unit) h))
      rw [if_neg (not_not_intro hseq)]
      refine Leads.bind_at (applyMessages_leads happly _ _ _ _ h) fun _ h' hok => ?_
      refine hfinish h' _ _ _ hp ?_
      rw [hseq]
      exact ((applyMessages_same (f := expectedPacketSeq) (fun _ _ _ => rfl) _ _ _ _).ok hok).symm
    · show R h (final ((if _ then _ else _ : HandlerM Unit) h))
      rw [if_pos hseq]
      exact Std.Refl.refl h

end

/-- A request has been made. -/
def requested (h : Handler) : Handler := { h with replayRequests := h.replayRequests + 1 }

/-- The changes that processing packets makes to the state are all in `R`. -/
structure Respected (R : Handler → Handler → Prop) : Prop where
  apply : ∀ h bytes m, R h (applyMessage h bytes m)
  finish : ∀ h bytes packet source, parsePacket bytes = some packet →
    decodeSeqNum packet.header = h.expectedPacketSeq →
    R h (h.finish bytes source (decodeSeqNum packet.header))
  unpark : ∀ h seq, R h { h with bufferedPackets := h.bufferedPackets.erase seq }

section
variable {R : Handler → Handler → Prop} [Std.Refl R] [IsTrans Handler R] {messages : Nat}

theorem Respected.process (hR : Respected R) (packetBytes : Bytes) (source : PacketSource) :
    Leads R (processPacketBytes messages packetBytes source) :=
  processPacketBytes_leads hR.apply hR.finish packetBytes source

theorem Respected.drainLoop (hR : Respected R) (fuel : Nat) :
    Leads R (drainLoop messages fuel) := by
  induction fuel with
  | zero => exact .pure ()
  | succ fuel ih =>
    intro h
    unfold Handler.drainLoop
    show R h (final ((if h.limitReached messages then _ else _ : HandlerM Unit) h))
    split
    · exact Std.Refl.refl h
    · cases hf : h.bufferedPackets[h.expectedPacketSeq]? with
      | none => exact Std.Refl.refl h
      | some packetBytes =>
        refine Leads.bind_at (hR.unpark h _) fun _ h' _ => ?_
        exact Leads.bind (hR.process packetBytes .drain) (fun _ => ih) h'

theorem Respected.drain (hR : Respected R) : Leads R (drainBufferedPackets messages) :=
  fun h => hR.drainLoop h.bufferedPackets.size h

theorem Respected.batch (hR : Respected R) (batch : List Bytes) :
    Leads R (processBatch messages batch) := by
  induction batch with
  | nil => exact .pure ()
  | cons bytes rest ih =>
    intro h
    unfold processBatch
    show R h (final ((if h.limitReached messages then _ else _ : HandlerM Unit) h))
    split
    · exact Std.Refl.refl h
    · exact Leads.bind (hR.process bytes .replay) (fun _ => ih) h

theorem Respected.requestReplay (hR : Respected R) (hreq : ∀ h, R h h.requested)
    (recovery : Recovery) (startSeq endSeq : UInt32) :
    Leads R (requestReplay messages recovery startSeq endSeq) := by
  intro h
  unfold Handler.requestReplay
  show R h (final ((if _ then _ else _ : HandlerM Unit) h))
  split
  · exact Std.Refl.refl h
  · refine Leads.bind_at (hreq h) fun _ h' _ => ?_
    cases recovery startSeq endSeq with
    | error e => exact Std.Refl.refl h'
    | ok batch =>
      dsimp only
      split
      · exact Std.Refl.refl h'
      · exact Leads.bind (hR.batch batch) (fun _ => hR.drain) h'

theorem Respected.handleDatagram (hR : Respected R) (hreq : ∀ h, R h h.requested)
    (hpark : ∀ h seq bytes, R h (h.park seq bytes)) (recovery : Recovery) (packetBytes : Bytes) :
    Leads R (handleDatagram messages recovery packetBytes) := by
  unfold Handler.handleDatagram
  cases parsePacket packetBytes with
  | none => exact .pure ()
  | some packet =>
    intro h
    show R h (final ((if _ then _ else if _ then _ else _ : HandlerM Unit) h))
    split
    · exact Std.Refl.refl h
    · split
      · refine Leads.bind_at (hpark h _ packetBytes) fun _ h' _ => ?_
        have hget : (get : HandlerM Handler) h' = .ok h' h' := rfl
        rw [bind_of_ok hget]
        cases first? h'.bufferedPackets with
        | none => exact Std.Refl.refl h'
        | some first => exact hR.requestReplay hreq recovery _ _ h'
      · exact Leads.bind (hR.process packetBytes .live) (fun _ => hR.drain) h

theorem Respected.receiveLoop (hR : Respected R) (hreq : ∀ h, R h h.requested)
    (hpark : ∀ h seq bytes, R h (h.park seq bytes)) (arrivals : List Arrival) :
    Leads R (receiveLoop messages arrivals) := by
  induction arrivals with
  | nil => exact .pure ()
  | cons arrival rest ih =>
    intro h
    unfold Handler.receiveLoop
    show R h (final ((if h.limitReached messages then _ else _ : HandlerM Unit) h))
    split
    · exact Std.Refl.refl h
    · exact Leads.bind (hR.handleDatagram hreq hpark arrival.recovery _) (fun _ => ih) h

end

end Bmdfh.Handler
