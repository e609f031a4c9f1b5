import Bmdfh.FeedHandler.Machine
import Bmdfh.FeedHandler.Proof.Packets

/-!
# The machine runs the program

Every run of the receive loop that does not throw is a run of the machine
(`Reachable.reaches`), and what the handler's changes respect its steps respect
(`Respected.reaches`).
-/

namespace Bmdfh.Handler

open Std OrdMap Protocol Outcome Relation

/-! ## Runs of the program -/

section
variable {messages : Nat} {h h' : Handler} {bytes : Bytes} {source : PacketSource}

/-- Runs of the machine. -/
abbrev Turns (messages : Nat) : Point × Handler → Point × Handler → Prop :=
  ReflTransGen (Step messages)

theorem turns_applyMessages {packet : PacketView} (next : Task) {k index : Nat}
    (hk : index + k = (decodeMsgCount packet.header).toNat)
    (hok : applyMessages messages bytes packet source (List.range' index k) h = .ok () h') :
    Turns messages (.message bytes packet source index next, h)
      (.finish bytes packet source next, h') := by
  induction k generalizing index h with
  | zero =>
    cases hok
    refine .single (.turn ?_)
    rw [turn, if_neg (by omega)]
  | succ k ih =>
    rw [List.range'_succ, applyMessages] at hok
    cases hm : messageAt packet index with
    | none =>
      rw [hm] at hok
      cases hok
    | some m =>
      rw [hm] at hok
      change (if (h.applyMessage bytes m).limitReached messages then pure () else _ :
        HandlerM Unit) (h.applyMessage bytes m) = _ at hok
      have hturn : turn messages (.message bytes packet source index next) h
          = if (h.applyMessage bytes m).limitReached messages then
              some (.finish bytes packet source next, h.applyMessage bytes m)
            else some (.message bytes packet source (index + 1) next, h.applyMessage bytes m) := by
        rw [turn, if_pos (by omega), hm]
      split at hok
      · rename_i hlim
        cases hok
        exact .single (.turn (by rw [hturn, if_pos hlim]))
      · rename_i hlim
        refine .head (.turn (by rw [hturn, if_neg hlim])) ?_
        exact ih (by omega) hok

theorem turns_processPacketBytes (next : Task)
    (hok : processPacketBytes messages bytes source h = .ok () h') :
    ∃ s, enter bytes source next h = some s ∧ Turns messages s (.between next, h') := by
  unfold processPacketBytes at hok
  unfold enter
  cases hp : parsePacket bytes with
  | none =>
    rw [hp] at hok
    cases hok
  | some packet =>
    rw [hp] at hok
    change (if _ then _ else _ : HandlerM Unit) h = _ at hok
    dsimp only
    split at hok
    · cases hok
    · rename_i hseq
      rw [if_neg hseq]
      obtain ⟨_, h₁, happly, hfinish⟩ := bind_ok hok
      rw [List.range_eq_range'] at happly
      cases hfinish
      refine ⟨_, rfl, (turns_applyMessages next (Nat.zero_add _) happly).tail (.turn ?_)⟩
      rfl

theorem turns_processBatch {batch : List Bytes}
    (hok : processBatch messages batch h = .ok () h') :
    Turns messages (.between (.batch batch), h) (.between .drain, h') := by
  induction batch generalizing h with
  | nil =>
    cases hok
    exact .single (.turn rfl)
  | cons replayPacket rest ih =>
    by_cases hl : LimitWithin messages h 0
    · rw [processBatch_limit hl] at hok
      cases hok
      exact .single (.turn (if_pos (limitReached_iff.2 hl)))
    · rw [processBatch_cons hl] at hok
      obtain ⟨_, h₁, hprocess, hrest⟩ := bind_ok hok
      obtain ⟨s, hs, hturns⟩ := turns_processPacketBytes (.batch rest) hprocess
      refine .head (.turn ((if_neg (mt limitReached_iff.1 hl)).trans hs)) ?_
      exact hturns.trans (ih hrest)

theorem turns_drainBufferedPackets (hok : drainBufferedPackets messages h = .ok () h') :
    Turns messages (.between .drain, h) (.between .receive, h') := by
  induction hn : h.bufferedPackets.size using Nat.strongRecOn generalizing h with
  | ind n ih =>
    by_cases hl : LimitWithin messages h 0
    · rw [drainBufferedPackets_limit hl] at hok
      cases hok
      exact .single (.turn (if_pos (limitReached_iff.2 hl)))
    have hnl := mt limitReached_iff.1 hl
    cases hf : h.bufferedPackets[h.expectedPacketSeq]? with
    | none =>
      rw [drainBufferedPackets_none hf] at hok
      cases hok
      refine .single (.turn ?_)
      rw [turn, if_neg hnl, hf]
    | some bytes =>
      rw [drainBufferedPackets_some hl hf] at hok
      obtain ⟨_, h₁, hprocess, hrest⟩ := bind_ok hok
      obtain ⟨s, hs, hturns⟩ := turns_processPacketBytes .drain hprocess
      have hb : h₁.bufferedPackets = h.bufferedPackets.erase h.expectedPacketSeq :=
        (processPacketBytes_leads (R := Same bufferedPackets) (fun _ _ _ => rfl)
          (fun _ _ _ _ _ _ => finish_bufferedPackets ..) bytes .drain).ok hprocess
      have hsize := size_erase_of_get hf
      refine .head (.turn ?_) (hturns.trans (ih _ ?_ hrest rfl))
      · rw [turn, if_neg hnl, hf]
        exact hs
      · rw [hb]
        omega

theorem turns_requestReplay {recovery : Recovery} {startSeq endSeq : UInt32}
    (hok : requestReplay messages recovery startSeq endSeq h = .ok () h') :
    ∃ s, enterReplay messages recovery startSeq endSeq h = some s ∧
      Turns messages s (.between .receive, h') := by
  unfold requestReplay at hok
  unfold enterReplay
  change (if _ then _ else _ : HandlerM Unit) h = _ at hok
  split at hok
  · rename_i hc
    cases hok
    rw [if_pos hc]
    exact ⟨_, rfl, .refl⟩
  · rename_i hc
    rw [if_neg hc]
    obtain ⟨_, h₁, hreq, hok⟩ := bind_ok hok
    cases hreq
    dsimp only
    cases hr : recovery startSeq endSeq with
    | error e =>
      rw [hr] at hok
      cases hok
    | ok batch =>
      rw [hr] at hok
      dsimp only at hok ⊢
      split at hok
      · cases hok
      · rename_i hlen
        rw [if_neg hlen]
        obtain ⟨_, h₂, hbatch, hdrain⟩ := bind_ok hok
        exact ⟨_, rfl, (turns_processBatch hbatch).trans (turns_drainBufferedPackets hdrain)⟩

theorem turns_handleDatagram (arrival : Arrival) (hl : h.limitReached messages = false)
    (hok : handleDatagram messages arrival.recovery (arrival.datagram.take kReceiveBufferSize) h
      = .ok () h') :
    ∃ s, receiveTurn messages arrival h = some s ∧ Turns messages s (.between .receive, h') := by
  unfold handleDatagram at hok
  unfold receiveTurn
  rw [if_neg (by simp [hl])]
  dsimp only
  cases hp : parsePacket (arrival.datagram.take kReceiveBufferSize) with
  | none =>
    rw [hp] at hok
    cases hok
    exact ⟨_, rfl, .refl⟩
  | some packet =>
    rw [hp] at hok
    change (if _ then _ else if _ then _ else _ : HandlerM Unit) h = _ at hok
    dsimp only
    split at hok
    · rename_i hlt
      cases hok
      rw [if_pos hlt]
      exact ⟨_, rfl, .refl⟩
    · rename_i hlt
      rw [if_neg hlt]
      split at hok
      · rename_i hgt
        rw [if_pos hgt]
        obtain ⟨_, h₁, hpark, hok⟩ := bind_ok hok
        cases hpark
        have hget : (get : HandlerM Handler) (h.park (decodeSeqNum packet.header)
            (arrival.datagram.take kReceiveBufferSize)) = .ok _ _ := rfl
        rw [bind_of_ok hget] at hok
        cases hf : first? (h.park (decodeSeqNum packet.header)
            (arrival.datagram.take kReceiveBufferSize)).bufferedPackets with
        | none =>
          rw [hf] at hok
          cases hok
          exact ⟨_, rfl, .refl⟩
        | some first =>
          rw [hf] at hok
          exact turns_requestReplay hok
      · rename_i hgt
        rw [if_neg hgt]
        obtain ⟨_, h₁, hprocess, hdrain⟩ := bind_ok hok
        obtain ⟨s, hs, hturns⟩ := turns_processPacketBytes .drain hprocess
        exact ⟨s, hs, hturns.trans (turns_drainBufferedPackets hdrain)⟩

theorem turns_receiveLoop {arrivals : List Arrival}
    (hok : receiveLoop messages arrivals h = .ok () h') :
    Turns messages (.between .receive, h) (.between .receive, h') := by
  induction arrivals generalizing h with
  | nil =>
    cases hok
    exact .refl
  | cons arrival rest ih =>
    unfold receiveLoop at hok
    change (if h.limitReached messages then _ else _ : HandlerM Unit) h = _ at hok
    split at hok
    · cases hok
      exact .refl
    · rename_i hl
      obtain ⟨_, h₁, hhandle, hrest⟩ := bind_ok hok
      obtain ⟨s, hs, hturns⟩ := turns_handleDatagram arrival (by simpa using hl) hhandle
      exact .head (.receive arrival hs) (hturns.trans (ih hrest))

end

/-- The states at the head of the receive loop are reached by the machine. -/
theorem Reachable.reaches {messages : Nat} {h : Handler} (hh : Reachable messages h) :
    Reaches messages (.between .receive, h) := by
  obtain ⟨arrivals, hrun⟩ := hh
  exact turns_receiveLoop hrun

/-! ## What a step does -/

/-- The steps with the guards under which the source takes them. -/
inductive Acts (messages : Nat) : Point × Handler → Point × Handler → Prop
  /-- Malformed or stale. -/
  | discards {h} : h.limitReached messages = false →
    Acts messages (.between .receive, h) (.between .receive, h)
  | receives {bytes packet h} : h.limitReached messages = false →
    parsePacket bytes = some packet → decodeSeqNum packet.header = h.expectedPacketSeq →
    Acts messages (.between .receive, h) (.message bytes packet .live 0 .drain, h)
  /-- Parked, with nothing to request. -/
  | parks {seq bytes h} : h.limitReached messages = false → h.expectedPacketSeq < seq →
    (∀ first, first? (h.park seq bytes).bufferedPackets = some first →
      first.1 - 1 < h.expectedPacketSeq) →
    Acts messages (.between .receive, h) (.between .receive, h.park seq bytes)
  | requests {seq bytes first batch h} : h.limitReached messages = false →
    h.expectedPacketSeq < seq → first? (h.park seq bytes).bufferedPackets = some first →
    batch.length = (first.1 - 1 - h.expectedPacketSeq).toNat + 1 →
    Acts messages (.between .receive, h) (.between (.batch batch), (h.park seq bytes).requested)
  | replays {bytes rest packet h} : h.limitReached messages = false →
    parsePacket bytes = some packet → decodeSeqNum packet.header = h.expectedPacketSeq →
    Acts messages (.between (.batch (bytes :: rest)), h)
      (.message bytes packet .replay 0 (.batch rest), h)
  | batchEnds {h} : Acts messages (.between (.batch []), h) (.between .drain, h)
  | batchStops {bytes rest h} : h.limitReached messages = true →
    Acts messages (.between (.batch (bytes :: rest)), h) (.between .drain, h)
  | drains {bytes packet h} : h.limitReached messages = false →
    h.bufferedPackets[h.expectedPacketSeq]? = some bytes →
    parsePacket bytes = some packet → decodeSeqNum packet.header = h.expectedPacketSeq →
    Acts messages (.between .drain, h) (.message bytes packet .drain 0 .drain,
      { h with bufferedPackets := h.bufferedPackets.erase h.expectedPacketSeq })
  | drainEnds {h} : h.limitReached messages = false →
    h.bufferedPackets[h.expectedPacketSeq]? = none →
    Acts messages (.between .drain, h) (.between .receive, h)
  | drainStops {h} : h.limitReached messages = true →
    Acts messages (.between .drain, h) (.between .receive, h)
  | applies {bytes packet source index next message h} :
    index < (decodeMsgCount packet.header).toNat → messageAt packet index = some message →
    (h.applyMessage bytes message).limitReached messages = false →
    Acts messages (.message bytes packet source index next, h)
      (.message bytes packet source (index + 1) next, h.applyMessage bytes message)
  | reaches {bytes packet source index next message h} :
    index < (decodeMsgCount packet.header).toNat → messageAt packet index = some message →
    (h.applyMessage bytes message).limitReached messages = true →
    Acts messages (.message bytes packet source index next, h)
      (.finish bytes packet source next, h.applyMessage bytes message)
  | ends {bytes packet source index next h} : (decodeMsgCount packet.header).toNat ≤ index →
    Acts messages (.message bytes packet source index next, h)
      (.finish bytes packet source next, h)
  | finishes {bytes packet source next h} :
    Acts messages (.finish bytes packet source next, h)
      (.between next, h.finish bytes source (decodeSeqNum packet.header))

section
variable {messages : Nat} {h : Handler} {p : Point} {s s' : Point × Handler}

theorem enter_eq_some {bytes : Bytes} {source : PacketSource} {next : Task}
    (he : enter bytes source next h = some s) :
    ∃ packet, parsePacket bytes = some packet ∧
      decodeSeqNum packet.header = h.expectedPacketSeq ∧
      s = (.message bytes packet source 0 next, h) := by
  unfold enter at he
  split at he
  · cases he
  · rename_i packet hp
    split at he
    · cases he
    · rename_i hseq
      cases he
      exact ⟨packet, hp, not_not.1 hseq, rfl⟩

/-- A request is skipped, or answered by as many packets as the range has numbers. -/
theorem enterReplay_eq_some {recovery : Recovery} {startSeq endSeq : UInt32}
    (he : enterReplay messages recovery startSeq endSeq h = some s) :
    ((endSeq < startSeq ∨ h.limitReached messages = true) ∧ s = (.between .receive, h)) ∨
      ∃ batch, batch.length = (endSeq - startSeq).toNat + 1 ∧
        s = (.between (.batch batch), h.requested) := by
  unfold enterReplay at he
  split at he
  · rename_i hskip
    cases he
    rw [Bool.or_eq_true, decide_eq_true_eq] at hskip
    exact .inl ⟨hskip, rfl⟩
  · dsimp only at he
    split at he
    · cases he
    · rename_i batch _
      split at he
      · cases he
      · rename_i hlen
        cases he
        exact .inr ⟨batch, not_not.1 hlen, rfl⟩

theorem acts_of_turn (ht : turn messages p h = some s) : Acts messages (p, h) s := by
  cases p with
  | between task =>
    cases task with
    | receive => cases ht
    | batch batch =>
      cases batch with
      | nil =>
        cases ht
        exact .batchEnds
      | cons replayPacket rest =>
        rw [turn] at ht
        split at ht
        · rename_i hlim
          cases ht
          exact .batchStops hlim
        · rename_i hlim
          obtain ⟨packet, hp, hseq, rfl⟩ := enter_eq_some ht
          exact .replays (Bool.eq_false_of_not_eq_true hlim) hp hseq
    | drain =>
      rw [turn] at ht
      split at ht
      · rename_i hlim
        cases ht
        exact .drainStops hlim
      · rename_i hlim
        replace hlim := Bool.eq_false_of_not_eq_true hlim
        split at ht
        · rename_i hget
          cases ht
          exact .drainEnds hlim hget
        · rename_i packetBytes hget
          obtain ⟨packet, hp, hseq, rfl⟩ := enter_eq_some ht
          exact .drains hlim hget hp hseq
  | message bytes packet source index next =>
    rw [turn] at ht
    split at ht
    · rename_i hlt
      split at ht
      · cases ht
      · rename_i message hm
        dsimp only at ht
        split at ht
        · rename_i hlim
          cases ht
          exact .reaches hlt hm hlim
        · rename_i hlim
          cases ht
          exact .applies hlt hm (Bool.eq_false_of_not_eq_true hlim)
    · rename_i hge
      cases ht
      exact .ends (Nat.not_lt.1 hge)
  | finish bytes packet source next =>
    cases ht
    exact .finishes

theorem acts_of_receiveTurn {arrival : Arrival} (ht : receiveTurn messages arrival h = some s) :
    Acts messages (.between .receive, h) s := by
  unfold receiveTurn at ht
  split at ht
  · cases ht
  rename_i hlim
  replace hlim := Bool.eq_false_of_not_eq_true hlim
  dsimp only at ht
  split at ht
  · cases ht
    exact .discards hlim
  split at ht
  · cases ht
    exact .discards hlim
  split at ht
  · rename_i hgt
    split at ht
    · rename_i hnone
      cases ht
      exact .parks hlim hgt fun first hf => by rw [hnone] at hf; cases hf
    · rename_i first hf
      obtain ⟨hskip, rfl⟩ | ⟨batch, hlen, rfl⟩ := enterReplay_eq_some ht
      · refine .parks hlim hgt fun first' hf' => ?_
        obtain rfl := Option.some.inj (hf.symm.trans hf')
        rcases hskip with hempty | hl
        · exact hempty
        · -- parking leaves the limit where it is
          rw [show Handler.limitReached messages (h.park _ _) = false from hlim] at hl
          cases hl
      · exact .requests hlim hgt hf hlen
  · obtain ⟨packet, hp, hseq, rfl⟩ := enter_eq_some ht
    exact .receives hlim hp hseq

theorem Step.acts (ht : Step messages s s') : Acts messages s s' := by
  cases ht with
  | turn ht => exact acts_of_turn ht
  | receive arrival ht => exact acts_of_receiveTurn ht

end

/-- The steps, as far as the invariants tell them apart. -/
inductive Moves (messages : Nat) : Point × Handler → Point × Handler → Prop
  | passes {task task' h} : Moves messages (.between task, h) (.between task', h)
  | parks {task h seq bytes} : h.limitReached messages = false →
    Moves messages (.between .receive, h) (.between task, h.park seq bytes)
  | requests {task h seq bytes} : h.limitReached messages = false →
    Moves messages (.between .receive, h) (.between task, (h.park seq bytes).requested)
  | enters {task bytes packet source next h} : h.limitReached messages = false →
    parsePacket bytes = some packet → decodeSeqNum packet.header = h.expectedPacketSeq →
    Moves messages (.between task, h) (.message bytes packet source 0 next, h)
  | unparks {task seq bytes packet source next h} : h.limitReached messages = false →
    parsePacket bytes = some packet → decodeSeqNum packet.header = h.expectedPacketSeq →
    Moves messages (.between task, h) (.message bytes packet source 0 next,
      { h with bufferedPackets := h.bufferedPackets.erase seq })
  | applies {bytes packet source index next h message} :
    index < (decodeMsgCount packet.header).toNat → messageAt packet index = some message →
    (h.applyMessage bytes message).limitReached messages = false →
    Moves messages (.message bytes packet source index next, h)
      (.message bytes packet source (index + 1) next, h.applyMessage bytes message)
  | reaches {bytes packet source index next h message} :
    index < (decodeMsgCount packet.header).toNat → messageAt packet index = some message →
    (h.applyMessage bytes message).limitReached messages = true →
    Moves messages (.message bytes packet source index next, h)
      (.finish bytes packet source next, h.applyMessage bytes message)
  | ends {bytes packet source index next h} : (decodeMsgCount packet.header).toNat ≤ index →
    Moves messages (.message bytes packet source index next, h)
      (.finish bytes packet source next, h)
  | finishes {bytes packet source next h} :
    Moves messages (.finish bytes packet source next, h)
      (.between next, h.finish bytes source (decodeSeqNum packet.header))

theorem Acts.moves {messages : Nat} {s s' : Point × Handler} (ha : Acts messages s s') :
    Moves messages s s' := by
  cases ha with
  | discards _ => exact .passes
  | receives hlim hp hseq => exact .enters hlim hp hseq
  | parks hlim _ _ => exact .parks hlim
  | requests hlim _ _ _ => exact .requests hlim
  | replays hlim hp hseq => exact .enters hlim hp hseq
  | batchEnds => exact .passes
  | batchStops _ => exact .passes
  | drains hlim _ hp hseq => exact .unparks hlim hp hseq
  | drainEnds _ _ => exact .passes
  | drainStops _ => exact .passes
  | applies hlt hm hlim => exact .applies hlt hm hlim
  | reaches hlt hm hlim => exact .reaches hlt hm hlim
  | ends hge => exact .ends hge
  | finishes => exact .finishes

theorem Step.moves {messages : Nat} {s s' : Point × Handler} (ht : Step messages s s') :
    Moves messages s s' := ht.acts.moves

/-! ## What a step respects -/

/-- The packet in hand carries the number expected. -/
inductive Expects : Point → Handler → Prop
  | between {task h} : Expects (.between task) h
  | message {packetBytes packet source index next h} : parsePacket packetBytes = some packet →
    decodeSeqNum packet.header = h.expectedPacketSeq →
    Expects (.message packetBytes packet source index next) h
  | finish {packetBytes packet source next h} : parsePacket packetBytes = some packet →
    decodeSeqNum packet.header = h.expectedPacketSeq →
    Expects (.finish packetBytes packet source next) h

section
variable {messages : Nat} {p : Point} {h : Handler} {s s' : Point × Handler}

theorem Expects.moves (he : Expects s.1 s.2) (hm : Moves messages s s') : Expects s'.1 s'.2 := by
  cases hm with
  | passes => exact .between
  | parks _ => exact .between
  | requests _ => exact .between
  | enters _ hp hseq => exact .message hp hseq
  | unparks _ hp hseq => exact .message hp hseq
  | applies _ _ _ =>
    cases he with
    | message hp hseq => exact .message hp hseq
  | reaches _ _ _ =>
    cases he with
    | message hp hseq => exact .finish hp hseq
  | ends _ =>
    cases he with
    | message hp hseq => exact .finish hp hseq
  | finishes => exact .between

/-- What holds at the start and is kept by every step holds wherever the handler gets. -/
theorem Reaches.induction {I : Point → Handler → Prop} (hinit : I (.between .receive) {})
    (hstep : ∀ s s', Reaches messages s → I s.1 s.2 → Acts messages s s' → I s'.1 s'.2)
    (hr : Reaches messages (p, h)) : I p h := by
  have hall : ∀ s, Reaches messages s → I s.1 s.2 := by
    intro s hs
    induction hs with
    | refl => exact hinit
    | tail hrun hlast ih => exact hstep _ _ hrun ih hlast.acts
  exact hall (p, h) hr

theorem Reaches.expects (hr : Reaches messages (p, h)) : Expects p h :=
  hr.induction .between fun _ _ _ he ha => he.moves ha.moves

end

section
variable {R : Handler → Handler → Prop} [Std.Refl R] [IsTrans Handler R] {messages : Nat}
  {h : Handler} {p : Point} {s s' : Point × Handler}

theorem Respected.moves (hR : Respected R) (hreq : ∀ h, R h h.requested)
    (hpark : ∀ h seq bytes, R h (h.park seq bytes)) (he : Expects s.1 s.2)
    (hm : Moves messages s s') : R s.2 s'.2 := by
  cases hm with
  | passes => exact Std.Refl.refl _
  | parks _ => exact hpark _ _ _
  | requests _ => exact IsTrans.trans _ _ _ (hpark _ _ _) (hreq _)
  | enters _ _ _ => exact Std.Refl.refl _
  | unparks _ _ _ => exact hR.unpark _ _
  | applies _ _ _ => exact hR.apply _ _ _
  | reaches _ _ _ => exact hR.apply _ _ _
  | ends _ => exact Std.Refl.refl _
  | @finishes _ _ source _ _ =>
    cases he with
    | finish hp hseq => exact hR.finish _ _ _ source hp hseq

/-- What the changes of the handler respect, its runs respect. -/
theorem Respected.reaches (hR : Respected R) (hreq : ∀ h, R h h.requested)
    (hpark : ∀ h seq bytes, R h (h.park seq bytes)) (hr : Reaches messages (p, h)) : R {} h := by
  refine Reaches.induction (I := fun _ h => R {} h) (Std.Refl.refl _) (fun s s' hrun hs ha => ?_) hr
  exact IsTrans.trans _ _ _ hs (hR.moves hreq hpark (Reaches.expects hrun) ha.moves)

end

/-! ## Sequence safety -/

section
variable {messages : Nat} {p : Point} {h : Handler} {s : Point × Handler}

theorem Reaches.sequenced (hr : Reaches messages (p, h)) : Sequenced h := by
  refine respected_sequenced.reaches (fun _ hs => ?_) (fun _ _ _ hs => ?_) hr sequenced_init
  all_goals exact ⟨hs.numbered, hs.expected, hs.processedPackets, hs.sources⟩

/-- The packet in hand is the next in order. -/
theorem Reaches.inHand (hr : Reaches messages (p, h)) {bytes : Bytes} (hb : bytes ∈ p.inHand) :
    ∃ packet, parsePacket bytes = some packet ∧
      decodeSeqNum packet.header = UInt32.ofNat (h.processed.length + 1) := by
  have hexpected := hr.sequenced.expected
  cases hr.expects with
  | between => cases hb
  | message hp hseq =>
    obtain rfl := List.mem_singleton.1 hb
    exact ⟨_, hp, hseq.trans hexpected⟩
  | finish hp hseq =>
    obtain rfl := List.mem_singleton.1 hb
    exact ⟨_, hp, hseq.trans hexpected⟩

theorem receiveTurn_stale {arrival : Arrival} {packet : PacketView}
    (hp : parsePacket (arrival.datagram.take kReceiveBufferSize) = some packet)
    (hlt : decodeSeqNum packet.header < h.expectedPacketSeq)
    (ht : receiveTurn messages arrival h = some s) : s = (.between .receive, h) := by
  unfold receiveTurn at ht
  split at ht
  · cases ht
  · dsimp only at ht
    rw [hp] at ht
    dsimp only at ht
    rw [if_pos hlt] at ht
    exact (Option.some.inj ht).symm

/-- **Sequence safety.** At every point, in the middle of a packet, of a replay batch or of a drain
as well: the packets processed are numbered from 1 on without gap, the one in hand is the next, and
a stale datagram changes nothing. -/
theorem sequence_safe (messages : Nat) (p : Point) (h : Handler) (hr : Reaches messages (p, h)) :
    (∀ i (hi : i < h.processed.length), ∃ packet,
      parsePacket h.processed[i].2 = some packet ∧
        decodeSeqNum packet.header = UInt32.ofNat (i + 1)) ∧
    (∀ bytes ∈ p.inHand, ∃ packet, parsePacket bytes = some packet ∧
      decodeSeqNum packet.header = UInt32.ofNat (h.processed.length + 1)) ∧
    (∀ last packet, h.processed.getLast? = some last → parsePacket last.2 = some packet →
      h.expectedPacketSeq = decodeSeqNum packet.header + 1) ∧
    h.processedPackets = h.livePackets + h.replayPackets + h.drainPackets ∧
    h.processedPackets = h.processed.length ∧
    ∀ (arrival : Arrival) packet,
      parsePacket (arrival.datagram.take kReceiveBufferSize) = some packet →
      decodeSeqNum packet.header < h.expectedPacketSeq →
      (∀ s, receiveTurn messages arrival h = some s → s = (.between .receive, h)) ∧
        handleDatagram messages arrival.recovery (arrival.datagram.take kReceiveBufferSize) h
          = .ok () h := by
  have hs := hr.sequenced
  refine ⟨hs.numbered, fun bytes hb => hr.inHand hb, fun last packet hl hp => ?_,
    by rw [hs.processedPackets, hs.sources], hs.processedPackets,
    fun arrival packet hp hlt => ⟨fun s ht => receiveTurn_stale hp hlt ht,
      handleDatagram_stale hp hlt⟩⟩
  rw [List.getLast?_eq_getElem?, List.getElem?_eq_some_iff] at hl
  obtain ⟨hlen, rfl⟩ := hl
  obtain ⟨packet', hp', hseq⟩ := hs.numbered _ hlen
  rw [hp, Option.some.injEq] at hp'
  subst hp'
  rw [hs.expected, hseq, UInt32.ofNat_add h.processed.length 1,
    show h.processed.length - 1 + 1 = h.processed.length by omega]
  rfl

/-- Packets 2 and 3 are requested, and the second one of the answer has the number 7: packet 2 is
processed before the handler throws. -/
theorem sequence_safe_of_bad_batch : ∃ h, Reaches 0 (.between (.batch [emptyPacket 7]), h) ∧
    turn 0 (.between (.batch [emptyPacket 7])) h = none ∧
    h.processed = [(.live, emptyPacket 1), (.replay, emptyPacket 2)] ∧
    ∃ packet, parsePacket (emptyPacket 2) = some packet ∧
      decodeSeqNum packet.header = UInt32.ofNat 2 := by
  have hlive : Reaches 0 (.between .receive, _) :=
    (((ReflTransGen.refl.tail (.receive ⟨emptyPacket 1, fun _ _ => .error "no request"⟩ rfl)).tail
      (.turn rfl)).tail (.turn rfl)).tail (.turn rfl)
  have hr : Reaches 0 (.between (.batch [emptyPacket 7]), _) :=
    (((hlive.tail
      (.receive ⟨emptyPacket 4, fun _ _ => .ok [emptyPacket 2, emptyPacket 7]⟩ rfl)).tail
      (.turn rfl)).tail (.turn rfl)).tail (.turn rfl)
  exact ⟨_, hr, rfl, rfl, (sequence_safe 0 _ _ hr).1 1 (by decide)⟩

end

end Bmdfh.Handler
