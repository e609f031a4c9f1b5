import Bmdfh.FeedHandler.Proof.Log

/-!
# What the handler reports of the packets it is fed

A packet whose slots are all good is reported message by message, up to the limit
(`processPacketBytes_reports`). `Feeds Q I`: packets in `Q` keep the invariant `I`, and so does all
that reports nothing; then a datagram in `Q` keeps it, with whatever is replayed and drained, if the
replies of the server are in `Q` (`Feeds.handleDatagram`).
-/

namespace Bmdfh

open Protocol

/-- The elements that have a part, each of them its front and that part. -/
theorem exists_zipWith_filterMap {α β γ δ : Type} {part? : α → Option β} {whole : α → γ}
    (join : δ → β → γ) (h : ∀ a b, part? a = some b → ∃ d, whole a = join d b) (l : List α) :
    ∃ fronts : List δ, fronts.length = (l.filterMap part?).length ∧
      (l.filter fun a => (part? a).isSome).map whole
        = List.zipWith join fronts (l.filterMap part?) := by
  induction l with
  | nil => exact ⟨[], rfl, rfl⟩
  | cons a l ih =>
    obtain ⟨fronts, hlength, hjoin⟩ := ih
    cases hpart : part? a with
    | none =>
      rw [List.filter_cons_of_neg (by simp [hpart]), List.filterMap_cons_none hpart]
      exact ⟨fronts, hlength, hjoin⟩
    | some b =>
      obtain ⟨front, hfront⟩ := h a b hpart
      rw [List.filter_cons_of_pos (by simp [hpart]), List.filterMap_cons_some hpart, List.map_cons,
        hjoin, hfront]
      exact ⟨front :: fronts, congrArg Nat.succ hlength, rfl⟩

/-- A message with the number of its packet and its place in it. -/
structure Placed where
  seq : UInt32
  index : Nat
  message : Message

/-- The messages of a packet, the first of them at the place `index`. -/
def placedFrom (seq : UInt32) (index : Nat) (batch : List Message) : List Placed :=
  (batch.zipIdx index).map fun x => ⟨seq, x.2, x.1⟩

theorem length_placedFrom (seq : UInt32) (index : Nat) (batch : List Message) :
    (placedFrom seq index batch).length = batch.length := by
  simp [placedFrom]

namespace Placed

def text (placed : Placed) : String := describe placed.seq placed.index placed.message

/-- What is reported of the message when the book behind it is this one. -/
def report (placed : Placed) (book : OrderBook) : String :=
  placed.text ++ " | " ++ OrderBook.formatBbo book.bbo ++ " | live_orders="
    ++ toString book.liveOrderCount

end Placed

/-- The messages reported one after the other. -/
def reportsFrom : OrderBook → List Placed → List String
  | _, [] => []
  | book, placed :: rest =>
    placed.report (book.update placed.message) :: reportsFrom (book.update placed.message) rest

theorem reportsFrom_append (book : OrderBook) (xs ys : List Placed) :
    reportsFrom book (xs ++ ys) = reportsFrom book xs
      ++ reportsFrom (book.applyAll (xs.map Placed.message)) ys := by
  induction xs generalizing book with
  | nil => rfl
  | cons x xs ih => simp [reportsFrom, ih]

theorem length_reportsFrom (book : OrderBook) (xs : List Placed) :
    (reportsFrom book xs).length = xs.length := by
  induction xs generalizing book with
  | nil => rfl
  | cons x xs ih => simp [reportsFrom, ih]

namespace FeedHandler

open Std OrdMap Outcome Handler

/-- What a `recv` line reports, behind its first two words. -/
def LogLine.report? : LogLine → Option String
  | .recv _ seq index message top liveOrders =>
    some (describe seq index message ++ " | " ++ OrderBook.formatBbo top ++ " | live_orders="
      ++ toString liveOrders)
  | _ => none

theorem LogLine.text_of_report {line : LogLine} {report : String}
    (h : line.report? = some report) :
    ∃ source : PacketSource, line.text = source.text ++ " recv " ++ report := by
  cases line with
  | recv source seq index message top liveOrders =>
    rw [← Option.some.inj h]
    refine ⟨source, ?_⟩
    show source.text ++ " recv " ++ describe seq index message ++ " | " ++ OrderBook.formatBbo top
      ++ " | live_orders=" ++ toString liveOrders = _
    simp only [String.append_assoc]
  | _ => cases h

namespace Run

def reports (r : Run) : List String := r.log.filterMap LogLine.report?

/-- The `recv` lines. -/
def recvLines (r : Run) : List String :=
  (r.log.filter fun line => line.report?.isSome).map LogLine.text

/-- In front of a report is where its packet came from. -/
theorem recvLines_eq (r : Run) : ∃ sources : List PacketSource,
    sources.length = r.reports.length ∧ r.recvLines
      = List.zipWith (fun source report => source.text ++ " recv " ++ report) sources
        r.reports :=
  exists_zipWith_filterMap _ (fun _ _ => LogLine.text_of_report) r.log

variable {options : Options} {tsc : Nat → UInt64} {r r' : Run} {packetBytes : Bytes}

theorem printed_handler (options : Options) (line : LogLine) (r : Run) :
    (printed options line r).handler = r.handler := by
  unfold printed
  split
  · rfl
  · rfl

theorem printed_reports {line : LogLine} (hline : line.report? = none) :
    (printed options line r).reports = r.reports := by
  unfold printed reports
  split
  · rfl
  · simp [hline]

/-! ## A packet -/

theorem messageApplied_reports (hv : options.benchmark = false) (tsc : Nat → UInt64)
    (packetBytes : Bytes) (packet : PacketView) (source : PacketSource) (index : Nat)
    (message : Message) (r : Run) :
    (messageApplied options tsc packetBytes packet source index message r).reports = r.reports
      ++ [Placed.report ⟨decodeSeqNum packet.header, index, message⟩
        (r.handler.orderBook.update message)] := by
  unfold reports
  rw [messageApplied_log _ _ _ _ _ _ _ _ hv, List.filterMap_append, List.filterMap_append]
  split
  · simp [LogLine.report?, Placed.report, Placed.text]
  · simp [LogLine.report?, Placed.report, Placed.text]

/-- The message loop from the place `index`, over the messages that are there. -/
theorem applyMessages_reports (hv : options.benchmark = false) {packet : PacketView}
    {source : PacketSource} {index : Nat} {ms : List Message}
    (hms : ∀ j, messageAt packet (index + j) = ms[j]?)
    (hok : applyMessages options tsc packetBytes packet source (List.range' index ms.length) r
      = .ok () r') :
    ∃ k ≤ ms.length, r'.handler.receivedMessages = r.handler.receivedMessages + k ∧
      r'.reports = r.reports ++ reportsFrom r.handler.orderBook
        ((placedFrom (decodeSeqNum packet.header) index ms).take k) := by
  induction ms generalizing index r with
  | nil =>
    cases hok
    exact ⟨0, Nat.le_refl _, rfl, (List.append_nil _).symm⟩
  | cons m ms ih =>
    have hm : messageAt packet index = some m := hms 0
    rw [List.length_cons, List.range'_succ] at hok
    unfold applyMessages at hok
    rw [hm] at hok
    dsimp only at hok
    rw [bind_of_ok (applyMessage_eq ..)] at hok
    have hreports := messageApplied_reports hv tsc packetBytes packet source index m r
    have hhandler := messageApplied_handler options tsc packetBytes packet source index m r
    generalize messageApplied options tsc packetBytes packet source index m r = r₁ at *
    have hplaced : placedFrom (decodeSeqNum packet.header) index (m :: ms)
        = ⟨decodeSeqNum packet.header, index, m⟩
          :: placedFrom (decodeSeqNum packet.header) (index + 1) ms := rfl
    change (if r₁.handler.limitReached options.messages then _ else _ : RunM Unit) r₁ = _ at hok
    split at hok
    · cases hok
      refine ⟨1, Nat.succ_pos _, by rw [hhandler]; rfl, ?_⟩
      rw [hreports, hplaced]
      rfl
    · have hnext : ∀ j, messageAt packet (index + 1 + j) = ms[j]? := fun j => by
        rw [Nat.add_assoc, Nat.add_comm 1 j]
        exact hms (j + 1)
      obtain ⟨k, hk, hreceived, hrest⟩ := ih hnext hok
      refine ⟨k + 1, Nat.succ_le_succ hk, ?_, ?_⟩
      · rw [hreceived, hhandler, Nat.add_comm k 1, ← Nat.add_assoc]
        rfl
      · rw [hrest, hreports, hplaced, hhandler, List.append_assoc]
        rfl

/-- A packet with good slots only. -/
theorem processPacketBytes_reports (hv : options.benchmark = false) {packet : PacketView}
    {source : PacketSource} (hp : parsePacket packetBytes = some packet) (hc : packet.Complete)
    (hok : processPacketBytes options tsc packetBytes source r = .ok () r') :
    ∃ k ≤ packet.messages.length,
      r'.handler.receivedMessages = r.handler.receivedMessages + k ∧
      r'.reports = r.reports ++ reportsFrom r.handler.orderBook
        ((placedFrom r.handler.expectedPacketSeq 0 packet.messages).take k) := by
  unfold processPacketBytes at hok
  rw [hp] at hok
  change (if _ then _ else _ : RunM Unit) r = _ at hok
  split at hok
  · cases hok
  · rename_i hseq
    rw [bind_of_ok (print_eq ..)] at hok
    obtain ⟨_, r₂, hmessages, hfinish⟩ := bind_ok hok
    rw [finishPacket_eq] at hfinish
    cases hfinish
    have hlen : (decodeMsgCount packet.header).toNat = packet.messages.length :=
      (length_messages hc).symm
    rw [hlen, List.range_eq_range'] at hmessages
    have hms : ∀ j, messageAt packet (0 + j) = packet.messages[j]? := fun j => by
      rw [Nat.zero_add, getElem?_messages hc]
    obtain ⟨k, hk, hreceived, hreports⟩ := applyMessages_reports hv hms hmessages
    rw [Decidable.not_not.1 hseq, printed_handler, printed_reports rfl] at hreports
    rw [printed_handler] at hreceived
    refine ⟨k, hk, ?_, hreports⟩
    rw [← hreceived]
    exact finish_receivedMessages ..

/-! ## Packets fed to the handler -/

theorem processPacketBytes_handler {source : PacketSource}
    (hok : processPacketBytes options tsc packetBytes source r = .ok () r') :
    Handler.processPacketBytes options.messages packetBytes source r.handler
      = .ok () r'.handler := by
  have hproj : Agree Projects (processPacketBytes options tsc packetBytes source r)
      (Handler.processPacketBytes options.messages packetBytes source r.handler) :=
    processPacketBytes_projects packetBytes source r
  rw [hok] at hproj
  obtain ⟨h', hres, rfl⟩ := hproj.to_ok
  exact hres

/-- A packet leaves what is parked as it is. -/
theorem processPacketBytes_parked {source : PacketSource}
    (hl : ¬ LimitWithin options.messages r.handler 0)
    (hok : processPacketBytes options tsc packetBytes source r = .ok () r') :
    r'.handler.bufferedPackets = r.handler.bufferedPackets := by
  obtain ⟨_, _, -, -, hh, -⟩ := processPacketBytes_ok hl (processPacketBytes_handler hok)
  rw [hh, finish_bufferedPackets]
  rfl

/-- Packets in `Q` keep the invariant, and so does what reports nothing. -/
structure Feeds (options : Options) (tsc : Nat → UInt64) (Q : Bytes → Prop) (I : Run → Prop) :
    Prop where
  process : ∀ {r r' : Run} {packetBytes : Bytes} {source : PacketSource}, I r → Q packetBytes →
    ¬ LimitWithin options.messages r.handler 0 →
    processPacketBytes options tsc packetBytes source r = .ok () r' → I r'
  handler : ∀ {r : Run} {h : Handler}, h.orderBook = r.handler.orderBook →
    h.receivedMessages = r.handler.receivedMessages →
    h.expectedPacketSeq = r.handler.expectedPacketSeq → I r → I { r with handler := h }
  line : ∀ {r : Run} {line : LogLine}, line.report? = none → I r →
    I { r with log := r.log ++ [line] }

/-- The run with the packet expected taken out of those parked. -/
def unparked (r : Run) : Run :=
  { r with handler := { r.handler with
    bufferedPackets := r.handler.bufferedPackets.erase r.handler.expectedPacketSeq } }

/-- What is parked is in `Q`. -/
def ParkedIn (Q : Bytes → Prop) (r : Run) : Prop :=
  ∀ (seq : UInt32) (bytes : Bytes), r.handler.bufferedPackets[seq]? = some bytes → Q bytes

namespace Feeds

variable {Q : Bytes → Prop} {I : Run → Prop} {recovery : Recovery}

theorem behind_print (hF : Feeds options tsc Q I) {line : LogLine} (hline : line.report? = none)
    (hI : I r) : I (printed options line r) := by
  unfold Run.printed
  split
  · exact hI
  · exact hF.line hline hI

theorem drainLoop (hF : Feeds options tsc Q I) (fuel : Nat) (hI : I r) (hQ : ParkedIn Q r)
    (hok : drainLoop options tsc fuel r = .ok () r') : I r' := by
  induction fuel generalizing r with
  | zero =>
    cases hok
    exact hI
  | succ fuel ih =>
    unfold Run.drainLoop at hok
    change (if r.handler.limitReached options.messages then _ else _ : RunM Unit) r = _ at hok
    split at hok
    · cases hok
      exact hI
    · rename_i hl
      cases hget : r.handler.bufferedPackets[r.handler.expectedPacketSeq]? with
      | none =>
        rw [hget] at hok
        cases hok
        exact hI
      | some packetBytes =>
        rw [hget] at hok
        change (processPacketBytes options tsc packetBytes .drain >>= fun _ => _) r.unparked = _
          at hok
        obtain ⟨_, r₁, hprocess, hloop⟩ := bind_ok hok
        have hl' : ¬ LimitWithin options.messages r.unparked.handler 0 := mt limitReached_iff.2 hl
        have hI' : I r.unparked := hF.handler rfl rfl rfl hI
        refine ih (hF.process hI' (hQ _ _ hget) hl' hprocess) (fun seq bytes hbytes => ?_) hloop
        rw [processPacketBytes_parked hl' hprocess] at hbytes
        change (r.handler.bufferedPackets.erase r.handler.expectedPacketSeq)[seq]? = _ at hbytes
        rw [get_erase] at hbytes
        split at hbytes
        · cases hbytes
        · exact hQ seq bytes hbytes

theorem processBatch (hF : Feeds options tsc Q I) (batch : List Bytes) (hI : I r)
    (hQ : ∀ bytes ∈ batch, Q bytes) (hok : processBatch options tsc batch r = .ok () r') :
    I r' ∧ r'.handler.bufferedPackets = r.handler.bufferedPackets := by
  induction batch generalizing r with
  | nil =>
    cases hok
    exact ⟨hI, rfl⟩
  | cons bytes rest ih =>
    unfold Run.processBatch at hok
    change (if r.handler.limitReached options.messages then _ else _ : RunM Unit) r = _ at hok
    split at hok
    · cases hok
      exact ⟨hI, rfl⟩
    · rename_i hl
      have hl' : ¬ LimitWithin options.messages r.handler 0 := mt limitReached_iff.2 hl
      obtain ⟨_, r₁, hprocess, hrest⟩ := bind_ok hok
      obtain ⟨hI', hparked⟩ := ih (hF.process hI (hQ bytes (.head _)) hl' hprocess)
        (fun b hb => hQ b (.tail _ hb)) hrest
      exact ⟨hI', hparked.trans (processPacketBytes_parked hl' hprocess)⟩

theorem requestReplay (hF : Feeds options tsc Q I) (startSeq endSeq : UInt32) (hI : I r)
    (hQ : ParkedIn Q r)
    (hreplies : ∀ batch, recovery startSeq endSeq = .ok batch → ∀ bytes ∈ batch, Q bytes)
    (hok : requestReplay options tsc recovery startSeq endSeq r = .ok () r') : I r' := by
  unfold Run.requestReplay at hok
  change (if startSeq > endSeq || r.handler.limitReached options.messages then _ else _ : RunM Unit)
    r = _ at hok
  split at hok
  · cases hok
    exact hI
  · change (print options (.requestingReplay startSeq endSeq) >>= fun _ => _)
      { r with handler := r.handler.requested } = _ at hok
    rw [bind_of_ok (print_eq ..)] at hok
    cases hreply : recovery startSeq endSeq with
    | error error =>
      rw [hreply] at hok
      cases hok
    | ok batch =>
      rw [hreply] at hok
      dsimp only at hok
      split at hok
      · cases hok
      · obtain ⟨_, r₁, hbatch, hdrain⟩ := bind_ok hok
        obtain ⟨hI₁, hparked⟩ := hF.processBatch batch
          (hF.behind_print rfl (hF.handler (h := r.handler.requested) rfl rfl rfl hI))
          (hreplies batch hreply) hbatch
        rw [printed_handler] at hparked
        refine hF.drainLoop _ hI₁ (fun seq bytes hbytes => hQ seq bytes ?_) hdrain
        rw [hparked] at hbytes
        exact hbytes

/-- **A datagram in `Q`** at the head of the loop. -/
theorem handleDatagram (hF : Feeds options tsc Q I) (hI : I r) (hparked : ParkedIn Q r)
    (hQ : Q packetBytes)
    (hreplies : ∀ startSeq endSeq batch, recovery startSeq endSeq = .ok batch →
      ∀ bytes ∈ batch, Q bytes)
    (hl : ¬ LimitWithin options.messages r.handler 0)
    (hok : handleDatagram options tsc recovery packetBytes r = .ok () r') : I r' := by
  unfold Run.handleDatagram at hok
  cases hp : parsePacket packetBytes with
  | none =>
    rw [hp] at hok
    cases hok
    exact hF.line rfl hI
  | some packet =>
    rw [hp] at hok
    change (if decodeSeqNum packet.header < r.handler.expectedPacketSeq then _
      else if decodeSeqNum packet.header > r.handler.expectedPacketSeq then _
      else _ : RunM Unit) r = _ at hok
    split at hok
    · cases hok
      exact hF.line rfl hI
    · split at hok
      · change (print options (.buffered (decodeSeqNum packet.header)
            (decodeMsgCount packet.header)) >>= fun _ => _)
          { r with handler := r.handler.park (decodeSeqNum packet.header) packetBytes } = _ at hok
        rw [bind_of_ok (print_eq ..), bind_of_ok (get_eq _), printed_handler] at hok
        have hI' : I (printed options (.buffered (decodeSeqNum packet.header)
            (decodeMsgCount packet.header))
            { r with handler := r.handler.park (decodeSeqNum packet.header) packetBytes }) :=
          hF.behind_print rfl (hF.handler rfl rfl rfl hI)
        cases hfirst : first? (r.handler.park (decodeSeqNum packet.header)
            packetBytes).bufferedPackets with
        | none =>
          rw [hfirst] at hok
          cases hok
          exact hI'
        | some first =>
          rw [hfirst] at hok
          refine hF.requestReplay _ _ hI' (fun seq bytes hbytes => ?_) (hreplies _ _) hok
          rw [printed_handler] at hbytes
          change (r.handler.bufferedPackets.insert _ packetBytes)[seq]? = some bytes at hbytes
          rw [get_insert] at hbytes
          split at hbytes
          · cases hbytes
            exact hQ
          · exact hparked seq bytes hbytes
      · obtain ⟨_, r₁, hprocess, hdrain⟩ := bind_ok hok
        refine hF.drainLoop _ (hF.process hI hQ hl hprocess) (fun seq bytes hbytes => ?_) hdrain
        rw [processPacketBytes_parked hl hprocess] at hbytes
        exact hparked seq bytes hbytes

end Feeds

end Run

end FeedHandler

end Bmdfh
