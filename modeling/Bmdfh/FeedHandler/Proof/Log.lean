import Bmdfh.FeedHandler.Proof.Paired
import Bmdfh.OrderBook.Proof.Operations

/-!
# What the log and the latencies say

`Told`: what has been printed and measured follows from the messages applied and the packets
processed. Every message applied has its `recv` line with the book behind it; the alerts are the
changes of the best prices, each starting where the last one ended; a latency is recorded for every
packet with a time stamp, and for every change in one. The steps keep it, so every run of the event
loop does (`log_traces_book`, `latencies_measured`).
-/

namespace Bmdfh.FeedHandler

open Std OrdMap Protocol Outcome Handler

/-! ## What there is to tell -/

/-- What a `recv` line shows: the packet, what the message asks of the book, the book behind it. -/
structure Recv where
  seq : Option UInt32
  operation : Operation
  top : BboSnapshot
  liveOrders : Nat
deriving DecidableEq

def LogLine.recv? : LogLine → Option Recv
  | .recv _ seq _ message top liveOrders => some ⟨some seq, message.operation, top, liveOrders⟩
  | _ => none

def LogLine.alert? : LogLine → Option ApplyResult
  | .alert result _ => some result
  | _ => none

/-- The number of a packet. -/
def sequenceOf (packetBytes : Bytes) : Option UInt32 :=
  (parsePacket packetBytes).map fun packet => decodeSeqNum packet.header

/-- The message applied to the book, as it is shown. -/
def recvOf (book : OrderBook) (applied : Bytes × Message) : Recv where
  seq := sequenceOf applied.1
  operation := applied.2.operation
  top := (book.update applied.2).bbo
  liveOrders := (book.update applied.2).liveOrderCount

/-- The messages applied one after the other. -/
def recvsOf : OrderBook → List (Bytes × Message) → List Recv
  | _, [] => []
  | book, message :: rest => recvOf book message :: recvsOf (book.update message.2) rest

/-- The change of the best prices by a message, with its packet. -/
def alertOf (book : OrderBook) (applied : Bytes × Message) : List (Bytes × ApplyResult) :=
  if (book.apply applied.2).1.bboChanged then [(applied.1, (book.apply applied.2).1)] else []

def alertsOf : OrderBook → List (Bytes × Message) → List (Bytes × ApplyResult)
  | _, [] => []
  | book, message :: rest => alertOf book message ++ alertsOf (book.update message.2) rest

theorem recvsOf_append (book : OrderBook) (applied : List (Bytes × Message))
    (message : Bytes × Message) :
    recvsOf book (applied ++ [message]) = recvsOf book applied
      ++ [recvOf (book.applyAll (applied.map (·.2))) message] := by
  induction applied generalizing book with
  | nil => rfl
  | cons first rest ih => simp [recvsOf, ih]

theorem alertsOf_append (book : OrderBook) (applied : List (Bytes × Message))
    (message : Bytes × Message) :
    alertsOf book (applied ++ [message]) = alertsOf book applied
      ++ alertOf (book.applyAll (applied.map (·.2))) message := by
  induction applied generalizing book with
  | nil => simp [alertsOf]
  | cons first rest ih => simp [alertsOf, ih]

/-- Each change starts where the one before it has ended. -/
def Linked : BboSnapshot → List ApplyResult → BboSnapshot → Prop
  | first, [], last => first = last
  | first, result :: rest, last =>
    result.before = first ∧ result.before ≠ result.after ∧ Linked result.after rest last

theorem alertsOf_linked (book : OrderBook) (applied : List (Bytes × Message)) :
    Linked book.bbo ((alertsOf book applied).map (·.2))
      (book.applyAll (applied.map (·.2))).bbo := by
  induction applied generalizing book with
  | nil => rfl
  | cons message rest ih =>
    have hbefore : (book.apply message.2).1.before = book.bbo := rfl
    have hafter : (book.apply message.2).1.after = (book.update message.2).bbo := rfl
    have ih := ih (book.update message.2)
    rw [alertsOf, alertOf]
    split
    · rename_i hchanged
      exact ⟨hbefore, of_decide_eq_true hchanged, ih⟩
    · rename_i hsame
      have hsame : book.bbo = (book.update message.2).bbo := by
        simpa [ApplyResult.bboChanged, hbefore, hafter] using hsame
      rw [List.nil_append, hsame]
      exact ih

/-! ## Latencies -/

/-- The time stamp of a packet. -/
def publishTscOf (packetBytes : Bytes) : UInt64 :=
  ((parsePacket packetBytes).map fun packet => decodePublishTsc packet.header).getD 0

def stamped (packetBytes : Bytes) : Bool := publishTscOf packetBytes ≠ 0

/-- Of each packet with a time stamp the latency has been recorded, at one of the first `n`
readings of the clock, a later one for a later packet. -/
def Measures (tsc : Nat → UInt64) (n : Nat) (stats : CycleStats) (packets : List Bytes) : Prop :=
  ∃ readings : List Nat, readings.Pairwise (· < ·) ∧ (∀ k ∈ readings, k < n) ∧
    readings.length = (packets.filter stamped).length ∧
    stats = (List.zipWith (fun k packetBytes => tsc k - publishTscOf packetBytes) readings
      (packets.filter stamped)).foldl CycleStats.record {}

section
variable {tsc : Nat → UInt64} {n : Nat} {stats : CycleStats} {packets : List Bytes}

theorem measures_nil (tsc : Nat → UInt64) : Measures tsc 0 {} [] :=
  ⟨[], .nil, fun _ hk => (List.not_mem_nil hk).elim, rfl, rfl⟩

theorem Measures.mono {m : Nat} (hm : Measures tsc n stats packets) (h : n ≤ m) :
    Measures tsc m stats packets := by
  obtain ⟨readings, hsorted, hlt, hlen, hstats⟩ := hm
  exact ⟨readings, hsorted, fun k hk => Nat.lt_of_lt_of_le (hlt k hk) h, hlen, hstats⟩

/-- One more packet, at the reading `n`. -/
theorem Measures.record (hm : Measures tsc n stats packets) {packetBytes : Bytes}
    {packet : PacketView} (hp : parsePacket packetBytes = some packet) :
    Measures tsc (n + 1)
      (if decodePublishTsc packet.header ≠ 0 then
        stats.record (tsc n - decodePublishTsc packet.header) else stats)
      (packets ++ [packetBytes]) := by
  have hpublish : decodePublishTsc packet.header = publishTscOf packetBytes := by
    rw [publishTscOf, hp]
    rfl
  rw [hpublish]
  by_cases htsc : publishTscOf packetBytes ≠ 0
  · rw [if_pos htsc]
    have hstamped : stamped packetBytes = true := decide_eq_true htsc
    obtain ⟨readings, hsorted, hlt, hlen, rfl⟩ := hm
    refine ⟨readings ++ [n], ?_, ?_, ?_, ?_⟩
    · rw [List.pairwise_append]
      refine ⟨hsorted, List.pairwise_singleton .., ?_⟩
      rintro k hk _ (_ | ⟨_, ⟨⟩⟩)
      exact hlt k hk
    · intro k hk
      rcases List.mem_append.1 hk with hk | hk
      · exact Nat.lt_succ_of_lt (hlt k hk)
      · rw [List.mem_singleton.1 hk]
        exact Nat.lt_succ_self n
    · simp [hstamped, hlen]
    · rw [List.filter_append, List.filter_singleton, hstamped]
      simp [List.zipWith_append hlen]
  · rw [if_neg htsc]
    have hstamped : stamped packetBytes = false := decide_eq_false htsc
    obtain ⟨readings, hsorted, hlt, hlen, rfl⟩ := hm.mono (Nat.le_succ n)
    refine ⟨readings, hsorted, hlt, ?_, ?_⟩
    · simp [hstamped, hlen]
    · simp [hstamped]

end

/-! ## The invariant -/

namespace Run

/-- What the run has told of its handler. -/
structure Told (options : Options) (tsc : Nat → UInt64) (r : Run) : Prop where
  book : r.handler.orderBook = OrderBook.applyAll {} (r.handler.applied.map (·.2))
  tscReads : r.tscReads = r.handler.processed.length + (alertsOf {} r.handler.applied).length
  packets : Measures tsc r.tscReads r.packetLatencyCycles (r.handler.processed.map (·.2))
  updates : Measures tsc r.tscReads r.bboUpdateLatencyCycles
    ((alertsOf {} r.handler.applied).map (·.1))
  recvs : options.benchmark = false →
    r.log.filterMap LogLine.recv? = recvsOf {} r.handler.applied
  alerts : options.benchmark = false →
    r.log.filterMap LogLine.alert? = (alertsOf {} r.handler.applied).map (·.2)

variable {options : Options} {tsc : Nat → UInt64} {r : Run}

theorem told_init (options : Options) (tsc : Nat → UInt64) : Told options tsc {} :=
  ⟨rfl, rfl, measures_nil tsc, measures_nil tsc, fun _ => rfl, fun _ => rfl⟩

/-- A line that is neither of a message nor an alert. -/
theorem Told.log {line : LogLine} (ht : Told options tsc r) (hrecv : line.recv? = none)
    (halert : line.alert? = none) : Told options tsc { r with log := r.log ++ [line] } where
  book := ht.book
  tscReads := ht.tscReads
  packets := ht.packets
  updates := ht.updates
  recvs hv := by
    show (r.log ++ [line]).filterMap _ = _
    rw [List.filterMap_append, List.filterMap_cons_none hrecv, List.filterMap_nil,
      List.append_nil]
    exact ht.recvs hv
  alerts hv := by
    show (r.log ++ [line]).filterMap _ = _
    rw [List.filterMap_append, List.filterMap_cons_none halert, List.filterMap_nil,
      List.append_nil]
    exact ht.alerts hv

/-- A change to the handler that is neither a message nor a packet. -/
theorem Told.handler {h : Handler} (ht : Told options tsc r)
    (hbook : h.orderBook = r.handler.orderBook) (happlied : h.applied = r.handler.applied)
    (hprocessed : h.processed = r.handler.processed) :
    Told options tsc { r with handler := h } where
  book := by rw [happlied, hbook, ht.book]
  tscReads := by rw [happlied, hprocessed]; exact ht.tscReads
  packets := by rw [hprocessed]; exact ht.packets
  updates := by rw [happlied]; exact ht.updates
  recvs hv := by rw [happlied]; exact ht.recvs hv
  alerts hv := by rw [happlied]; exact ht.alerts hv

/-- The run behind `print`. -/
def printed (options : Options) (line : LogLine) (r : Run) : Run :=
  if options.benchmark then r else { r with log := r.log ++ [line] }

theorem print_eq (options : Options) (line : LogLine) (r : Run) :
    print options line r = .ok () (printed options line r) := by
  unfold print printed
  split
  · rfl
  · rfl

theorem Told.print {line : LogLine} (ht : Told options tsc r) (hrecv : line.recv? = none)
    (halert : line.alert? = none) : Told options tsc (printed options line r) := by
  unfold printed
  split
  · exact ht
  · exact ht.log hrecv halert

/-! ## A message -/

/-- The run behind `reportBbo`, with its line. -/
def reported (options : Options) (tsc : Nat → UInt64) (publishTsc : UInt64) (result : ApplyResult)
    (r : Run) : Run :=
  if result.bboChanged then
    printed options (.alert result (tsc r.tscReads - publishTsc))
      { r with
        tscReads := r.tscReads + 1
        bboUpdateLatencyCycles :=
          if publishTsc ≠ 0 then r.bboUpdateLatencyCycles.record (tsc r.tscReads - publishTsc)
          else r.bboUpdateLatencyCycles }
  else r

theorem reportBbo_eq (options : Options) (tsc : Nat → UInt64) (publishTsc : UInt64)
    (result : ApplyResult) (r : Run) :
    reportBbo options tsc publishTsc result r
      = .ok () (reported options tsc publishTsc result r) := by
  unfold reportBbo reported
  split
  · rw [bind_of_ok (readTsc_eq tsc r)]
    by_cases hstamp : publishTsc ≠ 0
    · simp only [recordBboUpdate, if_pos hstamp]
      exact print_eq ..
    · simp only [recordBboUpdate, if_neg hstamp]
      exact print_eq ..
  · rfl

/-- The run behind the body of the message loop. -/
def messageApplied (options : Options) (tsc : Nat → UInt64) (packetBytes : Bytes)
    (packet : PacketView) (source : PacketSource) (index : Nat) (message : Message) (r : Run) :
    Run :=
  let r' := reported options tsc (decodePublishTsc packet.header)
    (r.handler.orderBook.apply message).1
    { r with handler := r.handler.applyMessage packetBytes message }
  printed options (.recv source (decodeSeqNum packet.header) index message
    (r.handler.orderBook.update message).bbo
    (r.handler.orderBook.update message).liveOrderCount) r'

theorem reported_handler (options : Options) (tsc : Nat → UInt64) (publishTsc : UInt64)
    (result : ApplyResult) (r : Run) :
    (reported options tsc publishTsc result r).handler = r.handler := by
  unfold reported printed
  split
  · split
    · rfl
    · rfl
  · rfl

theorem applyMessage_eq (options : Options) (tsc : Nat → UInt64) (packetBytes : Bytes)
    (packet : PacketView) (source : PacketSource) (index : Nat) (message : Message) (r : Run) :
    applyMessage options tsc packetBytes packet source index message r
      = .ok () (messageApplied options tsc packetBytes packet source index message r) := by
  show (reportBbo options tsc _ _ >>= fun _ => _) _ = _
  rw [bind_of_ok (reportBbo_eq ..)]
  show print options (.recv source _ index message _ _) _ = _
  rw [print_eq, reported_handler]
  rfl

section
variable (options : Options) (tsc : Nat → UInt64) (packetBytes : Bytes) (packet : PacketView)
  (source : PacketSource) (index : Nat) (message : Message) (r : Run)

@[simp] theorem messageApplied_handler :
    (messageApplied options tsc packetBytes packet source index message r).handler
      = r.handler.applyMessage packetBytes message := by
  unfold messageApplied printed
  split
  · exact reported_handler ..
  · exact reported_handler ..

@[simp] theorem messageApplied_packetLatencyCycles :
    (messageApplied options tsc packetBytes packet source index message r).packetLatencyCycles
      = r.packetLatencyCycles := by
  unfold messageApplied reported printed
  split_ifs <;> rfl

@[simp] theorem messageApplied_tscReads :
    (messageApplied options tsc packetBytes packet source index message r).tscReads
      = r.tscReads + (alertOf r.handler.orderBook (packetBytes, message)).length := by
  unfold messageApplied reported printed alertOf
  split_ifs <;> rfl

theorem messageApplied_bboUpdateLatencyCycles :
    (messageApplied options tsc packetBytes packet source index message r).bboUpdateLatencyCycles
      = if (r.handler.orderBook.apply message).1.bboChanged then
          if decodePublishTsc packet.header ≠ 0 then
            r.bboUpdateLatencyCycles.record (tsc r.tscReads - decodePublishTsc packet.header)
          else r.bboUpdateLatencyCycles
        else r.bboUpdateLatencyCycles := by
  unfold messageApplied reported printed
  split_ifs <;> rfl

theorem messageApplied_log (hv : options.benchmark = false) :
    (messageApplied options tsc packetBytes packet source index message r).log
      = r.log
        ++ (if (r.handler.orderBook.apply message).1.bboChanged then
            [.alert (r.handler.orderBook.apply message).1
              (tsc r.tscReads - decodePublishTsc packet.header)]
          else [])
        ++ [.recv source (decodeSeqNum packet.header) index message
            (r.handler.orderBook.update message).bbo
            (r.handler.orderBook.update message).liveOrderCount] := by
  unfold messageApplied reported printed
  rw [hv]
  split
  · rfl
  · simp

end

/-- One more message. -/
theorem Told.message {packetBytes : Bytes} {packet : PacketView} (ht : Told options tsc r)
    (hp : parsePacket packetBytes = some packet) (source : PacketSource) (index : Nat)
    (message : Message) :
    Told options tsc (messageApplied options tsc packetBytes packet source index message r) where
  book := by simp [Handler.applyMessage, OrderBook.applyAll_append, ← ht.book]
  tscReads := by
    simp only [messageApplied_tscReads, messageApplied_handler, Handler.applyMessage,
      alertsOf_append, ← ht.book, List.length_append, ht.tscReads]
    omega
  packets := by
    simp only [messageApplied_tscReads, messageApplied_handler, messageApplied_packetLatencyCycles]
    exact ht.packets.mono (Nat.le_add_right _ _)
  updates := by
    rw [messageApplied_bboUpdateLatencyCycles, messageApplied_tscReads]
    simp only [messageApplied_handler, Handler.applyMessage, alertsOf_append, ← ht.book, alertOf,
      List.map_append]
    split
    · exact ht.updates.record hp
    · simpa using ht.updates
  recvs hv := by
    rw [messageApplied_log _ _ _ _ _ _ _ _ hv, List.filterMap_append, List.filterMap_append,
      ht.recvs hv]
    simp only [messageApplied_handler, Handler.applyMessage, recvsOf_append, ← ht.book, recvOf,
      sequenceOf, hp]
    split
    · simp [LogLine.recv?]
    · simp [LogLine.recv?]
  alerts hv := by
    rw [messageApplied_log _ _ _ _ _ _ _ _ hv, List.filterMap_append, List.filterMap_append,
      ht.alerts hv]
    simp only [messageApplied_handler, Handler.applyMessage, alertsOf_append, ← ht.book, alertOf]
    split
    · simp [LogLine.alert?]
    · simp [LogLine.alert?]

/-! ## The other steps -/

/-- The run behind the end of a packet. -/
def packetFinished (tsc : Nat → UInt64) (packetBytes : Bytes) (packet : PacketView)
    (source : PacketSource) (r : Run) : Run :=
  { r with
    handler := r.handler.finish packetBytes source (decodeSeqNum packet.header)
    tscReads := r.tscReads + 1
    packetLatencyCycles :=
      if decodePublishTsc packet.header ≠ 0 then
        r.packetLatencyCycles.record (tsc r.tscReads - decodePublishTsc packet.header)
      else r.packetLatencyCycles }

theorem finishPacket_eq (tsc : Nat → UInt64) (packetBytes : Bytes) (packet : PacketView)
    (source : PacketSource) (r : Run) :
    finishPacket tsc packetBytes packet source r
      = .ok () (packetFinished tsc packetBytes packet source r) := by
  unfold finishPacket packetFinished
  rw [bind_of_ok (readTsc_eq tsc r)]
  by_cases hstamp : decodePublishTsc packet.header ≠ 0
  · simp only [recordPacket, if_pos hstamp]
    rfl
  · simp only [recordPacket, if_neg hstamp]
    rfl

/-- The end of a packet. -/
theorem Told.packet {packetBytes : Bytes} {packet : PacketView} (ht : Told options tsc r)
    (hp : parsePacket packetBytes = some packet) (source : PacketSource) :
    Told options tsc (packetFinished tsc packetBytes packet source r) where
  book := by simpa [packetFinished] using ht.book
  tscReads := by
    simp only [packetFinished, finish_processed, finish_applied, List.length_append,
      List.length_singleton, ht.tscReads]
    omega
  packets := by
    simpa only [packetFinished, finish_processed, List.map_append, List.map_cons, List.map_nil]
      using ht.packets.record hp
  updates := by
    simpa only [packetFinished, finish_applied] using ht.updates.mono (Nat.le_succ _)
  recvs hv := by simpa only [packetFinished, finish_applied] using ht.recvs hv
  alerts hv := by simpa only [packetFinished, finish_applied] using ht.alerts hv

/-- The steps of one run keep `Told`. -/
theorem paired_told (options : Options) (tsc : Nat → UInt64) :
    Paired options options tsc (fun r r' => r' = r ∧ Told options tsc r) where
  messages := rfl
  handler := by
    rintro r _ ⟨rfl, -⟩
    rfl
  apply := by
    rintro r _ packetBytes packet message source index hp - ⟨rfl, ht⟩
    rw [applyMessage_eq]
    exact .ok ⟨rfl, ht.message hp source index message⟩
  start := by
    rintro r _ source seq msgCount publishTsc ⟨rfl, ht⟩
    rw [print_eq]
    exact .ok ⟨rfl, ht.print rfl rfl⟩
  finish := by
    rintro r _ packetBytes packet source hp ⟨rfl, ht⟩
    rw [finishPacket_eq]
    exact .ok ⟨rfl, ht.packet hp source⟩
  unpark := by
    rintro r _ ⟨rfl, ht⟩
    exact .ok ⟨rfl, ht.handler rfl rfl rfl⟩
  request := by
    rintro r _ startSeq endSeq ⟨rfl, ht⟩
    refine Agree.bind (.ok ⟨rfl, ht.handler rfl rfl rfl⟩) ?_
    rintro _ r₁ _ ⟨rfl, ht₁⟩
    rw [print_eq]
    exact .ok ⟨rfl, ht₁.print rfl rfl⟩
  park := by
    rintro r _ packetBytes packet - ⟨rfl, ht⟩
    refine Agree.bind (.ok ⟨rfl, ht.handler rfl rfl rfl⟩) ?_
    rintro _ r₁ _ ⟨rfl, ht₁⟩
    rw [print_eq]
    exact .ok ⟨rfl, ht₁.print rfl rfl⟩
  discard := by
    rintro r _ line hline ⟨rfl, ht⟩
    refine .ok ⟨rfl, ?_⟩
    cases line with
    | discardedMalformed _ => exact ht.log rfl rfl
    | discardedStale _ _ => exact ht.log rfl rfl
    | _ => cases hline

theorem receiveEvents_told (options : Options) (tsc : Nat → UInt64) (waits : List Wait)
    (receives : List Receive) :
    Told options tsc (final (receiveEvents options tsc waits receives {})) :=
  ((paired_told options tsc).receiveEvents waits receives
    (r := {}) ⟨rfl, told_init options tsc⟩).final.2

/-- **The log is the history of the book.** -/
theorem log_traces_book (options : Options) (tsc : Nat → UInt64) (waits : List Wait)
    (receives : List Receive) :
    let r := final (receiveEvents { options with benchmark := false } tsc waits receives {})
    r.log.filterMap LogLine.recv? = recvsOf {} r.handler.applied ∧
      r.log.filterMap LogLine.alert? = (alertsOf {} r.handler.applied).map (·.2) ∧
      Linked (OrderBook.bbo {}) (r.log.filterMap LogLine.alert?) r.handler.orderBook.bbo := by
  intro r
  have ht : Told _ tsc r :=
    receiveEvents_told { options with benchmark := false } tsc waits receives
  refine ⟨ht.recvs rfl, ht.alerts rfl, ?_⟩
  rw [ht.alerts rfl, ht.book]
  exact alertsOf_linked {} r.handler.applied

/-- **The latencies** are those of the packets processed and of the changes of the best prices. -/
theorem latencies_measured (options : Options) (tsc : Nat → UInt64) (waits : List Wait)
    (receives : List Receive) :
    let r := final (receiveEvents options tsc waits receives {})
    let changes := alertsOf {} r.handler.applied
    r.tscReads = r.handler.processed.length + changes.length ∧
      Measures tsc r.tscReads r.packetLatencyCycles (r.handler.processed.map (·.2)) ∧
      Measures tsc r.tscReads r.bboUpdateLatencyCycles (changes.map (·.1)) := by
  intro r changes
  have ht : Told options tsc r := receiveEvents_told options tsc waits receives
  exact ⟨ht.tscReads, ht.packets, ht.updates⟩

end Run

end Bmdfh.FeedHandler
