import Bmdfh.FeedHandler.Proof.Main

/-!
# Two runs of the feed handler side by side

A relation that the steps of two runs keep (`Paired`) is kept by the event loop, which ends the
same way in both (`Paired.receiveEvents`). With it the program with `--benchmark` is shown to do
what the one without does, except for the lines that it does not print (`benchmark_silent`). Of a
run beside itself it is an invariant.
-/

namespace Bmdfh.FeedHandler

open Std OrdMap Protocol Outcome Handler

namespace Run

/-- The steps of two runs, with the same datagrams and clock, keep `R`. -/
structure Paired (options options' : Options) (tsc : Nat → UInt64) (R : Run → Run → Prop) :
    Prop where
  messages : options'.messages = options.messages
  handler : ∀ {r r'}, R r r' → r'.handler = r.handler
  apply : ∀ {r r' packetBytes packet message} (source index),
    parsePacket packetBytes = some packet → messageAt packet index = some message → R r r' →
    Agree R (applyMessage options tsc packetBytes packet source index message r)
      (applyMessage options' tsc packetBytes packet source index message r')
  start : ∀ {r r'} (source seq msgCount publishTsc), R r r' →
    Agree R (print options (.packet source seq msgCount publishTsc) r)
      (print options' (.packet source seq msgCount publishTsc) r')
  finish : ∀ {r r' packetBytes packet} (source), parsePacket packetBytes = some packet → R r r' →
    Agree R (finishPacket tsc packetBytes packet source r)
      (finishPacket tsc packetBytes packet source r')
  unpark : ∀ {r r'}, R r r' →
    Agree R
      (onHandler
        (fun h => { h with bufferedPackets := h.bufferedPackets.erase h.expectedPacketSeq }) r)
      (onHandler
        (fun h => { h with bufferedPackets := h.bufferedPackets.erase h.expectedPacketSeq }) r')
  request : ∀ {r r'} (startSeq endSeq), R r r' →
    Agree R
      ((onHandler requested >>= fun _ => print options (.requestingReplay startSeq endSeq)) r)
      ((onHandler requested >>= fun _ => print options' (.requestingReplay startSeq endSeq)) r')
  park : ∀ {r r' packetBytes packet}, parsePacket packetBytes = some packet → R r r' →
    Agree R
      ((onHandler (park · (decodeSeqNum packet.header) packetBytes) >>= fun _ =>
        print options (.buffered (decodeSeqNum packet.header) (decodeMsgCount packet.header))) r)
      ((onHandler (park · (decodeSeqNum packet.header) packetBytes) >>= fun _ =>
        print options' (.buffered (decodeSeqNum packet.header) (decodeMsgCount packet.header))) r')
  discard : ∀ {r r'} {line : LogLine}, line.isError = true → R r r' →
    Agree R (printError line r) (printError line r')

namespace Paired

variable {options options' : Options} {tsc : Nat → UInt64} {R : Run → Run → Prop} {r r' : Run}

theorem applyMessages (hR : Paired options options' tsc R) {packetBytes : Bytes}
    {packet : PacketView} (hp : parsePacket packetBytes = some packet) (source : PacketSource)
    (indices : List Nat) (h : R r r') :
    Agree R (applyMessages options tsc packetBytes packet source indices r)
      (Run.applyMessages options' tsc packetBytes packet source indices r') := by
  induction indices generalizing r r' with
  | nil => exact .ok h
  | cons index rest ih =>
    unfold Run.applyMessages
    cases hm : messageAt packet index with
    | none => exact .error h
    | some message =>
      refine (hR.apply source index hp hm h).bind fun _ s s' hs => ?_
      show Agree R ((if s.handler.limitReached options.messages then _ else _ : RunM Unit) s)
        ((if s'.handler.limitReached options'.messages then _ else _ : RunM Unit) s')
      rw [hR.messages, hR.handler hs]
      split
      · exact .ok hs
      · exact ih hs

theorem processPacketBytes (hR : Paired options options' tsc R) (packetBytes : Bytes)
    (source : PacketSource) (h : R r r') :
    Agree R (processPacketBytes options tsc packetBytes source r)
      (Run.processPacketBytes options' tsc packetBytes source r') := by
  unfold Run.processPacketBytes
  cases hp : parsePacket packetBytes with
  | none => exact .error h
  | some packet =>
    show Agree R ((if decodeSeqNum packet.header ≠ r.handler.expectedPacketSeq then
        throw (_ ++ toString r.handler.expectedPacketSeq ++ _ ++ _) else _ : RunM Unit) r)
      ((if decodeSeqNum packet.header ≠ r'.handler.expectedPacketSeq then
        throw (_ ++ toString r'.handler.expectedPacketSeq ++ _ ++ _) else _ : RunM Unit) r')
    rw [hR.handler h]
    split
    · exact .error h
    · refine (hR.start _ _ _ _ h).bind fun _ _ _ h₁ => ?_
      exact (hR.applyMessages hp source _ h₁).bind fun _ _ _ h₂ => hR.finish source hp h₂

theorem drainLoop (hR : Paired options options' tsc R) (fuel : Nat) (h : R r r') :
    Agree R (drainLoop options tsc fuel r) (Run.drainLoop options' tsc fuel r') := by
  induction fuel generalizing r r' with
  | zero => exact .ok h
  | succ fuel ih =>
    unfold Run.drainLoop
    show Agree R ((if r.handler.limitReached options.messages then _ else _ : RunM Unit) r)
      ((if r'.handler.limitReached options'.messages then _ else _ : RunM Unit) r')
    rw [hR.messages, hR.handler h]
    split
    · exact .ok h
    · cases r.handler.bufferedPackets[r.handler.expectedPacketSeq]? with
      | none => exact .ok h
      | some packetBytes =>
        refine (hR.unpark h).bind fun _ _ _ h₁ => ?_
        exact (hR.processPacketBytes packetBytes .drain h₁).bind fun _ _ _ h₂ => ih h₂

theorem drainBufferedPackets (hR : Paired options options' tsc R) (h : R r r') :
    Agree R (drainBufferedPackets options tsc r) (Run.drainBufferedPackets options' tsc r') := by
  have hloop := hR.drainLoop r.handler.bufferedPackets.size h
  show Agree R _ (Run.drainLoop options' tsc r'.handler.bufferedPackets.size r')
  rw [hR.handler h]
  exact hloop

theorem processBatch (hR : Paired options options' tsc R) (batch : List Bytes) (h : R r r') :
    Agree R (processBatch options tsc batch r) (Run.processBatch options' tsc batch r') := by
  induction batch generalizing r r' with
  | nil => exact .ok h
  | cons bytes rest ih =>
    unfold Run.processBatch
    show Agree R ((if r.handler.limitReached options.messages then _ else _ : RunM Unit) r)
      ((if r'.handler.limitReached options'.messages then _ else _ : RunM Unit) r')
    rw [hR.messages, hR.handler h]
    split
    · exact .ok h
    · exact (hR.processPacketBytes bytes .replay h).bind fun _ _ _ h₁ => ih h₁

theorem requestReplay (hR : Paired options options' tsc R) (recovery : Recovery)
    (startSeq endSeq : UInt32) (h : R r r') :
    Agree R (requestReplay options tsc recovery startSeq endSeq r)
      (Run.requestReplay options' tsc recovery startSeq endSeq r') := by
  unfold Run.requestReplay
  show Agree R
    ((if startSeq > endSeq || r.handler.limitReached options.messages then _ else _ : RunM Unit) r)
    ((if startSeq > endSeq || r'.handler.limitReached options'.messages then _
      else _ : RunM Unit) r')
  rw [hR.messages, hR.handler h]
  split
  · exact .ok h
  · show Agree R
      (((onHandler requested >>= fun _ => print options (.requestingReplay startSeq endSeq)) >>=
        fun _ => _) r)
      (((onHandler requested >>= fun _ => print options' (.requestingReplay startSeq endSeq)) >>=
        fun _ => _) r')
    refine (hR.request startSeq endSeq h).bind fun _ s s' h₁ => ?_
    cases recovery startSeq endSeq with
    | error e => exact .error h₁
    | ok batch =>
      dsimp only
      split
      · exact .error h₁
      · exact (hR.processBatch batch h₁).bind fun _ _ _ h₂ => hR.drainBufferedPackets h₂

theorem handleDatagram (hR : Paired options options' tsc R) (recovery : Recovery)
    (packetBytes : Bytes) (h : R r r') :
    Agree R (handleDatagram options tsc recovery packetBytes r)
      (Run.handleDatagram options' tsc recovery packetBytes r') := by
  unfold Run.handleDatagram
  cases hp : parsePacket packetBytes with
  | none => exact hR.discard rfl h
  | some packet =>
    show Agree R
      ((if decodeSeqNum packet.header < r.handler.expectedPacketSeq then
          printError (.discardedStale _ r.handler.expectedPacketSeq)
        else if decodeSeqNum packet.header > r.handler.expectedPacketSeq then _
        else _ : RunM Unit) r)
      ((if decodeSeqNum packet.header < r'.handler.expectedPacketSeq then
          printError (.discardedStale _ r'.handler.expectedPacketSeq)
        else if decodeSeqNum packet.header > r'.handler.expectedPacketSeq then _
        else _ : RunM Unit) r')
    rw [hR.handler h]
    split
    · exact hR.discard rfl h
    · split
      · show Agree R
          (((onHandler (Handler.park · (decodeSeqNum packet.header) packetBytes) >>= fun _ =>
            print options (.buffered (decodeSeqNum packet.header)
              (decodeMsgCount packet.header))) >>= fun _ => _) r)
          (((onHandler (Handler.park · (decodeSeqNum packet.header) packetBytes) >>= fun _ =>
            print options' (.buffered (decodeSeqNum packet.header)
              (decodeMsgCount packet.header))) >>= fun _ => _) r')
        refine (hR.park hp h).bind fun _ s s' h₁ => ?_
        rw [bind_of_ok (get_eq s), bind_of_ok (get_eq s'), hR.handler h₁]
        cases first? s.handler.bufferedPackets with
        | none => exact .ok h₁
        | some first => exact hR.requestReplay recovery _ _ h₁
      · exact (hR.processPacketBytes packetBytes .live h).bind fun _ _ _ h₁ =>
          hR.drainBufferedPackets h₁

theorem receiveAll (hR : Paired options options' tsc R) (receives : List Receive) (h : R r r') :
    Agree R (receiveAll options tsc receives r) (Run.receiveAll options' tsc receives r') := by
  induction receives generalizing r r' with
  | nil =>
    show Agree R
      ((if r.handler.limitReached options.messages then _ else _ : RunM (Option _)) r)
      ((if r'.handler.limitReached options'.messages then _ else _ : RunM (Option _)) r')
    rw [hR.messages, hR.handler h]
    split
    · exact .ok h
    · exact .ok h
  | cons receive receives ih =>
    show Agree R
      ((if r.handler.limitReached options.messages then _ else _ : RunM (Option _)) r)
      ((if r'.handler.limitReached options'.messages then _ else _ : RunM (Option _)) r')
    rw [hR.messages, hR.handler h]
    split
    · exact .ok h
    · cases receive with
      | again => exact .ok h
      | failed error => exact .error h
      | datagram arrival => exact (hR.handleDatagram _ _ h).bind fun _ _ _ h₁ => ih h₁

theorem handleEvents (hR : Paired options options' tsc R) (events : List UInt32)
    (receives : List Receive) (h : R r r') :
    Agree R (handleEvents options tsc events receives r)
      (Run.handleEvents options' tsc events receives r') := by
  induction events generalizing receives r r' with
  | nil => exact .ok h
  | cons event events ih =>
    show Agree R
      ((if r.handler.limitReached options.messages then _ else if _ then _ else if _ then _
        else _ : RunM (Option _)) r)
      ((if r'.handler.limitReached options'.messages then _ else if _ then _ else if _ then _
        else _ : RunM (Option _)) r')
    rw [hR.messages, hR.handler h]
    split
    · exact .ok h
    · split
      · exact .error h
      · split
        · exact ih receives h
        · refine (hR.receiveAll receives h).bind fun rest s s' h₁ => ?_
          cases rest with
          | none => exact .ok h₁
          | some rest =>
            show Agree R
              ((if s.handler.limitReached options.messages then _ else _ : RunM (Option _)) s)
              ((if s'.handler.limitReached options.messages then _ else _ : RunM (Option _)) s')
            rw [hR.handler h₁]
            split
            · exact .ok h₁
            · exact ih rest h₁

theorem eventLoop (hR : Paired options options' tsc R) (fuel : Nat) (waits : List Wait)
    (receives : List Receive) (h : R r r') :
    Agree R (eventLoop options tsc fuel waits receives r)
      (Run.eventLoop options' tsc fuel waits receives r') := by
  induction fuel generalizing waits receives r r' with
  | zero => exact .ok h
  | succ fuel ih =>
    show Agree R
      ((if r.handler.limitReached options.messages then _ else _ : RunM Bool) r)
      ((if r'.handler.limitReached options'.messages then _ else _ : RunM Bool) r')
    rw [hR.messages, hR.handler h]
    split
    · exact .ok h
    · cases EpollInstance.wait waits with
      | error e => exact .error h
      | ok ready =>
        cases ready with
        | none => exact .ok h
        | some ready =>
          refine (hR.handleEvents ready.1 receives h).bind fun rest s s' h₁ => ?_
          cases rest with
          | none => exact .ok h₁
          | some rest => exact ih ready.2 rest h₁

theorem receiveEvents (hR : Paired options options' tsc R) (waits : List Wait)
    (receives : List Receive) (h : R r r') :
    Agree R (receiveEvents options tsc waits receives r)
      (Run.receiveEvents options' tsc waits receives r') :=
  hR.eventLoop (waits.length + 1) waits receives h

end Paired

/-! ## Benchmark mode -/

/-- The run without the lines to `std::cout`. -/
def quiet (r : Run) : Run := { r with log := r.log.filter (·.isError) }

/-- A line to `std::cout` is printed in the one run and not in the other. -/
theorem print_quiet {options : Options} (hv : options.benchmark = false) {line : LogLine}
    (hline : line.isError = false) (r : Run) :
    Agree (fun r r' => r' = r.quiet) (print options line r)
      (print { options with benchmark := true } line r.quiet) := by
  unfold print
  rw [hv]
  refine .ok ?_
  simp [quiet, hline]

theorem recordBboUpdate_quiet (publishTsc latencyCycles : UInt64) (r : Run) :
    Agree (fun r r' => r' = r.quiet) (recordBboUpdate publishTsc latencyCycles r)
      (recordBboUpdate publishTsc latencyCycles r.quiet) := by
  unfold recordBboUpdate
  split
  · exact .ok rfl
  · exact .ok rfl

theorem recordPacket_quiet (publishTsc latencyCycles : UInt64) (r : Run) :
    Agree (fun r r' => r' = r.quiet) (recordPacket publishTsc latencyCycles r)
      (recordPacket publishTsc latencyCycles r.quiet) := by
  unfold recordPacket
  split
  · exact .ok rfl
  · exact .ok rfl

theorem reportBbo_quiet {options : Options} (hv : options.benchmark = false) (tsc : Nat → UInt64)
    (publishTsc : UInt64) (result : ApplyResult) (r : Run) :
    Agree (fun r r' => r' = r.quiet) (reportBbo options tsc publishTsc result r)
      (reportBbo { options with benchmark := true } tsc publishTsc result r.quiet) := by
  unfold reportBbo
  split
  · refine Agree.bind (.ok rfl) ?_
    rintro updateTsc r₁ _ rfl
    refine (recordBboUpdate_quiet publishTsc (updateTsc - publishTsc) r₁).bind ?_
    rintro _ r₂ _ rfl
    exact print_quiet hv rfl r₂
  · exact .ok rfl

theorem applyMessage_quiet {options : Options} (hv : options.benchmark = false)
    (tsc : Nat → UInt64) (packetBytes : Bytes) (packet : PacketView) (source : PacketSource)
    (index : Nat) (message : MessageView) (r : Run) :
    Agree (fun r r' => r' = r.quiet)
      (applyMessage options tsc packetBytes packet source index message r)
      (applyMessage { options with benchmark := true } tsc packetBytes packet source index message
        r.quiet) := by
  let r₁ := { r with handler := r.handler.applyMessage packetBytes message }
  refine Agree.bind (x := reportBbo options tsc (decodePublishTsc packet.header)
    (r.handler.orderBook.apply message).1) (s := r₁) (reportBbo_quiet hv tsc _ _ r₁) ?_
  rintro _ r₂ _ rfl
  exact print_quiet hv rfl r₂

theorem finishPacket_quiet (tsc : Nat → UInt64) (packetBytes : Bytes) (packet : PacketView)
    (source : PacketSource) (r : Run) :
    Agree (fun r r' => r' = r.quiet) (finishPacket tsc packetBytes packet source r)
      (finishPacket tsc packetBytes packet source r.quiet) := by
  unfold finishPacket
  refine Agree.bind (.ok rfl) ?_
  rintro appliedTsc r₁ _ rfl
  refine (recordPacket_quiet _ _ r₁).bind ?_
  rintro _ r₂ _ rfl
  exact .ok rfl

theorem paired_quiet (options : Options) (hv : options.benchmark = false) (tsc : Nat → UInt64) :
    Paired options { options with benchmark := true } tsc (fun r r' => r' = r.quiet) where
  messages := rfl
  handler := by
    rintro r _ rfl
    rfl
  apply := by
    rintro r _ packetBytes packet message source index - - rfl
    exact applyMessage_quiet hv tsc packetBytes packet source index message r
  start := by
    rintro r _ source seq msgCount publishTsc rfl
    exact print_quiet hv rfl r
  finish := by
    rintro r _ packetBytes packet source - rfl
    exact finishPacket_quiet tsc packetBytes packet source r
  unpark := by
    rintro r _ rfl
    exact .ok rfl
  request := by
    rintro r _ startSeq endSeq rfl
    refine Agree.bind (.ok rfl) ?_
    rintro _ r₁ _ rfl
    exact print_quiet hv rfl r₁
  park := by
    rintro r _ packetBytes packet - rfl
    refine Agree.bind (.ok rfl) ?_
    rintro _ r₁ _ rfl
    exact print_quiet hv rfl r₁
  discard := by
    rintro r _ line hline rfl
    refine .ok ?_
    simp [quiet, hline]

@[simp] theorem lines_quiet_out (r : Run) : r.quiet.lines false = [] := by
  simp [lines, quiet, List.filter_filter]

@[simp] theorem lines_quiet_errors (r : Run) : r.quiet.lines true = r.lines true := by
  simp [lines, quiet, List.filter_filter]

/-- **`--benchmark` changes nothing but what is printed.** The event loop ends the same way, with
the same handler and the same latencies; without a line to `std::cout`, and with the same lines to
`std::cerr`. -/
theorem benchmark_silent (options : Options) (tsc : Nat → UInt64) (waits : List Wait)
    (receives : List Receive) :
    Agree
      (fun verbose benchmark =>
        benchmark.handler = verbose.handler ∧
        benchmark.packetLatencyCycles = verbose.packetLatencyCycles ∧
        benchmark.bboUpdateLatencyCycles = verbose.bboUpdateLatencyCycles ∧
        benchmark.lines false = [] ∧ benchmark.lines true = verbose.lines true)
      (receiveEvents { options with benchmark := false } tsc waits receives {})
      (receiveEvents { options with benchmark := true } tsc waits receives {}) := by
  refine ((paired_quiet { options with benchmark := false } rfl tsc).receiveEvents
    waits receives (r := {}) rfl).mono ?_
  rintro r _ rfl
  exact ⟨rfl, rfl, rfl, lines_quiet_out r, lines_quiet_errors r⟩

end Run

end Bmdfh.FeedHandler
