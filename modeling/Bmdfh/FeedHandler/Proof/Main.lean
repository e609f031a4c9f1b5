import Bmdfh.FeedHandler.Main
import Bmdfh.FeedHandler.Proof.Heads
import Bmdfh.Lib.Simulation

/-!
# The `main` of the feed handler and its handler

What the program prints and measures has no effect on the handler: every function of `Main.lean`
does to the handler what the function of `Handler.lean` does (`handleDatagram_projects`). The event
loop is the receive loop over the datagrams that the events and the calls of `recvfrom` make due
(`upToAgain`), unless a system call fails before (`receiveEvents_refines`).
-/

namespace Bmdfh.FeedHandler

open Std OrdMap Protocol Outcome Handler

namespace Run

/-- The handler of the run. -/
def Projects (r : Run) (h : Handler) : Prop := r.handler = h

variable {options : Options} {tsc : Nat → UInt64} {r : Run}

/-! ## Steps that leave the handler as it is -/

/-- The computation returns, and leaves the handler as it is. -/
def Silent {α : Type} (x : RunM α) : Prop := ∀ r, ∃ a r', x r = .ok a r' ∧ r'.handler = r.handler

theorem Silent.bind {α β : Type} {x : RunM α} {f : α → RunM β} (hx : Silent x)
    (hf : ∀ a, Silent (f a)) : Silent (x >>= f) := by
  intro r
  obtain ⟨a, r₁, h₁, hh₁⟩ := hx r
  obtain ⟨b, r₂, h₂, hh₂⟩ := hf a r₁
  exact ⟨b, r₂, (bind_of_ok h₁).trans h₂, hh₂.trans hh₁⟩

theorem silent_print (options : Options) (line : LogLine) : Silent (print options line) := by
  intro r
  unfold print
  split
  · exact ⟨(), r, rfl, rfl⟩
  · exact ⟨(), _, rfl, rfl⟩

theorem readTsc_eq (tsc : Nat → UInt64) (r : Run) :
    readTsc tsc r = .ok (tsc r.tscReads) { r with tscReads := r.tscReads + 1 } := rfl

theorem silent_readTsc (tsc : Nat → UInt64) : Silent (readTsc tsc) := fun r =>
  ⟨_, _, readTsc_eq tsc r, rfl⟩

theorem silent_recordBboUpdate (publishTsc latencyCycles : UInt64) :
    Silent (recordBboUpdate publishTsc latencyCycles) := by
  intro r
  unfold recordBboUpdate
  split
  · exact ⟨(), _, rfl, rfl⟩
  · exact ⟨(), r, rfl, rfl⟩

theorem silent_recordPacket (publishTsc latencyCycles : UInt64) :
    Silent (recordPacket publishTsc latencyCycles) := by
  intro r
  unfold recordPacket
  split
  · exact ⟨(), _, rfl, rfl⟩
  · exact ⟨(), r, rfl, rfl⟩

theorem silent_reportBbo (options : Options) (tsc : Nat → UInt64) (publishTsc : UInt64)
    (result : ApplyResult) : Silent (reportBbo options tsc publishTsc result) := by
  unfold reportBbo
  split
  · exact (silent_readTsc tsc).bind fun _ =>
      (silent_recordBboUpdate _ _).bind fun _ => silent_print _ _
  · exact fun r => ⟨(), r, rfl, rfl⟩

theorem applyMessage_ok (options : Options) (tsc : Nat → UInt64) (packetBytes : Bytes)
    (packet : PacketView) (source : PacketSource) (index : Nat) (message : MessageView) (r : Run) :
    ∃ r', applyMessage options tsc packetBytes packet source index message r = .ok () r' ∧
      r'.handler = r.handler.applyMessage packetBytes message := by
  obtain ⟨_, r₁, h₁, hh₁⟩ := silent_reportBbo options tsc (decodePublishTsc packet.header)
    (r.handler.orderBook.apply message).1
    { r with handler := r.handler.applyMessage packetBytes message }
  obtain ⟨_, r₂, h₂, hh₂⟩ := silent_print options (.recv source (decodeSeqNum packet.header) index
    message r₁.handler.orderBook.bbo r₁.handler.orderBook.liveOrderCount) r₁
  refine ⟨r₂, ?_, hh₂.trans hh₁⟩
  show (reportBbo options tsc _ _ >>= fun _ => _) _ = _
  rw [bind_of_ok h₁]
  exact h₂

theorem finishPacket_ok (tsc : Nat → UInt64) (packetBytes : Bytes) (packet : PacketView)
    (source : PacketSource) (r : Run) :
    ∃ r', finishPacket tsc packetBytes packet source r = .ok () r' ∧
      r'.handler = r.handler.finish packetBytes source (decodeSeqNum packet.header) := by
  obtain ⟨_, r₁, h₁, hh₁⟩ := silent_recordPacket (decodePublishTsc packet.header)
    (tsc r.tscReads - decodePublishTsc packet.header) { r with tscReads := r.tscReads + 1 }
  refine ⟨{ r₁ with
    handler := r₁.handler.finish packetBytes source (decodeSeqNum packet.header) }, ?_, ?_⟩
  · unfold finishPacket
    rw [bind_of_ok (readTsc_eq tsc r), bind_of_ok h₁]
    rfl
  · show r₁.handler.finish _ _ _ = _
    rw [hh₁]

/-! ## Function by function -/

theorem applyMessages_projects (packetBytes : Bytes) (packet : PacketView) (source : PacketSource)
    (indices : List Nat) (r : Run) :
    Agree Projects (applyMessages options tsc packetBytes packet source indices r)
      (Handler.applyMessages options.messages packetBytes packet source indices r.handler) := by
  induction indices generalizing r with
  | nil => exact .ok rfl
  | cons index rest ih =>
    unfold applyMessages Handler.applyMessages
    cases messageAt packet index with
    | none => exact .error rfl
    | some message =>
      obtain ⟨r', hr', hh⟩ := applyMessage_ok options tsc packetBytes packet source index message r
      dsimp only
      rw [bind_of_ok hr']
      show Agree Projects
        ((if r'.handler.limitReached options.messages then _ else _ : RunM Unit) r')
        ((if (r.handler.applyMessage packetBytes message).limitReached options.messages
          then _ else _ : HandlerM Unit) (r.handler.applyMessage packetBytes message))
      rw [← hh]
      split
      · exact .ok rfl
      · exact ih r'

theorem processPacketBytes_projects (packetBytes : Bytes) (source : PacketSource) (r : Run) :
    Agree Projects (processPacketBytes options tsc packetBytes source r)
      (Handler.processPacketBytes options.messages packetBytes source r.handler) := by
  unfold processPacketBytes Handler.processPacketBytes
  cases parsePacket packetBytes with
  | none => exact .error rfl
  | some packet =>
    show Agree Projects ((if _ then _ else _ : RunM Unit) r)
      ((if _ then _ else _ : HandlerM Unit) r.handler)
    split
    · exact .error rfl
    · obtain ⟨_, r₁, h₁, hh₁⟩ := silent_print options (.packet source (decodeSeqNum packet.header)
        (decodeMsgCount packet.header) (decodePublishTsc packet.header)) r
      rw [bind_of_ok h₁, ← hh₁]
      refine .bind (applyMessages_projects packetBytes packet source _ r₁) ?_
      rintro _ r₂ h₂ rfl
      obtain ⟨r₃, h₃, hh₃⟩ := finishPacket_ok tsc packetBytes packet source r₂
      rw [h₃]
      exact .ok hh₃

theorem drainLoop_projects (fuel : Nat) (r : Run) :
    Agree Projects (drainLoop options tsc fuel r)
      (Handler.drainLoop options.messages fuel r.handler) := by
  induction fuel generalizing r with
  | zero => exact .ok rfl
  | succ fuel ih =>
    unfold drainLoop Handler.drainLoop
    show Agree Projects ((if r.handler.limitReached options.messages then _ else _ : RunM Unit) r)
      ((if r.handler.limitReached options.messages then _ else _ : HandlerM Unit) r.handler)
    split
    · exact .ok rfl
    · cases r.handler.bufferedPackets[r.handler.expectedPacketSeq]? with
      | none => exact .ok rfl
      | some packetBytes =>
        refine Agree.bind (.ok rfl) ?_
        rintro _ r₁ h₁ rfl
        refine Agree.bind (processPacketBytes_projects packetBytes .drain r₁) ?_
        rintro _ r₂ h₂ rfl
        exact ih r₂

theorem drainBufferedPackets_projects (r : Run) :
    Agree Projects (drainBufferedPackets options tsc r)
      (Handler.drainBufferedPackets options.messages r.handler) :=
  drainLoop_projects r.handler.bufferedPackets.size r

theorem processBatch_projects (batch : List Bytes) (r : Run) :
    Agree Projects (processBatch options tsc batch r)
      (Handler.processBatch options.messages batch r.handler) := by
  induction batch generalizing r with
  | nil => exact .ok rfl
  | cons bytes rest ih =>
    unfold processBatch Handler.processBatch
    show Agree Projects ((if r.handler.limitReached options.messages then _ else _ : RunM Unit) r)
      ((if r.handler.limitReached options.messages then _ else _ : HandlerM Unit) r.handler)
    split
    · exact .ok rfl
    · refine Agree.bind (processPacketBytes_projects bytes .replay r) ?_
      rintro _ r₁ h₁ rfl
      exact ih r₁

theorem requestReplay_projects (recovery : Recovery) (startSeq endSeq : UInt32) (r : Run) :
    Agree Projects (requestReplay options tsc recovery startSeq endSeq r)
      (Handler.requestReplay options.messages recovery startSeq endSeq r.handler) := by
  unfold requestReplay Handler.requestReplay
  show Agree Projects ((if _ then _ else _ : RunM Unit) r)
    ((if _ then _ else _ : HandlerM Unit) r.handler)
  split
  · exact .ok rfl
  · refine Agree.bind (.ok rfl) ?_
    rintro _ r₁ _ rfl
    obtain ⟨_, r₂, h₂, hh₂⟩ := silent_print options (.requestingReplay startSeq endSeq) r₁
    rw [bind_of_ok h₂, ← hh₂]
    cases recovery startSeq endSeq with
    | error e => exact .error rfl
    | ok batch =>
      dsimp only
      split
      · exact .error rfl
      · refine Agree.bind (processBatch_projects batch r₂) ?_
        rintro _ r₃ _ rfl
        exact drainBufferedPackets_projects r₃

theorem handleDatagram_projects (options : Options) (tsc : Nat → UInt64) (recovery : Recovery)
    (packetBytes : Bytes) (r : Run) :
    Agree Projects (handleDatagram options tsc recovery packetBytes r)
      (Handler.handleDatagram options.messages recovery packetBytes r.handler) := by
  unfold handleDatagram Handler.handleDatagram
  cases parsePacket packetBytes with
  | none => exact .ok rfl
  | some packet =>
    show Agree Projects ((if _ then _ else if _ then _ else _ : RunM Unit) r)
      ((if _ then _ else if _ then _ else _ : HandlerM Unit) r.handler)
    split
    · exact .ok rfl
    · split
      · refine Agree.bind (.ok rfl) ?_
        rintro _ r₁ _ rfl
        obtain ⟨_, r₂, h₂, hh₂⟩ := silent_print options (.buffered (decodeSeqNum packet.header)
          (decodeMsgCount packet.header)) r₁
        rw [bind_of_ok h₂, ← hh₂]
        rw [bind_of_ok (get_eq r₂), bind_of_ok (get_eq r₂.handler)]
        cases first? r₂.handler.bufferedPackets with
        | none => exact .ok rfl
        | some first => exact requestReplay_projects recovery _ _ r₂
      · refine Agree.bind (processPacketBytes_projects packetBytes .live r) ?_
        rintro _ r₁ _ rfl
        exact drainBufferedPackets_projects r₁

end Run

/-! ## The event loop -/

/-- The datagrams that the calls of `recvfrom` return. -/
def arrivals (receives : List Receive) : List Arrival :=
  receives.filterMap fun
    | .datagram arrival => some arrival
    | _ => none

/-- The events that the calls of `epoll_wait` return, one by one; `none` for a call that fails. -/
def signals (waits : List Wait) : List (Option UInt32) :=
  waits.flatMap fun
    | .ready events => events.map some
    | .interrupted => []
    | .failed => [none]

/-- So many of them have the socket read. -/
def readable (signals : List (Option UInt32)) : Nat :=
  signals.countP fun signal => signal.any (· &&& kEpollIn ≠ 0)

/-- The results of `recvfrom` up to the `n`-th `EAGAIN`, or all of them. -/
def upToAgain : Nat → List Receive → List Receive
  | 0, _ => []
  | _ + 1, [] => []
  | n + 1, .again :: receives => .again :: upToAgain n receives
  | n + 1, .datagram arrival :: receives => .datagram arrival :: upToAgain (n + 1) receives
  | n + 1, .failed error :: receives => .failed error :: upToAgain (n + 1) receives

/-- No call failed, and no event tells of an error. -/
structure Clean (signals : List (Option UInt32)) (used : List Receive) : Prop where
  signals : ∀ signal ∈ signals, ∃ event, signal = some event ∧
    event &&& (kEpollErr ||| kEpollHup) = 0
  used : ∀ error, .failed error ∉ used

/-- The first error is one of `epoll_wait`, of the socket or of `recvfrom`; `used` are the results
of `recvfrom` before it. -/
inductive SystemError (signals : List (Option UInt32)) (receives : List Receive) :
    List Receive → RuntimeError → Prop
  | wait {before : List (Option UInt32)}
      (clean : Clean before (upToAgain (readable before) receives))
      (failed : before ++ [none] <+: signals) :
      SystemError signals receives (upToAgain (readable before) receives) "epoll_wait failed"
  | socket {before : List (Option UInt32)} {event : UInt32}
      (clean : Clean before (upToAgain (readable before) receives))
      (failed : before ++ [some event] <+: signals)
      (error : event &&& (kEpollErr ||| kEpollHup) ≠ 0) :
      SystemError signals receives (upToAgain (readable before) receives)
        "epoll reported a socket error"
  | receive {before : List (Option UInt32)} {used : List Receive} {error : RuntimeError}
      (clean : Clean before used) (comes : before <+: signals)
      (failed : used ++ [.failed error] <+: upToAgain (readable before) receives) :
      SystemError signals receives used ("recvfrom: " ++ error)

/-- The handler goes from `h` to `h'` for the first `n` events that have the socket read; `rest` is
to come, unless the limit has ended the loops. -/
structure Took (messages n : Nat) (receives rest : List Receive) (h h' : Handler) : Prop where
  run : receiveLoop messages (arrivals (upToAgain n receives)) h = .ok () h'
  rest : h'.limitReached messages = false → upToAgain n receives ++ rest = receives

/-- The handler throws at one of the datagrams, or a system call fails behind them. -/
inductive Fails (messages : Nat) (signals : List (Option UInt32)) (receives : List Receive)
    (h : Handler) (e : RuntimeError) (h' : Handler) : Prop
  | throws (run : receiveLoop messages (arrivals (upToAgain (readable signals) receives)) h
      = .error e h')
  | system {used : List Receive} (error : SystemError signals receives used e)
      (run : receiveLoop messages (arrivals used) h = .ok () h')
      (below : h'.limitReached messages = false)

section
variable {messages n m : Nat} {before after : List (Option UInt32)}
  {receives rest rest' used used' : List Receive} {h h₁ h' : Handler} {e : RuntimeError}

theorem arrivals_append (receives rest : List Receive) :
    arrivals (receives ++ rest) = arrivals receives ++ arrivals rest := List.filterMap_append

theorem readable_append (before after : List (Option UInt32)) :
    readable (before ++ after) = readable before + readable after := List.countP_append

@[simp] theorem upToAgain_zero (receives : List Receive) : upToAgain 0 receives = [] := by
  cases receives <;> rfl

/-- Before an event nothing is read. -/
theorem upToAgain_nothing (receives : List Receive) : upToAgain (readable []) receives = [] :=
  upToAgain_zero receives

/-- What is read for more events follows what is read for the first ones. -/
theorem upToAgain_add (split : upToAgain n receives ++ rest = receives) (m : Nat) :
    upToAgain (n + m) receives = upToAgain n receives ++ upToAgain m rest := by
  induction n, receives using upToAgain.induct with
  | case1 receives =>
    rw [upToAgain_zero, List.nil_append] at split
    rw [split, upToAgain_zero, Nat.zero_add, List.nil_append]
  | case2 n =>
    obtain rfl : rest = [] := split
    rw [Nat.succ_add]
    cases m <;> rfl
  | case3 n receives ih =>
    rw [Nat.succ_add]
    exact congrArg _ (ih (List.cons_inj_right _ |>.1 split))
  | case4 n arrival receives ih =>
    have ih := ih (List.cons_inj_right _ |>.1 split)
    rw [Nat.succ_add] at ih ⊢
    exact congrArg _ ih
  | case5 n error receives ih =>
    have ih := ih (List.cons_inj_right _ |>.1 split)
    rw [Nat.succ_add] at ih ⊢
    exact congrArg _ ih

theorem upToAgain_isPrefix (n : Nat) (receives : List Receive) :
    upToAgain n receives <+: receives := by
  induction n, receives using upToAgain.induct with
  | case1 receives =>
    rw [upToAgain_zero]
    exact List.nil_prefix
  | case2 n => exact List.nil_prefix
  | case3 n receives ih => exact (List.prefix_cons_inj _).2 ih
  | case4 n arrival receives ih => exact (List.prefix_cons_inj _).2 ih
  | case5 n error receives ih => exact (List.prefix_cons_inj _).2 ih

theorem exists_upToAgain_add (n m : Nat) (receives : List Receive) :
    ∃ more, upToAgain (n + m) receives = upToAgain n receives ++ more := by
  obtain ⟨rest, split⟩ := upToAgain_isPrefix n receives
  exact ⟨_, upToAgain_add split m⟩

/-! Parts of a run, in sequence. -/

theorem Took.refl (messages : Nat) (receives : List Receive) (h : Handler) :
    Took messages 0 receives receives h h := by
  refine ⟨?_, fun _ => ?_⟩
  · rw [upToAgain_zero]
    rfl
  · rw [upToAgain_zero, List.nil_append]

theorem Took.append (first : Took messages n receives rest h h₁)
    (below : h₁.limitReached messages = false) (second : Took messages m rest rest' h₁ h') :
    Took messages (n + m) receives rest' h h' := by
  have split := first.rest below
  refine ⟨?_, fun below' => ?_⟩
  · rw [upToAgain_add split, arrivals_append, receiveLoop_append first.run]
    exact second.run
  · rw [upToAgain_add split, List.append_assoc, second.rest below', split]

/-- At the limit nothing more is handled. -/
theorem Took.limit (took : Took messages n receives rest h h')
    (reached : h'.limitReached messages = true) (m : Nat) (rest' : List Receive) :
    Took messages (n + m) receives rest' h h' := by
  obtain ⟨more, hmore⟩ := exists_upToAgain_add n m receives
  refine ⟨?_, fun below => ?_⟩
  · rw [hmore, arrivals_append, receiveLoop_append took.run]
    exact receiveLoop_limit (limitReached_iff.1 reached) _
  · rw [reached] at below
    cases below

/-- Where the results of `recvfrom` end, the program waits in it. -/
theorem Took.waits (took : Took messages n receives [] h h')
    (below : h'.limitReached messages = false) (m : Nat) :
    Took messages (n + m) receives [] h h' := by
  have hadd := upToAgain_add (took.rest below) m
  have hnil : upToAgain m [] = [] := by cases m <;> rfl
  rw [hnil, List.append_nil] at hadd
  refine ⟨?_, ?_⟩
  · rw [hadd]
    exact took.run
  · rw [hadd]
    exact took.rest

theorem Clean.nil : Clean [] [] := ⟨nofun, nofun⟩

theorem Clean.append (first : Clean before used) (second : Clean after used') :
    Clean (before ++ after) (used ++ used') := by
  constructor
  · intro signal hmem
    exact (List.mem_append.1 hmem).elim (first.signals signal) (second.signals signal)
  · intro error hmem
    exact (List.mem_append.1 hmem).elim (first.used error) (second.used error)

theorem Clean.datagram {signals : List (Option UInt32)} (clean : Clean signals used)
    (arrival : Arrival) : Clean signals (.datagram arrival :: used) :=
  ⟨clean.signals, fun error hmem => clean.used error ((List.mem_cons.1 hmem).resolve_left nofun)⟩

theorem SystemError.append (he : SystemError before receives used e)
    (after : List (Option UInt32)) : SystemError (before ++ after) receives used e := by
  cases he with
  | wait clean failed => exact .wait clean (failed.trans (List.prefix_append _ _))
  | socket clean failed error =>
    exact .socket clean (failed.trans (List.prefix_append _ _)) error
  | receive clean comes failed =>
    exact .receive clean (comes.trans (List.prefix_append _ _)) failed

theorem SystemError.prepend (he : SystemError after rest used e)
    (split : upToAgain (readable before) receives ++ rest = receives)
    (clean : Clean before (upToAgain (readable before) receives)) :
    SystemError (before ++ after) receives (upToAgain (readable before) receives ++ used) e := by
  have hadd (more : List (Option UInt32)) : upToAgain (readable (before ++ more)) receives
      = upToAgain (readable before) receives ++ upToAgain (readable more) rest := by
    rw [readable_append, upToAgain_add split]
  cases he with
  | wait clean' failed =>
    have hclean := clean.append clean'
    rw [← hadd] at hclean ⊢
    refine .wait hclean ?_
    rw [List.append_assoc]
    exact (List.prefix_append_right_inj _).2 failed
  | socket clean' failed error =>
    have hclean := clean.append clean'
    rw [← hadd] at hclean ⊢
    refine .socket hclean ?_ error
    rw [List.append_assoc]
    exact (List.prefix_append_right_inj _).2 failed
  | receive clean' comes failed =>
    refine .receive (clean.append clean') ((List.prefix_append_right_inj _).2 comes) ?_
    rw [hadd, List.append_assoc]
    exact (List.prefix_append_right_inj _).2 failed

theorem SystemError.isPrefix (he : SystemError before receives used e) : used <+: receives := by
  cases he with
  | wait _ _ => exact upToAgain_isPrefix _ _
  | socket _ _ _ => exact upToAgain_isPrefix _ _
  | receive _ _ failed =>
    exact (List.prefix_append _ _).trans (failed.trans (upToAgain_isPrefix _ _))

theorem Fails.append (hf : Fails messages before receives h e h') (after : List (Option UInt32)) :
    Fails messages (before ++ after) receives h e h' := by
  cases hf with
  | throws run =>
    obtain ⟨more, hmore⟩ := exists_upToAgain_add (readable before) (readable after) receives
    refine .throws ?_
    rw [readable_append, hmore, arrivals_append]
    exact receiveLoop_append_error run _
  | system error run below => exact .system (error.append after) run below

theorem Fails.prepend (hf : Fails messages after rest h₁ e h')
    (took : Took messages (readable before) receives rest h h₁)
    (clean : Clean before (upToAgain (readable before) receives))
    (below : h₁.limitReached messages = false) :
    Fails messages (before ++ after) receives h e h' := by
  have split := took.rest below
  cases hf with
  | throws run =>
    refine .throws ?_
    rw [readable_append, upToAgain_add split, arrivals_append, receiveLoop_append took.run]
    exact run
  | system error run below' =>
    refine .system (error.prepend split clean) ?_ below'
    rw [arrivals_append, receiveLoop_append took.run]
    exact run

end

/-! The calls of `recvfrom` for one event. -/

section
variable {event : UInt32}

theorem readable_singleton (hread : event &&& kEpollIn ≠ 0) : readable [some event] = 1 := by
  simp [readable, hread]

theorem upToAgain_datagram (hread : event &&& kEpollIn ≠ 0) (arrival : Arrival)
    (receives : List Receive) :
    upToAgain (readable [some event]) (.datagram arrival :: receives)
      = .datagram arrival :: upToAgain (readable [some event]) receives := by
  rw [readable_singleton hread]
  rfl

theorem clean_singleton (hsound : event &&& (kEpollErr ||| kEpollHup) = 0) {used : List Receive}
    (received : ∀ error, .failed error ∉ used) : Clean [some event] used :=
  ⟨fun _ hmem => ⟨event, List.mem_singleton.1 hmem, hsound⟩, received⟩

/-- The first error, behind a datagram that is received before. -/
theorem SystemError.datagram (hread : event &&& kEpollIn ≠ 0)
    (hsound : event &&& (kEpollErr ||| kEpollHup) = 0) {receives used : List Receive}
    {e : RuntimeError} (he : SystemError [some event] receives used e) (arrival : Arrival) :
    SystemError [some event] (.datagram arrival :: receives) (.datagram arrival :: used) e := by
  cases he with
  | wait _ failed =>
    have hmem : none ∈ [some event] := failed.subset (List.mem_append_right _ (.head _))
    cases List.mem_singleton.1 hmem
  | @socket _ event' _ failed error =>
    have hmem : some event' ∈ [some event] := failed.subset (List.mem_append_right _ (.head _))
    cases List.mem_singleton.1 hmem
    exact absurd hsound error
  | receive clean comes failed =>
    refine .receive (clean.datagram arrival) comes ?_
    obtain ⟨after, split⟩ := comes
    rcases List.append_eq_singleton_iff.1 split with ⟨rfl, -⟩ | ⟨rfl, -⟩
    · -- nothing is received before the event
      rw [upToAgain_nothing] at failed
      exact absurd (List.prefix_nil.1 failed) (List.append_ne_nil_of_right_ne_nil _ nofun)
    · rw [upToAgain_datagram hread]
      exact (List.prefix_cons_inj _).2 failed

end

namespace Run

variable {options : Options} {tsc : Nat → UInt64}

/-- How the loops over the events and the datagrams end. -/
def Serves (messages : Nat) (signals : List (Option UInt32)) (receives : List Receive)
    (h : Handler) : EStateM.Result RuntimeError Run (Option (List Receive)) → Prop
  | .ok (some rest) r => Took messages (readable signals) receives rest h r.handler ∧
      (r.handler.limitReached messages = false →
        Clean signals (upToAgain (readable signals) receives))
  | .ok none r => Took messages (readable signals) receives [] h r.handler ∧
      r.handler.limitReached messages = false
  | .error e r => Fails messages signals receives h e r.handler

section
variable {messages : Nat} {before after : List (Option UInt32)} {receives rest : List Receive}
  {h h₁ : Handler} {result : EStateM.Result RuntimeError Run (Option (List Receive))}

/-- Events after the first ones. -/
theorem Serves.prepend (hs : Serves messages after rest h₁ result)
    (took : Took messages (readable before) receives rest h h₁)
    (clean : Clean before (upToAgain (readable before) receives))
    (below : h₁.limitReached messages = false) :
    Serves messages (before ++ after) receives h result := by
  match result, hs with
  | .ok (some _) _, hs =>
    rw [Serves, readable_append, upToAgain_add (took.rest below)]
    exact ⟨took.append below hs.1, fun below' => clean.append (hs.2 below')⟩
  | .ok none _, hs =>
    rw [Serves, readable_append]
    exact ⟨took.append below hs.1, hs.2⟩
  | .error _ _, hs => exact Fails.prepend hs took clean below

/-- Events that are not come to. -/
theorem Serves.append (hs : Serves messages before receives h result)
    (stops : ∀ rest r, result = .ok (some rest) r → r.handler.limitReached messages = true)
    (after : List (Option UInt32)) : Serves messages (before ++ after) receives h result := by
  match result, hs with
  | .ok (some _) r, hs =>
    have reached := stops _ r rfl
    rw [Serves, readable_append, reached]
    exact ⟨hs.1.limit reached _ _, nofun⟩
  | .ok none _, hs =>
    rw [Serves, readable_append]
    exact ⟨hs.1.waits hs.2 _, hs.2⟩
  | .error _ _, hs => exact Fails.append hs after

theorem serves_limit (signals : List (Option UInt32)) (receives : List Receive) (r : Run)
    (reached : r.handler.limitReached messages = true) :
    Serves messages signals receives r.handler (.ok (some receives) r) := by
  have took := (Took.refl messages receives r.handler).limit reached (readable signals) receives
  rw [Nat.zero_add] at took
  refine ⟨took, fun below => ?_⟩
  rw [reached] at below
  cases below

end

/-- A datagram taken first. -/
theorem Serves.datagram {messages : Nat} {event : UInt32} (hread : event &&& kEpollIn ≠ 0)
    (hsound : event &&& (kEpollErr ||| kEpollHup) = 0) {receives : List Receive}
    {arrival : Arrival} {h h₁ : Handler}
    {result : EStateM.Result RuntimeError Run (Option (List Receive))}
    (hs : Serves messages [some event] receives h₁ result)
    (below : h.limitReached messages = false)
    (hok : Handler.handleDatagram messages arrival.recovery
      (arrival.datagram.take kReceiveBufferSize) h = .ok () h₁) :
    Serves messages [some event] (.datagram arrival :: receives) h result := by
  have hfirst (used : List Receive) :
      receiveLoop messages (arrivals (.datagram arrival :: used)) h
        = receiveLoop messages (arrivals used) h₁ := by
    show receiveLoop messages (arrival :: arrivals used) h = _
    rw [receiveLoop_cons (limitReached_eq_false_iff.1 below), bind_of_ok hok]
  have htook {rest : List Receive} {h' : Handler}
      (took : Took messages (readable [some event]) receives rest h₁ h') :
      Took messages (readable [some event]) (.datagram arrival :: receives) rest h h' := by
    refine ⟨?_, fun below' => ?_⟩
    · rw [upToAgain_datagram hread, hfirst]
      exact took.run
    · rw [upToAgain_datagram hread]
      exact congrArg _ (took.rest below')
  match result, hs with
  | .ok (some _) _, hs =>
    refine ⟨htook hs.1, fun below' => ?_⟩
    rw [upToAgain_datagram hread]
    exact (hs.2 below').datagram arrival
  | .ok none _, hs => exact ⟨htook hs.1, hs.2⟩
  | .error e r, hs =>
    cases hs with
    | throws run =>
      refine .throws ?_
      rw [upToAgain_datagram hread, hfirst]
      exact run
    | system error run below' =>
      exact .system (error.datagram hread hsound arrival) ((hfirst _).trans run) below'

theorem receiveAll_serves (options : Options) (tsc : Nat → UInt64) {event : UInt32}
    (hread : event &&& kEpollIn ≠ 0) (hsound : event &&& (kEpollErr ||| kEpollHup) = 0)
    (receives : List Receive) (r : Run) :
    Serves options.messages [some event] receives r.handler
      (receiveAll options tsc receives r) := by
  induction receives generalizing r with
  | nil =>
    show Serves _ _ _ _
      ((if r.handler.limitReached options.messages then _ else _ : RunM (Option _)) r)
    cases hl : r.handler.limitReached options.messages with
    | true => exact serves_limit _ _ r hl
    | false =>
      show Took _ (readable [some event]) _ _ _ _ ∧ _
      rw [readable_singleton hread]
      exact ⟨⟨rfl, fun _ => rfl⟩, hl⟩
  | cons receive receives ih =>
    show Serves _ _ _ _
      ((if r.handler.limitReached options.messages then _ else _ : RunM (Option _)) r)
    cases hl : r.handler.limitReached options.messages with
    | true => exact serves_limit _ _ r hl
    | false =>
      cases receive with
      | again =>
        have htaken : upToAgain (readable [some event]) (.again :: receives) = [.again] := by
          rw [readable_singleton hread, upToAgain, upToAgain_zero]
        refine ⟨⟨?_, fun _ => ?_⟩, fun _ => ?_⟩
        · rw [htaken]
          rfl
        · rw [htaken]
          rfl
        · rw [htaken]
          refine clean_singleton hsound fun error hmem => ?_
          cases List.mem_singleton.1 hmem
      | failed error =>
        have failed : [] ++ [.failed error] <+: upToAgain (readable [some event])
            (.failed error :: receives) := by
          rw [readable_singleton hread]
          exact ⟨_, rfl⟩
        have hclean : Clean [some event] [] := clean_singleton hsound fun _ => List.not_mem_nil
        exact .system (.receive hclean List.prefix_rfl failed) rfl hl
      | datagram arrival =>
        have hproj := handleDatagram_projects options tsc arrival.recovery
          (arrival.datagram.take kReceiveBufferSize) r
        cases hok : Handler.handleDatagram options.messages arrival.recovery
            (arrival.datagram.take kReceiveBufferSize) r.handler with
        | ok _ h₁ =>
          rw [hok] at hproj
          obtain ⟨r₁, hr₁, rfl⟩ := hproj.of_ok
          show Serves _ _ _ _ ((handleDatagram _ _ _ _ >>= fun _ => _) r)
          rw [bind_of_ok hr₁]
          exact (ih r₁).datagram hread hsound hl hok
        | error e h₁ =>
          rw [hok] at hproj
          obtain ⟨r₁, hr₁, rfl⟩ := hproj.of_error
          show Serves _ _ _ _ ((handleDatagram _ _ _ _ >>= fun _ => _) r)
          rw [bind_of_error hr₁]
          refine .throws ?_
          rw [readable_singleton hread]
          show receiveLoop _ (arrival :: _) _ = _
          rw [receiveLoop_cons (limitReached_eq_false_iff.1 hl), bind_of_error hok]

theorem handleEvents_serves (options : Options) (tsc : Nat → UInt64) (events : List UInt32)
    (receives : List Receive) (r : Run) :
    Serves options.messages (events.map some) receives r.handler
      (handleEvents options tsc events receives r) := by
  induction events generalizing receives r with
  | nil =>
    refine ⟨.refl _ _ _, fun _ => ?_⟩
    rw [List.map_nil, upToAgain_nothing]
    exact .nil
  | cons event events ih =>
    show Serves _ ([some event] ++ events.map some) _ _
      ((if r.handler.limitReached options.messages then _
        else if _ then _ else if _ then _ else _ : RunM (Option _)) r)
    split
    · rename_i hl
      exact serves_limit _ _ r hl
    rename_i hl
    replace hl := Bool.eq_false_of_not_eq_true hl
    split
    · rename_i herror
      have hfirst : [] ++ [some event] <+: [some event] ++ events.map some :=
        List.prefix_append _ _
      refine .system (.socket ?_ hfirst herror) ?_ hl
      · rw [upToAgain_nothing]
        exact .nil
      · rw [upToAgain_nothing]
        rfl
    rename_i hsound
    split
    · rename_i hskip
      have hnone : readable [some event] = 0 := by simp [readable, hskip]
      refine (ih receives r).prepend (hnone ▸ .refl _ _ _) ?_ hl
      rw [hnone, upToAgain_zero]
      exact clean_singleton (not_not.1 hsound) fun _ => List.not_mem_nil
    · rename_i hread
      have hall := receiveAll_serves options tsc hread (not_not.1 hsound) receives r
      cases hres : receiveAll options tsc receives r with
      | error e r₁ =>
        rw [hres] at hall
        rw [bind_of_error hres]
        exact hall.append nofun _
      | ok rest r₁ =>
        rw [hres] at hall
        rw [bind_of_ok hres]
        cases rest with
        | none => exact hall.append nofun _
        | some rest =>
          show Serves _ _ _ _
            ((if r₁.handler.limitReached options.messages then _ else _ : RunM (Option _)) r₁)
          split
          · rename_i hl₁
            refine hall.append (fun rest' r' heq => ?_) _
            cases heq
            exact hl₁
          · rename_i hl₁
            replace hl₁ := Bool.eq_false_of_not_eq_true hl₁
            exact (ih rest r₁).prepend hall.1 (hall.2 hl₁) hl₁

/-- What a call of `EpollInstance::wait` takes of the signals. -/
theorem wait_cases (waits : List Wait) :
    (EpollInstance.wait waits = .ok none ∧ signals waits = []) ∨
    (∃ events rest, EpollInstance.wait waits = .ok (some (events, rest)) ∧
      rest.length < waits.length ∧ signals waits = events.map some ++ signals rest) ∨
    (EpollInstance.wait waits = .error "epoll_wait failed" ∧
      ∃ rest, signals waits = none :: rest) := by
  induction waits with
  | nil => exact .inl ⟨rfl, rfl⟩
  | cons w waits ih =>
    cases w with
    | ready events => exact .inr (.inl ⟨events, waits, rfl, Nat.lt_succ_self _, rfl⟩)
    | failed => exact .inr (.inr ⟨rfl, _, rfl⟩)
    | interrupted =>
      rcases ih with hnone | ⟨events, rest, hready, hlt, hsignals⟩ | hfailed
      · exact .inl hnone
      · exact .inr (.inl ⟨events, rest, hready, Nat.lt_succ_of_lt hlt, hsignals⟩)
      · exact .inr (.inr hfailed)

/-- How the outer loop ends. -/
def Finishes (messages : Nat) (signals : List (Option UInt32)) (receives : List Receive)
    (h : Handler) : EStateM.Result RuntimeError Run Bool → Prop
  | .ok ended r => receiveLoop messages (arrivals (upToAgain (readable signals) receives)) h
      = .ok () r.handler ∧ ended = r.handler.limitReached messages
  | .error e r => Fails messages signals receives h e r.handler

section
variable {messages : Nat} {before after : List (Option UInt32)} {receives rest : List Receive}
  {h h₁ : Handler} {result : EStateM.Result RuntimeError Run Bool}

/-- Waits after the first one. -/
theorem Finishes.prepend (hf : Finishes messages after rest h₁ result)
    (took : Took messages (readable before) receives rest h h₁)
    (clean : Clean before (upToAgain (readable before) receives))
    (below : h₁.limitReached messages = false) :
    Finishes messages (before ++ after) receives h result := by
  match result, hf with
  | .ok _ _, hf =>
    refine ⟨?_, hf.2⟩
    rw [readable_append, upToAgain_add (took.rest below), arrivals_append,
      receiveLoop_append took.run]
    exact hf.1
  | .error _ _, hf => exact Fails.prepend hf took clean below

/-- At the limit the loop ends. -/
theorem Finishes.of_limit (hf : Finishes messages after rest h₁ result)
    (took : Took messages (readable before) receives rest h h₁)
    (reached : h₁.limitReached messages = true) :
    Finishes messages (before ++ after) receives h result := by
  have hstay (arrivals : List Arrival) : receiveLoop messages arrivals h₁ = .ok () h₁ :=
    receiveLoop_limit (limitReached_iff.1 reached) arrivals
  match result, hf with
  | .ok _ r, hf =>
    obtain ⟨hrun, hended⟩ := hf
    rw [hstay] at hrun
    refine ⟨?_, hended⟩
    rw [readable_append, (took.limit reached (readable after) rest).run]
    exact hrun
  | .error _ r, hf =>
    cases hf with
    | throws run =>
      rw [hstay] at run
      cases run
    | system error run below =>
      rw [hstay] at run
      cases run
      rw [reached] at below
      cases below

end

theorem eventLoop_finishes (fuel : Nat) (waits : List Wait) (receives : List Receive) (r : Run)
    (hfuel : waits.length < fuel) :
    Finishes options.messages (signals waits) receives r.handler
      (eventLoop options tsc fuel waits receives r) := by
  induction fuel generalizing waits receives r with
  | zero => exact absurd hfuel (Nat.not_lt_zero _)
  | succ fuel ih =>
    show Finishes _ _ _ _ ((if r.handler.limitReached options.messages then _
      else _ : RunM Bool) r)
    cases hl : r.handler.limitReached options.messages with
    | true => exact ⟨(serves_limit (signals waits) receives r hl).1.run, hl.symm⟩
    | false =>
      rcases wait_cases waits with
        ⟨hnone, hsignals⟩ | ⟨events, rest, hready, hlt, hsignals⟩ | ⟨hfailed, rest, hsignals⟩
      · simp only [hnone, hsignals]
        exact ⟨(Took.refl _ receives _).run, hl.symm⟩
      · simp only [hready, hsignals]
        have hevents := handleEvents_serves options tsc events receives r
        cases hres : handleEvents options tsc events receives r with
        | error e r₁ =>
          rw [hres] at hevents
          show Finishes _ _ _ _ ((handleEvents _ _ _ _ >>= fun _ => _) r)
          rw [bind_of_error hres]
          exact Fails.append hevents _
        | ok next r₁ =>
          rw [hres] at hevents
          show Finishes _ _ _ _ ((handleEvents _ _ _ _ >>= fun _ => _) r)
          rw [bind_of_ok hres]
          cases next with
          | none =>
            refine ⟨?_, hevents.2.symm⟩
            rw [readable_append]
            exact (hevents.1.waits hevents.2 _).run
          | some receives₁ =>
            have hloop := ih rest receives₁ r₁ (by omega)
            cases hl₁ : r₁.handler.limitReached options.messages with
            | true => exact hloop.of_limit hevents.1 hl₁
            | false => exact hloop.prepend hevents.1 (hevents.2 hl₁) hl₁
      · simp only [hfailed, hsignals]
        have hfirst : [] ++ [none] <+: none :: rest := List.prefix_append [none] rest
        refine Fails.system (.wait ?_ hfirst) ?_ hl
        · rw [upToAgain_nothing]
          exact .nil
        · rw [upToAgain_nothing]
          rfl

theorem receiveEvents_finishes (options : Options) (tsc : Nat → UInt64) (waits : List Wait)
    (receives : List Receive) :
    Finishes options.messages (signals waits) receives {}
      (receiveEvents options tsc waits receives {}) :=
  eventLoop_finishes (waits.length + 1) waits receives {} (Nat.lt_succ_self _)

/-- **The event loop refines the receive loop** over the datagrams that are due: those up to the
`EAGAIN` of every event that has the socket read. The first error of a system call ends the loop
before. -/
theorem receiveEvents_refines (options : Options) (tsc : Nat → UInt64) (waits : List Wait)
    (receives : List Receive) :
    let due := arrivals (upToAgain (readable (signals waits)) receives)
    match receiveEvents options tsc waits receives {} with
    | .ok ended r =>
      receiveLoop options.messages due {} = .ok () r.handler ∧
        ended = r.handler.limitReached options.messages
    | .error e r =>
      receiveLoop options.messages due {} = .error e r.handler ∨
        ∃ used, SystemError (signals waits) receives used e ∧ used <+: receives ∧
          receiveLoop options.messages (arrivals used) {} = .ok () r.handler ∧
          r.handler.limitReached options.messages = false := by
  intro due
  have hloop := receiveEvents_finishes options tsc waits receives
  cases hres : receiveEvents options tsc waits receives {} with
  | ok ended r =>
    rw [hres] at hloop
    exact hloop
  | error e r =>
    rw [hres] at hloop
    cases hloop with
    | throws run => exact .inl run
    | system error run below => exact .inr ⟨_, error, error.isPrefix, run, below⟩

end Run

end Bmdfh.FeedHandler
