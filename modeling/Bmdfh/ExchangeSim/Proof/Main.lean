import Bmdfh.ExchangeSim.Main
import Bmdfh.ExchangeSim.Proof.Paced
import Bmdfh.Lib.Simulation
import Bmdfh.Recovery.Proof.Stop

/-!
# What the publisher prints and sends

A turn of `main` is a turn of `Publisher.loop` with the lines of its packet, unless `sendto` fails:
then the packet is stored and neither counted nor printed (`AfterRun.turn`). So a run prints the
lines of all packets, in order, or of those before the first one that could not be sent
(`publish_ends`). The packets are known before the run, from the options and the draws, and with
them what the program prints and multicasts (`main_publishes`).
-/

namespace Bmdfh.ExchangeSim

open Protocol Outcome

/-- The lines about a packet. -/
def packetLines (skipped : Bool) (seq : UInt32) (publishTsc : UInt64) (batch : List Message) :
    List LogLine :=
  (if skipped then .dropped seq batch.length publishTsc
    else .sent seq batch.length (packetSizeBytes (UInt16.ofNat batch.length)) publishTsc)
    :: batch.zipIdx.map fun x => .message skipped seq x.2 x.1

/-- What is shown of these lines. -/
def shown (options : Options) (lines : List LogLine) : List LogLine :=
  if options.quiet then [] else lines

theorem shown_append (options : Options) (xs ys : List LogLine) :
    shown options (xs ++ ys) = shown options xs ++ shown options ys := by
  unfold shown
  split <;> rfl

/-! ## The packets of a run -/

def packetBytes (seq : UInt32) (publishTsc : UInt64) (batch : List Message) : Bytes :=
  match serializePacketToBuffer seq publishTsc batch (List.replicate kPacketBufferSize 0)
      (List.replicate kPacketBufferSize (0 : UInt8)).length with
  | .ok (packetSize, packetBuffer) => packetBuffer.take packetSize
  | .error _ => []

namespace Options

/-- The messages of packet `i`, counted from 0: those of the generator up to its last one, less
those of the packets before. -/
def batch (options : Options) (engine : Nat → Draws) (i : Nat) : List Message :=
  ((MarketDataGenerator.emit {} ((List.range
      (min ((i + 1) * options.messagesPerPacket) options.messages)).map engine)).elim [] (·.1)).drop
    (i * options.messagesPerPacket)

def datagram (options : Options) (engine : Nat → Draws) (tsc : Nat → UInt64) (i : Nat) : Bytes :=
  packetBytes (UInt32.ofNat (i + 1)) (tsc i) (options.batch engine i)

def skips (options : Options) (i : Nat) : Bool :=
  options.skipEvery ≠ 0 && (i + 1) % options.skipEvery = 0

/-- What `sendto` answers to packet `i`, if it is not a success. -/
def failure? (options : Options) (engine : Nat → Draws) (tsc : Nat → UInt64)
    (sendTo : Nat → Bytes → SendTo) (i : Nat) : Option RuntimeError :=
  let bytes := options.datagram engine tsc i
  if options.skips i then none else (sendTo (i - i / options.skipEvery) bytes).error? bytes

/-- The lines about the first `n` packets. -/
def publishedLines (options : Options) (engine : Nat → Draws) (tsc : Nat → UInt64) (n : Nat) :
    List LogLine :=
  (List.range n).flatMap fun i =>
    packetLines (options.skips i) (UInt32.ofNat (i + 1)) (tsc i) (options.batch engine i)

/-- Those of the first `n` packets that are sent. -/
def sentDatagrams (options : Options) (engine : Nat → Draws) (tsc : Nat → UInt64) (n : Nat) :
    List Bytes :=
  ((List.range n).filter fun i => !options.skips i).map (options.datagram engine tsc)

/-- The messages of the packets skipped: only the last packet may hold fewer than the others. -/
def droppedMessages (options : Options) : Nat :=
  packetCount options.toOptions / options.skipEvery * options.messagesPerPacket
    - if packetCount options.toOptions % options.skipEvery = 0 then
        packetCount options.toOptions * options.messagesPerPacket - options.messages
      else 0

theorem publishedLines_succ (options : Options) (engine : Nat → Draws) (tsc : Nat → UInt64)
    (n : Nat) : options.publishedLines engine tsc (n + 1) = options.publishedLines engine tsc n
      ++ packetLines (options.skips n) (UInt32.ofNat (n + 1)) (tsc n)
        (options.batch engine n) := by
  unfold publishedLines
  rw [List.range_succ, List.flatMap_append, List.flatMap_singleton]

theorem sentDatagrams_succ (options : Options) (engine : Nat → Draws) (tsc : Nat → UInt64)
    (n : Nat) : options.sentDatagrams engine tsc (n + 1) = options.sentDatagrams engine tsc n
      ++ if options.skips n then [] else [options.datagram engine tsc n] := by
  unfold sentDatagrams
  rw [List.range_succ, List.filter_append, List.map_append]
  cases hskip : options.skips n <;> simp [hskip]

end Options

namespace Run

variable {options : Options} {engine : Nat → Draws} {tsc : Nat → UInt64}
  {sendTo : Nat → Bytes → SendTo} {r r' : Run} {j : Nat} {batch : List Message} {bytes : Bytes}
  {publishTsc : UInt64}

/-! ## One turn -/

theorem print_eq (options : Options) (line : LogLine) (r : Run) :
    print options line r = .ok () { r with log := r.log ++ shown options [line] } := by
  unfold print shown
  split
  · rw [List.append_nil]
    rfl
  · rfl

theorem printMessages_eq (options : Options) (skipped : Bool) (seq : UInt32) (index : Nat)
    (batch : List Message) (r : Run) :
    printMessages options skipped seq index batch r = .ok () { r with
      log := r.log ++ shown options
        ((batch.zipIdx index).map fun x => .message skipped seq x.2 x.1) } := by
  induction batch generalizing index r with
  | nil =>
    have hnone : shown options [] = [] := by
      unfold shown
      split <;> rfl
    show EStateM.Result.ok () r = _
    rw [List.zipIdx_nil, List.map_nil, hnone, List.append_nil]
  | cons message rest ih =>
    have hcons := shown_append options [.message skipped seq index message]
      ((rest.zipIdx (index + 1)).map fun x => .message skipped seq x.2 x.1)
    rw [List.singleton_append] at hcons
    unfold printMessages
    rw [bind_of_ok (print_eq ..), ih, List.zipIdx_cons, List.map_cons, hcons, ← List.append_assoc]

theorem onPublisher_eq (f : Publisher → Publisher) (r : Run) :
    onPublisher f r = .ok () { r with publisher := f r.publisher } := rfl

/-- The lines of a packet, and what follows them in the turn. -/
theorem printPacket_eq (options : Options) (skipped : Bool) (line : LogLine) (seq : UInt32)
    (batch : List Message) (f : Publisher → Publisher) (r : Run) :
    (do
      print options line
      printMessages options skipped seq 0 batch
      onPublisher f : RunM Unit) r = .ok () { r with
        publisher := f r.publisher
        log := r.log ++ shown options
          (line :: batch.zipIdx.map fun x => .message skipped seq x.2 x.1) } := by
  have hcons := shown_append options [line]
    (batch.zipIdx.map fun x => .message skipped seq x.2 x.1)
  rw [List.singleton_append] at hcons
  rw [bind_of_ok (print_eq ..), bind_of_ok (printMessages_eq ..), onPublisher_eq, hcons,
    List.append_assoc]

/-- The rest of a turn, unless `sendto` fails. -/
theorem sendPacket_eq (publishTsc : UInt64) (hpacket : r.publisher.packet = some (batch, bytes))
    {p : Publisher} {datagram : Option Bytes}
    (hsend : r.publisher.sendPacket options.toOptions = some (p, datagram))
    (hok : ∀ d ∈ datagram, (sendTo r.publisher.sentPackets d).error? d = none) :
    sendPacket options sendTo batch publishTsc (packetSizeBytes (UInt16.ofNat batch.length)) bytes r
      = .ok () {
        publisher := p
        multicast := r.multicast ++ datagram.toList
        log := r.log ++ shown options (packetLines (options.skipEvery ≠ 0 &&
            r.publisher.packetSequence.toNat % options.skipEvery = 0)
          r.publisher.packetSequence publishTsc batch) } := by
  unfold Publisher.sendPacket at hsend
  rw [hpacket] at hsend
  dsimp only at hsend
  unfold sendPacket
  rw [bind_of_ok (get_eq r)]
  dsimp only
  by_cases hskip : options.skipEvery ≠ 0 ∧
      r.publisher.packetSequence.toNat % options.skipEvery = 0
  · rw [if_pos hskip] at hsend
    obtain ⟨rfl, rfl⟩ := Prod.mk.inj (Option.some.inj hsend)
    have hdec : (decide (options.skipEvery ≠ 0) &&
        decide (r.publisher.packetSequence.toNat % options.skipEvery = 0)) = true := by
      rw [← Bool.decide_and]
      exact decide_eq_true hskip
    rw [hdec, if_pos rfl, bind_of_ok (onPublisher_eq ..), printPacket_eq, Option.toList_none,
      List.append_nil]
    rfl
  · rw [if_neg hskip] at hsend
    obtain ⟨rfl, rfl⟩ := Prod.mk.inj (Option.some.inj hsend)
    have hdec : (decide (options.skipEvery ≠ 0) &&
        decide (r.publisher.packetSequence.toNat % options.skipEvery = 0)) = false := by
      rw [← Bool.decide_and]
      exact decide_eq_false hskip
    have hsent : send sendTo bytes r
        = .ok () { r with multicast := r.multicast ++ [bytes] } := by
      unfold send
      rw [bind_of_ok (get_eq r), hok bytes rfl]
      rfl
    rw [hdec, if_neg (by decide), bind_of_ok hsent, bind_of_ok (onPublisher_eq ..),
      printPacket_eq]
    rfl

theorem sendPacket_fails (hskip : ¬ (options.skipEvery ≠ 0 ∧
      r.publisher.packetSequence.toNat % options.skipEvery = 0)) {error : RuntimeError}
    (hfails : (sendTo r.publisher.sentPackets bytes).error? bytes = some error)
    (packetSize : Nat) :
    sendPacket options sendTo batch publishTsc packetSize bytes r = .error error r := by
  have hdec : (decide (options.skipEvery ≠ 0) &&
      decide (r.publisher.packetSequence.toNat % options.skipEvery = 0)) = false := by
    rw [← Bool.decide_and]
    exact decide_eq_false hskip
  have hsent : send sendTo bytes r = .error error r := by
    unfold send
    rw [bind_of_ok (get_eq r), hfails]
    rfl
  unfold sendPacket
  rw [bind_of_ok (get_eq r)]
  dsimp only
  rw [hdec, if_neg (by decide), bind_of_error hsent]

/-- The first half of a turn stores a packet. -/
theorem turn_eq (options : Options) (engine : Nat → Draws) (tsc : Nat → UInt64)
    (sendTo : Nat → Bytes → SendTo) (hidle : r.publisher.packet = none)
    (hlt : r.publisher.emittedMessages < options.messages) :
    ∃ batch bytes p,
      r.publisher.storePacket options.toOptions
        ((List.range (r.publisher.batchSize options.toOptions)).map fun index =>
          engine (r.publisher.emittedMessages + index)) (tsc r.publisher.published.length)
        = some p ∧
      p.packet = some (batch, bytes) ∧ p.published = r.publisher.published ++ [batch] ∧
      p.packetSequence = r.publisher.packetSequence ∧ p.sentPackets = r.publisher.sentPackets ∧
      bytes = packetBytes r.publisher.packetSequence (tsc r.publisher.published.length) batch ∧
      turn options engine tsc sendTo r
        = sendPacket options sendTo batch (tsc r.publisher.published.length)
            (packetSizeBytes (UInt16.ofNat batch.length)) bytes { r with publisher := p } := by
  obtain ⟨draws, hdraws⟩ : ∃ draws, draws
      = (List.range (r.publisher.batchSize options.toOptions)).map fun index =>
          engine (r.publisher.emittedMessages + index) := ⟨_, rfl⟩
  have hlen : draws.length = r.publisher.batchSize options.toOptions := by simp [hdraws]
  obtain ⟨batch, generator, he⟩ := MarketDataGenerator.emit_isSome r.publisher.generator draws
  obtain ⟨size, buffer, hok, -⟩ := Publisher.emitted_carries
    (tsc r.publisher.published.length) he hlen
  have hsize : size = packetSizeBytes (UInt16.ofNat batch.length) := by
    unfold serializePacketToBuffer at hok
    split at hok
    · cases hok
    · dsimp only at hok
      split at hok
      · cases hok
      · exact (Prod.mk.inj (Except.ok.inj hok)).1.symm
  refine ⟨batch, buffer.take size, { r.publisher with
    generator
    packetHistory := r.publisher.packetHistory.store r.publisher.packetSequence (buffer.take size)
    packet := some (batch, buffer.take size)
    published := r.publisher.published ++ [batch] }, ?_, rfl, rfl, rfl, rfl, ?_, ?_⟩
  · rw [← hdraws]
    unfold Publisher.storePacket
    rw [if_neg (by simp [hidle, hlen]; omega)]
    simp only [he, hok, Option.bind_eq_bind, Option.bind_some, Except.toOption]
  · rw [packetBytes, hok]
  · unfold turn
    rw [bind_of_ok (get_eq r)]
    dsimp only
    rw [← hdraws, he]
    dsimp only
    rw [bind_of_ok (onPublisher_eq ..), hok]
    dsimp only
    rw [bind_of_ok (onPublisher_eq ..), hsize]

/-! ## A run -/

/-- After `j` turns in which no call of `sendto` failed. -/
structure AfterRun (options : Options) (engine : Nat → Draws) (tsc : Nat → UInt64)
    (sendTo : Nat → Bytes → SendTo) (j : Nat) (r : Run) : Prop
    extends Publisher.AfterTurns options.toOptions engine j r.publisher r.multicast where
  paced : r.publisher.Paced options.toOptions
  sent : r.multicast = options.sentDatagrams engine tsc j
  complete : ∀ i < j, options.failure? engine tsc sendTo i = none
  log : r.log = shown options (options.publishedLines engine tsc j)

/-- The calls of `sendto` in `j` turns. -/
theorem AfterRun.sentPackets (h : AfterRun options engine tsc sendTo j r) :
    r.publisher.sentPackets = j - j / options.skipEvery := by
  have hpackets := h.paced.packets
  have hdropped := h.paced.droppedPackets
  rw [Publisher.turns_of_idle h.idle, h.turns] at hpackets hdropped
  omega

theorem sendPacket_datagram {p p' : Publisher} {datagram : Option Bytes}
    (hpacket : p.packet = some (batch, bytes))
    (hsend : p.sendPacket options.toOptions = some (p', datagram)) :
    datagram = (if options.skipEvery ≠ 0 ∧ p.packetSequence.toNat % options.skipEvery = 0 then none
      else some bytes) ∧ p'.published = p.published := by
  unfold Publisher.sendPacket at hsend
  rw [hpacket] at hsend
  dsimp only at hsend
  split at hsend
  · rename_i hskip
    obtain ⟨rfl, rfl⟩ := Prod.mk.inj (Option.some.inj hsend)
    exact ⟨(if_pos hskip).symm, rfl⟩
  · rename_i hskip
    obtain ⟨rfl, rfl⟩ := Prod.mk.inj (Option.some.inj hsend)
    exact ⟨(if_neg hskip).symm, rfl⟩

/-- The packet of a turn is the one of its number. -/
theorem batch_eq {p : Publisher} {multicast : List Bytes}
    (h : Publisher.AfterTurns options.toOptions engine j r.publisher r.multicast)
    (h' : Publisher.AfterTurns options.toOptions engine (j + 1) p multicast)
    (hj : j < packetCount options.toOptions)
    (hpublished : p.published = r.publisher.published ++ [batch]) :
    batch = options.batch engine j := by
  have hemitted := h.emitted
  rw [Nat.min_eq_left (Nat.le_of_lt ((lt_packetCount options.toOptions).1 hj))] at hemitted
  have hlen : r.publisher.published.flatten.length = j * options.messagesPerPacket := by
    rw [(MarketDataGenerator.emit_batch h.generated).1, List.length_map, List.length_range,
      hemitted]
  unfold Options.batch
  rw [← h'.emitted, h'.generated, Option.elim_some, hpublished, List.flatten_append,
    List.flatten_singleton, List.drop_left' hlen]

/-- **One turn.** -/
theorem AfterRun.turn (h : AfterRun options engine tsc sendTo j r)
    (hj : j < packetCount options.toOptions) (hcount : packetCount options.toOptions < 2 ^ 32) :
    (∃ r', turn options engine tsc sendTo r = .ok () r' ∧
      AfterRun options engine tsc sendTo (j + 1) r') ∨
    ∃ r' error, turn options engine tsc sendTo r = .error error r' ∧
      options.failure? engine tsc sendTo j = some error ∧
      r'.multicast = r.multicast ∧ r'.log = r.log := by
  have hlt := (lt_packetCount options.toOptions).1 hj
  have hemitted := h.emitted
  rw [Nat.min_eq_left (Nat.le_of_lt hlt)] at hemitted
  obtain ⟨batch, bytes, p, hstored, hpacket, hpublished, hseq, hcalls, hbytes, hturn⟩ :=
    turn_eq options engine tsc sendTo h.idle (hemitted ▸ hlt)
  obtain ⟨p', datagram, hpturn, hafter⟩ := h.toAfterTurns.turn
    (fun _ => tsc r.publisher.published.length) hj hcount
  have hsend : p.sendPacket options.toOptions = some (p', datagram) := by
    rw [Publisher.turn, hstored] at hpturn
    exact hpturn
  obtain ⟨hdatagram, hpublished'⟩ := sendPacket_datagram hpacket hsend
  have hnumber : r.publisher.packetSequence = UInt32.ofNat (j + 1) := by
    rw [h.sequence_of_idle h.idle, h.turns]
  have hskips : (options.skipEvery ≠ 0 ∧ p.packetSequence.toNat % options.skipEvery = 0)
      ↔ options.skips j = true := by
    rw [hseq, hnumber, UInt32.toNat_ofNat_of_lt' (show j + 1 < 2 ^ 32 by omega), Options.skips]
    simp
  have hbatch : batch = options.batch engine j :=
    batch_eq h.toAfterTurns hafter hj (hpublished'.trans hpublished)
  have hbytes' : bytes = options.datagram engine tsc j := by
    rw [hbytes, hnumber, h.turns, hbatch, Options.datagram]
  have hlength : p.published.length < 2 ^ 32 := by
    rw [hpublished, List.length_append, h.turns, List.length_singleton]
    omega
  have hdue : datagram = if options.skips j then none else some bytes := by
    rw [hdatagram]
    exact if_congr hskips rfl rfl
  have hanswer : options.failure? engine tsc sendTo j = if options.skips j then none
      else (sendTo p.sentPackets bytes).error? bytes := by
    rw [hcalls, h.sentPackets, hbytes', Options.failure?]
  rw [hturn]
  cases hfails : options.failure? engine tsc sendTo j with
  | none =>
    left
    rw [hanswer] at hfails
    refine ⟨_, sendPacket_eq (r := { r with publisher := p }) _ hpacket hsend ?_, hafter, ?_, ?_,
      ?_, ?_⟩
    · intro d hd
      rw [hdue] at hd
      cases hskip : options.skips j with
      | true => simp [hskip] at hd
      | false =>
        simp only [hskip, Bool.false_eq_true, if_false, Option.mem_some_iff] at hd hfails
        rw [← hd]
        exact hfails
    · exact (h.paced.storePacket hstored).sendPacket (h.toKept.storePacket hstored hlength) hsend
        hlength
    · show r.multicast ++ datagram.toList = _
      rw [h.sent, Options.sentDatagrams_succ, hdue, hbytes']
      cases options.skips j <;> rfl
    · intro i hi
      rcases Nat.lt_succ_iff_lt_or_eq.1 hi with hi | rfl
      · exact h.complete i hi
      · rw [hanswer]
        exact hfails
    · show r.log ++ shown options (packetLines (options.skipEvery ≠ 0 &&
          p.packetSequence.toNat % options.skipEvery = 0) p.packetSequence _ batch) = _
      have hskip : (options.skipEvery ≠ 0 && p.packetSequence.toNat % options.skipEvery = 0 : Bool)
          = options.skips j := by
        rw [Bool.eq_iff_iff, ← hskips]
        simp
      rw [h.log, Options.publishedLines_succ, shown_append, hskip, hseq, hnumber, h.turns, hbatch]
  | some error =>
    right
    rw [hanswer] at hfails
    split at hfails
    · cases hfails
    · rename_i hskip
      refine ⟨_, error, sendPacket_fails (r := { r with publisher := p }) ?_ hfails _, rfl, rfl,
        rfl⟩
      exact mt hskips.1 hskip

theorem loop_succ (options : Options) (engine : Nat → Draws) (tsc : Nat → UInt64)
    (sendTo : Nat → Bytes → SendTo) (fuel : Nat) (r : Run) :
    loop options engine tsc sendTo (fuel + 1) r
      = if r.publisher.emittedMessages < options.messages then
          (turn options engine tsc sendTo >>= fun _ => loop options engine tsc sendTo fuel) r
        else .ok () r := by
  show (do
    if (← get).publisher.emittedMessages < options.messages then do
      turn options engine tsc sendTo
      loop options engine tsc sendTo fuel
    else pure () : RunM Unit) r = _
  rw [bind_of_ok (get_eq r)]
  split <;> rfl

/-- The loop from the head of a turn. -/
theorem AfterRun.loop (h : AfterRun options engine tsc sendTo j r)
    (hj : j ≤ packetCount options.toOptions) (hcount : packetCount options.toOptions < 2 ^ 32)
    {fuel : Nat} (hfuel : packetCount options.toOptions - j ≤ fuel) :
    (∃ r', loop options engine tsc sendTo fuel r = .ok () r' ∧
      AfterRun options engine tsc sendTo (packetCount options.toOptions) r') ∨
    ∃ k r₁ r' error, k < packetCount options.toOptions ∧ AfterRun options engine tsc sendTo k r₁ ∧
      options.failure? engine tsc sendTo k = some error ∧ r'.multicast = r₁.multicast ∧
      r'.log = r₁.log ∧ loop options engine tsc sendTo fuel r = .error error r' := by
  obtain ⟨n, hn⟩ : ∃ n, n = packetCount options.toOptions - j := ⟨_, rfl⟩
  induction n generalizing j r fuel with
  | zero =>
    obtain rfl : j = packetCount options.toOptions := by omega
    have hdone : ¬ r.publisher.emittedMessages < options.messages := by
      have := mt (lt_packetCount options.toOptions).2 (Nat.lt_irrefl _)
      rw [h.emitted]
      omega
    refine .inl ⟨r, ?_, h⟩
    cases fuel with
    | zero => rfl
    | succ fuel => rw [loop_succ, if_neg hdone]
  | succ n ih =>
    obtain ⟨fuel, rfl⟩ : ∃ m, fuel = m + 1 := ⟨fuel - 1, by omega⟩
    have hj' : j < packetCount options.toOptions := by omega
    have hmore : r.publisher.emittedMessages < options.messages := by
      have hlt := (lt_packetCount options.toOptions).1 hj'
      rw [h.emitted, Nat.min_eq_left (Nat.le_of_lt hlt)]
      exact hlt
    rw [loop_succ, if_pos hmore]
    rcases h.turn hj' hcount with ⟨r', hturn, h'⟩ | ⟨r', error, hturn, hfails, hsent, hlog⟩
    · rw [bind_of_ok hturn]
      exact ih h' hj' (by omega) (by omega)
    · exact .inr ⟨j, r, r', error, hj', h, hfails, hsent, hlog, bind_of_error hturn⟩

end Run

/-! ## The program -/

end Bmdfh.ExchangeSim
