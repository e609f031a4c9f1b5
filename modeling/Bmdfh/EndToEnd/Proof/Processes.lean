import Bmdfh.EndToEnd.Processes
import Bmdfh.EndToEnd.Proof.Agreement
import Bmdfh.ExchangeSim.Proof.Main
import Bmdfh.FeedHandler.Proof.Reports

/-!
# What the two programs print, side by side

The programs with what they print move as the group does (`Step.refines`), so that its `Sound` holds
of them. What is printed about messages then follows from the messages published: the publisher has
printed the text of each message sent or dropped, a handler has reported as many as it has received,
each with the book behind it (`lines_agree`).
-/

namespace Bmdfh

open Std OrdMap Protocol Outcome Handler

/-! ## The group behind the programs -/

namespace Process

variable {options : FeedHandler.Options} {tsc : Nat → UInt64} {recovery : Recovery}
  {served : Prop} {m m' : Process}

theorem Step.refines (h : Step options tsc recovery served m m') :
    Member.Step options.messages recovery served m.member m'.member := by
  cases h with
  | lose lost => exact .lose (m := m.member) lost
  | duplicate mem => exact .duplicate (m := m.member) mem
  | receive idle goesOn arrives => exact .receive (m := m.member) idle goesOn arrives
  | @handle received run busy answered returns =>
    have hproj := FeedHandler.Run.handleDatagram_projects options tsc recovery received m.run
    rw [returns] at hproj
    obtain ⟨_, hres, rfl⟩ := hproj.to_ok
    exact .handle (m := m.member) busy answered hres
  | @throw received run error busy answered throws =>
    have hproj := FeedHandler.Run.handleDatagram_projects options tsc recovery received m.run
    rw [throws] at hproj
    obtain ⟨_, hres, rfl⟩ := hproj.to_error
    exact .throw (m := m.member) busy answered hres

end Process

/-! ## The messages published -/

/-- The messages of the packets, each with its place. -/
def placedAll (packets : List (List Message)) : List Placed :=
  packets.zipIdx.flatMap fun x => placedFrom (UInt32.ofNat (x.2 + 1)) 0 x.1

theorem placedAll_concat (packets : List (List Message)) (batch : List Message) :
    placedAll (packets ++ [batch]) = placedAll packets
      ++ placedFrom (UInt32.ofNat (packets.length + 1)) 0 batch := by
  unfold placedAll
  rw [List.zipIdx_append, List.flatMap_append]
  simp

/-- What is published later comes behind. -/
theorem placedAll_append (packets new : List (List Message)) :
    placedAll packets <+: placedAll (packets ++ new) := by
  unfold placedAll
  rw [List.zipIdx_append, List.flatMap_append]
  exact List.prefix_append ..

theorem map_placedAll (packets : List (List Message)) :
    (placedAll packets).map Placed.message = packets.flatten := by
  induction packets using List.reverseRecOn with
  | nil => rfl
  | append_singleton packets batch ih =>
    rw [placedAll_concat, List.map_append, ih, List.flatten_append, List.flatten_singleton]
    simp [placedFrom, Function.comp_def]

theorem length_placedAll (packets : List (List Message)) :
    (placedAll packets).length = packets.flatten.length := by
  rw [← map_placedAll, List.length_map]

def Publisher.placed (p : Publisher) : List Placed := placedAll p.published

/-- The packets before the `i`-th, and `k` messages of it. -/
theorem Publisher.placed_take (p : Publisher) {i k : Nat} (hi : i < p.published.length)
    (hk : k ≤ p.published[i].length) :
    p.placed.take ((p.published.take i).flatten.length + k)
      = p.placed.take (p.published.take i).flatten.length
        ++ (placedFrom (UInt32.ofNat (i + 1)) 0 p.published[i]).take k := by
  obtain ⟨others, hothers⟩ := placedAll_append (p.published.take (i + 1))
    (p.published.drop (i + 1))
  rw [List.take_append_drop, List.take_succ_eq_append_getElem hi, placedAll_concat,
    List.length_take, Nat.min_eq_left (Nat.le_of_lt hi), List.append_assoc] at hothers
  rw [← length_placedFrom (UInt32.ofNat (i + 1)) 0] at hk
  unfold Publisher.placed
  rw [← hothers, ← length_placedAll, List.take_length_add_append, List.take_left,
    List.take_append_of_le_length hk]

/-! ## A handler -/

/-- The handler has processed the first packets, and has reported what it has received. -/
structure Reports (options : FeedHandler.Options) (p : Publisher) (r : FeedHandler.Run) : Prop where
  synced : ∃ n, Synced options.messages p r.handler n
  reports : options.benchmark = false →
    r.reports = reportsFrom {} (p.placed.take r.handler.receivedMessages)

section
variable {options : FeedHandler.Options} {tsc : Nat → UInt64} {p p' : Publisher}
  {r r' : FeedHandler.Run}

/-- Published packets are fed to the handler. -/
theorem feeds_published (options : FeedHandler.Options) (tsc : Nat → UInt64) (hk : p.Kept)
    (hlt : p.published.length < 2 ^ 32 - 1) :
    FeedHandler.Run.Feeds options tsc (fun bytes => ∃ i, p.Published bytes i)
      (Reports options p) where
  process := by
    intro r r' packetBytes source hI hQ hl hok
    obtain ⟨n, hs⟩ := hI.synced
    obtain ⟨i, hi, hget⟩ := hQ
    obtain ⟨bytes, hget', hc⟩ := hk.history i hi
    obtain rfl : packetBytes = bytes := Option.some.inj (hget.symm.trans hget')
    obtain ⟨packet, hp, hseq, hcomplete, hmessages⟩ := hc.parsed
    have hhandler := FeedHandler.Run.processPacketBytes_handler hok
    -- the packet is the next one
    obtain rfl : i = n := by
      obtain ⟨packet', _, hp', hseq', -⟩ := processPacketBytes_ok hl hhandler
      obtain rfl : packet = packet' := Option.some.inj (hp.symm.trans hp')
      have hnumber := congrArg UInt32.toNat (hseq.symm.trans (hseq'.trans hs.expected))
      rw [toNat_seqNum hlt (Nat.le_of_lt hi), toNat_seqNum hlt hs.le] at hnumber
      omega
    obtain ⟨h', hres, hs', -⟩ := hs.process hl hi hc source
    obtain rfl : h' = r'.handler := by
      cases hres.symm.trans hhandler
      rfl
    refine ⟨⟨_, hs'⟩, fun hv => ?_⟩
    obtain ⟨k, hk, hreceived, hreports⟩ :=
      FeedHandler.Run.processPacketBytes_reports hv hp hcomplete hok
    rw [hmessages] at hk hreports
    rw [hreports, hI.reports hv, hreceived, hs.received_eq hl, p.placed_take hi hk,
      reportsFrom_append, hs.expected]
    congr 2
    rw [hs.orderBook, hs.received_eq hl, List.map_take, Publisher.placed, map_placedAll]
  handler := by
    intro r h hbook hreceived hexpected hI
    obtain ⟨n, hs⟩ := hI.synced
    refine ⟨⟨n, hs.le, hexpected.trans hs.expected, hreceived.trans hs.received, ?_⟩, fun hv => ?_⟩
    · rw [hreceived]
      exact hbook.trans hs.orderBook
    · show r.reports = _
      rw [hreceived]
      exact hI.reports hv
  line := by
    intro r line hline hI
    refine ⟨hI.synced, fun hv => ?_⟩
    rw [← hI.reports hv]
    simp [FeedHandler.Run.reports, hline]

theorem Reports.received_le (hs : Reports options p r) :
    r.handler.receivedMessages ≤ p.placed.length := by
  obtain ⟨n, hn⟩ := hs.synced
  rw [Publisher.placed, length_placedAll]
  refine Nat.le_trans hn.received_le ?_
  conv_rhs => rw [← List.take_append_drop n p.published]
  rw [List.flatten_append, List.length_append]
  exact Nat.le_add_right ..

theorem Reports.extend (hs : Reports options p r) (hext : p.Extends p') : Reports options p' r := by
  obtain ⟨n, hn⟩ := hs.synced
  refine ⟨⟨n, hn.extend hext⟩, fun hv => ?_⟩
  obtain ⟨new, hnew⟩ := hext.published
  obtain ⟨others, hothers⟩ := placedAll_append p.published new
  have hplaced : p'.placed = p.placed ++ others := by
    rw [Publisher.placed, ← hnew]
    exact hothers.symm
  rw [hs.reports hv, hplaced, List.take_append_of_le_length hs.received_le]

end

/-! ## The publisher -/

namespace ExchangeSim

/-- What a line says of a message. -/
def LogLine.described? : LogLine → Option String
  | .message _ seq index m => some (describe seq index m)
  | _ => none

def Run.texts (r : Run) : List String := r.log.filterMap LogLine.described?

/-- The lines about messages. -/
def Run.messageLines (r : Run) : List String :=
  (r.log.filter fun line => line.described?.isSome).map LogLine.text

theorem LogLine.text_of_described {line : LogLine} {text : String}
    (h : line.described? = some text) :
    ∃ skipped : Bool, line.text = "  " ++ (if skipped then "drop " else "send ") ++ text := by
  cases line with
  | message skipped seq index m =>
    cases h
    exact ⟨skipped, rfl⟩
  | _ => cases h

/-- In front of a text is what has become of its packet. -/
theorem Run.messageLines_eq (r : Run) : ∃ skipped : List Bool,
    skipped.length = r.texts.length ∧ r.messageLines
      = List.zipWith (fun skipped text => "  " ++ (if skipped then "drop " else "send ") ++ text)
        skipped r.texts :=
  exists_zipWith_filterMap _ (fun _ _ => LogLine.text_of_described) r.log

theorem texts_packetLines (skipped : Bool) (seq : UInt32) (publishTsc : UInt64)
    (batch : List Message) : (packetLines skipped seq publishTsc batch).filterMap
      LogLine.described? = (placedFrom seq 0 batch).map Placed.text := by
  have hmessages : (batch.zipIdx.map fun x => LogLine.message skipped seq x.2 x.1).filterMap
      LogLine.described? = (placedFrom seq 0 batch).map Placed.text := by
    rw [List.filterMap_map, placedFrom, List.map_map]
    exact congrFun (List.filterMap_eq_map (f := fun x : Message × Nat => describe seq x.2 x.1)) _
  unfold packetLines
  rw [List.filterMap_cons_none, hmessages]
  split
  · rfl
  · rfl

end ExchangeSim

/-- What the publisher has stored is what it has published, and it has printed what it has sent or
dropped. -/
structure Prints (options : ExchangeSim.Options) (r : ExchangeSim.Run) : Prop where
  stored : ∀ (k : UInt32) (bytes : Bytes), r.publisher.packetHistory[k]? = some bytes →
    ∃ i, r.publisher.Published bytes i
  last : ∀ batch bytes, r.publisher.packet = some (batch, bytes) →
    ∃ before, r.publisher.published = before ++ [batch]
  texts : options.quiet = false →
    r.texts = (r.publisher.placed.take r.publisher.emittedMessages).map Placed.text

section
variable {options : ExchangeSim.Options} {r r' : ExchangeSim.Run} {p : Publisher}

theorem prints_init (options : ExchangeSim.Options) : Prints options {} := by
  refine ⟨fun k bytes hget => ?_, nofun, fun _ => rfl⟩
  change (∅ : PacketHistory)[k]? = _ at hget
  simp at hget

theorem Prints.store (hr : Prints options r) (hk : r.publisher.Kept)
    (hpaced : r.publisher.Paced options.toOptions) {draws : List Draws} {stamp : UInt64}
    (stored : r.publisher.storePacket options.toOptions draws stamp = some p)
    (hlt : p.published.length < 2 ^ 32) : Prints options { r with publisher := p } := by
  have hext := extends_storePacket hk stored hlt
  obtain ⟨hidle, batch, generator, bytes, hc, -, rfl⟩ := Publisher.storePacket_eq_some stored
  have hnumber := hk.sequence_of_idle hidle
  have hemitted := hpaced.stored
  rw [hidle, Option.elim_none, Nat.add_zero] at hemitted
  refine ⟨fun k d hget => ?_, ?_, fun hq => ?_⟩
  · change (r.publisher.packetHistory.insert r.publisher.packetSequence bytes)[k]? = some d at hget
    rw [get_insert] at hget
    split at hget
    · cases hget
      refine ⟨r.publisher.published.length, by simp, ?_⟩
      show (r.publisher.packetHistory.insert r.publisher.packetSequence bytes)[_]? = _
      rw [hnumber, get_insert_self]
    · obtain ⟨i, hi⟩ := hr.stored k d hget
      exact ⟨i, hi.extend hext⟩
  · rintro batch' bytes' ⟨⟩
    exact ⟨_, rfl⟩
  · obtain ⟨others, hothers⟩ := placedAll_append r.publisher.published [batch]
    show r.texts = ((placedAll (r.publisher.published ++ [batch])).take
      r.publisher.emittedMessages).map _
    rw [← hothers, List.take_append_of_le_length (by rw [length_placedAll, hemitted])]
    exact hr.texts hq

/-- The lines of a packet, once it is sent or dropped. -/
theorem Prints.send (hr : Prints options r) (hk : r.publisher.Kept)
    (hpaced : r.publisher.Paced options.toOptions) {batch : List Message} {bytes : Bytes}
    {stamp : UInt64} {datagram : Option Bytes} {skipped : Bool}
    (hstored : r.publisher.packet = some (batch, bytes))
    (hsend : r.publisher.sendPacket options.toOptions = some (r'.publisher, datagram))
    (hlog : r'.log = r.log ++ ExchangeSim.shown options
      (ExchangeSim.packetLines skipped r.publisher.packetSequence stamp batch)) :
    Prints options r' := by
  obtain ⟨batch', bytes', hstored', hsends⟩ := Publisher.sendPacket_eq_some hsend
  cases hstored.symm.trans hstored'
  obtain ⟨before, hbefore⟩ := hr.last _ _ hstored
  have hemitted := hpaced.stored
  rw [hstored, Option.elim_some, hbefore, List.flatten_append, List.length_append,
    List.flatten_singleton] at hemitted
  dsimp only at hemitted
  refine ⟨fun k d hget => ?_, fun _ _ hpacket => ?_, fun hq => ?_⟩
  · rw [hsends.packetHistory] at hget
    obtain ⟨i, hi⟩ := hr.stored k d hget
    exact ⟨i, hi.extend (extends_sendPacket hsend)⟩
  · rw [hsends.packet] at hpacket
    cases hpacket
  · have hnumber : r.publisher.packetSequence = UInt32.ofNat (before.length + 1) := by
      rw [hk.sequence_of_packet hstored, hbefore, List.length_append, List.length_singleton]
    have hplaced : placedAll (before ++ [batch]) = placedAll before
        ++ placedFrom r.publisher.packetSequence 0 batch := by
      rw [placedAll_concat, hnumber]
    have htake : (placedAll (before ++ [batch])).take r.publisher.emittedMessages
        = placedAll before := by
      rw [hplaced, List.take_append_of_le_length (by rw [length_placedAll]; omega),
        List.take_of_length_le (by rw [length_placedAll]; omega)]
    have htexts := hr.texts hq
    rw [Publisher.placed, hbefore, htake] at htexts
    rw [ExchangeSim.Run.texts, hlog, ExchangeSim.shown, if_neg (by simp [hq]),
      List.filterMap_append, ExchangeSim.texts_packetLines, ← ExchangeSim.Run.texts, htexts,
      Publisher.placed, hsends.published, hbefore, hsends.emitted, ← List.map_append, ← hplaced,
      List.take_of_length_le]
    rw [length_placedAll, List.flatten_append, List.length_append, List.flatten_singleton]
    omega

end

namespace Processes

variable {ι : Type} [DecidableEq ι] {options : ExchangeSim.Options}
  {handlerOptions : ι → FeedHandler.Options} {publishTsc : Nat → UInt64} {tsc : ι → Nat → UInt64}
  {s s' : Processes ι}

theorem group_update (s : Processes ι) (i : ι) (m : Process) :
    group { s with handler := Function.update s.handler i m }
      = { s.group with member := Function.update s.group.member i m.member } := by
  have hmember : (fun j => (Function.update s.handler i m j).member)
      = Function.update s.group.member i m.member := by
    funext j
    by_cases hj : j = i
    · subst hj
      rw [Function.update_self, Function.update_self]
    · rw [Function.update_of_ne hj, Function.update_of_ne hj]
      rfl
  unfold group
  rw [hmember]
  rfl

/-- What the publisher does when it sends a packet. -/
theorem exists_sendPacket (options : ExchangeSim.Options) {r : ExchangeSim.Run}
    {batch : List Message} {bytes : Bytes} (stamp : UInt64)
    (stored : r.publisher.packet = some (batch, bytes)) : ∃ r' datagram skipped,
      ExchangeSim.Run.sendPacket options sendTo batch stamp
        (packetSizeBytes (UInt16.ofNat batch.length)) bytes r = .ok () r' ∧
      r.publisher.sendPacket options.toOptions = some (r'.publisher, datagram) ∧
      r'.multicast = r.multicast ++ datagram.toList ∧
      r'.log = r.log ++ ExchangeSim.shown options
        (ExchangeSim.packetLines skipped r.publisher.packetSequence stamp batch) := by
  obtain ⟨p', datagram, hsend, -⟩ := Publisher.sendPacket_of_packet options.toOptions stored
  have hrun := ExchangeSim.Run.sendPacket_eq stamp stored hsend
    fun d _ => show (sendTo _ d).error? d = none by simp [sendTo, ExchangeSim.SendTo.error?]
  exact ⟨_, datagram, _, hrun, hsend, rfl, rfl⟩

theorem sendPacket_run {r r' : ExchangeSim.Run} {batch : List Message} {bytes : Bytes}
    {stamp : UInt64} (stored : r.publisher.packet = some (batch, bytes))
    (sent : ExchangeSim.Run.sendPacket options sendTo batch stamp
      (packetSizeBytes (UInt16.ofNat batch.length)) bytes r = .ok () r') :
    ∃ datagram skipped,
      r.publisher.sendPacket options.toOptions = some (r'.publisher, datagram) ∧
      r'.multicast = r.multicast ++ datagram.toList ∧
      r'.log = r.log ++ ExchangeSim.shown options
        (ExchangeSim.packetLines skipped r.publisher.packetSequence stamp batch) := by
  obtain ⟨_, datagram, skipped, hrun, hfacts⟩ := exists_sendPacket options stamp stored
  cases hrun.symm.trans sent
  exact ⟨datagram, skipped, hfacts⟩

theorem Step.refines (h : Step options handlerOptions publishTsc tsc s s') :
    Group.Step options.toOptions (fun i => (handlerOptions i).messages) s.group s'.group := by
  cases h with
  | store stored => exact .store (s := s.group) stored
  | @send batch bytes run stored sent =>
    obtain ⟨datagram, _, hsend, hmulticast, -⟩ := sendPacket_run stored sent
    rw [hmulticast, List.drop_left]
    exact .send (s := s.group) hsend
  | accept free requests => exact .accept (s := s.group) free requests
  | leave serves ended => exact .leave (s := s.group) serves ended
  | handler i step =>
    rw [group_update]
    exact .member (s := s.group) i step.refines

theorem Reachable.group (h : Reachable options handlerOptions publishTsc tsc s) :
    Group.Reachable options.toOptions (fun i => (handlerOptions i).messages) s.group := by
  induction h with
  | refl => exact .refl
  | tail _ hstep ih => exact ih.tail hstep.refines

/-! ## All of them -/

/-- What has been printed. -/
structure Told (options : ExchangeSim.Options) (handlerOptions : ι → FeedHandler.Options)
    (s : Processes ι) : Prop where
  publisher : Prints options s.publisher
  handlers : ∀ i, Reports (handlerOptions i) s.publisher.publisher (s.handler i).run

omit [DecidableEq ι] in
theorem told_init (options : ExchangeSim.Options) (handlerOptions : ι → FeedHandler.Options) :
    Told options handlerOptions {} := by
  refine ⟨prints_init options, fun i => ⟨⟨0, Nat.le_refl _, rfl, ?_, rfl⟩, fun _ => rfl⟩⟩
  show 0 = capped _ 0
  unfold capped
  split
  · rfl
  · exact (Nat.min_zero _).symm

/-- **One step.** -/
theorem Step.told (h : Step options handlerOptions publishTsc tsc s s')
    (hs : s.group.Sound options.toOptions fun i => (handlerOptions i).messages)
    (hlt : s'.publisher.publisher.published.length < 2 ^ 32 - 1)
    (ht : Told options handlerOptions s) : Told options handlerOptions s' := by
  cases h with
  | @store draws publisher stored =>
    have hlt : publisher.published.length < 2 ^ 32 - 1 := hlt
    refine ⟨ht.publisher.store hs.kept hs.paced stored (by omega), fun i => ?_⟩
    exact (ht.handlers i).extend (extends_storePacket hs.kept stored (by omega))
  | @send batch bytes run stored sent =>
    obtain ⟨datagram, skipped, hsend, -, hlog⟩ := sendPacket_run stored sent
    refine ⟨ht.publisher.send hs.kept hs.paced stored hsend hlog, fun i => ?_⟩
    exact (ht.handlers i).extend (extends_sendPacket hsend)
  | accept => exact ⟨ht.publisher, ht.handlers⟩
  | leave => exact ⟨ht.publisher, ht.handlers⟩
  | @handler m i step =>
    refine ⟨ht.publisher, fun j => ?_⟩
    show Reports _ _ (Function.update s.handler i m j).run
    by_cases hj : j = i
    · subst hj
      rw [Function.update_self]
      have hreports := ht.handlers j
      cases step with
      | lose => exact hreports
      | duplicate => exact hreports
      | receive => exact hreports
      | @handle received run busy answered returns =>
        have hphase := (hs.members j).phase
        change Member.SoundPhase _ _ _ (s.handler j).phase at hphase
        rw [busy] at hphase
        obtain ⟨n, i, hn, hl, hi, -⟩ := hphase
        refine (feeds_published (handlerOptions j) (tsc j) hs.kept hlt).handleDatagram hreports
          (fun seq bytes hget => ?_) ⟨i, hi⟩ (fun startSeq endSeq batch hbatch bytes hmem => ?_) hl
          returns
        · change (s.group.member j).handler.bufferedPackets[seq]? = some bytes at hget
          rw [hn.parked hl] at hget
          simp at hget
        · -- the replies come from the history
          cases hbatch
          rw [PacketHistory.lookupRange_eq] at hmem
          obtain ⟨k, -, hget⟩ := List.mem_filterMap.1 hmem
          exact ht.publisher.stored k bytes hget
      | @throw received run error busy answered throws =>
        obtain ⟨h', n, hok, -⟩ := (hs.members j).handle hs.kept hlt busy
        have hproj := FeedHandler.Run.handleDatagram_projects (handlerOptions j) (tsc j)
          s.group.recovery received (s.handler j).run
        rw [throws] at hproj
        obtain ⟨_, hres, -⟩ := hproj.to_error
        cases hok.symm.trans hres
    · rw [Function.update_of_ne hj]
      exact ht.handlers j

/-- **Run lemma.** -/
theorem Reachable.told (h : Reachable options handlerOptions publishTsc tsc s)
    (hlt : s.publisher.publisher.published.length < 2 ^ 32 - 1) :
    Told options handlerOptions s := by
  induction h with
  | refl => exact told_init options handlerOptions
  | tail hrun hstep ih =>
    have hle := Nat.lt_of_le_of_lt hstep.refines.published_le hlt
    exact hstep.told (Group.Reachable.sound (Reachable.group hrun) hle) hlt (ih hle)

/-- **What is printed.** Without `--quiet` the publisher has printed the text of every message it
has sent or dropped; without `--benchmark` a handler has reported the messages it has received, each
in the same text and with the book behind it. -/
theorem lines_agree (options : ExchangeSim.Options) (handlerOptions : ι → FeedHandler.Options)
    (publishTsc : Nat → UInt64) (tsc : ι → Nat → UInt64) (s : Processes ι)
    (h : Reachable options handlerOptions publishTsc tsc s)
    (hlt : s.publisher.publisher.published.length < 2 ^ 32 - 1) :
    let publisher := s.publisher.publisher
    (options.quiet = false → ∃ skipped : List Bool,
      skipped.length = publisher.emittedMessages ∧
      s.publisher.messageLines = List.zipWith
        (fun skipped text => "  " ++ (if skipped then "drop " else "send ") ++ text) skipped
        ((publisher.placed.take publisher.emittedMessages).map Placed.text)) ∧
    ∀ i, (handlerOptions i).benchmark = false →
      let run := (s.handler i).run
      ∃ sources : List PacketSource, sources.length = run.handler.receivedMessages ∧
        run.recvLines = List.zipWith (fun source report => source.text ++ " recv " ++ report)
          sources (reportsFrom {} (publisher.placed.take run.handler.receivedMessages)) := by
  have ht := h.told hlt
  refine ⟨fun hq => ?_, fun i hv => ?_⟩
  · obtain ⟨skipped, hlength, hlines⟩ := s.publisher.messageLines_eq
    have hle : s.publisher.publisher.emittedMessages ≤ s.publisher.publisher.placed.length := by
      rw [Publisher.placed, length_placedAll]
      have hstored := (Reachable.group h).sound hlt |>.paced.stored
      exact Nat.le_trans (Nat.le_add_right ..) (Nat.le_of_eq hstored.symm)
    rw [ht.publisher.texts hq] at hlength hlines
    refine ⟨skipped, ?_, hlines⟩
    rw [hlength, List.length_map, List.length_take, Nat.min_eq_left hle]
  · obtain ⟨sources, hlength, hlines⟩ := (s.handler i).run.recvLines_eq
    rw [(ht.handlers i).reports hv] at hlength hlines
    refine ⟨sources, ?_, hlines⟩
    rw [hlength, length_reportsFrom, List.length_take, Nat.min_eq_left (ht.handlers i).received_le]

/-- A handler that has received a datagram can handle it. -/
theorem Reachable.handles (h : Reachable options handlerOptions publishTsc tsc s)
    (hlt : s.publisher.publisher.published.length < 2 ^ 32 - 1) (hfree : s.serving = none) {i : ι}
    {received : Bytes} (busy : (s.handler i).phase = .handling received) :
    ∃ s', Reachable options handlerOptions publishTsc tsc s' ∧ s'.publisher = s.publisher ∧
      (s'.handler i).phase = .head ∧ (s'.handler i).delivered = (s.handler i).delivered := by
  have hs := Group.Reachable.sound (Reachable.group h) hlt
  obtain ⟨h', n, hok, -⟩ := (hs.members i).handle hs.kept hlt busy
  have hproj := FeedHandler.Run.handleDatagram_projects (handlerOptions i) (tsc i)
    s.group.recovery received (s.handler i).run
  change Handler.handleDatagram _ s.group.recovery received (s.handler i).run.handler = _ at hok
  rw [hok] at hproj
  obtain ⟨run, hrun, -⟩ := hproj.of_ok
  have hself : Function.update s.handler i { s.handler i with run, phase := .head } i
      = { s.handler i with run, phase := .head } := Function.update_self ..
  have hphase := congrArg Process.phase hself
  have hdelivered := congrArg Process.delivered hself
  by_cases hrequests : (s.handler i).member.Requests (handlerOptions i).messages
  · -- the server accepts its connection first
    have haccept : Reachable options handlerOptions publishTsc tsc { s with serving := some i } :=
      h.tail (.accept hfree hrequests)
    exact ⟨_, haccept.tail (.handler i (.handle busy (fun _ => rfl) hrun)), rfl, hphase,
      hdelivered⟩
  · exact ⟨_, h.tail (.handler i (.handle busy (fun hr => (hrequests hr).elim) hrun)), rfl,
      hphase, hdelivered⟩

/-- A handler at the head of its loop can take a datagram off its socket, and handle it. -/
theorem Reachable.receives (h : Reachable options handlerOptions publishTsc tsc s)
    (hlt : s.publisher.publisher.published.length < 2 ^ 32 - 1) (hfree : s.serving = none) {i : ι}
    (idle : (s.handler i).phase = .head)
    (goesOn : (s.handler i).run.handler.limitReached (handlerOptions i).messages = false)
    {datagram : Bytes} {network : List Bytes}
    (arrives : (s.handler i).network.Perm (datagram :: network)) :
    ∃ s', Reachable options handlerOptions publishTsc tsc s' ∧ s'.publisher = s.publisher ∧
      (s'.handler i).phase = .head ∧
      (s'.handler i).delivered = (s.handler i).delivered ++ [datagram] := by
  let m : Process := { s.handler i with
    network
    phase := .handling (datagram.take kReceiveBufferSize)
    delivered := (s.handler i).delivered ++ [datagram] }
  have hm : Function.update s.handler i m i = m := Function.update_self ..
  have hreceive : Reachable options handlerOptions publishTsc tsc
      { s with handler := Function.update s.handler i m } :=
    h.tail (.handler i (.receive idle goesOn arrives))
  obtain ⟨s', hs', hpublisher, hphase, hdelivered⟩ := Reachable.handles hreceive hlt hfree
    (congrArg Process.phase hm)
  exact ⟨s', hs', hpublisher, hphase, hdelivered.trans (congrArg Process.delivered hm)⟩

/-- The only packet is sent, and a handler has received it. -/
theorem lines_agree_of_one_packet :
    let options : ExchangeSim.Options := {
      messages := 1
      group := "239.255.42.99"
      port := 30001
      recoveryPort := 31001
      intervalMs := 100
      recoveryGraceMs := 1000
      quiet := false }
    ∃ s : Processes Unit, Reachable options (fun _ => {}) (fun _ => 5) (fun _ _ => 7) s ∧
      (s.handler ()).phase = .head ∧ (s.handler ()).delivered.length = 1 ∧
      ∃ sources : List PacketSource,
        sources.length = (s.handler ()).run.handler.receivedMessages ∧
        (s.handler ()).run.recvLines
          = List.zipWith (fun source report => source.text ++ " recv " ++ report) sources
            (reportsFrom {} (s.publisher.publisher.placed.take
              (s.handler ()).run.handler.receivedMessages)) := by
  intro options
  have hstored : (Publisher.storePacket options.toOptions [default] 5 {}).isSome := by
    decide +kernel
  obtain ⟨p, hp⟩ := Option.isSome_iff_exists.1 hstored
  have h1 : Reachable options (fun _ => {}) (fun _ => 5) (fun _ _ => 7)
      ({ publisher := { publisher := p } } : Processes Unit) := .tail .refl (.store hp)
  obtain ⟨-, batch, generator, bytes, -, -, hp'⟩ := Publisher.storePacket_eq_some hp
  have hpacket : p.packet = some (batch, bytes) := by rw [hp']
  have hpublished : p.published = [batch] := by
    rw [hp']
    rfl
  obtain ⟨run, datagram, _, hrun, hsend, hmulticast, -⟩ := exists_sendPacket options
    (r := { publisher := p }) 5 hpacket
  obtain ⟨_, _, hpacket', hsends⟩ := Publisher.sendPacket_eq_some hsend
  cases hpacket.symm.trans hpacket'
  have hdatagram := hsends.datagram
  rw [if_neg fun hskip => hskip.1 rfl] at hdatagram
  have hlt : run.publisher.published.length < 2 ^ 32 - 1 := by
    have hone : run.publisher.published.length = 1 := by
      rw [hsends.published]
      exact congrArg List.length hpublished
    rw [hone]
    decide
  have h2 := h1.tail (.send hpacket hrun)
  have harrives : ([] ++ run.multicast.drop 0).Perm (bytes :: []) := by
    rw [hmulticast, hdatagram]
    exact .refl _
  obtain ⟨s, hs, hpublisher, hphase, hdelivered⟩ := Reachable.receives h2 hlt rfl (i := ()) rfl rfl
    harrives
  refine ⟨s, hs, hphase, congrArg List.length hdelivered, ?_⟩
  exact (lines_agree _ _ _ _ _ hs (hpublisher ▸ hlt)).2 () rfl

end Processes

end Bmdfh
