import Bmdfh.EndToEnd.Proof.Agreement
import Bmdfh.EndToEnd.Stack
import Bmdfh.Lib.Simulation
import Bmdfh.Recovery.Proof.InStep

/-!
# The connections refine the group

A request of `EndToEnd.Group` is answered at once, from the history as it is. Over a connection it
is a lookup of the server, with the bytes of the request before it and those of the response after
it. `Stack.abstract` takes a handler whose request has been looked up for one that has handled its
datagram: the lookup then is the step of the group, and nothing else that happens on a connection
is one (`Step.refines`).
-/

namespace Bmdfh

open OrdMap Protocol Outcome Handler PacketHistory

/-! ## What a handler asks for -/

namespace Handler

variable {messages : Nat} {recovery recovery' : Recovery} {h : Handler}

theorem requestReplay_congr {startSeq endSeq : UInt32}
    (heq : (startSeq > endSeq || h.limitReached messages) = false →
      recovery startSeq endSeq = recovery' startSeq endSeq) :
    requestReplay messages recovery startSeq endSeq h
      = requestReplay messages recovery' startSeq endSeq h := by
  unfold requestReplay
  rw [bind_of_ok (get_eq h), bind_of_ok (get_eq h)]
  by_cases hc : (startSeq > endSeq || h.limitReached messages) = true
  · rw [if_pos hc, if_pos hc]
  · rw [if_neg hc, if_neg hc, heq (Bool.not_eq_true _ ▸ hc)]

/-- The server matters through its answer to the request that is made. -/
theorem handleDatagram_congr {received : Bytes}
    (heq : ∀ startSeq endSeq, h.replayRange messages received = some (startSeq, endSeq) →
      recovery startSeq endSeq = recovery' startSeq endSeq) :
    handleDatagram messages recovery received h
      = handleDatagram messages recovery' received h := by
  unfold replayRange at heq
  unfold handleDatagram
  cases hp : parsePacket received with
  | none => rfl
  | some packet =>
    rw [hp] at heq
    dsimp only at heq ⊢
    rw [bind_of_ok (get_eq h), bind_of_ok (get_eq h)]
    by_cases hlt : decodeSeqNum packet.header < h.expectedPacketSeq
    · rw [if_pos hlt, if_pos hlt]
    · by_cases hgt : decodeSeqNum packet.header > h.expectedPacketSeq
      · rw [if_neg hlt, if_pos hgt] at heq
        rw [if_neg hlt, if_neg hlt, if_pos hgt, if_pos hgt, bind_of_ok (modify_eq _ h),
          bind_of_ok (modify_eq _ h), bind_of_ok (get_eq _), bind_of_ok (get_eq _)]
        cases hf : first? (h.park (decodeSeqNum packet.header) received).bufferedPackets with
        | none => rfl
        | some first =>
          rw [hf] at heq
          dsimp only at heq ⊢
          refine requestReplay_congr fun hc => heq _ _ ?_
          rw [if_neg (Bool.not_eq_true _ ▸ hc)]
      · rw [if_neg hlt, if_neg hlt, if_neg hgt, if_neg hgt]

end Handler

/-! ## Requests and lookups -/

namespace Handler

/-- The request starts at the number expected. -/
theorem replayRange_eq_some {messages : Nat} {received : Bytes} {h : Handler}
    {startSeq endSeq : UInt32} (hr : h.replayRange messages received = some (startSeq, endSeq)) :
    startSeq = h.expectedPacketSeq ∧ startSeq ≤ endSeq := by
  unfold replayRange at hr
  split at hr
  · cases hr
  · dsimp only at hr
    split at hr
    · cases hr
    · split at hr
      · split at hr
        · cases hr
        · split at hr
          · cases hr
          · rename_i hc
            obtain ⟨rfl, rfl⟩ := Prod.mk.inj (Option.some.inj hr)
            rw [Bool.or_eq_true, not_or, decide_eq_true_eq] at hc
            exact ⟨rfl, UInt32.not_lt.1 hc.1⟩
      · cases hr

end Handler

namespace Session

variable {capacity : ℕ+} {s t : Session}

theorem Sound.idle (h : Sound s) (hcall : s.call = none) : Idle s :=
  h.stage.resolve_right fun ⟨_, hbusy⟩ => hbusy.call_ne_none hcall

theorem Sound.busy (h : Sound s) (hm : Move capacity s t) : ∃ m, Busy m s :=
  h.stage.resolve_left fun hidle => hidle.not_move hm

theorem Busy.requests_ne_nil {m : ℕ ×ₗ ℕ} (h : Busy m s) : s.requests ≠ [] := by
  cases h with
  | asking h =>
    rw [h.requests]
    exact List.concat_ne_nil _ _
  | answering h =>
    obtain ⟨lookups, hlookups, -⟩ := h.replies
    rw [h.requests, hlookups, List.map_append]
    exact List.concat_ne_nil _ _

/-- What the server looks up is the last range requested, and the only one not looked up. -/
theorem Busy.looksUp {m : ℕ ×ₗ ℕ} (h : Busy m s) {query : UInt32 × UInt32}
    {next : List Bytes → RecoveryServer.ServerM Bool} (hq : s.server = .query query next) :
    s.requests = s.lookups.map Lookup.range ++ [query] := by
  cases h with
  | asking h =>
    obtain ⟨rfl, -⟩ := h.arrived hq
    exact h.requests
  | answering h =>
    rcases h.server with ⟨-, hserver⟩ | ⟨-, hserver⟩
    · obtain ⟨waits, hwaits⟩ := handleRequest_eq
      rw [hserver, hwaits] at hq
      cases hq
    · rw [hq] at hserver
      cases hserver

/-- A move of the client leaves the range of the call. -/
theorem Move.range_eq (h : Move capacity s t) {call : Call} (ht : t.call = some call) :
    ∃ call', s.call = some call' ∧ call'.range = call.range := by
  cases h with
  | clientAsks calls _ =>
    obtain rfl := Option.some.inj ht
    exact ⟨_, calls, rfl⟩
  | clientSends calls _ _ =>
    obtain rfl := Option.some.inj ht
    exact ⟨_, calls, rfl⟩
  | clientReceives calls _ _ =>
    obtain rfl := Option.some.inj ht
    exact ⟨_, calls, rfl⟩
  | clientReturns => cases ht
  | clientThrows => cases ht
  | serverReceives => exact ⟨_, ht, rfl⟩
  | serverLooksUp => exact ⟨_, ht, rfl⟩
  | serverSends => exact ⟨_, ht, rfl⟩

/-- A range that does not start at 0 is not the whole of the numbers. -/
theorem countFits_of_start (history : PacketHistory) {startSeq endSeq : UInt32}
    (hle : startSeq ≤ endSeq) (hne : startSeq ≠ 0) : CountFits history startSeq endSeq := by
  refine Nat.lt_of_le_of_lt (length_lookupRange_le history hle) ?_
  rw [UInt32.toNat_sub_of_le _ _ hle]
  have hpos : startSeq.toNat ≠ 0 := fun h => hne (UInt32.toNat_inj.1 h)
  have := endSeq.toNat_lt
  omega

/-- What the server has found for the last request, if it has looked it up. -/
def found (s : Session) : Option (Except RuntimeError (List Bytes)) :=
  if s.lookups.length < s.requests.length then none
  else s.lookups.getLast?.map fun lookup => lookup.reply.packets

theorem found_of_lt (h : s.lookups.length < s.requests.length) : s.found = none := if_pos h

theorem found_of_looksUp {query : UInt32 × UInt32}
    (h : s.requests = s.lookups.map Lookup.range ++ [query]) : s.found = none := by
  refine found_of_lt ?_
  rw [h, List.length_append, List.length_map]
  exact Nat.lt_succ_self _

theorem found_of_getLast {lookup : Lookup} (hlen : s.requests.length = s.lookups.length)
    (hlast : s.lookups.getLast? = some lookup) : s.found = some lookup.reply.packets := by
  unfold found
  rw [if_neg (Nat.not_lt.2 (Nat.le_of_eq hlen)), hlast]
  rfl

/-- After a call, what it returned. -/
theorem Idle.found (h : Idle s) {reply : Reply} (hlast : s.replies.getLast? = some reply) :
    s.found = some reply.packets := by
  rw [h.replies, List.getLast?_map, Option.map_eq_some_iff] at hlast
  obtain ⟨lookup, hlookup, rfl⟩ := hlast
  refine found_of_getLast ?_ hlookup
  rw [h.requests, List.length_map]

end Session

/-! ## One handler -/

/-- The datagram in hand has been handled with this result. -/
def Member.conclude (m : Member) : EStateM.Result RuntimeError Handler Unit → Member
  | .ok () handler => { m with handler, phase := .head }
  | .error error handler => { m with handler, phase := .thrown error }

/-- Wherever the handler is. -/
theorem Member.conclude_withPhase (m : Member) (phase : Phase)
    (result : EStateM.Result RuntimeError Handler Unit) :
    ({ m with phase } : Member).conclude result = m.conclude result := by
  cases result with
  | ok _ handler => rfl
  | error error handler => rfl

/-- A datagram handled is a step. -/
theorem Member.Step.conclude {messages : Nat} {recovery : Recovery} {served : Prop} {m : Member}
    {received : Bytes} (busy : m.phase = .handling received)
    (answered : m.Requests messages → served) :
    Step messages recovery served m
      (m.conclude (handleDatagram messages recovery received m.handler)) := by
  cases hr : handleDatagram messages recovery received m.handler with
  | ok _ handler => exact .handle busy answered hr
  | error error handler => exact .throw busy answered hr

namespace Subscriber

variable {messages : Nat} {host : String} {capacity : ℕ+} {served : Prop}
  {history : PacketHistory} {m m' : Subscriber} {received : Bytes}

/-- A handler in this phase, its connection left out. -/
def toMember (m : Subscriber) (phase : Phase) : Member where
  network := m.network
  handler := m.handler
  phase := phase
  delivered := m.delivered

/-- The handler as its group has it: it has handled its datagram once its request is looked up. -/
def abstract (messages : Nat) (m : Subscriber) : Member :=
  match m.phase with
  | .head => m.toMember .head
  | .handling received => m.toMember (.handling received)
  | .thrown error => m.toMember (.thrown error)
  | .requesting received =>
    match m.session.found with
    | none => m.toMember (.handling received)
    | some packets => (m.toMember .head).conclude
        (handleDatagram messages (fun _ _ => packets) received m.handler)

theorem abstract_head (h : m.phase = .head) : m.abstract messages = m.toMember .head := by
  unfold abstract
  rw [h]

theorem abstract_handling (h : m.phase = .handling received) :
    m.abstract messages = m.toMember (.handling received) := by
  unfold abstract
  rw [h]

theorem abstract_thrown {error : RuntimeError} (h : m.phase = .thrown error) :
    m.abstract messages = m.toMember (.thrown error) := by
  unfold abstract
  rw [h]

theorem abstract_waiting (h : m.phase = .requesting received) (hf : m.session.found = none) :
    m.abstract messages = m.toMember (.handling received) := by
  unfold abstract
  rw [h]
  dsimp only
  rw [hf]

theorem abstract_answered (h : m.phase = .requesting received)
    {packets : Except RuntimeError (List Bytes)} (hf : m.session.found = some packets) :
    m.abstract messages = (m.toMember .head).conclude
      (handleDatagram messages (fun _ _ => packets) received m.handler) := by
  unfold abstract
  rw [h]
  dsimp only
  rw [hf]

/-- The network of a handler is that of its group. -/
theorem abstract_withNetwork (m : Subscriber) (network : List Bytes) :
    ({ m with network } : Subscriber).abstract messages
      = { m.abstract messages with network } := by
  obtain ⟨network', handler, phase, session, delivered⟩ := m
  cases phase with
  | head => rfl
  | handling received => rfl
  | thrown error => rfl
  | requesting received =>
    unfold abstract
    dsimp only
    cases session.found with
    | none => rfl
    | some packets =>
      dsimp only [toMember]
      cases handleDatagram messages (fun _ _ => packets) received handler with
      | ok _ handler => rfl
      | error error handler => rfl

theorem abstract_network (messages : Nat) (m : Subscriber) :
    (m.abstract messages).network = m.network :=
  congrArg Member.network (abstract_withNetwork m m.network)

/-- Only what has been found on the connection counts. -/
theorem abstract_withSession {session : Session} (h : session.found = m.session.found) :
    ({ m with session } : Subscriber).abstract messages = m.abstract messages := by
  unfold abstract
  dsimp only
  rw [h]
  rfl

/-- A handler is in a call of `request_packets` only while it requests, and then the range it
requests is the last one. -/
def SoundPhase (messages : Nat) (m : Subscriber) : SubscriberPhase → Prop
  | .head => m.session.call = none
  | .handling _ => m.session.call = none
  | .thrown _ => m.session.call = none
  | .requesting received => ∃ ranges range, m.session.requests = ranges ++ [range] ∧
    m.handler.replayRange messages received = some range

/-- What holds of a handler and its connection between any two steps. -/
structure Sound (messages : Nat) (history : PacketHistory) (m : Subscriber) : Prop where
  session : m.session.Sound
  history_eq : m.session.history = history
  range : ∀ call, m.session.call = some call →
    call.startSeq ≠ 0 ∧ call.startSeq ≤ call.endSeq
  connected : m.session.socketOpen = true → m.session.requests ≠ []
  phase : SoundPhase messages m m.phase

theorem sound_init (messages : Nat) : Sound messages ∅ {} := by
  have hempty : Session.AllSendable (∅ : PacketHistory) := fun _ _ hget => by
    rw [Std.ExtTreeMap.getElem?_empty] at hget
    cases hget
  exact ⟨⟨hempty, .inl ⟨rfl, rfl, rfl, rfl, rfl, rfl⟩⟩, rfl, nofun, nofun, rfl⟩

/-- Only a handler that requests is in a call. -/
theorem Sound.requesting (hs : Sound messages history m) (h : m.session.call ≠ none) :
    ∃ received ranges range, m.phase = .requesting received ∧
      m.session.requests = ranges ++ [range] ∧
      m.handler.replayRange messages received = some range := by
  have hp := hs.phase
  cases hphase : m.phase with
  | requesting received =>
    rw [hphase] at hp
    obtain ⟨ranges, range, hrequests, hrange⟩ := hp
    exact ⟨received, ranges, range, rfl, hrequests, hrange⟩
  | _ =>
    rw [hphase] at hp
    exact (h hp).elim

/-- An end of the connection has moved. -/
theorem Sound.move (hs : Sound messages history m) {session : Session}
    (hm : Session.Move capacity m.session session) :
    Sound messages history { m with session } := by
  obtain ⟨_, hbusy⟩ := hs.session.busy hm
  obtain ⟨received, ranges, range, hphase, hrequests, hrange⟩ := hs.requesting hbusy.call_ne_none
  have hstep : Session.Step "" capacity m.session session := .move hm
  refine ⟨hs.session.step hstep, hm.history_eq.trans hs.history_eq, fun call hcall => ?_,
    fun _ => ?_, ?_⟩
  · obtain ⟨call', hcall', heq⟩ := hm.range_eq hcall
    obtain ⟨hstart, hend⟩ := Prod.mk.inj heq
    rw [← hstart, ← hend]
    exact hs.range call' hcall'
  · show session.requests ≠ []
    rw [hm.requests_eq]
    exact hbusy.requests_ne_nil
  · show SoundPhase messages { m with session } m.phase
    rw [hphase]
    exact ⟨ranges, range, hm.requests_eq.trans hrequests, hrange⟩

/-- The publisher has stored a packet. -/
theorem Sound.store (hs : Sound messages history m) {seqNum : UInt32} {packet : Bytes}
    (hp : Session.Sendable packet) :
    Sound messages (history.store seqNum packet)
      (m.withHistory (history.store seqNum packet)) := by
  have hquiet : Session.Quiet m.session
      { m.session with history := m.session.history.store seqNum packet } := by
    refine .store hp fun call hcall => ?_
    obtain ⟨hne, hle⟩ := hs.range call hcall
    exact Session.countFits_of_start _ hle hne
  have hsession := hs.session.step (Session.Step.quiet hquiet : Session.Step "" 1 _ _)
  rw [hs.history_eq] at hsession
  refine ⟨hsession, rfl, hs.range, hs.connected, ?_⟩
  have hphase := hs.phase
  show SoundPhase messages (m.withHistory _) m.phase
  cases h : m.phase with
  | _ =>
    rw [h] at hphase
    exact hphase

theorem Step.sound (h : Step messages host capacity served m m') (hs : Sound messages history m)
    (hne : ∀ received, m.phase = .handling received → m.handler.expectedPacketSeq ≠ 0) :
    Sound messages history m' := by
  have hp := hs.phase
  cases h with
  | lose => exact ⟨hs.session, hs.history_eq, hs.range, hs.connected, hp⟩
  | duplicate => exact ⟨hs.session, hs.history_eq, hs.range, hs.connected, hp⟩
  | receive idle _ _ =>
    rw [idle] at hp
    exact ⟨hs.session, hs.history_eq, hs.range, hs.connected, hp⟩
  | handle busy _ _ =>
    rw [busy] at hp
    exact ⟨hs.session, hs.history_eq, hs.range, hs.connected, hp⟩
  | throw busy _ _ =>
    rw [busy] at hp
    exact ⟨hs.session, hs.history_eq, hs.range, hs.connected, hp⟩
  | @request received startSeq endSeq busy asks =>
    rw [busy] at hp
    obtain ⟨hstart, hle⟩ := replayRange_eq_some asks
    have hne : startSeq ≠ 0 := hstart ▸ hne received busy
    have hrequest : Session.Step host capacity m.session _ :=
      .request hp hle (Session.countFits_of_start m.session.history hle hne)
    refine ⟨hs.session.step hrequest, hs.history_eq, fun call hcall => ?_,
      fun _ => List.concat_ne_nil _ _, m.session.requests, (startSeq, endSeq), rfl, asks⟩
    obtain rfl := Option.some.inj hcall
    exact ⟨hne, hle⟩
  | clientMoves move _ => exact hs.move move
  | serverMoves _ move => exact hs.move move
  | answer _ returned _ _ =>
    exact ⟨hs.session, hs.history_eq, hs.range, hs.connected, returned⟩
  | fail _ returned _ _ =>
    exact ⟨hs.session, hs.history_eq, hs.range, hs.connected, returned⟩

/-- A lookup of the server, with the bytes around it left out, answers the request. -/
theorem Sound.looksUp (hs : Sound messages history m) (serves : served) {startSeq endSeq : UInt32}
    {next : List Bytes → RecoveryServer.ServerM Bool}
    (asks : m.session.server = .query (startSeq, endSeq) next) {session : Session}
    (hrequests : session.requests = m.session.requests)
    (hlookups : session.lookups
      = m.session.lookups ++ [⟨startSeq, endSeq, m.session.history⟩]) :
    Member.Step messages (fun startSeq endSeq => .ok (history.lookupRange startSeq endSeq)) served
      (m.abstract messages) (({ m with session } : Subscriber).abstract messages) := by
  obtain ⟨_, hbusy⟩ := hs.session.busy (.serverLooksUp asks : Session.Move 1 m.session _)
  obtain ⟨received, ranges, range, hphase, hrange, hasks⟩ := hs.requesting hbusy.call_ne_none
  have hlast := hbusy.looksUp asks
  obtain rfl : range = (startSeq, endSeq) :=
    List.singleton_inj.1 (List.append_inj' (hrange.symm.trans hlast) rfl).2
  have hfound : session.found = some (.ok (m.session.history.lookupRange startSeq endSeq)) := by
    have hnew : session.lookups.getLast? = some ⟨startSeq, endSeq, m.session.history⟩ := by
      rw [hlookups, List.getLast?_concat]
    refine Session.found_of_getLast ?_ hnew
    rw [hrequests, hlookups, hlast, List.length_append, List.length_append, List.length_map]
    rfl
  rw [abstract_waiting hphase (Session.found_of_looksUp hlast),
    abstract_answered (m := { m with session }) hphase hfound, hs.history_eq]
  -- the lookup answers the one request that is made
  have hcongr : handleDatagram messages (fun _ _ => .ok (history.lookupRange startSeq endSeq))
      received m.handler = handleDatagram messages
        (fun startSeq endSeq => .ok (history.lookupRange startSeq endSeq)) received m.handler := by
    refine handleDatagram_congr fun a b hab => ?_
    obtain ⟨rfl, rfl⟩ := Prod.mk.inj (Option.some.inj (hasks.symm.trans hab))
    rfl
  show Member.Step _ _ _ _ ((m.toMember .head).conclude _)
  rw [hcongr, ← Member.conclude_withPhase _ (.handling received)]
  exact .conclude rfl fun _ => serves

/-- **One step** of a handler is one in its group, or none. -/
theorem Step.refines (h : Step messages host capacity served m m')
    (hs : Sound messages history m) :
    m'.abstract messages = m.abstract messages ∨
    Member.Step messages (fun startSeq endSeq => .ok (history.lookupRange startSeq endSeq)) served
      (m.abstract messages) (m'.abstract messages) := by
  cases h with
  | lose lost =>
    rw [abstract_withNetwork]
    exact .inr (.lose ((abstract_network messages m).symm ▸ lost))
  | duplicate mem =>
    rw [abstract_withNetwork, ← abstract_network messages m]
    exact .inr (.duplicate ((abstract_network messages m).symm ▸ mem))
  | receive idle goesOn arrives =>
    rw [abstract_head idle, abstract_handling rfl]
    exact .inr (.receive rfl goesOn arrives)
  | handle busy quiet returns =>
    rw [abstract_handling busy, abstract_head rfl]
    refine .inr (.handle rfl (fun ⟨_, hphase, hsome⟩ => ?_) ?_)
    · obtain rfl := Phase.handling.inj hphase
      exact absurd (quiet ▸ hsome) nofun
    · rw [← returns]
      exact handleDatagram_congr fun _ _ hr => nomatch quiet.symm.trans hr
  | throw busy quiet throws =>
    rw [abstract_handling busy, abstract_thrown rfl]
    refine .inr (.throw rfl (fun ⟨_, hphase, hsome⟩ => ?_) ?_)
    · obtain rfl := Phase.handling.inj hphase
      exact absurd (quiet ▸ hsome) nofun
    · rw [← throws]
      exact handleDatagram_congr fun _ _ hr => nomatch quiet.symm.trans hr
  | @request received startSeq endSeq busy asks =>
    left
    have hp := hs.phase
    rw [busy] at hp
    have hlast : m.session.requests ++ [(startSeq, endSeq)]
        = m.session.lookups.map Lookup.range ++ [(startSeq, endSeq)] :=
      congrArg (· ++ _) (hs.session.idle hp).requests
    rw [abstract_handling busy, abstract_waiting rfl (Session.found_of_looksUp hlast)]
    rfl
  | clientMoves move same =>
    left
    refine abstract_withSession ?_
    unfold Session.found
    rw [move.requests_eq, same.2]
  | serverMoves serves move =>
    cases move with
    | serverLooksUp asks => exact .inr (hs.looksUp serves asks rfl rfl)
    | _ => exact .inl (abstract_withSession rfl)
  | answer waits returned last returns =>
    left
    rw [abstract_answered waits ((hs.session.idle returned).found last), returns,
      abstract_head rfl]
    rfl
  | fail waits returned last throws =>
    left
    rw [abstract_answered waits ((hs.session.idle returned).found last), throws,
      abstract_thrown rfl]
    rfl

theorem Ended.phase_ne (he : m.Ended messages) :
    m.phase ≠ .handling received ∧ m.phase ≠ .requesting received := by
  rcases he with ⟨error, hphase⟩ | ⟨hphase, -⟩
  · rw [hphase]
    exact ⟨nofun, nofun⟩
  · rw [hphase]
    exact ⟨nofun, nofun⟩

theorem Ended.abstract (he : m.Ended messages) : (m.abstract messages).Ended messages := by
  rcases he with ⟨error, hphase⟩ | ⟨hphase, hlimit⟩
  · rw [abstract_thrown hphase]
    exact .inl ⟨error, rfl⟩
  · rw [abstract_head hphase]
    exact .inr ⟨rfl, hlimit⟩

/-- A program that has ended does nothing. -/
theorem Step.ended (h : Step messages host capacity served m m') (hs : Sound messages history m)
    (he : m.Ended messages) : m'.Ended messages := by
  have hmove {session : Session} (move : Session.Move capacity m.session session) : False := by
    obtain ⟨_, hbusy⟩ := hs.session.busy move
    obtain ⟨received, _, _, hphase, -⟩ := hs.requesting hbusy.call_ne_none
    exact he.phase_ne.2 hphase
  cases h with
  | lose => exact he
  | duplicate => exact he
  | receive idle goesOn _ =>
    rcases he with ⟨error, hphase⟩ | ⟨-, hlimit⟩
    · cases hphase.symm.trans idle
    · cases hlimit.symm.trans goesOn
  | handle busy _ _ => exact (he.phase_ne.1 busy).elim
  | throw busy _ _ => exact (he.phase_ne.1 busy).elim
  | request busy _ => exact (he.phase_ne.1 busy).elim
  | clientMoves move _ => exact (hmove move).elim
  | serverMoves _ move => exact (hmove move).elim
  | answer waits _ _ _ => exact (he.phase_ne.2 waits).elim
  | fail waits _ _ _ => exact (he.phase_ne.2 waits).elim

/-- Only a handler that is served has its requests looked up. -/
theorem Step.lookups (h : Step messages host capacity served m m')
    (hnew : m'.session.lookups ≠ []) : served ∨ m.session.lookups ≠ [] := by
  cases h with
  | clientMoves _ same => exact .inr (same.2 ▸ hnew)
  | serverMoves serves _ => exact .inl serves
  | _ => exact .inr hnew

end Subscriber

/-! ## The group -/

namespace Stack

variable {ι : Type} {options : Options} {messages : ι → Nat} {host : String} {capacity : ℕ+}
  {s s' : Stack ι}

/-- The group, with the connections left out. -/
def abstract (messages : ι → Nat) (s : Stack ι) : Group ι where
  publisher := s.publisher
  member i := (s.member i).abstract (messages i)
  serving := s.serving

/-- What holds of the connections between any two steps. -/
structure Sound (messages : ι → Nat) (s : Stack ι) : Prop where
  members : ∀ i, (s.member i).Sound (messages i) s.publisher.packetHistory
  lookups : ∀ i, (s.member i).session.lookups ≠ [] →
    s.serving = some i ∨ (s.member i).Ended (messages i)

theorem sound_init (messages : ι → Nat) : Sound messages {} :=
  ⟨fun i => Subscriber.sound_init (messages i), fun _ => nofun⟩

/-- The packets that are stored can be sent. -/
theorem sendable_of_carries {bytes : Bytes} {seqNum : UInt32} {batch : List Message}
    (hc : Carries bytes seqNum batch) : Session.Sendable bytes := by
  obtain ⟨packet, hparse, -⟩ := hc.parsed
  have hle : bytes.length ≤ 1024 := hc.length_le
  refine ⟨?_, Nat.le_trans hle (by decide)⟩
  rintro rfl
  cases hparse

/-- A handler that has a datagram in hand expects a number other than 0. -/
theorem expected_ne_zero (hg : Group.Sound options messages (s.abstract messages))
    (hlt : s.publisher.published.length < 2 ^ 32 - 1) {i : ι} {received : Bytes}
    (busy : (s.member i).phase = .handling received) :
    (s.member i).handler.expectedPacketSeq ≠ 0 := by
  have hp := (hg.members i).phase
  have habstract : (s.abstract messages).member i = (s.member i).toMember (.handling received) :=
    Subscriber.abstract_handling busy
  rw [habstract] at hp
  obtain ⟨n, _, hn, -⟩ := hp
  have hexpected : (s.member i).handler.expectedPacketSeq = UInt32.ofNat (n + 1) := hn.expected
  rw [hexpected, Ne, ← UInt32.toNat_inj, toNat_seqNum hlt hn.le]
  exact Nat.succ_ne_zero n

/-- A handler whose connection is accepted has a request under way. -/
theorem Sound.requests (hs : Sound messages s) {i : ι} (free : s.serving = none)
    (connected : (s.member i).Connected)
    (alive : ¬ (s.member i).Ended (messages i)) :
    ((s.abstract messages).member i).Requests (messages i) := by
  have hm := hs.members i
  have hlookups : (s.member i).session.lookups = [] := by
    by_contra hne
    rcases hs.lookups i hne with hserving | hended
    · cases free.symm.trans hserving
    · exact alive hended
  have hrequests := hm.connected connected.1
  have hlt : (s.member i).session.lookups.length < (s.member i).session.requests.length := by
    rw [hlookups]
    exact List.length_pos_iff.2 hrequests
  have hcall : (s.member i).session.call ≠ none := fun hnone => by
    have hranges := (hm.session.idle hnone).requests
    rw [hlookups] at hranges
    exact hrequests hranges
  obtain ⟨received, _, range, hphase, -, hrange⟩ := hm.requesting hcall
  have habstract : (s.abstract messages).member i = (s.member i).toMember (.handling received) :=
    Subscriber.abstract_waiting hphase (Session.found_of_lt hlt)
  refine ⟨received, ?_, ?_⟩
  · rw [habstract]
    rfl
  · rw [habstract]
    exact Option.isSome_iff_exists.2 ⟨range, hrange⟩

/-! The steps of the publisher and of the members, with the connections left out. -/

theorem abstract_store (messages : ι → Nat) (s : Stack ι) (publisher : Publisher) :
    Stack.abstract messages { s with
        publisher
        member := fun i => (s.member i).withHistory publisher.packetHistory }
      = { s.abstract messages with publisher } := by
  have hsame (i : ι) : ((s.member i).withHistory publisher.packetHistory).abstract (messages i)
      = (s.member i).abstract (messages i) := Subscriber.abstract_withSession rfl
  unfold abstract
  simp only [hsame]

theorem abstract_send (messages : ι → Nat) (s : Stack ι) (publisher : Publisher)
    (datagram : Option Bytes) :
    Stack.abstract messages { s with
        publisher
        member := fun i => (s.member i).hear datagram }
      = { s.abstract messages with
        publisher
        member := fun i => ((s.abstract messages).member i).hear datagram } := by
  have hsame (i : ι) : ((s.member i).hear datagram).abstract (messages i)
      = ((s.member i).abstract (messages i)).hear datagram := by
    unfold Subscriber.hear Member.hear
    rw [Subscriber.abstract_withNetwork, Subscriber.abstract_network]
  unfold abstract
  simp only [hsame]

variable [DecidableEq ι]

theorem abstract_update (messages : ι → Nat) (s : Stack ι) (i : ι) (m : Subscriber) :
    Stack.abstract messages { s with member := Function.update s.member i m }
      = { s.abstract messages with
        member := Function.update (s.abstract messages).member i (m.abstract (messages i)) } := by
  unfold abstract
  congr 1
  funext j
  by_cases hij : j = i
  · subst hij
    simp
  · simp [hij]

theorem Step.published_le (h : Step options messages host capacity s s') :
    s.publisher.published.length ≤ s'.publisher.published.length := by
  cases h with
  | store stored =>
    obtain ⟨-, _, _, _, -, -, rfl⟩ := Publisher.storePacket_eq_some stored
    simp
  | send sent =>
    obtain ⟨_, _, -, hs⟩ := Publisher.sendPacket_eq_some sent
    exact Nat.le_of_eq (congrArg List.length hs.published.symm)
  | accept => exact Nat.le_refl _
  | leave => exact Nat.le_refl _
  | member => exact Nat.le_refl _

/-- **One step** keeps the connections sound. -/
theorem Step.sound (h : Step options messages host capacity s s') (hs : Sound messages s)
    (hg : Group.Sound options messages (s.abstract messages))
    (hlt : s.publisher.published.length < 2 ^ 32 - 1) : Sound messages s' := by
  cases h with
  | store stored =>
    obtain ⟨-, batch, generator, bytes, hc, -, rfl⟩ := Publisher.storePacket_eq_some stored
    exact ⟨fun i => (hs.members i).store (sendable_of_carries hc), hs.lookups⟩
  | send sent =>
    obtain ⟨_, _, -, hsends⟩ := Publisher.sendPacket_eq_some sent
    refine ⟨fun i => ?_, hs.lookups⟩
    have hm := hs.members i
    exact ⟨hm.session, hm.history_eq.trans hsends.packetHistory.symm, hm.range, hm.connected,
      hm.phase⟩
  | @accept i free connected alive =>
    refine ⟨hs.members, fun j hj => ?_⟩
    rcases hs.lookups j hj with hserving | hended
    · cases free.symm.trans hserving
    · exact .inr hended
  | @leave i serves ended =>
    refine ⟨hs.members, fun j hj => ?_⟩
    rcases hs.lookups j hj with hserving | hended
    · obtain rfl := Option.some.inj (serves.symm.trans hserving)
      exact .inr ended
    · exact .inr hended
  | @member m i step =>
    have hm := step.sound (hs.members i) fun _ => expected_ne_zero hg hlt
    refine ⟨fun j => ?_, fun j hj => ?_⟩
    · show Subscriber.Sound _ _ (Function.update s.member i m j)
      by_cases hij : j = i
      · subst hij
        rw [Function.update_self]
        exact hm
      · rw [Function.update_of_ne hij]
        exact hs.members j
    · show s.serving = some j ∨ (Function.update s.member i m j).Ended (messages j)
      change (Function.update s.member i m j).session.lookups ≠ [] at hj
      by_cases hij : j = i
      · subst hij
        rw [Function.update_self] at hj ⊢
        rcases step.lookups hj with hserved | hbefore
        · exact .inl hserved
        · exact (hs.lookups j hbefore).imp_right (step.ended (hs.members j))
      · rw [Function.update_of_ne hij] at hj ⊢
        exact hs.lookups j hj

/-- **One step** of the stack is one of the group, or none. -/
theorem Step.refines (h : Step options messages host capacity s s') (hs : Sound messages s) :
    s'.abstract messages = s.abstract messages ∨
    Group.Step options messages (s.abstract messages) (s'.abstract messages) := by
  cases h with
  | store stored =>
    rw [abstract_store]
    exact .inr (.store stored)
  | send sent =>
    rw [abstract_send]
    exact .inr (.send sent)
  | accept free connected alive => exact .inr (.accept free (hs.requests free connected alive))
  | leave serves ended => exact .inr (.leave serves ended.abstract)
  | @member m i step =>
    rw [abstract_update]
    rcases step.refines (hs.members i) with hsame | hstep
    · left
      rw [hsame]
      show { s.abstract messages with
        member := Function.update (s.abstract messages).member i
          ((s.abstract messages).member i) } = _
      rw [Function.update_eq_self]
    · exact .inr (.member i hstep)

/-- A run of the stack is one of the group. -/
theorem Reachable.abstract (h : Reachable options messages host capacity s)
    (hlt : s.publisher.published.length < 2 ^ 32 - 1) :
    Group.Reachable options messages (s.abstract messages) ∧ Sound messages s := by
  induction h with
  | refl => exact ⟨.refl, sound_init messages⟩
  | @tail s s' _ hstep ih =>
    have hlt' := Nat.lt_of_le_of_lt hstep.published_le hlt
    obtain ⟨hgroup, hs⟩ := ih hlt'
    have hsound := hstep.sound hs (Group.Reachable.sound hgroup hlt') hlt'
    rcases hstep.refines hs with hsame | hstep'
    · rw [hsame]
      exact ⟨hgroup, hsound⟩
    · exact ⟨hgroup.tail hstep', hsound⟩

end Stack

end Bmdfh
