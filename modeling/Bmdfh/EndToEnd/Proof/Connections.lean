import Bmdfh.EndToEnd.Proof.Stack
import Bmdfh.EndToEnd.Proof.Starvation

/-!
# The group over its connections

The converse of `EndToEnd.Proof.Stack`: what the group can do, it can do over its connections. A
request starts a call that connects, the server accepts, and once it serves the handler the call is
bound to return (`Subscriber.realises`). So the two have the same runs (`Stack.reachable_iff`).
-/

namespace Bmdfh

open OrdMap Protocol Stream Prog Handler RecoveryClient PacketHistory

/-! ## Whole calls -/

namespace Session

variable {capacity : ℕ+} {s t : Session}

/-- Moves look up in the history as it is. -/
theorem lookups_of_run (hrun : Relation.ReflTransGen (Move capacity) s t) :
    t.history = s.history ∧ t.requests = s.requests ∧
      ∃ new, t.lookups = s.lookups ++ new ∧ ∀ lookup ∈ new, lookup.history = s.history := by
  induction hrun with
  | refl => exact ⟨rfl, rfl, [], (List.append_nil _).symm, nofun⟩
  | tail _ hm ih =>
    obtain ⟨hhistory, hrequests, new, hlookups, hnew⟩ := ih
    refine ⟨hm.history_eq.trans hhistory, hm.requests_eq.trans hrequests, ?_⟩
    cases hm with
    | @serverLooksUp startSeq endSeq next asks =>
      rename_i u _
      refine ⟨new ++ [⟨startSeq, endSeq, u.history⟩], ?_, fun lookup hmem => ?_⟩
      · show u.lookups ++ _ = _
        rw [hlookups, List.append_assoc]
      · rcases List.mem_append.1 hmem with hmem | hmem
        · exact hnew lookup hmem
        · rw [List.mem_singleton.1 hmem]
          exact hhistory
    | _ => exact ⟨new, hlookups, hnew⟩

/-- **A whole call**: it returns what the history holds. -/
theorem Sound.answered (h : Sound s) (capacity : ℕ+) {query : UInt32 × UInt32}
    (hlast : s.requests = s.lookups.map Lookup.range ++ [query]) :
    ∃ t reply, Relation.ReflTransGen (Move capacity) s t ∧ t.call = none ∧
      t.replies.getLast? = some reply ∧
      reply.packets = .ok (s.history.lookupRange query.1 query.2) := by
  have hreturns : Returns capacity s := h.returns
  obtain ⟨t, hrun, hnone⟩ := hreturns.exists_run
  have hsound : Sound t := by
    clear hnone
    induction hrun with
    | refl => exact h
    | tail _ hm ih => exact ih.step (.move hm : Step "" capacity _ _)
  have hidle := hsound.idle hnone
  obtain ⟨-, hrequests, new, hlookups, hnew⟩ := lookups_of_run hrun
  -- one lookup has been made
  have hranges : t.lookups.map Lookup.range = s.lookups.map Lookup.range ++ [query] :=
    hidle.requests.symm.trans (hrequests.trans hlast)
  rw [hlookups, List.map_append] at hranges
  obtain ⟨lookup, rfl, rfl⟩ := List.map_eq_singleton_iff.1 (List.append_cancel_left hranges)
  refine ⟨t, lookup.reply, hrun, hnone, ?_, ?_⟩
  · rw [hidle.replies, hlookups, List.map_append]
    exact List.getLast?_concat
  · show Except.ok _ = _
    rw [hnew lookup (List.mem_singleton_self _)]
    rfl

/-- A move of the client. -/
def ClientMove (capacity : ℕ+) (s t : Session) : Prop :=
  Move capacity s t ∧ t.server = s.server ∧ t.lookups = s.lookups

/-- The queries of the client, answered by its socket. -/
def Queries (x y : Bool × ClientM (List Bytes)) : Prop := Asks socketAnswer x.1 x.2 y.1 y.2

theorem Queries.ask (socketOpen : Bool) (query : Query)
    (next : query.Answer → ClientM (List Bytes)) :
    Queries (socketOpen, .query query next)
      ((socketAnswer socketOpen query).2, next (socketAnswer socketOpen query).1) := .answered

theorem ensureConnected_queries (host : String) (next : Unit → ClientM (List Bytes)) :
    Relation.ReflTransGen Queries (false, ensureConnected host >>= next) (true, next ()) :=
  .head (Queries.ask false .isOpen _) (.head (Queries.ask false .socket _)
    (.head (Queries.ask true .inetPton _) (.head (Queries.ask true .connect _) .refl)))

theorem clientMoves_of_queries {call : Call} (calls : s.call = some call)
    {x : Bool × ClientM (List Bytes)}
    (hrun : Relation.ReflTransGen Queries (s.socketOpen, call.prog) x) :
    Relation.ReflTransGen (ClientMove capacity) s
      { s with socketOpen := x.1, call := some { call with prog := x.2 } } := by
  induction hrun with
  | refl =>
    show Relation.ReflTransGen _ s { s with call := some call }
    rw [← calls]
  | @tail x y _ hasks ih =>
    have hcalls : ({ s with socketOpen := x.1, call := some { call with prog := x.2 } } :
        Session).call = some { call with prog := x.2 } := rfl
    have hmove : Move capacity _ _ := .clientAsks hcalls hasks
    exact ih.tail ⟨hmove, rfl, rfl⟩

/-- The client alone connects. -/
theorem connects (host : String) {startSeq endSeq : UInt32} (hle : startSeq ≤ endSeq)
    (closed : s.socketOpen = false)
    (calls : s.call = some ⟨startSeq, endSeq, requestPackets host startSeq endSeq⟩) :
    Relation.ReflTransGen (ClientMove capacity) s { s with
        socketOpen := true
        call := some ⟨startSeq, endSeq, sendAll (requestBytes startSeq endSeq) >>= fun _ =>
          receiveResponse startSeq endSeq⟩ } := by
  have hprog : requestPackets host startSeq endSeq = ensureConnected host >>= fun _ =>
      sendAll (requestBytes startSeq endSeq) >>= fun _ => receiveResponse startSeq endSeq :=
    if_neg (UInt32.not_lt.2 hle)
  have hrun := ensureConnected_queries host fun _ =>
    sendAll (requestBytes startSeq endSeq) >>= fun _ => receiveResponse startSeq endSeq
  rw [← hprog, ← closed] at hrun
  exact clientMoves_of_queries calls hrun

end Session

/-! ## One handler -/

namespace Subscriber

variable {messages : Nat} {host : String} {capacity : ℕ+} {served : Prop}
  {history : PacketHistory} {m : Subscriber} {received : Bytes} {session : Session}

/-- The server is still to look up the last request. -/
def Pending (m : Subscriber) : Prop :=
  ∃ query, m.session.requests = m.session.lookups.map Lookup.range ++ [query]

/-- A handler that requests is served, and its request yet to be looked up. -/
def Waits (served : Prop) (m : Subscriber) : Prop :=
  ∀ received, m.phase = .requesting received → served ∧ m.Pending

/-- Such a handler is in the group where it is here. -/
theorem Waits.abstract (hw : Waits served m) (messages : Nat) :
    ∃ phase, m.abstract messages = m.toMember phase ∧ (phase = .head → m.phase = .head) ∧
    (∀ received, phase = .handling received →
      m.phase = .handling received ∨ m.phase = .requesting received) ∧
    ∀ error, phase = .thrown error → m.phase = .thrown error := by
  cases hphase : m.phase with
  | head => exact ⟨.head, abstract_head hphase, fun _ => rfl, nofun, nofun⟩
  | handling received =>
    refine ⟨.handling received, abstract_handling hphase, nofun, fun r hr => .inl ?_, nofun⟩
    rw [Phase.handling.inj hr]
  | requesting received =>
    obtain ⟨-, query, hlast⟩ := hw received hphase
    refine ⟨.handling received, abstract_waiting hphase (Session.found_of_looksUp hlast), nofun,
      fun r hr => .inr ?_, nofun⟩
    rw [Phase.handling.inj hr]
  | thrown error =>
    refine ⟨.thrown error, abstract_thrown hphase, nofun, nofun, fun e he => ?_⟩
    rw [Phase.thrown.inj he]

theorem run_of_clientMoves
    (hrun : Relation.ReflTransGen (Session.ClientMove capacity) m.session session) :
    Relation.ReflTransGen (Step messages host capacity served) m { m with session } := by
  induction hrun with
  | refl => exact .refl
  | @tail t u _ hmove ih =>
    exact ih.tail (.clientMoves (m := { m with session := t }) hmove.1 hmove.2)

theorem run_of_moves (serves : served)
    (hrun : Relation.ReflTransGen (Session.Move capacity) m.session session) :
    Relation.ReflTransGen (Step messages host capacity served) m { m with session } := by
  induction hrun with
  | refl => exact .refl
  | @tail t u _ hmove ih => exact ih.tail (.serverMoves (m := { m with session := t }) serves hmove)

/-- A handler that is served and waits can go on with the packets requested. -/
theorem Sound.finishes (hs : Sound messages history m) (host : String) (capacity : ℕ+)
    (serves : served) (waits : m.phase = .requesting received) (pending : m.Pending)
    {handler : Handler} (returns : handleDatagram messages
      (fun startSeq endSeq => .ok (history.lookupRange startSeq endSeq)) received m.handler
        = .ok () handler) :
    ∃ session, Relation.ReflTransGen (Step messages host capacity served) m
      { m with session, handler, phase := .head } ∧ session.replies ≠ [] := by
  obtain ⟨query, hlast⟩ := pending
  have hp := hs.phase
  rw [waits] at hp
  obtain ⟨ranges, range, hrange, hasks⟩ := hp
  obtain rfl : range = query :=
    List.singleton_inj.1 (List.append_inj' (hrange.symm.trans hlast) rfl).2
  obtain ⟨t, reply, hrun, hnone, hreply, hpackets⟩ :=
    hs.session.answered capacity hlast
  have hsame : handleDatagram messages (fun _ _ => reply.packets) received m.handler
      = .ok () handler := by
    rw [← returns]
    refine handleDatagram_congr fun startSeq endSeq hab => ?_
    obtain rfl := Option.some.inj (hasks.symm.trans hab)
    rw [hpackets, hs.history_eq]
  have hanswer : Step messages host capacity served { m with session := t } _ :=
    .answer waits hnone hreply hsame
  refine ⟨t, (run_of_moves serves hrun).tail hanswer, fun hnil => ?_⟩
  rw [hnil] at hreply
  cases hreply

/-- A request starts a call. -/
theorem Sound.request (hs : Sound messages history m) (host : String) (capacity : ℕ+)
    (served : Prop) {startSeq endSeq : UInt32} (busy : m.phase = .handling received)
    (asks : m.handler.replayRange messages received = some (startSeq, endSeq)) :
    ∃ session : Session, Step messages host capacity served m
        { m with phase := .requesting received, session } ∧
      session.requests = session.lookups.map Lookup.range ++ [(startSeq, endSeq)] ∧
      session.socketOpen = m.session.socketOpen ∧
      session.call = some ⟨startSeq, endSeq, requestPackets host startSeq endSeq⟩ := by
  have hp := hs.phase
  rw [busy] at hp
  exact ⟨_, .request busy asks, congrArg (· ++ _) (hs.session.idle hp).requests, rfl, rfl⟩

/-- A handler that is served can go on with the packets it requests. -/
theorem Sound.answers (hs : Sound messages history m) (host : String) (capacity : ℕ+)
    (hw : Waits served m)
    (hne : ∀ received, m.phase = .handling received → m.handler.expectedPacketSeq ≠ 0)
    (serves : served) (busy : m.phase = .handling received ∨ m.phase = .requesting received)
    {range : UInt32 × UInt32} (asks : m.handler.replayRange messages received = some range)
    {handler : Handler} (returns : handleDatagram messages
      (fun startSeq endSeq => .ok (history.lookupRange startSeq endSeq)) received m.handler
        = .ok () handler) :
    ∃ session, Relation.ReflTransGen (Step messages host capacity served) m
      { m with session, handler, phase := .head } ∧ session.replies ≠ [] := by
  rcases busy with hphase | hphase
  · obtain ⟨session, hstep, hlast, -⟩ := hs.request host capacity served hphase asks
    obtain ⟨session', hrun, hreplies⟩ := (hstep.sound hs hne).finishes host capacity serves rfl
      ⟨range, hlast⟩ returns
    exact ⟨session', .head hstep hrun, hreplies⟩
  · exact hs.finishes host capacity serves hphase (hw received hphase).2 returns

/-- A handler whose socket is closed can connect with a request. -/
theorem Sound.connects (hs : Sound messages history m) (host : String) (capacity : ℕ+)
    (served : Prop) {startSeq endSeq : UInt32} (busy : m.phase = .handling received)
    (asks : m.handler.replayRange messages received = some (startSeq, endSeq))
    (closed : m.session.socketOpen = false) :
    ∃ m', Relation.ReflTransGen (Step messages host capacity served) m m' ∧
      m'.phase = .requesting received ∧ m'.Pending ∧ m'.Connected ∧
      m'.abstract messages = m.abstract messages := by
  obtain ⟨session, hstep, hlast, hopen, hcall⟩ := hs.request host capacity served busy asks
  obtain ⟨-, hle⟩ := replayRange_eq_some asks
  have hconnects : Relation.ReflTransGen (Session.ClientMove capacity) session _ :=
    Session.connects host hle (hopen.trans closed) hcall
  have hrun := (Relation.ReflTransGen.single hstep).trans
    (run_of_clientMoves (m := { m with phase := .requesting received, session }) hconnects)
  refine ⟨_, hrun, rfl, ⟨_, hlast⟩, ⟨rfl, fun call query next hsome heq => ?_⟩, ?_⟩
  · -- the request is still to be sent
    obtain rfl := Option.some.inj hsome
    dsimp only at heq
    rw [sendAll_bind, sendLoop_of_ne_nil (requestBytes_ne_nil startSeq endSeq)] at heq
    cases heq
  · rw [abstract_handling busy]
    exact abstract_waiting rfl (Session.found_of_looksUp hlast)

/-- **What a member of the group can do, a handler can do over its connection.** -/
theorem Sound.realises (hs : Sound messages history m) (hw : Waits served m)
    (hne : ∀ received, m.phase = .handling received → m.handler.expectedPacketSeq ≠ 0)
    (hok : ∀ received error handler, (m.abstract messages).phase = .handling received →
      handleDatagram messages (fun startSeq endSeq => .ok (history.lookupRange startSeq endSeq))
        received (m.abstract messages).handler ≠ .error error handler) {n : Member}
    (h : Member.Step messages (fun startSeq endSeq => .ok (history.lookupRange startSeq endSeq))
      served (m.abstract messages) n) :
    ∃ m', Relation.ReflTransGen (Step messages host capacity served) m m' ∧
      m'.abstract messages = n ∧ Waits served m' := by
  obtain ⟨phase, habstract, hhead, hhandling, -⟩ := hw.abstract messages
  rw [habstract] at h hok
  cases h with
  | @lose datagram network lost =>
    refine ⟨{ m with network }, .single (.lose lost), ?_, hw⟩
    rw [abstract_withNetwork, habstract]
  | @duplicate datagram mem =>
    refine ⟨{ m with network := datagram :: m.network }, .single (.duplicate mem), ?_, hw⟩
    rw [abstract_withNetwork, habstract]
    rfl
  | receive idle goesOn arrives =>
    exact ⟨_, .single (.receive (hhead idle) goesOn arrives), abstract_handling rfl, nofun⟩
  | throw busy _ throws => exact (hok _ _ _ busy throws).elim
  | @handle received handler busy answered returns =>
    cases hr : m.handler.replayRange messages received with
    | none =>
      have hphase : m.phase = .handling received := by
        refine (hhandling received busy).resolve_right fun hphase => ?_
        have hp := hs.phase
        rw [hphase] at hp
        obtain ⟨_, _, -, hrange⟩ := hp
        cases hr.symm.trans hrange
      refine ⟨_, .single (.handle hphase hr ?_), abstract_head rfl, nofun⟩
      rw [← returns]
      exact handleDatagram_congr fun _ _ hab => nomatch hr.symm.trans hab
    | some range =>
      have hserved : served := answered ⟨received, busy, Option.isSome_iff_exists.2 ⟨range, hr⟩⟩
      obtain ⟨session, hrun, -⟩ := hs.answers host capacity hw hne hserved
        (hhandling received busy) hr returns
      exact ⟨_, hrun, abstract_head rfl, nofun⟩

end Subscriber

/-! ## The group -/

namespace Stack

variable {ι : Type} {options : Options} {messages : ι → Nat} {host : String} {capacity : ℕ+}
  {s : Stack ι} {g g' : Group ι}

/-- Handlers that request are served and wait. -/
def Waits (s : Stack ι) : Prop := ∀ i, (s.member i).Waits (s.serving = some i)

variable [DecidableEq ι]

theorem run_of_member (i : ι) {m : Subscriber}
    (hrun : Relation.ReflTransGen (Subscriber.Step (messages i) host capacity (s.serving = some i))
      (s.member i) m) :
    Relation.ReflTransGen (Step options messages host capacity) s
      { s with member := Function.update s.member i m } := by
  induction hrun with
  | refl => rw [Function.update_eq_self]
  | @tail m n _ hstep ih =>
    have hm : Function.update s.member i m i = m := Function.update_self ..
    rw [← hm] at hstep
    have hlast : Step options messages host capacity
        { s with member := Function.update s.member i m } _ := .member i hstep
    rw [Function.update_idem] at hlast
    exact ih.tail hlast

theorem Waits.update (hw : s.Waits) {i : ι} {m : Subscriber} (hm : m.Waits (s.serving = some i)) :
    Waits { s with member := Function.update s.member i m } := by
  intro j
  show (Function.update s.member i m j).Waits (s.serving = some j)
  by_cases hij : j = i
  · subst hij
    rw [Function.update_self]
    exact hm
  · rw [Function.update_of_ne hij]
    exact hw j

/-- A request makes the handler connect, and then the server accepts. -/
theorem Waits.accepts (hw : s.Waits) (hs : Sound messages s) (host : String) (capacity : ℕ+)
    {i : ι} (free : s.serving = none)
    (requests : ((s.abstract messages).member i).Requests (messages i)) :
    ∃ s', Relation.ReflTransGen (Step options messages host capacity) s s' ∧
      s'.abstract messages = { s.abstract messages with serving := some i } ∧ s'.Waits := by
  have hm := hs.members i
  obtain ⟨phase, habstract, -, hhandling, -⟩ := (hw i).abstract (messages i)
  obtain ⟨received, hphase, hsome⟩ := requests
  have hmember : (s.abstract messages).member i = (s.member i).toMember phase := habstract
  rw [hmember] at hphase hsome
  have hbusy : (s.member i).phase = .handling received := by
    refine (hhandling received hphase).resolve_right fun hr => ?_
    cases free.symm.trans (hw i received hr).1
  have hp := hm.phase
  rw [hbusy] at hp
  obtain ⟨⟨startSeq, endSeq⟩, hrange⟩ := Option.isSome_iff_exists.1 hsome
  have hclosed : (s.member i).session.socketOpen = false := by
    -- an open socket has been served
    refine Bool.not_eq_true _ ▸ fun hopen => hm.connected hopen ?_
    rw [(hm.session.idle hp).requests]
    by_contra hne
    rcases hs.lookups i (fun h => hne (by rw [h]; rfl)) with hserving | hended
    · cases free.symm.trans hserving
    · exact hended.phase_ne.1 hbusy
  obtain ⟨m', hrun, hrequesting, hpending, hconnected, hsame⟩ :=
    hm.connects host capacity (s.serving = some i) hbusy hrange hclosed
  have hself : Function.update s.member i m' i = m' := Function.update_self ..
  have hready : (Function.update s.member i m' i).Connected := by rwa [hself]
  have halive : ¬ (Function.update s.member i m' i).Ended (messages i) := by
    rw [hself]
    exact fun hended => hended.phase_ne.2 hrequesting
  refine ⟨_, (run_of_member i hrun).tail (.accept free hready halive), ?_, fun j => ?_⟩
  · have habs := abstract_update messages s i m'
    rw [hsame] at habs
    have hid : Function.update (s.abstract messages).member i
        ((s.member i).abstract (messages i)) = (s.abstract messages).member :=
      Function.update_eq_self ..
    rw [hid] at habs
    exact congrArg (fun g : Group ι => { g with serving := some i }) habs
  · show (Function.update s.member i m' j).Waits (some i = some j)
    by_cases hij : j = i
    · subst hij
      rw [Function.update_self]
      exact fun _ _ => ⟨rfl, hpending⟩
    · rw [Function.update_of_ne hij]
      intro r hr
      cases free.symm.trans (hw j r hr).1

/-- **One step** of the group can be taken over the connections. -/
theorem Waits.realises (hw : s.Waits) (hs : Sound messages s) (host : String) (capacity : ℕ+)
    (hg : Group.Sound options messages (s.abstract messages))
    (hlt : s.publisher.published.length < 2 ^ 32 - 1)
    (h : Group.Step options messages (s.abstract messages) g) :
    ∃ s', Relation.ReflTransGen (Step options messages host capacity) s s' ∧
      s'.abstract messages = g ∧ s'.Waits := by
  cases h with
  | store stored => exact ⟨_, .single (.store stored), abstract_store .., hw⟩
  | send sent => exact ⟨_, .single (.send sent), abstract_send .., hw⟩
  | accept free requests => exact hw.accepts hs host capacity free requests
  | @leave i serves ended =>
    obtain ⟨phase, habstract, hhead, -, hthrown⟩ := (hw i).abstract (messages i)
    have hmember : (s.abstract messages).member i = (s.member i).toMember phase := habstract
    have hended : (s.member i).Ended (messages i) := by
      rw [hmember] at ended
      rcases ended with ⟨error, hphase⟩ | ⟨hphase, hlimit⟩
      · exact .inl ⟨error, hthrown error hphase⟩
      · exact .inr ⟨hhead hphase, hlimit⟩
    refine ⟨_, .single (.leave serves hended), rfl, fun j r hr => ?_⟩
    obtain rfl := Option.some.inj (serves.symm.trans (hw j r hr).1)
    exact (hended.phase_ne.2 hr).elim
  | @member n i step =>
    have hok (received : Bytes) (error : RuntimeError) (handler : Handler)
        (busy : ((s.member i).abstract (messages i)).phase = .handling received) :
        handleDatagram (messages i) (fun startSeq endSeq =>
          .ok (s.publisher.packetHistory.lookupRange startSeq endSeq)) received
          ((s.member i).abstract (messages i)).handler ≠ .error error handler := by
      obtain ⟨handler', _, hreturns, -⟩ := (hg.members i).handle hg.kept hlt busy
      intro hthrows
      cases hreturns.symm.trans hthrows
    obtain ⟨m', hrun, hsame, hwaits⟩ := (hs.members i).realises (hw i)
      (fun _ => expected_ne_zero hg hlt) hok step
    refine ⟨_, run_of_member i hrun, ?_, hw.update hwaits⟩
    rw [abstract_update, hsame]

/-- A run of the group is one of the stack. -/
theorem exists_of_group (host : String) (capacity : ℕ+) (h : Group.Reachable options messages g)
    (hlt : g.publisher.published.length < 2 ^ 32 - 1) :
    ∃ s, Reachable options messages host capacity s ∧ s.abstract messages = g ∧ s.Waits := by
  induction h with
  | refl => exact ⟨{}, .refl, rfl, fun _ => nofun⟩
  | @tail g g' hrun hstep ih =>
    have hlt' := Nat.lt_of_le_of_lt hstep.published_le hlt
    obtain ⟨s, hs, rfl, hw⟩ := ih hlt'
    obtain ⟨s', hrun', hsame, hw'⟩ := hw.realises (hs.abstract hlt').2 host capacity
      (Group.Reachable.sound hrun hlt') hlt' hstep
    exact ⟨s', hs.trans hrun', hsame, hw'⟩

/-- **The connections refine the group, and add nothing to it.** In a run over the connections,
whatever the parts in which bytes are transferred and whatever the others do meanwhile, the
handlers come to what they can come to when every request is answered at once, and to all of it. -/
theorem reachable_iff (options : Options) (messages : ι → Nat) (host : String) (capacity : ℕ+)
    (g : Group ι) (hlt : g.publisher.published.length < 2 ^ 32 - 1) :
    Group.Reachable options messages g ↔
      ∃ s, Reachable options messages host capacity s ∧ s.abstract messages = g := by
  constructor
  · intro h
    obtain ⟨s, hs, hsame, -⟩ := exists_of_group host capacity h hlt
    exact ⟨s, hs, hsame⟩
  · rintro ⟨s, hs, rfl⟩
    exact (hs.abstract hlt).1

/-- Two handlers that request the first of two packets, the one over its connection, byte by
byte. -/
theorem reachable_iff_of_two :
    ∃ g : Group Bool, Group.Stalled (fun _ => 0) g false true ∧
      ∃ s, Reachable { messages := 2, messagesPerPacket := 1 } (fun _ => 0) "127.0.0.1" 1 s ∧
        s.abstract (fun _ => 0) = g := by
  obtain ⟨g, hg, hstalled, -⟩ := Group.exists_stalled
  have hcount : packetCount { messages := 2, messagesPerPacket := 1 } < 2 ^ 32 - 1 := by decide
  have hlt := Nat.lt_of_le_of_lt (Group.Reachable.sound_of_count hg hcount).paced.length_le hcount
  exact ⟨g, hstalled, (reachable_iff _ _ "127.0.0.1" 1 g hlt).1 hg⟩

end Stack

end Bmdfh
