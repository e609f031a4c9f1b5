import Bmdfh.Recovery.Proof.Transfer
import Mathlib.Data.Prod.Lex

/-!
# The two ends stay in step

A session is idle, or the client is sending a request that the server is to look up (`Asking`), or
the server is sending the response that the client is to return (`Answering`). In the first two
stages nothing is on the way to the client, in the third nothing is on the way to the server; the
bytes on the way and the bytes still to be sent are what the receiving end is still to take. Every
move keeps this and brings the call nearer to its end (`Busy.move`), so a call returns, and it
returns what was looked up for it (`in_step`).
-/

namespace Bmdfh

open Std OrdMap Protocol Stream Prog RecoveryServer RecoveryClient PacketHistory

namespace Session

/-! ## Histories of packets that can be sent -/

def AllSendable (history : PacketHistory) : Prop :=
  ∀ (seqNum : UInt32) (packet : Bytes), history[seqNum]? = some packet → Sendable packet

theorem AllSendable.store {history : PacketHistory} (h : AllSendable history) {packet : Bytes}
    (hp : Sendable packet) (seqNum : UInt32) : AllSendable (history.store seqNum packet) := by
  intro seq' packet' hget
  unfold PacketHistory.store at hget
  rw [get_insert] at hget
  split at hget
  · obtain rfl := Option.some.inj hget
    exact hp
  · exact h seq' packet' hget

theorem AllSendable.lookupRange {history : PacketHistory} (h : AllSendable history)
    (startSeq endSeq : UInt32) :
    ∀ packet ∈ history.lookupRange startSeq endSeq, Sendable packet := by
  intro packet hmem
  rw [lookupRange_eq, List.mem_filterMap] at hmem
  obtain ⟨seqNum, _, hget⟩ := hmem
  exact h seqNum packet hget

/-- A range holds no more packets than numbers. -/
theorem length_lookupRange_le (history : PacketHistory) {startSeq endSeq : UInt32}
    (hle : startSeq ≤ endSeq) :
    (history.lookupRange startSeq endSeq).length ≤ (endSeq - startSeq).toNat + 1 := by
  rw [lookupRange_eq, UInt32.toNat_sub_of_le _ _ hle]
  refine (List.length_filterMap_le _ _).trans ?_
  rw [seqRange, List.length_map, List.length_range]
  have := UInt32.le_iff_toNat_le.1 hle
  omega

/-! ## Stages -/

structure Idle (s : Session) : Prop where
  call : s.call = none
  up : s.up = []
  down : s.down = []
  server : s.server = handleRequest
  requests : s.requests = s.lookups.map Lookup.range
  replies : s.replies = s.lookups.map Lookup.reply

/-- `out` is still to be sent by the client, which asks its socket `k` times before. -/
structure Asking (s : Session) (call : Call) (k : Nat) (out : Bytes) : Prop where
  call_eq : s.call = some call
  le : call.startSeq ≤ call.endSeq
  fits : CountFits s.history call.startSeq call.endSeq
  client : ∃ opened, Sends socketAnswer s.socketOpen call.prog k out opened
    (receiveResponse call.startSeq call.endSeq)
  server : Receives s.server (s.up ++ out) (.query (call.startSeq, call.endSeq) respond)
  down : s.down = []
  requests : s.requests = s.lookups.map Lookup.range ++ [call.range]
  replies : s.replies = s.lookups.map Lookup.reply

/-- `out` is still to be sent by the server, if anything. -/
structure Answering (s : Session) (call : Call) (lookup : Lookup) (out : Bytes) : Prop where
  call_eq : s.call = some call
  range : lookup.range = call.range
  server : (out = [] ∧ s.server = handleRequest) ∨
    (out ≠ [] ∧ Sends silent () s.server 0 out () (.ret true))
  client : Receives call.prog (s.down ++ out)
    (.ret (lookup.history.lookupRange lookup.startSeq lookup.endSeq))
  up : s.up = []
  requests : s.requests = s.lookups.map Lookup.range
  replies : ∃ lookups, s.lookups = lookups ++ [lookup] ∧ s.replies = lookups.map Lookup.reply

/-- A call is in progress; the measure is lexicographic, a lookup yet to be made comes first. -/
inductive Busy : ℕ ×ₗ ℕ → Session → Prop
  | asking {s : Session} {call : Call} {k : Nat} {out : Bytes} (h : Asking s call k out) :
      Busy (toLex (1, k + 2 * out.length + s.up.length)) s
  | answering {s : Session} {call : Call} {lookup : Lookup} {out : Bytes}
      (h : Answering s call lookup out) :
      Busy (toLex (0, 2 * out.length + s.down.length)) s

theorem receiveResponse_eq (startSeq endSeq : UInt32) :
    ∃ next, receiveResponse startSeq endSeq = .receiving 4 [] next := ⟨_, rfl⟩

theorem handleRequest_eq : ∃ next, handleRequest = .receiving 8 [] next := ⟨_, rfl⟩

/-- A server that is to look something up is at no end of a turn. -/
theorem handleClient_of_receives {server : ServerM Bool} {inp : Bytes} {query : UInt32 × UInt32}
    {next : List Bytes → ServerM Bool} (h : Receives server inp (.query query next)) :
    handleClient server = server := by
  cases h <;> rfl

/-- A server on its way through a response, at the end of the turn at the latest. -/
theorem handleClient_of_sends {server : ServerM Bool} {out : Bytes}
    (h : Sends silent () server 0 out () (.ret true)) :
    (out = [] ∧ handleClient server = handleRequest) ∨
      (out ≠ [] ∧ Sends silent () (handleClient server) 0 out () (.ret true)) := by
  cases h with
  | done => exact .inl ⟨rfl, rfl⟩
  | send ne rest =>
    exact .inr ⟨fun h => ne (List.append_eq_nil_iff.1 h).1, .send ne rest⟩

theorem lt_of_snd_lt {i m n : ℕ} (h : m < n) : toLex (i, m) < toLex (i, n) :=
  Prod.Lex.toLex_lt_toLex.2 (.inr ⟨rfl, h⟩)

theorem lt_of_fst_lt {m n : ℕ} : toLex (0, m) < toLex (1, n) :=
  Prod.Lex.toLex_lt_toLex.2 (.inl Nat.zero_lt_one)

variable {capacity : ℕ+} {s t : Session} {call : Call}

/-! ## The request -/

section
variable {k : Nat} {out : Bytes}

/-- The server looks up when the whole request has arrived; the client then waits. -/
theorem Asking.arrived (h : Asking s call k out) {query : UInt32 × UInt32}
    {next : List Bytes → ServerM Bool} (hq : s.server = .query query next) :
    query = (call.startSeq, call.endSeq) ∧ next = respond ∧ s.up = [] ∧
      call.prog = receiveResponse call.startSeq call.endSeq := by
  have hserver := h.server
  rw [hq] at hserver
  have hnil : s.up ++ out = [] := by
    by_contra hne
    obtain ⟨_, _, _, _, heq⟩ := hserver.moves hne
    cases heq
  obtain ⟨hup, rfl⟩ := List.append_eq_nil_iff.1 hnil
  rw [hnil] at hserver
  obtain ⟨opened, hclient⟩ := h.client
  obtain ⟨_, _, hprog⟩ := hclient.of_nil
  cases hserver.of_nil
  exact ⟨rfl, rfl, hup, hprog.symm⟩

/-- The lookup opens the response. -/
theorem Asking.lookUp (h : Asking s call k out) (hs : AllSendable s.history)
    {query : UInt32 × UInt32} {next : List Bytes → ServerM Bool}
    (hq : s.server = .query query next) :
    Answering { s with
        server := handleClient (next (s.history.lookupRange query.1 query.2))
        lookups := s.lookups ++ [⟨query.1, query.2, s.history⟩] } call
      ⟨query.1, query.2, s.history⟩
      (responseBytes (s.history.lookupRange query.1 query.2)) := by
  obtain ⟨rfl, rfl, hup, hprog⟩ := h.arrived hq
  have hsend := hs.lookupRange call.startSeq call.endSeq
  refine ⟨h.call_eq, rfl, handleClient_of_sends (respond_sends hsend), ?_, hup, ?_,
    s.lookups, rfl, h.replies⟩
  · show Receives call.prog (s.down ++ _) _
    rw [h.down, hprog]
    exact receiveResponse_receives hsend h.fits (length_lookupRange_le _ h.le)
  · rw [List.map_append]
    exact h.requests

theorem Asking.progress (h : Asking s call k out) {n : Nat}
    (hlt : k + 2 * out.length + s.up.length < n) : ∃ m < toLex (1, n), Busy m s :=
  ⟨_, lt_of_snd_lt hlt, .asking h⟩

/-- A move of the client, or of the server on the request, leaves less to do. -/
theorem Asking.move (h : Asking s call k out) (hs : AllSendable s.history)
    (hm : Move capacity s t) :
    ∃ m < toLex (1, k + 2 * out.length + s.up.length), Busy m t := by
  obtain ⟨opened, hclient⟩ := h.client
  have hserver := h.server
  obtain ⟨waits, hwaits⟩ := receiveResponse_eq call.startSeq call.endSeq
  cases hm with
  | clientAsks calls asks =>
    obtain rfl := Option.some.inj (h.call_eq.symm.trans calls)
    obtain ⟨k', rfl, hsends⟩ := hclient.asked (by rw [hwaits]; intros; nofun) asks
    have hlt : k' + 2 * out.length + s.up.length < k' + 1 + 2 * out.length + s.up.length := by
      omega
    apply Asking.progress
    · exact ⟨rfl, h.le, h.fits, ⟨opened, hsends⟩, hserver, h.down, h.requests, h.replies⟩
    · exact hlt
  | clientSends calls sends _ =>
    rename_i chunk _ _
    obtain rfl := Option.some.inj (h.call_eq.symm.trans calls)
    obtain ⟨out', rfl, ne, hsends⟩ := hclient.sent (by rw [hwaits]; intros; nofun) sends
    rw [← List.append_assoc] at hserver
    have hlt : k + 2 * out'.length + (s.up ++ chunk).length
        < k + 2 * (chunk ++ out').length + s.up.length := by
      have := List.length_pos_iff.2 ne
      simp only [List.length_append]
      omega
    apply Asking.progress
    · exact ⟨rfl, h.le, h.fits, ⟨opened, hsends⟩, hserver, h.down, h.requests, h.replies⟩
    · exact hlt
  | clientReceives _ receives arrived => exact absurd h.down (receives.stream_ne_nil arrived)
  | clientReturns calls returns =>
    obtain rfl := Option.some.inj (h.call_eq.symm.trans calls)
    rw [returns, hwaits] at hclient
    cases hclient
  | clientThrows calls throws =>
    obtain rfl := Option.some.inj (h.call_eq.symm.trans calls)
    rw [throws, hwaits] at hclient
    cases hclient
  | serverReceives receives arrived =>
    rename_i chunk up _
    rw [arrived, List.append_assoc] at hserver
    have hrest := hserver.received receives
    have hlt : k + 2 * out.length + up.length < k + 2 * out.length + s.up.length := by
      have := List.length_pos_iff.2 receives.ne_nil
      rw [arrived, List.length_append]
      omega
    rw [← handleClient_of_receives hrest] at hrest
    apply Asking.progress
    · exact ⟨h.call_eq, h.le, h.fits, h.client, hrest, h.down, h.requests, h.replies⟩
    · exact hlt
  | serverLooksUp asks => exact ⟨_, lt_of_fst_lt, .answering (h.lookUp hs asks)⟩
  | serverSends sends _ =>
    obtain ⟨_, _, heq⟩ := sends.sending
    rw [heq] at hserver
    generalize s.up ++ out = inp at hserver
    cases hserver

/-- Whoever is to act can: the server as long as bytes are on the way to it, else the client, and
the server again once all have arrived. -/
theorem Asking.enabled (h : Asking s call k out) : ∃ t, Move capacity s t := by
  obtain ⟨opened, hclient⟩ := h.client
  by_cases hup : s.up = []
  · by_cases hout : out = []
    · have hserver := h.server
      rw [hup, hout] at hserver
      exact ⟨_, .serverLooksUp hserver.of_nil.symm⟩
    · rcases hclient.moves hout with ⟨data, next, ne, heq⟩ | ⟨query, next, heq⟩
      · obtain ⟨chunk, prog, hlen, hsends⟩ := SendsChunk.exists socketFaults next ne
        rw [← heq] at hsends
        refine ⟨_, .clientSends h.call_eq hsends ?_⟩
        rw [hup, List.nil_append, hlen]
        exact capacity.2
      · have hasks : Asks socketAnswer s.socketOpen (.query query next) _ _ := .answered
        rw [← heq] at hasks
        exact ⟨_, .clientAsks h.call_eq hasks⟩
  · have hserver := h.server
    obtain ⟨b, up, hcons⟩ := List.exists_cons_of_ne_nil hup
    obtain ⟨size, got, next, hlt, heq⟩ :=
      hserver.moves fun h => hup (List.append_eq_nil_iff.1 h).1
    obtain ⟨server, hreceives⟩ := ReceivesChunk.exists socketFaults next b hlt
    rw [← heq] at hreceives
    exact ⟨_, .serverReceives hreceives hcons⟩

end

/-! ## The response -/

section
variable {lookup : Lookup} {out : Bytes}

/-- The client returns when the whole response has arrived; the server then waits. -/
theorem Answering.arrived (h : Answering s call lookup out) {packets : List Bytes}
    (hr : call.prog = .ret packets) :
    packets = lookup.history.lookupRange lookup.startSeq lookup.endSeq ∧ s.down = [] ∧
      s.server = handleRequest := by
  have hclient := h.client
  rw [hr] at hclient
  generalize hinp : s.down ++ out = inp at hclient
  cases hclient
  obtain ⟨hdown, rfl⟩ := List.append_eq_nil_iff.1 hinp
  rcases h.server with ⟨_, hserver⟩ | ⟨hne, _⟩
  · exact ⟨rfl, hdown, hserver⟩
  · exact absurd rfl hne

theorem Answering.progress (h : Answering s call lookup out) {n : Nat}
    (hlt : 2 * out.length + s.down.length < n) : Idle s ∨ ∃ m < toLex (0, n), Busy m s :=
  .inr ⟨_, lt_of_snd_lt hlt, .answering h⟩

/-- A move of the server on the response, or of the client, leaves less to do or ends the call. -/
theorem Answering.move (h : Answering s call lookup out) (hm : Move capacity s t) :
    Idle t ∨ ∃ m < toLex (0, 2 * out.length + s.down.length), Busy m t := by
  have hclient := h.client
  obtain ⟨waits, hwaits⟩ := handleRequest_eq
  cases hm with
  | clientAsks calls asks =>
    obtain rfl := Option.some.inj (h.call_eq.symm.trans calls)
    obtain ⟨_, _, heq⟩ := asks.query
    rw [heq] at hclient
    generalize s.down ++ out = inp at hclient
    cases hclient
  | clientSends calls sends _ =>
    obtain rfl := Option.some.inj (h.call_eq.symm.trans calls)
    obtain ⟨_, _, heq⟩ := sends.sending
    rw [heq] at hclient
    generalize s.down ++ out = inp at hclient
    cases hclient
  | clientReceives calls receives arrived =>
    rename_i chunk down _
    obtain rfl := Option.some.inj (h.call_eq.symm.trans calls)
    rw [arrived, List.append_assoc] at hclient
    have hrest := hclient.received receives
    have hlt : 2 * out.length + down.length < 2 * out.length + s.down.length := by
      have := List.length_pos_iff.2 receives.ne_nil
      rw [arrived, List.length_append]
      omega
    apply Answering.progress
    · exact ⟨rfl, h.range, h.server, hrest, h.up, h.requests, h.replies⟩
    · exact hlt
  | clientReturns calls returns =>
    obtain rfl := Option.some.inj (h.call_eq.symm.trans calls)
    obtain ⟨rfl, hdown, hserver⟩ := h.arrived returns
    obtain ⟨lookups, hlookups, hreplies⟩ := h.replies
    obtain ⟨hstart, hend⟩ := Prod.mk.inj h.range
    refine .inl ⟨rfl, h.up, hdown, hserver, h.requests, ?_⟩
    show s.replies ++ [_] = s.lookups.map Lookup.reply
    rw [hlookups, hreplies, List.map_append, ← hstart, ← hend]
    rfl
  | clientThrows calls throws =>
    obtain rfl := Option.some.inj (h.call_eq.symm.trans calls)
    rw [throws] at hclient
    generalize s.down ++ out = inp at hclient
    cases hclient
  | serverReceives receives arrived => exact absurd h.up (receives.stream_ne_nil arrived)
  | serverLooksUp asks =>
    rcases h.server with ⟨_, hserver⟩ | ⟨_, hserver⟩
    · rw [hserver, hwaits] at asks
      cases asks
    · rw [asks] at hserver
      cases hserver
  | serverSends sends _ =>
    rename_i chunk _ _
    rcases h.server with ⟨_, hserver⟩ | ⟨_, hserver⟩
    · obtain ⟨_, _, heq⟩ := sends.sending
      rw [hserver, hwaits] at heq
      cases heq
    · obtain ⟨out', rfl, ne, hsends⟩ := hserver.sent (by intros; nofun) sends
      rw [← List.append_assoc] at hclient
      have hlt : 2 * out'.length + (s.down ++ chunk).length
          < 2 * (chunk ++ out').length + s.down.length := by
        have := List.length_pos_iff.2 ne
        simp only [List.length_append]
        omega
      apply Answering.progress
      · exact ⟨h.call_eq, h.range, handleClient_of_sends hsends, hclient, h.up, h.requests,
          h.replies⟩
      · exact hlt

/-- Whoever is to act can: the client as long as bytes are on the way to it, else the server, and
the client again once all have arrived. -/
theorem Answering.enabled (h : Answering s call lookup out) : ∃ t, Move capacity s t := by
  have hclient := h.client
  by_cases hdown : s.down = []
  · rcases h.server with ⟨rfl, _⟩ | ⟨hout, hserver⟩
    · rw [hdown] at hclient
      exact ⟨_, .clientReturns h.call_eq hclient.of_nil.symm⟩
    · rcases hserver.moves hout with ⟨data, next, ne, heq⟩ | ⟨query, next, heq⟩
      · obtain ⟨chunk, server, hlen, hsends⟩ := SendsChunk.exists socketFaults next ne
        rw [← heq] at hsends
        refine ⟨_, .serverSends hsends ?_⟩
        rw [hdown, List.nil_append, hlen]
        exact capacity.2
      · exact ⟨_, .serverLooksUp heq⟩
  · obtain ⟨b, down, hcons⟩ := List.exists_cons_of_ne_nil hdown
    obtain ⟨size, got, next, hlt, heq⟩ :=
      hclient.moves fun h => hdown (List.append_eq_nil_iff.1 h).1
    obtain ⟨prog, hreceives⟩ := ReceivesChunk.exists socketFaults next b hlt
    rw [← heq] at hreceives
    exact ⟨_, .clientReceives h.call_eq hreceives hcons⟩

end

/-! ## Whole sessions -/

theorem handleClient_of_interrupted {server server' : ServerM Bool}
    (h : Interrupted socketFaults server server') : handleClient server' = server := by
  cases h <;> rfl

/-- A quiet step changes the history at most. -/
theorem Quiet.cases (h : Quiet s t) : t = s ∨ ∃ seqNum packet, Sendable packet ∧
    (∀ call, s.call = some call →
      CountFits (s.history.store seqNum packet) call.startSeq call.endSeq) ∧
    t = { s with history := s.history.store seqNum packet } := by
  cases h with
  | clientInterrupted calls interrupted =>
    obtain rfl := interrupted.eq
    refine .inl ?_
    rw [← calls]
  | serverInterrupted interrupted =>
    refine .inl ?_
    rw [handleClient_of_interrupted interrupted]
  | store sendable fits => exact .inr ⟨_, _, sendable, fits, rfl⟩

theorem Busy.call_ne_none {m : ℕ ×ₗ ℕ} (h : Busy m s) : s.call ≠ none := by
  cases h with
  | asking h => rw [h.call_eq]; nofun
  | answering h => rw [h.call_eq]; nofun

theorem Busy.quiet {m : ℕ ×ₗ ℕ} (h : Busy m s) (hq : Quiet s t) : Busy m t := by
  rcases hq.cases with rfl | ⟨seqNum, packet, hp, hfits, rfl⟩
  · exact h
  cases h with
  | @asking _ call k out h =>
    have hasking : Asking { s with history := s.history.store seqNum packet } call k out :=
      ⟨h.call_eq, h.le, hfits _ h.call_eq, h.client, h.server, h.down, h.requests, h.replies⟩
    exact .asking hasking
  | @answering _ call lookup out h =>
    have hanswering :
        Answering { s with history := s.history.store seqNum packet } call lookup out :=
      ⟨h.call_eq, h.range, h.server, h.client, h.up, h.requests, h.replies⟩
    exact .answering hanswering

theorem Idle.quiet (h : Idle s) (hq : Quiet s t) : Idle t := by
  rcases hq.cases with rfl | ⟨seqNum, packet, hp, _, rfl⟩
  · exact h
  · exact ⟨h.call, h.up, h.down, h.server, h.requests, h.replies⟩

theorem AllSendable.quiet (h : AllSendable s.history) (hq : Quiet s t) :
    AllSendable t.history := by
  rcases hq.cases with rfl | ⟨seqNum, packet, hp, _, rfl⟩
  · exact h
  · exact h.store hp seqNum

theorem Move.history_eq (h : Move capacity s t) : t.history = s.history := by
  cases h <;> rfl

theorem Busy.move {m : ℕ ×ₗ ℕ} (h : Busy m s) (hs : AllSendable s.history)
    (hm : Move capacity s t) : Idle t ∨ ∃ m' < m, Busy m' t := by
  cases h with
  | asking h => exact .inr (h.move hs hm)
  | answering h => exact h.move hm

theorem Busy.enabled {m : ℕ ×ₗ ℕ} (h : Busy m s) : ∃ t, Move capacity s t := by
  cases h with
  | asking h => exact h.enabled
  | answering h => exact h.enabled

/-- Between two calls there is nothing to do. -/
theorem Idle.not_move (h : Idle s) : ¬ Move capacity s t := by
  intro hm
  obtain ⟨waits, hwaits⟩ := handleRequest_eq
  have hserver := h.server.trans hwaits
  cases hm with
  | clientAsks calls _ => exact absurd (h.call.symm.trans calls) nofun
  | clientSends calls _ _ => exact absurd (h.call.symm.trans calls) nofun
  | clientReceives calls _ _ => exact absurd (h.call.symm.trans calls) nofun
  | clientReturns calls _ => exact absurd (h.call.symm.trans calls) nofun
  | clientThrows calls _ => exact absurd (h.call.symm.trans calls) nofun
  | serverReceives receives arrived => exact absurd h.up (receives.stream_ne_nil arrived)
  | serverLooksUp asks => exact absurd (hserver.symm.trans asks) nofun
  | serverSends sends _ =>
    obtain ⟨_, _, heq⟩ := sends.sending
    exact absurd (hserver.symm.trans heq) nofun

/-- What holds between any two steps. -/
structure Sound (s : Session) : Prop where
  sendable : AllSendable s.history
  stage : Idle s ∨ ∃ m, Busy m s

variable {host : String}

theorem Idle.request (h : Idle s) {startSeq endSeq : UInt32} (hle : startSeq ≤ endSeq)
    (hfits : CountFits s.history startSeq endSeq) : ∃ m, Busy m { s with
      call := some ⟨startSeq, endSeq, requestPackets host startSeq endSeq⟩
      requests := s.requests ++ [(startSeq, endSeq)] } := by
  obtain ⟨k, opened, hsends⟩ := requestPackets_sends host hle s.socketOpen
  have hserver := handleRequest_receives startSeq endSeq
  rw [← h.server] at hserver
  have hup : s.up ++ requestBytes startSeq endSeq = requestBytes startSeq endSeq := by
    rw [h.up, List.nil_append]
  rw [← hup] at hserver
  have hrequests := congrArg (· ++ [(startSeq, endSeq)]) h.requests
  exact ⟨_, .asking ⟨rfl, hle, hfits, ⟨opened, hsends⟩, hserver, h.down, hrequests, h.replies⟩⟩

theorem Sound.step (h : Sound s) (hs : Step host capacity s t) : Sound t := by
  cases hs with
  | move move =>
    refine ⟨move.history_eq ▸ h.sendable, ?_⟩
    rcases h.stage with hidle | ⟨m, hbusy⟩
    · exact absurd move hidle.not_move
    · rcases hbusy.move h.sendable move with hidle | ⟨m', _, hbusy⟩
      · exact .inl hidle
      · exact .inr ⟨m', hbusy⟩
  | quiet quiet =>
    refine ⟨h.sendable.quiet quiet, ?_⟩
    rcases h.stage with hidle | ⟨m, hbusy⟩
    · exact .inl (hidle.quiet quiet)
    · exact .inr ⟨m, hbusy.quiet quiet⟩
  | request idle le fits =>
    refine ⟨h.sendable, .inr ?_⟩
    rcases h.stage with hidle | ⟨m, hbusy⟩
    · exact hidle.request le fits
    · exact absurd idle hbusy.call_ne_none

theorem Reachable.sound {history : PacketHistory} (hs : AllSendable history)
    (h : Reachable host capacity history s) : Sound s := by
  induction h with
  | refl => exact ⟨hs, .inl ⟨rfl, rfl, rfl, rfl, rfl, rfl⟩⟩
  | tail _ hstep ih => exact ih.step hstep

theorem Sound.returns (h : Sound s) : Returns capacity s := by
  rcases h.stage with hidle | ⟨m, hbusy⟩
  · exact .here hidle.call
  refine Inevitable.of_measure (I := fun m s => AllSendable s.history ∧ Busy m s)
    (fun hi => hi.2.enabled) (fun hi hm => ?_) (fun hi hq => ⟨hi.1.quiet hq, hi.2.quiet hq⟩)
    ⟨h.sendable, hbusy⟩
  rcases hi.2.move hi.1 hm with hidle | ⟨m', hlt, hbusy⟩
  · exact .inl hidle.call
  · exact .inr ⟨m', hlt, hm.history_eq ▸ hi.1, hbusy⟩

/-- **Replay is exact and stays in step.** However the streams split the bytes, whatever is
interrupted and whatever is stored meanwhile, every call of `request_packets` returns. Between two
calls every range requested has been looked up once, in order, and the client has been given the
packets that the history held then; no byte is left on the way, and the server waits for the first
byte of a request. -/
theorem in_step (host : String) (capacity : ℕ+) {history : PacketHistory}
    (hs : AllSendable history) {s : Session} (h : Reachable host capacity history s) :
    Returns capacity s ∧
      (s.call = none → s.requests = s.lookups.map Lookup.range ∧
        s.replies = s.lookups.map Lookup.reply ∧ s.up = [] ∧ s.down = [] ∧
        s.server = handleRequest) := by
  have hsound := h.sound hs
  refine ⟨hsound.returns, fun hnone => ?_⟩
  rcases hsound.stage with hidle | ⟨m, hbusy⟩
  · exact ⟨hidle.requests, hidle.replies, hidle.up, hidle.down, hidle.server⟩
  · exact absurd hnone hbusy.call_ne_none

/-- Moves look up in the history as it is. -/
theorem Move.lookups (hm : Move capacity s t)
    (h : ∀ lookup ∈ s.lookups, lookup.history = s.history) :
    ∀ lookup ∈ t.lookups, lookup.history = t.history := by
  cases hm with
  | serverLooksUp _ =>
    intro lookup hmem
    rw [List.mem_append, List.mem_singleton] at hmem
    rcases hmem with hmem | rfl
    · exact h lookup hmem
    · rfl
  | _ => exact h

theorem Move.requests_eq (h : Move capacity s t) : t.requests = s.requests := by
  cases h <;> rfl

/-- What moves alone do to the first call of a session. -/
theorem lookups_of_moves (hrun : Relation.ReflTransGen (Move capacity) s t)
    (h : s.lookups = []) :
    t.requests = s.requests ∧ t.history = s.history ∧
      ∀ lookup ∈ t.lookups, lookup.history = t.history := by
  induction hrun with
  | refl => exact ⟨rfl, rfl, by rw [h]; nofun⟩
  | tail _ hm ih =>
    obtain ⟨hrequests, hhistory, hlookups⟩ := ih
    exact ⟨hm.requests_eq.trans hrequests, hm.history_eq.trans hhistory, hm.lookups hlookups⟩

/-- A packet of one byte, replayed byte by byte. -/
theorem in_step_of_one_packet : ∃ s,
    Reachable "127.0.0.1" 1 (PacketHistory.store ∅ 1 [7]) s ∧ s.call = none ∧
      s.replies = [⟨1, 1, .ok [[7]]⟩] ∧ s.up = [] ∧ s.down = [] ∧ s.server = handleRequest := by
  have hs : AllSendable (PacketHistory.store ∅ 1 [7]) := by
    have hp : Sendable [7] := ⟨List.cons_ne_nil 7 [], by decide⟩
    refine AllSendable.store (fun _ _ hget => ?_) hp 1
    rw [ExtTreeMap.getElem?_empty] at hget
    cases hget
  have hfound : (PacketHistory.store ∅ 1 [7]).lookupRange 1 1 = [[7]] := by
    rw [lookupRange_eq]
    rfl
  have hfits : CountFits (PacketHistory.store ∅ 1 [7]) 1 1 := by
    rw [CountFits, hfound]
    decide
  have hrequest : Reachable "127.0.0.1" 1 (PacketHistory.store ∅ 1 [7]) _ :=
    .tail .refl (.request rfl (UInt32.le_refl 1) hfits)
  -- the call returns, so moves alone lead to its return
  obtain ⟨t, hrun, hnone⟩ := (in_step "127.0.0.1" 1 hs hrequest).1.exists_run
  have hreach : Reachable "127.0.0.1" 1 _ t := hrequest.trans (hrun.lift id fun _ _ => Step.move)
  obtain ⟨hrequests, hreplies, hup, hdown, hserver⟩ := (in_step "127.0.0.1" 1 hs hreach).2 hnone
  obtain ⟨hone, hhistory, hlookups⟩ := lookups_of_moves hrun rfl
  refine ⟨t, hreach, hnone, ?_, hup, hdown, hserver⟩
  rw [hone] at hrequests
  obtain ⟨lookup, hlookup, hrange⟩ := List.map_eq_singleton_iff.1 hrequests.symm
  rw [hlookup] at hreplies hlookups
  have heq : lookup = ⟨1, 1, PacketHistory.store ∅ 1 [7]⟩ := by
    obtain ⟨startSeq, endSeq, history⟩ := lookup
    obtain ⟨rfl, rfl⟩ := Prod.mk.inj hrange
    obtain rfl := (hlookups _ (List.mem_singleton_self _)).trans hhistory
    rfl
  rw [hreplies, heq, List.map_singleton, Lookup.reply, hfound]

end Session

end Bmdfh
