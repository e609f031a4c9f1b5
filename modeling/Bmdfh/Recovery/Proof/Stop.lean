import Bmdfh.Recovery.Thread

/-!
# When the server can be stopped

Wherever the thread is, it has a step of its own or it waits for a client (`Waits`). No poll and no
test of `stop_` makes it wait, but `accept`, `recv` and `send` do, and nothing but the client, or a
failure of the call, ends that (`Waits.lasts`).
-/

namespace Bmdfh

open Protocol Stream Prog

namespace RecoveryServer

/-! ## The program -/

theorem sendPackets_live (packets : List Bytes) {f : Unit → ServerM Bool} (h : Live (f ())) :
    Live (sendPackets packets >>= f) := by
  induction packets with
  | nil => exact h
  | cons packet packets ih =>
    unfold sendPackets
    split
    · trivial
    · rw [bind_assoc]
      refine .sendAll ?_ _
      rw [bind_assoc]
      exact .sendAll ih _

theorem respond_live (packets : List Bytes) : Live (respond packets) := by
  refine .sendAll ?_ _
  refine sendPackets_live packets ?_
  trivial

theorem handleRequest_live : Live handleRequest := by
  refine .recvExactOrEof (fun r => ?_) _
  cases r with
  | none => trivial
  | some bytes => exact respond_live

end RecoveryServer

open RecoveryServer

namespace Server

/-! ## The thread -/

/-- While a client is served, there is one, and the program is live. -/
def Served (peer : Option Peer) : Control → Prop
  | .turn => peer.isSome
  | .serving server => Live server ∧ peer.isSome
  | _ => True

structure Inv (s : Server) : Prop where
  served : Served s.peer s.control
  stops : s.stop = true → s.owner ≠ .running
  joined : s.owner = .joined → s.control = .returned

variable {capacity : ℕ+} {s t : Server}

theorem Own.frame (h : Own capacity s t) :
    t.stop = s.stop ∧ t.owner = s.owner ∧ s.control ≠ .returned := by
  cases h <;> simp_all

theorem Fault.frame (h : Fault s t) :
    t.stop = s.stop ∧ t.owner = s.owner ∧ s.control ≠ .returned := by
  cases h <;> simp_all

theorem OfClient.frame (h : OfClient s t) :
    t.stop = s.stop ∧ t.owner = s.owner ∧ t.control = s.control := by
  cases h <;> exact ⟨rfl, rfl, rfl⟩

theorem OfOwner.frame (h : OfOwner s t) :
    t.control = s.control ∧ t.peer = s.peer ∧ t.backlog = s.backlog := by
  cases h <;> exact ⟨rfl, rfl, rfl⟩

theorem Own.served (hs : Own capacity s t) (h : Served s.peer s.control) :
    Served t.peer t.control := by
  cases hs with
  | accepts => exact rfl
  | serves control _ =>
    rw [control] at h
    exact ⟨handleRequest_live, h⟩
  | receives control _ receives _ =>
    rw [control] at h
    exact ⟨h.1.received receives, rfl⟩
  | receivesEnd control _ _ _ =>
    rw [control] at h
    exact ⟨h.1.recvTurn _, h.2⟩
  | looksUp control =>
    rw [control] at h
    exact ⟨h.1 _, h.2⟩
  | sends control _ sends _ =>
    rw [control] at h
    exact ⟨h.1.sent sends, rfl⟩
  | isRefused _ control _ _ =>
    rw [control] at h
    exact ⟨h.1.sendTurn _, h.2⟩
  | endsTurn control =>
    rw [control] at h
    exact h.2
  | _ => trivial

theorem Fault.served (hs : Fault s t) (h : Served s.peer s.control) :
    Served t.peer t.control := by
  cases hs with
  | interrupted control interrupted =>
    rw [control] at h
    exact ⟨h.1.interrupted interrupted, h.2⟩
  | recvFails control =>
    rw [control] at h
    exact ⟨h.1.recvTurn _, h.2⟩
  | sendFails control _ =>
    rw [control] at h
    exact ⟨h.1.sendTurn _, h.2⟩
  | _ => trivial

/-- What a client does to its own connection. -/
theorem Served.acts {peer peer' : Peer} {control : Control} (h : Served (some peer) control) :
    Served (some peer') control := by
  cases control with
  | turn => exact rfl
  | serving server => exact ⟨h.1, rfl⟩
  | _ => trivial

theorem OfClient.served (hs : OfClient s t) (h : Served s.peer s.control) :
    Served t.peer t.control := by
  cases hs with
  | acts peer_eq _ =>
    rw [peer_eq] at h
    exact h.acts
  | _ => exact h

/-- A step of the thread, or a fault of one of its calls. -/
theorem Inv.of_frame (h : Inv s) (served : Served t.peer t.control)
    (frame : t.stop = s.stop ∧ t.owner = s.owner ∧ s.control ≠ .returned) : Inv t := by
  obtain ⟨hstop, howner, hcontrol⟩ := frame
  refine ⟨served, ?_, ?_⟩
  · rw [hstop, howner]
    exact h.stops
  · rw [howner]
    exact fun hjoined => absurd (h.joined hjoined) hcontrol

theorem Inv.client (h : Inv s) (hs : OfClient s t) : Inv t := by
  obtain ⟨hstop, howner, hcontrol⟩ := hs.frame
  refine ⟨hs.served h.served, ?_, ?_⟩
  · rw [hstop, howner]
    exact h.stops
  · rw [howner, hcontrol]
    exact h.joined

theorem Inv.owner (h : Inv s) (hs : OfOwner s t) : Inv t := by
  cases hs with
  | stores => exact ⟨h.served, h.stops, h.joined⟩
  | stops _ => exact ⟨h.served, nofun, nofun⟩
  | joins _ control => exact ⟨h.served, nofun, fun _ => control⟩

theorem Reachable.inv (h : Reachable capacity s) : Inv s := by
  induction h with
  | refl => exact ⟨trivial, nofun, nofun⟩
  | tail _ step ih =>
    cases step with
    | own own => exact ih.of_frame (own.served ih.served) own.frame
    | client client => exact ih.client client
    | fault fault => exact ih.of_frame (fault.served ih.served) fault.frame
    | owner owner => exact ih.owner owner

/-! ## Waiting -/

theorem Waits.not_returned (h : Waits capacity s) : s.control ≠ .returned := by
  cases h <;> simp_all

/-- In a call that waits, the thread does nothing by itself. -/
theorem Waits.not_own (h : Waits capacity s) : ¬ Own capacity s t := by
  intro hs
  cases h with
  | accept control empty => cases hs <;> simp_all
  | recv control peer_eq connected silent =>
    cases hs with
    | receives _ peer_eq' receives arrived =>
      obtain rfl := Option.some.inj (peer_eq.symm.trans peer_eq')
      exact receives.stream_ne_nil arrived silent
    | sends control' _ sends _ =>
      obtain ⟨data, next, rfl⟩ := sends.sending
      simp_all
    | _ => simp_all
  | send control peer_eq connected full =>
    cases hs with
    | receives control' _ receives _ =>
      obtain ⟨size, got, next, rfl⟩ := receives.receiving
      simp_all
    | sends _ peer_eq' sends room =>
      obtain rfl := Option.some.inj (peer_eq.symm.trans peer_eq')
      have hpos := List.length_pos_iff.2 sends.ne_nil
      rw [List.length_append] at room
      omega
    | _ => simp_all

/-- The owner changes nothing that the thread waits for. -/
theorem Waits.owner (h : Waits capacity s) (hs : OfOwner s t) : Waits capacity t := by
  obtain ⟨hcontrol, hpeer, hbacklog⟩ := hs.frame
  cases h with
  | accept control empty => exact .accept (hcontrol.trans control) (hbacklog.trans empty)
  | recv control peer_eq connected silent =>
    exact .recv (hcontrol.trans control) (hpeer.trans peer_eq) connected silent
  | send control peer_eq connected full =>
    exact .send (hcontrol.trans control) (hpeer.trans peer_eq) connected full

/-- A thread that waits goes on waiting, and the owner that joins it too. -/
theorem Waits.lasts (h : Waits capacity s) (joins : s.owner = .joining)
    (run : Relation.ReflTransGen (Unaided capacity) s t) :
    Waits capacity t ∧ t.owner = .joining := by
  induction run with
  | refl => exact ⟨h, joins⟩
  | tail _ step ih =>
    obtain ⟨hwaits, howner⟩ := ih
    cases step with
    | own own => exact absurd own hwaits.not_own
    | owner owner =>
      refine ⟨hwaits.owner owner, ?_⟩
      cases owner with
      | stores => exact howner
      | stops _ => rfl
      | joins _ control => exact absurd control hwaits.not_returned

/-- The owner of a thread that waits when `stop_` is set goes on joining it. -/
theorem Reachable.joining (h : Reachable capacity s) (stops : s.stop = true)
    (waits : Waits capacity s) (run : Relation.ReflTransGen (Unaided capacity) s t) :
    t.owner = .joining := by
  have hinv := h.inv
  refine (waits.lasts ?_ run).2
  cases howner : s.owner with
  | running => exact absurd howner (hinv.stops stops)
  | joining => rfl
  | joined => exact absurd (hinv.joined howner) waits.not_returned

/-! ## Going on -/

/-- A live program is at its end, or in a call with something to do, or asks for packets. -/
theorem enabled_of_serving {server : ServerM Bool} (h : Inv s) (hc : s.control = .serving server)
    (hw : ¬ Waits capacity s) : ∃ t, Own capacity s t := by
  have hserved : Served s.peer (.serving server) := hc ▸ h.served
  obtain ⟨hlive, hsome⟩ := hserved
  obtain ⟨peer, hpeer⟩ := Option.isSome_iff_exists.1 hsome
  cases server with
  | ret goesOn =>
    cases goesOn with
    | true => exact ⟨_, .endsTurn hc⟩
    | false => exact ⟨_, .endsClient hc⟩
  | throw error => exact ⟨_, .catches hc⟩
  | query query next => exact ⟨_, .looksUp hc⟩
  | sending data next =>
    by_cases hfull : capacity ≤ peer.down.length
    · cases hgone : peer.disconnected with
      | false => exact absurd (.send hc hpeer hgone hfull) hw
      | true => exact ⟨_, .isRefused "Broken pipe" hc hpeer hgone⟩
    · obtain ⟨chunk, server', hlen, hsends⟩ := SendsChunk.exists socketFaults next hlive.1
      refine ⟨_, .sends hc hpeer hsends ?_⟩
      rw [List.length_append, hlen]
      omega
  | receiving size got next =>
    cases hup : peer.up with
    | cons byte up =>
      obtain ⟨server', hreceives⟩ := ReceivesChunk.exists socketFaults next byte hlive.1
      exact ⟨_, .receives hc hpeer hreceives hup⟩
    | nil =>
      cases hgone : peer.disconnected with
      | false => exact absurd (.recv hc hpeer hgone hup) hw
      | true => exact ⟨_, .receivesEnd hc hpeer hgone hup⟩

theorem enabled_of_not_waits (h : Inv s) (running : s.control ≠ .returned)
    (hw : ¬ Waits capacity s) : ∃ t, Own capacity s t := by
  cases hc : s.control with
  | head =>
    cases hstop : s.stop with
    | false => exact ⟨_, .loops hc hstop⟩
    | true => exact ⟨_, .returns hc hstop⟩
  | polling => exact ⟨_, .timesOut hc⟩
  | accepting =>
    cases hb : s.backlog with
    | nil => exact absurd (.accept hc hb) hw
    | cons peer backlog => exact ⟨_, .accepts hc hb⟩
  | turn =>
    cases hstop : s.stop with
    | false => exact ⟨_, .serves hc hstop⟩
    | true => exact ⟨_, .leaves hc hstop⟩
  | serving server => exact enabled_of_serving h hc hw
  | closing => exact ⟨_, .closes hc⟩
  | returned => exact absurd hc running

/-- **Stopping.** Once `stop_` is set, the thread has a step of its own exactly if it does not wait
for a client; if it does, nothing that the owner or the thread can do ends the join. -/
theorem goes_on_iff_not_waits (h : Reachable capacity s) (stops : s.stop = true)
    (running : s.control ≠ .returned) :
    ((∃ t, Own capacity s t) ↔ ¬ Waits capacity s) ∧
      (Waits capacity s →
        ∀ t, Relation.ReflTransGen (Unaided capacity) s t → t.owner = .joining) := by
  refine ⟨⟨fun ⟨t, own⟩ waits => waits.not_own own, enabled_of_not_waits h.inv running⟩, ?_⟩
  intro waits t run
  exact Reachable.joining h stops waits run

theorem goes_on_iff_not_waits_of_poll :
    ∃ t, Own 1 { stop := true, owner := .joining, control := .polling } t := by
  have reach : Reachable 1 { stop := true, owner := .joining, control := .polling } :=
    (Relation.ReflTransGen.refl.tail (.own (.loops rfl rfl))).tail (.owner (.stops rfl))
  exact (goes_on_iff_not_waits reach rfl nofun).1.2 nofun

/-- A client has connected and says nothing. -/
def silent : Server where
  stop := true
  owner := .joining
  control := .serving handleRequest
  peer := some {}

theorem stuck_behind_silent : Reachable 65536 silent ∧ silent.stop = true ∧
    silent.control ≠ .returned ∧ (¬ ∃ t, Own 65536 silent t) ∧
    ∀ t, Relation.ReflTransGen (Unaided 65536) silent t → t.owner = .joining := by
  have hwaits : Waits 65536 silent := .recv rfl rfl rfl rfl
  refine ⟨?_, rfl, nofun, fun ⟨t, own⟩ => hwaits.not_own own, fun t run => (hwaits.lasts rfl run).2⟩
  exact (((((Relation.ReflTransGen.refl.tail (.client .connects)).tail
    (.own (.loops rfl rfl))).tail (.own (.finds rfl (List.cons_ne_nil _ _)))).tail
    (.own (.accepts rfl rfl))).tail (.own (.serves rfl rfl))).tail (.owner (.stops rfl))

end Server

end Bmdfh
