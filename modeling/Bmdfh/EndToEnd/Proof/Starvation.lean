import Bmdfh.EndToEnd.Proof.CatchUp

/-!
# Handlers that wait for the server

The server stays with a client until that client is gone. A handler that requests packets
meanwhile is `Stalled`: nothing but the end of the handler that is served can set it free
(`Step.stalled`), and if that one has no limit nothing ever does (`starves`).
-/

namespace Bmdfh

open OrdMap Protocol Handler

namespace Member

variable {messages : Nat} {p : Publisher} {m : Member}

/-- A packet with a number beyond the next makes the handler request those before it. -/
theorem Sound.requests {received : Bytes} (hk : p.Kept) (hlt : p.published.length < 2 ^ 32 - 1)
    (hs : Sound messages p m) (busy : m.phase = .handling received) {k : Nat}
    (number : System.seqNumOf received = some k)
    (gap : m.handler.expectedPacketSeq.toNat < k) : m.Requests messages := by
  have hp := hs.phase
  rw [busy] at hp
  obtain ⟨n, i, hn, hl, hpub, -⟩ := hp
  rw [hpub.seqNumOf hk hlt, Option.some.injEq] at number
  obtain ⟨hi, hget⟩ := hpub
  obtain ⟨bytes, hget', hc⟩ := hk.history i hi
  rw [hget, Option.some.injEq] at hget'
  subst hget'
  obtain ⟨packet, hparse, hseq, -, -⟩ := hc.parsed
  have hahead : m.handler.expectedPacketSeq < decodeSeqNum packet.header := by
    rw [hseq, UInt32.lt_iff_toNat_lt, toNat_seqNum hlt (Nat.le_of_lt hi)]
    omega
  obtain ⟨hfirst, -⟩ := gap_of_lt hahead
  have hparked : first? (m.handler.park (decodeSeqNum packet.header) received).bufferedPackets
      = some (decodeSeqNum packet.header, received) := (parkedAt_park (hn.parked hl) _ _).first?
  refine ⟨received, busy, ?_⟩
  unfold replayRange
  rw [hparse]
  dsimp only
  rw [if_neg (UInt32.lt_asymm hahead), if_pos hahead, hparked]
  dsimp only
  rw [limitReached_eq_false_iff.2 hl, decide_eq_false (UInt32.not_lt.2 hfirst)]
  rfl

end Member

namespace Group

variable {ι : Type} {options : Options} {messages : ι → Nat} {s s' : Group ι} {i j : ι}

/-- The `i`-th handler requests packets while the server serves the `j`-th. -/
structure Stalled (messages : ι → Nat) (s : Group ι) (i j : ι) : Prop where
  ne : i ≠ j
  serving : s.serving = some j
  requests : (s.member i).Requests (messages i)

theorem Stalled.head_ne (h : Stalled messages s i j) : (s.member i).phase ≠ .head := by
  obtain ⟨_, hphase, _⟩ := h.requests
  rw [hphase]
  nofun

theorem Stalled.of_same (h : Stalled messages s i j) (hserving : s'.serving = s.serving)
    (hphase : (s'.member i).phase = (s.member i).phase)
    (hhandler : (s'.member i).handler = (s.member i).handler) :
    Stalled messages s' i j ∧ (s'.member i).phase = (s.member i).phase ∧
      (s'.member i).handler = (s.member i).handler := by
  obtain ⟨received, hbusy, hsome⟩ := h.requests
  exact ⟨⟨h.ne, hserving.trans h.serving, received, hphase.trans hbusy, hhandler ▸ hsome⟩, hphase,
    hhandler⟩

section
variable [DecidableEq ι]

/-- **One step** leaves it stalled, with the handler as it is, unless the handler served has
ended. -/
theorem Step.stalled (hstep : Step options messages s s') (h : Stalled messages s i j) :
    (s.member j).Ended (messages j) ∨ (Stalled messages s' i j ∧
      (s'.member i).phase = (s.member i).phase ∧
      (s'.member i).handler = (s.member i).handler) := by
  cases hstep with
  | store stored => exact .inr (h.of_same rfl rfl rfl)
  | send sent => exact .inr (h.of_same rfl rfl rfl)
  | accept free _ => cases free.symm.trans h.serving
  | leave serves ended =>
    cases serves.symm.trans h.serving
    exact .inl ended
  | @member m k step =>
    right
    by_cases hk : i = k
    · subst hk
      have hm : Function.update s.member i m i = m := Function.update_self ..
      have hserved : ¬ ((s.member i).Requests (messages i) → s.serving = some i) := fun hr => by
        cases h.serving.symm.trans (hr h.requests)
        exact h.ne rfl
      obtain ⟨received, hbusy, -⟩ := h.requests
      have hsame : m.phase = (s.member i).phase ∧ m.handler = (s.member i).handler := by
        cases step with
        | lose => exact ⟨rfl, rfl⟩
        | duplicate => exact ⟨rfl, rfl⟩
        | receive idle _ _ => cases idle.symm.trans hbusy
        | handle _ answered _ => exact (hserved answered).elim
        | throw _ answered _ => exact (hserved answered).elim
      exact h.of_same rfl ((congrArg Member.phase hm).trans hsame.1)
        ((congrArg Member.handler hm).trans hsame.2)
    · have hm : Function.update s.member k m i = s.member i := Function.update_of_ne hk ..
      exact h.of_same rfl (congrArg Member.phase hm) (congrArg Member.handler hm)

/-- A run leaves it stalled, or comes to where the handler served has ended and it still is. -/
theorem stalled_of_run (h : Stalled messages s i j)
    (hrun : Relation.ReflTransGen (Step options messages) s s') :
    (∃ t, Relation.ReflTransGen (Step options messages) s t ∧ Stalled messages t i j ∧
      (t.member j).Ended (messages j)) ∨
    (Stalled messages s' i j ∧ (s'.member i).phase = (s.member i).phase ∧
      (s'.member i).handler = (s.member i).handler) := by
  induction hrun with
  | refl => exact .inr ⟨h, rfl, rfl⟩
  | @tail t t' hrun hstep ih =>
    rcases ih with hended | ⟨hstalled, hphase, hhandler⟩
    · exact .inl hended
    · rcases hstep.stalled hstalled with hended | ⟨hstalled', hphase', hhandler'⟩
      · exact .inl ⟨t, hrun, hstalled, hended⟩
      · exact .inr ⟨hstalled', hphase'.trans hphase, hhandler'.trans hhandler⟩

/-- **Waiting for the server.** A stalled handler can come to the head of its loop just when the
handler that is served can end. -/
theorem goes_on_iff_served_ends (options : Options) (messages : ι → Nat) (s : Group ι) (i j : ι)
    (h : Reachable options messages s) (hcount : packetCount options < 2 ^ 32 - 1)
    (hstalled : Stalled messages s i j) :
    (∃ s', Relation.ReflTransGen (Step options messages) s s' ∧ (s'.member i).phase = .head) ↔
      ∃ s', Relation.ReflTransGen (Step options messages) s s' ∧
        (s'.member j).Ended (messages j) := by
  constructor
  · rintro ⟨s', hrun, hhead⟩
    rcases stalled_of_run hstalled hrun with ⟨t, hrun', -, hended⟩ | ⟨hstalled', -⟩
    · exact ⟨t, hrun', hended⟩
    · exact (hstalled'.head_ne hhead).elim
  · rintro ⟨s', hrun, hended⟩
    obtain ⟨t, hrun', ht, hended⟩ : ∃ t, Relation.ReflTransGen (Step options messages) s t ∧
        Stalled messages t i j ∧ (t.member j).Ended (messages j) := by
      rcases stalled_of_run hstalled hrun with hearlier | ⟨hstalled', -⟩
      · exact hearlier
      · exact ⟨s', hrun, hstalled', hended⟩
    -- the server takes the next connection
    have hleave : Step options messages t { t with serving := none } := .leave ht.serving hended
    have hreach := (h.trans hrun').tail hleave
    obtain ⟨received, hphase, -⟩ := ht.requests
    have hlt := Nat.lt_of_le_of_lt (Reachable.sound_of_count hreach hcount).paced.length_le hcount
    obtain ⟨u, handler, hrun'', -, -, hmember⟩ := Reachable.handles hreach hlt (.inl rfl) hphase
    refine ⟨u, (hrun'.tail hleave).trans hrun'', ?_⟩
    rw [hmember, Function.update_self]

/-- **Starvation.** While the server serves a handler with no limit, another one that requests
packets waits, whatever happens. -/
theorem starves (options : Options) (messages : ι → Nat) (s s' : Group ι) (i j : ι)
    (h : Reachable options messages s) (hcount : packetCount options < 2 ^ 32 - 1)
    (hstalled : Stalled messages s i j) (hj : messages j = 0)
    (hrun : Relation.ReflTransGen (Step options messages) s s') :
    Stalled messages s' i j ∧ (s'.member i).phase = (s.member i).phase ∧
      (s'.member i).handler = (s.member i).handler := by
  rcases stalled_of_run hstalled hrun with ⟨t, hrun', -, hended⟩ | hstays
  · -- the handler served neither throws nor reaches a limit
    have hs := Reachable.sound_of_count (h.trans hrun') hcount
    rcases hended with ⟨error, hthrown⟩ | ⟨-, hlimit⟩
    · have hp := (hs.members j).phase
      rw [hthrown] at hp
      exact hp.elim
    · exact absurd hj (limitReached_iff.1 hlimit).1
  · exact hstays

/-- A handler can receive a packet with a number beyond the next, and then requests. -/
theorem Reachable.requests (h : Reachable options messages s)
    (hlt : s.publisher.published.length < 2 ^ 32 - 1) (idle : (s.member i).phase = .head)
    (goesOn : (s.member i).handler.limitReached (messages i) = false) {datagram : Bytes} {k : Nat}
    (mem : datagram ∈ (s.member i).network) (number : System.seqNumOf datagram = some k)
    (gap : (s.member i).handler.expectedPacketSeq.toNat < k) :
    ∃ m : Member, Step options messages s { s with member := Function.update s.member i m } ∧
      m.Requests (messages i) := by
  have hs := h.sound hlt
  obtain ⟨before, rest, hnet⟩ := List.append_of_mem mem
  obtain ⟨p, hp⟩ := (hs.members i).network datagram mem
  have hwhole : datagram.take kReceiveBufferSize = datagram :=
    List.take_of_length_le (System.length_le_bufferSize hs.kept hp)
  have hstep : Member.Step (messages i) s.recovery (s.serving = some i) (s.member i) _ :=
    .receive idle goesOn (hnet ▸ List.perm_middle)
  refine ⟨_, .member i hstep, ?_⟩
  exact (hstep.sound hs.kept hlt (hs.members i)).requests hs.kept hlt rfl
    (hwhole.symm ▸ number) gap

/-- Two handlers that both lack the first of two packets: the server serves one of them. -/
theorem exists_stalled :
    ∃ s : Group Bool, Reachable { messages := 2, messagesPerPacket := 1 } (fun _ => 0) s ∧
      Stalled (fun _ => 0) s false true ∧ (s.member true).Requests 0 := by
  have hcount : packetCount { messages := 2, messagesPerPacket := 1 } < 2 ^ 32 - 1 := by decide
  have hstart :
      Reachable { messages := 2, messagesPerPacket := 1 } (fun _ => 0) ({} : Group Bool) := .refl
  obtain ⟨s, hrun, hserving, hs⟩ :=
    exists_sent (k := 2) hcount hstart (by decide) (by decide) (by decide)
  have hlt := Nat.lt_of_le_of_lt (Reachable.sound_of_count hrun hcount).paced.length_le hcount
  obtain ⟨hhead, hhandler, d, hd, hnumber⟩ := hs true
  obtain ⟨hhead', hhandler', d', hd', hnumber'⟩ := hs false
  have hgoesOn (h : Handler) : h.limitReached 0 = false := rfl
  have hgap : (({} : Handler).expectedPacketSeq).toNat < 2 := by decide
  -- the one receives the second packet and is served, then the other receives it
  obtain ⟨m, hstep, hm⟩ := Reachable.requests hrun hlt hhead (hgoesOn _) hd hnumber
    (hhandler ▸ hgap)
  have hm' : Function.update s.member true m true = m := Function.update_self ..
  have haccept : Step { messages := 2, messagesPerPacket := 1 } (fun _ => 0)
      { s with member := Function.update s.member true m }
      { s with member := Function.update s.member true m, serving := some true } :=
    .accept hserving (hm'.symm ▸ hm)
  have hother : Function.update s.member true m false = s.member false :=
    Function.update_of_ne (by decide) ..
  obtain ⟨n, hstep', hn⟩ := Reachable.requests ((hrun.tail hstep).tail haccept) hlt
    ((congrArg Member.phase hother).trans hhead') (hgoesOn _) (hother.symm ▸ hd') hnumber'
    ((congrArg Member.handler hother).trans hhandler' ▸ hgap)
  have hn' : Function.update (Function.update s.member true m) false n false = n :=
    Function.update_self ..
  have hkept : Function.update (Function.update s.member true m) false n true = m :=
    (Function.update_of_ne (by decide) ..).trans hm'
  exact ⟨_, ((hrun.tail hstep).tail haccept).tail hstep', ⟨by decide, rfl, hn'.symm ▸ hn⟩,
    hkept.symm ▸ hm⟩

theorem goes_on_iff_served_ends_of_two :
    ∃ s : Group Bool, Stalled (fun _ => 0) s false true ∧
      ((∃ s', Relation.ReflTransGen
          (Step { messages := 2, messagesPerPacket := 1 } fun _ => 0) s s' ∧
          (s'.member false).phase = .head) ↔
        ∃ s', Relation.ReflTransGen
          (Step { messages := 2, messagesPerPacket := 1 } fun _ => 0) s s' ∧
          (s'.member true).Ended 0) := by
  obtain ⟨s, hs, hstalled, -⟩ := exists_stalled
  exact ⟨s, hstalled, goes_on_iff_served_ends _ _ s false true hs (by decide) hstalled⟩

theorem starves_of_two :
    ∃ s : Group Bool, Stalled (fun _ => 0) s false true ∧
      ∀ s', Relation.ReflTransGen
          (Step { messages := 2, messagesPerPacket := 1 } fun _ => 0) s s' →
        Stalled (fun _ => 0) s' false true ∧
          (s'.member false).phase = (s.member false).phase ∧
          (s'.member false).handler = (s.member false).handler := by
  obtain ⟨s, hs, hstalled, -⟩ := exists_stalled
  exact ⟨s, hstalled, fun s' hrun => starves _ _ s s' false true hs (by decide) hstalled rfl hrun⟩

end

end Group

end Bmdfh
