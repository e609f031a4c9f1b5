import Bmdfh.Recovery.Reuse
import Bmdfh.Recovery.Proof.Transfer

/-!
# What one call leaves to the next

A response of the server leads from one boundary of the stream to the next (`place_responseBytes`).
A call that is sending has the rest of its own request to send (`Sending`), one that is receiving
stands at the place that the bytes of its connection lead to (`Stage.receiving`), and every other
call, like a client between two calls, finds its connection closed or at the end of a response
(`Settled`). A sound step keeps this; one that is not makes the call throw with the socket open,
within its request (`Sending.owed`) or within the response to it (`Stage.received`), and the next
call takes what is left of that response for its own (`Spoilt.stale`).
-/

namespace Bmdfh

open Packed Protocol Stream Prog RecoveryClient

/-! ## Places -/

namespace Place

/-- A chunk that the field has room for is read at once. -/
theorem read_chunk (p : Place) {chunk : Bytes} (ne : chunk ≠ [])
    (le : chunk.length ≤ p.field.size - p.got.length) :
    chunk.foldl read p = settle (p.add chunk) := by
  induction chunk generalizing p with
  | nil => exact absurd rfl ne
  | cons byte chunk ih =>
    cases chunk with
    | nil => rfl
    | cons next chunk =>
      simp only [List.length_cons] at le
      have hread : p.read byte = p.add [byte] := by
        refine if_pos ?_
        simp only [add, List.length_append, List.length_singleton]
        omega
      rw [List.foldl_cons, hread, ih _ (List.cons_ne_nil next chunk)]
      · simp only [add, List.append_assoc, List.singleton_append]
      · simp only [add, List.length_append, List.length_cons, List.length_nil]
        omega

/-- As long as frames are to come, the response is not complete. -/
theorem responses_frames {responses n : Nat} (ne : n ≠ 0) :
    (frames responses n).responses = responses := by
  cases n with
  | zero => exact absurd rfl ne
  | succ n => rfl

end Place

open Place

theorem place_append {taken chunk : Bytes} (ne : chunk ≠ [])
    (le : chunk.length ≤ (place taken).field.size - (place taken).got.length) :
    place (taken ++ chunk) = settle ((place taken).add chunk) := by
  unfold place at le ⊢
  rw [List.foldl_append]
  exact read_chunk _ ne le

/-- The frames of a response, as the server sends them, are the frames to come. -/
theorem read_framesBytes {packets : List Bytes} (h : ∀ packet ∈ packets, Session.Sendable packet)
    (responses : Nat) :
    (framesBytes packets).foldl read (frames responses packets.length)
      = { responses := responses + 1 } := by
  induction packets with
  | nil => rfl
  | cons packet packets ih =>
    obtain ⟨⟨hne, hle⟩, hrest⟩ := List.forall_mem_cons.1 h
    have hpos := List.length_pos_iff.2 hne
    have hsize : announcedSize (sizeBytes packet) = packet.length := toNat_size hle
    have hhead : (sizeBytes packet).foldl read (frames responses (packets.length + 1))
        = { responses, field := .payload packets.length packet.length } := by
      have hlen := length_sizeBytes packet
      rw [read_chunk _ (List.length_pos_iff.1 (hlen ▸ Nat.two_pos)) hlen.le]
      simp [settle, Place.pass, Place.add, Place.frames, Field.size, hlen, hsize, Nat.ne_of_gt hpos]
    have hpayload : packet.foldl read
        { responses, field := .payload packets.length packet.length }
        = frames responses packets.length := by
      rw [read_chunk _ hne (Nat.le_refl _)]
      simp [settle, Place.pass, Place.add, Field.size]
    rw [framesBytes, List.foldl_append, List.foldl_append, List.length_cons, hhead, hpayload]
    exact ih hrest

/-- **A response of the server** leads from one boundary to the next. -/
theorem place_responseBytes {taken : Bytes} {responses : Nat} {packets : List Bytes}
    (hp : place taken = { responses }) (h : ∀ packet ∈ packets, Session.Sendable packet)
    (hlt : packets.length < 2 ^ 32) :
    place (taken ++ responseBytes packets) = { responses := responses + 1 } := by
  have hlen := length_countBytes packets
  have hcount : announcedCount (countBytes packets) = packets.length := toNat_count hlt
  have hread : (countBytes packets).foldl read { responses }
      = frames responses packets.length := by
    rw [read_chunk _ (List.length_pos_iff.1 (hlen ▸ Nat.succ_pos 3)) hlen.le]
    simp [settle, Place.pass, Place.add, Field.size, hlen, hcount]
  unfold place at hp ⊢
  rw [List.foldl_append, hp, responseBytes, List.foldl_append, hread]
  exact read_framesBytes h responses

/-! ## The program at a place -/

namespace Client

/-- What follows the end of the stream in the place of a field. -/
def refuse (error : RuntimeError) : ClientM (List Bytes) := .query .close fun _ => .throw error

def afterPayload (n : Nat) (packets : List Bytes) : Option Bytes → ClientM (List Bytes)
  | none => refuse "recovery server closed during packet replay"
  | some packet => receivePackets n (packets ++ [packet])

def afterHead (n : Nat) (packets : List Bytes) : Option Bytes → ClientM (List Bytes)
  | none => refuse "recovery server closed during packet replay"
  | some frame =>
    if announcedSize frame = 0 ∨ announcedSize frame > kMaxRecoveryPacketSize then
      .throw "recovery server returned an invalid packet size"
    else recvLoop (announcedSize frame) [] (afterPayload n packets)

def afterCount (startSeq endSeq : UInt32) : Option Bytes → ClientM (List Bytes)
  | none => refuse "recovery server closed the connection"
  | some response =>
    if announcedCount response > (endSeq - startSeq).toNat + 1 then
      .throw "recovery server returned more packets than requested"
    else receivePackets (announcedCount response) []

/-- What the client does after a field, `packets` being complete. -/
def after (startSeq endSeq : UInt32) (packets : List Bytes) :
    Field → Option Bytes → ClientM (List Bytes)
  | .count => afterCount startSeq endSeq
  | .head n => afterHead n packets
  | .payload n _ => afterPayload n packets

theorem receiveResponse_eq (startSeq endSeq : UInt32) :
    receiveResponse startSeq endSeq = .receiving 4 [] (afterCount startSeq endSeq) := by
  unfold receiveResponse
  rw [recvExactOrEof_bind]
  refine congrArg _ (funext fun r => ?_)
  cases r <;> rfl

theorem receivePackets_succ (n : Nat) (packets : List Bytes) :
    receivePackets (n + 1) packets = .receiving 2 [] (afterHead n packets) := by
  rw [receivePackets, recvExactOrEof_bind]
  refine congrArg _ (funext fun r => ?_)
  cases r with
  | none => rfl
  | some frame =>
    have hzero : announcedSize frame = 0
        ↔ ntohs (RecoveryPacketFrameWire.layout.load frame).packetSize = 0 :=
      UInt16.toNat_inj (b := 0)
    have hpayload : recvExactOrEof (announcedSize frame) >>= afterPayload n packets
        = recvLoop (announcedSize frame) [] (afterPayload n packets) := recvExactOrEof_bind _ _
    simp only [afterHead, hzero, ← hpayload]
    refine if_congr Iff.rfl rfl (congrArg _ (funext fun r => ?_))
    cases r <;> rfl

/-! ## Stages -/

/-- An open connection is where the next call can begin. -/
def Settled (connection : Connection) : Prop :=
  connection.socketOpen = true → connection.AtBoundary ∧ connection.ended = false

/-- The last `left` bytes of the request of the call in progress are to be sent, `responses` having
come before it. -/
structure Sending (connection : Connection) (responses left : Nat) : Prop where
  socketOpen : connection.socketOpen = true
  lasts : connection.ended = false
  place_eq : place connection.taken = { responses }
  earlier : connection.earlier = requestEnd responses
  le : connection.earlier ≤ connection.sent
  sent : connection.sent + left = requestEnd (responses + 1)

/-- The response to the call in progress is to come, `responses` having come before it. -/
structure Waits (connection : Connection) (responses : Nat) : Prop where
  socketOpen : connection.socketOpen = true
  lasts : connection.ended = false
  sent : connection.sent = requestEnd (responses + 1)
  earlier : connection.earlier = requestEnd responses

inductive Stage (startSeq endSeq : UInt32) : ClientM (List Bytes) → Connection → Prop
  | returning {packets : List Bytes} {connection : Connection} (settled : Settled connection) :
      Stage startSeq endSeq (.ret packets) connection
  | throwing {error : RuntimeError} {connection : Connection} (settled : Settled connection) :
      Stage startSeq endSeq (.throw error) connection
  | asking {query : Query} {next : query.Answer → ClientM (List Bytes)} {connection : Connection}
      (answered : ∀ results, Stage startSeq endSeq
        (next (socketAnswer results connection query).1)
        (socketAnswer results connection query).2) :
      Stage startSeq endSeq (.query query next) connection
  | sending {data : Bytes} {responses : Nat} {connection : Connection} (ne : data ≠ [])
      (sends : Sending connection responses data.length) :
      Stage startSeq endSeq (.sending data (receiveResponse startSeq endSeq)) connection
  | receiving {packets : List Bytes} {connection : Connection}
      (waits : Waits connection (place connection.taken).responses)
      (lt : (place connection.taken).got.length < (place connection.taken).field.size) :
      Stage startSeq endSeq (.receiving (place connection.taken).field.size
        (place connection.taken).got (after startSeq endSeq packets (place connection.taken).field))
        connection

inductive Inv : Client → Prop
  | idle {connection : Connection} (settled : Settled connection) : Inv { connection }
  | busy {connection : Connection} {call : Call}
      (stage : Stage call.startSeq call.endSeq call.prog connection) :
      Inv { connection, call := some call }

variable {host : String} {startSeq endSeq : UInt32} {connection : Connection}

theorem requestEnd_succ (requests : Nat) :
    requestEnd (requests + 1) = requestEnd requests + 8 := Nat.mul_succ ..

/-- A request is begun to which the response has not come whole. -/
def Owed (connection : Connection) : Prop :=
  requestEnd (place connection.taken).responses < connection.sent

theorem Owed.not_atBoundary (h : Owed connection) : ¬ connection.AtBoundary := by
  rintro ⟨responses, hplace, hsent⟩
  rw [Owed, hplace, hsent] at h
  exact Nat.lt_irrefl _ h

theorem settled_of_closed (h : connection.socketOpen = false) : Settled connection := by
  intro hopen
  rw [h] at hopen
  cases hopen

/-- A call has thrown and left the socket open, with a response owed. -/
inductive Spoilt : Client → Prop
  | threw {connection : Connection} {call : Call} {error : RuntimeError}
      (socketOpen : connection.socketOpen = true) (throws : call.prog = .throw error)
      (owed : Owed connection) : Spoilt { connection, call := some call }

/-- With an open socket, a call may throw only at the end of a response. -/
theorem Spoilt.not_clean {s : Client} (h : Spoilt s) : ¬ Clean s := by
  obtain ⟨socketOpen, throws, owed⟩ := h
  intro h
  rcases h.thrown _ _ rfl throws with hclosed | hboundary
  · rw [socketOpen] at hclosed
    cases hclosed
  · exact owed.not_atBoundary hboundary

/-! ## The request -/

section
variable {responses left : Nat}

/-- Before the first byte of the request, the stream is still where the call has begun. -/
theorem Sending.settled (h : Sending connection responses left)
    (hs : connection.sent = connection.earlier) : Settled connection :=
  fun _ => ⟨⟨responses, h.place_eq, hs.trans h.earlier⟩, h.lasts⟩

/-- Within the request, the rest of it is left to the next call. -/
theorem Sending.owed (h : Sending connection responses left)
    (hs : connection.sent ≠ connection.earlier) : Owed connection := by
  have hlt := Nat.lt_of_le_of_ne h.le (Ne.symm hs)
  rw [Owed, h.place_eq]
  rwa [h.earlier] at hlt

/-- A call of `send` that fails, at whatever byte of the request. -/
theorem Sending.fails {call : Call} {error : RuntimeError} (h : Sending connection responses left)
    (hthrow : call.prog = .throw error) :
    (connection.sent = connection.earlier → Inv { connection, call := some call }) ∧
    (connection.sent ≠ connection.earlier → Spoilt { connection, call := some call }) := by
  constructor
  · intro hs
    refine .busy ?_
    rw [hthrow]
    exact .throwing (h.settled hs)
  · exact fun hs => .threw h.socketOpen hthrow (h.owed hs)

end

theorem Stage.refuse (connection : Connection) (error : RuntimeError) :
    Stage startSeq endSeq (Client.refuse error) connection :=
  .asking fun _ => .throwing (settled_of_closed rfl)

theorem Stage.request (host : String) (h : Settled connection) :
    Stage startSeq endSeq (requestPackets host startSeq endSeq)
      { connection with earlier := connection.sent } := by
  have hsend {connection : Connection} {responses : Nat} (sends : Sending connection responses 8) :
      Stage startSeq endSeq
        (sendAll (requestBytes startSeq endSeq) >>= fun _ => receiveResponse startSeq endSeq)
        connection := by
    have hne := requestBytes_ne_nil startSeq endSeq
    rw [sendAll_bind, sendLoop_of_ne_nil hne]
    rw [← length_requestBytes startSeq endSeq] at sends
    exact .sending hne sends
  -- a connection just made has nothing to its name
  have hfresh : Sending { socketOpen := true } 0 8 := ⟨rfl, rfl, rfl, rfl, Nat.le_refl 0, rfl⟩
  unfold requestPackets
  split
  · exact .returning h
  · refine .asking fun results => ?_
    cases hopen : connection.socketOpen with
    | true =>
      obtain ⟨⟨responses, hplace, hsent⟩, hlasts⟩ := h hopen
      refine hsend ⟨rfl, hlasts, hplace, hsent, Nat.le_refl _, ?_⟩
      rw [requestEnd_succ, ← hsent]
      rfl
    | false =>
      refine .asking fun results => ?_
      rcases hsocket : results.socket with error | ⟨⟩
      · simp only [socketAnswer, hsocket]
        exact .throwing (settled_of_closed rfl)
      · simp only [socketAnswer, hsocket]
        refine .asking fun results => ?_
        cases hhost : results.inetPton with
        | false =>
          simp only [socketAnswer, hhost]
          exact .refuse _ _
        | true =>
          simp only [socketAnswer, hhost]
          refine .asking fun results => ?_
          rcases hconnect : results.connect with error | ⟨⟩
          · simp only [socketAnswer, hconnect]
            exact .refuse _ _
          · simp only [socketAnswer, hconnect]
            exact hsend hfresh

/-! ## The response -/

section
variable {responses n : Nat} {p : Place}

theorem Stage.receiving_at (h : Waits connection p.responses) (hp : place connection.taken = p)
    (lt : p.got.length < p.field.size) (packets : List Bytes) :
    Stage startSeq endSeq
      (.receiving p.field.size p.got (after startSeq endSeq packets p.field)) connection := by
  subst hp
  exact .receiving h lt

/-- At the end of the response nothing more is requested. -/
theorem Waits.settled (h : Waits connection responses)
    (hp : place connection.taken = { responses := responses + 1 }) : Settled connection :=
  fun _ => ⟨⟨responses + 1, hp, h.sent⟩, h.lasts⟩

/-- As long as the response is to come, the stream is not where a call could begin. -/
theorem Waits.owed (h : Waits connection responses)
    (hp : (place connection.taken).responses = responses) : Owed connection := by
  rw [Owed, hp, h.sent, requestEnd_succ]
  omega

theorem Stage.frames (h : Waits connection responses)
    (hp : place connection.taken = Place.frames responses n) (packets : List Bytes) :
    Stage startSeq endSeq (receivePackets n packets) connection := by
  cases n with
  | zero => exact .returning (h.settled hp)
  | succ n =>
    rw [receivePackets_succ]
    exact .receiving_at (p := { responses, field := .head n }) h hp Nat.two_pos packets

/-- After the count, the client goes on with the frames, or throws before them. -/
theorem Stage.pass_count {got : Bytes} (h : Waits connection responses)
    (hp : place connection.taken = Place.frames responses (announcedCount got)) :
    (announcedCount got ≤ (endSeq - startSeq).toNat + 1 →
      Stage startSeq endSeq (afterCount startSeq endSeq (some got)) connection) ∧
    (¬ announcedCount got ≤ (endSeq - startSeq).toNat + 1 →
      (∃ error, afterCount startSeq endSeq (some got) = .throw error) ∧
        Owed connection) := by
  constructor
  · intro hle
    simp only [afterCount, if_neg (Nat.not_lt.2 hle)]
    exact .frames h hp []
  · intro hgt
    have hgt := Nat.not_le.1 hgt
    simp only [afterCount, if_pos hgt]
    refine ⟨⟨_, rfl⟩, h.owed ?_⟩
    rw [hp]
    exact responses_frames (Nat.ne_of_gt (Nat.lt_of_le_of_lt (Nat.zero_le _) hgt))

/-- After a size of 0 the client throws: at the end of the response, or before the other frames. -/
theorem Stage.pass_empty {got : Bytes} (h : Waits connection responses)
    (hp : place connection.taken = Place.frames responses n) (hzero : announcedSize got = 0)
    (packets : List Bytes) :
    (n = 0 → Stage startSeq endSeq (afterHead n packets (some got)) connection) ∧
    (n ≠ 0 → (∃ error, afterHead n packets (some got) = .throw error) ∧
      Owed connection) := by
  simp only [afterHead, if_pos (Or.inl hzero)]
  constructor
  · rintro rfl
    exact .throwing (h.settled hp)
  · intro hne
    refine ⟨⟨_, rfl⟩, h.owed ?_⟩
    rw [hp]
    exact responses_frames hne

/-- After any other size, the client goes on with the packet, or throws before it. -/
theorem Stage.pass_head {got : Bytes} (h : Waits connection responses)
    (hp : place connection.taken = { responses, field := .payload n (announcedSize got) })
    (hne : announcedSize got ≠ 0) (packets : List Bytes) :
    (announcedSize got ≤ kMaxRecoveryPacketSize →
      Stage startSeq endSeq (afterHead n packets (some got)) connection) ∧
    (¬ announcedSize got ≤ kMaxRecoveryPacketSize →
      (∃ error, afterHead n packets (some got) = .throw error) ∧ Owed connection) := by
  constructor
  · intro hle
    have hpos := Nat.pos_of_ne_zero hne
    simp only [afterHead, if_neg (not_or.2 ⟨hne, Nat.not_lt.2 hle⟩)]
    rw [recvLoop_of_lt hpos]
    exact .receiving_at (p := { responses, field := .payload n (announcedSize got) }) h hp hpos
      packets
  · intro hgt
    simp only [afterHead, if_pos (Or.inr (Nat.not_le.1 hgt))]
    refine ⟨⟨_, rfl⟩, h.owed ?_⟩
    rw [hp]

/-- After a field that has come whole, the client goes on with the next one, or throws: at the end
of the response, or because it does not take what the field says. -/
theorem Stage.pass (h : Waits connection p.responses) (hp : place connection.taken = p.pass)
    (packets : List Bytes) :
    (p.Accepted ((endSeq - startSeq).toNat + 1) →
      Stage startSeq endSeq (after startSeq endSeq packets p.field (some p.got)) connection) ∧
    (¬ p.Accepted ((endSeq - startSeq).toNat + 1) →
      (∃ error, after startSeq endSeq packets p.field (some p.got) = .throw error) ∧
        Owed connection) := by
  obtain ⟨responses, field, got⟩ := p
  cases field with
  | count => exact Stage.pass_count h hp
  | head n =>
    simp only [Place.pass] at hp
    by_cases hzero : announcedSize got = 0
    · rw [if_pos hzero] at hp
      obtain ⟨hlast, hmore⟩ := Stage.pass_empty h hp hzero packets
      refine ⟨fun hacc => hlast (hacc.2 hzero), fun hnot => hmore fun hn => hnot ?_⟩
      exact ⟨hzero.trans_le (Nat.zero_le _), fun _ => hn⟩
    · rw [if_neg hzero] at hp
      obtain ⟨hfits, hlarge⟩ := Stage.pass_head h hp hzero packets
      refine ⟨fun hacc => hfits hacc.1, fun hnot => hlarge fun hle => hnot ?_⟩
      exact ⟨hle, fun heq => absurd heq hzero⟩
  | payload n size => exact ⟨fun _ => .frames h hp _, fun hnot => absurd trivial hnot⟩

theorem Stage.received (h : Waits connection p.responses) (hp : place connection.taken = p)
    {packets : List Bytes} {chunk : Bytes} {prog : ClientM (List Bytes)}
    (hc : ReceivesChunk socketFaults
      (.receiving p.field.size p.got (after startSeq endSeq packets p.field)) chunk prog) :
    ((p.field.size ≤ (p.add chunk).got.length →
        (p.add chunk).Accepted ((endSeq - startSeq).toNat + 1)) →
      Stage startSeq endSeq prog { connection with taken := connection.taken ++ chunk }) ∧
    (¬ (p.field.size ≤ (p.add chunk).got.length →
        (p.add chunk).Accepted ((endSeq - startSeq).toNat + 1)) →
      (∃ error, prog = .throw error) ∧
        Owed { connection with taken := connection.taken ++ chunk }) := by
  obtain ⟨ne, le⟩ := hc
  subst hp
  have hplace := place_append ne le
  have hwaits : Waits { connection with taken := connection.taken ++ chunk }
      ((place connection.taken).add chunk).responses :=
    ⟨h.socketOpen, h.lasts, h.sent, h.earlier⟩
  rw [recvTurn_received socketFaults ne]
  by_cases hlt : ((place connection.taken).got ++ chunk).length
      < (place connection.taken).field.size
  · -- the field is still incomplete
    replace hplace := hplace.trans (if_pos hlt)
    rw [recvLoop_of_lt hlt]
    refine ⟨fun _ => .receiving_at hwaits hplace hlt packets, fun hnot => ?_⟩
    exact absurd (fun hle => absurd hlt (Nat.not_lt.2 hle)) hnot
  · replace hplace := hplace.trans (if_neg hlt)
    rw [recvLoop_of_not_lt hlt]
    obtain ⟨hstage, hthrow⟩ := Stage.pass hwaits hplace packets
    exact ⟨fun hacc => hstage (hacc (Nat.not_lt.1 hlt)),
      fun hnot => hthrow fun hacc => hnot fun _ => hacc⟩

/-- At the end of the stream the client closes its socket, unless it is within a field. -/
theorem Stage.eof (h : Waits connection (place connection.taken).responses) (packets : List Bytes) :
    ((place connection.taken).got = [] →
      Stage startSeq endSeq
        (recvTurn socketFaults (.received []) (place connection.taken).field.size
          (place connection.taken).got
          (after startSeq endSeq packets (place connection.taken).field))
        { connection with ended := true }) ∧
    ((place connection.taken).got ≠ [] →
      (∃ error, recvTurn socketFaults (.received []) (place connection.taken).field.size
          (place connection.taken).got
          (after startSeq endSeq packets (place connection.taken).field) = .throw error) ∧
        Owed connection) := by
  simp only [recvTurn, List.length_eq_zero_iff]
  constructor
  · intro hgot
    rw [if_pos hgot]
    cases (place connection.taken).field with
    | count => exact .refuse _ _
    | head n => exact .refuse _ _
    | payload n size => exact .refuse _ _
  · intro hgot
    rw [if_neg hgot]
    exact ⟨⟨_, rfl⟩, h.owed rfl⟩

end

/-! ## Runs -/

theorem Inv.stage {s : Client} {call : Call} (h : Inv s) (calls : s.call = some call) :
    Stage call.startSeq call.endSeq call.prog s.connection := by
  cases h with
  | idle settled => cases calls
  | busy stage =>
    obtain rfl := Option.some.inj calls
    exact stage

theorem Inv.clean {s : Client} (h : Inv s) : Clean s := by
  constructor
  · intro call error calls hthrow
    have hstage := h.stage calls
    rw [hthrow] at hstage
    cases hstage with
    | throwing settled =>
      cases hopen : s.connection.socketOpen with
      | false => exact .inl rfl
      | true => exact .inr (settled hopen).1
  · rintro ⟨⟨call, calls, hreceives⟩, _, hlt⟩
    have hstage := h.stage calls
    generalize call.prog = prog at hstage hreceives
    cases hstage with
    | receiving waits _ => exact Nat.ne_of_gt hlt waits.earlier
    | _ => cases hreceives

/-- A request, part of which is sent. -/
theorem Stage.sent {data chunk : Bytes} {responses : Nat} {prog : ClientM (List Bytes)}
    (h : Sending connection responses data.length)
    (hc : SendsChunk socketFaults (.sending data (receiveResponse startSeq endSeq)) chunk prog) :
    Stage startSeq endSeq prog
      { connection with sent := connection.sent + chunk.length } := by
  obtain ⟨hpos, hle⟩ := hc
  rename_i n
  obtain ⟨n, rfl⟩ := Nat.exists_eq_succ_of_ne_zero (Nat.ne_of_gt hpos)
  have hsent := h.sent
  rw [List.length_take_of_le hle]
  simp only [sendTurn]
  by_cases hrest : data.drop n.succ = []
  · -- the request is sent whole
    rw [hrest]
    show Stage startSeq endSeq (receiveResponse startSeq endSeq) _
    rw [receiveResponse_eq]
    refine .receiving_at (p := { responses }) ?_ ?_ (Nat.succ_pos 3) []
    · refine ⟨h.socketOpen, h.lasts, ?_, h.earlier⟩
      rw [← hsent, Nat.le_antisymm hle (List.drop_eq_nil_iff.1 hrest)]
    · exact h.place_eq
  · rw [sendLoop_of_ne_nil hrest]
    refine .sending hrest ⟨h.socketOpen, h.lasts, h.place_eq, h.earlier,
      Nat.le_trans h.le (Nat.le_add_right ..), ?_⟩
    rw [← hsent, List.length_drop]
    show connection.sent + n.succ + (data.length - n.succ) = _
    omega

theorem Inv.of_sound {s t : Client} {event : Event} (hs : Sound s event) (ht : Inv t) :
    (Sound s event → Inv t) ∧ (¬ Sound s event → Spoilt t) :=
  ⟨fun _ => ht, fun hnot => absurd hs hnot⟩

/-- **One step.** A sound one keeps the invariant, any other ends it. -/
theorem Inv.step {s t : Client} {event : Event} (h : Inv s) (hs : Step host s event t) :
    (Sound s event → Inv t) ∧ (¬ Sound s event → Spoilt t) := by
  cases hs with
  | request idle =>
    refine Inv.of_sound trivial ?_
    cases h with
    | idle settled => exact .busy (.request host settled)
    | busy stage => cases idle
  | @asked call _ _ _ calls asks =>
    refine Inv.of_sound trivial ?_
    have hstage := h.stage calls
    obtain ⟨query, next, hprog⟩ := asks.query
    rw [hprog] at hstage asks
    obtain ⟨⟩ := asks
    cases hstage with
    | asking answered => exact .busy (answered _)
  | sent calls sends =>
    refine Inv.of_sound trivial ?_
    have hstage := h.stage calls
    obtain ⟨data, next, hprog⟩ := sends.sending
    rw [hprog] at hstage sends
    cases hstage with
    | sending ne sending => exact .busy (.sent sending sends)
  | sentNothing calls sends =>
    have hstage := h.stage calls
    rw [sends] at hstage
    cases hstage with
    | sending ne sending => exact sending.fails rfl
  | sendFailed calls sends =>
    have hstage := h.stage calls
    rw [sends] at hstage
    cases hstage with
    | sending ne sending => exact sending.fails rfl
  | received calls lasts receives =>
    have hstage := h.stage calls
    obtain ⟨size, got, next, hprog⟩ := receives.receiving
    rw [hprog] at hstage receives
    cases hstage with
    | receiving waits lt =>
      obtain ⟨hkeep, hbreak⟩ := Stage.received waits rfl receives
      constructor
      · intro hsound
        exact .busy (hkeep (hsound _ calls))
      · intro hnot
        obtain ⟨⟨error, hthrow⟩, owed⟩ := hbreak fun hacc => hnot fun call' calls' => by
          obtain rfl := Option.some.inj (calls.symm.trans calls')
          exact hacc
        exact .threw waits.socketOpen hthrow owed
  | eof calls receives =>
    have hstage := h.stage calls
    rw [receives] at hstage
    cases hstage with
    | receiving waits lt =>
      obtain ⟨hkeep, hbreak⟩ := Stage.eof waits _
      constructor
      · intro hsound
        exact .busy (hkeep hsound)
      · intro hnot
        obtain ⟨⟨error, hthrow⟩, owed⟩ := hbreak hnot
        exact .threw waits.socketOpen hthrow owed
  | recvFailed calls receives =>
    refine ⟨fun hsound => hsound.elim, fun _ => ?_⟩
    have hstage := h.stage calls
    rw [receives] at hstage
    cases hstage with
    | receiving waits lt => exact .threw waits.socketOpen rfl (waits.owed rfl)
  | exhausted calls receives _ _ =>
    refine ⟨fun hsound => hsound.elim, fun _ => ?_⟩
    have hstage := h.stage calls
    rw [receives] at hstage
    generalize ([] : Bytes) = got at hstage
    cases hstage with
    | receiving waits lt => exact .threw waits.socketOpen rfl (waits.owed rfl)
  | interrupted calls interrupted =>
    refine Inv.of_sound trivial ?_
    have hstage := h.stage calls
    rw [interrupted.eq]
    exact .busy hstage
  | returned calls returns =>
    refine Inv.of_sound trivial ?_
    have hstage := h.stage calls
    rw [returns] at hstage
    cases hstage with
    | returning settled => exact .idle settled
  | threw calls throws =>
    refine Inv.of_sound trivial ?_
    have hstage := h.stage calls
    rw [throws] at hstage
    cases hstage with
    | throwing settled => exact .idle settled

theorem Run.start_mem {s t : Client} {steps : List (Client × Event)} (run : Run host s steps t) :
    s ∈ states steps t := by
  cases run with
  | nil => exact List.mem_singleton_self s
  | cons step rest => exact List.mem_cons_self

theorem Inv.run {s t : Client} {steps : List (Client × Event)} (h : Inv s)
    (run : Run host s steps t) :
    (∀ u ∈ states steps t, Clean u) ↔ ∀ step ∈ steps, Sound step.1 step.2 := by
  induction run with
  | nil =>
    simp only [states, List.map_nil, List.nil_append, List.mem_singleton, forall_eq,
      List.not_mem_nil, false_imp_iff, implies_true, iff_true]
    exact h.clean
  | @cons s t u event steps step rest ih =>
    obtain ⟨hkeep, hbreak⟩ := h.step step
    have hstates : states ((s, event) :: steps) u = s :: states steps u := rfl
    rw [hstates, List.forall_mem_cons, List.forall_mem_cons]
    constructor
    · rintro ⟨_, hclean⟩
      have hsound : Sound s event := by
        by_contra hnot
        exact (hbreak hnot).not_clean (hclean t rest.start_mem)
      exact ⟨hsound, (ih (hkeep hsound)).1 hclean⟩
    · rintro ⟨hsound, hrest⟩
      exact ⟨h.clean, (ih (hkeep hsound)).2 hrest⟩

/-- **A failed call and the next one.** In a run from a client that is not connected, every call
that throws leaves its socket closed or its stream at the end of a response, and none takes a byte
of the response to a request that an earlier call began, exactly if every step is sound. -/
theorem clean_iff_sound {t : Client} {steps : List (Client × Event)} (run : Run host {} steps t) :
    (∀ u ∈ states steps t, Clean u) ↔ ∀ step ∈ steps, Sound step.1 step.2 :=
  Inv.run (.idle (settled_of_closed rfl)) run

theorem not_clean_of_stale {t : Client} {steps : List (Client × Event)} (h : t.Stale) :
    ¬ ∀ u ∈ states steps t, Clean u := by
  intro hclean
  have hlast : t ∈ states steps t := List.mem_append_right _ (List.mem_singleton_self t)
  exact (hclean t hlast).not_stale h

/-- Nothing fails on the socket. -/
def works : Results := { socket := .ok (), inetPton := true, connect := .ok () }

/-- A request sent at once. -/
theorem sends_request (startSeq endSeq : UInt32) : SendsChunk socketFaults
    (sendAll (requestBytes startSeq endSeq) >>= fun _ => receiveResponse startSeq endSeq)
    (requestBytes startSeq endSeq) (receiveResponse startSeq endSeq) :=
  .sent (n := 8) (Nat.succ_pos 7) (Nat.le_refl 8)

/-- After an unsound step, unless it was the end of the stream, the next call takes for its response
what is left of the one before. -/
theorem Spoilt.stale {s : Client} (h : Spoilt s) (lasts : s.connection.ended = false)
    (host : String) {startSeq endSeq : UInt32} (le : startSeq ≤ endSeq) :
    ∃ steps t, Run host s steps t ∧
      steps.map Prod.snd = [.threw, .request startSeq endSeq, .asked works,
        .sent (requestBytes startSeq endSeq)] ∧ t.Stale := by
  obtain ⟨socketOpen, throws, owed⟩ := h
  rename_i connection _ _
  obtain ⟨isOpen, sent, earlier, taken, ended⟩ := connection
  obtain rfl : isOpen = true := socketOpen
  obtain rfl : ended = false := lasts
  have asks : Asks (socketAnswer works) { socketOpen := true, sent, earlier := sent, taken }
      (requestPackets host startSeq endSeq) { socketOpen := true, sent, earlier := sent, taken }
      (sendAll (requestBytes startSeq endSeq) >>= fun _ => receiveResponse startSeq endSeq) := by
    rw [requestPackets, if_neg (UInt32.not_lt.2 le)]
    exact .answered
  refine ⟨_, _, .cons (.threw rfl throws) <| .cons (.request rfl) <| .cons (.asked rfl asks) <|
    .cons (.sent rfl (sends_request startSeq endSeq)) .nil, rfl, ⟨_, rfl, ?_⟩, rfl, owed⟩
  show (receiveResponse startSeq endSeq).isReceiving = true
  rw [receiveResponse_eq]
  rfl

/-- The server announces a packet and ends the stream. -/
theorem lost_server : ∃ steps t, Run "127.0.0.1" {} steps t ∧
    steps.map Prod.snd = [.request 1 1, .asked works, .asked works, .asked works, .asked works,
      .sent (requestBytes 1 1), .received [0, 0, 0, 1], .eof, .asked works, .threw] ∧
    ∀ step ∈ steps, Sound step.1 step.2 := by
  refine ⟨_, _, .cons (.request rfl) <| .cons (.asked rfl .answered) <|
    .cons (.asked rfl .answered) <| .cons (.asked rfl .answered) <| .cons (.asked rfl .answered) <|
    .cons (.sent rfl (sends_request 1 1)) <|
    .cons (.received rfl rfl (.received (List.cons_ne_nil _ _) (by decide))) <|
    .cons (.eof rfl rfl) <| .cons (.asked rfl .answered) <| .cons (.threw rfl rfl) .nil, rfl, ?_⟩
  simp only [List.forall_mem_cons, Sound, true_and, List.not_mem_nil, false_imp_iff, implies_true,
    and_true]
  refine ⟨?_, by decide⟩
  rintro call ⟨⟩ _
  show announcedCount [0, 0, 0, 1] ≤ 1
  decide

theorem clean_iff_sound_of_lost_server : ∃ steps t, Run "127.0.0.1" {} steps t ∧
    steps.map Prod.snd = [.request 1 1, .asked works, .asked works, .asked works, .asked works,
      .sent (requestBytes 1 1), .received [0, 0, 0, 1], .eof, .asked works, .threw] ∧
    ∀ u ∈ states steps t, Clean u := by
  obtain ⟨steps, t, run, events, hsound⟩ := lost_server
  exact ⟨steps, t, run, events, (clean_iff_sound run).2 hsound⟩

/-- Two packets announced where one was requested: the next call waits for its response where
the packets of this one are to come. -/
theorem stale_of_too_many_packets : ∃ steps t, Run "127.0.0.1" {} steps t ∧
    steps.map Prod.snd = [.request 1 1, .asked works, .asked works, .asked works, .asked works,
      .sent (requestBytes 1 1), .received [0, 0, 0, 2], .threw, .request 2 2, .asked works,
      .sent (requestBytes 2 2)] ∧
    t.Stale ∧ ¬ ∀ u ∈ states steps t, Clean u := by
  refine ⟨_, _, .cons (.request rfl) <| .cons (.asked rfl .answered) <|
    .cons (.asked rfl .answered) <| .cons (.asked rfl .answered) <| .cons (.asked rfl .answered) <|
    .cons (.sent rfl (sends_request 1 1)) <|
    .cons (.received rfl rfl (.received (List.cons_ne_nil _ _) (by decide))) <|
    .cons (.threw rfl rfl) <| .cons (.request rfl) <| .cons (.asked rfl .answered) <|
    .cons (.sent rfl (sends_request 2 2)) .nil, rfl,
    (and_iff_left_of_imp not_clean_of_stale).2 ?_⟩
  exact ⟨⟨_, rfl, rfl⟩, rfl, by decide⟩

end Client

end Bmdfh
