import Bmdfh.Recovery.Session

/-!
# What the two ends send and take

The bytes of a request (`requestBytes`) and of a response (`responseBytes`), and each of them once
at either end: the client sends the one and takes the other, the server the other way round.
-/

namespace Bmdfh

open Packed Protocol Stream Prog

def requestBytes (startSeq endSeq : UInt32) : Bytes :=
  RecoveryRequestWire.layout.store { startSeq := htonl startSeq, endSeq := htonl endSeq }

def countBytes (packets : List Bytes) : Bytes :=
  RecoveryResponseWire.layout.store { packetCount := htonl (UInt32.ofNat packets.length) }

def sizeBytes (packet : Bytes) : Bytes :=
  RecoveryPacketFrameWire.layout.store { packetSize := htons (UInt16.ofNat packet.length) }

/-- The packets, each after its size. -/
def framesBytes : List Bytes → Bytes
  | [] => []
  | packet :: rest => sizeBytes packet ++ (packet ++ framesBytes rest)

def responseBytes (packets : List Bytes) : Bytes := countBytes packets ++ framesBytes packets

theorem length_requestBytes (startSeq endSeq : UInt32) :
    (requestBytes startSeq endSeq).length = 8 := Layout.length_store _ _

theorem length_countBytes (packets : List Bytes) : (countBytes packets).length = 4 :=
  Layout.length_store _ _

theorem length_sizeBytes (packet : Bytes) : (sizeBytes packet).length = 2 :=
  Layout.length_store _ _

theorem requestBytes_ne_nil (startSeq endSeq : UInt32) : requestBytes startSeq endSeq ≠ [] := by
  rw [← List.length_pos_iff, length_requestBytes]
  decide

/-- The size of a packet survives the frame. -/
theorem toNat_size {packet : Bytes} (h : packet.length ≤ kMaxRecoveryPacketSize) :
    (ntohs (RecoveryPacketFrameWire.layout.load (sizeBytes packet)).packetSize).toNat
      = packet.length := by
  unfold sizeBytes
  unfold kMaxRecoveryPacketSize at h
  rw [Layout.load_store_self, ntohs_htons]
  exact UInt16.toNat_ofNat_of_lt' (Nat.lt_of_le_of_lt h (by decide))

/-- The count survives the response, being below 2^32. -/
theorem toNat_count {packets : List Bytes} (h : packets.length < 2 ^ 32) :
    (ntohl (RecoveryResponseWire.layout.load (countBytes packets)).packetCount).toNat
      = packets.length := by
  unfold countBytes
  rw [Layout.load_store_self, ntohl_htonl]
  exact UInt32.toNat_ofNat_of_lt' h

/-! ## The server -/

namespace RecoveryServer

open Session

/-- Nothing is asked while a response is sent. -/
def silent : Unit → (_ : UInt32 × UInt32) → List Bytes × Unit := fun _ _ => ([], ())

theorem sendPackets_sends {packets : List Bytes} (h : ∀ packet ∈ packets, Sendable packet)
    {f : Unit → ServerM Bool} {out : Bytes} {q : ServerM Bool}
    (rest : Sends silent () (f ()) 0 out () q) :
    Sends silent () (sendPackets packets >>= f) 0 (framesBytes packets ++ out) () q := by
  induction packets with
  | nil => exact rest
  | cons packet packets ih =>
    obtain ⟨hs, hrest⟩ := List.forall_mem_cons.1 h
    obtain ⟨hne, hle⟩ := hs
    unfold kMaxRecoveryPacketSize at hle
    have hbounds : ¬ (packet.length = 0 ∨ packet.length > UInt16.size - 1) := by
      rw [List.length_eq_zero_iff]
      rintro (rfl | hgt)
      · exact hne rfl
      · simp only [UInt16.size] at hgt
        omega
    have heq : sendPackets (packet :: packets) = sendAll (sizeBytes packet) >>= fun _ =>
        sendAll packet >>= fun _ => sendPackets packets := if_neg hbounds
    rw [heq, bind_assoc, framesBytes, List.append_assoc, List.append_assoc]
    refine .sendAll ?_
    rw [bind_assoc]
    exact .sendAll (ih hrest)

/-- A response is sent whole, and the turn ends. -/
theorem respond_sends {packets : List Bytes} (h : ∀ packet ∈ packets, Sendable packet) :
    Sends silent () (respond packets) 0 (responseBytes packets) () (.ret true) := by
  refine .sendAll ?_
  rw [← List.append_nil (framesBytes packets)]
  exact sendPackets_sends h .done

/-- A request is taken whole, and looked up. -/
theorem handleRequest_receives (startSeq endSeq : UInt32) :
    Receives handleRequest (requestBytes startSeq endSeq) (.query (startSeq, endSeq) respond) := by
  have hload : RecoveryRequestWire.layout.load (requestBytes startSeq endSeq)
      = { startSeq := htonl startSeq, endSeq := htonl endSeq } := Layout.load_store_self _ _
  rw [← List.append_nil (requestBytes startSeq endSeq)]
  refine .recvExactOrEof (length_requestBytes startSeq endSeq) ?_
  have hquery : (ntohl (RecoveryRequestWire.layout.load (requestBytes startSeq endSeq)).startSeq,
      ntohl (RecoveryRequestWire.layout.load (requestBytes startSeq endSeq)).endSeq)
      = (startSeq, endSeq) := by
    rw [hload, ntohl_htonl, ntohl_htonl]
  rw [← hquery]
  exact .done

end RecoveryServer

/-! ## The client -/

namespace RecoveryClient

open Session

theorem receivePackets_receives {packets : List Bytes} (h : ∀ packet ∈ packets, Sendable packet)
    (got : List Bytes) :
    Receives (receivePackets packets.length got) (framesBytes packets) (.ret (got ++ packets)) := by
  induction packets generalizing got with
  | nil =>
    rw [List.append_nil]
    exact .done
  | cons packet packets ih =>
    obtain ⟨hs, hrest⟩ := List.forall_mem_cons.1 h
    obtain ⟨hne, hle⟩ := hs
    have hsize := toNat_size hle
    rw [← hsize] at hle
    have hzero : ntohs (RecoveryPacketFrameWire.layout.load (sizeBytes packet)).packetSize ≠ 0 := by
      intro h
      rw [h] at hsize
      exact hne (List.eq_nil_of_length_eq_zero hsize.symm)
    refine .recvExactOrEof (length_sizeBytes packet) ?_
    show Receives (if _ then _ else _) _ _
    rw [if_neg (not_or.2 ⟨hzero, Nat.not_lt.2 hle⟩)]
    refine .recvExactOrEof hsize.symm ?_
    rw [List.append_cons got packet packets]
    exact ih hrest (got ++ [packet])

theorem receiveResponse_receives {startSeq endSeq : UInt32} {packets : List Bytes}
    (h : ∀ packet ∈ packets, Sendable packet) (hlt : packets.length < 2 ^ 32)
    (hle : packets.length ≤ (endSeq - startSeq).toNat + 1) :
    Receives (receiveResponse startSeq endSeq) (responseBytes packets) (.ret packets) := by
  refine .recvExactOrEof (length_countBytes packets) ?_
  have hcount := toNat_count hlt
  rw [← hcount] at hle
  have hnot := Nat.not_lt.2 hle
  have h := receivePackets_receives h []
  rw [← hcount] at h
  show Receives (if _ then _ else _) _ _
  rw [if_neg hnot]
  exact h

theorem requestPackets_sends (host : String) {startSeq endSeq : UInt32} (hle : startSeq ≤ endSeq)
    (socketOpen : Bool) : ∃ k opened,
      Sends socketAnswer socketOpen (requestPackets host startSeq endSeq) k
        (requestBytes startSeq endSeq) opened (receiveResponse startSeq endSeq) := by
  have hne := requestBytes_ne_nil startSeq endSeq
  have hgt : ¬ startSeq > endSeq := UInt32.not_lt.2 hle
  unfold requestPackets
  rw [if_neg hgt]
  have send (opened : Bool) : Sends socketAnswer opened
      (sendAll (requestBytes startSeq endSeq) >>= fun _ => receiveResponse startSeq endSeq) 0
      (requestBytes startSeq endSeq) opened (receiveResponse startSeq endSeq) := by
    rw [← List.append_nil (requestBytes startSeq endSeq)]
    exact .sendAll .done
  cases socketOpen with
  | true => exact ⟨1, true, .ask hne (send true)⟩
  | false => exact ⟨4, true, .ask hne (.ask hne (.ask hne (.ask hne (send true))))⟩

end RecoveryClient

end Bmdfh
