import Bmdfh.Lib.OrdMap
import Bmdfh.Protocol.Wire

/-!
# The packet history

`PacketHistory` of `recovery.cpp`, its mutex left out: the operations are atomic. The loop of
`lookup_range` ends at `end_seq`, or at the greatest number when `seq_num <= end_seq` is always
true; `lookupRange_eq` says what it collects.
-/

namespace Bmdfh

open Std OrdMap Protocol

/-- `packets_`. -/
abbrev PacketHistory := ExtTreeMap UInt32 Bytes

namespace PacketHistory

def store (history : PacketHistory) (seqNum : UInt32) (packet : Bytes) : PacketHistory :=
  history.insert seqNum packet

/-- A store under the `j`-th number leaves the `i`-th. -/
theorem get_store_ofNat_ne (history : PacketHistory) (packet : Bytes) {i j : Nat}
    (hi : i < 2 ^ 32) (hj : j < 2 ^ 32) (hne : i ≠ j) :
    (history.store (UInt32.ofNat j) packet)[UInt32.ofNat i]? = history[UInt32.ofNat i]? := by
  refine get_insert_ne _ _ fun heq => hne ?_
  rw [← UInt32.toNat_inj, UInt32.toNat_ofNat_of_lt' hj, UInt32.toNat_ofNat_of_lt' hi] at heq
  exact heq.symm

/-- `std::numeric_limits<std::uint32_t>::max()`. -/
def maxSeq : UInt32 := 0xFFFFFFFF

theorem toNat_succ {seqNum : UInt32} (h : seqNum ≠ maxSeq) :
    (seqNum + 1).toNat = seqNum.toNat + 1 := by
  rw [Ne, ← UInt32.toNat_inj] at h
  have := seqNum.toNat_lt
  rw [UInt32.toNat_add]
  simp only [maxSeq, UInt32.reduceToNat] at h ⊢
  omega

/-- The loop of `lookup_range`. -/
def lookupFrom (history : PacketHistory) (seqNum endSeq : UInt32) (packets : List Bytes) :
    List Bytes :=
  if seqNum ≤ endSeq then
    let packets := match history[seqNum]? with
      | none => packets
      | some packet => packets ++ [packet]
    if h : seqNum = maxSeq then packets
    else
      have := toNat_succ h
      have := (seqNum + 1).toNat_lt
      lookupFrom history (seqNum + 1) endSeq packets
  else packets
termination_by 2 ^ 32 - seqNum.toNat

def lookupRange (history : PacketHistory) (startSeq endSeq : UInt32) : List Bytes :=
  if startSeq > endSeq then [] else lookupFrom history startSeq endSeq []

/-- The numbers from `startSeq` on, `n` of them. -/
def seqRange (startSeq : UInt32) (n : Nat) : List UInt32 :=
  (List.range n).map fun i => startSeq + UInt32.ofNat i

theorem seqRange_succ (startSeq : UInt32) (n : Nat) :
    seqRange startSeq (n + 1) = startSeq :: seqRange (startSeq + 1) n := by
  unfold seqRange
  rw [List.range_succ_eq_map, List.map_cons, List.map_map]
  refine congrArg₂ _ (UInt32.add_zero _) (List.map_congr_left fun i _ => ?_)
  show startSeq + UInt32.ofNat (i + 1) = startSeq + 1 + UInt32.ofNat i
  rw [UInt32.ofNat_add, UInt32.add_assoc, UInt32.add_comm (UInt32.ofNat i)]
  rfl

/-- One turn of the loop, and the first of the numbers to come. -/
theorem filterMap_seqRange_succ (history : PacketHistory) (seqNum : UInt32) (n : Nat)
    (packets : List Bytes) :
    packets ++ (seqRange seqNum (n + 1)).filterMap (history[·]?)
      = (match history[seqNum]? with
        | none => packets
        | some packet => packets ++ [packet])
          ++ (seqRange (seqNum + 1) n).filterMap (history[·]?) := by
  rw [seqRange_succ, List.filterMap_cons]
  cases history[seqNum]? with
  | none => rfl
  | some packet => simp

theorem lookupFrom_eq (history : PacketHistory) (seqNum endSeq : UInt32) (packets : List Bytes) :
    lookupFrom history seqNum endSeq packets
      = packets ++ (seqRange seqNum (endSeq.toNat + 1 - seqNum.toNat)).filterMap (history[·]?) := by
  have hend := endSeq.toNat_lt
  fun_induction lookupFrom history seqNum endSeq packets with
  | case1 packets hle =>
    -- the greatest number is the last of the range
    rw [UInt32.le_iff_toNat_le] at hle
    have hmax : maxSeq.toNat = 2 ^ 32 - 1 := rfl
    rw [show endSeq.toNat + 1 - maxSeq.toNat = 0 + 1 by omega, filterMap_seqRange_succ]
    exact (List.append_nil _).symm
  | case2 seqNum packets hle _ hmax hsucc _ ih =>
    rw [UInt32.le_iff_toNat_le] at hle
    have hcount : endSeq.toNat + 1 - seqNum.toNat = endSeq.toNat + 1 - (seqNum + 1).toNat + 1 := by
      omega
    rw [ih, hcount, filterMap_seqRange_succ]
  | case3 seqNum packets hle =>
    rw [UInt32.le_iff_toNat_le] at hle
    rw [show endSeq.toNat + 1 - seqNum.toNat = 0 by omega]
    exact (List.append_nil _).symm

/-- **What a lookup collects**: the packets stored under the numbers of the range, in order. -/
theorem lookupRange_eq (history : PacketHistory) (startSeq endSeq : UInt32) :
    history.lookupRange startSeq endSeq
      = (seqRange startSeq (endSeq.toNat + 1 - startSeq.toNat)).filterMap (history[·]?) := by
  unfold lookupRange
  split
  · rename_i hgt
    rw [show endSeq.toNat + 1 - startSeq.toNat = 0 by
      have := UInt32.lt_iff_toNat_lt.1 hgt
      omega]
    rfl
  · rw [lookupFrom_eq, List.nil_append]

end PacketHistory

end Bmdfh
