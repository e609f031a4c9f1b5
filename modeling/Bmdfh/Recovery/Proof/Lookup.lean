import Bmdfh.Recovery.History
import Mathlib.Data.List.Forall2

/-!
# A lookup is exact at every boundary

The loop of `lookup_range`, run for a number of turns, ends where `lookupFrom` does as soon as the
turns are more than the numbers of the range (`lookupLoop_eq`): each turn takes one number off, and
the turn at the greatest number is the last by its `break`. What is collected follows from
`lookupRange_eq`: the numbers of a range are sorted and are those between its bounds
(`pairwise_seqRange`, `mem_seqRange`), and two ranges next to each other are one (`seqRange_add`).
-/

namespace Bmdfh

open Std OrdMap Protocol

namespace PacketHistory

/-! ## The loop, turn by turn -/

/-- The loop of `lookup_range` for at most `turns` tests of its condition; `none` when it has not
ended by then. The increment is that of the source, modulo `2 ^ 32`. -/
def lookupLoop (history : PacketHistory) (endSeq : UInt32) :
    Nat → UInt32 → List Bytes → Option (List Bytes)
  | 0, _, _ => none
  | turns + 1, seqNum, packets =>
    if seqNum ≤ endSeq then
      let packets := match history[seqNum]? with
        | none => packets
        | some packet => packets ++ [packet]
      if seqNum = maxSeq then some packets
      else lookupLoop history endSeq turns (seqNum + 1) packets
    else some packets

/-- `lookup_range` with its loop cut off after `turns`. -/
def lookupRangeWithin (history : PacketHistory) (turns : Nat) (startSeq endSeq : UInt32) :
    Option (List Bytes) :=
  if startSeq > endSeq then some [] else lookupLoop history endSeq turns startSeq []

/-- The numbers still to come bound the turns still to come. -/
theorem lookupLoop_eq (history : PacketHistory) (endSeq : UInt32) (turns : Nat) (seqNum : UInt32)
    (packets : List Bytes) (h : endSeq.toNat + 1 - seqNum.toNat < turns) :
    lookupLoop history endSeq turns seqNum packets
      = some (lookupFrom history seqNum endSeq packets) := by
  induction turns generalizing seqNum packets with
  | zero => omega
  | succ turns ih =>
    rw [lookupLoop, lookupFrom]
    by_cases hle : seqNum ≤ endSeq
    · rw [if_pos hle, if_pos hle]
      by_cases hmax : seqNum = maxSeq
      · subst hmax
        rfl
      · simp only [hmax, ↓reduceIte, ↓reduceDIte]
        have hsucc := toNat_succ hmax
        have hnat := UInt32.le_iff_toNat_le.1 hle
        exact ih _ _ (by omega)
    · rw [if_neg hle, if_neg hle]

/-! ## The numbers of a range -/

theorem toNat_add_ofNat {startSeq : UInt32} {i : Nat} (h : startSeq.toNat + i < 2 ^ 32) :
    (startSeq + UInt32.ofNat i).toNat = startSeq.toNat + i := by
  have hi : i < UInt32.size := by
    rw [UInt32.size]
    omega
  rw [UInt32.toNat_add, UInt32.toNat_ofNat_of_lt' hi, Nat.mod_eq_of_lt h]

theorem mem_seqRange {startSeq seqNum : UInt32} {n : Nat} (h : startSeq.toNat + n ≤ 2 ^ 32) :
    seqNum ∈ seqRange startSeq n ↔
      startSeq.toNat ≤ seqNum.toNat ∧ seqNum.toNat < startSeq.toNat + n := by
  simp only [seqRange, List.mem_map, List.mem_range]
  constructor
  · rintro ⟨i, hi, rfl⟩
    rw [toNat_add_ofNat (by omega)]
    omega
  · rintro ⟨hlow, hhigh⟩
    refine ⟨seqNum.toNat - startSeq.toNat, by omega, UInt32.toNat_inj.1 ?_⟩
    rw [toNat_add_ofNat (by omega)]
    omega

theorem pairwise_seqRange {startSeq : UInt32} {n : Nat} (h : startSeq.toNat + n ≤ 2 ^ 32) :
    (seqRange startSeq n).Pairwise (· < ·) := by
  rw [seqRange, List.pairwise_map]
  refine List.pairwise_lt_range.imp_of_mem fun {i j} hi hj hij => ?_
  rw [List.mem_range] at hi hj
  rw [UInt32.lt_iff_toNat_lt, toNat_add_ofNat (by omega), toNat_add_ofNat (by omega)]
  omega

theorem seqRange_add (startSeq : UInt32) (m n : Nat) :
    seqRange startSeq (m + n)
      = seqRange startSeq m ++ seqRange (startSeq + UInt32.ofNat m) n := by
  simp only [seqRange, List.range_add, List.map_append, List.map_map]
  refine congrArg _ (List.map_congr_left fun i _ => ?_)
  simp only [Function.comp_apply, UInt32.ofNat_add, UInt32.add_assoc]

/-- The numbers between two bounds. -/
theorem mem_seqRange_between {startSeq endSeq seqNum : UInt32} :
    seqNum ∈ seqRange startSeq (endSeq.toNat + 1 - startSeq.toNat) ↔
      startSeq ≤ seqNum ∧ seqNum ≤ endSeq := by
  have hstart := startSeq.toNat_lt
  have hend := endSeq.toNat_lt
  rw [mem_seqRange (by omega), UInt32.le_iff_toNat_le, UInt32.le_iff_toNat_le]
  omega

/-! ## What is collected -/

/-- The entries that `filterMap` keeps, next to what it makes of them. -/
theorem forall₂_filterMap {α β : Type} (f : α → Option β) (l : List α) :
    List.Forall₂ (fun a b => f a = some b) (l.filter fun a => (f a).isSome) (l.filterMap f) := by
  induction l with
  | nil => exact .nil
  | cons a l ih =>
    cases h : f a with
    | none => simpa [h] using ih
    | some b => simpa [h] using ih

/-- A lookup up to a number and one from the next number on. -/
theorem lookupRange_split (history : PacketHistory) {startSeq midSeq endSeq : UInt32}
    (hmid : startSeq ≤ midSeq) (hend : midSeq < endSeq) :
    history.lookupRange startSeq endSeq
      = history.lookupRange startSeq midSeq ++ history.lookupRange (midSeq + 1) endSeq := by
  rw [UInt32.le_iff_toNat_le] at hmid
  rw [UInt32.lt_iff_toNat_lt] at hend
  have hsucc : (midSeq + 1).toNat = midSeq.toNat + 1 := by
    refine toNat_succ fun h => ?_
    have := endSeq.toNat_lt
    rw [h] at hend
    simp only [maxSeq, UInt32.reduceToNat] at hend
    omega
  have hnext : midSeq + 1 = startSeq + UInt32.ofNat (midSeq.toNat + 1 - startSeq.toNat) := by
    have := (midSeq + 1).toNat_lt
    rw [← UInt32.toNat_inj, hsucc, toNat_add_ofNat (by omega)]
    omega
  have hcount : endSeq.toNat + 1 - startSeq.toNat
      = (midSeq.toNat + 1 - startSeq.toNat) + (endSeq.toNat + 1 - (midSeq + 1).toNat) := by
    omega
  rw [lookupRange_eq, lookupRange_eq, lookupRange_eq, hcount, seqRange_add, List.filterMap_append,
    ← hnext]

/-! ## The stores before it -/

/-- The history after the calls of `store`, in their order. -/
def storeAll (stores : List (UInt32 × Bytes)) : PacketHistory :=
  stores.foldl (fun history entry => history.store entry.1 entry.2) ∅

/-- What the last call with `seqNum` stored. -/
def lastStored (stores : List (UInt32 × Bytes)) (seqNum : UInt32) : Option Bytes :=
  stores.reverse.lookup seqNum

theorem get_storeAll (stores : List (UInt32 × Bytes)) (seqNum : UInt32) :
    (storeAll stores)[seqNum]? = lastStored stores seqNum := by
  unfold storeAll PacketHistory.store
  rw [get_foldl_insert, ExtTreeMap.getElem?_empty, Option.or_none]
  rfl

theorem isSome_lastStored {stores : List (UInt32 × Bytes)} {seqNum : UInt32} :
    (lastStored stores seqNum).isSome ↔ seqNum ∈ stores.map Prod.fst := by
  simp [lastStored]

/-- **Range lookup is exact at every boundary.** After any calls of `store` and for any two bounds
the loop ends, within one turn more than there are numbers in the range. It returns, for the stored
keys between the bounds in increasing order, the last packet stored under each. -/
theorem lookup_range_exact (stores : List (UInt32 × Bytes)) (startSeq endSeq : UInt32) :
    (∀ turns, endSeq.toNat + 1 - startSeq.toNat < turns →
      (storeAll stores).lookupRangeWithin turns startSeq endSeq
        = some ((storeAll stores).lookupRange startSeq endSeq)) ∧
    (∃ keys : List UInt32, keys.Pairwise (· < ·) ∧
      (∀ seqNum, seqNum ∈ keys ↔
        startSeq ≤ seqNum ∧ seqNum ≤ endSeq ∧ seqNum ∈ stores.map Prod.fst) ∧
      List.Forall₂ (fun seqNum packet => lastStored stores seqNum = some packet) keys
        ((storeAll stores).lookupRange startSeq endSeq)) ∧
    (startSeq > endSeq → (storeAll stores).lookupRange startSeq endSeq = []) ∧
    ∀ midSeq, startSeq ≤ midSeq → midSeq < endSeq →
      (storeAll stores).lookupRange startSeq endSeq
        = (storeAll stores).lookupRange startSeq midSeq
          ++ (storeAll stores).lookupRange (midSeq + 1) endSeq := by
  refine ⟨fun turns hturns => ?terminates, ?keys, fun hgt => if_pos hgt,
    fun midSeq hmid hend => lookupRange_split _ hmid hend⟩
  case terminates =>
    rw [lookupRangeWithin, lookupRange, lookupLoop_eq _ _ _ _ _ hturns]
    split <;> rfl
  case keys =>
    refine ⟨(seqRange startSeq (endSeq.toNat + 1 - startSeq.toNat)).filter
      fun seqNum => ((storeAll stores)[seqNum]?).isSome, ?_, fun seqNum => ?_, ?_⟩
    · have := endSeq.toNat_lt
      have := startSeq.toNat_lt
      exact (pairwise_seqRange (by omega)).filter _
    · rw [List.mem_filter, mem_seqRange_between, get_storeAll, isSome_lastStored, and_assoc]
    · simp only [lookupRange_eq, ← get_storeAll]
      exact forall₂_filterMap _ _

end PacketHistory

end Bmdfh
