import Bmdfh.Lib.Decimal
import Bmdfh.OrderBook.Proof.Operations
import Bmdfh.Protocol.Text

/-!
# The texts determine what they show

The text of a message determines its operation, that of a snapshot the snapshot, also with more
text behind it (`describe_append_inj`, `formatBbo_append_inj`). The time stamp of a message is not
in its text; it has no effect on the book (`update_of_operation`).
-/

namespace Bmdfh

open Decimal Protocol

namespace Protocol

theorem sideText_append_inj {s s' : Option Side} {r r' : List Char} :
    (sideText s).toList ++ ' ' :: r = (sideText s').toList ++ ' ' :: r' ↔ s = s' ∧ r = r' := by
  rcases s with _ | _ | _ <;> rcases s' with _ | _ | _ <;> simp [sideText, Side.text]

end Protocol

/-- The text of an operation. -/
def Operation.text : Operation → String
  | .add orderId side price quantity =>
    "ADD order_id=" ++ toString orderId
      ++ " side=" ++ sideText side
      ++ " price=" ++ toString price ++ " qty=" ++ toString quantity
  | .modify orderId price quantity =>
    "MODIFY order_id=" ++ toString orderId
      ++ " price=" ++ toString price ++ " qty=" ++ toString quantity
  | .delete orderId => "DELETE order_id=" ++ toString orderId
  | .trade orderId price quantity =>
    "TRADE order_id=" ++ toString orderId
      ++ " price=" ++ toString price ++ " qty=" ++ toString quantity

theorem Operation.text_append_inj {f f' : Operation} {r r' : List Char} (h : Stops r)
    (h' : Stops r') :
    f.text.toList ++ r = f'.text.toList ++ r' ↔ f = f' ∧ r = r' := by
  -- `simp` is slow at the equations of a function into long texts
  cases f <;> cases f' <;> unfold Operation.text <;>
    simp [digits_append_inj, sideText_append_inj, h, h', and_assoc,
      UInt32.toNat_inj, UInt64.toNat_inj]

namespace Protocol

theorem describeFields_eq (m : MessageView) : describeFields m = m.operation.text := by
  cases m <;> rfl

theorem describe_append_inj {s s' : UInt32} {i i' : Nat} {m m' : MessageView} {r r' : List Char}
    (h : Stops r) (h' : Stops r') :
    (describe s i m).toList ++ r = (describe s' i' m').toList ++ r' ↔
      s = s' ∧ i = i' ∧ m.operation = m'.operation ∧ r = r' := by
  simp [describe, describeFields_eq, digits_append_inj, Operation.text_append_inj h h',
    UInt32.toNat_inj]

end Protocol

theorem formatLevel_append_inj {label : String} {l l' : Option Level} {r r' : List Char}
    (h : Stops r) (h' : Stops r') :
    (formatLevel label l).toList ++ r = (formatLevel label l').toList ++ r' ↔ l = l' ∧ r = r' := by
  rcases l with _ | ⟨p, q⟩ <;> rcases l' with _ | ⟨p', q'⟩
  · simp [formatLevel]
  · simp only [formatLevel, String.toList_append, List.append_assoc]
    simp [(digits_append_ne_cons (c := '-') rfl).symm]
  · simp only [formatLevel, String.toList_append, List.append_assoc]
    simp [digits_append_ne_cons (c := '-') rfl]
  · simp [formatLevel, digits_append_inj, h, h', UInt32.toNat_inj, and_assoc]

theorem OrderBook.formatBbo_append_inj {b b' : BboSnapshot} {r r' : List Char} (h : Stops r)
    (h' : Stops r') :
    (formatBbo b).toList ++ r = (formatBbo b').toList ++ r' ↔ b = b' ∧ r = r' := by
  obtain ⟨bid, ask⟩ := b
  obtain ⟨bid', ask'⟩ := b'
  simp [formatBbo, formatLevel_append_inj, h, h', and_assoc]

/-- What a message does to the book is in its operation. -/
theorem OrderBook.update_of_operation {m m' : Message} (h : m.operation = m'.operation)
    (book : OrderBook) : book.update m = book.update m' := by
  cases m' with
  | addOrder w' =>
    obtain ⟨w, rfl, hid, hside, hprice, hquantity⟩ := operation_eq_add h
    simp only [update, applyAdd, hid, hside, hprice, hquantity]
  | modifyOrder w' =>
    obtain ⟨w, rfl, hid, hprice, hquantity⟩ := operation_eq_modify h
    simp only [update, applyModify, hid, hprice, hquantity]
  | deleteOrder w' =>
    obtain ⟨w, rfl, hid⟩ := operation_eq_delete h
    simp only [update, applyDelete, hid]
  | trade w' =>
    obtain ⟨w, rfl, hid, hprice, hquantity⟩ := operation_eq_trade h
    simp only [update, applyTrade, hid, hquantity]

end Bmdfh
