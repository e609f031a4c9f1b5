import Mathlib.Data.List.TakeWhile

/-!
# Decimal numbers in texts

The decimal digits of a number, followed by something that does not go on with a digit: the number
and what follows are determined by the text (`digits_append_inj`), and the longest run of digits
is the number (`takeWhile_digits`). `value` reads digits, leading zeros included.
-/

namespace Decimal

abbrev digits (n : Nat) : List Char := Nat.toDigits 10 n

def value (cs : List Char) : Nat := Nat.ofDigitChars 10 cs 0

theorem value_digits (n : Nat) : value (digits n) = n := Nat.ofDigitChars_ten_toDigits

theorem isDigit_of_mem {n : Nat} {c : Char} (h : c ∈ digits n) : c.isDigit :=
  Nat.isDigit_of_mem_toDigits (by decide) (Nat.le_refl _) h

theorem digits_ne_nil (n : Nat) : digits n ≠ [] := Nat.toDigits_ne_nil

/-- The text does not start with a digit. -/
def Stops (rest : List Char) : Prop := ∀ c ∈ rest.head?, c.isDigit = false

@[simp] theorem stops_nil : Stops [] := fun _ h => nomatch h

@[simp] theorem stops_cons {c : Char} {rest : List Char} :
    Stops (c :: rest) ↔ c.isDigit = false :=
  ⟨fun h => h c rfl, fun h _ hc => Option.some.inj hc ▸ h⟩

theorem takeWhile_of_stops {rest : List Char} (h : Stops rest) :
    rest.takeWhile Char.isDigit = [] := by
  cases rest with
  | nil => rfl
  | cons c rest =>
    rw [List.takeWhile_cons_of_neg]
    rw [stops_cons.1 h]
    exact Bool.false_ne_true

theorem takeWhile_digits (n : Nat) {rest : List Char} (h : Stops rest) :
    (digits n ++ rest).takeWhile Char.isDigit = digits n := by
  rw [List.takeWhile_append_of_pos fun c hc => isDigit_of_mem hc, takeWhile_of_stops h,
    List.append_nil]

theorem digits_append_inj {m n : Nat} {r r' : List Char} (h : Stops r) (h' : Stops r') :
    digits m ++ r = digits n ++ r' ↔ m = n ∧ r = r' := by
  constructor
  · intro heq
    have hdigits : digits m = digits n := by
      rw [← takeWhile_digits m h, ← takeWhile_digits n h', heq]
    rw [hdigits] at heq
    refine ⟨?_, List.append_cancel_left heq⟩
    rw [← value_digits m, hdigits, value_digits]
  · rintro ⟨rfl, rfl⟩
    rfl

theorem digits_inj {m n : Nat} : digits m = digits n ↔ m = n := by
  simpa using digits_append_inj (m := m) (n := n) stops_nil stops_nil

/-- A number starts with a digit. -/
theorem digits_append_ne_cons {n : Nat} {r r' : List Char} {c : Char} (hc : c.isDigit = false) :
    digits n ++ r ≠ c :: r' := by
  cases hd : digits n with
  | nil => exact (digits_ne_nil n hd).elim
  | cons d ds =>
    rintro ⟨⟩
    have hdigit : c.isDigit = true := isDigit_of_mem (n := n) (hd ▸ List.mem_cons_self)
    rw [hc] at hdigit
    cases hdigit

/-! ## The texts of the words -/

@[simp] theorem toList_toString_uint16 (x : UInt16) : (toString x).toList = digits x.toNat :=
  Nat.toList_repr

@[simp] theorem toList_toString_uint32 (x : UInt32) : (toString x).toList = digits x.toNat :=
  Nat.toList_repr

@[simp] theorem toList_toString_uint64 (x : UInt64) : (toString x).toList = digits x.toNat :=
  Nat.toList_repr

end Decimal
