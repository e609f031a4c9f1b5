import Mathlib.Logic.Equiv.Basic
import Mathlib.Tactic.Ring

/-!
# Packed layouts

`Layout α`: values of `α` as a fixed number of bytes, with the two round trips as fields.
Layouts of words (`u8` .. `u64`, least significant byte first, as a little-endian host stores
them) and of byte arrays (`bytes`) are put after one another without padding (`seq`) and carried
over to a structure (`iso`), so a packed structure's layout is its list of fields.

`byteSwap w n` reverses the `w` bytes of `n`; `writeAt` overwrites a part of a buffer.
-/

namespace Packed

/-! ## The bytes of a number -/

/-- The `w` low bytes of `n`, least significant first. -/
def leBytes (w n : Nat) : List UInt8 := (List.range w).map fun i => UInt8.ofNat (n / 256 ^ i)

/-- The number with the bytes `bs`, least significant first. -/
def ofLeBytes (bs : List UInt8) : Nat := bs.foldr (fun b n => b.toNat + 256 * n) 0

@[simp] theorem length_leBytes (w n : Nat) : (leBytes w n).length = w := by simp [leBytes]

theorem leBytes_succ (w n : Nat) :
    leBytes (w + 1) n = UInt8.ofNat n :: leBytes w (n / 256) := by
  simp only [leBytes, List.range_succ_eq_map, List.map_cons, List.map_map, pow_zero, Nat.div_one,
    Function.comp_def, pow_succ, Nat.mul_comm _ 256, Nat.div_div_eq_div_mul]

@[simp] theorem ofLeBytes_cons (b : UInt8) (bs : List UInt8) :
    ofLeBytes (b :: bs) = b.toNat + 256 * ofLeBytes bs := rfl

theorem ofLeBytes_lt (bs : List UInt8) : ofLeBytes bs < 256 ^ bs.length := by
  induction bs with
  | nil => simp [ofLeBytes]
  | cons b bs ih =>
    have hb : b.toNat < 256 := b.toNat_lt
    rw [ofLeBytes_cons, List.length_cons, pow_succ]
    omega

theorem ofLeBytes_leBytes {w n : Nat} (h : n < 256 ^ w) : ofLeBytes (leBytes w n) = n := by
  induction w generalizing n with
  | zero => simp_all [leBytes, ofLeBytes]
  | succ w ih =>
    have hq : n / 256 < 256 ^ w := by rw [pow_succ] at h; omega
    rw [leBytes_succ, ofLeBytes_cons, ih hq, UInt8.toNat_ofNat']
    omega

theorem leBytes_ofLeBytes (bs : List UInt8) : leBytes bs.length (ofLeBytes bs) = bs := by
  induction bs with
  | nil => rfl
  | cons b bs ih =>
    have hb : b.toNat < 256 := b.toNat_lt
    have hq : (b.toNat + 256 * ofLeBytes bs) / 256 = ofLeBytes bs := by omega
    have hr : UInt8.ofNat (b.toNat + 256 * ofLeBytes bs) = b := by
      apply UInt8.toNat_inj.1
      rw [UInt8.toNat_ofNat']
      omega
    rw [List.length_cons, leBytes_succ, ofLeBytes_cons, hq, hr, ih]

/-! ## Byte order -/

/-- The `w` bytes of `n` in reverse order. -/
def byteSwap (w n : Nat) : Nat := ofLeBytes (leBytes w n).reverse

theorem byteSwap_lt (w n : Nat) : byteSwap w n < 256 ^ w := by
  simpa [byteSwap] using ofLeBytes_lt (leBytes w n).reverse

theorem leBytes_byteSwap (w n : Nat) : leBytes w (byteSwap w n) = (leBytes w n).reverse := by
  simpa [byteSwap] using leBytes_ofLeBytes (leBytes w n).reverse

theorem byteSwap_byteSwap {w n : Nat} (h : n < 256 ^ w) : byteSwap w (byteSwap w n) = n := by
  rw [byteSwap, leBytes_byteSwap, List.reverse_reverse, ofLeBytes_leBytes h]

/-- Swapping the number of some bytes reads them the other way round. -/
theorem byteSwap_ofLeBytes (bs : List UInt8) :
    byteSwap bs.length (ofLeBytes bs) = ofLeBytes bs.reverse := by
  rw [byteSwap, leBytes_ofLeBytes]

/-! ## Layouts -/

/-- Values of `α` as `size` bytes. `load` reads a value off the start of a longer buffer. -/
structure Layout (α : Type) where
  size : Nat
  store : α → List UInt8
  load : List UInt8 → α
  length_store : ∀ a, (store a).length = size
  load_store : ∀ a bs, load (store a ++ bs) = a
  store_load : ∀ bs, size ≤ bs.length → store (load bs) = bs.take size

namespace Layout

variable {α β : Type}

attribute [simp] length_store load_store

/-- A value alone in its buffer. -/
@[simp] theorem load_store_self (l : Layout α) (a : α) : l.load (l.store a) = a := by
  simpa using l.load_store a []

/-- A buffer that is the layout of its value. -/
theorem store_load_self (l : Layout α) {bs : List UInt8} (h : bs.length = l.size) :
    l.store (l.load bs) = bs := by
  rw [l.store_load bs (by omega), ← h, List.take_length]

/-- A machine word of `w` bytes, least significant byte first. -/
def word (w : Nat) (toNat : α → Nat) (ofNat : Nat → α) (hlt : ∀ a, toNat a < 256 ^ w)
    (hof : ∀ a, ofNat (toNat a) = a) (hto : ∀ n < 256 ^ w, toNat (ofNat n) = n) : Layout α where
  size := w
  store a := leBytes w (toNat a)
  load bs := ofNat (ofLeBytes (bs.take w))
  length_store a := length_leBytes w (toNat a)
  load_store a bs := by
    rw [List.take_left' (length_leBytes w (toNat a)), ofLeBytes_leBytes (hlt a), hof]
  store_load bs h := by
    have hl : (bs.take w).length = w := by simpa using h
    have hn : ofLeBytes (bs.take w) < 256 ^ w := by simpa [hl] using ofLeBytes_lt (bs.take w)
    rw [hto _ hn]
    simpa only [hl] using leBytes_ofLeBytes (bs.take w)

def u8 : Layout UInt8 :=
  word 1 UInt8.toNat UInt8.ofNat (fun a => a.toNat_lt) (fun _ => UInt8.ofNat_toNat)
    fun _ h => UInt8.toNat_ofNat_of_lt' h

def u16 : Layout UInt16 :=
  word 2 UInt16.toNat UInt16.ofNat (fun a => a.toNat_lt) (fun _ => UInt16.ofNat_toNat)
    fun _ h => UInt16.toNat_ofNat_of_lt' h

def u32 : Layout UInt32 :=
  word 4 UInt32.toNat UInt32.ofNat (fun a => a.toNat_lt) (fun _ => UInt32.ofNat_toNat)
    fun _ h => UInt32.toNat_ofNat_of_lt' h

def u64 : Layout UInt64 :=
  word 8 UInt64.toNat UInt64.ofNat (fun a => a.toNat_lt) (fun _ => UInt64.ofNat_toNat)
    fun _ h => UInt64.toNat_ofNat_of_lt' h

/-- An array of `n` bytes. -/
def bytes (n : Nat) : Layout (Vector UInt8 n) where
  size := n
  store v := v.toList
  load bs := Vector.ofFn fun i => bs.getD i 0
  length_store v := by simp
  load_store v bs := by
    ext i hi
    simp [List.getD_eq_getElem?_getD, List.getElem?_append_left]
  store_load bs h := by
    apply List.ext_getElem
    · simpa using h
    · intro i h1 h2
      have hi : i < bs.length := by simp at h2; omega
      simp [List.getD_eq_getElem?_getD, List.getElem?_eq_getElem hi]

/-- Two fields, the second right after the first. -/
def seq (a : Layout α) (b : Layout β) : Layout (α × β) where
  size := a.size + b.size
  store p := a.store p.1 ++ b.store p.2
  load bs := (a.load bs, b.load (bs.drop a.size))
  length_store p := by simp
  load_store p bs := by
    rw [List.append_assoc, a.load_store, List.drop_left' (a.length_store p.1), b.load_store]
  store_load bs h := by
    rw [a.store_load bs (by omega), b.store_load _ (by rw [List.length_drop]; omega),
      ← List.take_add]

/-- The layout of a type with the same values. -/
def iso (l : Layout α) (e : α ≃ β) : Layout β where
  size := l.size
  store b := l.store (e.symm b)
  load bs := e (l.load bs)
  length_store b := l.length_store (e.symm b)
  load_store b bs := by rw [l.load_store, e.apply_symm_apply]
  store_load bs h := by rw [e.symm_apply_apply, l.store_load bs h]

end Layout

/-! ## Writing into a buffer -/

section
variable {α : Type}

/-- `buf` with `src` written from index `pos` on. -/
def writeAt (buf : List α) (pos : Nat) (src : List α) : List α :=
  buf.take pos ++ src ++ buf.drop (pos + src.length)

theorem length_writeAt {buf : List α} {pos : Nat} {src : List α}
    (h : pos + src.length ≤ buf.length) : (writeAt buf pos src).length = buf.length := by
  simp only [writeAt, List.length_append, List.length_take, List.length_drop]
  omega

@[simp] theorem writeAt_nil (buf : List α) (pos : Nat) : writeAt buf pos [] = buf := by
  simp [writeAt]

/-- Two writes, the second where the first ended, are one write. -/
theorem writeAt_writeAt {buf : List α} {pos : Nat} {a b : List α}
    (h : pos + a.length ≤ buf.length) :
    writeAt (writeAt buf pos a) (pos + a.length) b = writeAt buf pos (a ++ b) := by
  have hl : (buf.take pos ++ a).length = pos + a.length := by
    simp only [List.length_append, List.length_take]
    omega
  simp only [writeAt]
  rw [List.take_left' hl, Nat.add_assoc, ← Nat.add_assoc pos, ← hl, List.drop_append,
    List.drop_eq_nil_of_le (by omega), List.drop_drop]
  simp [hl, Nat.add_assoc]

/-- A write over the whole buffer. -/
theorem writeAt_whole {buf src : List α} (h : src.length = buf.length) :
    writeAt buf 0 src = src := by
  simp [writeAt, h]

end

end Packed
