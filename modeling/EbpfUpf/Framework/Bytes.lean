import Mathlib.Data.List.Basic
import Mathlib.Algebra.Order.Ring.Nat
import Mathlib.Tactic.Ring

/-!
# Bytes and little-endian numbers

`le` reads a list of bytes as a number, least significant byte first, and
`toLE n` writes a number in `n` bytes; each undoes the other (`le_toLE`,
`toLE_le`). `Bytes.get` reads the number in `n` bytes at an offset and
`Bytes.set` writes bytes at one; `get_append_left` and `get_append_right`
find a field in a concatenation, and `get_set_self` and `get_set_ne` say what
is read after a write. `bswap n` reverses the bytes of an `n`-byte number.
-/

namespace Framework

abbrev Byte := BitVec 8

abbrev Bytes := List Byte

/-- The number with the bytes `bs`, least significant first. -/
def le : Bytes → Nat
  | [] => 0
  | b :: bs => b.toNat + 256 * le bs

/-- The `n` bytes of `v`, least significant first; higher bits are dropped. -/
def toLE : Nat → Nat → Bytes
  | 0, _ => []
  | n + 1, v => BitVec.ofNat 8 v :: toLE n (v / 256)

@[simp] theorem length_toLE (n v : Nat) : (toLE n v).length = n := by
  induction n generalizing v with
  | zero => rfl
  | succ n ih => simp [toLE, ih]

theorem le_toLE (n v : Nat) : le (toLE n v) = v % 256 ^ n := by
  induction n generalizing v with
  | zero => simp [toLE, le, Nat.mod_one]
  | succ n ih =>
    rw [toLE, le, ih, BitVec.toNat_ofNat, pow_succ' 256, Nat.mod_mul]

theorem le_toLE_of_lt {n v : Nat} (h : v < 256 ^ n) : le (toLE n v) = v := by
  rw [le_toLE, Nat.mod_eq_of_lt h]

theorem le_lt (bs : Bytes) : le bs < 256 ^ bs.length := by
  induction bs with
  | nil => simp [le]
  | cons b bs ih =>
    have hb := b.isLt
    rw [le, List.length_cons, pow_succ]
    omega

/-- Zeros behind a number do not change it. -/
theorem le_append_zeros (bs : Bytes) (n : Nat) : le (bs ++ List.replicate n 0) = le bs := by
  induction bs with
  | nil =>
    induction n with
    | zero => rfl
    | succ n ih =>
      simp only [List.nil_append, List.replicate_succ, le] at ih ⊢
      rw [ih]
      rfl
  | cons b bs ih => rw [List.cons_append, le, ih, le]

theorem toLE_le (bs : Bytes) : toLE bs.length (le bs) = bs := by
  induction bs with
  | nil => rfl
  | cons b bs ih =>
    have hb := b.isLt
    rw [List.length_cons, toLE, le]
    congr 1
    · apply BitVec.eq_of_toNat_eq
      rw [BitVec.toNat_ofNat]
      omega
    · rw [show (b.toNat + 256 * le bs) / 256 = le bs by omega, ih]

/-- An `n`-byte number with its bytes in the other order. -/
def bswap (n v : Nat) : Nat := le (toLE n v).reverse

theorem bswap_lt (n v : Nat) : bswap n v < 256 ^ n := by
  have := le_lt (toLE n v).reverse
  rwa [List.length_reverse, length_toLE] at this

theorem bswap_le (bs : Bytes) : bswap bs.length (le bs) = le bs.reverse := by
  rw [bswap, toLE_le]

theorem bswap_bswap {n v : Nat} (h : v < 256 ^ n) : bswap n (bswap n v) = v := by
  have := bswap_le (toLE n v).reverse
  rw [List.length_reverse, length_toLE, List.reverse_reverse, le_toLE_of_lt h] at this
  exact this

namespace Bytes

/-- The number in the `n` bytes at offset `off`. -/
def get (bs : Bytes) (off n : Nat) : Nat := le ((bs.drop off).take n)

/-- `bs` with the bytes `v` written at offset `off`. -/
def set (bs : Bytes) (off : Nat) (v : Bytes) : Bytes :=
  bs.take off ++ v ++ bs.drop (off + v.length)

theorem get_lt (bs : Bytes) (off n : Nat) : get bs off n < 256 ^ n := by
  have h := le_lt ((bs.drop off).take n)
  refine h.trans_le (Nat.pow_le_pow_right (by decide) ?_)
  simp

theorem get_append_left {as bs : Bytes} {off n : Nat} (h : off + n ≤ as.length) :
    get (as ++ bs) off n = get as off n := by
  rw [get, List.drop_append_of_le_length (by omega), List.take_append_of_le_length, get]
  rw [List.length_drop]
  omega

theorem get_append_right {as bs : Bytes} {off n : Nat} (h : as.length ≤ off) :
    get (as ++ bs) off n = get bs (off - as.length) n := by
  rw [get, List.drop_append, List.drop_of_length_le h, List.nil_append, get]

theorem get_zero_length (bs : Bytes) : get bs 0 bs.length = le bs := by
  simp [get]

theorem get_toLE {n v : Nat} (h : v < 256 ^ n) : get (toLE n v) 0 n = v := by
  have := get_zero_length (toLE n v)
  rw [length_toLE] at this
  rw [this, le_toLE_of_lt h]

theorem length_set {bs v : Bytes} {off : Nat} (h : off + v.length ≤ bs.length) :
    (set bs off v).length = bs.length := by
  simp only [set, List.length_append, List.length_take, List.length_drop]
  omega

theorem get_set_self {bs v : Bytes} {off : Nat} (h : off + v.length ≤ bs.length) :
    get (set bs off v) off v.length = le v := by
  have hl : (bs.take off).length = off := by
    rw [List.length_take]
    omega
  rw [set, List.append_assoc, get_append_right (by rw [hl]), hl, Nat.sub_self,
    get_append_left (by omega), get_zero_length]

theorem get_set_ne {bs v : Bytes} {off off' n : Nat} (h : off + v.length ≤ bs.length)
    (hd : off' + n ≤ off ∨ off + v.length ≤ off') : get (set bs off v) off' n = get bs off' n := by
  have hl : (bs.take off).length = off := by
    rw [List.length_take]
    omega
  have hs : bs = bs.take off ++ bs.drop off := (List.take_append_drop off bs).symm
  rcases hd with hd | hd
  · rw [set, List.append_assoc, get_append_left (by rw [hl]; exact hd)]
    conv_rhs => rw [hs, get_append_left (by rw [hl]; exact hd)]
  · rw [set, get_append_right (by rw [List.length_append, hl]; exact hd), List.length_append, hl, get,
      get, List.drop_drop]
    congr 3
    omega

/-- A write over the bytes `ws`, of the same length. -/
theorem set_mid {as ws bs v : Bytes} {off : Nat} (ho : off = as.length) (hw : ws.length = v.length) :
    set (as ++ ws ++ bs) off v = as ++ v ++ bs := by
  have ht : (as ++ ws ++ bs).take off = as := by rw [List.append_assoc, List.take_left' ho.symm]
  have hd : (as ++ ws ++ bs).drop (off + v.length) = bs :=
    List.drop_left' (by rw [List.length_append, hw, ho])
  rw [set, ht, hd]

/-- One more word of `v` copied over `bs`, of which the first `n` bytes are those of `v` already. -/
theorem take_set_word {bs v : Bytes} {n : Nat} (hl : bs.length = v.length) (hn : n < v.length)
    (h : bs.take n = v.take n) (w : Nat) : (set bs n ((v.drop n).take w)).take (n + w) = v.take (n + w) := by
  have hv : v.take n ++ (v.drop n).take w = v.take (n + w) := List.take_add.symm
  rw [set, h, hv]
  by_cases hw : n + w ≤ v.length
  · have : (v.take (n + w)).length = n + w := by
      rw [List.length_take]
      omega
    rw [List.take_left' this]
  · have hd : bs.drop (n + ((v.drop n).take w).length) = [] := by
      rw [List.drop_eq_nil_iff, List.length_take, List.length_drop]
      omega
    rw [hd, List.append_nil, List.take_take, Nat.min_self]

end Bytes

end Framework
