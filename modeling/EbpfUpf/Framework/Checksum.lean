import Mathlib.Data.Nat.ModEq
import EbpfUpf.Framework.Bytes

/-!
# The Internet checksum

`sumBE` adds up the 16-bit words of a header in network byte order, `fold` adds
the carries back in until the sum has 16 bits, and a header `Verifies` if that
gives all ones. On a little-endian machine the words read are the byte-swapped
ones (`sumLE`); up to carries the sum is swapped with them, so that it can be
checked on these (`verifies_iff`). `checksum` is what a field that was summed
as zero must be for the header to verify.
-/

namespace Framework

/-- The sum of the 16-bit words of `bs`, first byte high. -/
def sumBE : Bytes → Nat
  | a :: b :: bs => 256 * a.toNat + b.toNat + sumBE bs
  | [a] => 256 * a.toNat
  | [] => 0

/-- The sum of the 16-bit words of `bs`, first byte low. -/
def sumLE : Bytes → Nat
  | a :: b :: bs => a.toNat + 256 * b.toNat + sumLE bs
  | [a] => a.toNat
  | [] => 0

/-- The 16-bit one's complement sum that `n` stands for. -/
def fold (n : Nat) : Nat :=
  if n < 2 ^ 16 then n else fold (n % 2 ^ 16 + n / 2 ^ 16)

def Verifies (bs : Bytes) : Prop := fold (sumBE bs) = 0xffff

theorem fold_eq {n : Nat} (h : n ≠ 0) : fold n = (n - 1) % 65535 + 1 := by
  induction n using Nat.strong_induction_on with
  | _ n ih =>
    rw [fold]
    split
    · omega
    · rw [ih (n % 2 ^ 16 + n / 2 ^ 16) (by omega) (by omega)]
      omega

theorem fold_eq_ones {n : Nat} : fold n = 0xffff ↔ n ≠ 0 ∧ n % 65535 = 0 := by
  by_cases h : n = 0
  · subst h
    rw [fold]
    simp
  · rw [fold_eq h]
    omega

theorem sumBE_mod (bs : Bytes) : sumBE bs % 65535 = 256 * sumLE bs % 65535 := by
  induction bs using sumBE.induct with
  | case1 a b bs ih =>
    rw [sumBE, sumLE]
    omega
  | case2 a => rfl
  | case3 => rfl

theorem sumBE_eq_zero (bs : Bytes) : sumBE bs = 0 ↔ sumLE bs = 0 := by
  induction bs using sumBE.induct with
  | case1 a b bs ih =>
    rw [sumBE, sumLE]
    omega
  | case2 a => simp [sumBE, sumLE]
  | case3 => rfl

/-- A header verifies if the sum of its words as a little-endian machine reads
them is a multiple of 65535, and not zero. -/
theorem verifies_iff {bs : Bytes} : Verifies bs ↔ sumLE bs ≠ 0 ∧ sumLE bs % 65535 = 0 := by
  have hc : (65535 : Nat).Coprime 256 := by decide
  have hd : 65535 ∣ 256 * sumLE bs ↔ 65535 ∣ sumLE bs := hc.dvd_mul_left
  rw [Verifies, fold_eq_ones, sumBE_mod, ← Nat.dvd_iff_mod_eq_zero, hd, Nat.dvd_iff_mod_eq_zero, ne_eq,
    sumBE_eq_zero]

/-- A field of 16 bits, summed as zero so far, for the sum `n`. -/
def checksum (n : Nat) : Nat :=
  let n := n % 2 ^ 16 + n / 2 ^ 16
  let n := n % 2 ^ 16 + n / 2 ^ 16
  2 ^ 16 - 1 - n % 2 ^ 16

theorem checksum_lt (n : Nat) : checksum n < 2 ^ 16 := by
  unfold checksum
  dsimp only
  omega

/-- The checksum makes the sum a multiple of 65535, if two folds are enough. -/
theorem add_checksum_mod {n : Nat} (h : n < 2 ^ 31) : (n + checksum n) % 65535 = 0 := by
  have ha : n = 65535 * (n / 2 ^ 16) + (n % 2 ^ 16 + n / 2 ^ 16) := by omega
  have hle : n % 2 ^ 16 + n / 2 ^ 16 < 2 ^ 16 + 2 ^ 15 := by omega
  unfold checksum
  dsimp only
  generalize n % 2 ^ 16 + n / 2 ^ 16 = a at ha hle ⊢
  have hb : a = 65535 * (a / 2 ^ 16) + (a % 2 ^ 16 + a / 2 ^ 16) := by omega
  have hlb : a % 2 ^ 16 + a / 2 ^ 16 < 2 ^ 16 := by omega
  generalize a % 2 ^ 16 + a / 2 ^ 16 = b at hb hlb ⊢
  rw [Nat.mod_eq_of_lt hlb]
  omega

/-! ## Folds -/

/-- One addition of the carries. -/
def foldOnce (n : Nat) : Nat := n % 2 ^ 16 + n / 2 ^ 16

theorem checksum_eq (n : Nat) : checksum n = 2 ^ 16 - 1 - foldOnce (foldOnce n) % 2 ^ 16 := rfl

theorem fold_of_lt {n : Nat} (h : n < 2 ^ 16) : fold n = n := by rw [fold, if_pos h]

theorem fold_foldOnce (n : Nat) : fold (foldOnce n) = fold n := by
  by_cases h : n < 2 ^ 16
  · rw [show foldOnce n = n by unfold foldOnce; omega]
  · conv_rhs => rw [fold, if_neg h]
    rfl

/-- After two folds there is no carry left. -/
theorem foldOnce_foldOnce_lt {n : Nat} (h : n < 2 ^ 31) : foldOnce (foldOnce n) < 2 ^ 16 := by
  unfold foldOnce
  have hle : n % 2 ^ 16 + n / 2 ^ 16 < 2 ^ 16 + 2 ^ 15 := by omega
  generalize n % 2 ^ 16 + n / 2 ^ 16 = a at hle ⊢
  omega

theorem fold_lt (n : Nat) : fold n < 2 ^ 16 := by
  by_cases h : n = 0
  · subst h
    rw [fold_of_lt (by decide)]
    decide
  · rw [fold_eq h]
    omega

theorem fold_eq_foldOnce {n : Nat} (h : n < 2 ^ 31) : fold n = foldOnce (foldOnce n) := by
  rw [← fold_foldOnce, ← fold_foldOnce, fold_of_lt (foldOnce_foldOnce_lt h)]

/-- The checksum of a sum is its fold, inverted. -/
theorem checksum_eq_fold {n : Nat} (h : n < 2 ^ 31) : checksum n = 0xffff - fold n := by
  have hlt := foldOnce_foldOnce_lt h
  rw [checksum_eq, fold_eq_foldOnce h]
  omega

theorem fold_add_checksum {n : Nat} (h : n < 2 ^ 31) : fold (n + checksum n) = 0xffff := by
  rw [fold_eq_ones]
  refine ⟨?_, add_checksum_mod h⟩
  intro hz
  have hc := checksum_eq_fold h
  have hn : n = 0 := by omega
  subst hn
  rw [fold_of_lt (by decide)] at hc
  omega

/-! ## Byte order -/

theorem bswap_two (v : Nat) : bswap 2 v = v / 256 % 256 + 256 * (v % 256) := by
  simp only [bswap, toLE, List.reverse_cons, List.reverse_nil, List.nil_append, List.cons_append, le,
    BitVec.toNat_ofNat]
  omega

/-- Up to a multiple of 65535, the swapped word is 256 times the word. -/
theorem bswap_mod {v : Nat} (h : v < 2 ^ 16) : bswap 2 v % 65535 = 256 * v % 65535 := by
  have h256 : 256 * v = 65535 * (v / 256) + bswap 2 v := by
    rw [bswap_two]
    omega
  omega

/-- A sum with the bytes of its words swapped folds to the fold with its bytes
swapped. -/
theorem fold_bswap {m n : Nat} (h : m % 65535 = 256 * n % 65535) (h0 : m = 0 ↔ n = 0) :
    fold m = bswap 2 (fold n) := by
  by_cases hn : n = 0
  · rw [h0.mpr hn, hn, fold_of_lt (by decide)]
    rfl
  · have hlt := fold_lt n
    have hpos : 0 < fold n := by
      rw [fold_eq hn]
      omega
    have hb := bswap_mod hlt
    have hbl : bswap 2 (fold n) < 2 ^ 16 := bswap_lt 2 _
    have hbp : 0 < bswap 2 (fold n) := by
      rw [bswap_two]
      omega
    have hf : fold n % 65535 = n % 65535 := by
      rw [fold_eq hn]
      omega
    rw [Nat.mul_mod, hf, ← Nat.mul_mod, ← h] at hb
    rw [fold_eq (mt h0.mp hn)]
    omega

theorem bswap_compl {v : Nat} (h : v < 2 ^ 16) : bswap 2 (0xffff - v) = 0xffff - bswap 2 v := by
  rw [bswap_two, bswap_two]
  omega

theorem sumLE_append {as bs : Bytes} (h : as.length % 2 = 0) : sumLE (as ++ bs) = sumLE as + sumLE bs := by
  induction as using sumLE.induct with
  | case1 a b as ih =>
    rw [List.cons_append, List.cons_append, sumLE, sumLE, ih (by simp only [List.length_cons] at h; omega)]
    omega
  | case2 a => simp at h
  | case3 => simp [sumLE]

theorem sumLE_toLE {v : Nat} (h : v < 2 ^ 16) : sumLE (toLE 2 v) = v := by
  simp only [toLE, sumLE, BitVec.toNat_ofNat]
  omega

theorem sumLE_lt (bs : Bytes) : sumLE bs ≤ bs.length * 65535 := by
  induction bs using sumLE.induct with
  | case1 a b bs ih =>
    have ha := a.isLt
    have hb := b.isLt
    rw [sumLE, List.length_cons, List.length_cons]
    omega
  | case2 a =>
    have ha := a.isLt
    rw [sumLE, List.length_singleton]
    omega
  | case3 => simp [sumLE]

/-- A word read out of the bytes. -/
theorem sumLE_word {bs : Bytes} {off : Nat} (h : off + 2 ≤ bs.length) :
    sumLE ((bs.drop off).take 2) = bs.get off 2 := by
  rw [Bytes.get]
  generalize hd : (bs.drop off).take 2 = w
  have hwl : w.length = 2 := by
    rw [← hd, List.length_take, List.length_drop]
    omega
  obtain ⟨a, b, rfl⟩ := List.length_eq_two.mp hwl
  simp [sumLE, le]

/-- The words read one after another. -/
theorem sumLE_take (bs : Bytes) {n : Nat} (h : 2 * n + 2 ≤ bs.length) :
    sumLE (bs.take (2 * n + 2)) = sumLE (bs.take (2 * n)) + bs.get (2 * n) 2 := by
  have hl : (bs.take (2 * n)).length = 2 * n := by
    rw [List.length_take]
    omega
  rw [List.take_add, sumLE_append (by rw [hl]; omega), sumLE_word h]

theorem sumBE_le (bs : Bytes) : sumBE bs ≤ bs.length * 65535 := by
  induction bs using sumBE.induct with
  | case1 a b bs ih =>
    have ha := a.isLt
    have hb := b.isLt
    rw [sumBE, List.length_cons, List.length_cons]
    omega
  | case2 a =>
    have ha := a.isLt
    rw [sumBE, List.length_singleton]
    omega
  | case3 => simp [sumBE]

/-- A machine of the other byte order computes the same bytes. -/
theorem checksum_sumBE {bs : Bytes} (h : bs.length < 2 ^ 15) : checksum (sumBE bs) = bswap 2 (checksum (sumLE bs)) := by
  have hb := sumBE_le bs
  have hl := sumLE_lt bs
  rw [checksum_eq_fold (by omega), checksum_eq_fold (by omega), fold_bswap (sumBE_mod bs) (sumBE_eq_zero bs),
    bswap_compl (fold_lt _)]

end Framework
