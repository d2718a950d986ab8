import EbpfUpf.Framework.Checksum

/-!
# Stores to a buffer

A store outside the buffer is undefined (`store?`). `stores` makes some stores
one after another: what is read at the end is what the last store to those bytes
wrote (`slice_last`), or what was there (`slice_other`), if each store is to the
same bytes or to others.

A header into which a checksum is stored verifies only if what was summed in its
place makes no difference (`verifies_store`).
-/

namespace Framework

namespace Bytes

/-- The `n` bytes at `off`. -/
def slice (bs : Bytes) (off n : Nat) : Bytes := (bs.drop off).take n

theorem get_eq_slice (bs : Bytes) (off n : Nat) : bs.get off n = le (bs.slice off n) := rfl

theorem length_slice {bs : Bytes} {off n : Nat} (h : off + n ≤ bs.length) : (bs.slice off n).length = n := by
  rw [slice, List.length_take, List.length_drop]
  omega

theorem slice_set_self {bs v : Bytes} {off : Nat} (h : off + v.length ≤ bs.length) :
    (bs.set off v).slice off v.length = v := by
  have hl : (bs.take off).length = off := by
    rw [List.length_take]
    omega
  rw [slice, set, List.append_assoc, List.drop_left' hl, List.take_left]

theorem slice_append_left {as bs : Bytes} {off n : Nat} (h : off + n ≤ as.length) :
    (as ++ bs).slice off n = as.slice off n := by
  rw [slice, List.drop_append_of_le_length (by omega), List.take_append_of_le_length, slice]
  rw [List.length_drop]
  omega

theorem slice_append_right {as bs : Bytes} {off n : Nat} (h : as.length ≤ off) :
    (as ++ bs).slice off n = bs.slice (off - as.length) n := by
  rw [slice, List.drop_append, List.drop_of_length_le h, List.nil_append, slice]

theorem slice_set_ne {bs v : Bytes} {off off' n : Nat} (h : off + v.length ≤ bs.length)
    (hd : off' + n ≤ off ∨ off + v.length ≤ off') : (bs.set off v).slice off' n = bs.slice off' n := by
  have hl : (bs.take off).length = off := by
    rw [List.length_take]
    omega
  have hs : bs = bs.take off ++ bs.drop off := (List.take_append_drop off bs).symm
  rcases hd with hd | hd
  · rw [set, List.append_assoc, slice_append_left (by omega)]
    conv_rhs => rw [hs, slice_append_left (by omega)]
  · rw [set, slice_append_right (by rw [List.length_append, hl]; exact hd), List.length_append, hl, slice,
      slice, List.drop_drop]
    congr 2
    omega

theorem slice_add (bs : Bytes) (off m n : Nat) : bs.slice off (m + n) = bs.slice off m ++ bs.slice (off + m) n := by
  rw [slice, slice, slice, List.take_add, List.drop_drop]

/-! ## Stores -/

/-- The buffer after a store, which has to be within it. -/
def store? (bs : Bytes) (off : Nat) (v : Bytes) : Option Bytes :=
  if off + v.length ≤ bs.length then some (bs.set off v) else none

/-- The buffer after the stores `ws`, in turn. -/
def stores (ws : List (Nat × Bytes)) (bs : Bytes) : Option Bytes := ws.foldlM (fun bs w => bs.store? w.1 w.2) bs

variable {ws ws' : List (Nat × Bytes)} {bs bs' v : Bytes} {off n : Nat}

theorem store?_eq_some : bs.store? off v = some bs' ↔ off + v.length ≤ bs.length ∧ bs' = bs.set off v := by
  rw [store?]
  split
  · simp [*, eq_comm]
  · simp [*]

theorem stores_cons {w : Nat × Bytes} : stores (w :: ws) bs = (bs.store? w.1 w.2).bind (stores ws) := rfl

theorem stores_append : stores (ws ++ ws') bs = (stores ws bs).bind (stores ws') := by
  rw [stores, List.foldlM_append]
  rfl

theorem length_stores (h : stores ws bs = some bs') : bs'.length = bs.length := by
  induction ws generalizing bs with
  | nil =>
    cases h
    rfl
  | cons w ws ih =>
    obtain ⟨bs₁, h₁, h₂⟩ := Option.bind_eq_some_iff.mp h
    obtain ⟨hl, rfl⟩ := store?_eq_some.mp h₁
    rw [ih h₂, length_set hl]

/-- The stores are made if all are within the buffer. -/
theorem stores_isSome : (stores ws bs).isSome ↔ ∀ w ∈ ws, w.1 + w.2.length ≤ bs.length := by
  induction ws generalizing bs with
  | nil => simp [stores]
  | cons w ws ih =>
    rw [stores_cons, List.forall_mem_cons, store?]
    by_cases h : w.1 + w.2.length ≤ bs.length
    · rw [if_pos h, Option.bind_some, ih, length_set h, and_iff_right h]
    · rw [if_neg h]
      simp [h]

/-- Bytes to which no store is made. -/
theorem slice_other (h : stores ws bs = some bs') (hd : ∀ w ∈ ws, off + n ≤ w.1 ∨ w.1 + w.2.length ≤ off) :
    bs'.slice off n = bs.slice off n := by
  induction ws generalizing bs with
  | nil =>
    cases h
    rfl
  | cons w ws ih =>
    obtain ⟨hw, hws⟩ := List.forall_mem_cons.mp hd
    obtain ⟨bs₁, h₁, h₂⟩ := Option.bind_eq_some_iff.mp h
    obtain ⟨hl, rfl⟩ := store?_eq_some.mp h₁
    rw [ih h₂ hws, slice_set_ne hl hw]

/-- What the last store to these bytes wrote. -/
theorem slice_last (h : stores ws bs = some bs') (i : Nat) (hi : ws[i]? = some (off, v))
    (hd : ∀ w ∈ ws.drop (i + 1), off + v.length ≤ w.1 ∨ w.1 + w.2.length ≤ off) : bs'.slice off v.length = v := by
  obtain ⟨hlt, he⟩ := List.getElem?_eq_some_iff.mp hi
  have hs : ws = ws.take i ++ (off, v) :: ws.drop (i + 1) := by
    rw [← he, List.getElem_cons_drop, List.take_append_drop]
  rw [hs, stores_append] at h
  obtain ⟨bs₁, -, h₂⟩ := Option.bind_eq_some_iff.mp h
  obtain ⟨bs₂, h₃, h₄⟩ := Option.bind_eq_some_iff.mp h₂
  obtain ⟨hl, rfl⟩ := store?_eq_some.mp h₃
  rw [slice_other h₄ hd, slice_set_self hl]

/-! ## Checksums -/

/-- The checksum of ten words, one of which is not zero when it is summed. -/
theorem verifies_store (hl : off + 20 ≤ bs.length) (hw : sumLE (bs.slice off 10) ≠ 0) :
    Verifies ((bs.set (off + 10) (toLE 2 (checksum (sumLE (bs.slice off 20))))).slice off 20) ↔
      bs.get (off + 10) 2 = 0 ∨ bs.get (off + 10) 2 = 0xffff := by
  generalize hc : checksum (sumLE (bs.slice off 20)) = c
  have hsplit : ∀ bs : Bytes, bs.slice off 20 = bs.slice off 10 ++ (bs.slice (off + 10) 2 ++ bs.slice (off + 12) 8) :=
    fun bs => (slice_add bs off 10 10).trans (congrArg _ (slice_add bs (off + 10) 2 8))
  have hin : off + 10 + (toLE 2 c).length ≤ bs.length := by
    rw [length_toLE]
    omega
  have hself : (bs.set (off + 10) (toLE 2 c)).slice (off + 10) 2 = toLE 2 c := by
    have := slice_set_self hin
    rwa [length_toLE] at this
  have hne : ∀ {i n : Nat}, i + n ≤ off + 10 ∨ off + 10 + 2 ≤ i →
      (bs.set (off + 10) (toLE 2 c)).slice i n = bs.slice i n := fun h =>
    slice_set_ne hin (by rwa [length_toLE])
  have hsum : ∀ w : Bytes, w.length = 2 → sumLE (bs.slice off 10 ++ (w ++ bs.slice (off + 12) 8)) =
      sumLE (bs.slice off 10) + (sumLE w + sumLE (bs.slice (off + 12) 8)) := fun w hw => by
    rw [sumLE_append (by rw [length_slice (by omega)]), sumLE_append (by rw [hw])]
  have hword : sumLE (bs.slice (off + 10) 2) = bs.get (off + 10) 2 := sumLE_word (by omega)
  have hw16 : bs.get (off + 10) 2 < 2 ^ 16 := get_lt _ _ _
  rw [hsplit bs, hsum _ (length_slice (by omega)), hword] at hc
  have hlt := sumLE_lt (bs.slice off 10)
  have hlt' := sumLE_lt (bs.slice (off + 12) 8)
  rw [length_slice (by omega)] at hlt hlt'
  have hmod := add_checksum_mod
    (n := sumLE (bs.slice off 10) + (bs.get (off + 10) 2 + sumLE (bs.slice (off + 12) 8))) (by omega)
  have hc16 : c < 2 ^ 16 := hc ▸ checksum_lt _
  rw [hc] at hmod
  rw [hsplit, hne (.inl (by omega)), hself, hne (.inr (by omega)), verifies_iff, hsum _ (length_toLE _ _),
    sumLE_toLE hc16]
  omega

end Bytes

end Framework
