import Mathlib.Algebra.BigOperators.Fin
import EbpfUpf.Impl.Blast
import EbpfUpf.Proof.Egress

/-!
# The header checksum

`ip_checksum20` over any ten halfwords. Two folds leave no carry, so that the
packet generators' `ip_csum`, which folds until there is none, comes to the same
(`ip_csum_eq`). On a machine of the other byte order the same header is read as
the byte-swapped halfwords, and the checksum of these is the byte-swapped one.
-/

open Framework

namespace UPF

/-! ## The loops of the generators -/

theorem csum_fold_eq (n : Nat) : csum_fold n = fold n := by
  induction n using Nat.strong_induction_on with
  | _ n ih =>
    rw [csum_fold, fold]
    by_cases h : n < 2 ^ 16
    · rw [if_neg (by omega), if_pos h]
    · rw [if_pos (by omega), if_neg h]
      exact ih _ (by omega)

/-- The first loop, by induction on how many halfwords are left. -/
theorem csum_add_eq (data : Bytes) (n : Nat) : ∀ p sum, p + 2 * n ≤ data.length →
    sum + sumLE ((data.drop p).take (2 * n)) < 2 ^ 32 →
    csum_add data (2 * n) p sum = sum + sumLE ((data.drop p).take (2 * n)) := by
  induction n with
  | zero =>
    intro p sum _ _
    show sum = sum + sumLE ((data.drop p).take 0)
    simp [sumLE]
  | succ n ih =>
    intro p sum hl hlt
    have hw : sumLE ((data.drop p).take (2 * (n + 1))) =
        data.get p 2 + sumLE ((data.drop (p + 2)).take (2 * n)) := by
      have h2 : ((data.drop p).take 2).length % 2 = 0 := by
        rw [List.length_take, List.length_drop]
        omega
      rw [show 2 * (n + 1) = 2 + 2 * n by omega, List.take_add, sumLE_append h2, sumLE_word (by omega), List.drop_drop]
    rw [hw] at hlt ⊢
    show csum_add data (2 * n) (p + 2) ((sum + data.get p 2) % 2 ^ 32) = _
    rw [Nat.mod_eq_of_lt (by omega), ih _ _ (by omega) (by omega)]
    omega

/-- The generators' checksum of a header is that of the egress programme. -/
theorem ip_csum_eq {data : Bytes} (h : data.length = 20) : ip_csum data 20 = checksum (sumLE data) := by
  have hle := sumLE_lt data
  have hd : (data.drop 0).take (2 * 10) = data := List.take_of_length_le (by rw [List.drop_zero]; omega)
  have ha := csum_add_eq data 10 0 0 (by omega) (by rw [hd]; omega)
  rw [hd, Nat.zero_add] at ha
  have hf := fold_lt (sumLE data)
  rw [ip_csum, show csum_add data 20 0 0 = _ from ha, csum_fold_eq, checksum_eq_fold (by omega)]
  omega

/-! ## Halfwords -/

/-- The bytes of ten halfwords on a little-endian machine. -/
def halfwords (ws : Fin 10 → BitVec 16) : Bytes := (List.ofFn ws).flatMap fun w => toLE 2 w.toNat

/-- A halfword as a machine of the other byte order reads it. -/
def swapped (w : BitVec 16) : BitVec 16 := .ofNat 16 (bswap 2 w.toNat)

theorem swapped_toNat (w : BitVec 16) : (swapped w).toNat = bswap 2 w.toNat :=
  (BitVec.toNat_ofNat _ _).trans (Nat.mod_eq_of_lt (bswap_lt 2 _))

theorem length_halfwords (ws : Fin 10 → BitVec 16) : (halfwords ws).length = 20 := by
  simp [halfwords]

theorem sumLE_flatMap (l : List (BitVec 16)) :
    sumLE (l.flatMap fun w => toLE 2 w.toNat) = (l.map BitVec.toNat).sum := by
  induction l with
  | nil => rfl
  | cons w l ih =>
    rw [List.flatMap_cons, sumLE_append (by rw [length_toLE]), sumLE_toLE w.isLt, ih, List.map_cons, List.sum_cons]

theorem sumBE_flatMap (l : List (BitVec 16)) :
    sumBE (l.flatMap fun w => toLE 2 w.toNat) = (l.map fun w => (swapped w).toNat).sum := by
  induction l with
  | nil => rfl
  | cons w l ih =>
    have hw : sumBE (toLE 2 w.toNat ++ l.flatMap fun w => toLE 2 w.toNat) =
        bswap 2 w.toNat + sumBE (l.flatMap fun w => toLE 2 w.toNat) := by
      simp only [toLE, List.cons_append, List.nil_append, sumBE, bswap_two, BitVec.toNat_ofNat]
      omega
    rw [List.flatMap_cons, hw, ih, List.map_cons, List.sum_cons, swapped_toNat]

theorem sumLE_halfwords (ws : Fin 10 → BitVec 16) : sumLE (halfwords ws) = ∑ i, (ws i).toNat := by
  rw [halfwords, sumLE_flatMap, List.map_ofFn, List.sum_ofFn]
  rfl

theorem sumLE_swapped (ws : Fin 10 → BitVec 16) : sumLE (halfwords fun i => swapped (ws i)) = sumBE (halfwords ws) := by
  rw [sumLE_halfwords, halfwords, sumBE_flatMap, List.map_ofFn, List.sum_ofFn]
  rfl

/-- The sixth halfword is at the offset of the checksum. -/
theorem halfwords_update (ws : Fin 10 → BitVec 16) : ∃ front back : Bytes, front.length = iphdr.check ∧
    ∀ c, halfwords (Function.update ws 5 c) = front ++ toLE 2 c.toNat ++ back := by
  refine ⟨[ws 0, ws 1, ws 2, ws 3, ws 4].flatMap fun w => toLE 2 w.toNat,
    [ws 6, ws 7, ws 8, ws 9].flatMap fun w => toLE 2 w.toNat, rfl, fun c => ?_⟩
  rfl

theorem sum_update (ws : Fin 10 → BitVec 16) (c : BitVec 16) :
    ∑ i, (Function.update ws 5 c i).toNat = ∑ i, (Function.update ws 5 0 i).toNat + c.toNat := by
  obtain ⟨front, back, hf, hu⟩ := halfwords_update ws
  have h10 : front.length % 2 = 0 := by
    rw [hf]
    rfl
  have h2 : ∀ v, (toLE 2 v).length % 2 = 0 := fun v => by rw [length_toLE]
  rw [← sumLE_halfwords, ← sumLE_halfwords, hu, hu, List.append_assoc, List.append_assoc, sumLE_append h10,
    sumLE_append h10, sumLE_append (h2 _), sumLE_append (h2 _), sumLE_toLE c.isLt, sumLE_toLE (by simp)]
  simp only [BitVec.toNat_zero, BitVec.ofNat_eq_ofNat]
  omega

/-- A header of these halfwords between `pre` and `post`. -/
def Machine.withHeader (s : Machine) (pre : Bytes) (ws : Fin 10 → BitVec 16) (post : Bytes) : Machine :=
  { s with frame := pre ++ halfwords ws ++ post }

theorem checksum20_run (H : Helpers) (s : Machine) (pre post : Bytes) (ws : Fin 10 → BitVec 16) :
    (ip_checksum20 pre.length).run (kernel H) (s.withHeader pre ws post) =
      some (checksum (sumLE (halfwords ws)), s.withHeader pre ws post) := by
  have h := checksum_run (H := H) (s := s.withHeader pre ws post) rfl (length_halfwords ws) Prog.ret
  rwa [Prog.bind_ret] at h

/-- The `__u32` holds the sum of the ten halfwords of a header, and two folds are
enough for it. They give what the generators' loop gives, the header with the
checksum stored sums to all ones, and a machine of the other byte order
computes the same two bytes. -/
theorem ip_checksum20_correct (H : Helpers) (s : Machine) (pre post : Bytes) (ws : Fin 10 → BitVec 16) :
    ∃ check : BitVec 16,
      let zeroed := Function.update ws 5 0
      let stored := Function.update ws 5 check
      (ip_checksum20 pre.length).run (kernel H) (s.withHeader pre zeroed post) =
        some (check.toNat, s.withHeader pre zeroed post) ∧
      ∑ i, (zeroed i).toNat < 2 ^ 32 ∧ foldOnce (foldOnce (∑ i, (zeroed i).toNat)) < 2 ^ 16 ∧
      check.toNat = ip_csum (halfwords zeroed) 20 ∧
      kernel H (.store (pre.length + iphdr.check) (toLE 2 check.toNat)) (s.withHeader pre zeroed post) =
        some ((), s.withHeader pre stored post) ∧
      fold (∑ i, (stored i).toNat) = 0xffff ∧ Verifies (halfwords stored) ∧
      (ip_checksum20 pre.length).run (kernel H) (s.withHeader pre (fun i => swapped (zeroed i)) post) =
        some ((swapped check).toNat, s.withHeader pre (fun i => swapped (zeroed i)) post) := by
  have hlen := length_halfwords (Function.update ws 5 0)
  have hlt := sumLE_lt (halfwords (Function.update ws 5 0))
  have hsum := sumLE_halfwords (Function.update ws 5 0)
  have hcl := checksum_lt (sumLE (halfwords (Function.update ws 5 0)))
  let check : BitVec 16 := .ofNat 16 (checksum (sumLE (halfwords (Function.update ws 5 0))))
  have hc : check.toNat = checksum (sumLE (halfwords (Function.update ws 5 0))) :=
    (BitVec.toNat_ofNat _ _).trans (Nat.mod_eq_of_lt hcl)
  have hones : fold (∑ i, (Function.update ws 5 check i).toNat) = 0xffff := by
    rw [sum_update, ← hsum, hc]
    exact fold_add_checksum (by omega)
  refine ⟨check, ?_, by omega, ?_, ?_, ?_, hones, ?_, ?_⟩
  · rw [hc]
    exact checksum20_run H s pre post _
  · rw [← hsum]
    exact foldOnce_foldOnce_lt (by omega)
  · rw [hc, ip_csum_eq hlen]
  · obtain ⟨front, back, hf, hu⟩ := halfwords_update ws
    simp only [Machine.withHeader, hu]
    rw [← List.append_assoc, ← List.append_assoc, ← List.append_assoc, ← List.append_assoc, List.append_assoc _ back,
      List.append_assoc _ back]
    refine kernel_store rfl ?_ (by rw [length_toLE, length_toLE])
    rw [List.length_append, hf]
  · rw [verifies_iff, sumLE_halfwords]
    exact fold_eq_ones.mp hones
  · rw [swapped_toNat, hc, ← checksum_sumBE (by omega), ← sumLE_swapped]
    exact checksum20_run H s pre post _

end UPF
