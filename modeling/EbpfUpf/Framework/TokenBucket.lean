import Mathlib.Algebra.BigOperators.Group.Finset.Basic
import Mathlib.Algebra.BigOperators.Ring.Finset
import Mathlib.Algebra.Order.BigOperators.Group.Finset
import Mathlib.Data.Fintype.BigOperators
import Mathlib.Tactic.Ring
import EbpfUpf.Framework.System

/-!
# Token buckets

A bucket holds tokens, at most `B`, and gains at most `R` of them in `D`
ticks of a clock. `Bucket.Draw` says this of one use and nothing else: an
implementation may round its refill down, cap it or lose it. A bucket that
was never used has `last = 0`, and its first use may find it full.

`Draws` is a run of uses of a family of buckets, each bucket's clock never
going backwards. In any window of `T` ticks a run spends at most `B + R T / D`
tokens of each bucket (`Draws.spent_le`): once a bucket is used in the window,
what it holds and what was spent in the window are bounded together
(`Draws.potential`).

`gained` is what is credited if each interval is rounded down on its own. It
falls short of the whole time's credit by less than a token for each cut
(`div_le_gained`).
-/

namespace Framework

structure Bucket where
  tokens : Nat
  last : Nat
  deriving DecidableEq

/-- A use of `s` at `now` that spends `n` tokens and leaves `s'`. -/
structure Bucket.Draw (B R D : Nat) (s : Bucket) (now n : Nat) (s' : Bucket) : Prop where
  cap : s'.tokens + n ≤ B
  credit : s.last ≠ 0 → D * (s'.tokens + n) ≤ D * s.tokens + R * (now - s.last)
  last : s'.last = now

/-- Bucket `who` is used at `now`, and `amount` tokens are spent. -/
structure Use (ι : Type) where
  who : ι
  now : Nat
  amount : Nat

variable {ι : Type}

/-- The tokens spent in the window of `T` ticks from `w`. -/
def spent (w T : Nat) (us : List (Use ι)) : Nat :=
  ((us.filter fun u => w ≤ u.now ∧ u.now ≤ w + T).map Use.amount).sum

theorem spent_cons (w T : Nat) (u : Use ι) (us : List (Use ι)) :
    spent w T (u :: us) = (if w ≤ u.now ∧ u.now ≤ w + T then u.amount else 0) + spent w T us := by
  simp only [spent, List.filter_cons]
  split <;> simp_all

variable [DecidableEq ι]

/-- The uses of a family of buckets, in turn, each at a time that is positive
and not before the bucket's last. -/
inductive Draws (B R D : Nat) : (ι → Bucket) → List (Use ι) → Prop
  | nil (s : ι → Bucket) : Draws B R D s []
  | cons {s : ι → Bucket} {u : Use ι} {t : Bucket} {us : List (Use ι)} :
    (s u.who).Draw B R D u.now u.amount t → (s u.who).last ≤ u.now → 0 < u.now →
    Draws B R D (Function.update s u.who t) us → Draws B R D s (u :: us)

/-- The tokens of bucket `i` spent in the window. -/
def spentBy (w T : Nat) (i : ι) (us : List (Use ι)) : Nat :=
  ((us.filter fun u => u.who = i ∧ w ≤ u.now ∧ u.now ≤ w + T).map Use.amount).sum

theorem spentBy_cons (w T : Nat) (i : ι) (u : Use ι) (us : List (Use ι)) :
    spentBy w T i (u :: us) =
      (if u.who = i ∧ w ≤ u.now ∧ u.now ≤ w + T then u.amount else 0) + spentBy w T i us := by
  simp only [spentBy, List.filter_cons]
  split <;> simp_all

theorem spent_eq_sum [Fintype ι] (w T : Nat) (us : List (Use ι)) :
    spent w T us = ∑ i, spentBy w T i us := by
  induction us with
  | nil => simp [spent, spentBy]
  | cons u us ih =>
    simp only [spentBy_cons, spent_cons, Finset.sum_add_distrib, ih]
    congr 1
    by_cases h : w ≤ u.now ∧ u.now ≤ w + T <;> simp [h]

namespace Draws

variable {B R D w T : Nat}

/-- What a bucket used in the window holds and the `A` tokens of it spent
there so far, together. -/
def potential (B R D w : Nat) (s : Bucket) (A : Nat) : Prop :=
  A = 0 ∨ (0 < s.last ∧ w ≤ s.last ∧ D * (A + s.tokens) ≤ D * B + R * (s.last - w))

/-- A use in the window keeps the bound. -/
theorem potential_use {s t : Bucket} {now n A : Nat} (hd : s.Draw B R D now n t) (hl : s.last ≤ now)
    (h0 : 0 < now) (hw : w ≤ now) (hp : potential B R D w s A) :
    0 < t.last ∧ w ≤ t.last ∧ D * (A + n + t.tokens) ≤ D * B + R * (t.last - w) := by
  rw [hd.last]
  refine ⟨h0, hw, ?_⟩
  have hcap : D * (t.tokens + n) ≤ D * B := Nat.mul_le_mul_left D hd.cap
  rcases hp with rfl | ⟨hl0, hlw, hp⟩
  · calc D * (0 + n + t.tokens) = D * (t.tokens + n) := by ring
      _ ≤ D * B + R * (now - w) := Nat.le_add_right_of_le hcap
  · have hc := hd.credit (by omega)
    have ht : now - w = (s.last - w) + (now - s.last) := by omega
    rw [ht, Nat.mul_add R]
    calc D * (A + n + t.tokens) = D * A + D * (t.tokens + n) := by ring
      _ ≤ D * A + (D * s.tokens + R * (now - s.last)) := Nat.add_le_add_left hc _
      _ = D * (A + s.tokens) + R * (now - s.last) := by ring
      _ ≤ D * B + (R * (s.last - w) + R * (now - s.last)) := by omega

/-- A use outside the window keeps it as well. -/
theorem potential_skip {s t : Bucket} {now n A : Nat} (hd : s.Draw B R D now n t) (hl : s.last ≤ now)
    (h0 : 0 < now) (hp : potential B R D w s A) : potential B R D w t A := by
  rcases hp with rfl | hp
  · exact .inl rfl
  · obtain ⟨h1, h2, h3⟩ := potential_use hd hl h0 (hp.2.1.trans hl) (.inr hp)
    refine .inr ⟨h1, h2, le_trans (Nat.mul_le_mul_left D ?_) h3⟩
    omega

/-- One bucket: with `A` tokens spent in the window before, at most
`B + R T / D` are when the run is over. -/
theorem spentBy_le {s : ι → Bucket} {us : List (Use ι)} (hd : Draws B R D s us) (i : ι) {A : Nat}
    (hp : potential B R D w (s i) A) (hA : D * A ≤ D * B + R * T) :
    D * (A + spentBy w T i us) ≤ D * B + R * T := by
  induction hd generalizing A with
  | nil s => simpa [spentBy] using hA
  | @cons s u t us hd hl h0 _ ih =>
    rw [spentBy_cons]
    by_cases hi : u.who = i
    · subst hi
      rw [Function.update_self] at ih
      by_cases hw : w ≤ u.now ∧ u.now ≤ w + T
      · obtain ⟨h1, h2, h3⟩ := potential_use hd hl h0 hw.1 hp
        rw [if_pos ⟨rfl, hw⟩, ← Nat.add_assoc]
        refine ih (.inr ⟨h1, h2, h3⟩) ?_
        calc D * (A + u.amount) ≤ D * (A + u.amount + t.tokens) :=
              Nat.mul_le_mul_left D (Nat.le_add_right _ _)
          _ ≤ D * B + R * (t.last - w) := h3
          _ ≤ D * B + R * T := Nat.add_le_add_left (Nat.mul_le_mul_left R (by rw [hd.last]; omega)) _
      · rw [if_neg (fun h => hw h.2), Nat.zero_add]
        exact ih (potential_skip hd hl h0 hp) hA
    · rw [if_neg (fun h => hi h.1), Nat.zero_add]
      rw [Function.update_of_ne (Ne.symm hi)] at ih
      exact ih hp hA

/-- In a window of `T` ticks, at most `B + R T / D` tokens of each bucket are
spent. -/
theorem spent_le [Fintype ι] {s : ι → Bucket} {us : List (Use ι)} (hd : Draws B R D s us) (w T : Nat) :
    D * spent w T us ≤ Fintype.card ι * (D * B + R * T) := by
  rw [spent_eq_sum, Finset.mul_sum]
  calc ∑ i, D * spentBy w T i us ≤ ∑ _i : ι, (D * B + R * T) := by
        refine Finset.sum_le_sum fun i _ => ?_
        have := hd.spentBy_le (w := w) (T := T) i (.inl rfl) (by simp)
        rwa [Nat.zero_add] at this
    _ = Fintype.card ι * (D * B + R * T) := by simp

/-- Programs that each make one draw, run one after another: the states'
buckets are `bk`, and party `i` uses `who i` at `now i`. -/
theorem of_serial {I : Interface} {J α σ : Type} {h : J → Handler I σ} {C : J → σ → Prop}
    {p : J → Prog I α} (bk : σ → ι → Bucket) (who : J → ι) (now : J → Nat) (amount : J → α → Nat)
    {L : σ → Prop}
    (hstep : ∀ {i s a s'}, C i s → L s → (p i).run (h i) s = some (a, s') → L s' ∧ ∃ t,
      (bk s (who i)).Draw B R D (now i) (amount i a) t ∧ (bk s (who i)).last ≤ now i ∧ 0 < now i ∧
      bk s' = Function.update (bk s) (who i) t)
    {s s' : σ} {rs : List (J × α)} (hs : Serial h C p s rs s') (hok : L s) :
    Draws B R D (bk s) (rs.map fun r => ⟨who r.1, now r.1, amount r.1 r.2⟩) := by
  induction hs with
  | nil => exact .nil _
  | cons hc hr _ ih =>
    obtain ⟨hok', t, hd, hl, h0, hb⟩ := hstep hc hok hr
    exact .cons hd hl h0 (hb ▸ ih hok')

end Draws

/-! ## Rounding -/

/-- What is gained from `t` on, each interval up to the next of the times `us`
rounded down. -/
def gained (R D : Nat) : Nat → List Nat → Nat
  | _, [] => 0
  | t, u :: us => R * (u - t) / D + gained R D u us

theorem div_le_gained {R D : Nat} (hD : 0 < D) {t u : Nat} {us : List Nat}
    (h : (t :: (us ++ [u])).Pairwise (· ≤ ·)) :
    R * (u - t) / D ≤ gained R D t (us ++ [u]) + us.length := by
  induction us generalizing t with
  | nil => simp [gained]
  | cons v us ih =>
    obtain ⟨ht, hp⟩ := List.pairwise_cons.mp h
    have htv : t ≤ v := ht v List.mem_cons_self
    have hvu : v ≤ u := (List.pairwise_cons.mp hp).1 u (by simp)
    have hs : R * (u - t) = R * (v - t) + R * (u - v) := by
      rw [← Nat.mul_add]
      congr 1
      omega
    have hd : (R * (v - t) + R * (u - v)) / D ≤ R * (v - t) / D + R * (u - v) / D + 1 := by
      rw [Nat.add_div hD]
      split <;> omega
    have hi := ih hp
    rw [hs, List.cons_append, gained, List.length_cons]
    omega

end Framework
