import EbpfUpf.Framework.Prog
import Mathlib.Data.Finset.Card
import Mathlib.Data.Finset.Union
import Mathlib.Logic.Function.Basic
import Mathlib.Tactic.SplitIfs

/-!
# Loops that may stop

`Ends h p s r s'` says of a program that may raise how its run from `s` ends.
A loop over a range keeps an invariant of the state and the number of turns, or
stops at the first turn that raises (`ends_range`); `ends_foldl` is the rule for
a loop with an accumulator. `asks_forM` and `asks_foldlM` are the rules for what
the turns of a loop ask.

`overlay base n f old` is a function with `n` values from `base` on changed.
`grown s key n` is a finite set with the first `n` keys of a sequence added. If
a set of limited size takes a key that it has, or any key while there is room,
then it takes a key if what it has then is not too much (`takes_iff`).
-/

namespace Framework

section Ends

variable {I : Interface} {σ ε α β : Type} {h : Handler I σ}

/-- The run of `p` from `s` ends with `r`, in `s'`. -/
def Ends (h : Handler I σ) (p : ExceptT ε (Prog I) α) (s : σ) (r : Except ε α) (s' : σ) : Prop :=
  Prog.run h p.run s = some (r, s')

variable {p : ExceptT ε (Prog I) α} {f : α → ExceptT ε (Prog I) β} {s s₁ s' : σ}

theorem ends_pure (h : Handler I σ) (a : α) (s : σ) : Ends h (pure a : ExceptT ε (Prog I) α) s (.ok a) s := rfl

theorem ends_throw (h : Handler I σ) (e : ε) (s : σ) : Ends h (throw e : ExceptT ε (Prog I) α) s (.error e) s := rfl

theorem ends_lift {q : Prog I α} {a : α} (hq : q.run h s = some (a, s')) :
    Ends h (q : ExceptT ε (Prog I) α) s (.ok a) s' := by
  show Prog.run h (q >>= fun a => Prog.ret (Except.ok a)) s = _
  rw [Prog.run_bind, hq]
  rfl

theorem Ends.bind {a : α} {r : Except ε β} (h₁ : Ends h p s (.ok a) s₁) (h₂ : Ends h (f a) s₁ r s') :
    Ends h (p >>= f) s r s' := by
  rw [Ends, ExceptT.run_bind, Prog.run_bind, show Prog.run h p.run s = _ from h₁]
  exact h₂

theorem Ends.stop {e : ε} (f : α → ExceptT ε (Prog I) β) (h₁ : Ends h p s (.error e) s') :
    Ends h (p >>= f) s (.error e) s' := by
  rw [Ends, ExceptT.run_bind, Prog.run_bind, show Prog.run h p.run s = _ from h₁]
  rfl

variable {f : Nat → ExceptT ε (Prog I) Unit} {J : Nat → σ → Prop} {n : Nat}

theorem forM_range_succ (f : Nat → ExceptT ε (Prog I) Unit) (n : Nat) :
    (List.range (n + 1)).forM f = (List.range n).forM f >>= fun _ => f n := by
  rw [List.range_succ]
  show forM (List.range n ++ [n]) f = _
  rw [List.forM_append, List.forM_cons]
  show (do forM (List.range n) f; f n; pure ()) = _
  simp

/-- By induction on the number of turns. -/
theorem ends_range {Stop : Nat → ε → σ → Prop}
    (hstep : ∀ i < n, ∀ s, J i s → (∃ s', Ends h (f i) s (.ok ()) s' ∧ J (i + 1) s') ∨
      ∃ e s', Ends h (f i) s (.error e) s' ∧ Stop i e s') (hs : J 0 s) :
    (∃ s', Ends h ((List.range n).forM f) s (.ok ()) s' ∧ J n s') ∨
      ∃ k < n, ∃ e s', Ends h ((List.range n).forM f) s (.error e) s' ∧ Stop k e s' := by
  induction n with
  | zero => exact .inl ⟨s, rfl, hs⟩
  | succ n ih =>
    rw [forM_range_succ]
    rcases ih fun i hi => hstep i (Nat.lt_succ_of_lt hi) with ⟨s₁, h₁, hJ⟩ | ⟨k, hk, e, s', he, hst⟩
    · rcases hstep n (Nat.lt_succ_self n) s₁ hJ with ⟨s', h₂, hJ'⟩ | ⟨e, s', h₂, hst⟩
      · exact .inl ⟨s', h₁.bind h₂, hJ'⟩
      · exact .inr ⟨n, Nat.lt_succ_self n, e, s', h₁.bind h₂, hst⟩
    · exact .inr ⟨k, Nat.lt_succ_of_lt hk, e, s', he.stop _, hst⟩

/-- A loop whose turns do not raise. -/
theorem ends_range_ok (hstep : ∀ i < n, ∀ s, J i s → ∃ s', Ends h (f i) s (.ok ()) s' ∧ J (i + 1) s')
    (hs : J 0 s) : ∃ s', Ends h ((List.range n).forM f) s (.ok ()) s' ∧ J n s' := by
  have hr : _ ∨ ∃ k < n, ∃ e s', Ends h ((List.range n).forM f) s (.error e) s' ∧ False :=
    ends_range (fun i hi s hJ => .inl (hstep i hi s hJ)) hs
  refine hr.resolve_right ?_
  rintro ⟨k, -, e, s', -, hf⟩
  exact hf

/-- A loop with an accumulator. -/
theorem ends_foldl {g : α → Nat → ExceptT ε (Prog I) α} {J : Nat → α → σ → Prop} {a : α}
    (hstep : ∀ i < n, ∀ a s, J i a s → ∃ a' s', Ends h (g a i) s (.ok a') s' ∧ J (i + 1) a' s') (hs : J 0 a s) :
    ∃ a' s', Ends h ((List.range n).foldlM g a) s (.ok a') s' ∧ J n a' s' := by
  induction n with
  | zero => exact ⟨a, s, rfl, hs⟩
  | succ n ih =>
    obtain ⟨a₁, s₁, h₁, hJ⟩ := ih fun i hi => hstep i (Nat.lt_succ_of_lt hi)
    obtain ⟨a', s', h₂, hJ'⟩ := hstep n (Nat.lt_succ_self n) a₁ s₁ hJ
    refine ⟨a', s', ?_, hJ'⟩
    rw [List.range_succ, List.foldlM_append]
    refine h₁.bind ?_
    rw [List.foldlM_cons]
    exact h₂.bind (ends_pure h a' s')

end Ends

section Asks

variable {I : Interface} {ε α β : Type} {Q : I.Op → Prop}

theorem asks_bind {p : ExceptT ε (Prog I) α} {f : α → ExceptT ε (Prog I) β} (hp : p.run.Asks Q)
    (hf : ∀ a, (f a).run.Asks Q) : (p >>= f).run.Asks Q := by
  rw [ExceptT.run_bind]
  refine hp.bind fun r => ?_
  cases r with
  | error e => exact trivial
  | ok a => exact hf a

/-- A program that does not raise. -/
theorem asks_plain {p : Prog I α} (h : p.Asks Q) : (liftM p : ExceptT ε (Prog I) α).run.Asks Q :=
  h.bind fun _ => trivial

theorem asks_forM {f : β → ExceptT ε (Prog I) Unit} {is : List β} (hf : ∀ i ∈ is, (f i).run.Asks Q) :
    (is.forM f).run.Asks Q := by
  induction is with
  | nil => exact trivial
  | cons i is ih =>
    exact asks_bind (hf i List.mem_cons_self) fun _ => ih fun j hj => hf j (List.mem_cons_of_mem _ hj)

theorem asks_foldlM {f : α → β → ExceptT ε (Prog I) α} {is : List β} (hf : ∀ a, ∀ i ∈ is, (f a i).run.Asks Q)
    (a : α) : (is.foldlM f a).run.Asks Q := by
  induction is generalizing a with
  | nil => exact trivial
  | cons i is ih =>
    exact asks_bind (hf a i List.mem_cons_self) (ih fun a j hj => hf a j (List.mem_cons_of_mem _ hj))

end Asks

section Overlay

variable {α : Type} {base n : Nat} {f old : Nat → α}

/-- `old`, with the first `n` values of `f` laid over it from `base` on. -/
def overlay (base n : Nat) (f old : Nat → α) : Nat → α :=
  fun k => if base ≤ k ∧ k < base + n then f (k - base) else old k

@[simp] theorem overlay_zero : overlay base 0 f old = old :=
  funext fun k => if_neg (by omega)

theorem update_overlay : Function.update (overlay base n f old) (base + n) (f n) = overlay base (n + 1) f old := by
  funext k
  by_cases hk : k = base + n
  · subst hk
    rw [Function.update_self, overlay, if_pos (by omega), Nat.add_sub_cancel_left]
  · rw [Function.update_of_ne hk, overlay, overlay]
    exact if_congr (by omega) rfl rfl

/-- A second layer hides the first. -/
theorem overlay_overlay {g : Nat → α} : overlay base n g (overlay base n f old) = overlay base n g old := by
  funext k
  unfold overlay
  split_ifs <;> rfl

end Overlay

section Grown

variable {κ : Type} [DecidableEq κ] {s : Finset κ} {key : Nat → κ} {cap n : Nat}

/-- The set with the first `n` keys added. -/
def grown (s : Finset κ) (key : Nat → κ) (n : Nat) : Finset κ := s ∪ (Finset.range n).image key

theorem mem_grown {k : κ} : k ∈ grown s key n ↔ k ∈ s ∨ ∃ i < n, key i = k := by
  simp [grown]

@[simp] theorem grown_zero : grown s key 0 = s := by simp [grown]

theorem grown_succ : grown s key (n + 1) = insert (key n) (grown s key n) := by
  rw [grown, Finset.range_add_one, Finset.image_insert, Finset.union_insert]
  rfl

/-- New keys, each a different one. -/
theorem card_grown (hnew : ∀ i < n, key i ∉ s) (hinj : ∀ i < n, ∀ j < n, key i = key j → i = j) :
    (grown s key n).card = s.card + n := by
  induction n with
  | zero => simp
  | succ n ih =>
    rw [grown_succ, Finset.card_insert_of_notMem, ih (fun i hi => hnew i (by omega))
      fun i hi j hj => hinj i (by omega) j (by omega)]
    · rfl
    · rw [mem_grown]
      rintro (hk | ⟨i, hi, he⟩)
      · exact hnew n (by omega) hk
      · exact absurd (hinj i (by omega) n (by omega) he) (by omega)

theorem le_card_grown (hinj : Function.Injective key) : n ≤ (grown s key n).card := by
  calc n = ((Finset.range n).image key).card := by rw [Finset.card_image_of_injective _ hinj, Finset.card_range]
    _ ≤ (grown s key n).card := Finset.card_le_card Finset.subset_union_right

/-- A key that is there, or room for one more. -/
theorem takes_iff {k : κ} (h : s.card ≤ cap) : (k ∈ s ∨ s.card < cap) ↔ (insert k s).card ≤ cap := by
  by_cases hk : k ∈ s
  · rw [Finset.insert_eq_of_mem hk]
    exact iff_of_true (.inl hk) h
  · rw [Finset.card_insert_of_notMem hk, or_iff_right hk]
    omega

end Grown

end Framework
