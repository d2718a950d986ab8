import EbpfUpf.Framework.Prog

/-!
# Operations that are refused

`faulty refuse h` answers as `h` does, but for the operations that a list of
faults picks out: each entry stands for one operation, and `some e` has it
refused, with the answer `refuse e` and the state left as it was. When the list
is used up, nothing more is refused.

`Ensures` is what holds at the end of a run, whatever is refused: an operation
is followed into both outcomes. `Blind` is for two runs: a program is blind to
the difference between the states that `R` relates if it goes on in the same way
from both and leaves them related. Then it has the same result from both, under
the same faults (`Blind.run`).
-/

namespace Framework

variable {I : Interface} {α β ε σ : Type}

/-- What a run starts from: a state, and the faults to come. -/
abbrev Faulty (ε σ : Type) := σ × List (Option ε)

def faulty (refuse : ε → (o : I.Op) → I.Ans o) (h : Handler I σ) : Handler I (Faulty ε σ) := fun o x =>
  (x.2.head?.join.elim (h o x.1) fun e => some (refuse e o, x.1)).map fun y => (y.1, y.2, x.2.tail)

namespace Prog

variable {refuse : ε → (o : I.Op) → I.Ans o} {h : Handler I σ}

theorem faulty_refused {o : I.Op} {s : σ} {faults : List (Option ε)} {e : ε} (hf : faults.head?.join = some e) :
    faulty refuse h o (s, faults) = some (refuse e o, s, faults.tail) := by
  rw [faulty, hf]
  rfl

theorem faulty_performed {o : I.Op} {s : σ} {faults : List (Option ε)} (hf : faults.head?.join = none) :
    faulty refuse h o (s, faults) = (h o s).map fun x => (x.1, x.2, faults.tail) := by
  rw [faulty, hf]
  rfl

/-! ## One run -/

variable (refuse h) in
/-- Whatever is refused, a run that comes to its end does so with a result and
in a state that meet `Post`. -/
def Ensures (p : Prog I α) (s : σ) (Post : α → σ → Prop) : Prop :=
  ∀ faults x, run (faulty refuse h) p (s, faults) = some x → Post x.1 x.2.1

namespace Ensures

variable {s : σ} {Post : α → σ → Prop}

theorem ret {a : α} (hp : Post a s) : Ensures refuse h (ret a) s Post := by
  intro faults x hx
  obtain rfl := Option.some.inj hx
  exact hp

theorem ask {o : I.Op} {k : I.Ans o → Prog I α} (hr : ∀ e, Ensures refuse h (k (refuse e o)) s Post)
    (hk : ∀ r s', h o s = some (r, s') → Ensures refuse h (k r) s' Post) :
    Ensures refuse h (ask o k) s Post := by
  intro faults x hx
  rw [run] at hx
  cases hf : faults.head?.join with
  | some e =>
    rw [faulty_refused hf] at hx
    exact hr e _ _ hx
  | none =>
    rw [faulty_performed hf] at hx
    cases ho : h o s with
    | none =>
      rw [ho] at hx
      cases hx
    | some y =>
      rw [ho] at hx
      exact hk y.1 y.2 ho _ _ hx

end Ensures

/-! ## Two runs -/

variable (refuse h) in
/-- The program goes on in the same way from related states. -/
def Blind (R : σ → σ → Prop) : Prog I α → Prop
  | ret _ => True
  | ask o k => (∀ e, Blind R (k (refuse e o))) ∧ ∀ s t, R s t → ∃ x y, h o s = some x ∧ h o t = some y ∧
      k x.1 = k y.1 ∧ R x.2 y.2 ∧ Blind R (k x.1)

namespace Blind

variable {R : σ → σ → Prop} {s t : σ}

/-- Operations that are answered alike keep a program blind. -/
theorem of_asks {Q : I.Op → Prop}
    (hq : ∀ o s t, Q o → R s t → ∃ r s' t', h o s = some (r, s') ∧ h o t = some (r, t') ∧ R s' t')
    {p : Prog I α} (hp : p.Asks Q) : Blind refuse h R p := by
  induction p with
  | ret a => trivial
  | ask o k ih =>
    refine ⟨fun e => ih _ (hp.2 _), fun s t hR => ?_⟩
    obtain ⟨r, s', t', hs, ht, hR'⟩ := hq o s t hp.1 hR
    exact ⟨(r, s'), (r, t'), hs, ht, rfl, hR', ih r (hp.2 r)⟩

theorem bind {p : Prog I α} {f : α → Prog I β} (hp : Blind refuse h R p) (hf : ∀ a, Blind refuse h R (f a)) :
    Blind refuse h R (p >>= f) := by
  induction p with
  | ret a => exact hf a
  | ask o k ih =>
    refine ⟨fun e => ih _ (hp.1 e), fun s t hR => ?_⟩
    obtain ⟨x, y, hx, hy, hk, hR', hb⟩ := hp.2 s t hR
    exact ⟨x, y, hx, hy, congrArg (· >>= f) hk, hR', ih _ hb⟩

theorem run {p : Prog I α} (hp : Blind refuse h R p) (hR : R s t) (faults : List (Option ε)) :
    ∃ a s' t' rest, Prog.run (faulty refuse h) p (s, faults) = some (a, s', rest) ∧
      Prog.run (faulty refuse h) p (t, faults) = some (a, t', rest) ∧ R s' t' := by
  induction p generalizing s t faults with
  | ret a => exact ⟨a, s, t, faults, rfl, rfl, hR⟩
  | ask o k ih =>
    cases hf : faults.head?.join with
    | some e =>
      obtain ⟨a, s', t', rest, hs, ht, he⟩ := ih _ (hp.1 e) hR faults.tail
      refine ⟨a, s', t', rest, ?_, ?_, he⟩
      · rw [run_ask _ (faulty_refused hf), hs]
      · rw [run_ask _ (faulty_refused hf), ht]
    | none =>
      obtain ⟨x, y, hx, hy, hk, hR', hb⟩ := hp.2 s t hR
      obtain ⟨a, s', t', rest, hs, ht, he⟩ := ih _ hb hR' faults.tail
      have hx' : faulty refuse h o (s, faults) = some (x.1, x.2, faults.tail) := by
        rw [faulty_performed hf, hx, Option.map_some]
      have hy' : faulty refuse h o (t, faults) = some (y.1, y.2, faults.tail) := by
        rw [faulty_performed hf, hy, Option.map_some]
      refine ⟨a, s', t', rest, ?_, ?_, he⟩
      · rw [run_ask _ hx', hs]
      · rw [run_ask _ hy', ← hk, ht]

end Blind

end Prog

end Framework
