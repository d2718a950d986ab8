import Mathlib.Data.List.Basic

/-!
# Programs over an interface

A `Prog I α` is a program that computes an `α` and on the way asks its
surroundings to perform operations of the interface `I`. Nothing is said
about what an operation does until the program is run: a `Handler` answers
each one from a state. `run` gives the result, or `none` if an operation
faults; `trace` lists the operations performed, a faulting one included, so
that what a program does can be stated apart from what it returns.
`run_bind` and `trace_bind` split a run at a sequencing.

`Leads h Q p s p' s'` says that a run of `p` from `s` comes to the point
where `p'` is left to do in `s'`, and that every operation up to there
satisfies `Q`. A long program is followed to such a point step by step, and
`Leads.run_eq` and `Leads.trace_eq` then give its result and its trace.
`Asks Q p` says that `p` only ever performs operations that satisfy `Q`,
whatever the answers, and `Total h Q p` that it also comes to its end from
every state. `Yields h p s Post` says of one run that it comes to its end, and
what holds then. `upTo` stops a run where it comes to an operation of a kind.
-/

namespace Framework

/-- The operations a program may perform, and the type of each one's answer. -/
structure Interface where
  Op : Type
  Ans : Op → Type

inductive Prog (I : Interface) (α : Type) where
  | ret (a : α)
  | ask (o : I.Op) (k : I.Ans o → Prog I α)

/-- What an operation answers in a state and the state it leaves; `none` is a
fault, an operation that the state does not allow. -/
abbrev Handler (I : Interface) (σ : Type) := (o : I.Op) → σ → Option (I.Ans o × σ)

namespace Prog

variable {I : Interface} {α β γ σ : Type}

protected def bind : Prog I α → (α → Prog I β) → Prog I β
  | ret a, f => f a
  | ask o k, f => ask o fun r => (k r).bind f

instance : Monad (Prog I) where
  pure := ret
  bind := Prog.bind

@[simp] theorem pure_eq (a : α) : (pure a : Prog I α) = ret a := rfl

@[simp] theorem ret_bind (a : α) (f : α → Prog I β) : ret a >>= f = f a := rfl

@[simp] theorem ask_bind (o : I.Op) (k : I.Ans o → Prog I α) (f : α → Prog I β) :
    ask o k >>= f = ask o fun r => k r >>= f := rfl

@[simp] theorem bind_ret (p : Prog I α) : p >>= ret = p := by
  induction p with
  | ret a => rfl
  | ask o k ih => exact congrArg (ask o) (funext ih)

@[simp] theorem bind_bind (p : Prog I α) (f : α → Prog I β) (g : β → Prog I γ) :
    p >>= f >>= g = p >>= fun a => f a >>= g := by
  induction p with
  | ret a => rfl
  | ask o k ih => exact congrArg (ask o) (funext ih)

instance : LawfulMonad (Prog I) := .mk' _ bind_ret (fun _ _ => rfl) bind_bind

theorem ite_bind (c : Prop) [Decidable c] (p q : Prog I α) (f : α → Prog I β) :
    (if c then p else q) >>= f = if c then p >>= f else q >>= f := by
  split <;> rfl

variable (h : Handler I σ)

/-- The result and final state of a run, or `none` if an operation faults. -/
def run : Prog I α → σ → Option (α × σ)
  | ret a, s => some (a, s)
  | ask o k, s => match h o s with
    | none => none
    | some (r, s') => run (k r) s'

/-- The operations a run performs, in order. -/
def trace : Prog I α → σ → List I.Op
  | ret _, _ => []
  | ask o k, s => o :: match h o s with
    | none => []
    | some (r, s') => trace (k r) s'

/-- The operations a run performs, each with the state in which it comes. -/
def steps : Prog I α → σ → List (I.Op × σ)
  | ret _, _ => []
  | ask o k, s => (o, s) :: match h o s with
    | none => []
    | some (r, s') => steps (k r) s'

@[simp] theorem run_ret (a : α) (s : σ) : run h (ret a) s = some (a, s) := rfl

@[simp] theorem trace_ret (a : α) (s : σ) : trace h (ret a) s = [] := rfl

theorem run_ask {o : I.Op} {k : I.Ans o → Prog I α} {s s' : σ} {r : I.Ans o}
    (e : h o s = some (r, s')) : run h (ask o k) s = run h (k r) s' := by
  simp only [run, e]

theorem trace_ask {o : I.Op} {k : I.Ans o → Prog I α} {s s' : σ} {r : I.Ans o}
    (e : h o s = some (r, s')) : trace h (ask o k) s = o :: trace h (k r) s' := by
  simp only [trace, e]

theorem run_bind (p : Prog I α) (f : α → Prog I β) (s : σ) :
    run h (p >>= f) s = (run h p s).bind fun x => run h (f x.1) x.2 := by
  induction p generalizing s with
  | ret a => rfl
  | ask o k ih =>
    rw [ask_bind, run, run]
    cases h o s with
    | none => rfl
    | some x => exact ih x.1 x.2

theorem trace_bind (p : Prog I α) (f : α → Prog I β) (s : σ) :
    trace h (p >>= f) s = trace h p s ++
      ((run h p s).elim [] fun x => trace h (f x.1) x.2) := by
  induction p generalizing s with
  | ret a => rfl
  | ask o k ih =>
    rw [ask_bind, trace, trace, run]
    cases h o s with
    | none => rfl
    | some x => exact congrArg (o :: ·) (ih x.1 x.2)

/-- What is left to do when the program comes to an operation that `stop`
selects, or to its end. -/
def upTo (stop : I.Op → Bool) : Prog I α → σ → Option (Prog I α × σ)
  | ret a, s => some (ret a, s)
  | ask o k, s => if stop o then some (ask o k, s) else match h o s with
    | none => none
    | some (r, s') => upTo stop (k r) s'

theorem upTo_stop {stop : I.Op → Bool} {o : I.Op} {k : I.Ans o → Prog I α} (ho : stop o = true) (s : σ) :
    upTo h stop (ask o k) s = some (ask o k, s) := by
  rw [upTo, if_pos ho]

theorem upTo_ask {stop : I.Op → Bool} {o : I.Op} {k : I.Ans o → Prog I α} {r : I.Ans o} {s s' : σ}
    (ho : stop o = false) (e : h o s = some (r, s')) : upTo h stop (ask o k) s = upTo h stop (k r) s' := by
  rw [upTo, if_neg (by simp [ho])]
  simp only [e]

/-- What each operation keeps, a run keeps. -/
theorem run_rel {R : σ → σ → Prop} (hrefl : ∀ s, R s s)
    (htrans : ∀ {s₁ s₂ s₃}, R s₁ s₂ → R s₂ s₃ → R s₁ s₃)
    (hstep : ∀ {o s r s'}, h o s = some (r, s') → R s s')
    {p : Prog I α} {s s' : σ} {a : α} (hr : run h p s = some (a, s')) : R s s' := by
  induction p generalizing s with
  | ret b =>
    obtain ⟨-, rfl⟩ := Prod.mk.inj (Option.some.inj hr)
    exact hrefl _
  | ask o k ih =>
    rw [run] at hr
    split at hr
    · cases hr
    · next r s₁ e => exact htrans (hstep e) (ih r hr)

/-- A run under a handler that answers less often. -/
theorem run_of_le {h h' : Handler I σ} (hle : ∀ {o s x}, h o s = some x → h' o s = some x) {p : Prog I α} {s : σ}
    {x : α × σ} (hr : run h p s = some x) : run h' p s = some x := by
  induction p generalizing s with
  | ret b => exact hr
  | ask o k ih =>
    rw [run] at hr
    split at hr
    · cases hr
    · next r s₁ e => rw [run_ask h' (hle e), ih r hr]

/-- Every operation the program may perform satisfies `Q`. -/
def Asks (Q : I.Op → Prop) : Prog I α → Prop
  | ret _ => True
  | ask o k => Q o ∧ ∀ r, Asks Q (k r)

@[simp] theorem asks_ret (Q : I.Op → Prop) (a : α) : Asks Q (ret a : Prog I α) := trivial

@[simp] theorem asks_ask (Q : I.Op → Prop) (o : I.Op) (k : I.Ans o → Prog I α) :
    Asks Q (ask o k) ↔ Q o ∧ ∀ r, Asks Q (k r) := Iff.rfl

@[simp] theorem asks_ite (Q : I.Op → Prop) (c : Prop) [Decidable c] (p q : Prog I α) :
    Asks Q (if c then p else q) ↔ (c → Asks Q p) ∧ (¬ c → Asks Q q) := by
  split <;> simp [*]

theorem Asks.bind {Q : I.Op → Prop} {p : Prog I α} {f : α → Prog I β} (hp : Asks Q p)
    (hf : ∀ a, Asks Q (f a)) : Asks Q (p >>= f) := by
  induction p with
  | ret a => exact hf a
  | ask o k ih => exact ⟨hp.1, fun r => ih r (hp.2 r)⟩

theorem Asks.mono {Q Q' : I.Op → Prop} {p : Prog I α} (hp : Asks Q p) (h : ∀ o, Q o → Q' o) : Asks Q' p := by
  induction p with
  | ret a => trivial
  | ask o k ih => exact ⟨h o hp.1, fun r => ih r (hp.2 r)⟩

/-- What each of its operations keeps, a run keeps. -/
theorem Asks.run_rel {Q : I.Op → Prop} {R : σ → σ → Prop} {p : Prog I α} (hp : Asks Q p) (hrefl : ∀ s, R s s)
    (htrans : ∀ {s₁ s₂ s₃}, R s₁ s₂ → R s₂ s₃ → R s₁ s₃)
    (hstep : ∀ {o s r s'}, Q o → h o s = some (r, s') → R s s') {s s' : σ} {a : α}
    (hr : run h p s = some (a, s')) : R s s' := by
  induction p generalizing s with
  | ret b =>
    cases hr
    exact hrefl _
  | ask o k ih =>
    rw [run] at hr
    split at hr
    · cases hr
    · next r s₁ e => exact htrans (hstep hp.1 e) (ih r (hp.2 r) hr)

/-- A program that never comes to such an operation runs to its end. -/
theorem Asks.upTo {stop : I.Op → Bool} {p : Prog I α} (hp : Asks (fun o => stop o = false) p) {s s' : σ} {a : α}
    (hr : run h p s = some (a, s')) : upTo h stop p s = some (ret a, s') := by
  induction p generalizing s with
  | ret b =>
    cases hr
    rfl
  | ask o k ih =>
    rw [run] at hr
    split at hr
    · cases hr
    · next r s₁ e =>
      rw [upTo_ask h hp.1 e]
      exact ih r (hp.2 r) hr

/-- From every state, the program comes to its end, by operations that
satisfy `Q`. -/
def Total (Q : I.Op → Prop) : Prog I α → Prop
  | ret _ => True
  | ask o k => Q o ∧ ∀ s, ∃ x, h o s = some x ∧ Total Q (k x.1)

namespace Total

variable {h} {Q : I.Op → Prop}

theorem ask {o : I.Op} {k : I.Ans o → Prog I α} (hq : Q o)
    (hk : ∀ s, ∃ x, h o s = some x ∧ Total h Q (k x.1)) : Total h Q (ask o k) := ⟨hq, hk⟩

theorem bind {p : Prog I α} {f : α → Prog I β} (hp : Total h Q p) (hf : ∀ a, Total h Q (f a)) :
    Total h Q (p >>= f) := by
  induction p with
  | ret a => exact hf a
  | ask o k ih =>
    refine ⟨hp.1, fun s => ?_⟩
    obtain ⟨x, e, hx⟩ := hp.2 s
    exact ⟨x, e, ih _ hx⟩

theorem ite {c : Prop} [Decidable c] {p q : Prog I α} (hp : Total h Q p) (hq : Total h Q q) :
    Total h Q (if c then p else q) := by
  split <;> assumption

theorem run {p : Prog I α} (hp : Total h Q p) (s : σ) : ∃ a s', Prog.run h p s = some (a, s') := by
  induction p generalizing s with
  | ret a => exact ⟨a, s, rfl⟩
  | ask o k ih =>
    obtain ⟨⟨r, s₁⟩, e, hx⟩ := hp.2 s
    rw [run_ask h e]
    exact ih r hx s₁

theorem trace {p : Prog I α} (hp : Total h Q p) {s : σ} {o : I.Op} (ho : o ∈ Prog.trace h p s) : Q o := by
  induction p generalizing s with
  | ret a => cases ho
  | ask o' k ih =>
    obtain ⟨⟨r, s₁⟩, e, hx⟩ := hp.2 s
    rw [trace_ask h e] at ho
    rcases List.mem_cons.mp ho with rfl | ho
    · exact hp.1
    · exact ih r hx ho

end Total

/-- A run of the first program comes to the second one, by operations that
satisfy `Q`. -/
inductive Leads (Q : I.Op → Prop) : Prog I α → σ → Prog I α → σ → Prop
  | refl (p : Prog I α) (s : σ) : Leads Q p s p s
  | ask {o : I.Op} {k : I.Ans o → Prog I α} {s s₁ s' : σ} {r : I.Ans o} {p : Prog I α} :
    h o s = some (r, s₁) → Q o → Leads Q (k r) s₁ p s' → Leads Q (ask o k) s p s'

namespace Leads

variable {h} {Q : I.Op → Prop} {p p' p'' : Prog I α} {s s' s'' : σ}

theorem trans (l₁ : Leads h Q p s p' s') (l₂ : Leads h Q p' s' p'' s'') : Leads h Q p s p'' s'' := by
  induction l₁ with
  | refl => exact l₂
  | ask e q _ ih => exact .ask e q (ih l₂)

theorem run_eq (l : Leads h Q p s p' s') : run h p s = run h p' s' := by
  induction l with
  | refl => rfl
  | ask e _ _ ih => rw [run_ask h e, ih]

theorem trace_eq (l : Leads h Q p s p' s') :
    ∃ ops, (∀ o ∈ ops, Q o) ∧ trace h p s = ops ++ trace h p' s' := by
  induction l with
  | refl => exact ⟨[], by simp⟩
  | @ask o _ _ _ _ _ _ e q _ ih =>
    obtain ⟨ops, hq, ht⟩ := ih
    refine ⟨o :: ops, ?_, by rw [trace_ask h e, ht, List.cons_append]⟩
    simpa using ⟨q, hq⟩

end Leads

/-- A run comes to its end, with a result and in a state that meet `Post`. -/
def Yields (p : Prog I α) (s : σ) (Post : α → σ → Prop) : Prop := ∃ a s', run h p s = some (a, s') ∧ Post a s'

namespace Yields

variable {h} {s s' : σ} {Post Post' : α → σ → Prop}

theorem ret {a : α} (hp : Post a s) : Yields h (ret a) s Post := ⟨a, s, rfl, hp⟩

theorem ask {o : I.Op} {k : I.Ans o → Prog I α} {r : I.Ans o} (e : h o s = some (r, s'))
    (hk : Yields h (k r) s' Post) : Yields h (ask o k) s Post := by
  obtain ⟨a, s'', hr, hp⟩ := hk
  exact ⟨a, s'', by rw [run_ask h e, hr], hp⟩

theorem leads {Q : I.Op → Prop} {p p' : Prog I α} (hl : Leads h Q p s p' s') (hp : Yields h p' s' Post) :
    Yields h p s Post := by
  obtain ⟨a, s'', hr, hp⟩ := hp
  exact ⟨a, s'', by rw [hl.run_eq, hr], hp⟩

end Yields

end Prog

end Framework
