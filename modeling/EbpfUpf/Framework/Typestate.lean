import EbpfUpf.Framework.Amid

/-!
# Disciplines on operations

A `Discipline` says which operations a program may perform next, given what it
has done so far, of which it keeps a summary `κ`. `Obeys D Post k p` says that
`p`, from a point with summary `k`, performs allowed operations only, whichever
of the possible answers it gets, and ends with a result and a summary that meet
`Post`. It is a fact about the program alone.

`Obeys.op` is one operation, and `Obeys.bind` and `Obeys.ite` follow a
program by its structure. `Discipline.after` is the summary of a log. `Kept`
puts the two together, for a program on its way: all that it has done was
allowed when it came, and so is all that it may still do (`Obeys.kept`). A run
under a handler is such a way (`exists_performs`).
-/

namespace Framework

structure Discipline (I : Interface) (κ : Type) where
  /-- The operation may be performed. -/
  Allowed : κ → I.Op → Prop
  /-- The answer may come. -/
  Possible : κ → (o : I.Op) → I.Ans o → Prop
  next : κ → (o : I.Op) → I.Ans o → κ

variable {I : Interface} {κ α β σ : Type}

def Obeys (D : Discipline I κ) (Post : α → κ → Prop) : κ → Prog I α → Prop
  | k, .ret a => Post a k
  | k, .ask o f => D.Allowed k o ∧ ∀ r, D.Possible k o r → Obeys D Post (D.next k o r) (f r)

namespace Obeys

variable {D : Discipline I κ} {Post Post' : α → κ → Prop} {k : κ}

theorem op {o : I.Op} {f : I.Ans o → Prog I α} {r : I.Ans o} (h : Obeys D Post k (.ask o f))
    (hr : D.Possible k o r) : D.Allowed k o ∧ Obeys D Post (D.next k o r) (f r) := ⟨h.1, h.2 r hr⟩

theorem mono {p : Prog I α} (h : Obeys D Post k p) (hp : ∀ a k, Post a k → Post' a k) : Obeys D Post' k p := by
  induction p generalizing k with
  | ret a => exact hp a k h
  | ask o f ih => exact ⟨h.1, fun r hr => ih r (h.2 r hr)⟩

theorem bind {Mid : β → κ → Prop} {p : Prog I β} {f : β → Prog I α} (hp : Obeys D Mid k p)
    (hf : ∀ a k, Mid a k → Obeys D Post k (f a)) : Obeys D Post k (p >>= f) := by
  induction p generalizing k with
  | ret a => exact hf a k hp
  | ask o g ih => exact ⟨hp.1, fun r hr => ih r (hp.2 r hr)⟩

theorem ite {c : Prop} [Decidable c] {p q : Prog I α} (hp : c → Obeys D Post k p) (hq : ¬ c → Obeys D Post k q) :
    Obeys D Post k (if c then p else q) := by
  split
  · next h => exact hp h
  · next h => exact hq h

end Obeys

/-! ## Along a log -/

namespace Discipline

variable (D : Discipline I κ)

/-- The summary after the operations `l`. -/
def after (k : κ) (l : Log I) : κ := l.foldl (fun k e => D.next k e.1 e.2) k

@[simp] theorem after_snoc (k : κ) (l : Log I) (e : (o : I.Op) × I.Ans o) :
    D.after k (l ++ [e]) = D.next (D.after k l) e.1 e.2 := by
  rw [after, List.foldl_append]
  rfl

/-- A step of the log: an allowed operation with a possible answer. -/
def Step (k : κ) (pre : Log I) (e : (o : I.Op) × I.Ans o) : Prop :=
  D.Allowed (D.after k pre) e.1 ∧ D.Possible (D.after k pre) e.1 e.2

end Discipline

/-- The program `p` comes after the operations `l`, and keeps to the discipline
from beginning to end. -/
structure Kept (D : Discipline I κ) (Post : α → κ → Prop) (k : κ) (l : Log I) (p : Prog I α) : Prop where
  past : AtEach (D.Step k) l
  rest : Obeys D Post (D.after k l) p

namespace Kept

variable {D : Discipline I κ} {Post : α → κ → Prop} {k : κ} {l : Log I}

theorem start {p : Prog I α} (h : Obeys D Post k p) : Kept D Post k [] p := ⟨atEach_nil, h⟩

theorem op {o : I.Op} {f : I.Ans o → Prog I α} {r : I.Ans o} (h : Kept D Post k l (.ask o f))
    (hr : D.Possible (D.after k l) o r) : Kept D Post k (l ++ [⟨o, r⟩]) (f r) := by
  obtain ⟨ha, hf⟩ := h.rest.op hr
  refine ⟨atEach_snoc.mpr ⟨h.past, ha, hr⟩, ?_⟩
  rw [D.after_snoc]
  exact hf

end Kept

/-- `p` performs the operations `l`, answered like this, and has `q` left to do. -/
inductive Performs (p : Prog I α) : Log I → Prog I α → Prop
  | refl : Performs p [] p
  | snoc {l : Log I} {o : I.Op} {f : I.Ans o → Prog I α} (r : I.Ans o) :
    Performs p l (.ask o f) → Performs p (l ++ [⟨o, r⟩]) (f r)

theorem Performs.cons {o : I.Op} {f : I.Ans o → Prog I α} {l : Log I} {q : Prog I α} (r : I.Ans o)
    (h : Performs (f r) l q) : Performs (.ask o f) (⟨o, r⟩ :: l) q := by
  induction h with
  | refl => exact .snoc (l := []) r .refl
  | snoc r' _ ih => exact ih.snoc r'

/-- A run performs the operations of its trace, with the handler's answers. -/
theorem exists_performs (h : Handler I σ) {p : Prog I α} {s s' : σ} {a : α} (hr : Prog.run h p s = some (a, s')) :
    ∃ l, Performs p l (.ret a) ∧ l.map Sigma.fst = Prog.trace h p s ∧
      ∀ e ∈ l, ∃ s₁ s₂, h e.1 s₁ = some (e.2, s₂) := by
  induction p generalizing s with
  | ret b =>
    cases hr
    exact ⟨[], .refl, rfl, nofun⟩
  | ask o f ih =>
    rw [Prog.run] at hr
    split at hr
    · cases hr
    · next r s₁ e =>
      obtain ⟨l, hl, ht, ha⟩ := ih r hr
      refine ⟨⟨o, r⟩ :: l, hl.cons r, by rw [Prog.trace_ask h e, List.map_cons, ht], fun e' he => ?_⟩
      rcases List.mem_cons.mp he with rfl | he
      · exact ⟨s, s₁, e⟩
      · exact ha e' he

theorem Obeys.kept {D : Discipline I κ} {Post : α → κ → Prop} {k : κ} {l : Log I} {p q : Prog I α}
    (h : Obeys D Post k p) (hl : Performs p l q)
    (ha : AtEach (fun pre e => D.Possible (D.after k pre) e.1 e.2) l) : Kept D Post k l q := by
  induction hl with
  | refl => exact .start h
  | snoc r _ ih =>
    obtain ⟨ha, hr⟩ := atEach_snoc.mp ha
    exact (ih ha).op hr

end Framework
