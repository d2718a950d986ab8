import EbpfUpf.Framework.System

/-!
# Programs among others

A program whose operations are interleaved with moves of other parties is
looked at on its own. `Amid h R Q Post l p s` says that `p`, with the
operations `l` behind it, comes from `s` to its end, if what the others do
between its operations meets `R`: each operation, answered by `h`, meets `Q`,
and the result and all operations meet `Post`.

A move of the others keeps this (`Amid.env`), and so does a step of the
program (`Amid.op`), so that it holds of each of the programs all along a run
in which each party relies on no more than what the others do. The other lemmas
follow a program by its structure. What is known of the operations at the end
of a program is known of those up to any point (`Amid.ends`).

`Ways A Q l p` says less: that whichever way `p` goes, with the answers that
`A` allows, what it has done meets `Q` at each point. Where `Q` is about the
operations of one kind only, `Tracks` follows the program from one of these to
the next.
-/

namespace Framework

/-- Operations with their answers, oldest first. -/
abbrev Log (I : Interface) := List ((o : I.Op) × I.Ans o)

variable {I : Interface} {α β σ : Type}

def Amid (h : Handler I σ) (R : σ → σ → Prop) (Q : (o : I.Op) → I.Ans o → σ → Prop)
    (Post : Log I → α → σ → Prop) : Log I → Prog I α → σ → Prop
  | l, .ret a, s => ∀ s', R s s' → Post l a s'
  | l, .ask o k, s => ∀ s', R s s' → ∃ r s'', h o s' = some (r, s'') ∧ Q o r s'' ∧
      Amid h R Q Post (l ++ [⟨o, r⟩]) (k r) s''

namespace Amid

variable {h : Handler I σ} {R : σ → σ → Prop} {Q : (o : I.Op) → I.Ans o → σ → Prop}
  {Post : Log I → α → σ → Prop} {l : Log I} {p : Prog I α} {s s' : σ}

/-- The others move. -/
theorem env (htrans : ∀ {s₁ s₂ s₃}, R s₁ s₂ → R s₂ s₃ → R s₁ s₃) (hp : Amid h R Q Post l p s) (hr : R s s') :
    Amid h R Q Post l p s' := by
  cases p with
  | ret a => exact fun s'' hr' => hp s'' (htrans hr hr')
  | ask o k => exact fun s'' hr' => hp s'' (htrans hr hr')

/-- The program moves. -/
theorem op (hrefl : ∀ s, R s s) {o : I.Op} {k : I.Ans o → Prog I α} {r : I.Ans o}
    (hp : Amid h R Q Post l (.ask o k) s) (e : h o s = some (r, s')) :
    Q o r s' ∧ Amid h R Q Post (l ++ [⟨o, r⟩]) (k r) s' := by
  obtain ⟨r', s'', e', hq, hk⟩ := hp s (hrefl s)
  rw [e] at e'
  cases e'
  exact ⟨hq, hk⟩

/-- The program may go on alone, to its end. -/
theorem ends (hrefl : ∀ s, R s s) (hp : Amid h R Q Post l p s) : ∃ t a s', Post (l ++ t) a s' := by
  induction p generalizing l s with
  | ret a => exact ⟨[], a, s, by simpa using hp s (hrefl s)⟩
  | ask o k ih =>
    obtain ⟨r, s', -, -, hk⟩ := hp s (hrefl s)
    obtain ⟨t, a, s'', hp⟩ := ih r hk
    exact ⟨⟨o, r⟩ :: t, a, s'', by simpa using hp⟩

/-- A program that comes to its end from every state, and what follows it. -/
theorem total_bind {S : I.Op → Prop} {p : Prog I β} {f : β → Prog I α} (hp : p.Total h S)
    (hq : ∀ {o s r s'}, S o → h o s = some (r, s') → Q o r s')
    (hf : ∀ t a s', (∀ e ∈ t, S e.1) → Amid h R Q Post (l ++ t) (f a) s') :
    Amid h R Q Post l (p >>= f) s := by
  induction p generalizing l s with
  | ret b => simpa using hf [] b s (by simp)
  | ask o k ih =>
    intro s' _
    obtain ⟨⟨r, s''⟩, e, ht⟩ := hp.2 s'
    refine ⟨r, s'', e, hq hp.1 e, ih r ht fun t a s₁ hs => ?_⟩
    have := hf (⟨o, r⟩ :: t) a s₁ (by simpa using ⟨hp.1, hs⟩)
    simpa using this

/-- Operations on the way to `q` whose answers the others have no part in. -/
theorem of_leads {S : I.Op → Prop} {q : Prog I α} {s₁ : σ}
    (htrans : ∀ {s₁ s₂ s₃}, R s₁ s₂ → R s₂ s₃ → R s₁ s₃) (hl : Prog.Leads h S p s q s₁)
    (hs : ∀ {o s r s₁ s'}, S o → h o s = some (r, s₁) → R s s' →
      ∃ s'', h o s' = some (r, s'') ∧ R s₁ s'' ∧ Q o r s'')
    (hq : ∀ t, (∀ e ∈ t, S e.1) → Amid h R Q Post (l ++ t) q s₁) : Amid h R Q Post l p s := by
  induction hl generalizing l with
  | refl => simpa using hq [] (by simp)
  | @ask o _ _ _ _ r _ e ho _ ih =>
    intro s' hr
    obtain ⟨s'', e', hr', hq'⟩ := hs ho e hr
    refine ⟨r, s'', e', hq', (ih (l := l ++ [⟨o, r⟩]) fun t ht => ?_).env htrans hr'⟩
    have := hq (⟨o, r⟩ :: t) (by simpa using ⟨ho, ht⟩)
    simpa using this

/-- A program all of whose operations keep `J`, as the others do. -/
theorem of_asks {S : I.Op → Prop} {J : σ → Prop} (hp : p.Asks S) (hR : ∀ {s s'}, R s s' → J s → J s')
    (hS : ∀ {o s}, S o → J s → ∃ r s', h o s = some (r, s') ∧ Q o r s' ∧ J s') (hj : J s)
    (hpost : ∀ l a s, J s → Post l a s) : Amid h R Q Post l p s := by
  induction p generalizing l s with
  | ret a => exact fun s' hr => hpost l a s' (hR hr hj)
  | ask o k ih =>
    intro s' hr
    obtain ⟨r, s'', e, hq, hj'⟩ := hS hp.1 (hR hr hj)
    exact ⟨r, s'', e, hq, ih r (hp.2 r) hj'⟩

end Amid

/-! ## All ways -/

def Ways (A : (o : I.Op) → I.Ans o → Prop) (Q : Log I → Prop) : Log I → Prog I α → Prop
  | l, .ret _ => Q l
  | l, .ask o k => Q l ∧ ∀ r, A o r → Ways A Q (l ++ [⟨o, r⟩]) (k r)

namespace Ways

variable {A : (o : I.Op) → I.Ans o → Prop} {Q : Log I → Prop} {l : Log I}

theorem now {p : Prog I α} (hp : Ways A Q l p) : Q l := by
  cases p with
  | ret a => exact hp
  | ask o k => exact hp.1

theorem op {o : I.Op} {k : I.Ans o → Prog I α} {r : I.Ans o} (hp : Ways A Q l (.ask o k)) (hr : A o r) :
    Ways A Q (l ++ [⟨o, r⟩]) (k r) := hp.2 r hr

/-- A program of operations that meet `S`, wherever `A` allows only the answers
that `h` gives to these, and what follows it. -/
theorem total_bind {S : I.Op → Prop} {h : Handler I σ} {p : Prog I β} {f : β → Prog I α} (hp : p.Total h S)
    (hA : ∀ {o r}, S o → A o r → ∃ s s', h o s = some (r, s'))
    (hq : ∀ t, (∀ e ∈ t, S e.1) → Q (l ++ t))
    (hf : ∀ t a, (∀ e ∈ t, S e.1) → Ways A Q (l ++ t) (f a)) : Ways A Q l (p >>= f) := by
  induction p generalizing l with
  | ret b => simpa using hf [] b (by simp)
  | ask o k ih =>
    refine ⟨by simpa using hq [] (by simp), fun r hr => ?_⟩
    obtain ⟨s, s', e⟩ := hA hp.1 hr
    obtain ⟨x, e', ht⟩ := hp.2 s
    cases e.symm.trans e'
    refine ih r ht (fun t hs => ?_) fun t a hs => ?_
    · have := hq (⟨o, r⟩ :: t) (by simpa using ⟨hp.1, hs⟩)
      simpa using this
    · have := hf (⟨o, r⟩ :: t) a (by simpa using ⟨hp.1, hs⟩)
      simpa using this

/-- A program all of whose operations keep `J`. -/
theorem of_asks {S : I.Op → Prop} {J : Log I → Prop} {p : Prog I α} (hp : p.Asks S) (hj : J l)
    (hS : ∀ {l o} r, S o → J l → J (l ++ [⟨o, r⟩])) (hq : ∀ {l}, J l → Q l) : Ways A Q l p := by
  induction p generalizing l with
  | ret a => exact hq hj
  | ask o k ih => exact ⟨hq hj, fun r _ => ih r (hp.2 r) (hS r hp.1 hj)⟩

end Ways

/-! ## Operations of one kind -/

/-- The operations of a kind. -/
def ofKind (kind : I.Op → Bool) (l : Log I) : Log I := l.filter fun e => kind e.1

/-- From any point that has the operations `X` of a kind behind it, those of the
kind meet `Q` all the way. -/
def Tracks (A : (o : I.Op) → I.Ans o → Prop) (kind : I.Op → Bool) (Q : Log I → Prop) (X : Log I)
    (p : Prog I α) : Prop :=
  ∀ l, ofKind kind l = X → Ways A (fun l => Q (ofKind kind l)) l p

section Tracks

variable {kind : I.Op → Bool}

@[simp] theorem ofKind_append (l l' : Log I) : ofKind kind (l ++ l') = ofKind kind l ++ ofKind kind l' :=
  List.filter_append ..

theorem ofKind_pos {o : I.Op} (ho : kind o = true) (r : I.Ans o) :
    ofKind kind [(⟨o, r⟩ : (o : I.Op) × I.Ans o)] = [⟨o, r⟩] := List.filter_cons_of_pos ho

theorem ofKind_neg {o : I.Op} (ho : kind o = false) (r : I.Ans o) :
    ofKind kind [(⟨o, r⟩ : (o : I.Op) × I.Ans o)] = [] := List.filter_cons_of_neg (by simp [ho])

theorem ofKind_eq_nil {l : Log I} (h : ∀ e ∈ l, kind e.1 = false) : ofKind kind l = [] :=
  List.filter_eq_nil_iff.mpr fun e he => by simp [h e he]

namespace Tracks

variable {A : (o : I.Op) → I.Ans o → Prop} {Q : Log I → Prop} {X : Log I}

theorem ret {a : α} (hX : Q X) : Tracks A kind Q X (.ret a : Prog I α) := by
  rintro l rfl
  exact hX

theorem other {o : I.Op} {k : I.Ans o → Prog I α} (hX : Q X) (ho : kind o = false)
    (hk : ∀ r, A o r → Tracks A kind Q X (k r)) : Tracks A kind Q X (.ask o k) := by
  rintro l rfl
  refine ⟨hX, fun r hr => hk r hr _ ?_⟩
  rw [ofKind_append, ofKind_neg ho, List.append_nil]

theorem use {o : I.Op} {k : I.Ans o → Prog I α} (hX : Q X) (ho : kind o = true)
    (hk : ∀ r, A o r → Tracks A kind Q (X ++ [⟨o, r⟩]) (k r)) : Tracks A kind Q X (.ask o k) := by
  rintro l rfl
  exact ⟨hX, fun r hr => hk r hr _ (by rw [ofKind_append, ofKind_pos ho])⟩

/-- A program of operations of other kinds, and what follows it. -/
theorem total_bind {S : I.Op → Prop} {h : Handler I σ} {p : Prog I β} {f : β → Prog I α} (hX : Q X)
    (hp : p.Total h S) (hS : ∀ {o}, S o → kind o = false)
    (hA : ∀ {o r}, S o → A o r → ∃ s s', h o s = some (r, s')) (hf : ∀ a, Tracks A kind Q X (f a)) :
    Tracks A kind Q X (p >>= f) := by
  rintro l rfl
  have hk : ∀ t : Log I, (∀ e ∈ t, S e.1) → ofKind kind (l ++ t) = ofKind kind l := fun t ht => by
    have : ofKind kind t = [] := ofKind_eq_nil fun e he => hS (ht e he)
    rw [ofKind_append, this, List.append_nil]
  refine .total_bind hp hA (fun t ht => ?_) fun t a ht => hf a _ (hk t ht)
  rw [hk t ht]
  exact hX

end Tracks

end Tracks

end Framework
