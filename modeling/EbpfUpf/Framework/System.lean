import EbpfUpf.Framework.Prog

/-!
# Runs of a system

A system is a partial step function on labelled actions; `exec` runs a list
of them, and is `none` if one of them is not possible where it comes.
`exec_invariant` is the rule for safety properties: what holds at the start
and is kept by each step holds in every state reached, where the steps may be
assumed to meet a condition on the state in which they come (`Along`). Every
prefix of a run is a run, so a statement about the last state is one about all
of them. `exec_simulates` is the rule for a system that does what another does.

`Serial` runs a program for each of some parties, one after another.
`AtEach P h` says that each event of a history came after events with which
it meets `P`.
-/

namespace Framework

section Exec

variable {σ ι : Type} (step : σ → ι → Option σ)

/-- The state after the actions `is`, if each is possible in its turn. -/
abbrev exec (s : σ) (is : List ι) : Option σ := is.foldlM step s

variable {step}

theorem exec_cons {s s' : σ} {i : ι} {is : List ι} :
    exec step s (i :: is) = some s' ↔ ∃ s₁, step s i = some s₁ ∧ exec step s₁ is = some s' := by
  simp [exec, List.foldlM_cons, Option.bind_eq_some_iff]

theorem exec_append {s s' : σ} {is js : List ι} :
    exec step s (is ++ js) = some s' ↔ ∃ s₁, exec step s is = some s₁ ∧ exec step s₁ js = some s' := by
  simp [exec, List.foldlM_append, Option.bind_eq_some_iff]

theorem exec_snoc {s s' : σ} {i : ι} {is : List ι} :
    exec step s (is ++ [i]) = some s' ↔ ∃ s₁, exec step s is = some s₁ ∧ step s₁ i = some s' := by
  simp [exec, List.foldlM_append, Option.bind_eq_some_iff]

/-- Each action of the run `is` from `s` meets `P` in the state in which it
comes. -/
def Along (step : σ → ι → Option σ) (P : σ → ι → Prop) : σ → List ι → Prop
  | _, [] => True
  | s, i :: is => P s i ∧ ∀ s', step s i = some s' → Along step P s' is

theorem along_cons_none {P : σ → ι → Prop} {s : σ} {i : ι} {is : List ι} (h : step s i = none) :
    Along step P s (i :: is) ↔ P s i := by
  simp [Along, h]

theorem along_cons_some {P : σ → ι → Prop} {s s' : σ} {i : ι} {is : List ι} (h : step s i = some s') :
    Along step P s (i :: is) ↔ P s i ∧ Along step P s' is := by
  simp [Along, h]

instance Along.decidable {P : σ → ι → Prop} [∀ s i, Decidable (P s i)] :
    (s : σ) → (is : List ι) → Decidable (Along step P s is)
  | _, [] => isTrue trivial
  | s, i :: is => match h : step s i with
    | none => decidable_of_iff _ (along_cons_none h).symm
    | some s' => have := Along.decidable (P := P) s' is
      decidable_of_iff _ (along_cons_some h).symm

theorem along_of_forall {P : σ → ι → Prop} {is : List ι} (h : ∀ i ∈ is, ∀ s, P s i) (s : σ) :
    Along step P s is := by
  induction is generalizing s with
  | nil => trivial
  | cons i is ih =>
    exact ⟨h i List.mem_cons_self s, fun s' _ => ih (fun j hj => h j (List.mem_cons_of_mem _ hj)) s'⟩

theorem along_append {P : σ → ι → Prop} {is js : List ι} {s s' : σ} (he : exec step s is = some s') :
    Along step P s (is ++ js) ↔ Along step P s is ∧ Along step P s' js := by
  induction is generalizing s with
  | nil =>
    cases he
    exact (iff_of_eq (true_and _)).symm
  | cons i is ih =>
    obtain ⟨s₁, h1, h2⟩ := exec_cons.mp he
    rw [List.cons_append, along_cons_some h1, along_cons_some h1, ih h2, and_assoc]

/-- Conditions that are the same wherever a step is possible. -/
theorem along_congr {P Q : σ → ι → Prop} (h : ∀ {s i s'}, step s i = some s' → (P s i ↔ Q s i)) {is : List ι}
    {s s' : σ} (he : exec step s is = some s') : Along step P s is ↔ Along step Q s is := by
  induction is generalizing s with
  | nil => exact Iff.rfl
  | cons i is ih =>
    obtain ⟨s₁, h1, h2⟩ := exec_cons.mp he
    rw [along_cons_some h1, along_cons_some h1, h h1, ih h2]

/-- What each step keeps, when its action meets `P`, every such run keeps. -/
theorem exec_invariant {J : σ → Prop} {P : σ → ι → Prop}
    (hstep : ∀ {s i s'}, P s i → J s → step s i = some s' → J s') {is : List ι} {s s' : σ}
    (hp : Along step P s is) (he : exec step s is = some s') (hs : J s) : J s' := by
  induction is generalizing s with
  | nil =>
    cases he
    exact hs
  | cons i is ih =>
    obtain ⟨s₁, h1, h2⟩ := exec_cons.mp he
    exact ih (hp.2 s₁ h1) h2 (hstep hp.1 hs h1)

/-- If another system can match each action that meets `P`, it matches such a run. -/
theorem exec_simulates {τ : Type} {step' : τ → ι → Option τ} {R : σ → τ → Prop} {P : ι → Prop}
    (hstep : ∀ {s t i s'}, P i → R s t → step s i = some s' → ∃ t', step' t i = some t' ∧ R s' t') {is : List ι}
    {s s' : σ} {t : τ} (hp : ∀ i ∈ is, P i) (he : exec step s is = some s') (hr : R s t) :
    ∃ t', exec step' t is = some t' ∧ R s' t' := by
  induction is generalizing s t with
  | nil =>
    cases he
    exact ⟨t, rfl, hr⟩
  | cons i is ih =>
    obtain ⟨s₁, h1, h2⟩ := exec_cons.mp he
    obtain ⟨t₁, ht, hr₁⟩ := hstep (hp i List.mem_cons_self) hr h1
    obtain ⟨t', ht', hr'⟩ := ih (fun j hj => hp j (List.mem_cons_of_mem _ hj)) h2 hr₁
    exact ⟨t', exec_cons.mpr ⟨t₁, ht, ht'⟩, hr'⟩

end Exec

/-! ## Histories -/

section History

variable {ε : Type} {P : List ε → ε → Prop}

/-- Each event of the history `h`, oldest first, meets `P` with those before it. -/
def AtEach (P : List ε → ε → Prop) (h : List ε) : Prop := ∀ pre e post, h = pre ++ e :: post → P pre e

theorem atEach_nil : AtEach P [] := by
  intro pre e post h
  simp at h

theorem atEach_snoc {h : List ε} {e : ε} : AtEach P (h ++ [e]) ↔ AtEach P h ∧ P h e := by
  constructor
  · intro hp
    refine ⟨fun pre e' post he => hp pre e' (post ++ [e]) ?_, hp h e [] rfl⟩
    rw [he, List.append_assoc, List.cons_append]
  · rintro ⟨hp, he⟩ pre e' post heq
    rcases List.eq_nil_or_concat post with rfl | ⟨post', e'', rfl⟩
    · obtain ⟨rfl, he'⟩ := List.append_inj' heq rfl
      obtain ⟨rfl, -⟩ := List.cons.inj he'
      exact he
    · rw [List.concat_eq_append, ← List.cons_append, ← List.append_assoc] at heq
      exact hp pre e' post' (List.append_inj' heq rfl).1

/-- Where an entry of a record drawn from a history comes from. -/
theorem exists_of_filterMap {α : Type} {f : ε → Option α} {h : List ε} {as bs : List α} {a : α}
    (hf : h.filterMap f = as ++ a :: bs) : ∃ pre e post, h = pre ++ e :: post ∧ f e = some a ∧
      post.filterMap f = bs := by
  obtain ⟨h₁, h₂, rfl, -, h⟩ := List.filterMap_eq_append_iff.mp hf
  obtain ⟨pre, e, post, rfl, -, he, hp⟩ := List.filterMap_eq_cons_iff.mp h
  exact ⟨h₁ ++ pre, e, post, by simp, he, hp⟩

end History

/-! ## Programs one after another -/

section Serial

variable {I : Interface} {ι α σ : Type}

/-- The programs `p` of some parties, run one after another; party `i` starts
in a state that meets `C i`. -/
inductive Serial (h : ι → Handler I σ) (C : ι → σ → Prop) (p : ι → Prog I α) :
    σ → List (ι × α) → σ → Prop
  | nil (s : σ) : Serial h C p s [] s
  | cons {s s₁ s' : σ} {i : ι} {a : α} {rs : List (ι × α)} : C i s →
    (p i).run (h i) s = some (a, s₁) → Serial h C p s₁ rs s' → Serial h C p s ((i, a) :: rs) s'

theorem Serial.snoc {h : ι → Handler I σ} {C : ι → σ → Prop} {p : ι → Prog I α} {s s₁ s' : σ}
    {rs : List (ι × α)} {i : ι} {a : α} (hs : Serial h C p s rs s₁) (hc : C i s₁)
    (hr : (p i).run (h i) s₁ = some (a, s')) : Serial h C p s (rs ++ [(i, a)]) s' := by
  induction hs with
  | nil => exact .cons hc hr (.nil _)
  | cons hc' hr' _ ih => exact .cons hc' hr' (ih hc hr)

theorem Serial.append {h : ι → Handler I σ} {C : ι → σ → Prop} {p : ι → Prog I α} {s s' : σ}
    {rs ts : List (ι × α)} (hs : Serial h C p s (rs ++ ts) s') :
    ∃ s₁, Serial h C p s rs s₁ ∧ Serial h C p s₁ ts s' := by
  induction rs generalizing s with
  | nil => exact ⟨s, .nil s, hs⟩
  | cons r rs ih =>
    cases hs with
    | cons hc hr hs =>
      obtain ⟨s₁, h₁, h₂⟩ := ih hs
      exact ⟨s₁, .cons hc hr h₁, h₂⟩

/-- The programs of `is` run one after another: what each returns, and the
state at the end. -/
def runAll (h : ι → Handler I σ) (p : ι → Prog I α) : List ι → σ → Option (List (ι × α) × σ)
  | [], s => some ([], s)
  | i :: is, s => do
    let (a, s) ← (p i).run (h i) s
    let (rs, s) ← runAll h p is s
    return ((i, a) :: rs, s)

theorem Serial.runAll_eq {h : ι → Handler I σ} {C : ι → σ → Prop} {p : ι → Prog I α} {s s' : σ}
    {rs : List (ι × α)} (hs : Serial h C p s rs s') : runAll h p (rs.map Prod.fst) s = some (rs, s') := by
  induction hs with
  | nil => rfl
  | cons _ hr _ ih =>
    rw [List.map_cons, runAll, hr]
    simp [ih]

theorem Serial.of_runAll {h : ι → Handler I σ} {p : ι → Prog I α} {is : List ι} {s s' : σ}
    {rs : List (ι × α)} (hr : runAll h p is s = some (rs, s')) : Serial h (fun _ _ => True) p s rs s' := by
  induction is generalizing s rs with
  | nil =>
    cases hr
    exact .nil _
  | cons i is ih =>
    simp only [runAll, Option.bind_eq_bind, Option.bind_eq_some_iff] at hr
    obtain ⟨⟨a, s₁⟩, h₁, ⟨rs, s₂⟩, h₂, h⟩ := hr
    cases h
    exact .cons trivial h₁ (ih h₂)

/-- What the programs return, in turn. -/
theorem runAll_zip {h : ι → Handler I σ} {p : ι → Prog I α} {is : List ι} {s s' : σ} {rs : List (ι × α)}
    (hr : runAll h p is s = some (rs, s')) : rs = is.zip (rs.map Prod.snd) := by
  induction is generalizing s rs with
  | nil =>
    cases hr
    rfl
  | cons i is ih =>
    simp only [runAll, Option.bind_eq_bind, Option.bind_eq_some_iff] at hr
    obtain ⟨⟨a, s₁⟩, -, ⟨rs, s₂⟩, h₂, h⟩ := hr
    cases h
    exact congrArg ((i, a) :: ·) (ih h₂)

end Serial

end Framework
