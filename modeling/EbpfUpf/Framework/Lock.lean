import Mathlib.Logic.Function.Basic
import EbpfUpf.Framework.System

/-!
# Programs under a lock

`Pool` is a number of parties that run programs on a common state, one
operation of one party at a time, in any order. Operations that `acq` selects
take the one lock there is, and wait while it is held; those that `rel`
selects give it back.

A program is `Outside` if it takes the lock once, and everything it does
before has no effect and an answer that does not depend on what the others
do; it is `Inside` from then on until it gives the lock back, which is the last
thing it does. If all programs are `Outside` to begin with, each state of the
pool is explained by a serial run of those that are done, in the order in
which they took the lock (`Pool.serial`).
-/

namespace Framework

variable {I : Interface} {ι α σ : Type}

structure Pool (I : Interface) (ι α σ : Type) where
  state : σ
  /-- Who has the lock. -/
  holder : Option ι
  prog : ι → Prog I α

variable [DecidableEq ι] (h : ι → Handler I σ) (acq rel : I.Op → Bool)

/-- The next operation of party `i`, if there is one and it need not wait. -/
def Pool.step (c : Pool I ι α σ) (i : ι) : Option (Pool I ι α σ) :=
  match c.prog i with
  | .ret _ => none
  | .ask o k =>
    if acq o && c.holder.isSome then none
    else (h i o c.state).map fun x =>
      { state := x.2
        holder := if acq o then some i else if rel o then none else c.holder
        prog := Function.update c.prog i (k x.1) }

/-- The party's next operation takes the lock. -/
def Pool.Takes (c : Pool I ι α σ) (i : ι) : Prop :=
  ∃ o k, c.prog i = .ask o k ∧ acq o = true

omit [DecidableEq ι] in
theorem Pool.takes_iff {c : Pool I ι α σ} {i : ι} {o : I.Op} {k : I.Ans o → Prog I α}
    (h : c.prog i = .ask o k) : c.Takes acq i ↔ acq o = true := by
  simp [Pool.Takes, h]

instance (c : Pool I ι α σ) (i : ι) : Decidable (c.Takes acq i) :=
  match h : c.prog i with
  | .ret a => isFalse (by simp [Pool.Takes, h])
  | .ask _ _ => decidable_of_iff _ (Pool.takes_iff acq h).symm

inductive Inside : Prog I α → Prop
  | rel {o : I.Op} {k : I.Ans o → Prog I α} {a : α} : acq o = false → rel o = true →
    (∀ r, k r = .ret a) → Inside (.ask o k)
  | ask {o : I.Op} {k : I.Ans o → Prog I α} : acq o = false → rel o = false →
    (∀ r, Inside (k r)) → Inside (.ask o k)

omit [DecidableEq ι] in
/-- What comes before an `Inside` program may do anything but take the lock
or give it back. -/
theorem Inside.bind {β : Type} {acq rel : I.Op → Bool} {p : Prog I β} {f : β → Prog I α}
    (hp : p.Asks fun o => acq o = false ∧ rel o = false) (hf : ∀ a, Inside acq rel (f a)) :
    Inside acq rel (p >>= f) := by
  induction p with
  | ret a => exact hf a
  | ask o k ih => exact .ask hp.1.1 hp.1.2 fun r => ih r (hp.2 r)

variable (Ok : σ → Prop)

inductive Outside (i : ι) : Prog I α → Prop
  | acq {o : I.Op} {k : I.Ans o → Prog I α} : acq o = true → (∀ r, Inside acq rel (k r)) →
    Outside i (.ask o k)
  | ask {o : I.Op} {k : I.Ans o → Prog I α} {r : I.Ans o} : acq o = false → rel o = false →
    (∀ s, Ok s → h i o s = some (r, s)) → Outside i (k r) → Outside i (.ask o k)

/-- Party `i` has not taken the lock, and is as good as at its start. -/
def Waits (p : ι → Prog I α) (i : ι) (q : Prog I α) : Prop :=
  Outside h acq rel Ok i q ∧ ∀ s, Ok s → q.run (h i) s = (p i).run (h i) s

/-- The serial run `rs` from `s₀` to `s` explains the state of the pool. -/
structure Explains (C : ι → σ → Prop) (p : ι → Prog I α) (s₀ : σ) (c : Pool I ι α σ)
    (rs : List (ι × α)) (s : σ) : Prop where
  serial : Serial h C p s₀ rs s
  ok : Ok c.state
  nodup : (rs.map Prod.fst).Nodup
  done : ∀ i a, (i, a) ∈ rs → c.prog i = .ret a
  waits : ∀ i, i ∉ rs.map Prod.fst → c.holder ≠ some i → Waits h acq rel Ok p i (c.prog i)
  free : c.holder = none → c.state = s
  -- What the holder is left to do brings the pool to where the holder alone would be.
  held : ∀ i, c.holder = some i → i ∉ rs.map Prod.fst ∧ C i s ∧ Inside acq rel (c.prog i) ∧
    (c.prog i).run (h i) c.state = (p i).run (h i) s

namespace Explains

variable {h acq rel Ok} {C : ι → σ → Prop} {p : ι → Prog I α} {s₀ s : σ} {c c' : Pool I ι α σ}
  {rs : List (ι × α)}

omit [DecidableEq ι] in
/-- A party with an operation left to do is not done. -/
theorem not_mem (hx : Explains h acq rel Ok C p s₀ c rs s) {i : ι} {o : I.Op} {k : I.Ans o → Prog I α}
    (hi : c.prog i = .ask o k) : i ∉ rs.map Prod.fst := by
  intro hm
  obtain ⟨⟨j, a⟩, hj, rfl⟩ := List.mem_map.mp hm
  rw [hx.done j a hj] at hi
  cases hi

/-- What the others wait for does not depend on the step of party `i`. -/
theorem waits_update (hx : Explains h acq rel Ok C p s₀ c rs s) {i j : ι} (q : Prog I α) (hj : j ≠ i)
    (hm : j ∉ rs.map Prod.fst) (hh : c.holder ≠ some j) :
    Waits h acq rel Ok p j (Function.update c.prog i q j) := by
  rw [Function.update_of_ne hj]
  exact hx.waits j hm hh

theorem done_update (hx : Explains h acq rel Ok C p s₀ c rs s) {i : ι} (q : Prog I α)
    (hm : i ∉ rs.map Prod.fst) {j : ι} {a : α} (hj : (j, a) ∈ rs) :
    Function.update c.prog i q j = .ret a := by
  rw [Function.update_of_ne ?_]
  · exact hx.done j a hj
  · rintro rfl
    exact hm (List.mem_map.mpr ⟨_, hj, rfl⟩)

/-- A party that has not taken the lock does something that has no effect. -/
theorem step_outside (hx : Explains h acq rel Ok C p s₀ c rs s) {i : ι} {o : I.Op}
    {k : I.Ans o → Prog I α} {r : I.Ans o} (hi : c.prog i = .ask o k) (hh : c.holder ≠ some i)
    (hl : ∀ s, Ok s → h i o s = some (r, s)) (hk : Outside h acq rel Ok i (k r)) :
    Explains h acq rel Ok C p s₀ ⟨c.state, c.holder, Function.update c.prog i (k r)⟩ rs s where
  serial := hx.serial
  ok := hx.ok
  nodup := hx.nodup
  done := fun j a hj => hx.done_update (k r) (hx.not_mem hi) hj
  waits := by
    intro j hm hj
    by_cases e : j = i
    · subst e
      have hw := hx.waits j hm hj
      rw [hi] at hw
      simp only [Function.update_self]
      exact ⟨hk, fun t ht => by rw [← hw.2 t ht, Prog.run_ask _ (hl t ht)]⟩
    · exact hx.waits_update _ e hm hj
  free := hx.free
  held := by
    intro j hj
    have e : j ≠ i := fun e => hh (hj.trans (congrArg some e))
    simp only [Function.update_of_ne e]
    exact hx.held j hj

/-- A party takes the lock. -/
theorem step_acq (hx : Explains h acq rel Ok C p s₀ c rs s) {i : ι} {o : I.Op}
    {k : I.Ans o → Prog I α} {r : I.Ans o} {s' : σ} (hi : c.prog i = .ask o k) (hf : c.holder = none)
    (hc : C i c.state) (hk : Inside acq rel (k r)) (hs : h i o c.state = some (r, s')) (hok : Ok s') :
    Explains h acq rel Ok C p s₀ ⟨s', some i, Function.update c.prog i (k r)⟩ rs s where
  serial := hx.serial
  ok := hok
  nodup := hx.nodup
  done := fun j a hj => hx.done_update (k r) (hx.not_mem hi) hj
  waits := by
    intro j hm hj
    exact hx.waits_update _ (fun e => hj (by rw [e])) hm (by rw [hf]; simp)
  free := by simp
  held := by
    intro j hj
    obtain rfl := Option.some.inj hj
    have hw := hx.waits i (hx.not_mem hi) (by rw [hf]; simp)
    rw [hi] at hw
    simp only [Function.update_self]
    rw [← hx.free hf, ← hw.2 _ hx.ok, Prog.run_ask _ hs]
    exact ⟨hx.not_mem hi, hc, hk, rfl⟩

/-- The holder goes on. -/
theorem step_inside (hx : Explains h acq rel Ok C p s₀ c rs s) {i : ι} {o : I.Op}
    {k : I.Ans o → Prog I α} {r : I.Ans o} {s' : σ} (hi : c.prog i = .ask o k) (hh : c.holder = some i)
    (hk : Inside acq rel (k r)) (hs : h i o c.state = some (r, s')) (hok : Ok s') :
    Explains h acq rel Ok C p s₀ ⟨s', some i, Function.update c.prog i (k r)⟩ rs s where
  serial := hx.serial
  ok := hok
  nodup := hx.nodup
  done := fun j a hj => hx.done_update (k r) (hx.not_mem hi) hj
  waits := by
    intro j hm hj
    exact hx.waits_update _ (fun e => hj (by rw [e])) hm (by rw [hh]; exact hj)
  free := by simp
  held := by
    intro j hj
    obtain rfl := Option.some.inj hj
    obtain ⟨h1, h2, -, h4⟩ := hx.held i hh
    rw [hi, Prog.run_ask _ hs] at h4
    simp only [Function.update_self]
    exact ⟨h1, h2, hk, h4⟩

/-- The holder gives the lock back: its run is the next of the serial run. -/
theorem step_rel (hx : Explains h acq rel Ok C p s₀ c rs s) {i : ι} {o : I.Op}
    {k : I.Ans o → Prog I α} {r : I.Ans o} {a : α} {s' : σ} (hi : c.prog i = .ask o k)
    (hh : c.holder = some i) (hk : k r = .ret a) (hs : h i o c.state = some (r, s')) (hok : Ok s') :
    Explains h acq rel Ok C p s₀ ⟨s', none, Function.update c.prog i (k r)⟩ (rs ++ [(i, a)]) s' where
  serial := by
    obtain ⟨-, hc, -, hr⟩ := hx.held i hh
    rw [hi, Prog.run_ask _ hs, hk, Prog.run_ret] at hr
    exact hx.serial.snoc hc hr.symm
  ok := hok
  nodup := by
    rw [List.map_append, List.nodup_append]
    refine ⟨hx.nodup, by simp, ?_⟩
    rintro j hj j' hj' rfl
    simp only [List.map_cons, List.map_nil, List.mem_singleton] at hj'
    subst hj'
    exact hx.not_mem hi hj
  done := by
    intro j b hj
    rcases List.mem_append.mp hj with hj | hj
    · exact hx.done_update (k r) (hx.not_mem hi) hj
    · obtain ⟨rfl, rfl⟩ := Prod.mk.inj (List.mem_singleton.mp hj)
      simp only [Function.update_self, hk]
  waits := by
    intro j hm hj
    rw [List.map_append, List.mem_append, not_or] at hm
    have e : j ≠ i := by simpa using hm.2
    exact hx.waits_update _ e hm.1 (by rw [hh]; exact fun e' => e (Option.some.inj e').symm)
  free := fun _ => rfl
  held := by simp

theorem step (hok : ∀ {i o s r s'}, Ok s → h i o s = some (r, s') → Ok s')
    (hx : Explains h acq rel Ok C p s₀ c rs s) {i : ι} (hc : c.Takes acq i → C i c.state)
    (hs : c.step h acq rel i = some c') : ∃ rs' s', Explains h acq rel Ok C p s₀ c' rs' s' := by
  unfold Pool.step at hs
  split at hs
  · cases hs
  next o k hi =>
  split at hs
  · cases hs
  next hfree =>
  obtain ⟨⟨r, s'⟩, hr, rfl⟩ := Option.map_eq_some_iff.mp hs
  by_cases hh : c.holder = some i
  · obtain ⟨-, -, hin, -⟩ := hx.held i hh
    rw [hi] at hin
    cases hin with
    | rel ha hr' hk =>
      simp only [ha, hr', Bool.false_eq_true, ite_false, ite_true]
      exact ⟨_, _, hx.step_rel hi hh (hk r) hr (hok hx.ok hr)⟩
    | ask ha hr' hk =>
      simp only [ha, hr', Bool.false_eq_true, ite_false, hh]
      exact ⟨_, _, hx.step_inside hi hh (hk r) hr (hok hx.ok hr)⟩
  · have hw := hx.waits i (hx.not_mem hi) hh
    rw [hi] at hw
    obtain ⟨hw, -⟩ := hw
    cases hw with
    | acq ha hk =>
      have hf : c.holder = none := by simpa [ha] using hfree
      simp only [ha, ite_true]
      exact ⟨_, _, hx.step_acq hi hf (hc ⟨o, k, hi, ha⟩) (hk r) hr (hok hx.ok hr)⟩
    | @ask _ _ r' ha hr' hl hk =>
      obtain ⟨rfl, rfl⟩ := Prod.mk.inj (Option.some.inj ((hl _ hx.ok).symm.trans hr))
      simp only [ha, hr', Bool.false_eq_true, ite_false]
      exact ⟨_, _, hx.step_outside hi hh hl hk⟩

end Explains

/-- Every state of a pool is that of a serial run of the parties that are
done, in the order in which they took the lock. -/
theorem Pool.serial {h : ι → Handler I σ} {acq rel : I.Op → Bool} {Ok : σ → Prop} {C : ι → σ → Prop}
    {p : ι → Prog I α} {s₀ : σ} {c : Pool I ι α σ} {is : List ι}
    (hok : ∀ {i o s r s'}, Ok s → h i o s = some (r, s') → Ok s') (h₀ : Ok s₀)
    (hp : ∀ i, Outside h acq rel Ok i (p i))
    (hc : Along (Pool.step h acq rel) (fun c i => c.Takes acq i → C i c.state) ⟨s₀, none, p⟩ is)
    (he : exec (Pool.step h acq rel) ⟨s₀, none, p⟩ is = some c) :
    ∃ rs s, Serial h C p s₀ rs s ∧ (rs.map Prod.fst).Nodup ∧ ∀ i a, c.prog i = .ret a ↔ (i, a) ∈ rs := by
  have hx : ∃ rs s, Explains h acq rel Ok C p s₀ c rs s := by
    refine exec_invariant (J := fun c => ∃ rs s, Explains h acq rel Ok C p s₀ c rs s)
      (fun hc hx hs => ?_) hc he ?_
    · obtain ⟨rs, s, hx⟩ := hx
      exact hx.step hok hc hs
    · exact ⟨[], s₀, .nil s₀, h₀, .nil, by simp, fun i _ _ => ⟨hp i, fun _ _ => rfl⟩, fun _ => rfl, by simp⟩
  obtain ⟨rs, s, hx⟩ := hx
  refine ⟨rs, s, hx.serial, hx.nodup, fun i a => ⟨fun hi => ?_, hx.done i a⟩⟩
  by_cases hm : i ∈ rs.map Prod.fst
  · obtain ⟨⟨j, b⟩, hj, rfl⟩ := List.mem_map.mp hm
    have := hx.done j b hj
    rw [hi] at this
    cases this
    exact hj
  by_cases hh : c.holder = some i
  · have := (hx.held i hh).2.2.1
    rw [hi] at this
    cases this
  · have := (hx.waits i hm hh).1
    rw [hi] at this
    cases this

end Framework
