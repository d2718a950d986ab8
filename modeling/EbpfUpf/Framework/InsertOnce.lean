import Mathlib.Algebra.BigOperators.Group.Finset.Piecewise
import Mathlib.Algebra.BigOperators.Ring.Finset
import Mathlib.Algebra.Order.BigOperators.Group.Finset
import EbpfUpf.Framework.System

/-!
# Insert on a miss

Some parties share a table of keys. The call of a party looks its key up: if
the key is there, the call is kept. If not, the party inserts it later on,
with no other call of its own in between; the call is kept if the key is still
missing then, and lost otherwise. A call that needs no key is kept.

However the steps of the parties interleave, a party loses one call at most
for each key, and the one whose call for it was over first made the key and
loses none (`Raced`). So all parties together lose less calls for a key than
they are (`Raced.lost_lt`).
-/

namespace Framework

/-- A call that is over. -/
structure Tried (γ : Type) where
  call : γ
  kept : Bool
  deriving DecidableEq

structure InsertOnce (ι κ γ : Type) where
  keys : Finset κ
  /-- The call that a party is to insert the key for. -/
  pending : ι → Option γ
  /-- The calls that are over, oldest first. -/
  history : List (Tried γ)

namespace InsertOnce

variable {ι κ γ : Type} [DecidableEq ι] [DecidableEq κ] (party : γ → ι) (key : γ → Option κ)

inductive Step : InsertOnce ι κ γ → InsertOnce ι κ γ → Prop
  | free {s : InsertOnce ι κ γ} {c : γ} : key c = none → Step s { s with history := s.history ++ [⟨c, true⟩] }
  | found {s : InsertOnce ι κ γ} {c : γ} {k : κ} : key c = some k → k ∈ s.keys →
    Step s { s with history := s.history ++ [⟨c, true⟩] }
  | missed {s : InsertOnce ι κ γ} {c : γ} {k : κ} : key c = some k → k ∉ s.keys →
    Step s { s with pending := Function.update s.pending (party c) (some c) }
  | inserted {s : InsertOnce ι κ γ} {c : γ} {i : ι} {k : κ} : s.pending i = some c → key c = some k → k ∉ s.keys →
    Step s ⟨insert k s.keys, Function.update s.pending i none, s.history ++ [⟨c, true⟩]⟩
  | refused {s : InsertOnce ι κ γ} {c : γ} {i : ι} {k : κ} : s.pending i = some c → key c = some k → k ∈ s.keys →
    Step s ⟨s.keys, Function.update s.pending i none, s.history ++ [⟨c, false⟩]⟩

/-- The calls for a key that are over. -/
def finished (h : List (Tried γ)) (k : κ) : List (Tried γ) := h.filter fun e => key e.call = some k

/-- The calls for a key that a party has lost. -/
def lostOn (h : List (Tried γ)) (k : κ) (i : ι) : List (Tried γ) :=
  (finished key h k).filter fun e => party e.call = i ∧ ¬ e.kept

/-- A party is to insert the key. -/
def Awaits (s : InsertOnce ι κ γ) (k : κ) (i : ι) : Prop := ∃ c, s.pending i = some c ∧ key c = some k

/-- What holds in every state that is reached from an empty table. -/
structure Raced (s : InsertOnce ι κ γ) : Prop where
  own : ∀ {i c}, s.pending i = some c → party c = i
  unmade : ∀ {k}, k ∉ s.keys → finished key s.history k = []
  /-- The call that made the key, and its party. -/
  creator : ∀ {k}, k ∈ s.keys → ∃ e es, finished key s.history k = e :: es ∧ e.kept ∧
    lostOn party key s.history k (party e.call) = [] ∧ ¬ s.Awaits key k (party e.call)
  once : ∀ {k i}, (lostOn party key s.history k i).length ≤ 1
  /-- A party that has lost a call finds the key from then on. -/
  done : ∀ {k i}, lostOn party key s.history k i ≠ [] → ¬ s.Awaits key k i

variable {party key} {s s' : InsertOnce ι κ γ} {h : List (Tried γ)} {e : Tried γ} {k : κ} {i : ι}

/-! ## One call more -/

theorem finished_snoc : finished key (h ++ [e]) k = finished key h k ++ if key e.call = some k then [e] else [] := by
  simp [finished, List.filter_cons]

theorem finished_snoc_of_ne (hk : key e.call ≠ some k) : finished key (h ++ [e]) k = finished key h k := by
  rw [finished_snoc, if_neg hk, List.append_nil]

theorem lostOn_snoc_of_kept (he : e.kept = true) : lostOn party key (h ++ [e]) k i = lostOn party key h k i := by
  rw [lostOn, finished_snoc, List.filter_append, lostOn]
  split <;> simp [he]

theorem lostOn_snoc_of_ne (hn : key e.call ≠ some k ∨ party e.call ≠ i) :
    lostOn party key (h ++ [e]) k i = lostOn party key h k i := by
  rw [lostOn, finished_snoc, List.filter_append, lostOn]
  split
  · next hk => simp [hn.resolve_left (not_not.mpr hk)]
  · simp

theorem lostOn_snoc_self (hk : key e.call = some k) (hi : party e.call = i) (he : e.kept = false) :
    lostOn party key (h ++ [e]) k i = lostOn party key h k i ++ [e] := by
  rw [lostOn, finished_snoc, List.filter_append, lostOn, if_pos hk]
  simp [hi, he]

theorem finished_snoc_cons {e' : Tried γ} {es : List (Tried γ)} (hf : finished key h k = e' :: es) :
    ∃ es', finished key (h ++ [e]) k = e' :: es' := by
  rw [finished_snoc, hf]
  exact ⟨_, rfl⟩

theorem lostOn_of_unmade (hr : Raced party key s) (hk : k ∉ s.keys) : lostOn party key s.history k i = [] := by
  rw [lostOn, hr.unmade hk]
  rfl

/-! ## Steps -/

/-- A call that is kept at once. -/
theorem Raced.keep (hr : Raced party key s) {c : γ} (hc : ∀ k, key c = some k → k ∈ s.keys) :
    Raced party key { s with history := s.history ++ [⟨c, true⟩] } where
  own := hr.own
  unmade {k} hk := (finished_snoc_of_ne fun h => hk (hc k h)).trans (hr.unmade hk)
  creator hk := by
    obtain ⟨e, es, hf, he, h2, h3⟩ := hr.creator hk
    obtain ⟨es', hf'⟩ := finished_snoc_cons (e := ⟨c, true⟩) hf
    exact ⟨e, es', hf', he, (lostOn_snoc_of_kept rfl).trans h2, h3⟩
  once := (congrArg List.length (lostOn_snoc_of_kept rfl)).trans_le hr.once
  done hl := hr.done (by rwa [lostOn_snoc_of_kept rfl] at hl)

/-- Only a key that nobody has made is awaited. -/
theorem Raced.miss (hr : Raced party key s) {c : γ} (hc : key c = some k) (hk : k ∉ s.keys) :
    Raced party key { s with pending := Function.update s.pending (party c) (some c) } := by
  have haw : ∀ {k' j}, k' ∈ s.keys → ¬ s.Awaits key k' j →
      ¬ Awaits key { s with pending := Function.update s.pending (party c) (some c) } k' j := by
    rintro k' j hk' hn ⟨c', hc', hkey⟩
    by_cases hj : j = party c
    · subst hj
      simp only [Function.update_self, Option.some.injEq] at hc'
      subst hc'
      cases hc.symm.trans hkey
      exact hk hk'
    · simp only [Function.update_of_ne hj] at hc'
      exact hn ⟨c', hc', hkey⟩
  refine ⟨fun {j c'} hj => ?_, hr.unmade, fun hk' => ?_, hr.once, fun {k' j} hl => ?_⟩
  · by_cases hi : j = party c
    · subst hi
      simp only [Function.update_self, Option.some.injEq] at hj
      rw [hj]
    · simp only [Function.update_of_ne hi] at hj
      exact hr.own hj
  · obtain ⟨e, es, hf, he, h2, h3⟩ := hr.creator hk'
    exact ⟨e, es, hf, he, h2, haw hk' h3⟩
  · by_cases hk' : k' ∈ s.keys
    · exact haw hk' (hr.done hl)
    · exact absurd (lostOn_of_unmade hr hk') hl

theorem own_update_none (hr : Raced party key s) {j : ι} {c : γ}
    (hj : Function.update s.pending i none j = some c) : party c = j := by
  have hi : j ≠ i := by
    rintro rfl
    simp at hj
  rw [Function.update_of_ne hi] at hj
  exact hr.own hj

omit [DecidableEq κ] in
/-- A party that is no longer to insert a key awaits none, and the others await what
they did. -/
theorem not_awaits_update {ks : Finset κ} {j : ι} (hn : j ≠ i → ¬ s.Awaits key k j) :
    ¬ Awaits key ⟨ks, Function.update s.pending i none, h⟩ k j := by
  rintro ⟨c, hc, hkey⟩
  by_cases hj : j = i
  · subst hj
    simp at hc
  · simp only [Function.update_of_ne hj] at hc
    exact hn hj ⟨c, hc, hkey⟩

theorem Raced.insert (hr : Raced party key s) {c : γ} (hp : s.pending i = some c) (hc : key c = some k)
    (hk : k ∉ s.keys) :
    Raced party key ⟨Insert.insert k s.keys, Function.update s.pending i none, s.history ++ [⟨c, true⟩]⟩ where
  own := own_update_none hr
  unmade {k'} hk' := by
    obtain ⟨hne, hk'⟩ := not_or.mp (mt Finset.mem_insert.mpr hk')
    refine (finished_snoc_of_ne fun h => hne ?_).trans (hr.unmade hk')
    exact Option.some.inj (h.symm.trans hc)
  creator {k'} hk' := by
    by_cases hkk : k' = k
    · subst hkk
      have hf : finished key (s.history ++ [⟨c, true⟩]) k' = [⟨c, true⟩] := by
        rw [finished_snoc, hr.unmade hk, if_pos hc]
        rfl
      refine ⟨⟨c, true⟩, [], hf, rfl, ?_, not_awaits_update fun h => absurd (hr.own hp) h⟩
      exact (lostOn_snoc_of_kept rfl).trans (lostOn_of_unmade hr hk)
    · obtain ⟨e, es, hf, he, h2, h3⟩ := hr.creator (Finset.mem_of_mem_insert_of_ne hk' hkk)
      obtain ⟨es', hf'⟩ := finished_snoc_cons (e := ⟨c, true⟩) hf
      exact ⟨e, es', hf', he, (lostOn_snoc_of_kept rfl).trans h2, not_awaits_update fun _ => h3⟩
  once := (congrArg List.length (lostOn_snoc_of_kept rfl)).trans_le hr.once
  done hl := not_awaits_update fun _ => hr.done (by rwa [lostOn_snoc_of_kept rfl] at hl)

/-- The party has lost no call for the key before: it would not await it. -/
theorem Raced.refuse (hr : Raced party key s) {c : γ} (hp : s.pending i = some c) (hc : key c = some k)
    (hk : k ∈ s.keys) :
    Raced party key ⟨s.keys, Function.update s.pending i none, s.history ++ [⟨c, false⟩]⟩ := by
  have hi := hr.own hp
  have haw : s.Awaits key k i := ⟨c, hp, hc⟩
  have hn : lostOn party key s.history k i = [] := by
    by_contra hl
    exact hr.done hl haw
  have hother : ∀ {k' j}, k' ≠ k ∨ j ≠ i →
      lostOn party key (s.history ++ [⟨c, false⟩]) k' j = lostOn party key s.history k' j := by
    intro k' j hne
    refine lostOn_snoc_of_ne (hne.imp (fun h h' => h ?_) fun h h' => h (h'.symm.trans hi))
    exact Option.some.inj (h'.symm.trans hc)
  refine ⟨own_update_none hr, fun {k'} hk' => ?_, fun {k'} hk' => ?_, fun {k' j} => ?_, fun {k' j} hl => ?_⟩
  · refine (finished_snoc_of_ne fun h => hk' ?_).trans (hr.unmade hk')
    rwa [Option.some.inj (h.symm.trans hc)]
  · obtain ⟨e, es, hf, he, h2, h3⟩ := hr.creator hk'
    have hne : k' ≠ k ∨ party e.call ≠ i := by
      by_contra hne
      obtain ⟨rfl, hj⟩ : k' = k ∧ party e.call = i := by simpa [not_or] using hne
      exact h3 (hj ▸ haw)
    obtain ⟨es', hf'⟩ := finished_snoc_cons (e := ⟨c, false⟩) hf
    exact ⟨e, es', hf', he, (hother hne).trans h2, not_awaits_update fun _ => h3⟩
  · by_cases hne : k' ≠ k ∨ j ≠ i
    · exact (congrArg List.length (hother hne)).trans_le hr.once
    · obtain ⟨rfl, rfl⟩ := by simpa [not_or] using hne
      rw [lostOn_snoc_self hc hi rfl, hn]
      simp
  · refine not_awaits_update fun hj => hr.done ?_
    rwa [hother (.inr hj)] at hl

theorem Raced.step (hs : Step party key s s') (hr : Raced party key s) : Raced party key s' := by
  cases hs with
  | free hc => exact hr.keep fun k hk => by simp [hc] at hk
  | found hc hk => exact hr.keep fun k' hk' => Option.some.inj (hc.symm.trans hk') ▸ hk
  | missed hc hk => exact hr.miss hc hk
  | inserted hp hc hk => exact hr.insert hp hc hk
  | refused hp hc hk => exact hr.refuse hp hc hk

/-! ## What is lost -/

theorem Raced.finished_eq_nil (hr : Raced party key s) : finished key s.history k = [] ↔ k ∉ s.keys := by
  refine ⟨fun ho hk => ?_, hr.unmade⟩
  obtain ⟨e, es, hf, -⟩ := hr.creator hk
  cases ho.symm.trans hf

/-- A sum over calls, party by party. -/
theorem sum_parties [Fintype ι] (party : γ → ι) (f : Tried γ → Nat) (p : Tried γ → Bool) (es : List (Tried γ)) :
    ∑ i, ((es.filter fun e => party e.call = i ∧ p e).map f).sum = ((es.filter p).map f).sum := by
  induction es with
  | nil => simp
  | cons e es ih =>
    have hcons : ∀ i, (((e :: es).filter fun e => party e.call = i ∧ p e).map f).sum =
        (if party e.call = i then (if p e then f e else 0) else 0) +
          ((es.filter fun e => party e.call = i ∧ p e).map f).sum := by
      intro i
      by_cases hi : party e.call = i <;> by_cases hp : p e = true <;> simp [hi, hp]
    rw [Finset.sum_congr rfl fun i _ => hcons i, Finset.sum_add_distrib, Finset.sum_ite_eq, ih, List.filter_cons]
    by_cases hp : p e = true <;> simp [hp]

theorem length_parties [Fintype ι] (party : γ → ι) (p : Tried γ → Bool) (es : List (Tried γ)) :
    ∑ i, (es.filter fun e => party e.call = i ∧ p e).length = (es.filter p).length := by
  simpa using sum_parties party (fun _ => 1) p es

/-- The kept calls, and those that the parties have lost. -/
theorem length_finished [Fintype ι] (party : γ → ι) (key : γ → Option κ) (h : List (Tried γ)) (k : κ) :
    (finished key h k).length =
      ((finished key h k).filter fun e => e.kept).length + ∑ i, (lostOn party key h k i).length := by
  have hl := length_parties party (fun e => !e.kept) (finished key h k)
  simp only [Bool.not_eq_true'] at hl
  simp only [lostOn, Bool.not_eq_true, hl]
  exact List.length_eq_length_filter_add _

theorem Raced.lost_lt [Fintype ι] (hr : Raced party key s) (ho : finished key s.history k ≠ []) :
    ∑ i, (lostOn party key s.history k i).length < Fintype.card ι := by
  obtain ⟨e, es, -, -, hj, -⟩ := hr.creator (not_not.mp (mt hr.finished_eq_nil.mpr ho))
  calc ∑ i, (lostOn party key s.history k i).length
      < ∑ _i : ι, 1 := Finset.sum_lt_sum (fun i _ => hr.once) ⟨party e.call, Finset.mem_univ _, by simp [hj]⟩
    _ = Fintype.card ι := by simp

end InsertOnce

end Framework
