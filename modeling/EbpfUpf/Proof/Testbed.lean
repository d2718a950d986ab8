import EbpfUpf.Proof.Jobs
import EbpfUpf.Proof.Processes
import EbpfUpf.Proof.Verifier
import EbpfUpf.Proof.WellFormed

/-!
# Runs of the testbed

Each move keeps the maps well formed and each frame within the rules that its
programme was verified against (`Sound`), so that no operation ever touches what
it should not (`frames_in_bounds`). A shared bucket belongs to whoever holds its
lock (`critical_sections`), and a frame that waits for a lock waits for one that
can go on: from any point all frames can be brought to their end
(`frames_finish`).
-/

open Framework

namespace UPF

namespace Testbed

variable {S S' : Testbed} {i j : Nat} {p : InFlight} {o : Op Ptr}

/-! ## Moves -/

theorem step_sys {j : Nat} (h : S.step (.sys j) = some S') : ∃ o k r maps, S.processes[j]? = some (.ask o k) ∧
    UPF.sys o S.maps = some (r, maps) ∧
    S' = { S with maps, processes := S.processes.set j (k r), hist := S.hist ++ [.sys j o r] } := by
  simp only [step] at h
  split at h
  · next o k hj =>
    obtain ⟨⟨r, maps⟩, e, rfl⟩ := Option.map_eq_some_iff.mp h
    exact ⟨o, k, r, maps, hj, e, rfl⟩
  · cases h

/-- The state after frame `i`, which is `p`, has performed `o` with the answer `r`. -/
def performed (S : Testbed) (i : Nat) (p : InFlight) (o : Op Ptr) (r : Op.Ans o) (x : Machine)
    (prog : Bpf Ptr Int) : Testbed :=
  { S with maps := x.maps, frames := S.frames.set i (p.next x prog), holder := holds S.holder i o,
           hist := S.hist ++ [.op i o r] }

theorem step_op (h : S.step (.op i) = some S') : ∃ p o k r x, S.frames[i]? = some p ∧ p.prog = .ask o k ∧
    S.waits o = false ∧ kernel p.H o (p.machine S.maps) = some (r, x) ∧ S' = S.performed i p o r x (k r) := by
  simp only [step] at h
  split at h
  · cases h
  next p hi =>
  split at h
  · cases h
  next o k hp =>
  split at h
  · cases h
  next hw =>
  obtain ⟨⟨r, x⟩, e, rfl⟩ := Option.map_eq_some_iff.mp h
  exact ⟨p, o, k, r, x, hi, hp, Bool.eq_false_of_not_eq_true hw, e, rfl⟩

theorem op_step {k : Op.Ans o → Bpf Ptr Int} {r : Op.Ans o} {x : Machine} (hi : S.frames[i]? = some p)
    (hp : p.prog = .ask o k) (hw : S.waits o = false) (e : kernel p.H o (p.machine S.maps) = some (r, x)) :
    S.step (.op i) = some (S.performed i p o r x (k r)) := by
  simp only [step, hi, hp, hw, e]
  rfl

/-! ## The invariant -/

/-- What is known of frame `i` is so, and its programme keeps to the rules from here. -/
structure Fits (K : Known) (S : Testbed) (i : Nat) (p : InFlight) : Prop where
  tracks : Tracks K (p.machine S.maps)
  lock : ∀ q, K.lock = some q ↔ S.holder q = some i
  rest : Obeys verifier Unlocked K p.prog

structure Sound (S : Testbed) : Prop where
  maps : S.maps.WellFormed
  processes : ∀ t ∈ S.processes, t.Asks Sized
  frames : ∀ i p, S.frames[i]? = some p → ∃ K, Fits K S i p
  holder : ∀ q i, S.holder q = some i → i < S.frames.length

theorem start_sound {maps : Maps} (h : maps.WellFormed) : (start maps).Sound where
  maps := h
  processes t ht := absurd ht List.not_mem_nil
  frames i p hi := by simp [start] at hi
  holder q i hq := by cases hq

/-- The maps are changed by others. -/
theorem Fits.env {K : Known} (h : Fits K S i p) {maps : Maps} (hs : maps.WellFormed) (hl : Lasting S.maps maps) :
    Tracks K (p.machine maps) := h.tracks.env hs hl

/-- What the rules allow a frame to do touches nothing that it should not. -/
theorem Fits.in_bounds {K : Known} (h : Fits K S i p) (ha : K.Allowed o) : S.InBounds i p o := by
  have there : ∀ {q : Ptr} {off n : Nat}, K.Valid q off n → S.There i p q off n :=
    fun hv => ⟨h.tracks.valid hv, fun hm => (h.lock _).mp (hv.2.2 hm)⟩
  cases o with
  | load off n => exact h.tracks.within ha
  | store off val => exact h.tracks.within ha
  | read q off n => exact there ha
  | write q off n v => exact ⟨ha.1, there ha.2⟩
  | create m key val => exact ha.2.2
  | _ => trivial

/-- The rules of the locks: who takes one holds none, and only who holds one gives it back. -/
theorem holds_other {K : Known} (hl : ∀ q, K.lock = some q ↔ S.holder q = some i) (ha : K.Allowed o)
    (hw : S.waits o = false) {j : Nat} (hj : j ≠ i) (q : Ptr) :
    holds S.holder i o q = some j ↔ S.holder q = some j := by
  have hne : i ≠ j := hj.symm
  cases o with
  | spin_lock q' =>
    simp only [waits, Option.isSome_eq_false_iff, Option.isNone_iff_eq_none] at hw
    by_cases hq : q = q'
    · subst hq
      simp [holds, hw, hne]
    · simp [holds, hq]
  | spin_unlock q' =>
    by_cases hq : q = q'
    · subst hq
      simp [holds, (hl q).mp ha, hne]
    · simp [holds, hq]
  | _ => exact Iff.rfl

theorem holds_self {K : Known} (hl : ∀ q, K.lock = some q ↔ S.holder q = some i) (ha : K.Allowed o)
    {r : Op.Ans o} (q : Ptr) : (K.next o r).lock = some q ↔ holds S.holder i o q = some i := by
  cases o with
  | spin_lock q' =>
    by_cases hq : q = q'
    · subst hq
      simp [holds, Known.next]
    · have : S.holder q ≠ some i := fun h => by
        have := (hl q).mpr h
        rw [show K.lock = none from ha.1] at this
        cases this
      simp [holds, Known.next, hq, this, Ne.symm hq]
  | spin_unlock q' =>
    by_cases hq : q = q'
    · subst hq
      simp [holds, Known.next]
    · have : S.holder q ≠ some i := fun h => by
        have := (hl q).mpr h
        rw [show K.lock = some q' from ha] at this
        exact hq (Option.some.inj this).symm
      simp [holds, Known.next, hq, this]
  | _ => exact hl q

theorem holds_cases {holder : Ptr → Option Nat} {q : Ptr} (h : holds holder i o q = some j) :
    j = i ∨ holder q = some j := by
  cases o with
  | spin_lock q' =>
    by_cases hq : q = q'
    · subst hq
      simp only [holds, Function.update_self, Option.some.injEq] at h
      exact .inl h.symm
    · exact .inr (by simpa [holds, hq] using h)
  | spin_unlock q' =>
    by_cases hq : q = q'
    · subst hq
      simp [holds] at h
    · exact .inr (by simpa [holds, hq] using h)
  | _ => exact .inr h

/-- Moves of the processes, and of the kernel on its own. -/
theorem Sound.others (h : S.Sound) {maps : Maps} (hm : maps.WellFormed) (hl : Lasting S.maps maps)
    {processes : List (Prog SysOps Int)} (hp : ∀ t ∈ processes, t.Asks Sized) (hist : List Happening) :
    Sound ⟨maps, processes, S.frames, S.holder, hist⟩ where
  maps := hm
  processes := hp
  frames i p hi := by
    obtain ⟨K, hf⟩ := h.frames i p hi
    exact ⟨K, hf.env hm hl, hf.lock, hf.rest⟩
  holder := h.holder

/-- One operation of a frame that is sound. -/
theorem Sound.op (h : S.Sound) (hi : S.frames[i]? = some p) {k : Op.Ans o → Bpf Ptr Int} (hp : p.prog = .ask o k)
    (hw : S.waits o = false) {r : Op.Ans o} {x : Machine} (e : kernel p.H o (p.machine S.maps) = some (r, x)) :
    (S.performed i p o r x (k r)).Sound := by
  obtain ⟨K, hf⟩ := h.frames i p hi
  obtain ⟨ha, hk⟩ := hp ▸ hf.rest
  obtain ⟨r', x', e', hr, ht, hl⟩ := kernel_answers p.H hf.tracks ha
  cases e.symm.trans e'
  have hlt : i < S.frames.length := (List.getElem?_eq_some_iff.mp hi).1
  refine ⟨ht.maps, h.processes, fun j p' hj => ?_, fun q j hq => ?_⟩
  · by_cases hij : i = j
    · subst hij
      simp only [performed, List.getElem?_set_self hlt, Option.some.injEq] at hj
      subst hj
      have hx : (p.next x (k r)).machine x.maps = x := by
        obtain ⟨maps, cpu, frame, ticks⟩ := x
        have : cpu = p.cpu := (kernel_keeps e).cpu
        rw [this]
        rfl
      refine ⟨K.next o r, ?_, fun q => holds_self hf.lock ha q, hk r hr⟩
      show Tracks _ ((p.next x (k r)).machine x.maps)
      rwa [hx]
    · simp only [performed, List.getElem?_set_ne hij] at hj
      obtain ⟨K', hf'⟩ := h.frames j p' hj
      exact ⟨K', hf'.env ht.maps hl,
        fun q => (hf'.lock q).trans (holds_other hf.lock ha hw (Ne.symm hij) q).symm, hf'.rest⟩
  · simp only [performed, List.length_set]
    rcases holds_cases hq with rfl | hq
    · exact hlt
    · exact h.holder q j hq

theorem step_sound {mv : Move} (hm : ∀ t, mv = .exec t → t.Asks Sized) (h : S.Sound) (hs : S.step mv = some S') :
    S'.Sound := by
  cases mv with
  | exec t =>
    cases hs
    refine h.others h.maps (fun _ _ hk => hk) (fun t' ht => ?_) S.hist
    rcases List.mem_append.mp ht with ht | ht
    · exact h.processes t' ht
    · rw [List.mem_singleton.mp ht]
      exact hm t rfl
  | sys j =>
    obtain ⟨o, k, r, maps, hj, e, rfl⟩ := step_sys hs
    have ha : (Prog.ask o k).Asks Sized := h.processes _ (List.mem_of_getElem? hj)
    refine h.others (sys_wellFormed e ha.1 h.maps) (.of_eq (sys_percpu e).1) (fun t ht => ?_) _
    rcases List.mem_or_eq_of_mem_set ht with ht | rfl
    · exact h.processes t ht
    · exact ha.2 r
  | evict teid =>
    cases hs
    exact h.others (h.maps.drop _ _) (.of_eq rfl) h.processes _
  | arrive programme H cpu wire =>
    cases hs
    refine ⟨h.maps, h.processes, fun i p hi => ?_, fun q i hq => ?_⟩
    · rcases Nat.lt_trichotomy i S.frames.length with hlt | rfl | hgt
      · rw [List.getElem?_append_left hlt] at hi
        obtain ⟨K, hf⟩ := h.frames i p hi
        exact ⟨K, hf.tracks, hf.lock, hf.rest⟩
      · rw [List.getElem?_concat_length] at hi
        cases hi
        refine ⟨.start, .start h.maps _ _ _, fun q => iff_of_false (fun hq => by cases hq) fun hq => ?_,
          programme_verified programme⟩
        exact lt_irrefl _ (h.holder q _ hq)
      · rw [List.getElem?_eq_none (by rw [List.length_append]; exact hgt)] at hi
        cases hi
    · rw [List.length_append]
      have := h.holder q i hq
      omega
  | op i =>
    obtain ⟨p, o, k, r, x, hi, hp, hw, e, rfl⟩ := step_op hs
    exact h.op hi hp hw e

theorem run_sound {ms : List Move} (hs : S.Sound) (hm : AllSized ms) (h : exec step S ms = some S') : S'.Sound := by
  refine exec_invariant (P := fun _ mv => ∀ t, mv = .exec t → t.Asks Sized)
    (fun hm hi hs => step_sound hm hi hs) (along_of_forall (fun mv hmv S t ht => ?_) S) h hs
  subst ht
  exact hm t hmv

/-! ## Locks -/

/-- Who holds the lock behind `q`, by what happened. -/
def holderStep (q : Ptr) : Option Nat → Happening → Option Nat
  | h, .op i (.spin_lock q') _ => if q' = q then some i else h
  | h, .op _ (.spin_unlock q') _ => if q' = q then none else h
  | h, _ => h

def holderIn (hist : List Happening) (q : Ptr) : Option Nat := hist.foldl (holderStep q) none

theorem holderIn_snoc (hist : List Happening) (e : Happening) (q : Ptr) :
    holderIn (hist ++ [e]) q = holderStep q (holderIn hist q) e := by
  rw [holderIn, List.foldl_append]
  rfl

theorem holderStep_op (q : Ptr) (holder : Ptr → Option Nat) (i : Nat) (o : Op Ptr) (r : Op.Ans o) :
    holderStep q (holder q) (.op i o r) = holds holder i o q := by
  cases o with
  | spin_lock q' | spin_unlock q' =>
    by_cases hq : q' = q
    · subst hq
      simp [holderStep, holds]
    · simp [holderStep, holds, hq, Ne.symm hq]
  | _ => rfl

/-- What an operation of frame `i` on a lock, or on what it protects, comes after. -/
def LockRule (pre : List Happening) (i : Nat) : Op Ptr → Prop
  | .read q _ _ | .write q _ _ _ => q.map = .qer_state_shared → holderIn pre q = some i
  | .spin_lock q => q.map = .qer_state_shared ∧ holderIn pre q = none
  | .spin_unlock q => holderIn pre q = some i
  | _ => True

def Orderly (pre : List Happening) (e : Happening) : Prop := ∀ i o r, e = .op i o r → LockRule pre i o

/-- The locks are held by those who took them, each in its turn. -/
structure LocksKept (S : Testbed) : Prop where
  holder : S.holder = holderIn S.hist
  past : AtEach Orderly S.hist

theorem Fits.lockRule {K : Known} (h : Fits K S i p) (ha : K.Allowed o) (hw : S.waits o = false)
    (hl : S.holder = holderIn S.hist) : LockRule S.hist i o := by
  have there : ∀ {q : Ptr} {off n : Nat}, K.Valid q off n → q.map = .qer_state_shared →
      holderIn S.hist q = some i := fun hv hm => hl ▸ (h.lock _).mp (hv.2.2 hm)
  cases o with
  | read q off n => exact there ha
  | write q off n v => exact there ha.2
  | spin_lock q =>
    simp only [waits, Option.isSome_eq_false_iff, Option.isNone_iff_eq_none] at hw
    exact ⟨ha.2.2, hl ▸ hw⟩
  | spin_unlock q =>
    show holderIn S.hist q = some i
    rw [← hl]
    exact (h.lock q).mp ha
  | _ => trivial

theorem LocksKept.other (h : S.LocksKept) {e : Happening} (he : ∀ i o r, e ≠ .op i o r) :
    AtEach Orderly (S.hist ++ [e]) ∧ S.holder = holderIn (S.hist ++ [e]) := by
  refine ⟨atEach_snoc.mpr ⟨h.past, fun i o r hi => absurd hi (he i o r)⟩, funext fun q => ?_⟩
  rw [holderIn_snoc, h.holder]
  cases e with
  | op i o r => exact absurd rfl (he i o r)
  | _ => rfl

theorem step_locks {mv : Move} (hs : S.step mv = some S') (hi : S.Sound) (h : S.LocksKept) : S'.LocksKept := by
  cases mv with
  | exec t =>
    cases hs
    exact ⟨h.holder, h.past⟩
  | sys j =>
    obtain ⟨o, k, r, maps, hj, e, rfl⟩ := step_sys hs
    obtain ⟨hp, hl⟩ := h.other (e := .sys j o r) fun _ _ _ => by simp
    exact ⟨hl, hp⟩
  | evict teid =>
    cases hs
    obtain ⟨hp, hl⟩ := h.other (e := .evict teid) fun _ _ _ => by simp
    exact ⟨hl, hp⟩
  | arrive programme H cpu wire =>
    cases hs
    exact ⟨h.holder, h.past⟩
  | op i =>
    obtain ⟨p, o, k, r, x, hf, hp, hw, e, rfl⟩ := step_op hs
    obtain ⟨K, hK⟩ := hi.frames i p hf
    have hr := hK.rest
    rw [hp] at hr
    refine ⟨funext fun q => ?_, atEach_snoc.mpr ⟨h.past, fun i' o' r' he => ?_⟩⟩
    · show holds S.holder i o q = holderIn (S.hist ++ [.op i o r]) q
      rw [holderIn_snoc, ← h.holder, holderStep_op]
    · cases he
      exact hK.lockRule hr.1 hw h.holder

theorem run_locks {maps : Maps} {ms : List Move} (hm : maps.WellFormed) (ha : AllSized ms)
    (h : exec step (.start maps) ms = some S) : S.LocksKept := by
  refine (exec_invariant (J := fun S => S.Sound ∧ S.LocksKept) (P := fun _ mv => ∀ t, mv = .exec t → t.Asks Sized)
    (fun hm hi hs => ⟨step_sound hm hi.1 hs, step_locks hs hi.1 hi.2⟩)
    (along_of_forall (fun mv hmv S t ht => ?_) _) h ⟨start_sound hm, rfl, atEach_nil⟩).2
  subst ht
  exact ha t hmv

/-- A lock stays with its holder until that gives it back. -/
theorem held_until {pre mid : List Happening} {q : Ptr} (ho : AtEach Orderly (pre ++ mid))
    (hq : holderIn pre q = some i) (hn : .op i (.spin_unlock q) () ∉ mid) : holderIn (pre ++ mid) q = some i := by
  induction mid using List.reverseRecOn with
  | nil => rwa [List.append_nil]
  | append_singleton mid e ih =>
    rw [← List.append_assoc] at ho ⊢
    obtain ⟨ho, he⟩ := atEach_snoc.mp ho
    simp only [List.mem_append, List.mem_singleton, not_or] at hn
    have hq := ih ho hn.1
    rw [holderIn_snoc, hq]
    cases e with
    | op j o r =>
      have hr := he j o r rfl
      cases o with
      | spin_lock q' =>
        by_cases h : q' = q
        · subst h
          rw [hr.2] at hq
          cases hq
        · simp only [holderStep, h, ite_false]
      | spin_unlock q' =>
        by_cases h : q' = q
        · subst h
          rw [show holderIn (pre ++ mid) q' = some j from hr] at hq
          cases hq
          exact absurd rfl hn.2
        · simp only [holderStep, h, ite_false]
      | _ => rfl
    | _ => rfl

/-! ## To the end -/

/-- `S'` comes after operations of the frames alone. -/
def Goes (S S' : Testbed) : Prop := ∃ is : List Nat, exec step S (is.map .op) = some S'

theorem Goes.refl (S : Testbed) : Goes S S := ⟨[], rfl⟩

theorem Goes.trans {S₁ S₂ S₃ : Testbed} (h : Goes S₁ S₂) (h' : Goes S₂ S₃) : Goes S₁ S₃ := by
  obtain ⟨is, h⟩ := h
  obtain ⟨js, h'⟩ := h'
  exact ⟨is ++ js, by rw [List.map_append]; exact exec_append.mpr ⟨_, h, h'⟩⟩

theorem Goes.of_step (h : S.step (.op i) = some S') : Goes S S' := ⟨[i], exec_cons.mpr ⟨S', h, rfl⟩⟩

/-- A frame that need not wait goes on. -/
theorem goes_on (h : S.Sound) (hi : S.frames[i]? = some p) {k : Op.Ans o → Bpf Ptr Int} (hp : p.prog = .ask o k)
    (hw : S.waits o = false) : ∃ r p' S', S.step (.op i) = some S' ∧ S'.Sound ∧ p'.prog = k r ∧
      S'.frames = S.frames.set i p' ∧ S'.holder = holds S.holder i o := by
  obtain ⟨K, hf⟩ := h.frames i p hi
  obtain ⟨ha, -⟩ := hp ▸ hf.rest
  obtain ⟨r, x, e, -⟩ := kernel_answers p.H hf.tracks ha
  exact ⟨r, p.next x (k r), _, op_step hi hp hw e, h.op hi hp hw e, rfl, rfl, rfl⟩

theorem set_get {p' : InFlight} (hi : S.frames[i]? = some p) : (S.frames.set i p')[i]? = some p' :=
  List.getElem?_set_self (List.getElem?_eq_some_iff.mp hi).1

/-- A frame that holds a lock can go on until it has given it back. -/
theorem gives_back (h : S.Sound) (hi : S.frames[i]? = some p) {q : Ptr} (hq : S.holder q = some i) :
    ∃ S', Goes S S' ∧ S'.Sound ∧ S'.frames.length = S.frames.length ∧
      ∀ q j, S'.holder q = some j ↔ j ≠ i ∧ S.holder q = some j := by
  generalize hg : p.prog = g
  induction g generalizing S p q with
  | ret v =>
    obtain ⟨K, hf⟩ := h.frames i p hi
    have hu := hf.rest
    rw [hg] at hu
    have := (hf.lock q).mpr hq
    rw [show K.lock = none from hu] at this
    cases this
  | ask o k ih =>
    obtain ⟨K, hf⟩ := h.frames i p hi
    have hl := (hf.lock q).mpr hq
    obtain ⟨ha, -⟩ := hg ▸ hf.rest
    have hw : S.waits o = false := by
      cases o with
      | spin_lock q' =>
        rw [show K.lock = none from ha.1] at hl
        cases hl
      | _ => rfl
    obtain ⟨r, p', S', hs, hS, hp', hfr, hh⟩ := goes_on h hi hg hw
    have other : ∀ {q' j}, j ≠ i → (S'.holder q' = some j ↔ S.holder q' = some j) := fun hj => by
      rw [hh]
      exact holds_other hf.lock ha hw hj _
    by_cases hm : ∃ q', S'.holder q' = some i
    · obtain ⟨q', hq'⟩ := hm
      obtain ⟨S'', hgo, hS'', hlen, hrest⟩ := ih r hS (by rw [hfr]; exact set_get hi) hq' hp'
      refine ⟨S'', (Goes.of_step hs).trans hgo, hS'', by rw [hlen, hfr, List.length_set], fun q'' j => ?_⟩
      rw [hrest q'' j]
      exact and_congr_right fun hj => other hj
    · refine ⟨S', .of_step hs, hS, by rw [hfr, List.length_set], fun q' j => ?_⟩
      by_cases hj : j = i
      · subst hj
        exact iff_of_false (fun h' => hm ⟨q', h'⟩) fun h' => h'.1 rfl
      · rw [other hj]
        exact (and_iff_right hj).symm

/-- Once nobody else holds a lock, a frame can go on to its verdict. -/
theorem goes_to_verdict (h : S.Sound) (hi : S.frames[i]? = some p) (hl : ∀ q j, S.holder q = some j → j = i) :
    ∃ p' v S', Goes S S' ∧ S'.Sound ∧ p'.prog = .ret v ∧ S'.frames = S.frames.set i p' ∧ ∀ q, S'.holder q = none := by
  generalize hg : p.prog = g
  induction g generalizing S p with
  | ret v =>
    obtain ⟨hlt, hget⟩ := List.getElem?_eq_some_iff.mp hi
    refine ⟨p, v, S, .refl S, h, hg, by rw [← hget, List.set_getElem_self], fun q => ?_⟩
    obtain ⟨K, hf⟩ := h.frames i p hi
    have hu : K.lock = none := by
      have hu := hf.rest
      rw [hg] at hu
      exact hu
    cases hq : S.holder q with
    | none => rfl
    | some j =>
      have := hl q j hq
      subst this
      rw [← hf.lock, hu] at hq
      cases hq
  | ask o k ih =>
    obtain ⟨K, hf⟩ := h.frames i p hi
    obtain ⟨ha, -⟩ := hg ▸ hf.rest
    have hw : S.waits o = false := by
      cases o with
      | spin_lock q =>
        cases hq : S.holder q with
        | none => simp [waits, hq]
        | some j =>
          have := hl q j hq
          subst this
          rw [← hf.lock, show K.lock = none from ha.1] at hq
          cases hq
      | _ => rfl
    obtain ⟨r, p', S', hs, hS, hp', hfr, hh⟩ := goes_on h hi hg hw
    have alone : ∀ q j, S'.holder q = some j → j = i := fun q j hq => by
      rw [hh] at hq
      exact (holds_cases hq).elim id (hl q j)
    obtain ⟨p'', v, S'', hgo, hS'', hv, hfr', hn⟩ := ih r hS (by rw [hfr]; exact set_get hi) alone hp'
    exact ⟨p'', v, S'', (Goes.of_step hs).trans hgo, hS'', hv, by rw [hfr', hfr, List.set_set], hn⟩

/-- The locks held by the first `n` frames can be given back. -/
theorem frees (h : S.Sound) (n : Nat) : ∃ S', Goes S S' ∧ S'.Sound ∧ S'.frames.length = S.frames.length ∧
    ∀ q j, S'.holder q = some j → n ≤ j := by
  induction n with
  | zero => exact ⟨S, .refl S, h, rfl, fun _ _ _ => Nat.zero_le _⟩
  | succ n ih =>
    obtain ⟨S₁, hgo, hS, hlen, hn⟩ := ih
    by_cases hq : ∃ q, S₁.holder q = some n
    · obtain ⟨q, hq⟩ := hq
      obtain ⟨S₂, hgo', hS', hlen', hh⟩ := gives_back hS (List.getElem?_eq_getElem (hS.holder q n hq)) hq
      refine ⟨S₂, hgo.trans hgo', hS', hlen'.trans hlen, fun q j hj => ?_⟩
      obtain ⟨hne, hj⟩ := (hh q j).mp hj
      have := hn q j hj
      omega
    · refine ⟨S₁, hgo, hS, hlen, fun q j hj => ?_⟩
      have := hn q j hj
      have : j ≠ n := fun e => hq ⟨q, e ▸ hj⟩
      omega

/-- The first `n` frames can be brought to their end. -/
theorem finishes (h : S.Sound) (hl : ∀ q, S.holder q = none) {n : Nat} (hn : n ≤ S.frames.length) :
    ∃ S', Goes S S' ∧ S'.Sound ∧ (∀ q, S'.holder q = none) ∧ S'.frames.length = S.frames.length ∧
      ∀ i p, i < n → S'.frames[i]? = some p → ∃ v, p.prog = .ret v := by
  induction n with
  | zero => exact ⟨S, .refl S, h, hl, rfl, fun i p hi => absurd hi (Nat.not_lt_zero i)⟩
  | succ n ih =>
    obtain ⟨S₁, hgo, hS, hl₁, hlen, hd⟩ := ih (Nat.le_of_succ_le hn)
    have hlt : n < S₁.frames.length := by omega
    obtain ⟨p', v, S₂, hgo', hS', hv, hfr, hl₂⟩ :=
      goes_to_verdict hS (List.getElem?_eq_getElem hlt) fun q j hq => by rw [hl₁ q] at hq; cases hq
    refine ⟨S₂, hgo.trans hgo', hS', hl₂, by rw [hfr, List.length_set, hlen], fun i p hi hp => ?_⟩
    rw [hfr] at hp
    by_cases he : n = i
    · subst he
      rw [List.getElem?_set_self hlt] at hp
      cases hp
      exact ⟨v, hv⟩
    · rw [List.getElem?_set_ne he] at hp
      exact hd i p (by omega) hp

/-! ## System calls -/

theorem step_sized {mv : Move} (hs : S.step mv = some S') (hm : ∀ t, mv = .exec t → t.Asks Sized)
    (h : (∀ t ∈ S.processes, t.Asks Sized) ∧ CallsSized S.hist) :
    (∀ t ∈ S'.processes, t.Asks Sized) ∧ CallsSized S'.hist := by
  obtain ⟨hp, hh⟩ := h
  have other : ∀ {e : Happening}, (∀ j o r, e ≠ .sys j o r) → CallsSized (S.hist ++ [e]) := by
    intro e he j o r hm
    rcases List.mem_append.mp hm with hm | hm
    · exact hh hm
    · exact absurd (List.mem_singleton.mp hm).symm (he j o r)
  cases mv with
  | exec t =>
    cases hs
    refine ⟨fun t' ht => ?_, hh⟩
    rcases List.mem_append.mp ht with ht | ht
    · exact hp t' ht
    · rw [List.mem_singleton.mp ht]
      exact hm t rfl
  | sys j =>
    obtain ⟨o, k, r, maps, hj, -, rfl⟩ := step_sys hs
    have ha : (Prog.ask o k).Asks Sized := hp _ (List.mem_of_getElem? hj)
    refine ⟨fun t ht => ?_, fun {j' o' r'} he => ?_⟩
    · rcases List.mem_or_eq_of_mem_set ht with ht | rfl
      · exact hp t ht
      · exact ha.2 r
    · rcases List.mem_append.mp he with he | he
      · exact hh he
      · cases List.mem_singleton.mp he
        exact ha.1
  | evict teid =>
    cases hs
    exact ⟨hp, other fun _ _ _ => by simp⟩
  | arrive programme H cpu wire =>
    cases hs
    exact ⟨hp, hh⟩
  | op i =>
    obtain ⟨p, o, k, r, x, -, -, -, -, rfl⟩ := step_op hs
    exact ⟨hp, other fun _ _ _ => by simp⟩

/-- The contention experiment is set up for one flow, and two frames of it arrive: the
first has performed `n` operations when the second performs `m`. -/
def contention (n m : Nat) : List Move :=
  .exec (Process.qer_contention_set_up 1 8000 1000 2).prog :: List.replicate 5 (.sys 0) ++
  [.arrive (.ingress ⟨true, true, true⟩) willing 0 (gpduFrame 0x7000),
    .arrive (.ingress ⟨true, true, true⟩) willing 1 (gpduFrame 0x7000)] ++
  List.replicate n (.op 0) ++ List.replicate m (.op 1)

theorem contention_processes (n m : Nat) : OfProcesses (contention n m) := by
  intro t ht
  refine ⟨.qer_contention_set_up 1 8000 1000 2, ?_⟩
  simpa [contention, List.mem_replicate] using ht

end Testbed

/-- No process may hand over a buffer of the wrong size, whatever it is answered, and so the kernel
is never handed one. -/
theorem syscalls_sized {maps : Maps} {ms : List Testbed.Move} {S : Testbed} (hp : Testbed.OfProcesses ms)
    (h : exec Testbed.step (.start maps) ms = some S) : (∀ p : Process, p.prog.Asks Sized) ∧ CallsSized S.hist := by
  refine ⟨process_sized, ?_⟩
  refine (exec_invariant (P := fun _ mv => ∀ t, mv = .exec t → t.Asks Sized)
    (fun hm hi hs => Testbed.step_sized hs hm hi) (along_of_forall (fun mv hmv S t ht => ?_) _) h ⟨?_, ?_⟩).2
  · subst ht
    exact hp.allSized t hmv
  · exact fun t ht => absurd ht List.not_mem_nil
  · exact fun he => absurd he List.not_mem_nil

theorem syscalls_sized_contention : ∃ S, exec Testbed.step (.start .empty) (Testbed.contention 0 0) = some S ∧
    S.hist.length = 5 ∧ CallsSized S.hist := by
  obtain ⟨S, h⟩ := Option.isSome_iff_exists.mp
    (show (exec Testbed.step (.start .empty) (Testbed.contention 0 0)).isSome = true by decide +kernel)
  have hl : (exec Testbed.step (.start .empty) (Testbed.contention 0 0)).map (fun S => S.hist.length) = some 5 := by
    decide +kernel
  rw [h] at hl
  exact ⟨S, h, Option.some.inj hl, (syscalls_sized (Testbed.contention_processes 0 0) h).2⟩

/-- On the testbed the maps stay well formed, and whatever a frame is about to do
stays in bounds. -/
theorem frames_in_bounds {maps : Maps} {ms : List Testbed.Move} {S : Testbed} (hm : maps.WellFormed)
    (ha : Testbed.AllSized ms) (h : exec Testbed.step (.start maps) ms = some S) : S.maps.WellFormed ∧
      ∀ i p o k, S.frames[i]? = some p → p.prog = .ask o k → S.InBounds i p o := by
  have hs := Testbed.run_sound (Testbed.start_sound hm) ha h
  refine ⟨hs.maps, fun i p o k hi hp => ?_⟩
  obtain ⟨K, hf⟩ := hs.frames i p hi
  have hr := hf.rest
  rw [hp] at hr
  exact hf.in_bounds hr.1

/-- The second frame waits for the lock that the first one holds. -/
theorem frames_in_bounds_waiting : ∃ S, exec Testbed.step (.start .empty) (Testbed.contention 30 28) = some S ∧
    S.maps.WellFormed ∧ ∀ i p o k, S.frames[i]? = some p → p.prog = .ask o k → S.InBounds i p o := by
  obtain ⟨S, h⟩ := Option.isSome_iff_exists.mp
    (show (exec Testbed.step (.start .empty) (Testbed.contention 30 28)).isSome = true by decide +kernel)
  exact ⟨S, h, frames_in_bounds .empty (Testbed.contention_processes 30 28).allSized h⟩

/-- Nobody uses a bucket while another frame holds its lock. -/
theorem critical_sections {maps : Maps} {ms : List Testbed.Move} {S : Testbed} (hm : maps.WellFormed)
    (ha : Testbed.AllSized ms) (h : exec Testbed.step (.start maps) ms = some S) : Exclusive S.hist := by
  intro pre mid post i j q o r hh hu hj
  have hp := (Testbed.run_locks hm ha h).past
  by_contra hn
  have hl : Testbed.LockRule pre i (.spin_lock q) := hp pre _ (mid ++ .op j o r :: post) (by simp [hh]) i _ () rfl
  have ho : Testbed.LockRule (pre ++ [.op i (.spin_lock q) ()] ++ mid) j o := hp _ _ post (by simp [hh]) j o r rfl
  have hq : Testbed.holderIn (pre ++ [.op i (.spin_lock q) ()] ++ mid) q = some i := by
    refine Testbed.held_until (fun pre' e post' he => hp pre' e (post' ++ .op j o r :: post) ?_) ?_ hn
    · rw [hh]
      simpa using congrArg (· ++ .op j o r :: post) he
    · rw [Testbed.holderIn_snoc]
      simp [Testbed.holderStep]
  have hne : some i ≠ some j := fun h => hj (Option.some.inj h).symm
  cases o with
  | read q' off n =>
    cases hu
    exact hne (hq.symm.trans (ho hl.1))
  | write q' off n v =>
    cases hu
    exact hne (hq.symm.trans (ho hl.1))
  | spin_lock q' =>
    cases hu
    rw [ho.2] at hq
    cases hq
  | _ => exact hu

/-- Both frames take the lock, one after the other. -/
theorem critical_sections_two : ∃ S, exec Testbed.step (.start .empty) (Testbed.contention 46 52) = some S ∧
    Exclusive S.hist := by
  obtain ⟨S, h⟩ := Option.isSome_iff_exists.mp
    (show (exec Testbed.step (.start .empty) (Testbed.contention 46 52)).isSome = true by decide +kernel)
  exact ⟨S, h, critical_sections .empty (Testbed.contention_processes 46 52).allSized h⟩

/-- From whatever point, the frames alone can all be brought to their verdicts. -/
theorem frames_finish {maps : Maps} {ms : List Testbed.Move} {S : Testbed} (hm : maps.WellFormed)
    (ha : Testbed.AllSized ms) (h : exec Testbed.step (.start maps) ms = some S) : ∃ (is : List Nat) (S' : Testbed),
      exec Testbed.step S (is.map .op) = some S' ∧ S'.frames.length = S.frames.length ∧
      ∀ p ∈ S'.frames, ∃ v, p.prog = .ret v := by
  have hs := Testbed.run_sound (Testbed.start_sound hm) ha h
  obtain ⟨S₁, hgo, hs₁, hlen, hn⟩ := Testbed.frees hs S.frames.length
  have hl : ∀ q, S₁.holder q = none := fun q => by
    cases hq : S₁.holder q with
    | none => rfl
    | some j =>
      have := hs₁.holder q j hq
      have := hn q j hq
      omega
  obtain ⟨S₂, hgo', hs₂, -, hlen', hd⟩ := Testbed.finishes hs₁ hl le_rfl
  obtain ⟨is, he⟩ := hgo.trans hgo'
  refine ⟨is, S₂, he, hlen'.trans hlen, fun p hp => ?_⟩
  obtain ⟨i, hi⟩ := List.mem_iff_getElem?.mp hp
  exact hd i p (by have := (List.getElem?_eq_some_iff.mp hi).1; omega) hi

/-- The second frame waits for the lock that the first one holds. -/
theorem frames_finish_waiting : ∃ S, exec Testbed.step (.start .empty) (Testbed.contention 30 28) = some S ∧
    ∃ (is : List Nat) (S' : Testbed), exec Testbed.step S (is.map .op) = some S' ∧
      S'.frames.length = S.frames.length ∧ ∀ p ∈ S'.frames, ∃ v, p.prog = .ret v := by
  obtain ⟨S, h⟩ := Option.isSome_iff_exists.mp
    (show (exec Testbed.step (.start .empty) (Testbed.contention 30 28)).isSome = true by decide +kernel)
  exact ⟨S, h, frames_finish .empty (Testbed.contention_processes 30 28).allSized h⟩

end UPF
