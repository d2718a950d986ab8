import EbpfUpf.Proof.Commit
import EbpfUpf.Spec.Writers

/-!
# Two writers

By induction on the moves, the calls of two writers have run one after the
other, or both found the tuple that was in force before either (`BothAt`). In
the first case nothing is lost, and in the second both return the same
generation (`modifications_kept_iff`).
-/

open Framework

namespace UPF

theorem Writer.eq_or (w w' : Writer) : w' = w ∨ w' = w.other := by
  cases w <;> cases w' <;> simp [Writer.other]

theorem Writer.other_ne (w : Writer) : w.other ≠ w := by
  cases w <;> simp [Writer.other]

theorem writers_step {S S' : Writers} {w : Writer} (h : Writers.step S w = some S') : ∃ o k r s,
    S.prog w = .ask o k ∧ sys o S.state = some (r, s) ∧ S' = ⟨s, S.holder, Function.update S.prog w (k r)⟩ := by
  rw [Writers.step, Pool.step] at h
  split at h
  · cases h
  · next o k hp =>
    obtain ⟨⟨r, s⟩, e, rfl⟩ := Option.map_eq_some_iff.mp h
    exact ⟨o, k, r, s, hp, e, rfl⟩

/-- A call that is over makes no move. -/
theorem not_step_ret {S S' : Writers} {w : Writer} {r : Except PyError Int} (hp : S.prog w = .ret r) :
    Writers.step S w ≠ some S' := by
  intro h
  obtain ⟨o, k, -, -, ha, -, -⟩ := writers_step h
  cases hp.symm.trans ha

/-- A call that is over stays so. -/
theorem step_ret {S S' : Writers} {w w' : Writer} {r : Except PyError Int} (hp : S.prog w = .ret r)
    (h : Writers.step S w' = some S') : S'.prog w = .ret r := by
  have hne : w ≠ w' := by
    rintro rfl
    exact not_step_ret hp h
  obtain ⟨_, _, _, _, -, -, rfl⟩ := writers_step h
  exact (Function.update_of_ne hne _ _).trans hp

/-- A move is one of the other call's, if this one is over. -/
theorem step_other {S S' : Writers} {w w' : Writer} {r : Except PyError Int} (hp : S.prog w = .ret r)
    (h : Writers.step S w' = some S') : w' = w.other := by
  refine (w.eq_or w').resolve_left ?_
  rintro rfl
  exact not_step_ret hp h

theorem run_ret {S S' : Writers} {is : List Writer} {w : Writer} {r : Except PyError Int} (hp : S.prog w = .ret r)
    (h : exec Writers.step S is = some S') : S'.prog w = .ret r :=
  exec_invariant (J := fun S => S.prog w = .ret r) (P := fun _ _ => True) (fun _ hp h => step_ret hp h)
    (along_of_forall (fun _ _ _ => trivial) S) h hp

/-! ## One call -/

/-- A call after `n` moves that found the tuple `t` in force. -/
inductive CallAt (pdr_id : Int) (c : Changes) (t : Tuple) : Nat → Prog SysOps (Except PyError Int) → Prop
  | called : CallAt pdr_id c t 0 (modify_tc_bundle pdr_id c).run
  | staging (raw : Bytes) : Packs raw c → activeTuple raw = t → CallAt pdr_id c t 1 (bundleWrites pdr_id raw c).run
  | flipping (raw : Bytes) : Packs raw c → activeTuple raw = t → CallAt pdr_id c t 2
    (updateThen .tc_bundle_map (key pdr_id) (staged raw c (1 - activeSlot raw)) (pure ((t.generation : Int) + 1))).run
  | returned : c.Fits → CallAt pdr_id c t 3 (.ret (.ok ((t.generation : Int) + 1)))

section CallAt

variable {pdr_id : Int} {c : Changes} {t : Tuple} {n : Nat}

theorem CallAt.of_ret {g : Int} (h : CallAt pdr_id c t n (.ret (.ok g))) (hk : Fmt.I.fits pdr_id) :
    n = 3 ∧ g = t.generation + 1 ∧ c.Fits := by
  generalize hp : Prog.ret (Except.ok g) = p at h
  cases h with
  | called =>
    rw [modify_tc_bundle_eq, if_pos hk] at hp
    cases hp
  | staging | flipping => cases hp
  | returned hc =>
    cases hp
    exact ⟨rfl, rfl, hc⟩

/-- The tuple in force for the PDR. -/
def InForce (pdr_id : Int) (t : Tuple) (S : Writers) : Prop := ruleOf S.state pdr_id.toNat = some t

theorem inForce_iff {S : Writers} : InForce pdr_id t S ↔
    ∃ cur, S.state.lookup .tc_bundle_map pdr_id.toNat = some cur ∧ activeTuple cur = t := by
  rw [InForce, ruleOf, Option.map_eq_some_iff]

/-- Some call has raised an exception. -/
def Raised (S : Writers) : Prop := ∃ w e, S.prog w = .ret (.error e)

/-- What a move of a call does: it looks up, or it writes the tuple that it found, or
that of its changes. -/
theorem callAt_step {w : Writer} {S S' : Writers} {t' : Tuple} (hk : Fmt.I.fits pdr_id)
    (h : Writers.step S w = some S') (hp : CallAt pdr_id c t n (S.prog w)) (hf : InForce pdr_id t' S) :
    (n = 0 ∧ InForce pdr_id t' S' ∧ (Raised S' ∧ ¬ (c.Fits ∧ t'.generation + 1 < 2 ^ 32) ∨
      CallAt pdr_id c t' 1 (S'.prog w))) ∨
    (n = 1 ∧ InForce pdr_id t S' ∧ CallAt pdr_id c t 2 (S'.prog w)) ∨
    (n = 2 ∧ InForce pdr_id (c.apply t) S' ∧ CallAt pdr_id c t 3 (S'.prog w)) := by
  obtain ⟨o, k, r, s, ha, e, rfl⟩ := writers_step h
  obtain ⟨cur, hl, rfl⟩ := inForce_iff.mp hf
  rw [ha] at hp
  generalize hq : Prog.ask o k = q at hp
  simp only [Function.update_self]
  cases hp with
  | called =>
    rw [modify_tc_bundle_eq, if_pos hk] at hq
    cases hq
    cases (sys_lookup_bundle hk hl _).symm.trans e
    refine .inl ⟨rfl, inForce_iff.mpr ⟨cur, hl, rfl⟩, ?_⟩
    dsimp only
    by_cases hc : Packs cur c
    · rw [if_pos hc]
      exact .inr (.staging cur hc rfl)
    · rw [if_neg hc]
      exact .inl ⟨⟨w, .struct_error, Function.update_self _ _ _⟩, hc⟩
  | staging raw hc ht =>
    cases hq
    cases (sys_update_bundle hk hl _).symm.trans e
    refine .inr (.inl ⟨rfl, inForce_iff.mpr ⟨_, Maps.lookup_put_hash (.inl rfl) _ _, ?_⟩, ?_⟩)
    · rw [activeTuple_staged, ht]
    · subst ht
      exact .flipping raw hc rfl
  | flipping raw hc ht =>
    cases hq
    cases (sys_update_bundle hk hl _).symm.trans e
    refine .inr (.inr ⟨rfl, inForce_iff.mpr ⟨_, Maps.lookup_put_hash (.inl rfl) _ _, ?_⟩, .returned hc.1⟩)
    rw [activeTuple_flipped hc, ht]
  | returned => cases hq

end CallAt

/-! ## Both calls -/

variable {pdr_id : Int} {c : Writer → Changes} {t : Tuple}

/-- The call of `w` is over, and the other one came after it and has made `k` moves. -/
structure Serial (pdr_id : Int) (c : Writer → Changes) (t : Tuple) (w : Writer) (k : Nat) (S : Writers) : Prop where
  first : CallAt pdr_id (c w) t 3 (S.prog w)
  second : CallAt pdr_id (c w.other) ((c w).apply t) k (S.prog w.other)
  inForce : InForce pdr_id (if k = 3 then (c w.other).apply ((c w).apply t) else (c w).apply t) S

/-- Whichever call comes second, what it writes can be packed. -/
def Packable (c : Writer → Changes) (t : Tuple) : Prop := (∀ w, (c w).Fits) ∧ t.generation + 2 < 2 ^ 32

/-- How far both calls are after the moves `is`. -/
inductive BothAt (pdr_id : Int) (c : Writer → Changes) (t : Tuple) (is : List Writer) (S : Writers) : Prop
  | raised : Raised S → ¬ Packable c t → BothAt pdr_id c t is S
  | before : (∀ w, is.count w ≤ 2 ∧ CallAt pdr_id (c w) t (is.count w) (S.prog w)) → InForce pdr_id t S →
    BothAt pdr_id c t is S
  | serial (w : Writer) (k : Nat) : is = List.replicate 3 w ++ List.replicate k w.other → Serial pdr_id c t w k S →
    BothAt pdr_id c t is S
  /-- The call of `w` was over first, and the other one had made its lookup before. -/
  | overlapping (w : Writer) (t' : Tuple) : is.count w = 3 → 1 ≤ is.count w.other →
    CallAt pdr_id (c w) t 3 (S.prog w) → CallAt pdr_id (c w.other) t (is.count w.other) (S.prog w.other) →
    InForce pdr_id t' S → BothAt pdr_id c t is S

theorem CallAt.ret {c : Changes} {p : Prog SysOps (Except PyError Int)} (h : CallAt pdr_id c t 3 p) :
    p = .ret (.ok ((t.generation : Int) + 1)) := by
  cases h
  rfl

/-- A call that has made no move has found nothing yet. -/
theorem CallAt.restart {c : Changes} {t t' : Tuple} {p : Prog SysOps (Except PyError Int)}
    (h : CallAt pdr_id c t 0 p) : CallAt pdr_id c t' 0 p := by
  cases h
  exact .called

theorem sys_total (o : Syscall) (s : Maps) : ∃ x, sys o s = some x := by
  cases o <;> simp only [sys] <;> split <;> exact ⟨_, rfl⟩

theorem raised_step {S S' : Writers} {w : Writer} (hr : Raised S) (h : Writers.step S w = some S') : Raised S' := by
  obtain ⟨w', e, hp⟩ := hr
  exact ⟨w', e, step_ret hp h⟩

theorem prog_step_ne {S S' : Writers} {w w' : Writer} (hne : w' ≠ w) (h : Writers.step S w = some S') :
    S'.prog w' = S.prog w' := by
  obtain ⟨_, _, _, _, -, -, rfl⟩ := writers_step h
  exact Function.update_of_ne hne _ _

theorem Serial.step {S S' : Writers} {w i : Writer} {k : Nat} (hk : Fmt.I.fits pdr_id)
    (hs : Serial pdr_id c t w k S) (h : Writers.step S i = some S') :
    i = w.other ∧ (Raised S' ∧ ¬ Packable c t ∨ Serial pdr_id c t w (k + 1) S') := by
  obtain rfl := step_other hs.first.ret h
  have hfirst : CallAt pdr_id (c w) t 3 (S'.prog w) := by
    rw [prog_step_ne w.other_ne.symm h]
    exact hs.first
  refine ⟨rfl, ?_⟩
  obtain ⟨rfl, hf, hp⟩ | ⟨rfl, hf, hp⟩ | ⟨rfl, hf, hp⟩ := callAt_step hk h hs.second hs.inForce
  · exact hp.imp (And.imp_right fun hn hp => hn ⟨hp.1 _, hp.2⟩) fun hp => ⟨hfirst, hp, hf⟩
  · exact .inr ⟨hfirst, hp, hf⟩
  · exact .inr ⟨hfirst, hp, hf⟩

theorem eq_replicate_of_count {is : List Writer} {w : Writer} (h : is.count w.other = 0) :
    is = List.replicate (is.count w) w := by
  have hall : ∀ x ∈ is, x = w := fun x hx => (w.eq_or x).resolve_right fun hx' =>
    List.count_eq_zero.mp h (hx' ▸ hx)
  have hr := List.eq_replicate_of_mem hall
  have hc : is.count w = is.length := by
    rw [List.count_eq_length]
    exact fun x hx => (hall x hx).symm
  rw [hc]
  exact hr

/-- The first call that is over, if the other one has made a move, overlaps with it. -/
theorem BothAt.step {is : List Writer} {S S' : Writers} {i : Writer} (hk : Fmt.I.fits pdr_id)
    (hw : BothAt pdr_id c t is S) (h : Writers.step S i = some S') : BothAt pdr_id c t (is ++ [i]) S' := by
  have hself : (is ++ [i]).count i = is.count i + 1 := by simp
  have hother : ∀ {w}, w ≠ i → (is ++ [i]).count w = is.count w := fun hne => by
    simp [Ne.symm hne]
  cases hw with
  | raised hr hn => exact .raised (raised_step hr h) hn
  | before hp hf =>
    have hne := i.other_ne
    have hrest := prog_step_ne hne h
    have hp' := (hp i.other).2
    rw [← hrest, ← hother hne] at hp'
    obtain ⟨hn, hf', hpi⟩ | ⟨hn, hf', hpi⟩ | ⟨hn, hf', hpi⟩ := callAt_step hk h (hp i).2 hf
    · rcases hpi with ⟨hr, hn'⟩ | hpi
      · exact .raised hr fun hp => hn' ⟨hp.1 i, by have := hp.2; omega⟩
      · refine .before (fun w => ?_) hf'
        rcases i.eq_or w with rfl | rfl
        · rw [hself, hn]
          exact ⟨by decide, hpi⟩
        · exact ⟨(hother hne).trans_le (hp _).1, hp'⟩
    · refine .before (fun w => ?_) hf'
      rcases i.eq_or w with rfl | rfl
      · rw [hself, hn]
        exact ⟨by decide, hpi⟩
      · exact ⟨(hother hne).trans_le (hp _).1, hp'⟩
    · by_cases h0 : is.count i.other = 0
      · have his : is ++ [i] = List.replicate 3 i := by
          rw [eq_replicate_of_count h0, hn]
          rfl
        refine .serial i 0 (his.trans (List.append_nil _).symm) ⟨hpi, ?_, hf'⟩
        have hc := (hp i.other).2
        rw [h0, ← hrest] at hc
        exact hc.restart
      · exact .overlapping i _ (by rw [hself, hn]) (by rw [hother hne]; omega) hpi hp' hf'
  | serial w k his hs =>
    obtain ⟨rfl, ⟨hr, hn⟩ | hs⟩ := hs.step hk h
    · exact .raised hr hn
    · refine .serial w (k + 1) ?_ hs
      rw [his, List.append_assoc, ← List.replicate_succ']
  | overlapping w t' h3 h1 hp hpo hf =>
    obtain rfl := step_other hp.ret h
    have hrest := prog_step_ne w.other_ne.symm h
    rw [← hrest] at hp
    have h3' := (hother w.other_ne.symm).trans h3
    obtain ⟨hn, -⟩ | ⟨hn, hf', hpi⟩ | ⟨hn, hf', hpi⟩ := callAt_step hk h hpo hf
    · omega
    · refine .overlapping w _ h3' (by omega) hp ?_ hf'
      rwa [hself, hn]
    · refine .overlapping w _ h3' (by omega) hp ?_ hf'
      rwa [hself, hn]

theorem run_bothAt {s : Maps} {is : List Writer} {S : Writers} (hk : Fmt.I.fits pdr_id)
    (h : exec Writers.step (Writers.start s pdr_id c) is = some S) (ht : ruleOf s pdr_id.toNat = some t) :
    BothAt pdr_id c t is S := by
  induction is using List.reverseRecOn generalizing S with
  | nil =>
    cases h
    exact .before (fun w => ⟨Nat.zero_le _, .called⟩) ht
  | append_singleton is i ih =>
    obtain ⟨S₁, h1, h2⟩ := exec_snoc.mp h
    exact (ih h1).step hk h2

/-! ## What is lost -/

theorem has_apply {c c' : Changes} (hc : c.Fits) (hc' : c'.Fits) (ha : c.Apart c') :
    (c'.apply (c.apply t)).Has c ∧ (c'.apply (c.apply t)).Has c' := by
  -- a field that the second call gives, and one that only the first gives
  have hself : ∀ {o : Option Int} {n : Nat} {v : Int}, (∀ v ∈ o, Fmt.I.fits v) → v ∈ o →
      ((o.getD n).toNat : Int) = v := by
    intro o n v ho hv
    have hv0 := (fits_iff.mp (ho v hv)).1
    rw [Option.mem_def.mp hv, Option.getD_some]
    omega
  have hfirst : ∀ {o o' : Option Int} {n : Nat} {v : Int}, (∀ v ∈ o, Fmt.I.fits v) → o = none ∨ o' = none → v ∈ o →
      ((o'.getD (o.getD n).toNat).toNat : Int) = v := by
    intro o o' n v ho hn hv
    have ho' : o' = none := hn.resolve_left fun h => by simp [h] at hv
    rw [ho', Option.getD_none, Int.toNat_natCast]
    exact hself ho hv
  exact ⟨⟨fun v => hfirst hc.far_id ha.far_id, fun v => hfirst hc.qer_id ha.qer_id,
    fun v => hfirst hc.urr_id ha.urr_id, fun v => hfirst hc.precedence ha.precedence⟩,
    ⟨fun v => hself hc'.far_id, fun v => hself hc'.qer_id, fun v => hself hc'.urr_id,
      fun v => hself hc'.precedence⟩⟩

theorem Changes.Apart.symm {c c' : Changes} (h : c.Apart c') : c'.Apart c :=
  ⟨h.far_id.symm, h.qer_id.symm, h.urr_id.symm, h.precedence.symm⟩

theorem apart_other (h : (c .agent).Apart (c .toggle_bundle)) (w : Writer) : (c w).Apart (c w.other) := by
  cases w
  · exact h
  · exact h.symm

theorem run_raised {S S' : Writers} {is : List Writer} (hr : Raised S) (h : exec Writers.step S is = some S') :
    Raised S' := by
  obtain ⟨w, e, hp⟩ := hr
  exact ⟨w, e, run_ret hp h⟩

theorem count_serial (w : Writer) (k : Nat) :
    (List.replicate 3 w ++ List.replicate k w.other).count w = 3 ∧
    (List.replicate 3 w ++ List.replicate k w.other).count w.other = k := by
  have h := w.other_ne
  simp [List.count_replicate, h, Ne.symm h]

theorem BothAt.progress {is : List Writer} {S : Writers} (hw : BothAt pdr_id c t is S) :
    Raised S ∧ ¬ Packable c t ∨ ∀ w, ∃ t', CallAt pdr_id (c w) t' (is.count w) (S.prog w) := by
  cases hw with
  | raised hr hn => exact .inl ⟨hr, hn⟩
  | before hb _ => exact .inr fun w => ⟨t, (hb w).2⟩
  | serial w' k his hs =>
    refine .inr fun w => ?_
    rw [his]
    rcases w'.eq_or w with rfl | rfl
    · exact ⟨t, by rw [(count_serial _ _).1]; exact hs.first⟩
    · exact ⟨_, by rw [(count_serial _ _).2]; exact hs.second⟩
  | overlapping w' t' h3 _ hp hpo _ =>
    refine .inr fun w => ?_
    rcases w'.eq_or w with rfl | rfl
    · exact ⟨t, by rw [h3]; exact hp⟩
    · exact ⟨t, hpo⟩

/-- A call that returns has made all its moves. -/
theorem BothAt.count_eq {is : List Writer} {S : Writers} {w : Writer} {g : Int} (hk : Fmt.I.fits pdr_id)
    (hw : BothAt pdr_id c t is S) (hn : ¬ Raised S) (hp : S.prog w = .ret (.ok g)) : is.count w = 3 := by
  obtain ⟨t', hp'⟩ := hw.progress.resolve_left (fun hr => hn hr.1) w
  rw [hp] at hp'
  exact (hp'.of_ret hk).1

theorem CallAt.step {S : Writers} {w : Writer} {c : Changes} {n : Nat} (hk : Fmt.I.fits pdr_id)
    (hp : CallAt pdr_id c t n (S.prog w)) (hn : n < 3) : ∃ S', Writers.step S w = some S' := by
  have hask : ∃ o k, S.prog w = .ask o k := by
    generalize S.prog w = p at hp
    cases hp with
    | called =>
      rw [modify_tc_bundle_eq, if_pos hk]
      exact ⟨_, _, rfl⟩
    | staging | flipping => exact ⟨_, _, rfl⟩
    | returned => omega
  obtain ⟨o, k, hask⟩ := hask
  obtain ⟨x, hx⟩ := sys_total o S.state
  refine ⟨⟨x.2, S.holder, Function.update S.prog w (k x.1)⟩, ?_⟩
  simp only [Writers.step, Pool.step, hask, hx]
  rfl

/-- Every interleaving of the calls brings both to their ends, if what they write can be
packed. -/
theorem interleaving_returns {s : Maps} {is : List Writer} (hk : Fmt.I.fits pdr_id)
    (ht : ruleOf s pdr_id.toNat = some t) (hp : Packable c t) (hc : ∀ w, is.count w = 3) :
    ∃ S, exec Writers.step (Writers.start s pdr_id c) is = some S ∧ ∀ w, ∃ g, S.prog w = .ret (.ok g) := by
  have hrun : ∀ js : List Writer, (∀ w, js.count w ≤ 3) →
      ∃ S, exec Writers.step (Writers.start s pdr_id c) js = some S := by
    intro js hj
    induction js using List.reverseRecOn with
    | nil => exact ⟨_, rfl⟩
    | append_singleton js i ih =>
      have hle : ∀ w, js.count w ≤ (js ++ [i]).count w := fun w => by
        rw [List.count_append]
        exact Nat.le_add_right _ _
      obtain ⟨S, hS⟩ := ih fun w => (hle w).trans (hj w)
      obtain ⟨t', hp'⟩ := (run_bothAt hk hS ht).progress.resolve_left (fun h => h.2 hp) i
      have hlt : js.count i < 3 := by
        have := hj i
        rw [List.count_append, List.count_singleton_self] at this
        omega
      obtain ⟨S', hS'⟩ := hp'.step hk hlt
      exact ⟨S', exec_snoc.mpr ⟨S, hS, hS'⟩⟩
  obtain ⟨S, hS⟩ := hrun is fun w => (hc w).le
  refine ⟨S, hS, fun w => ?_⟩
  obtain ⟨t', hp'⟩ := (run_bothAt hk hS ht).progress.resolve_left (fun h => h.2 hp) w
  rw [hc w] at hp'
  exact ⟨_, hp'.ret⟩

/-- The first call has made all its moves, and then the other one `k`. -/
theorem serial_of_run {s : Maps} {S : Writers} {w : Writer} {k : Nat} (hk : Fmt.I.fits pdr_id)
    (h : exec Writers.step (Writers.start s pdr_id c) (List.replicate 3 w ++ List.replicate k w.other) = some S)
    (ht : ruleOf s pdr_id.toNat = some t) (hn : ¬ Raised S) : Serial pdr_id c t w k S := by
  induction k generalizing S with
  | zero =>
    rw [List.replicate_zero, List.append_nil] at h
    have hcount : (List.replicate 3 w).count w.other = 0 := by
      rw [List.count_replicate, if_neg (by simpa using w.other_ne.symm)]
    cases run_bothAt hk h ht with
    | raised hr => exact absurd hr hn
    | before hb _ => exact absurd (hb w).1 (by simp)
    | serial w' k his hs =>
      have hlen := congrArg List.length his
      simp only [List.length_append, List.length_replicate] at hlen
      obtain rfl : k = 0 := by omega
      obtain rfl : w = w' := by simpa [List.replicate_succ] using his
      exact hs
    | overlapping w' t' h3 h1 =>
      rcases w.eq_or w' with rfl | rfl
      · omega
      · omega
  | succ k ih =>
    rw [List.replicate_succ' (n := k), ← List.append_assoc] at h
    obtain ⟨S₁, h1, h2⟩ := exec_snoc.mp h
    exact ((ih h1 fun hr => hn (raised_step hr h2)).step hk h2).2.resolve_left fun hr => hn hr.1

section Kept

variable {s : Maps} {is : List Writer} {S : Writers} {gen : Writer → Int}

theorem not_raised (hr : ∀ w, S.prog w = .ret (.ok (gen w))) : ¬ Raised S := by
  rintro ⟨w, e, hp⟩
  cases (hr w).symm.trans hp

/-- A PDR id that does not fit makes both calls raise. -/
theorem fits_of_run (h : exec Writers.step (Writers.start s pdr_id c) is = some S)
    (hr : ∀ w, S.prog w = .ret (.ok (gen w))) : Fmt.I.fits pdr_id := by
  by_contra hk
  have hp : (Writers.start s pdr_id c).prog .agent = .ret (.error .struct_error) := by
    show (modify_tc_bundle pdr_id (c .agent)).run = _
    rw [modify_tc_bundle_eq, if_neg hk]
    rfl
  cases (hr .agent).symm.trans (run_ret hp h)

/-- Calls that overlap return one generation. -/
theorem serially_of_generations (hk : Fmt.I.fits pdr_id)
    (h : exec Writers.step (Writers.start s pdr_id c) is = some S) (ht : ruleOf s pdr_id.toNat = some t)
    (hr : ∀ w, S.prog w = .ret (.ok (gen w))) (hg : gen .agent ≠ gen .toggle_bundle) : Serially is := by
  have hn := not_raised hr
  cases run_bothAt hk h ht with
  | raised hr => exact absurd hr hn
  | before hb hf =>
    have h3 := (BothAt.before hb hf).count_eq hk hn (hr .agent)
    exact absurd (hb .agent).1 (by rw [h3]; decide)
  | serial w k his hs =>
    have h2 := hs.second
    rw [hr] at h2
    obtain ⟨rfl, -, -⟩ := h2.of_ret hk
    exact ⟨w, his⟩
  | overlapping w t' _ _ hp hpo _ =>
    rw [hr] at hp hpo
    have he : gen w = gen w.other := (hp.of_ret hk).2.1.trans (hpo.of_ret hk).2.1.symm
    refine absurd ?_ hg
    cases w
    · exact he
    · exact he.symm

/-- A beginning of the moves in which the first call has made all of its own. -/
theorem serial_prefix {w : Writer} {js ks : List Writer}
    (he : List.replicate 3 w ++ List.replicate 3 w.other = js ++ ks) (hlen : 3 ≤ js.length) :
    ∃ k, js = List.replicate 3 w ++ List.replicate k w.other := by
  rcases List.append_eq_append_iff.mp he with ⟨as, rfl, has⟩ | ⟨bs, hbs, -⟩
  · refine ⟨as.length, congrArg _ (List.eq_replicate_of_mem fun x hx => ?_)⟩
    exact List.eq_of_mem_replicate (has ▸ List.mem_append_left ks hx)
  · have hlen' := congrArg List.length hbs
    rw [List.length_replicate, List.length_append] at hlen'
    obtain rfl : bs = [] := List.eq_nil_of_length_eq_zero (by omega)
    exact ⟨0, by rw [hbs, List.append_nil, List.replicate_zero, List.append_nil]⟩

/-- From the first call's flip on, the tuple in force is of a later generation. -/
theorem serial_supersedes {w : Writer} {k : Nat} (hk : Fmt.I.fits pdr_id)
    (h : exec Writers.step (Writers.start s pdr_id c) (List.replicate 3 w ++ List.replicate k w.other) = some S)
    (ht : ruleOf s pdr_id.toNat = some t) (hn : ¬ Raised S) : ruleOf S.state pdr_id.toNat ≠ ruleOf s pdr_id.toNat := by
  have hf := (serial_of_run hk h ht hn).inForce
  rw [InForce] at hf
  rw [hf, ht]
  intro heq
  have hgen := congrArg Tuple.generation (Option.some.inj heq)
  split at hgen
  · simp only [generation_apply] at hgen
    omega
  · simp only [generation_apply] at hgen
    omega

theorem noneLost_of_serial {w : Writer} (hk : Fmt.I.fits pdr_id) (ha : (c .agent).Apart (c .toggle_bundle))
    (h : exec Writers.step (Writers.start s pdr_id c) (List.replicate 3 w ++ List.replicate 3 w.other) = some S)
    (ht : ruleOf s pdr_id.toNat = some t) (hr : ∀ w, S.prog w = .ret (.ok (gen w))) :
    NoneLost s pdr_id c (List.replicate 3 w ++ List.replicate 3 w.other) S gen := by
  have hn := not_raised hr
  have hs := serial_of_run hk h ht hn
  have h1 := hs.first
  have h2 := hs.second
  rw [hr] at h1 h2
  obtain ⟨-, hg1, hc1⟩ := h1.of_ret hk
  obtain ⟨-, hg2, hc2⟩ := h2.of_ret hk
  refine ⟨⟨_, hs.inForce, fun w' => ?_⟩, ?_, fun js ks S' he hj hdone => ?_⟩
  · obtain ⟨hh1, hh2⟩ := has_apply (t := t) hc1 hc2 (apart_other ha w)
    rcases w.eq_or w' with rfl | rfl
    · exact hh1
    · exact hh2
  · have hne : gen w ≠ gen w.other := by
      rw [hg1, hg2, generation_apply]
      omega
    cases w
    · exact hne
    · exact hne.symm
  · obtain ⟨w', g, hp⟩ := hdone
    rw [he] at h
    obtain ⟨S₁, h1, h2⟩ := exec_append.mp h
    cases hj.symm.trans h1
    have hn' : ¬ Raised S' := fun hr' => hn (run_raised hr' h2)
    have hcount := (run_bothAt hk hj ht).count_eq hk hn' hp
    obtain ⟨k, rfl⟩ := serial_prefix he (hcount.ge.trans List.count_le_length)
    exact serial_supersedes hk hj ht hn'

end Kept

/-- Whatever the moves, as long as both calls return. -/
theorem modifications_kept_iff {s : Maps} {raw : Bytes} {is : List Writer} {S : Writers} {gen : Writer → Int}
    (hl : s.lookup .tc_bundle_map pdr_id.toNat = some raw) (ha : (c .agent).Apart (c .toggle_bundle))
    (h : exec Writers.step (Writers.start s pdr_id c) is = some S) (hr : ∀ w, S.prog w = .ret (.ok (gen w))) :
    NoneLost s pdr_id c is S gen ↔ Serially is := by
  have hk := fits_of_run h hr
  have ht : ruleOf s pdr_id.toNat = some (activeTuple raw) := by rw [ruleOf, hl, Option.map_some]
  constructor
  · intro hnone
    exact serially_of_generations hk h ht hr hnone.generations
  · rintro ⟨w, rfl⟩
    exact noneLost_of_serial hk ha h ht hr

/-! ## A FAR and a QER -/

/-- The generation that a call returned. -/
def returned : Prog SysOps (Except PyError Int) → Option Int
  | .ret (.ok g) => some g
  | _ => none

theorem returned_eq_some {p : Prog SysOps (Except PyError Int)} {g : Int} : returned p = some g ↔ p = .ret (.ok g) := by
  constructor
  · intro h
    unfold returned at h
    split at h <;> cases h
    rfl
  · rintro rfl
    rfl

/-- The agent changes the FAR, and the other one the QER. -/
def farAndQer : Writer → Changes
  | .agent => ⟨some 2, none, none, none⟩
  | .toggle_bundle => ⟨none, some 3, none, none⟩

theorem farAndQer_apart : (farAndQer .agent).Apart (farAndQer .toggle_bundle) :=
  ⟨.inr rfl, .inl rfl, .inl rfl, .inl rfl⟩

/-- One call after the other. -/
theorem modifications_kept_two : ∃ maps S, after (install_session 0x1000 1 1 1 32 0) .empty = some maps ∧
    exec Writers.step (Writers.start maps 1 farAndQer)
      (List.replicate 3 .agent ++ List.replicate 3 .toggle_bundle) = some S ∧
    ruleOf S.state 1 = some ⟨2, 3, 0, 32, 2⟩ ∧ (NoneLost maps 1 farAndQer
      (List.replicate 3 .agent ++ List.replicate 3 .toggle_bundle) S (fun w => if w = .agent then 1 else 2) ↔
      Serially (List.replicate 3 .agent ++ List.replicate 3 .toggle_bundle)) := by
  have h : ((after (install_session 0x1000 1 1 1 32 0) .empty).bind fun maps =>
      (exec Writers.step (Writers.start maps 1 farAndQer)
        (List.replicate 3 .agent ++ List.replicate 3 .toggle_bundle)).map fun S =>
      (ruleOf S.state 1, (maps.lookup .tc_bundle_map 1).isSome, returned (S.prog .agent),
        returned (S.prog .toggle_bundle))) = some (some ⟨2, 3, 0, 32, 2⟩, true, some 1, some 2) := by
    decide +kernel
  obtain ⟨maps, hi, h⟩ := Option.bind_eq_some_iff.mp h
  obtain ⟨S, hs, h⟩ := Option.map_eq_some_iff.mp h
  simp only [Prod.mk.injEq, returned_eq_some] at h
  obtain ⟨hf, hl, h1, h2⟩ := h
  obtain ⟨raw, hl⟩ := Option.isSome_iff_exists.mp hl
  refine ⟨maps, S, hi, hs, hf, modifications_kept_iff hl farAndQer_apart hs fun w => ?_⟩
  cases w
  · exact h1
  · exact h2

/-- Both look up, and the agent makes its updates before the other one. -/
def overlapped : List Writer := [.agent, .toggle_bundle, .agent, .agent, .toggle_bundle]

/-- The update that stages the other one's tuple takes the agent's commit back, and in
the end its FAR is lost. -/
theorem modification_lost : ∃ maps S' S, after (install_session 0x1000 1 1 1 32 0) .empty = some maps ∧
    exec Writers.step (Writers.start maps 1 farAndQer) overlapped = some S' ∧
    exec Writers.step (Writers.start maps 1 farAndQer) (overlapped ++ [.toggle_bundle]) = some S ∧
    S'.prog .agent = .ret (.ok 1) ∧ ruleOf S'.state 1 = ruleOf maps 1 ∧ (∀ w, S.prog w = .ret (.ok 1)) ∧
    ruleOf S.state 1 = some ⟨1, 3, 0, 32, 1⟩ ∧
    ¬ NoneLost maps 1 farAndQer (overlapped ++ [.toggle_bundle]) S fun _ => 1 := by
  have h : ((after (install_session 0x1000 1 1 1 32 0) .empty).bind fun maps =>
      (exec Writers.step (Writers.start maps 1 farAndQer) overlapped).bind fun S' =>
      (Writers.step S' .toggle_bundle).map fun S =>
      (returned (S'.prog .agent), decide (ruleOf S'.state 1 = ruleOf maps 1), returned (S.prog .agent),
        returned (S.prog .toggle_bundle), ruleOf S.state 1)) =
        some (some 1, true, some 1, some 1, some ⟨1, 3, 0, 32, 1⟩) := by
    decide +kernel
  obtain ⟨maps, hi, h⟩ := Option.bind_eq_some_iff.mp h
  obtain ⟨S', hs', h⟩ := Option.bind_eq_some_iff.mp h
  obtain ⟨S, hs, h⟩ := Option.map_eq_some_iff.mp h
  simp only [Prod.mk.injEq, returned_eq_some, decide_eq_true_eq] at h
  obtain ⟨h1, hf', h2, h3, hf⟩ := h
  refine ⟨maps, S', S, hi, hs', exec_snoc.mpr ⟨S', hs', hs⟩, h1, hf', fun w => ?_, hf, fun hn => hn.generations rfl⟩
  cases w
  · exact h2
  · exact h3

end UPF
