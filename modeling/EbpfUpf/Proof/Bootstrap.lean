import Mathlib.Algebra.BigOperators.Fin
import EbpfUpf.Proof.Report
import EbpfUpf.Proof.Usage
import EbpfUpf.Spec.Bootstrap
import EbpfUpf.Spec.Gpdu

/-!
# The bootstrap race

Updates of the URRs insert on a miss (`Updates.insertOnce`): each CPU is a
party, and the URRs are the keys. So a CPU loses one call at most for each URR
(`bootstrap_race`), and what the URRs have counted is what was kept
(`KeptCounted`).
-/

open Framework

namespace UPF

variable {N : Nat} {H : Helpers}

/-! ## One call -/

/-- What is left of a call that found no entry. -/
def insertion (u n : Nat) : Bpf Ptr Unit :=
  .ask (.create .urr_counters u (toLE 8 n ++ toLE 8 0 ++ toLE 8 1 ++ toLE 8 0)) fun _ => bump .M_TC_URR_UPDATED

section Call

variable {s : Machine} {u n : Nat}

theorem lookup_missed (hk : u ∉ urrKeys s.maps) : kernel H (.lookup .urr_counters u) s = some (none, s) := by
  rw [kernel, Maps.ptr, if_neg (mt mem_urrKeys.mpr hk)]

theorem upTo_missed (hu : u ≠ 0) (hk : u ∉ urrKeys s.maps) :
    Prog.upTo (kernel H) isCreate (upf_urr_update u n) s = some (insertion u n, s) := by
  rw [upf_urr_update, if_neg hu, lookup_bind, Prog.upTo_ask _ rfl (lookup_missed hk)]
  exact Prog.upTo_stop _ rfl s

/-- Nothing is inserted where the lookup finds the entry. -/
theorem upTo_found (hu : u ≠ 0) (hk : u ∈ urrKeys s.maps) : ∃ maps,
    Prog.upTo (kernel H) isCreate (upf_urr_update u n) s = some (.ret (), { s with maps }) ∧
    Counted u s.cpu n s.maps maps := by
  have hp : kernel H (.lookup .urr_counters u) s = some (some (.elem .urr_counters u), s) := by
    rw [kernel, Maps.ptr, if_pos (mem_urrKeys.mp hk)]
  have hr := urr_found (H := H) (s := s) (n := n) hu hk
  refine ⟨_, ?_, (counted_addTo s.maps u s.cpu n).trans_uncounted (uncounted_countAll _ s.cpu [.M_TC_URR_UPDATED])⟩
  rw [upf_urr_update, if_neg hu, lookup_bind] at hr ⊢
  rw [Prog.run_ask _ hp] at hr
  rw [Prog.upTo_ask _ rfl hp]
  exact Prog.Asks.upTo _ (by simp [isCreate, bump]) hr

/-- The rest of a call does what the call would do now. -/
theorem insertion_created (hu : u ≠ 0) (hk : u ∉ urrKeys s.maps) (hc : (urrKeys s.maps).card < MAX_URRS) : ∃ maps,
    (insertion u n).run (kernel H) s = some ((), { s with maps }) ∧ Counted u s.cpu n s.maps maps := by
  have hr := urr_created (H := H) (s := s) (n := n) hu hk hc
  refine ⟨_, ?_, (counted_created hk).trans_uncounted (uncounted_countAll _ s.cpu [.M_TC_URR_UPDATED])⟩
  rw [upf_urr_update, if_neg hu, lookup_bind, Prog.run_ask _ (lookup_missed hk)] at hr
  exact hr

theorem create_refused (hk : u ∈ urrKeys s.maps) (v : Bytes) :
    s.maps.create .urr_counters u s.cpu v = .error .EEXIST := by
  rw [Maps.create, if_pos (mem_urrKeys.mp hk)]

theorem insertion_refused (hk : u ∈ urrKeys s.maps) : (insertion u n).run (kernel H) s =
    some ((), { s with maps := s.maps.count s.cpu .M_TC_URR_UPDATED }) := by
  simp only [insertion, Prog.run, kernel, create_refused hk]
  rfl

end Call

theorem inserts_iff {s : Maps} {u cpu : Nat} (hc : (urrKeys s).card < MAX_URRS) :
    s.inserts u cpu = decide (u ∉ urrKeys s) := by
  by_cases hk : u ∈ urrKeys s
  · have he := create_refused (s := ⟨s, cpu, [], 0⟩) hk []
    simp only at he
    rw [Maps.inserts, he]
    simp [hk]
  · have he : s.create .urr_counters u cpu [] =
        .ok (s.putCpu .urr_counters u (Function.update (fun _ => Maps.zeros 32) cpu [])) := by
      rw [Maps.create, if_neg (mt mem_urrKeys.mpr hk)]
      exact if_pos hc
    rw [Maps.inserts, he]
    simp [hk]

/-! ## Steps -/

/-- What a step does. -/
inductive Updated (S : Updates N) : Updates N → Prop
  | idle {c : UrrCall N} : c.urr_id = 0 → Updated S ⟨S.maps, S.left, S.history ++ [⟨c, true⟩]⟩
  | found {c : UrrCall N} {maps : Maps} : c.urr_id ≠ 0 → c.urr_id.toNat ∈ urrKeys S.maps →
    Counted c.urr_id.toNat c.cpu c.pkt_len.toNat S.maps maps → Updated S ⟨maps, S.left, S.history ++ [⟨c, true⟩]⟩
  | missed {c : UrrCall N} : c.urr_id ≠ 0 → c.urr_id.toNat ∉ urrKeys S.maps →
    Updated S ⟨S.maps, Function.update S.left c.cpu (some (c, insertion c.urr_id.toNat c.pkt_len.toNat)), S.history⟩
  | created {c : UrrCall N} {p : Bpf Ptr Unit} {maps : Maps} : S.left c.cpu = some (c, p) →
    c.urr_id.toNat ∉ urrKeys S.maps → Counted c.urr_id.toNat c.cpu c.pkt_len.toNat S.maps maps →
    Updated S ⟨maps, Function.update S.left c.cpu none, S.history ++ [⟨c, true⟩]⟩
  | refused {c : UrrCall N} {p : Bpf Ptr Unit} {maps : Maps} : S.left c.cpu = some (c, p) →
    c.urr_id.toNat ∈ urrKeys S.maps → Uncounted S.maps maps →
    Updated S ⟨maps, Function.update S.left c.cpu none, S.history ++ [⟨c, false⟩]⟩

/-- What is left of a call is its insertion. -/
def Inserting (S : Updates N) : Prop := ∀ cpu c p, S.left cpu = some (c, p) →
  c.cpu = cpu ∧ c.urr_id ≠ 0 ∧ p = insertion c.urr_id.toNat c.pkt_len.toNat

theorem toNat_urr_id {u : BitVec 32} : u.toNat ≠ 0 ↔ u ≠ 0 := by
  rw [ne_eq, ne_eq, ← BitVec.toNat_inj]
  rfl

theorem step_updated {S S' : Updates N} {a : Act N} (h : S.step H a = some S') (hs : S.HasSpace a)
    (hi : Inserting S) : Updated S S' := by
  cases a with
  | call c =>
    rw [Updates.step] at h
    split at h
    · cases h
    · by_cases hu : c.urr_id = 0
      · have h0 : upf_urr_update c.urr_id.toNat c.pkt_len.toNat = (.ret () : Bpf Ptr Unit) := by
          rw [hu]
          rfl
        rw [h0, Prog.upTo] at h
        cases h
        exact .idle hu
      · by_cases hk : c.urr_id.toNat ∈ urrKeys S.maps
        · obtain ⟨maps, hr, hc⟩ := upTo_found (H := H) (s := S.machine c.cpu) (n := c.pkt_len.toNat)
            (toNat_urr_id.mpr hu) hk
          rw [hr] at h
          cases h
          exact .found hu hk hc
        · rw [upTo_missed (toNat_urr_id.mpr hu) (by exact hk)] at h
          cases h
          exact .missed hu hk
  | insert cpu =>
    rw [Updates.step] at h
    split at h
    · cases h
    · next c p hl =>
      obtain ⟨rfl, hu, rfl⟩ := hi _ _ _ hl
      rw [inserts_iff hs] at h
      by_cases hk : c.urr_id.toNat ∈ urrKeys S.maps
      · rw [insertion_refused (by exact hk)] at h
        simp only [hk, not_true, decide_false] at h
        cases h
        exact .refused hl hk (uncounted_countAll _ _ [.M_TC_URR_UPDATED])
      · obtain ⟨maps, hr, hc⟩ := insertion_created (H := H) (s := S.machine c.cpu) (n := c.pkt_len.toNat)
          (toNat_urr_id.mpr hu) hk hs
        rw [hr] at h
        simp only [hk, not_false_iff, decide_true] at h
        cases h
        exact .created hl hk hc

theorem Updated.inserting {S S' : Updates N} (h : Updated S S') (hi : Inserting S) : Inserting S' := by
  have hnone : ∀ {i cpu c p}, Function.update S.left i none cpu = some (c, p) → S.left cpu = some (c, p) := by
    intro i cpu c p hl
    by_cases hc : cpu = i
    · subst hc
      simp at hl
    · rwa [Function.update_of_ne hc] at hl
  cases h with
  | idle | found => exact hi
  | @missed c hu =>
    intro cpu c' p hl
    by_cases hc : cpu = c.cpu
    · subst hc
      simp only [Function.update_self, Option.some.injEq, Prod.mk.injEq] at hl
      obtain ⟨rfl, rfl⟩ := hl
      exact ⟨rfl, hu, rfl⟩
    · simp only [Function.update_of_ne hc] at hl
      exact hi _ _ _ hl
  | created | refused => exact fun _ _ _ hl => hi _ _ _ (hnone hl)

/-! ## Calls that insert once -/

/-- The key that a call needs. -/
def urrKey (c : UrrCall N) : Option Nat := if c.urr_id = 0 then none else some c.urr_id.toNat

theorem urrKey_of_ne {c : UrrCall N} (hu : c.urr_id ≠ 0) : urrKey c = some c.urr_id.toNat := if_neg hu

theorem urrKey_iff {c : UrrCall N} {u : BitVec 32} (hu : u ≠ 0) : urrKey c = some u.toNat ↔ c.urr_id = u := by
  by_cases h : c.urr_id = 0
  · rw [urrKey, if_pos h, h]
    simpa using Ne.symm hu
  · rw [urrKey_of_ne h, Option.some.injEq, BitVec.toNat_inj]

def Updates.insertOnce (S : Updates N) : InsertOnce (Fin N) Nat (UrrCall N) :=
  ⟨urrKeys S.maps, fun cpu => (S.left cpu).map Prod.fst, S.history⟩

theorem insertOnce_update (S : Updates N) (maps : Maps) (i : Fin N) (x : Option (UrrCall N × Bpf Ptr Unit))
    (h : List (Tried (UrrCall N))) : Updates.insertOnce ⟨maps, Function.update S.left i x, h⟩ =
      ⟨urrKeys maps, Function.update S.insertOnce.pending i (x.map Prod.fst), h⟩ := by
  rw [Updates.insertOnce]
  congr 1
  funext cpu
  by_cases hc : cpu = i
  · subst hc
    simp
  · simp [hc, Updates.insertOnce]

/-- The CPUs insert once. -/
theorem Updated.insertOnce {S S' : Updates N} (h : Updated S S') (hi : Inserting S) :
    InsertOnce.Step UrrCall.cpu urrKey S.insertOnce S'.insertOnce := by
  have hpend : ∀ {c p}, S.left c.cpu = some (c, p) → S.insertOnce.pending c.cpu = some c ∧
      urrKey c = some c.urr_id.toNat := by
    intro c p hl
    refine ⟨?_, urrKey_of_ne (hi _ _ _ hl).2.1⟩
    show (S.left c.cpu).map Prod.fst = _
    rw [hl]
    rfl
  cases h with
  | idle hu => exact .free (if_pos hu)
  | @found c maps hu hk hc =>
    have hs : S.insertOnce.keys = urrKeys maps := by
      rw [hc.keys, Finset.insert_eq_of_mem hk]
      rfl
    have hf : InsertOnce.Step UrrCall.cpu urrKey S.insertOnce
        ⟨S.insertOnce.keys, S.insertOnce.pending, S.insertOnce.history ++ [⟨c, true⟩]⟩ := .found (urrKey_of_ne hu) hk
    rwa [hs] at hf
  | @missed c hu hk =>
    rw [insertOnce_update]
    exact .missed (urrKey_of_ne hu) hk
  | @created c p maps hl hk hc =>
    rw [insertOnce_update, hc.keys]
    exact .inserted (hpend hl).1 (hpend hl).2 hk
  | @refused c p maps hl hk hc =>
    rw [insertOnce_update, hc.keys]
    exact .refused (hpend hl).1 (hpend hl).2 hk

theorem finished_eq (S : Updates N) {u : BitVec 32} (hu : u ≠ 0) :
    InsertOnce.finished urrKey S.history u.toNat = S.finished u :=
  List.filter_congr fun _ _ => decide_eq_decide.mpr (urrKey_iff hu)

/-! ## What is counted -/

/-- Each CPU has counted the calls that it has kept. -/
def KeptCounted (S : Updates N) : Prop := ∀ (u : BitVec 32) (cpu : Fin N), u ≠ 0 →
  usage S.maps u.toNat cpu = ⟨callBytes (S.keptOn u cpu) % 2 ^ 64, (S.keptOn u cpu).length % 2 ^ 64⟩

theorem keptOn_snoc (S : Updates N) (maps : Maps) (left : Fin N → Option (UrrCall N × Bpf Ptr Unit))
    (e : Tried (UrrCall N)) (u : BitVec 32) (cpu : Fin N) :
    Updates.keptOn ⟨maps, left, S.history ++ [e]⟩ u cpu =
      S.keptOn u cpu ++ if e.call.urr_id = u ∧ e.call.cpu = cpu ∧ e.kept then [e] else [] := by
  simp only [Updates.keptOn, Updates.finished, List.filter_append, List.filter_filter]
  congr 1
  by_cases h : e.call.urr_id = u ∧ e.call.cpu = cpu ∧ e.kept
  · simp [h]
  · rw [if_neg h]
    simpa [and_comm, and_assoc, and_left_comm] using h

theorem KeptCounted.of_uncounted {S : Updates N} {maps : Maps} {left : Fin N → Option (UrrCall N × Bpf Ptr Unit)}
    {c : UrrCall N} {b : Bool} (hm : KeptCounted S) (hc : Uncounted S.maps maps) (h0 : c.urr_id = 0 ∨ b = false) :
    KeptCounted ⟨maps, left, S.history ++ [⟨c, b⟩]⟩ := by
  intro u cpu hu
  have hn : ¬ (c.urr_id = u ∧ c.cpu = cpu ∧ b = true) := by
    rintro ⟨rfl, -, rfl⟩
    exact h0.elim hu Bool.noConfusion
  rw [keptOn_snoc, if_neg hn, List.append_nil, ← hm u cpu hu]
  exact hc.same _ _

theorem KeptCounted.of_counted {S : Updates N} {maps : Maps} {left : Fin N → Option (UrrCall N × Bpf Ptr Unit)}
    {c : UrrCall N} (hm : KeptCounted S) (hc : Counted c.urr_id.toNat c.cpu c.pkt_len.toNat S.maps maps) :
    KeptCounted ⟨maps, left, S.history ++ [⟨c, true⟩]⟩ := by
  intro u cpu hu
  rw [keptOn_snoc]
  by_cases h : c.urr_id = u ∧ c.cpu = cpu
  · obtain ⟨rfl, rfl⟩ := h
    rw [if_pos ⟨rfl, rfl, rfl⟩]
    refine hc.self.trans ?_
    rw [hm _ _ hu, Usage.add]
    simp [callBytes]
  · have hne : u.toNat ≠ c.urr_id.toNat ∨ (cpu : Nat) ≠ c.cpu := by
      rw [ne_eq, ne_eq, BitVec.toNat_inj, Fin.val_inj, ← not_and_or]
      exact fun h' => h ⟨h'.1.symm, h'.2.symm⟩
    rw [if_neg fun h' => h ⟨h'.1, h'.2.1⟩, List.append_nil, ← hm u cpu hu]
    exact hc.other _ _ hne

theorem Updated.counted {S S' : Updates N} (h : Updated S S') (hm : KeptCounted S) : KeptCounted S' := by
  cases h with
  | idle hu => exact hm.of_uncounted (.refl _) (.inl hu)
  | found _ _ hc => exact hm.of_counted hc
  | missed => exact hm
  | created _ _ hc => exact hm.of_counted hc
  | refused _ _ hc => exact hm.of_uncounted hc (.inr rfl)

/-! ## Runs -/

structure BootInv (S : Updates N) : Prop where
  inserting : Inserting S
  counted : KeptCounted S
  raced : InsertOnce.Raced UrrCall.cpu urrKey S.insertOnce

theorem bootInv_start {s : Maps} (h0 : s.percpu .urr_counters = ∅) : BootInv (Updates.start s : Updates N) := by
  have hempty : ∀ k, k ∉ urrKeys s := fun k hk => by
    rw [mem_urrKeys, h0] at hk
    exact Finmap.notMem_empty hk
  refine ⟨?_, fun u cpu _ => usage_of_not_mem (hempty _) cpu, ?_⟩
  · intro cpu c p hl
    cases hl
  · refine ⟨?_, fun _ => rfl, fun hk => absurd hk (hempty _), Nat.zero_le _, fun hl => absurd rfl hl⟩
    intro i c hl
    cases hl

/-- By induction on the run. -/
theorem run_bootInv {s : Maps} {acts : List (Act N)} {S : Updates N} (h0 : s.percpu .urr_counters = ∅)
    (h : exec (Updates.step H) (Updates.start s) acts = some S)
    (hs : Along (Updates.step H) Updates.HasSpace (Updates.start s) acts) : BootInv S :=
  exec_invariant (J := BootInv) (fun hs hi h => by
    have hu := step_updated h hs hi.inserting
    exact ⟨hu.inserting hi.inserting, hu.counted hi.counted, hi.raced.step (hu.insertOnce hi.inserting)⟩)
    hs h (bootInv_start h0)

/-- What the CPUs have kept is all that was kept. -/
theorem sum_keptOn (S : Updates N) (u : BitVec 32) (f : Tried (UrrCall N) → Nat) :
    ∑ cpu, ((S.keptOn u cpu).map f).sum = ((S.kept u).map f).sum :=
  InsertOnce.sum_parties UrrCall.cpu f _ _

theorem total_kept {S : Updates N} {u : BitVec 32} (hm : KeptCounted S) (hu : u ≠ 0) :
    total N S.maps u.toNat = ⟨∑ cpu, callBytes (S.keptOn u cpu) % 2 ^ 64, ∑ cpu, (S.keptOn u cpu).length % 2 ^ 64⟩ := by
  rw [total, Finset.sum_range, Finset.sum_range]
  simp only [hm u _ hu]

theorem BootInv.bootstrapped {S : Updates N} {u : BitVec 32} (hi : BootInv S) (hu : u ≠ 0) : Bootstrapped S u := by
  have hr := hi.raced
  have hfinished := finished_eq S hu
  have hlost : ∀ cpu, InsertOnce.lostOn UrrCall.cpu urrKey S.history u.toNat cpu = S.lostOn u cpu := fun cpu => by
    rw [InsertOnce.lostOn, hfinished]
    rfl
  have hkey : S.finished u = [] ↔ u.toNat ∉ urrKeys S.maps := by
    rw [← hfinished]
    exact hr.finished_eq_nil
  have hlt : ∀ k ∈ urrKeys S.maps, k < 2 ^ 32 := fun k hk => by
    obtain ⟨e, he⟩ := List.exists_mem_of_ne_nil _ (mt hr.finished_eq_nil.mp (not_not.mpr hk))
    have hke : urrKey e.call = some k := by simpa using (List.mem_filter.mp he).2
    rw [urrKey] at hke
    split at hke
    · cases hke
    · rw [← Option.some.inj hke]
      exact BitVec.isLt _
  refine ⟨fun cpu => hlost cpu ▸ hr.once, fun e es ho => ?_, fun raw hd => ?_⟩
  · have hne : S.finished u ≠ [] := by simp [ho]
    obtain ⟨e', es', hf, he, hl, -⟩ := hr.creator (not_not.mp (mt hkey.mpr hne))
    obtain ⟨rfl, -⟩ := List.cons.inj (hf.symm.trans (hfinished.trans ho))
    exact ⟨he, hlost e'.call.cpu ▸ hl⟩
  · refine ⟨total N S.maps u.toNat, ?_, ?_, ?_, fun hl => ?_, fun hl => ?_⟩
    · rw [read_urr_eq hd hlt]
      by_cases ho : S.finished u = []
      · rw [if_pos ho, if_neg (hkey.mp ho)]
      · rw [if_neg ho, if_pos (not_not.mp (mt hkey.mpr ho))]
    · rw [total_kept hi.counted hu]
    · rw [total_kept hi.counted hu]
    · have hp : (total N S.maps u.toNat).pkts_ul = (S.kept u).length := by
        rw [total_kept hi.counted hu]
        simp only [Nat.mod_eq_of_lt (hl _)]
        simpa using sum_keptOn S u fun _ => 1
      have hlen := InsertOnce.length_finished UrrCall.cpu urrKey S.history u.toNat
      rw [hfinished] at hlen
      rw [hp, hlen]
      refine Nat.add_le_add_left ?_ _
      by_cases ho : S.finished u = []
      · simp [InsertOnce.lostOn, hfinished, ho]
      · have hcard := hr.lost_lt (hfinished ▸ ho)
        rw [Fintype.card_fin] at hcard
        exact Nat.le_sub_one_of_lt hcard
    · rw [total_kept hi.counted hu]
      simp only [Nat.mod_eq_of_lt (hl _)]
      exact sum_keptOn S u _

/-- Each CPU loses one call for a URR at most, and the one that makes the entry none. What
`read_urr` reports is what the CPUs have kept. -/
theorem bootstrap_race {s : Maps} {acts : List (Act N)} {S : Updates N} {u : BitVec 32}
    (h0 : s.percpu .urr_counters = ∅) (h : exec (Updates.step H) (Updates.start s) acts = some S)
    (hs : Along (Updates.step H) Updates.HasSpace (Updates.start s) acts) (hu : u ≠ 0) : Bootstrapped S u :=
  (run_bootInv h0 h hs).bootstrapped hu

/-- Two CPUs find no entry, and both go on to insert. -/
def raceActs : List (Act 2) := [.call ⟨0, 7, 100⟩, .call ⟨1, 7, 60⟩, .insert 0, .insert 1]

theorem bootstrap_race_two : ∃ S, exec (Updates.step willing) (Updates.start .empty) raceActs = some S ∧
    (S.lostOn 7 1).length = 1 ∧ Bootstrapped S 7 := by
  have h : (exec (Updates.step willing) (Updates.start .empty) raceActs).map (fun S => (S.lostOn 7 1).length) =
      some 1 := by decide +kernel
  obtain ⟨S, hs, hl⟩ := Option.map_eq_some_iff.mp h
  exact ⟨S, hs, hl, bootstrap_race rfl hs (by decide +kernel) (by decide)⟩

/-! ## Counters that wrap -/

/-- Calls that find their entry, one after another. -/
theorem calls_found {c : UrrCall N} (hu : c.urr_id ≠ 0) (n : Nat) {S : Updates N} (hl : S.left c.cpu = none)
    (hk : c.urr_id.toNat ∈ urrKeys S.maps) (hs : (urrKeys S.maps).card < MAX_URRS) :
    ∃ S', exec (Updates.step H) S (List.replicate n (.call c)) = some S' ∧
      S'.history = S.history ++ List.replicate n ⟨c, true⟩ ∧
      Along (Updates.step H) Updates.HasSpace S (List.replicate n (.call c)) := by
  induction n generalizing S with
  | zero => exact ⟨S, rfl, (List.append_nil _).symm, trivial⟩
  | succ n ih =>
    obtain ⟨maps, hr, hc⟩ := upTo_found (H := H) (s := S.machine c.cpu) (n := c.pkt_len.toNat)
      (toNat_urr_id.mpr hu) hk
    have hstep : S.step H (.call c) = some ⟨maps, S.left, S.history ++ [⟨c, true⟩]⟩ := by
      rw [Updates.step, hl, hr]
    have hkeys : urrKeys maps = urrKeys S.maps := hc.keys.trans (Finset.insert_eq_of_mem hk)
    obtain ⟨S', he, hh, ha⟩ := ih (S := ⟨maps, S.left, S.history ++ [⟨c, true⟩]⟩) hl (by rwa [hkeys]) (by rwa [hkeys])
    refine ⟨S', exec_cons.mpr ⟨_, hstep, he⟩, ?_, (along_cons_some hstep).mpr ⟨hs, ha⟩⟩
    rw [hh, List.append_assoc]
    rfl

/-- `n` calls on one CPU after the one that makes the entry. -/
def oneCpu (n : Nat) : List (Act 1) := .call ⟨0, 7, 34⟩ :: .insert 0 :: List.replicate n (.call ⟨0, 7, 34⟩)

theorem calls_reported (n : Nat) : ∃ S, exec (Updates.step willing) (Updates.start .empty) (oneCpu n) = some S ∧
    Along (Updates.step willing) Updates.HasSpace (Updates.start .empty) (oneCpu n) ∧
    (S.finished 7).length = n + 1 ∧ ∀ raw, IsDump 1 S.maps .urr_counters raw →
      ∃ report : UrrReport, read_urr raw 7 = .ok (some report) ∧ report.pkts_ul = (n + 1) % 2 ^ 64 := by
  have hmade : (exec (Updates.step willing) (Updates.start .empty) (oneCpu 0)).map
      (fun S => (S.history, (S.left 0).isNone, decide (7 ∈ urrKeys S.maps ∧ (urrKeys S.maps).card < MAX_URRS))) =
        some ([⟨⟨0, 7, 34⟩, true⟩], true, true) := by
    decide +kernel
  obtain ⟨S₁, h1, hS⟩ := Option.map_eq_some_iff.mp hmade
  simp only [Prod.mk.injEq, Option.isNone_iff_eq_none, decide_eq_true_eq] at hS
  obtain ⟨hh, hl, hk, hs⟩ := hS
  obtain ⟨S, h2, hh', ha⟩ := calls_found (H := willing) (c := ⟨0, 7, 34⟩) (by decide) n hl hk hs
  have hrun : exec (Updates.step willing) (Updates.start .empty) (oneCpu n) = some S :=
    exec_append.mpr ⟨S₁, h1, h2⟩
  have halong : Along (Updates.step willing) Updates.HasSpace (Updates.start .empty) (oneCpu n) := by
    show Along _ _ _ (oneCpu 0 ++ List.replicate n (.call ⟨0, 7, 34⟩))
    exact (along_append h1).mpr ⟨by decide +kernel, ha⟩
  have hist : S.history = List.replicate (n + 1) ⟨⟨0, 7, 34⟩, true⟩ := by
    rw [hh', hh]
    rfl
  have hfinished : S.finished 7 = List.replicate (n + 1) ⟨⟨0, 7, 34⟩, true⟩ := by
    rw [Updates.finished, hist, List.filter_replicate]
    rfl
  have hkept : S.keptOn 7 0 = List.replicate (n + 1) ⟨⟨0, 7, 34⟩, true⟩ := by
    rw [Updates.keptOn, hfinished, List.filter_replicate]
    rfl
  refine ⟨S, hrun, halong, by rw [hfinished, List.length_replicate], fun raw hd => ?_⟩
  have hboot := (run_bootInv rfl hrun halong).bootstrapped (by decide : (7 : BitVec 32) ≠ 0)
  obtain ⟨report, hr, hp, -⟩ := hboot.report raw hd
  refine ⟨report, ?_, ?_⟩
  · rwa [if_neg (by rw [hfinished]; simp)] at hr
  · rw [hp, Fin.sum_univ_one, hkept, List.length_replicate]

/-- After `2 ^ 64` calls on one CPU, its URR has no packets again. -/
theorem bootstrap_wraps : ∃ S, exec (Updates.step willing) (Updates.start .empty) (oneCpu (2 ^ 64 - 1)) = some S ∧
    Along (Updates.step willing) Updates.HasSpace (Updates.start .empty) (oneCpu (2 ^ 64 - 1)) ∧
    (S.finished 7).length = 2 ^ 64 ∧ ∀ raw, IsDump 1 S.maps .urr_counters raw →
      ∃ report : UrrReport, read_urr raw 7 = .ok (some report) ∧ report.pkts_ul = 0 ∧
        ¬ (S.finished 7).length ≤ report.pkts_ul + (1 - 1) := by
  obtain ⟨S, h, ha, hl, hr⟩ := calls_reported (2 ^ 64 - 1)
  rw [Nat.sub_add_cancel (Nat.two_pow_pos 64)] at hl hr
  refine ⟨S, h, ha, hl, fun raw hd => ?_⟩
  obtain ⟨report, hu, hp⟩ := hr raw hd
  rw [Nat.mod_self] at hp
  refine ⟨report, hu, hp, ?_⟩
  rw [hl, hp]
  simp

end UPF
