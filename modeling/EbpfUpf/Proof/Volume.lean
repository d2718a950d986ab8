import Mathlib.Data.Nat.ModEq
import EbpfUpf.Proof.Jobs
import EbpfUpf.Proof.Report

/-!
# Metered volume

`skb->len` has the Ethernet header in it, so that each packet is metered with
14 bytes more than it has: by induction on the run, what a URR has counted is
the volume of the packets redirected under it and 14 bytes for each
(`run_usage`). `metered_volume_iff` says when this makes no difference.
-/

open Framework

namespace UPF

variable {N : Nat} {b : Build} {cpu : Nat} {s s' : Maps} {u : Nat}

/-- What a job does to the usage of a URR, on its CPU and on the others. -/
theorem job_usage {job : Job} (h : job.step b cpu s = some s') (hr : Roomy b cpu s job) (hu : u ≠ 0) :
    usage s' u cpu = ((job.redirected b cpu s u).toList.foldl (fun x p => x.add (p.length + 14)) (usage s u cpu)) ∧
    ∀ c, c ≠ cpu → usage s' u c = usage s u c := by
  cases job with
  | call c => exact ⟨(call_uncounted h).same u cpu, fun c _ => (call_uncounted h).same u c⟩
  | evict teid =>
    cases h
    exact ⟨rfl, fun _ _ => rfl⟩
  | packet H wire =>
    cases packet_step h with
    | redirected r ret packet hres hsent hm _ =>
      by_cases hru : r.rule.urr_id = u
      · subst hru
        have hc := hm.counted hu (hr _ hu (by rw [hsent]; rfl))
        rw [hsent]
        exact ⟨hc.self, fun c hne => hc.other _ _ (.inr hne)⟩
      · have hn : (Job.packet H wire).redirected b cpu s u = none := by
          rw [Option.eq_none_iff_forall_ne_some]
          exact fun p hp => hru (redirected_urr hres hp).symm
        rw [hn]
        by_cases h0 : r.rule.urr_id = 0
        · have hc := hm.uncounted (.inl h0)
          exact ⟨hc.same u cpu, fun c _ => hc.same u c⟩
        · have hc := hm.counted h0 (hr _ h0 (by rw [hsent]; rfl))
          exact ⟨hc.other _ _ (.inl (Ne.symm hru)), fun c _ => hc.other _ _ (.inl (Ne.symm hru))⟩
    | other idxs hsent hc _ _ =>
      rw [hsent u]
      exact ⟨hc.same u cpu, fun c _ => hc.same u c⟩

/-- The entries that a job makes have the URRs of rules for keys. -/
theorem job_keys {job : Job} (h : job.step b cpu s = some s') (hk : ∀ k ∈ urrKeys s, k < 2 ^ 32) :
    ∀ k ∈ urrKeys s', k < 2 ^ 32 := by
  cases job with
  | call c => rwa [(call_uncounted h).keys]
  | evict teid =>
    cases h
    exact hk
  | packet H wire =>
    cases packet_step h with
    | redirected r ret packet hres _ hm _ =>
      have hlt : r.rule.urr_id < 2 ^ 32 := (resolve_fits hres).urr_id
      by_cases hc : r.rule.urr_id = 0 ∨ ¬ HasRoom s r.rule.urr_id
      · rwa [(hm.uncounted hc).keys]
      · obtain ⟨h0, hroom⟩ := not_or.mp hc
        rw [(hm.counted h0 (not_not.mp hroom)).keys]
        intro k hk'
        rcases Finset.mem_insert.mp hk' with rfl | hk'
        · exact hlt
        · exact hk k hk'
    | other idxs _ hc _ _ => rwa [hc.keys]

/-- By induction on the run. -/
theorem run_usage {jobs : List Job} (h : exec (Job.step b cpu) s jobs = some s')
    (hr : Along (Job.step b cpu) (Roomy b cpu) s jobs) (hu : u ≠ 0) :
    usage s' u cpu = (redirected b cpu u s jobs).foldl (fun x p => x.add (p.length + 14)) (usage s u cpu) ∧
    ∀ c, c ≠ cpu → usage s' u c = usage s u c := by
  induction jobs generalizing s with
  | nil =>
    cases h
    exact ⟨rfl, fun _ _ => rfl⟩
  | cons job jobs ih =>
    obtain ⟨s₁, h₁, h₂⟩ := exec_cons.mp h
    obtain ⟨hj, ho⟩ := job_usage h₁ hr.1 hu
    obtain ⟨hi, ho'⟩ := ih h₂ (hr.2 s₁ h₁)
    refine ⟨?_, fun c hc => (ho' c hc).trans (ho c hc)⟩
    rw [hi, redirected, h₁, List.foldl_append, ← hj]
    rfl

theorem run_keys {jobs : List Job} (h : exec (Job.step b cpu) s jobs = some s')
    (hk : ∀ k ∈ urrKeys s, k < 2 ^ 32) : ∀ k ∈ urrKeys s', k < 2 ^ 32 :=
  exec_invariant (P := fun _ _ => True) (fun _ hk h => job_keys h hk) (along_of_forall (fun _ _ _ => trivial) s) h hk

theorem bytes_foldl {packets : List Bytes} {x : Usage} (hx : x.bytes < 2 ^ 64) :
    (packets.foldl (fun x p => x.add (p.length + 14)) x).bytes =
      (x.bytes + volume packets + 14 * packets.length) % 2 ^ 64 := by
  induction packets generalizing x with
  | nil => exact (Nat.mod_eq_of_lt hx).symm
  | cons p packets ih =>
    rw [List.foldl_cons, ih (Nat.mod_lt _ (by decide)), Usage.add]
    simp only [volume, List.map_cons, List.sum_cons, List.length_cons]
    rw [Nat.add_assoc, Nat.mod_add_mod]
    congr 1
    ring

/-- A packet that a QER limits is charged its Ethernet header as well. -/
theorem charges_iff {job : Job} (h : job.step b cpu s = some s') :
    ChargesInner b cpu u s job ↔ Unlimited b cpu u s job := by
  cases job with
  | call | evict => exact Iff.rfl
  | packet H wire =>
    refine ⟨fun hc packet qv qer_id hl => ?_, fun hn packet qv qer_id s' hl _ => absurd hl (hn packet qv qer_id)⟩
    have hin := hc packet qv qer_id s' hl h
    cases packet_step h with
    | redirected r ret packet' hres hsent hm _ =>
      obtain rfl := redirected_urr hres hl.redirected
      cases hsent.symm.trans hl.redirected
      have hq := hl.rule
      rw [hres] at hq
      obtain rfl : r.rule.qer_id = qer_id := Option.some.inj hq
      have hout := hm.charged qv hl.qer hl.limits
      omega
    | other idxs hsent _ _ _ =>
      have := hl.redirected
      rw [hsent u] at this
      cases this

/-- What a run that starts without any usage reports of a URR. -/
theorem run_reports {jobs : List Job} (h0 : s.percpu .urr_counters = ∅)
    (h : exec (Job.step b cpu) s jobs = some s') (hr : Along (Job.step b cpu) (Roomy b cpu) s jobs) (hcpu : cpu < N)
    (hu : u ≠ 0) : ReportsBytes N s' u
      ((volume (redirected b cpu u s jobs) + 14 * (redirected b cpu u s jobs).length) % 2 ^ 64) := by
  have hempty : ∀ k, k ∉ urrKeys s := fun k hk => by
    rw [mem_urrKeys, h0] at hk
    exact Finmap.notMem_empty hk
  obtain ⟨hself, hother⟩ := run_usage h hr hu
  have htotal : (total N s' u).bytes_ul = (usage s' u cpu).bytes := by
    refine Finset.sum_eq_single_of_mem cpu (Finset.mem_range.mpr hcpu) fun c _ hc => ?_
    rw [hother c hc, usage_of_not_mem (hempty u)]
  have hbytes : (usage s' u cpu).bytes =
      (volume (redirected b cpu u s jobs) + 14 * (redirected b cpu u s jobs).length) % 2 ^ 64 := by
    rw [hself, bytes_foldl (Bytes.get_lt _ _ 8), usage_of_not_mem (hempty u), Nat.zero_add]
  intro raw hd
  refine ⟨_, read_urr_eq hd (run_keys h fun k hk => absurd hk (hempty k)) u, ?_⟩
  rw [← hbytes]
  by_cases hk : u ∈ urrKeys s'
  · rw [if_pos hk]
    exact htotal
  · rw [if_neg hk, usage_of_not_mem hk]
    rfl

theorem ReportsBytes.unique {n m : Nat} (hn : ReportsBytes N s u n) (hm : ReportsBytes N s u m) : n = m := by
  obtain ⟨raw, hd⟩ := exists_dump N s
  obtain ⟨r, hr, rfl⟩ := hn raw hd
  obtain ⟨r', hr', rfl⟩ := hm raw hd
  cases hr.symm.trans hr'
  rfl

/-- When 14 bytes for each of `k` packets are lost in 64 bits. -/
theorem wraps_iff {v k : Nat} : (v + 14 * k) % 2 ^ 64 = v ↔ 2 ^ 63 ∣ k ∧ v < 2 ^ 64 := by
  have h14 : 14 * k = 2 * (7 * k) := by ring
  constructor
  · intro h
    have hv : v < 2 ^ 64 := h ▸ Nat.mod_lt _ (Nat.two_pow_pos 64)
    have hm : v + 14 * k ≡ v + 0 [MOD 2 ^ 64] := h.trans (Nat.mod_eq_of_lt hv).symm
    have hd : 2 ^ 64 ∣ 14 * k := (Nat.modEq_zero_iff_dvd).mp (Nat.ModEq.add_left_cancel' v hm)
    rw [h14, pow_succ' 2 63] at hd
    have h7 : 2 ^ 63 ∣ 7 * k := Nat.dvd_of_mul_dvd_mul_left (Nat.two_pos) hd
    exact ⟨(Nat.Coprime.pow_left 63 (by decide : Nat.Coprime 2 7)).dvd_of_dvd_mul_left h7, hv⟩
  · rintro ⟨⟨q, rfl⟩, hv⟩
    have hq : 14 * (2 ^ 63 * q) = 2 ^ 64 * (7 * q) := by ring
    rw [hq, Nat.add_mul_mod_self_left, Nat.mod_eq_of_lt hv]

/-- The meters of a URR have the lengths of the packets redirected under it only
where there are none of them, or so many that their Ethernet headers are lost in
the 64 bits of the counter, and none that a QER charges. -/
theorem metered_volume_iff {jobs : List Job} (h0 : s.percpu .urr_counters = ∅)
    (h : exec (Job.step b cpu) s jobs = some s') (hr : Along (Job.step b cpu) (Roomy b cpu) s jobs) (hcpu : cpu < N)
    (hu : u ≠ 0) : VolumeMetered N b cpu u s jobs s' ↔
      2 ^ 63 ∣ (redirected b cpu u s jobs).length ∧ volume (redirected b cpu u s jobs) < 2 ^ 64 ∧
        Along (Job.step b cpu) (Unlimited b cpu u) s jobs := by
  have hrep := run_reports h0 h hr hcpu hu
  rw [VolumeMetered, along_congr charges_iff h, ← and_assoc]
  refine and_congr_left fun _ => ?_
  refine ⟨fun hv => wraps_iff.mp (hrep.unique hv), fun hv => ?_⟩
  rw [wraps_iff.mpr hv] at hrep
  exact hrep

/-! ## Room -/

theorem job_keys_subset {job : Job} (h : job.step b cpu s = some s') : urrKeys s ⊆ urrKeys s' := by
  cases job with
  | call c => rw [(call_uncounted h).keys]
  | evict teid =>
    cases h
    exact subset_rfl
  | packet H wire =>
    cases packet_step h with
    | redirected r ret packet _ _ hm _ =>
      by_cases hc : r.rule.urr_id = 0 ∨ ¬ HasRoom s r.rule.urr_id
      · rw [(hm.uncounted hc).keys]
      · obtain ⟨h0, hroom⟩ := not_or.mp hc
        rw [(hm.counted h0 (not_not.mp hroom)).keys]
        exact Finset.subset_insert _ _
    | other idxs _ hc _ _ => rw [hc.keys]

theorem run_keys_subset {jobs : List Job} (h : exec (Job.step b cpu) s jobs = some s') : urrKeys s ⊆ urrKeys s' :=
  exec_invariant (J := fun x => urrKeys s ⊆ urrKeys x) (P := fun _ _ => True)
    (fun _ hs h => hs.trans (job_keys_subset h)) (along_of_forall (fun _ _ _ => trivial) s) h subset_rfl

/-- There was room all along, if there is some at the end. -/
theorem roomy_of_card {jobs : List Job} (h : exec (Job.step b cpu) s jobs = some s')
    (hc : (urrKeys s').card < MAX_URRS) : Along (Job.step b cpu) (Roomy b cpu) s jobs := by
  induction jobs generalizing s with
  | nil => trivial
  | cons job jobs ih =>
    refine ⟨fun u _ _ => .inr ((Finset.card_le_card (run_keys_subset h)).trans_lt hc), fun s₁ h₁ => ?_⟩
    obtain ⟨s₂, h₂, h₃⟩ := exec_cons.mp h
    cases h₁.symm.trans h₂
    exact ih h₃

/-- A FAR that forwards, a session with URR 7, and a G-PDU for it. -/
def oneGpdu : List Job := [.call (.install_far 1 1 5 0 0), .call (.install_session 0x1000 1 0 1 32 7),
  .packet willing (gpduFrame 0x1000)]

theorem oneGpdu_run : ∃ s', exec (Job.step ⟨false, false, false⟩ 0) .empty oneGpdu = some s' ∧
    (urrKeys s').card < MAX_URRS ∧ redirected ⟨false, false, false⟩ 0 7 .empty oneGpdu = [List.replicate 20 0] := by
  have h : (exec (Job.step ⟨false, false, false⟩ 0) .empty oneGpdu).map (fun s' => (urrKeys s').card) = some 1 := by
    decide +kernel
  obtain ⟨s', hs, hc⟩ := Option.map_eq_some_iff.mp h
  exact ⟨s', hs, by rw [hc]; decide, by decide +kernel⟩

theorem metered_volume_one : ∃ s', exec (Job.step ⟨false, false, false⟩ 0) .empty oneGpdu = some s' ∧
    (VolumeMetered 1 ⟨false, false, false⟩ 0 7 .empty oneGpdu s' ↔
      2 ^ 63 ∣ (redirected ⟨false, false, false⟩ 0 7 .empty oneGpdu).length ∧
        volume (redirected ⟨false, false, false⟩ 0 7 .empty oneGpdu) < 2 ^ 64 ∧
        Along (Job.step ⟨false, false, false⟩ 0) (Unlimited ⟨false, false, false⟩ 0 7) .empty oneGpdu) := by
  obtain ⟨s', h, hc, -⟩ := oneGpdu_run
  exact ⟨s', h, metered_volume_iff rfl h (roomy_of_card h hc) (by decide) (by decide)⟩

/-- An IP packet of 20 bytes is metered as 34. -/
theorem ethernet_header_metered : ∃ s', exec (Job.step ⟨false, false, false⟩ 0) .empty oneGpdu = some s' ∧
    Along (Job.step ⟨false, false, false⟩ 0) (Roomy ⟨false, false, false⟩ 0) .empty oneGpdu ∧
    redirected ⟨false, false, false⟩ 0 7 .empty oneGpdu = [List.replicate 20 0] ∧ ReportsBytes 1 s' 7 34 ∧
    ¬ VolumeMetered 1 ⟨false, false, false⟩ 0 7 .empty oneGpdu s' := by
  obtain ⟨s', h, hc, hp⟩ := oneGpdu_run
  have hr := roomy_of_card h hc
  have hrep := run_reports (N := 1) (u := 7) rfl h hr (by decide) (by decide)
  rw [hp] at hrep
  refine ⟨s', h, hr, hp, hrep, fun hv => ?_⟩
  have h1 := hv.1
  rw [hp] at h1
  exact absurd (h1.unique hrep) (by decide)

end UPF
