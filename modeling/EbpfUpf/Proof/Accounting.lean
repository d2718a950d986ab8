import Mathlib.Order.Interval.Finset.Nat
import EbpfUpf.Proof.Agent
import EbpfUpf.Proof.Volume
import EbpfUpf.Spec.Accounting

/-!
# Accounting over a run

`Accounted` is the invariant, on the one CPU there is: `M_TC_URR_UPDATED` is the
sum of the packets of all URRs. A job keeps it if its packet finds an entry or
room for one (`job_accounted`), and so does a run of such jobs
(`usage_accounted`). Removing a session leaves its URR's entry where it is, so
that the room runs out (`usage_lost`).
-/

open Framework

namespace UPF

variable {N : Nat} {b : Build} {cpu : Nat} {s s' : Maps}

theorem mem_endings {idx : Metric} {ops : List (Op Ptr)} (h : idx ∈ [Metric.M_TC_MISS_FAR, .M_TC_FAR_DROP,
    .M_TC_FAR_BUFFER, .M_TC_DECAP_ERR, .M_TC_QER_DROP, .M_TC_FAR_FORWARD]) : .bump idx ∈ ops ↔ idx ∈ endings ops := by
  rw [endings, List.mem_filterMap]
  refine ⟨fun hm => ⟨_, hm, if_pos h⟩, ?_⟩
  rintro ⟨o, hm, ho⟩
  cases o with
  | bump i =>
    have hi : i = idx := by
      simp only at ho
      split at ho <;> simp_all
    exact hi ▸ hm
  | _ => exact absurd ho nofun

/-- A frame is counted in `tc_far_forward` if it is redirected. -/
theorem counted_iff {H : Helpers} {wire : Bytes} {u : Nat} : (Job.packet H wire).Counted b cpu s u ↔
    ((Job.packet H wire).redirected b cpu s u).isSome := by
  rw [Option.isSome_iff_exists, Job.Counted, mem_endings (by decide)]
  simp only [redirected_iff]
  by_cases g : IsGpdu wire
  · have he : endings _ = [(fateOf b cpu s H wire).metric] := tc_endings (H := H) (s := arrival cpu s wire) b g
    have hf : Metric.M_TC_FAR_FORWARD = (fateOf b cpu s H wire).metric ↔
        ∃ ifindex, fateOf b cpu s H wire = .forwarded ifindex := by
      cases fateOf b cpu s H wire <;> simp [Fate.metric]
    rw [he, List.mem_singleton, hf]
    constructor
    · rintro ⟨h, hu⟩
      exact ⟨_, hu, g, h, rfl⟩
    · rintro ⟨_, hu, -, h, -⟩
      exact ⟨h, hu⟩
  · have hp := (tc_other (H := H) (s := arrival cpu s wire) b g).1
    constructor
    · rintro ⟨h, -⟩
      rcases hp.mem rfl ((mem_endings (by decide)).mpr h) with h | h <;> cases h
    · rintro ⟨_, -, g', -⟩
      exact absurd g' g

/-- No other CPU has counted anything. -/
structure OneCpu (cpu : Nat) (s : Maps) : Prop where
  keys : ∀ k ∈ urrKeys s, k < 2 ^ 32
  usage_other : ∀ u c, c ≠ cpu → usage s u c = ⟨0, 0⟩
  metrics_other : ∀ c, c ≠ cpu → s.metrics c .M_TC_URR_UPDATED = 0
  lt : s.metrics cpu .M_TC_URR_UPDATED < 2 ^ 64

structure Accounted (cpu : Nat) (s : Maps) : Prop extends OneCpu cpu s where
  sum : s.metrics cpu .M_TC_URR_UPDATED = ∑ u ∈ urrKeys s, (usage s u cpu).pkts

theorem Accounted.uncounted (h : Accounted cpu s) (hu : Uncounted s s')
    (hm : ∀ c, s'.metrics c .M_TC_URR_UPDATED = s.metrics c .M_TC_URR_UPDATED) : Accounted cpu s' := by
  refine ⟨⟨by rw [hu.keys]; exact h.keys, fun u c hc => (hu.same u c).trans (h.usage_other u c hc),
    fun c hc => (hm c).trans (h.metrics_other c hc), by rw [hm]; exact h.lt⟩, ?_⟩
  rw [hm, h.sum, hu.keys]
  exact Finset.sum_congr rfl fun u _ => by rw [hu.same]

/-- The packets of a URR are those of its entry, or none. -/
theorem sum_pkts {u : Nat} (s : Maps) (cpu : Nat) : ∑ k ∈ urrKeys s, (usage s k cpu).pkts =
    (usage s u cpu).pkts + ∑ k ∈ (urrKeys s).erase u, (usage s k cpu).pkts := by
  by_cases hu : u ∈ urrKeys s
  · exact (Finset.add_sum_erase _ (fun k => (usage s k cpu).pkts) hu).symm
  · rw [usage_of_not_mem hu, Finset.erase_eq_of_notMem hu, Nat.zero_add]

/-- One packet more. -/
theorem sum_counted {u n : Nat} (hc : Counted u cpu n s s')
    (hlt : ∑ k ∈ urrKeys s, (usage s k cpu).pkts < 2 ^ 64 - 1) :
    ∑ k ∈ urrKeys s', (usage s' k cpu).pkts = ∑ k ∈ urrKeys s, (usage s k cpu).pkts + 1 := by
  have hrest : ∑ k ∈ (urrKeys s').erase u, (usage s' k cpu).pkts = ∑ k ∈ (urrKeys s).erase u, (usage s k cpu).pkts := by
    rw [hc.keys, Finset.erase_insert_eq_erase]
    exact Finset.sum_congr rfl fun k hk => by rw [hc.other k cpu (.inl (Finset.ne_of_mem_erase hk))]
  have hs := sum_pkts (u := u) s cpu
  rw [sum_pkts (u := u) s' cpu, hrest, hc.self, hs]
  simp only [Usage.add]
  omega

/-- Only a packet under a URR counts in `tc_urr_updated`. -/
theorem count_updated (u : Nat) (ret : Int) :
    (forwardCounts u ret).count .M_TC_URR_UPDATED = if u = 0 then 0 else 1 := by
  unfold forwardCounts urrCounts
  split <;> split <;> rfl

/-- A counted packet that finds its entry, or room for one, keeps the sum. -/
theorem Accounted.counted {u n : Nat} {ret : Int} (h : Accounted cpu s) (hu : u ≠ 0) (hlt : u < 2 ^ 32)
    (hc : Counted u cpu n s s') (hw : s.metrics cpu .M_TC_URR_UPDATED < 2 ^ 64 - 1)
    (hm : s'.metrics = (s.countAll cpu (forwardCounts u ret)).metrics) : Accounted cpu s' := by
  have hself : s'.metrics cpu .M_TC_URR_UPDATED = s.metrics cpu .M_TC_URR_UPDATED + 1 := by
    rw [hm, metrics_countAll_self h.lt, count_updated, if_neg hu]
    omega
  refine ⟨⟨?_, fun k c hne => (hc.other k c (.inr hne)).trans (h.usage_other k c hne), fun c hne => ?_, by omega⟩, ?_⟩
  · intro k hk
    rw [hc.keys] at hk
    rcases Finset.mem_insert.mp hk with rfl | hk
    · exact hlt
    · exact h.keys k hk
  · rw [hm, metrics_countAll_ne hne]
    exact h.metrics_other c hne
  · rw [hself, sum_counted hc (by rw [← h.sum]; exact hw), h.sum]

/-- What a packet that is not counted under a URR does to the counter. -/
theorem updated_of_count (h : Accounted cpu s) {idxs : List Metric} (h0 : idxs.count .M_TC_URR_UPDATED = 0)
    (hm : s'.metrics = (s.countAll cpu idxs).metrics) (c : Nat) :
    s'.metrics c .M_TC_URR_UPDATED = s.metrics c .M_TC_URR_UPDATED := by
  rw [hm]
  by_cases hc : c = cpu
  · rw [hc, metrics_countAll_self h.lt, h0, Nat.add_zero, Nat.mod_eq_of_lt h.lt]
  · rw [metrics_countAll_ne hc]

/-- The step lemma. -/
theorem job_accounted {job : Job} (h : Accounted cpu s) (hc : Countable b cpu s job)
    (hs : job.step b cpu s = some s') : Accounted cpu s' := by
  cases job with
  | call c => exact h.uncounted (call_uncounted hs) fun c => by rw [(call_percpu hs).2]
  | evict teid =>
    cases hs
    exact ⟨⟨h.keys, h.usage_other, h.metrics_other, h.lt⟩, h.sum⟩
  | packet H wire =>
    cases packet_step hs with
    | redirected r ret packet hres hsent hm hmetrics =>
      by_cases h0 : r.rule.urr_id = 0
      · exact h.uncounted (hm.uncounted (.inl h0)) (updated_of_count h (by rw [count_updated, if_pos h0]) hmetrics)
      · obtain ⟨hroom, hw⟩ := hc _ h0 (counted_iff.mpr (by rw [hsent]; rfl))
        exact h.counted h0 (resolve_fits hres).urr_id (hm.counted h0 hroom) hw hmetrics
    | other idxs hsent hu hcount hmetrics =>
      exact h.uncounted hu (updated_of_count h (List.count_eq_zero.mpr hcount) hmetrics)

/-- A counted packet adds one to its URR, whose other CPUs have counted nothing. -/
theorem OneCpu.total (h : OneCpu cpu s) (hcpu : cpu < N) (u : Nat) :
    (total N s u).pkts_ul = (usage s u cpu).pkts := by
  refine Finset.sum_eq_single_of_mem cpu (Finset.mem_range.mpr hcpu) fun c _ hc => ?_
  rw [h.usage_other u c hc]

theorem job_adds_one {job : Job} (h : Accounted cpu s) (hc : Countable b cpu s job) (hcpu : cpu < N) :
    AddsOne N b cpu s job := by
  intro u s' hu hjob hs
  have h' := job_accounted h hc hs
  rw [h'.total hcpu, h.total hcpu]
  obtain ⟨hroom, hw⟩ := hc u hu hjob
  cases job with
  | call | evict => exact hjob.elim
  | packet H wire =>
    obtain ⟨p, hp⟩ := Option.isSome_iff_exists.mp (counted_iff.mp hjob)
    cases packet_step hs with
    | redirected r ret packet hres hsent hm hmetrics =>
      obtain rfl := redirected_urr hres hp
      have hcount := hm.counted hu hroom
      have hle : (usage s r.rule.urr_id cpu).pkts ≤ ∑ k ∈ urrKeys s, (usage s k cpu).pkts := by
        rw [sum_pkts (u := r.rule.urr_id) s cpu]
        exact Nat.le_add_right _ _
      rw [← h.sum] at hle
      rw [hcount.self]
      show ((usage s r.rule.urr_id cpu).pkts + 1) % 2 ^ 64 = _
      omega
    | other idxs hsent _ _ _ => exact absurd hp (by rw [hsent u]; exact nofun)

/-- What the agent reads of one CPU. -/
theorem OneCpu.reported (h : OneCpu cpu s) (hcpu : cpu < N) {raw : List Entry} (hd : IsDump N s .urr_counters raw) :
    ∑ u ∈ urrKeys s, pktsOf raw u = ∑ u ∈ urrKeys s, (usage s u cpu).pkts ∧
    ∃ out, read_metrics (metrics_dump N s) = .ok out ∧
      out "tc_urr_updated" = some (s.metrics cpu .M_TC_URR_UPDATED) := by
  obtain ⟨out, hout, hname⟩ := read_metrics_eq N s
  refine ⟨Finset.sum_congr rfl fun u hu => ?_, out, hout, (hname .M_TC_URR_UPDATED).trans (congrArg some ?_)⟩
  · rw [pktsOf, read_urr_eq hd h.keys, if_pos hu]
    exact h.total hcpu u
  · refine (Finset.sum_eq_single_of_mem cpu (Finset.mem_range.mpr hcpu) fun c _ hc => ?_).trans (Nat.mod_eq_of_lt h.lt)
    rw [h.metrics_other c hc]
    rfl

theorem Accounted.reported (h : Accounted cpu s) (hcpu : cpu < N) : UsageAccounted N s := by
  intro raw hd
  obtain ⟨hp, out, hout, hu⟩ := h.toOneCpu.reported hcpu hd
  exact ⟨out, hout, by rw [hu, hp, h.sum]⟩

theorem Unused.accounted (h : Unused s) : Accounted cpu s := by
  have hempty : ∀ k, k ∉ urrKeys s := fun k hk => by
    rw [mem_urrKeys, h.usage] at hk
    exact Finmap.notMem_empty hk
  refine ⟨⟨fun k hk => absurd hk (hempty k), fun u c _ => usage_of_not_mem (hempty u) c, fun c _ => h.metrics c,
    by rw [h.metrics]; decide⟩, ?_⟩
  rw [h.metrics, Finset.eq_empty_of_forall_notMem hempty]
  rfl

/-- By induction on the run. -/
theorem along_adds_one {jobs : List Job} (h : Accounted cpu s) (hc : Along (Job.step b cpu) (Countable b cpu) s jobs)
    (hcpu : cpu < N) : Along (Job.step b cpu) (AddsOne N b cpu) s jobs := by
  induction jobs generalizing s with
  | nil => trivial
  | cons job jobs ih => exact ⟨job_adds_one h hc.1 hcpu, fun s₁ h₁ => ih (job_accounted h hc.1 h₁) (hc.2 s₁ h₁)⟩

/-- In a run in which each packet that is to be counted finds its entry or room
for one, each adds one to its URR, and `tc_urr_updated` is the sum of all. -/
theorem usage_accounted {jobs : List Job} (h0 : Unused s) (h : exec (Job.step b cpu) s jobs = some s')
    (hc : Along (Job.step b cpu) (Countable b cpu) s jobs) (hcpu : cpu < N) :
    UsageAccounted N s' ∧ Along (Job.step b cpu) (AddsOne N b cpu) s jobs := by
  refine ⟨?_, along_adds_one h0.accounted hc hcpu⟩
  exact (exec_invariant (fun hj hs hstep => job_accounted hs hj hstep) hc h h0.accounted).reported hcpu

theorem Unused.call {c : Command} (h : Unused s) (hs : (Job.call c).step b cpu s = some s') : Unused s' :=
  ⟨(congrFun (call_percpu hs).1 _).trans h.usage, fun c => (congrFun₂ (call_percpu hs).2 c _).trans (h.metrics c)⟩

theorem Unused.keys (h : Unused s) : urrKeys s = ∅ := by
  rw [urrKeys, h.usage]
  rfl

theorem Unused.countable (h : Unused s) (job : Job) : Countable b cpu s job := by
  intro u _ _
  refine ⟨.inr ?_, by rw [h.metrics]; decide⟩
  rw [h.keys]
  decide

theorem unused_empty : Unused .empty := ⟨rfl, fun _ => rfl⟩

theorem usage_accounted_one : ∃ s', exec (Job.step ⟨false, false, false⟩ 0) .empty oneGpdu = some s' ∧
    UsageAccounted 1 s' ∧
    Along (Job.step ⟨false, false, false⟩ 0) (AddsOne 1 ⟨false, false, false⟩ 0) .empty oneGpdu := by
  obtain ⟨s', h, -, -⟩ := oneGpdu_run
  have hc : Along (Job.step ⟨false, false, false⟩ 0) (Countable ⟨false, false, false⟩ 0) .empty oneGpdu :=
    ⟨unused_empty.countable _, fun s₁ h₁ => ⟨(unused_empty.call h₁).countable _, fun s₂ h₂ =>
      ⟨((unused_empty.call h₁).call h₂).countable _, fun _ _ => trivial⟩⟩⟩
  exact ⟨s', h, usage_accounted unused_empty h hc (by decide)⟩

/-! ## Room runs out -/

/-- A session with URR `u`, a G-PDU for it, and the end of the session. -/
def cycle (u : Nat) : List Job := [.call (.install_session 0x1000 1 0 1 32 u),
  .packet willing (gpduFrame 0x1000), .call (.remove_session 0x1000 1)]

/-- Sessions with the URRs from 1 to `n`, one after the other. -/
def longLived (n : Nat) : List Job :=
  .call (.install_far 1 1 5 0 0) :: (List.range n).flatMap fun u => cycle (u + 1)

/-- FAR 1 forwards, there is no QER, and no session is installed. -/
structure Idle (s : Maps) : Prop where
  far : s.lookup .far_table 1 = some (farBytes 1 5 0 0)
  qer : s.table .qer_table = ∅
  pdr : s.table .pdr_table = ∅
  bundle : s.table .tc_bundle_map = ∅

theorem call_step {c : Command} (h : Returns c.call s () s') : (Job.call c).step b cpu s = some s' :=
  congrArg (Option.map Prod.snd) h

theorem update_empty {m : MapName} {k : Nat} {v : Bytes} (hm : m.type = .HASH) (h : s.table m = ∅) :
    s.update m k v = .ok (s.put m k v) := by
  have hc : (s.table m).keys.card < m.max_entries := by
    rw [h, Finmap.keys_empty, Finset.card_empty]
    cases m with
    | perf_events => cases hm
    | _ => decide
  rw [Maps.update, hm]
  exact if_pos (.inr hc)

theorem install_runs {u : Nat} (h : Idle s) (hu : u < 2 ^ 32) :
    (Job.call (.install_session 0x1000 1 0 1 32 u)).step b cpu s = some (installed s 0x1000 1 0 1 32 u) := by
  have hf : SessionFits 1 0 1 32 u := ⟨by decide, by decide, by decide, by decide, fits_natCast hu, trivial⟩
  refine call_step ?_
  show Returns (install_session 0x1000 1 0 1 32 u) s () _
  rw [install_session_eq, returns_ite, sessionWrites, returns_update]
  refine ⟨hf, _, update_empty rfl h.pdr, returns_update.mpr ⟨_, update_empty rfl ?_, returns_ite.mpr ⟨by decide, ?_⟩⟩⟩
  · rw [Maps.table_put_ne _ _ _ (by decide)]
    exact h.bundle
  · exact returns_update.mpr ⟨_, rfl, returns_pure.mpr ⟨rfl, rfl⟩⟩

theorem resolve_installed {u : Nat} (h : Idle s) (hu : u < 2 ^ 32) :
    resolve (installed s 0x1000 1 0 1 32 u) 0x1000 = some ⟨1, ⟨1, 0, u, 32, 0⟩, ⟨1, 5, 0, 0⟩⟩ := by
  have ht : newTuple 1 0 u 32 = ⟨1, 0, u, 32, 0⟩ := rfl
  have hfits : (newTuple 1 0 u 32).Fits :=
    ⟨show 1 < 2 ^ 32 by decide, show 0 < 2 ^ 32 by decide, hu, show 32 < 2 ^ 32 by decide, Nat.two_pow_pos 32⟩
  have hs := installed_session (s := s) 0x1000 1 0 1 32 u 0x1000
  have hb := installed_bundle (s := s) 0x1000 1 0 1 32 u 1
  have hf := installed_other (s := s) 0x1000 1 0 1 32 u 1 (m := .far_table) (by decide)
  rw [h.far] at hf
  rw [resolve_eq hs ((congrArg _ (by decide)).trans hb) (by rw [activeTuple_zero hfits]; exact hf),
    activeTuple_zero hfits, ht]
  rfl

/-- A QER that is not installed limits nothing. -/
theorem qerAdmits_unset {cpu now n : Nat} (h : s.table .qer_table = ∅) : qerAdmits b s 0 cpu now n = true := by
  have hq : s.lookup .qer_table 0 = some (Maps.zeros 24) := by
    rw [Maps.lookup_array rfl (by decide), h, Finmap.lookup_empty]
    rfl
  rw [qerAdmits, hq]
  rfl

/-- The G-PDU of the session is forwarded. -/
theorem forwarded_installed {u : Nat} (h : Idle s) (hu : u < 2 ^ 32) :
    fateOf b cpu (installed s 0x1000 1 0 1 32 u) willing (gpduFrame 0x1000) = .forwarded 5 := by
  have ht : teidOf (gpduFrame 0x1000) = 0x1000 := by decide +kernel
  have hm : (entered b (arrival cpu (installed s 0x1000 1 0 1 32 u) (gpduFrame 0x1000))).maps =
      installed s 0x1000 1 0 1 32 u := by
    unfold entered
    split <;> rfl
  have hq : (installed s 0x1000 1 0 1 32 u).table .qer_table = ∅ := by
    rw [installed, Maps.table_put_ne _ _ _ (by decide), Maps.table_put_ne _ _ _ (by decide),
      Maps.table_put_ne _ _ _ (by decide)]
    exact h.qer
  rw [fateOf, ht, fate, hm, resolve_installed h hu]
  simp only [qerAdmits_unset hq]
  rfl

/-- What removes the session removes its keys. -/
theorem table_deleted {m : MapName} (hm : Maps.Hash m) (k : Nat) : (deleted m k s).table m = (s.table m).erase k := by
  unfold deleted
  cases hd : s.delete m k with
  | ok s' =>
    obtain ⟨rfl, -⟩ := Maps.delete_ok hd
    exact Function.update_self ..
  | error e =>
    have hn := Maps.delete_error hm hd
    rw [Maps.lookup_hash hm] at hn
    refine (Finmap.ext_lookup fun x => ?_).symm
    by_cases hx : x = k
    · rw [hx, Finmap.lookup_erase, hn]
    · rw [Finmap.lookup_erase_ne hx]

theorem table_deleted_ne {m m' : MapName} (h : m' ≠ m) (k : Nat) : (deleted m k s).table m' = s.table m' := by
  unfold deleted
  cases hd : s.delete m k with
  | ok s' =>
    obtain ⟨rfl, -⟩ := Maps.delete_ok hd
    exact Maps.table_drop_ne _ _ h
  | error e => rfl

theorem erase_insert_empty (k : Nat) (v : Bytes) :
    (Finmap.insert k v (∅ : Finmap fun _ : Nat => Bytes)).erase k = ∅ := by
  refine Finmap.ext_lookup fun x => ?_
  by_cases hx : x = k
  · rw [hx, Finmap.lookup_erase, Finmap.lookup_empty]
  · rw [Finmap.lookup_erase_ne hx, Finmap.lookup_insert_of_ne _ hx]

/-- The end of a session leaves no session, whatever its packets have counted. -/
theorem idle_removed {u : Nat} (h : Idle s) (hs : ∀ m, m ≠ .qer_state_shared →
    s'.table m = (installed s 0x1000 1 0 1 32 u).table m) : Idle (removed s' 0x1000 1) := by
  have hput : ∀ {m m' : MapName} {k : Nat} {v : Bytes} {s : Maps}, m' ≠ m → (s.put m k v).table m' = s.table m' :=
    fun hne => Maps.table_put_ne _ _ _ hne
  have hself : ∀ {m : MapName} {k : Nat} {v : Bytes} {s : Maps}, (s.put m k v).table m = (s.table m).insert k v :=
    Function.update_self ..
  constructor
  · rw [removed_other 0x1000 1 1 (by decide), ← h.far, ← installed_other 0x1000 1 0 1 32 u 1 (by decide)]
    exact Maps.lookup_congr (hs .far_table (by decide)) _
  · rw [removed, table_deleted_ne (by decide), table_deleted_ne (by decide), table_deleted_ne (by decide),
      hs .qer_table (by decide), installed, hput (by decide), hput (by decide), hput (by decide), h.qer]
  · rw [removed, table_deleted_ne (by decide), table_deleted (.inl rfl), table_deleted_ne (by decide),
      hs .pdr_table (by decide), installed, hput (by decide), hput (by decide), hself, h.pdr, erase_insert_empty]
  · rw [removed, table_deleted (.inl rfl), table_deleted_ne (by decide), table_deleted_ne (by decide),
      hs .tc_bundle_map (by decide), installed, hput (by decide), hself, hput (by decide), h.bundle, erase_insert_empty]

theorem remove_runs : (Job.call (.remove_session 0x1000 1)).step b cpu s = some (removed s 0x1000 1) := by
  refine call_step ?_
  show Returns (remove_session 0x1000 1) s () _
  rw [remove_session_eq, returns_ite, sessionDeletes, returns_delete]
  exact ⟨by decide, returns_ite.mpr ⟨by decide, returns_delete.mpr (returns_delete.mpr (returns_pure.mpr ⟨rfl, rfl⟩))⟩⟩

/-- The packet of a session is counted under its URR, if there is an entry or
room for one, and in `tc_urr_updated` in any case. -/
structure Cycled (cpu u : Nat) (s s' : Maps) : Prop where
  counted : HasRoom s u → ∃ n, Counted u cpu n s s'
  uncounted : ¬ HasRoom s u → Uncounted s s'
  metrics : ∃ ret, s'.metrics = (s.countAll cpu (forwardCounts u ret)).metrics

/-- The packet of a session. -/
theorem packet_cycled {u : Nat} (h : Idle s) (h0 : u ≠ 0) (hu : u < 2 ^ 32)
    (hs : (Job.packet willing (gpduFrame 0x1000)).step b cpu (installed s 0x1000 1 0 1 32 u) = some s') :
    (Job.packet willing (gpduFrame 0x1000)).Counted b cpu (installed s 0x1000 1 0 1 32 u) u ∧
      Cycled cpu u (installed s 0x1000 1 0 1 32 u) s' := by
  have g : IsGpdu (gpduFrame 0x1000) := by decide +kernel
  have ht : teidOf (gpduFrame 0x1000) = 0x1000 := by decide +kernel
  have hres := resolve_installed h hu
  rw [← ht] at hres
  have hred : (Job.packet willing (gpduFrame 0x1000)).redirected b cpu (installed s 0x1000 1 0 1 32 u) u = some _ :=
    redirected_iff.mpr ⟨congrArg (Option.map _) hres, g, ⟨5, forwarded_installed h hu⟩, rfl⟩
  refine ⟨counted_iff.mpr (by rw [hred]; rfl), ?_⟩
  cases packet_step hs with
  | redirected r ret packet hres' _ hm hmetrics =>
    cases hres'.symm.trans hres
    exact ⟨fun hr => ⟨_, hm.counted h0 hr⟩, fun hr => hm.uncounted (.inr hr), ret, hmetrics⟩
  | other idxs hn _ _ _ =>
    rw [hn u] at hred
    cases hred

theorem Cycled.of_call {u : Nat} {s₁ s₂ : Maps} (h : Cycled cpu u s₁ s₂) (h₁ : s₁.percpu = s.percpu)
    (hm₁ : s₁.metrics = s.metrics) (h₂ : s'.percpu = s₂.percpu) (hm₂ : s'.metrics = s₂.metrics) :
    Cycled cpu u s s' := by
  have hu₁ : Uncounted s s₁ := .of_percpu (by rw [h₁])
  have hu₂ : Uncounted s₂ s' := .of_percpu (by rw [h₂])
  refine ⟨fun hr => ?_, fun hr => ?_, ?_⟩
  · obtain ⟨n, hc⟩ := h.counted ((hu₁.hasRoom u).mpr hr)
    exact ⟨n, (hu₁.trans_counted hc).trans_uncounted hu₂⟩
  · exact (hu₁.trans (h.uncounted (mt (hu₁.hasRoom u).mp hr))).trans hu₂
  · obtain ⟨ret, hm⟩ := h.metrics
    exact ⟨ret, by rw [hm₂, hm, metrics_countAll hm₁]⟩

variable (b cpu) in
/-- A whole session. -/
theorem cycle_run {u : Nat} (h : Idle s) (h0 : u ≠ 0) (hu : u < 2 ^ 32) : ∃ s₁ s₂ s',
    (Job.call (.install_session 0x1000 1 0 1 32 u)).step b cpu s = some s₁ ∧
    (Job.packet willing (gpduFrame 0x1000)).step b cpu s₁ = some s₂ ∧
    (Job.call (.remove_session 0x1000 1)).step b cpu s₂ = some s' ∧
    (Job.packet willing (gpduFrame 0x1000)).Counted b cpu s₁ u ∧ Cycled cpu u s₁ s₂ ∧ Cycled cpu u s s' ∧ Idle s' := by
  have hi : (Job.call (.install_session 0x1000 1 0 1 32 u)).step b cpu s = some _ := install_runs h hu
  obtain ⟨x, hx⟩ := tc_runs b willing (arrival cpu (installed s 0x1000 1 0 1 32 u) (gpduFrame 0x1000))
  have hp : (Job.packet willing (gpduFrame 0x1000)).step b cpu (installed s 0x1000 1 0 1 32 u) = some x.2.maps := by
    rw [Job.step, hx]
    rfl
  have hr : (Job.call (.remove_session 0x1000 1)).step b cpu x.2.maps = some _ := remove_runs
  obtain ⟨hj, hc⟩ := packet_cycled h h0 hu hp
  refine ⟨_, _, _, hi, hp, hr, hj, hc, ?_, idle_removed h fun m hm => (run_keeps hx).table m hm⟩
  exact hc.of_call (call_percpu hi).1 (call_percpu hi).2 (call_percpu hr).1 (call_percpu hr).2

/-- After sessions with the URRs from 1 to `n`. -/
structure Filled (cpu n : Nat) (s : Maps) : Prop where
  idle : Idle s
  accounted : Accounted cpu s
  keys : urrKeys s = Finset.Icc 1 n
  updated : s.metrics cpu .M_TC_URR_UPDATED = n

theorem Filled.step {n : Nat} (h : Filled cpu n s) (hn : n < MAX_URRS) :
    ∃ s', exec (Job.step b cpu) s (cycle (n + 1)) = some s' ∧ Filled cpu (n + 1) s' := by
  have hn : n < 4096 := hn
  obtain ⟨s₁, s₂, s', h₁, h₂, h₃, -, -, hc, hidle⟩ := cycle_run b cpu h.idle
    (Nat.succ_ne_zero n) (by omega)
  have hroom : HasRoom s (n + 1) := .inr (by rw [h.keys, Nat.card_Icc, MAX_URRS]; omega)
  obtain ⟨len, hcount⟩ := hc.counted hroom
  obtain ⟨ret, hm⟩ := hc.metrics
  have hw : s.metrics cpu .M_TC_URR_UPDATED < 2 ^ 64 - 1 := by
    rw [h.updated]
    omega
  refine ⟨s', exec_cons.mpr ⟨_, h₁, exec_cons.mpr ⟨_, h₂, exec_cons.mpr ⟨_, h₃, rfl⟩⟩⟩, hidle,
    h.accounted.counted (Nat.succ_ne_zero n) (by omega) hcount hw hm, ?_, ?_⟩
  · rw [hcount.keys, h.keys]
    ext k
    simp only [Finset.mem_insert, Finset.mem_Icc]
    omega
  · rw [hm, metrics_countAll_self h.accounted.lt, count_updated, if_neg (Nat.succ_ne_zero n), h.updated]
    exact Nat.mod_eq_of_lt (by omega)

/-- By induction on the sessions. -/
theorem filled_run {n : Nat} (h0 : Filled cpu 0 s) (hn : n ≤ MAX_URRS) : ∃ s',
    exec (Job.step b cpu) s ((List.range n).flatMap fun u => cycle (u + 1)) = some s' ∧ Filled cpu n s' := by
  induction n with
  | zero => exact ⟨s, rfl, h0⟩
  | succ n ih =>
    obtain ⟨s₁, h₁, hf⟩ := ih (by omega)
    obtain ⟨s₂, h₂, hf₂⟩ := hf.step (b := b) (by omega)
    refine ⟨s₂, ?_, hf₂⟩
    rw [List.range_succ, List.flatMap_append, exec_append]
    refine ⟨s₁, h₁, ?_⟩
    rw [List.flatMap_cons, List.flatMap_nil, List.append_nil]
    exact h₂

/-- When the map is full, the packet of a new URR is counted in
`tc_urr_updated` only. -/
theorem Filled.lost (h : Filled cpu MAX_URRS s) (hcpu : cpu < N) :
    ∃ s', exec (Job.step b cpu) s (cycle (MAX_URRS + 1)) = some s' ∧ ¬ UsageAccounted N s' ∧
      ¬ Along (Job.step b cpu) (AddsOne N b cpu) s (cycle (MAX_URRS + 1)) := by
  obtain ⟨s₁, s₂, s', h₁, h₂, h₃, hj, hp, hc, -⟩ := cycle_run b cpu (u := MAX_URRS + 1) h.idle
    (by decide) (by decide)
  have hroom : ¬ HasRoom s (MAX_URRS + 1) := by
    rw [HasRoom, h.keys, Nat.card_Icc, Finset.mem_Icc, MAX_URRS]
    omega
  have hu₁ := call_uncounted h₁
  have hs₂ := hp.uncounted (mt (hu₁.hasRoom _).mp hroom)
  have hu := hc.uncounted hroom
  refine ⟨s', exec_cons.mpr ⟨_, h₁, exec_cons.mpr ⟨_, h₂, exec_cons.mpr ⟨_, h₃, rfl⟩⟩⟩, fun hacc => ?_, fun hal => ?_⟩
  · obtain ⟨ret, hm⟩ := hc.metrics
    have hupd : s'.metrics cpu .M_TC_URR_UPDATED = MAX_URRS + 1 := by
      rw [hm, metrics_countAll_self h.accounted.lt, count_updated, h.updated]
      rfl
    have hone : OneCpu cpu s' := ⟨by rw [hu.keys]; exact h.accounted.keys,
      fun u c hne => (hu.same u c).trans (h.accounted.usage_other u c hne),
      fun c hne => by rw [hm, metrics_countAll_ne hne]; exact h.accounted.metrics_other c hne, by rw [hupd]; decide⟩
    obtain ⟨raw, hd⟩ := exists_dump N s'
    obtain ⟨hsum, out, hout, hname⟩ := hone.reported hcpu hd
    obtain ⟨out', hout', hname'⟩ := hacc raw hd
    cases hout.symm.trans hout'
    have hpkts : ∑ u ∈ urrKeys s', (usage s' u cpu).pkts = MAX_URRS := by
      rw [hu.keys, ← h.updated, h.accounted.sum]
      exact Finset.sum_congr rfl fun u _ => by rw [hu.same]
    rw [hname, hupd, hsum, hpkts] at hname'
    exact absurd (Option.some.inj hname') (by decide)
  · have hadds := (hal.2 s₁ h₁).1 (MAX_URRS + 1) s₂ (by decide) hj h₂
    have hsame : total N s₂ (MAX_URRS + 1) = total N s₁ (MAX_URRS + 1) := by
      simp only [total, hs₂.same]
    rw [hsame] at hadds
    omega

theorem filled_zero (b : Build) (cpu : Nat) :
    ∃ s, (Job.call (.install_far 1 1 5 0 0)).step b cpu .empty = some s ∧ Filled cpu 0 s := by
  have hu : Unused (Maps.put .empty .far_table 1 (farBytes 1 5 0 0)) := ⟨rfl, fun _ => rfl⟩
  have ht : ∀ m, m ≠ .far_table → (Maps.put .empty .far_table 1 (farBytes 1 5 0 0)).table m = ∅ := fun m hm =>
    Maps.table_put_ne _ _ _ hm
  exact ⟨_, rfl, ⟨Maps.lookup_put_array rfl _ (by decide), ht _ (by decide), ht _ (by decide), ht _ (by decide)⟩,
    hu.accounted, hu.keys.trans (by decide), rfl⟩

theorem longLived_succ (n : Nat) : longLived (n + 1) = longLived n ++ cycle (n + 1) := by
  rw [longLived, longLived, List.range_succ, List.flatMap_append, List.flatMap_cons, List.flatMap_nil,
    List.append_nil, List.cons_append]

/-- After 4096 sessions, none of them live, the packets of the next URR are not
counted under it, though `tc_urr_updated` counts them. -/
theorem usage_lost : ∃ s', exec (Job.step ⟨false, false, false⟩ 0) .empty (longLived 4097) = some s' ∧
    ¬ UsageAccounted 1 s' ∧ ¬ Along (Job.step ⟨false, false, false⟩ 0) (AddsOne 1 ⟨false, false, false⟩ 0) .empty
      (longLived 4097) := by
  obtain ⟨s₀, h₀, hf₀⟩ := filled_zero ⟨false, false, false⟩ 0
  obtain ⟨s₁, h₁, hf₁⟩ := filled_run (b := ⟨false, false, false⟩) hf₀ (Nat.le_refl MAX_URRS)
  obtain ⟨s', h₂, hacc, hal⟩ := hf₁.lost (N := 1) (b := ⟨false, false, false⟩) (by decide)
  have h : exec (Job.step ⟨false, false, false⟩ 0) .empty (longLived MAX_URRS) = some s₁ :=
    exec_cons.mpr ⟨s₀, h₀, h₁⟩
  rw [longLived_succ 4096]
  exact ⟨s', exec_append.mpr ⟨s₁, h, h₂⟩, hacc, fun hh => hal ((along_append h).mp hh).2⟩

end UPF
