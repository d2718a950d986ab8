import Mathlib.Algebra.Order.Field.Rat
import Mathlib.Tactic.FieldSimp
import Mathlib.Tactic.Linarith
import EbpfUpf.Framework.Lock
import EbpfUpf.Proof.Bucket

/-!
# Rate enforcement

What the calls of `upf_qer_admit` for one QER admit in a window of time. In
the default build it is at most the burst and the rate's worth of bytes for
each CPU (`percpu_rate`). With `UPF_QER_SHARED_LOCK` it is that once, for any
number of CPUs and any interleaving of their calls, as long as each call takes
the lock with a time that is not before the one it finds (`shared_rate`).
Otherwise the time between the two is credited twice, and more is admitted
(`shared_rate_overshoot`).
-/

open Framework

namespace UPF

variable {N : Nat} {qer_id : Nat} {qv : Bytes} {s s' : Maps}

/-- From a bound in whole bytes and ns to one in bytes. -/
theorem rate_of_mul_le {x n B R T : Nat} (h : 8000000000 * x ≤ n * (8000000000 * B + R * T)) :
    (x : ℚ) ≤ n * (B + R * T / 8000000000) := by
  have h' : (8000000000 : ℚ) * x ≤ n * (8000000000 * B + R * T) := by exact_mod_cast h
  have e : (n : ℚ) * (B + R * T / 8000000000) = n * (8000000000 * B + R * T) / 8000000000 := by
    field_simp
  rw [e, le_div_iff₀ (by norm_num)]
  linarith only [h']

/-! ## A bucket for each CPU -/

/-- The buckets of a QER, by CPU. -/
def cpuBuckets (N qer_id : Nat) (s : Maps) (cpu : Fin N) : Bucket := BucketMap.percpu.bucket qer_id cpu s

theorem percpu_other (h : BucketMap.percpu.Sets qer_id cpu s s' b) {cpu' : Nat} (hc : cpu' ≠ cpu) :
    BucketMap.percpu.bucket qer_id cpu' s' = BucketMap.percpu.bucket qer_id cpu' s := by
  rcases h.eq with rfl | ⟨v, rfl⟩
  · rfl
  · simp only [BucketMap.bucket, Maps.elem_setElem_cpu (.inl rfl : Maps.PerCpu BucketMap.percpu.map) hc]

theorem cpuBuckets_sets {cpu : Fin N} {b : Bucket} (h : BucketMap.percpu.Sets qer_id cpu s s' b) :
    cpuBuckets N qer_id s' = Function.update (cpuBuckets N qer_id s) cpu b := by
  funext i
  by_cases hi : i = cpu
  · subst hi
    rw [Function.update_self]
    exact h.bucket
  · rw [Function.update_of_ne hi]
    exact percpu_other h fun e => hi (Fin.ext e)

theorem elapsed_percpu_eq {now last : Nat} (hn : now < 2 ^ 64) (hl : last ≤ now) :
    elapsed_percpu now last = now - last := by
  unfold elapsed_percpu
  omega

/-- A call on a CPU whose clock has not gone back is a draw on that CPU's bucket. -/
theorem percpu_step {b : Build} (hb : b.qer_shared_lock = false) {c : Call N} (hq : Limits qer_id qv s)
    (hl : (cpuBuckets N qer_id s c.cpu).last ≤ c.now) : ∃ r s' t,
    (admission b qer_id c.pkt_len).run c.kernel s = some (r, s') ∧ Limits qer_id qv s' ∧
    (cpuBuckets N qer_id s c.cpu).Draw (qv.get qer_val.burst_bytes 4) (qv.get qer_val.mbr_ul_bps 8)
      8000000000 c.now (amount r c.pkt_len) t ∧
    cpuBuckets N qer_id s' = Function.update (cpuBuckets N qer_id s) c.cpu t := by
  obtain ⟨s', hr, hs⟩ := call_run c b hq
  rw [BucketMap.of, hb, if_neg (by decide)] at hr hs
  exact ⟨_, s', _, hr, ⟨(hs.lookup (by decide) _).trans hq.1, hq.2⟩,
    taken_draw (elapsed_percpu_eq c.now_lt hl).le, cpuBuckets_sets hs⟩

/-- The bytes admitted in the window of `T` ns from `w`. -/
def admitted (w T : Nat) (rs : List (Call N × Bool)) : Nat :=
  ((rs.filter fun r => r.2 ∧ w ≤ r.1.now ∧ r.1.now ≤ w + T).map fun r => r.1.pkt_len).sum

theorem admitted_eq_spent {ι : Type} (who : Call N → ι) (w T : Nat) (rs : List (Call N × Bool)) :
    admitted w T rs = spent w T (rs.map fun r => ⟨who r.1, r.1.now, amount r.2 r.1.pkt_len⟩) := by
  induction rs with
  | nil => rfl
  | cons r rs ih =>
    obtain ⟨c, r⟩ := r
    rw [List.map_cons, spent_cons, ← ih, admitted, List.filter_cons]
    by_cases hw : w ≤ c.now ∧ c.now ≤ w + T
    · cases r <;> simp [hw, amount, admitted]
    · simp [hw, admitted]

/-- The calls of a run whose clocks do not go back all return. -/
theorem percpu_calls {b : Build} (hb : b.qer_shared_lock = false) {calls : List (Call N)}
    (hq : Limits qer_id qv s) (hpos : ∀ c ∈ calls, 0 < c.now)
    (hmono : calls.Pairwise fun c d => c.cpu = d.cpu → c.now ≤ d.now)
    (hlast : ∀ c ∈ calls, (cpuBuckets N qer_id s c.cpu).last ≤ c.now) : ∃ rs s',
    Serial Call.kernel (fun c s => 0 < c.now ∧ (cpuBuckets N qer_id s c.cpu).last ≤ c.now)
      (fun c => upf_qer_admit b qer_id c.pkt_len) s rs s' ∧ rs.map Prod.fst = calls := by
  induction calls generalizing s with
  | nil => exact ⟨[], s, .nil s, rfl⟩
  | cons c calls ih =>
    obtain ⟨hmc, hmono⟩ := List.pairwise_cons.mp hmono
    have hl := hlast c List.mem_cons_self
    obtain ⟨r, s₁, t, hr, hq₁, hd, hu⟩ := percpu_step hb hq hl
    obtain ⟨rs, s', hs, hm⟩ := ih hq₁ (fun d hd => hpos d (List.mem_cons_of_mem _ hd)) hmono (by
      intro d hd'
      rw [hu]
      by_cases e : d.cpu = c.cpu
      · rw [e, Function.update_self, hd.last]
        exact hmc d hd' e.symm
      · rw [Function.update_of_ne e]
        exact hlast d (List.mem_cons_of_mem _ hd'))
    exact ⟨(c, r) :: rs, s', .cons ⟨hpos c List.mem_cons_self, hl⟩ hr hs, by rw [List.map_cons, hm]⟩

/-- In the default build, what `N` CPUs admit in any window of `T` ns is at
most `N` times what a single bucket may: the burst, and `T` ns at the rate. -/
theorem percpu_rate {b : Build} (hb : b.qer_shared_lock = false) (hq : Limits qer_id qv s)
    (calls : List (Call N)) (hpos : ∀ c ∈ calls, 0 < c.now)
    (hmono : calls.Pairwise fun c d => c.cpu = d.cpu → c.now ≤ d.now)
    (hlast : ∀ c ∈ calls, (cpuBuckets N qer_id s c.cpu).last ≤ c.now) : ∃ rs s',
    runAll Call.kernel (fun c => upf_qer_admit b qer_id c.pkt_len) calls s = some (rs, s') ∧
    ∀ w T : Nat, (admitted w T rs : ℚ) ≤
      N * (qv.get qer_val.burst_bytes 4 + qv.get qer_val.mbr_ul_bps 8 * T / 8000000000) := by
  obtain ⟨rs, s', hs, rfl⟩ := percpu_calls hb hq hpos hmono hlast
  refine ⟨rs, s', hs.runAll_eq, fun w T => rate_of_mul_le ?_⟩
  have hd := Draws.of_serial (cpuBuckets N qer_id) Call.cpu Call.now (fun c r => amount r c.pkt_len)
    (L := Limits qer_id qv) (fun hc hq hr => by
      obtain ⟨r, s₁, t, hr', hq', hd, hu⟩ := percpu_step hb hq hc.2
      obtain ⟨rfl, rfl⟩ := Prod.mk.inj (Option.some.inj (hr'.symm.trans hr))
      exact ⟨hq', t, hd, hc.2, hc.1, hu⟩) hs hq
  rw [admitted_eq_spent Call.cpu]
  simpa using hd.spent_le w T

/-! ## One bucket under a lock -/

def takesLock : Op Ptr → Bool
  | .spin_lock _ => true
  | _ => false

def givesLock : Op Ptr → Bool
  | .spin_unlock _ => true
  | _ => false

section Shared

variable {ι : Type} [DecidableEq ι] (calls : ι → Call N)

/-- One step of one of the calls, which contend for the lock. -/
abbrev contend := Pool.step (α := Bool) (fun i => (calls i).kernel) takesLock givesLock

/-- The calls before they start. -/
def contenders (b : Build) (qer_id : Nat) (s : Maps) : Pool (BpfOps Ptr) ι Bool Maps :=
  ⟨s, none, fun i => upf_qer_admit b qer_id (calls i).pkt_len⟩

/-- The bucket that all CPUs share. -/
def sharedBucket (qer_id : Nat) (s : Maps) : Bucket := BucketMap.shared.bucket qer_id 0 s

theorem sharedBucket_eq (qer_id cpu : Nat) (s : Maps) :
    BucketMap.shared.bucket qer_id cpu s = sharedBucket qer_id s := by
  simp only [sharedBucket, BucketMap.bucket, Maps.elem_shared (rfl : BucketMap.shared.map.type = .ARRAY)]

/-- The step of the call takes the lock with a time that is not before the one it finds. -/
def InOrder (qer_id : Nat) (c : Pool (BpfOps Ptr) ι Bool Maps) (i : ι) : Prop :=
  c.Takes takesLock i → (sharedBucket qer_id c.state).last ≤ (calls i).now

instance (qer_id : Nat) (c : Pool (BpfOps Ptr) ι Bool Maps) (i : ι) : Decidable (InOrder calls qer_id c i) :=
  inferInstanceAs (Decidable (_ → _))

/-- Whether a call has returned, and admitted its packet. -/
def hasAdmitted : Bpf Ptr Bool → Bool
  | .ret r => r
  | .ask .. => false

/-- The bytes admitted by the calls that have returned. -/
def totalAdmitted [Fintype ι] (c : Pool (BpfOps Ptr) ι Bool Maps) : Nat :=
  ∑ i, amount (hasAdmitted (c.prog i)) (calls i).pkt_len

theorem limits_kernel {c : Call N} {o : Op Ptr} {r : Op.Ans o} (hq : Limits qer_id qv s)
    (h : c.kernel o s = some (r, s')) : Limits qer_id qv s' := by
  obtain ⟨x, hx, he⟩ := Option.map_eq_some_iff.mp h
  have hk := (kernel_keeps hx).lookup (m := .qer_table) (by decide) qer_id
  rw [← (Prod.mk.inj he).2]
  exact ⟨hk.trans hq.1, hq.2⟩

omit [DecidableEq ι] in
/-- A call takes the lock once, and touches the bucket only while it has it. -/
theorem admit_outside {b : Build} (hb : b.qer_shared_lock = true) (i : ι)
    (hm : qv.get qer_val.mbr_ul_bps 8 ≠ 0) :
    Outside (fun i => (calls i).kernel) takesLock givesLock (Limits qer_id qv) i
      (admission b qer_id (calls i).pkt_len) := by
  rw [admission, upf_qer_admit, hb, if_pos rfl, upf_qer_admit_shared, lookup_bind]
  refine .ask rfl rfl (fun s hq => lookup_qer _ hq) ?_
  dsimp only
  rw [read_bind]
  refine .ask rfl rfl (fun s _ => read_value _ _ _ _) ?_
  rw [if_neg hm, lookup_bind]
  refine .ask rfl rfl (fun s hq => lookup_state_shared _ hq) ?_
  dsimp only
  rw [ktime_get_ns_bind]
  refine .ask rfl rfl (fun s _ => read_clock _) ?_
  rw [spin_lock_bind]
  refine .acq rfl fun _ => ?_
  refine Inside.bind (refill_asks (fun _ _ _ => ⟨rfl, rfl⟩) (fun _ _ _ _ => ⟨rfl, rfl⟩) _ _ _ _ _ _)
    fun _ => ?_
  refine Inside.bind (take_asks (fun _ _ _ => ⟨rfl, rfl⟩) (fun _ _ _ _ => ⟨rfl, rfl⟩) _ _ _) fun r => ?_
  exact .rel rfl rfl fun _ => rfl

/-- A call is a draw on the shared bucket. -/
theorem shared_step {b : Build} (hb : b.qer_shared_lock = true) {c : Call N} (hq : Limits qer_id qv s) :
    ∃ r s' t,
    (admission b qer_id c.pkt_len).run c.kernel s = some (r, s') ∧ Limits qer_id qv s' ∧
    (sharedBucket qer_id s).Draw (qv.get qer_val.burst_bytes 4) (qv.get qer_val.mbr_ul_bps 8)
      8000000000 c.now (amount r c.pkt_len) t ∧ sharedBucket qer_id s' = t := by
  obtain ⟨s', hr, hs⟩ := call_run c b hq
  rw [BucketMap.of, hb, if_pos rfl] at hr hs
  rw [BucketMap.admits, sharedBucket_eq] at hr hs
  have he : BucketMap.shared.elapsed c.now (sharedBucket qer_id s).last ≤
      c.now - (sharedBucket qer_id s).last := by
    change elapsed_shared _ _ ≤ _
    unfold elapsed_shared
    split <;> omega
  refine ⟨_, s', _, hr, ⟨(hs.lookup (by decide) _).trans hq.1, hq.2⟩, taken_draw he, ?_⟩
  rw [← hs.bucket, sharedBucket_eq]

/-- What a list of calls, no two of them the same, admits is admitted by all. -/
theorem totalAdmitted_eq [Fintype ι] {c : Pool (BpfOps Ptr) ι Bool Maps} {rs : List (ι × Bool)}
    (hn : (rs.map Prod.fst).Nodup) (hd : ∀ i r, c.prog i = .ret r ↔ (i, r) ∈ rs) :
    totalAdmitted calls c = (rs.map fun r => amount r.2 (calls r.1).pkt_len).sum := by
  have hz : ∀ i ∈ Finset.univ, i ∉ (rs.map Prod.fst).toFinset →
      amount (hasAdmitted (c.prog i)) (calls i).pkt_len = 0 := by
    intro i _ hi
    cases hp : c.prog i with
    | ret r =>
      rw [List.mem_toFinset] at hi
      exact absurd (List.mem_map.mpr ⟨(i, r), (hd i r).mp hp, rfl⟩) hi
    | ask o k => rfl
  rw [totalAdmitted, ← Finset.sum_subset (Finset.subset_univ _) hz, List.sum_toFinset _ hn, List.map_map]
  refine congrArg List.sum (List.map_congr_left fun ⟨i, r⟩ hr => ?_)
  simp only [Function.comp_apply, (hd i r).mpr hr, hasAdmitted]

/-- With `UPF_QER_SHARED_LOCK`, what calls on any number of CPUs admit between
`t₀` and `t₁`, whatever the order of their steps, is at most the burst and the
time at the rate, if each call takes the lock in order. -/
theorem shared_rate [Fintype ι] {b : Build} (hb : b.qer_shared_lock = true) (hq : Limits qer_id qv s)
    {t₀ t₁ : Nat} (h0 : 0 < t₀) (ht : t₀ ≤ t₁) (hnow : ∀ i, t₀ ≤ (calls i).now ∧ (calls i).now ≤ t₁)
    {is : List ι} (hin : Along (contend calls) (InOrder calls qer_id) (contenders calls b qer_id s) is)
    {c : Pool (BpfOps Ptr) ι Bool Maps}
    (hrun : exec (contend calls) (contenders calls b qer_id s) is = some c) :
    (totalAdmitted calls c : ℚ) ≤
      qv.get qer_val.burst_bytes 4 + qv.get qer_val.mbr_ul_bps 8 * (t₁ - t₀) / 8000000000 := by
  obtain ⟨rs, s', hs, hn, hd⟩ := Pool.serial (C := fun i s => (sharedBucket qer_id s).last ≤ (calls i).now)
    limits_kernel hq (fun i => admit_outside calls hb i hq.2) hin hrun
  have hdr := Draws.of_serial (fun s (_ : Unit) => sharedBucket qer_id s) (fun _ => ()) (fun i => (calls i).now)
    (fun i r => amount r (calls i).pkt_len) (L := Limits qer_id qv) (fun hc hq hr => by
      obtain ⟨r, s₁, t, hr', hq', hd, hu⟩ := shared_step hb hq
      obtain ⟨rfl, rfl⟩ := Prod.mk.inj (Option.some.inj (hr'.symm.trans hr))
      exact ⟨hq', t, hd, hc, h0.trans_le (hnow _).1, by funext _; simp [hu]⟩) hs hq
  have hw : spent t₀ (t₁ - t₀) (rs.map fun r => (⟨(), (calls r.1).now, amount r.2 (calls r.1).pkt_len⟩ : Use Unit)) =
      totalAdmitted calls c := by
    rw [totalAdmitted_eq calls hn hd, spent, List.filter_eq_self.mpr, List.map_map]
    · rfl
    · intro u hu
      obtain ⟨r, -, rfl⟩ := List.mem_map.mp hu
      have := hnow r.1
      simp only [decide_eq_true_eq]
      omega
  have hle := rate_of_mul_le (hdr.spent_le t₀ (t₁ - t₀))
  rw [hw, Fintype.card_unit, Nat.cast_one, one_mul, Nat.cast_sub ht] at hle
  exact hle

end Shared

/-! ## Runs of both builds -/

/-- A QER of 8000 bit/s, which is 1000 bytes a second, with a burst of 1000 bytes. -/
def slowQer : Bytes := toLE 8 8000 ++ toLE 8 8000 ++ toLE 4 1000 ++ toLE 4 0

def slowMaps : Maps := Maps.empty.put .qer_table 1 slowQer

theorem slow_limits : Limits 1 slowQer slowMaps :=
  ⟨Maps.lookup_put_array rfl slowQer (by decide), by decide⟩

theorem percpu_rate_slow : ∃ rs s',
    runAll Call.kernel (fun c => upf_qer_admit ⟨false, false, false⟩ 1 c.pkt_len)
      [⟨(0 : Fin 2), 1, 900, by decide⟩, ⟨1, 1, 900, by decide⟩, ⟨0, 7, 900, by decide⟩] slowMaps =
        some (rs, s') ∧
    ∀ w T : Nat, (admitted w T rs : ℚ) ≤
      (2 : Nat) * (slowQer.get qer_val.burst_bytes 4 + slowQer.get qer_val.mbr_ul_bps 8 * T / 8000000000) :=
  percpu_rate rfl slow_limits _ (by decide) (by decide) (by decide)

/-- Two calls at the start of a second and two at its end, on four CPUs. -/
def lateCalls : Fin 4 → Call 4
  | 0 => ⟨0, 1, 1000, by decide⟩
  | 1 => ⟨1, 1, 1000, by decide⟩
  | 2 => ⟨2, 1000000001, 1000, by decide⟩
  | 3 => ⟨3, 1000000001, 1000, by decide⟩

/-- Call 1 reads the clock in its turn but takes the lock after call 2. -/
def lateOrder : List (Fin 4) :=
  .replicate 4 0 ++ .replicate 4 1 ++ .replicate 8 0 ++ .replicate 15 2 ++ .replicate 4 3 ++
    .replicate 10 1 ++ .replicate 11 3

/-- Call 1 is refused, but puts the time back by a second, which call 3 is
credited with again: three packets where two are allowed. -/
theorem shared_rate_overshoot : ∃ c,
    exec (contend lateCalls) (contenders lateCalls ⟨true, false, false⟩ 1 slowMaps) lateOrder = some c ∧
    (∀ i, 1 ≤ (lateCalls i).now ∧ (lateCalls i).now ≤ 1000000001) ∧ Limits 1 slowQer slowMaps ∧
    ¬ (totalAdmitted lateCalls c : ℚ) ≤ slowQer.get qer_val.burst_bytes 4 +
      slowQer.get qer_val.mbr_ul_bps 8 * (1000000001 - 1) / 8000000000 := by
  have h : (exec (contend lateCalls) (contenders lateCalls ⟨true, false, false⟩ 1 slowMaps) lateOrder).map
      (totalAdmitted lateCalls) = some 3000 := by decide +kernel
  obtain ⟨c, hc, ht⟩ := Option.map_eq_some_iff.mp h
  have hb : slowQer.get qer_val.burst_bytes 4 = 1000 := by decide
  have hm : slowQer.get qer_val.mbr_ul_bps 8 = 8000 := by decide
  refine ⟨c, hc, by decide, slow_limits, ?_⟩
  rw [ht, hb, hm]
  norm_num

/-- The same four calls, each taking the lock in its turn. -/
def promptOrder : List (Fin 4) :=
  .replicate 12 0 ++ .replicate 14 1 ++ .replicate 15 2 ++ .replicate 14 3

theorem shared_rate_prompt : ∃ c,
    exec (contend lateCalls) (contenders lateCalls ⟨true, false, false⟩ 1 slowMaps) promptOrder = some c ∧
    (totalAdmitted lateCalls c : ℚ) ≤ slowQer.get qer_val.burst_bytes 4 +
      slowQer.get qer_val.mbr_ul_bps 8 * ((1000000001 : Nat) - (1 : Nat)) / 8000000000 := by
  have h : (exec (contend lateCalls) (contenders lateCalls ⟨true, false, false⟩ 1 slowMaps) promptOrder).map
      (totalAdmitted lateCalls) = some 2000 := by decide +kernel
  obtain ⟨c, hc, ht⟩ := Option.map_eq_some_iff.mp h
  refine ⟨c, hc, shared_rate lateCalls rfl slow_limits (by decide) (by decide) (by decide) ?_ hc⟩
  decide +kernel

end UPF
