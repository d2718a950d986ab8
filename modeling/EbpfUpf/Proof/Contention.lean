import Mathlib.Algebra.BigOperators.Ring.Finset
import EbpfUpf.Proof.Events
import EbpfUpf.Proof.Generators
import EbpfUpf.Proof.Jobs
import EbpfUpf.Proof.Meter
import EbpfUpf.Proof.Report
import EbpfUpf.Proof.Startup
import EbpfUpf.Spec.Contention

/-!
# The contention experiment measures what it says

After the set-up the sessions of the flows are there (`Serves`), and remain so.
A packet of `qer_blast` is then one that XDP passes, and TC ingress admits or
rejects (`delivery_effect`). `Effect` adds up what the packets do to the
counters, and the snapshots show no more than that (`measured_eq`).
-/

open Framework

namespace UPF

/-! ## The set-up -/

/-- The sessions of `n` flows are there, under a FAR that forwards to `out`. -/
structure Serves (s : Maps) (n out : Nat) : Prop where
  pdr : ∀ f < n, pdrOf s (0x7000 + f) = some (0x7000 + f)
  listed : ∀ f < n, (s.lookup .pdr_table (0x7000 + f)).isSome
  rule : ∀ f < n, ruleOf s (0x7000 + f) = some ⟨1, 1, 1, 100, 0⟩
  far : (s.lookup .far_table 1).map farOf = some ⟨FAR_FORWARD, out, 0, 0⟩

theorem set_up_serves {n mbr burst out : Int} {s₀ s : Maps} (hl : WithinLimits s₀) (hm : Fmt.Q.fits mbr)
    (hb : Fmt.I.fits burst) (ho : Fmt.I.fits out)
    (h : Framework.Ends sys (qer_contention.set_up n mbr burst out) s₀ (.ok ()) s) : Serves s n.toNat out.toNat := by
  obtain ⟨s₁, h₁, hp, hbun, hr⟩ := Startup.rules_end (b := contention mbr burst out) hm hb ho rfl rfl s₀
  have hprog : ∀ {r t}, Framework.Ends sys ((List.range n.toNat).forM (contention mbr burst out).session) s₁ r t →
      Framework.Ends sys (qer_contention.set_up n mbr burst out) s₀ r t := fun h => by
    have := h₁.bind (f := fun _ => (List.range n.toNat).forM (contention mbr burst out).session) h
    rwa [bind_assoc] at this
  rcases Startup.sessions_end (contention mbr burst out) ⟨hp ▸ hl.pdr, hbun ▸ hl.bundle⟩ n.toNat with
    ⟨t, ht, hpt⟩ | ⟨k, -, e, t, ht, -⟩
  · cases h.symm.trans (hprog ht)
    have hsaid := hpt.said
    have hat {α : Type} (x : Nat → α) (old : Nat → α) {f : Nat} (hf : f < n.toNat) :
        overlay 0x7000 n.toNat x old (0x7000 + f) = x f := by
      rw [overlay, if_pos (by omega), Nat.add_sub_cancel_left]
    have hpdr : pdrOf s = overlay 0x7000 n.toNat (fun j => some (0x7000 + j)) (pdrOf s₁) :=
      congrArg Intent.pdr hsaid
    have hrule : ruleOf s = overlay 0x7000 n.toNat (fun _ => some ⟨1, 1, 1, 100, 0⟩) (ruleOf s₁) :=
      congrArg Intent.rule hsaid
    have hfar : (reading s).far = ((contention mbr burst out).rules (reading s₀)).far := by
      rw [hsaid, ← hr]
      rfl
    refine ⟨fun f hf => ?_, fun f hf => ?_, fun f hf => ?_, ?_⟩
    · rw [hpdr, hat _ _ hf]
    · have hk : 0x7000 + f ∈ (s.table .pdr_table).keys := by
        rw [hpt.pdr]
        exact mem_grown.mpr (.inr ⟨f, hf, rfl⟩)
      exact Finmap.lookup_isSome.mpr (Finmap.mem_keys.mp hk)
    · rw [hrule, hat _ _ hf]
    · refine (congrFun hfar 1).trans ?_
      show Function.update (reading s₀).far 1 (some (contention mbr burst out).far) 1 = _
      rw [Function.update_self]
      rfl
  · cases h.symm.trans (hprog ht)

theorem Serves.congr {s s' : Maps} {n out : Nat} (h : Serves s n out)
    (ht : ∀ m, m ≠ .qer_state_shared → s'.table m = s.table m) : Serves s' n out := by
  have hl : ∀ m, m ≠ .qer_state_shared → ∀ k, s'.lookup m k = s.lookup m k := fun m hm => Maps.lookup_congr (ht m hm)
  refine ⟨fun f hf => ?_, fun f hf => ?_, fun f hf => ?_, ?_⟩
  · rw [pdrOf, hl _ (by decide)]
    exact h.pdr f hf
  · rw [hl _ (by decide)]
    exact h.listed f hf
  · rw [ruleOf, hl _ (by decide)]
    exact h.rule f hf
  · rw [hl _ (by decide)]
    exact h.far

variable {s s' : Maps} {n out f cpu : Nat}

theorem Serves.resolve (h : Serves s n out) (hf : f < n) :
    UPF.resolve s (0x7000 + f) = some ⟨0x7000 + f, ⟨1, 1, 1, 100, 0⟩, ⟨FAR_FORWARD, out, 0, 0⟩⟩ := by
  simp only [UPF.resolve, h.pdr f hf, h.rule f hf, Option.bind_eq_bind, Option.bind_some, h.far]
  rfl

theorem Serves.hit (h : Serves s n out) (hf : f < n) : classified s (0x7000 + f) = (.M_HIT, XDP_PASS) := by
  simp only [classified, h.pdr f hf, h.listed f hf, if_true]

/-! ## XDP -/

/-- What XDP does to the maps has nothing to do with QERs and URRs. -/
structure Passed (s s' : Maps) : Prop where
  table : s'.table = s.table
  percpu : s'.percpu = s.percpu
  pass : ∀ c, s'.metrics c .M_TC_QER_PASS = s.metrics c .M_TC_QER_PASS
  drop : ∀ c, s'.metrics c .M_TC_QER_DROP = s.metrics c .M_TC_QER_DROP

theorem xdp_step {H : Helpers} {o : Op Ptr} {s s' : Machine} {r : Op.Ans o} (ho : XdpOp o)
    (h : kernel H o s = some (r, s')) : s'.frame = s.frame ∧ Passed s.maps s'.maps := by
  cases o with
  | load off n =>
    simp only [kernel] at h
    split at h
    · cases h
      exact ⟨rfl, rfl, rfl, fun _ => rfl, fun _ => rfl⟩
    · cases h
  | bump idx =>
    cases h
    have hne : Metric.M_TC_QER_PASS ≠ idx ∧ Metric.M_TC_QER_DROP ≠ idx := by
      rcases ho with (rfl | rfl | rfl | rfl | rfl | rfl) | rfl | rfl | rfl <;> decide
    refine ⟨rfl, rfl, rfl, fun c => ?_, fun c => ?_⟩
    · rw [metrics_count, if_neg fun h => hne.1 h.2]
    · rw [metrics_count, if_neg fun h => hne.2 h.2]
  | data_end | lookup | read =>
    cases h
    exact ⟨rfl, rfl, rfl, fun _ => rfl, fun _ => rfl⟩
  | _ => exact ho.elim

theorem xdp_passed {H : Helpers} {s s' : Machine} {v : Int} (h : upf_xdp_uplink.run (kernel H) s = some (v, s')) :
    s'.frame = s.frame ∧ Passed s.maps s'.maps :=
  xdp_asks.run_rel (kernel H) (R := fun s s' => s'.frame = s.frame ∧ Passed s.maps s'.maps)
    (fun _ => ⟨rfl, rfl, rfl, fun _ => rfl, fun _ => rfl⟩)
    (fun h₁ h₂ => ⟨h₂.1.trans h₁.1, h₂.2.table.trans h₁.2.table, h₂.2.percpu.trans h₁.2.percpu,
      fun c => (h₂.2.pass c).trans (h₁.2.pass c), fun c => (h₂.2.drop c).trans (h₁.2.drop c)⟩)
    (fun ho h => xdp_step ho h) h

/-! ## One packet -/

/-- `A` packets were admitted, and `R` rejected, on each CPU. -/
structure Effect (A R : Nat → Nat) (s s' : Maps) : Prop where
  table : ∀ m, m ≠ .qer_state_shared → s'.table m = s.table m
  pass : ∀ c, s'.metrics c .M_TC_QER_PASS = s.metrics c .M_TC_QER_PASS + A c
  drop : ∀ c, s'.metrics c .M_TC_QER_DROP = s.metrics c .M_TC_QER_DROP + R c
  keys : urrKeys s ⊆ urrKeys s' ∧ urrKeys s' ⊆ insert 1 (urrKeys s)
  bytes : ∀ c, (usage s' 1 c).bytes = (usage s 1 c).bytes + 114 * A c

namespace Effect

variable {A A' R R' : Nat → Nat} {s s₁ s' : Maps}

theorem refl (s : Maps) : Effect 0 0 s s :=
  ⟨fun _ _ => rfl, fun _ => rfl, fun _ => rfl, ⟨subset_rfl, Finset.subset_insert _ _⟩, fun _ => rfl⟩

theorem trans (h : Effect A R s s₁) (h' : Effect A' R' s₁ s') : Effect (A + A') (R + R') s s' := by
  refine ⟨fun m hm => (h'.table m hm).trans (h.table m hm), fun c => ?_, fun c => ?_,
    ⟨h.keys.1.trans h'.keys.1, ?_⟩, fun c => ?_⟩
  · rw [h'.pass, h.pass, Nat.add_assoc, Pi.add_apply]
  · rw [h'.drop, h.drop, Nat.add_assoc, Pi.add_apply]
  · refine h'.keys.2.trans (Finset.insert_subset (Finset.mem_insert_self _ _) h.keys.2)
  · rw [h'.bytes, h.bytes, Nat.add_assoc, Pi.add_apply, Nat.mul_add]

theorem hasRoom (h : Effect A R s s') (hr : HasRoom s 1) : HasRoom s' 1 := by
  by_cases hk : 1 ∈ urrKeys s'
  · exact .inl hk
  · have hsub : urrKeys s' ⊆ urrKeys s := fun k hm => by
      rcases Finset.mem_insert.mp (h.keys.2 hm) with rfl | hm'
      · exact absurd hm hk
      · exact hm'
    rcases hr with hr | hr
    · exact absurd (h.keys.1 hr) hk
    · exact .inr ((Finset.card_le_card hsub).trans_lt hr)

end Effect

open qer_contention in
theorem unwrapped_after {A R : Nat → Nat} {s s' : Maps} {j k : Nat} (h : Effect A R s s')
    (hAR : ∀ c, A c + R c ≤ j) (hw : Unwrapped s (k + j)) : Unwrapped s' k := by
  refine ⟨fun c => ?_, fun c => ?_, fun c => ?_⟩
  · have := hw.pass c
    have := hAR c
    rw [h.pass]
    omega
  · have := hw.drop c
    have := hAR c
    rw [h.drop]
    omega
  · have := hw.bytes c
    have := hAR c
    rw [h.bytes]
    omega

theorem qer_contention.Unwrapped.mono {s : Maps} {k n : Nat} (h : Unwrapped s n) (hk : k ≤ n) : Unwrapped s k :=
  ⟨fun c => (Nat.add_le_add_left hk _).trans_lt (h.pass c), fun c => (Nat.add_le_add_left hk _).trans_lt (h.drop c),
    fun c => (Nat.add_le_add_left (Nat.mul_le_mul_left _ hk) _).trans_lt (h.bytes c)⟩

/-- A counter that does not wrap. -/
theorem countAll_at {s : Maps} {cpu : Nat} (idxs : List Metric) {idx : Metric} (h : s.metrics cpu idx + 1 < 2 ^ 64)
    (hn : idxs.count idx ≤ 1) (c : Nat) :
    (s.countAll cpu idxs).metrics c idx = s.metrics c idx + Pi.single (M := fun _ => Nat) cpu (idxs.count idx) c := by
  by_cases hc : c = cpu
  · subst hc
    rw [metrics_countAll_self (by omega), Pi.single_eq_same, Nat.mod_eq_of_lt (by omega)]
  · rw [metrics_countAll_ne hc, Pi.single_eq_of_ne hc]
    rfl

theorem count_forward (ret : Int) : (forwardCounts 1 ret).count .M_TC_QER_PASS = 1 ∧
    (forwardCounts 1 ret).count .M_TC_QER_DROP = 0 := by
  unfold forwardCounts
  split <;> decide

section Counts

variable {s s' : Maps} {cpu : Nat} (ht : ∀ m, m ≠ .qer_state_shared → s'.table m = s.table m)
  (hu : qer_contention.Unwrapped s 1)

include ht hu

theorem admitted_effect {idxs : List Metric} (hm : s'.metrics = (s.countAll cpu idxs).metrics)
    (hp : idxs.count .M_TC_QER_PASS = 1) (hd : idxs.count .M_TC_QER_DROP = 0) (hc : Counted 1 cpu 114 s s') :
    Effect (Pi.single cpu 1) 0 s s' := by
  refine ⟨ht, fun c => ?_, fun c => ?_, ⟨?_, ?_⟩, fun c => ?_⟩
  · have := countAll_at idxs (hu.pass cpu) hp.le c
    rw [hp] at this
    rw [hm]
    exact this
  · have := countAll_at idxs (hu.drop cpu) (hd.trans_le (by decide)) c
    rw [hd, Pi.single_zero] at this
    rw [hm]
    exact this
  · rw [hc.keys]
    exact Finset.subset_insert _ _
  · rw [hc.keys]
  · by_cases hcpu : c = cpu
    · subst hcpu
      rw [hc.self, Usage.add, Nat.mod_eq_of_lt (hu.bytes c), Pi.single_eq_same]
    · rw [hc.other 1 c (.inr hcpu), Pi.single_eq_of_ne hcpu]
      rfl

theorem rejected_effect (hm : s'.metrics = (s.countAll cpu [.M_TC_QER_DROP]).metrics) (hun : Uncounted s s') :
    Effect 0 (Pi.single cpu 1) s s' := by
  refine ⟨ht, fun c => ?_, fun c => ?_, ⟨hun.keys.ge, ?_⟩, fun c => ?_⟩
  · have := countAll_at [.M_TC_QER_DROP] (hu.pass cpu) (by decide) c
    rw [show [Metric.M_TC_QER_DROP].count .M_TC_QER_PASS = 0 from rfl, Pi.single_zero] at this
    rw [hm]
    exact this
  · rw [hm]
    exact countAll_at [.M_TC_QER_DROP] (hu.drop cpu) (by decide) c
  · rw [hun.keys]
    exact Finset.subset_insert _ _
  · rw [hun.same]
    rfl

end Counts

section Ingress

variable {b : Build} {H : Helpers} {s : Maps} {wire : Bytes} {n out f cpu : Nat}

/-- The packet of one flow. -/
structure IsFlow (f : Nat) (wire : Bytes) : Prop where
  gpdu : IsGpdu wire
  teid : teidOf wire = 0x7000 + f
  outer : outerLen wire = 36
  length : wire.length = 150

theorem Serves.fate (b : Build) (cpu : Nat) (wire : Bytes) (hs : Serves s n out) (hf : f < n)
    (hroom : 0 ≤ H.adjust_room (-36)) :
    UPF.fate b H (entered b (arrival cpu s wire)) (0x7000 + f) 36 = .forwarded out ∨
    UPF.fate b H (entered b (arrival cpu s wire)) (0x7000 + f) 36 = .refused := by
  have hres : UPF.resolve (entered b (arrival cpu s wire)).maps (0x7000 + f) = _ := hs.resolve hf
  unfold UPF.fate
  rw [hres]
  have hneg : ¬ H.adjust_room (-((36 : Nat) : Int)) < 0 := Int.not_lt.mpr hroom
  simp only [hneg, if_false]
  rw [if_neg (by decide), if_neg (by decide)]
  split
  · exact .inl rfl
  · exact .inr rfl

theorem ingress_effect (b : Build) (cpu : Nat) (hs : Serves s n out) (hf : f < n) (hw : IsFlow f wire)
    (hroom : 0 ≤ H.adjust_room (-36)) (hr : HasRoom s 1) (hu : qer_contention.Unwrapped s 1) :
    ∃ v m, (upf_tc_ingress b).run (kernel H) (arrival cpu s wire) = some (v, m) ∧
      (Effect (Pi.single cpu 1) 0 s m.maps ∨ Effect 0 (Pi.single cpu 1) s m.maps) := by
  obtain ⟨v, m, hrun, -, ha⟩ := ingress_run (s := arrival cpu s wire) (H := H) b hw.gpdu
  have hlen : (decapped H wire 36).length = 114 := by
    have := length_decap (H := H) (s := arrival cpu s wire) b hw.gpdu
    simp only [decap, arrival, hw.outer, hw.length] at this
    exact this
  have htable : ∀ mn, mn ≠ .qer_state_shared → m.maps.table mn = s.table mn := (run_keeps hrun).table
  refine ⟨v, m, hrun, ?_⟩
  rw [show teidOf (arrival cpu s wire).frame = 0x7000 + f from hw.teid,
    show outerLen (arrival cpu s wire).frame = 36 from hw.outer] at ha
  rcases hs.fate b cpu wire hf hroom with he | he <;> rw [he] at ha
  · obtain ⟨r, hres, hm, hmet⟩ := ha
    cases (hs.resolve hf).symm.trans hres
    have hc : Counted 1 cpu (decapped H wire 36).length s m.maps := hm.counted Nat.one_ne_zero hr
    have hcount := count_forward (H.redirect out)
    rw [hlen] at hc
    exact .inl (admitted_effect htable hu hmet hcount.1 hcount.2 hc)
  · exact .inr (rejected_effect htable hu ha.2 ha.1)

end Ingress

/-! ## One delivery -/

section Delivery

variable {b : Build} {n out : Nat} {s : Maps}

open qer_contention

theorem qer_contention.FromBlast.isFlow {d : Delivery} (h : FromBlast n d) : ∃ f < n, IsFlow f d.wire := by
  obtain ⟨src_mac, f, hmac, hf, hmax, hb⟩ := h.flow
  have hruns : (qer_blast.flow src_mac 0x7000 f).Runs blank := .qer_blast hmac hmax
  obtain ⟨hg, hl⟩ := hruns.fits
  rcases Generator.build_ends hg hl with ⟨hp, -⟩ | ⟨-, out, ho, hgen, -⟩
  · cases (show ¬ 1430 < 80 by decide) hp
  · cases ho.symm.trans hb
    have hlen : d.wire.length = 70 + 80 := hgen.length
    have hteid : teidOf d.wire = (0x7000 + f) % 2 ^ 32 := hgen.teid
    have hmax : f < 64 := hmax
    exact ⟨f, hf, hgen.gpdu, by rw [hteid, Nat.mod_eq_of_lt (by omega)], hgen.outer, hlen⟩

theorem Passed.effect {s' : Maps} (h : Passed s s') : Effect 0 0 s s' := by
  have hun : Uncounted s s' := .of_percpu (congrFun h.percpu .urr_counters)
  refine ⟨fun m _ => by rw [h.table], h.pass, h.drop, ⟨hun.keys.ge, ?_⟩, fun c => ?_⟩
  · rw [hun.keys]
    exact Finset.subset_insert _ _
  · rw [hun.same]
    rfl

theorem delivery_effect (b : Build) (hs : Serves s n out) {d : Delivery} (hd : FromBlast n d) (hr : HasRoom s 1)
    (hu : Unwrapped s 1) : ∃ A R s', d.step b s = some s' ∧ Effect A R s s' ∧
      ∀ c, A c + R c = if d.cpu = c then 1 else 0 := by
  obtain ⟨f, hf, hw⟩ := hd.isFlow
  obtain ⟨m, hx⟩ := (xdp_gpdu (H := d.H) (s := arrival d.cpu s d.wire) hw.gpdu).run
  rw [show classified (arrival d.cpu s d.wire).maps (teidOf (arrival d.cpu s d.wire).frame) = (.M_HIT, XDP_PASS) by
    show classified s (teidOf d.wire) = _
    rw [hw.teid, hs.hit hf]] at hx
  obtain ⟨hframe, hp⟩ := xdp_passed hx
  have he : Effect 0 0 s m.maps := hp.effect
  obtain ⟨v, m', hrun, h⟩ := ingress_effect b d.cpu (hs.congr he.table) hf hw hd.room (he.hasRoom hr)
    (unwrapped_after he (fun _ => le_rfl) hu)
  have hstep : d.step b s = some m'.maps := by
    have hwire : m.frame = d.wire := hframe
    rw [Delivery.step, hx]
    show ((upf_tc_ingress b).run (kernel d.H) (arrival d.cpu m.maps m.frame)).bind (fun x => some x.2.maps) = _
    rw [hwire, hrun]
    rfl
  have hsum : ∀ c, (Pi.single d.cpu 1 : Nat → Nat) c = if d.cpu = c then 1 else 0 := fun c => by
    rw [Pi.single_apply]
    exact if_congr eq_comm rfl rfl
  rcases h with h | h
  · refine ⟨_, _, _, hstep, he.trans h, fun c => ?_⟩
    simp only [Pi.add_apply, Pi.zero_apply, Nat.zero_add, Nat.add_zero, hsum]
  · refine ⟨_, _, _, hstep, he.trans h, fun c => ?_⟩
    simp only [Pi.add_apply, Pi.zero_apply, Nat.zero_add, hsum]

/-- By induction on the packets. -/
theorem deliveries_effect (b : Build) {ds : List Delivery} (hs : Serves s n out) (hd : ∀ d ∈ ds, FromBlast n d)
    (hr : HasRoom s 1) (hu : Unwrapped s ds.length) : ∃ A R s', exec (Delivery.step b) s ds = some s' ∧
      Effect A R s s' ∧ ∀ c, A c + R c = ds.countP fun d => d.cpu = c := by
  induction ds generalizing s with
  | nil => exact ⟨0, 0, s, rfl, .refl s, fun _ => rfl⟩
  | cons d ds ih =>
    have hle : ∀ c, (if d.cpu = c then 1 else 0) ≤ 1 := fun c => by split <;> decide
    obtain ⟨A, R, s₁, hstep, he, hsum⟩ := delivery_effect b hs (hd d List.mem_cons_self) hr
      (hu.mono (Nat.le_add_left 1 ds.length))
    obtain ⟨A', R', s', hrun, he', hsum'⟩ := ih (hs.congr he.table) (fun d hm => hd d (List.mem_cons_of_mem _ hm))
      (he.hasRoom hr) (unwrapped_after he (fun c => (hsum c).trans_le (hle c)) hu)
    refine ⟨A + A', R + R', s', exec_cons.mpr ⟨s₁, hstep, hrun⟩, he.trans he', fun c => ?_⟩
    have h := hsum c
    have h' := hsum' c
    rw [List.countP_cons, ← h', Pi.add_apply, Pi.add_apply]
    simp only [decide_eq_true_eq]
    omega

end Delivery

/-! ## The counters -/

section Counters

open qer_contention

theorem percpu_metric_dump {idx : Metric} (values : Metric → List Bytes) {idxs : List Metric} (h : idx ∈ idxs) :
    percpu_metric (idxs.map fun i => (⟨toLE 4 i.ctorIdx, values i⟩ : Entry)) idx.ctorIdx = (values idx).map le := by
  induction idxs with
  | nil => cases h
  | cons i idxs ih =>
    have hi : le (toLE 4 i.ctorIdx) = i.ctorIdx := le_toLE_of_lt (by cases i <;> decide)
    rw [List.map_cons, percpu_metric, hi]
    by_cases hne : i.ctorIdx = idx.ctorIdx
    · have : i = idx := name_injective (congrArg (METRIC_NAMES.getD · "") hne)
      rw [if_neg (not_not.mpr hne), this]
    · rw [if_pos hne]
      exact ih ((List.mem_cons.mp h).resolve_left fun hm => hne (hm ▸ rfl))

theorem percpu_metric_eq (N : Nat) {s : Maps} {idx : Metric} (h : ∀ c, s.metrics c idx < 2 ^ 64) :
    percpu_metric (metrics_dump N s) idx.ctorIdx = (List.range N).map fun c => s.metrics c idx := by
  have hm : idx ∈ Metric.all := by cases idx <;> decide
  rw [metrics_dump, percpu_metric_dump _ hm, List.map_map]
  refine List.map_congr_left fun c _ => ?_
  exact le_toLE_of_lt (h c)

/-- The snapshot of counters that have not come to their end. -/
theorem snapshot_eq {N : Nat} {s : Maps} {urrs : List Entry} (hd : IsDump N s .urr_counters urrs)
    (hk : ∀ k ∈ urrKeys s, k < 2 ^ 32) (hu : Unwrapped s 0) : snapshot (metrics_dump N s) urrs =
      .ok ⟨(List.range N).map fun c => s.metrics c .M_TC_QER_PASS,
        (List.range N).map fun c => s.metrics c .M_TC_QER_DROP, (total N s 1).bytes_ul⟩ := by
  have hbytes : ((if 1 ∈ urrKeys s then some (total N s 1) else none).getD ⟨0, 0⟩).bytes_ul =
      (total N s 1).bytes_ul := by
    split
    · rfl
    · next h =>
      simp only [total, usage_of_not_mem h, Finset.sum_const_zero]
      rfl
  have hread : read_urr urrs 1 = .ok (if 1 ∈ urrKeys s then some (total N s 1) else none) := read_urr_eq hd hk 1
  rw [snapshot, hread]
  show Except.ok (Snapshot.mk (percpu_metric (metrics_dump N s) (Metric.ctorIdx .M_TC_QER_PASS))
    (percpu_metric (metrics_dump N s) (Metric.ctorIdx .M_TC_QER_DROP)) _) = _
  rw [percpu_metric_eq N hu.pass, percpu_metric_eq N hu.drop, hbytes]

/-- Each packet is one of some CPU's. -/
theorem sum_countP {N : Nat} {ds : List Delivery} (h : ∀ d ∈ ds, d.cpu < N) :
    ∑ c ∈ Finset.range N, (ds.countP fun d => d.cpu = c) = ds.length := by
  induction ds with
  | nil => simp
  | cons d ds ih =>
    have hone : ∑ c ∈ Finset.range N, (if d.cpu = c then 1 else 0) = 1 := by
      rw [Finset.sum_ite_eq, if_pos (Finset.mem_range.mpr (h d List.mem_cons_self))]
    simp only [List.countP_cons, decide_eq_true_eq, Finset.sum_add_distrib, hone,
      ih fun d hm => h d (List.mem_cons_of_mem _ hm), List.length_cons]

/-- What the differences of the counters are. -/
theorem zipWith_sub (N : Nat) (x y A : Nat → Nat) (h : ∀ c, y c = x c + A c) :
    List.zipWith (fun a b : Nat => (a : Int) - b) ((List.range N).map y) ((List.range N).map x) =
      (List.range N).map fun c => (A c : Int) := by
  rw [List.zipWith_map, List.zipWith_self]
  refine List.map_congr_left fun c _ => ?_
  rw [h]
  omega

theorem sum_range_int (N : Nat) (A : Nat → Nat) :
    ((List.range N).map fun c => (A c : Int)).sum = ((∑ c ∈ Finset.range N, A c : Nat) : Int) := by
  rw [← sum_range_list, Nat.cast_list_sum, List.map_map]
  rfl

theorem measured_eq {N x : Nat} {p q A R : Nat → Nat} {before after : Snapshot}
    (hb : before = ⟨(List.range N).map p, (List.range N).map q, x⟩)
    (ha : after = ⟨(List.range N).map fun c => p c + A c, (List.range N).map fun c => q c + R c,
      x + 114 * ∑ c ∈ Finset.range N, A c⟩) :
    measured before after = ⟨(∑ c ∈ Finset.range N, A c : Nat), (∑ c ∈ Finset.range N, R c : Nat),
      (List.range N).countP fun c => 0 < A c + R c, 114 * (∑ c ∈ Finset.range N, A c : Nat)⟩ := by
  subst hb ha
  simp only [measured, zipWith_sub N p _ A fun _ => rfl, zipWith_sub N q _ R fun _ => rfl, sum_range_int]
  congr 1
  · simp only [List.length_map, List.length_range]
    refine List.countP_congr fun c hc => ?_
    have hc := List.mem_range.mp hc
    simp only [List.getD_eq_getElem?_getD, List.getElem?_map, List.getElem?_range hc, Option.map_some,
      Option.getD_some, decide_eq_true_eq]
    omega
  · push_cast
    omega

end Counters

open qer_contention in
/-- The traffic between the two snapshots of the contention experiment, one packet after
another, comes to its end, and the experiment measures it. -/
theorem contention_measured {b : Build} {n mbr burst out : Int} {s₀ s : Maps} {N : Nat} {ds : List Delivery}
    (hl : WithinLimits s₀) (hm : Fmt.Q.fits mbr) (hb : Fmt.I.fits burst) (ho : Fmt.I.fits out)
    (h : Framework.Ends sysLru (set_up n mbr burst out) s₀ (.ok ()) s)
    (hd : ∀ d ∈ ds, FromBlast n.toNat d ∧ d.cpu < N) (hr : HasRoom s 1) (hk : ∀ k ∈ urrKeys s, k < 2 ^ 32)
    (hu : Unwrapped s ds.length) : ∃ s', exec (Delivery.step b) s ds = some s' ∧ Measures N s ds s' := by
  have hs := set_up_serves hl hm hb ho (ends_of_sysLru h)
  obtain ⟨A, R, s', hrun, he, hsum⟩ := deliveries_effect b hs (fun d hm => (hd d hm).1) hr hu
  refine ⟨s', hrun, fun urrs urrs' hdump hdump' => ?_⟩
  have hu' : Unwrapped s' 0 :=
    unwrapped_after he (fun c => (hsum c).trans_le List.countP_le_length) (by rwa [Nat.zero_add])
  have hk' : ∀ k ∈ urrKeys s', k < 2 ^ 32 := fun k hm => by
    rcases Finset.mem_insert.mp (he.keys.2 hm) with rfl | hm
    · decide
    · exact hk k hm
  have hbytes : (total N s' 1).bytes_ul = (total N s 1).bytes_ul + 114 * ∑ c ∈ Finset.range N, A c := by
    simp only [total, he.bytes, Finset.sum_add_distrib, Finset.mul_sum]
  refine ⟨_, _, snapshot_eq hdump hk (hu.mono (Nat.zero_le _)), snapshot_eq hdump' hk' hu', ?_⟩
  rw [measured_eq (A := A) (R := R) rfl (by simp only [he.pass, he.drop, hbytes])]
  refine ⟨?_, rfl, List.countP_congr fun c _ => ?_⟩
  · have hall : ∑ c ∈ Finset.range N, A c + ∑ c ∈ Finset.range N, R c = ds.length := by
      rw [← Finset.sum_add_distrib, Finset.sum_congr rfl fun c _ => hsum c]
      exact sum_countP fun d hm => (hd d hm).2
    show ((∑ c ∈ Finset.range N, A c : Nat) : Int) + (∑ c ∈ Finset.range N, R c : Nat) = ds.length
    rw [← Nat.cast_add, hall]
  · simp only [hsum, List.countP_pos_iff, decide_eq_true_eq]

/-- The set-up leaves the counters alone. -/
theorem set_up_percpu {n mbr burst out : Int} {s₀ s : Maps} {r : Except PyError Unit}
    (h : Framework.Ends sys (qer_contention.set_up n mbr burst out) s₀ r s) :
    s.percpu = s₀.percpu ∧ s.metrics = s₀.metrics :=
  Prog.run_rel sys (R := fun s s' => s'.percpu = s.percpu ∧ s'.metrics = s.metrics) (fun _ => ⟨rfl, rfl⟩)
    (fun h₁ h₂ => ⟨h₂.1.trans h₁.1, h₂.2.trans h₁.2⟩) sys_percpu h

theorem exists_blast (H : Helpers) (hH : 0 ≤ H.adjust_room (-36)) (cpu : Nat) {n f : Nat} (hf : f < n)
    (hmax : f < qer_blast.MAX_FLOWS) : ∃ d : Delivery, d.cpu = cpu ∧ qer_contention.FromBlast n d := by
  let mac : Bytes := [2, 0, 0, 0, 0, 1]
  have hruns : (qer_blast.flow mac 0x7000 f).Runs blank := .qer_blast rfl hmax
  obtain ⟨hg, hl⟩ := hruns.fits
  obtain ⟨wire, hw⟩ := Option.isSome_iff_exists.mp ((Generator.build_isSome hg hl).mpr (show 80 ≤ 1430 by decide))
  exact ⟨⟨H, cpu, wire⟩, rfl, ⟨mac, f, rfl, hf, hmax, hw⟩, hH⟩

/-- Three packets of two flows, on two CPUs. -/
theorem contention_measured_three : ∃ ds s s', ds.map Delivery.cpu = [0, 1, 1] ∧
    Framework.Ends sysLru (qer_contention.set_up 2 50000000 65536 2) .empty (.ok ()) s ∧
    exec (Delivery.step ⟨false, false, false⟩) s ds = some s' ∧ qer_contention.Measures 2 s ds s' := by
  have hl : WithinLimits .empty := ⟨by decide, by decide⟩
  have hm : Fmt.Q.fits 50000000 := by decide
  have hb : Fmt.I.fits 65536 := by decide
  have ho : Fmt.I.fits 2 := by decide
  obtain ⟨r, s, h, hr⟩ := Startup.start_ends (b := contention 50000000 65536 2) hm hb ho rfl rfl hl 2
  rcases hr with ⟨-, rfl, -⟩ | ⟨k, hk, -, hnf, -⟩
  · obtain ⟨hp, hmet⟩ := set_up_percpu (n := 2) h
    have hlisted := Startup.start_listed 50000000 65536 2 fun i (hi : i < 2) =>
      Startup.own_session (contention 50000000 65536 2) .empty hi
    have h : Framework.Ends sysLru (qer_contention.set_up 2 50000000 65536 2) .empty (.ok ()) s :=
      (ends_sysLru hlisted (sessions_room _ (by decide)) Finset.subset_union_left).mpr h
    have hkeys : urrKeys s = ∅ := by
      rw [urrKeys, hp]
      rfl
    have hu : qer_contention.Unwrapped s 3 := by
      refine ⟨fun c => ?_, fun c => ?_, fun c => ?_⟩
      · rw [hmet]
        exact show 0 + 3 < 2 ^ 64 by decide
      · rw [hmet]
        exact show 0 + 3 < 2 ^ 64 by decide
      · rw [usage_of_not_mem (by simp [hkeys])]
        decide
    let H : Helpers := ⟨fun _ => 1, fun _ => 0, fun _ => 0, fun _ => TC_ACT_REDIRECT_X⟩
    obtain ⟨d₀, h₀, hd₀⟩ := exists_blast H le_rfl 0 (show 0 < 2 by decide) (by decide)
    obtain ⟨d₁, h₁, hd₁⟩ := exists_blast H le_rfl 1 (show 1 < 2 by decide) (by decide)
    have hd : ∀ d ∈ [d₀, d₁, d₁], qer_contention.FromBlast (2 : Int).toNat d ∧ d.cpu < 2 := by
      simp [hd₀, hd₁, h₀, h₁]
    obtain ⟨s', hs', hms⟩ := contention_measured (b := ⟨false, false, false⟩) (n := 2) hl hm hb ho h hd
      (.inr (by rw [hkeys]; decide)) (by simp [hkeys]) hu
    exact ⟨[d₀, d₁, d₁], s, s', by simp [h₀, h₁], h, hs', hms⟩
  · rw [fit_empty] at hnf
    have : MAX_PDRS = 4096 := rfl
    omega

end UPF
