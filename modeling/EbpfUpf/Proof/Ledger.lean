import EbpfUpf.Impl.Jobs
import EbpfUpf.Proof.Report
import EbpfUpf.Proof.Visits

/-!
# The ledger is complete

Each visit balances (`ledger_one`), and so do all of them together
(`ledger_count`). The counters are kept in 64 bits on each CPU, so that the
totals are what was counted modulo `2 ^ 64`, and exactly that as long as no CPU
has had `2 ^ 64` visits (`ledger_complete`).
-/

open Framework

namespace UPF

variable {s s' : Maps} {v : Visit} {vs : List Visit}

theorem visit_step (s : Maps) (v : Visit) : ∃ s', v.step s = some s' := by
  obtain ⟨a, x', hr, -⟩ := visit_entry s v
  exact ⟨x'.1.maps, by rw [Visit.step, hr]; rfl⟩

/-- Every sequence of frames can be run. -/
theorem visits_run (s : Maps) (vs : List Visit) : ∃ s', exec Visit.step s vs = some s' := by
  induction vs generalizing s with
  | nil => exact ⟨s, rfl⟩
  | cons v vs ih =>
    obtain ⟨s₁, h₁⟩ := visit_step s v
    obtain ⟨s', h⟩ := ih s₁
    exact ⟨s', exec_cons.mpr ⟨s₁, h₁, h⟩⟩

/-! ## Sums over the visits -/

variable {f g : Maps → Visit → Nat}

theorem sumOver_cons (h : v.step s = some s') : sumOver f s (v :: vs) = f s v + sumOver f s' vs := by
  rw [sumOver, h]

theorem sumOver_single (f : Maps → Visit → Nat) (s : Maps) (v : Visit) : sumOver f s [v] = f s v := by
  obtain ⟨s', h⟩ := visit_step s v
  exact sumOver_cons h

/-! ## One visit -/

theorem count_noted {idx : Metric} (hi : idx ≠ .M_TC_URR_UPDATED) (ops : List (Op Ptr)) :
    ((ops.filter noted).filterMap bumpOf).count idx = (ops.filterMap bumpOf).count idx := by
  rw [List.filterMap_filter, List.count_filterMap, List.count_filterMap]
  refine List.countP_congr fun o _ => ?_
  cases o with
  | bump i =>
    by_cases h : i = .M_TC_URR_UPDATED
    · subst h
      simpa [noted, bumpOf] using hi.symm
    · simp [noted, bumpOf, h]
  | _ => simp [bumpOf]

/-- The session lookup. -/
def isSession : Op Ptr → Bool
  | .lookup .teid_session _ => true
  | _ => false

theorem looksUp_eq (s : Maps) (v : Visit) :
    v.looksUp s = (v.programme.isIngress && ((v.trace s).filter noted).any isSession) := by
  have h : ((v.trace s).filter noted).any isSession = (v.trace s).any isSession := by
    rw [List.any_filter]
    congr 1
    funext o
    cases o with
    | lookup m k => cases m <;> rfl
    | _ => simp [isSession]
  rw [h]
  rfl

/-- What holds of the counters `ms` of one visit, that is an XDP run (`x`),
which drops its frame (`d`) because it is truncated (`t`), or comes to the
session lookup on the way in (`l`), or puts its frame in a tunnel (`e`). -/
def Balances (ms : List Metric) (x d t l e : Bool) : Prop :=
  ms.count .M_RX_TOTAL = x.toNat ∧
  ms.count .M_RX_GPDU = ms.count .M_HIT + ms.count .M_MISS_TEID + ms.count .M_MISS_PDR ∧
  d.toNat = ms.count .M_DROP_PARSE + ms.count .M_MISS_TEID + ms.count .M_MISS_PDR ∧
  ms.count .M_RX_GTPU = ms.count .M_RX_GPDU + ms.count .M_PASS_CTRL + t.toNat ∧
  ms.count .M_TC_MISS_FAR + ms.count .M_TC_FAR_DROP + ms.count .M_TC_FAR_BUFFER + ms.count .M_TC_DECAP_ERR +
    ms.count .M_TC_QER_DROP + ms.count .M_TC_FAR_FORWARD = l.toNat ∧
  ms.count .M_TC_QER_PASS = ms.count .M_TC_FAR_FORWARD ∧
  ms.count .M_TC_REDIRECT_ERR ≤ ms.count .M_TC_FAR_FORWARD ∧
  ms.count .M_TC_DL_HIT = ms.count .M_TC_DL_ENCAP_ERR + e.toNat

instance (ms : List Metric) (x d t l e : Bool) : Decidable (Balances ms x d t l e) := by
  unfold Balances
  infer_instance

/-- The counters that go with a frame that TC ingress drops. -/
def shots (ms : List Metric) : Nat :=
  ms.count .M_TC_FAR_DROP + ms.count .M_TC_FAR_BUFFER + ms.count .M_TC_DECAP_ERR + ms.count .M_TC_QER_DROP +
    ms.count .M_TC_REDIRECT_ERR

/-- The ledger is about all counters but one. -/
theorem Ledger.congr {T T' : Metric → Nat} (h : Ledger s vs T) (hT : ∀ idx, idx ≠ .M_TC_URR_UPDATED → T' idx = T idx) :
    Ledger s vs T' := by
  obtain ⟨h1, h2, h3, h4, h5, h6, h7, h8, h9⟩ := h
  constructor <;> simpa only [hT, ne_eq, reduceCtorEq, not_false_eq_true]

/-- What the ledger says of one visit. -/
theorem ledger_single {ms : List Metric} (hc : ∀ idx, idx ≠ .M_TC_URR_UPDATED → (v.counts s).count idx = ms.count idx)
    (hb : Balances ms v.isXdp (v.xdpDropped s) (v.truncated s) (v.looksUp s) (v.encapsulated s))
    (hs : (∀ ifindex, v.H.redirect ifindex = TC_ACT_REDIRECT_X ∨ v.H.redirect ifindex = TC_ACT_SHOT_X) →
      (v.ingressShot s).toNat = shots ms) : Ledger s [v] fun idx => (v.counts s).count idx := by
  obtain ⟨h1, h2, h3, h4, h5, h6, h7, h8⟩ := hb
  have h : Ledger s [v] fun idx => ms.count idx := by
    refine ⟨?_, h2, ?_, ?_, ?_, h6, h7, fun hr => ?_, ?_⟩ <;> rw [tally, sumOver_single]
    · exact h1
    · exact h3
    · exact h4
    · exact h5
    · exact hs (hr v (List.mem_singleton_self v))
    · exact h8
  exact h.congr hc

/-- An XDP run. -/
theorem ledger_xdp {ops : List (Op Ptr)} {a : Int} (hp : v.programme = .xdp) (he : XdpEntry v.wire ops a)
    (hv : v.verdict s = some a)
    (hc : ∀ idx, idx ≠ .M_TC_URR_UPDATED → (v.counts s).count idx = (ops.filterMap bumpOf).count idx) :
    Ledger s [v] fun idx => (v.counts s).count idx := by
  have hx : v.isXdp = true := by rw [Visit.isXdp, hp]; rfl
  have hd : v.xdpDropped s = decide (a = XDP_DROP) := by simp [Visit.xdpDropped, hp, hv, Programme.isXdp]
  have ht : v.truncated s = (decide (a = XDP_DROP) && decide (TruncatedGtp v.wire)) := by rw [Visit.truncated, hd]
  have hl : v.looksUp s = false := by rw [Visit.looksUp, hp]; rfl
  have he' : v.encapsulated s = false := by rw [Visit.encapsulated, hp]; rfl
  have hi : v.ingressShot s = false := by rw [Visit.ingressShot, hp]; rfl
  refine ledger_single hc ?_ fun _ => ?_
  · rw [hx, hd, ht, hl, he']
    cases he with
    | malformed h =>
      rw [decide_eq_false h]
      decide
    | truncated h =>
      rw [decide_eq_true h]
      decide
    | miss h teid idx hi =>
      rw [decide_eq_false h]
      rcases hi with rfl | rfl <;> (show Balances [_, _, _, _] _ _ _ _ _; decide)
    | hit teid =>
      rw [show decide (XDP_PASS = XDP_DROP) = false from rfl, Bool.false_and]
      show Balances [_, _, _, _] _ _ _ _ _
      decide
    | _ =>
      rw [show decide (XDP_PASS = XDP_DROP) = false from rfl, Bool.false_and]
      decide
  · rw [hi]
    cases he with
    | miss h teid idx hi => rcases hi with rfl | rfl <;> rfl
    | _ => rfl

/-- A TC ingress run. -/
theorem ledger_ingress {b : Build} {ops : List (Op Ptr)} {a : Int} (hp : v.programme = .ingress b)
    (he : IngressEntry v.H ops a) (hv : v.verdict s = some a) (hl : v.looksUp s = ops.any isSession)
    (hc : ∀ idx, idx ≠ .M_TC_URR_UPDATED → (v.counts s).count idx = (ops.filterMap bumpOf).count idx) :
    Ledger s [v] fun idx => (v.counts s).count idx := by
  have hx : v.isXdp = false := by rw [Visit.isXdp, hp]; rfl
  have hd : v.xdpDropped s = false := by rw [Visit.xdpDropped, hp]; rfl
  have ht : v.truncated s = false := by rw [Visit.truncated, hd, Bool.false_and]
  have he' : v.encapsulated s = false := by rw [Visit.encapsulated, hp]; rfl
  have hi : v.ingressShot s = decide (a = TC_ACT_SHOT_X) := by simp [Visit.ingressShot, hp, hv, Programme.isIngress]
  refine ledger_single hc ?_ fun hr => ?_
  · rw [hx, hd, ht, hl, he']
    cases he with
    | passed => decide
    | missed teid =>
      show Balances [_] false false false true false
      decide
    | shot teid idx hidx =>
      simp only [List.mem_cons, List.not_mem_nil, or_false] at hidx
      rcases hidx with rfl | rfl | rfl | rfl <;> (show Balances [_] false false false true false; decide)
    | forwarded teid ifindex =>
      split
      · show Balances [_, _, _] false false false true false
        decide
      · show Balances [_, _] false false false true false
        decide
  · rw [hi]
    cases he with
    | shot teid idx hidx =>
      simp only [List.mem_cons, List.not_mem_nil, or_false] at hidx
      rcases hidx with rfl | rfl | rfl | rfl <;> rfl
    | forwarded teid ifindex =>
      rcases hr ifindex with h | h <;> rw [h] <;> rfl
    | _ => rfl

theorem not_isEncapped_self (f : Bytes) : ¬ IsEncapped f f := by
  intro h
  have hl := congrArg List.length h
  simp only [encapped, List.length_append, List.length_take, List.length_drop, length_outerHeaders] at hl
  omega

theorem isEncapped_encapped {f : Bytes} {src dst teid_be : Nat} (hl : 34 ≤ f.length) (hs : src < 2 ^ 32)
    (hd : dst < 2 ^ 32) (ht : teid_be < 2 ^ 32) : IsEncapped f (encapped f src dst teid_be) := by
  rw [IsEncapped, field_encapped hl 8 rfl (by simp [outerFields, width]) (by decide) hs,
    field_encapped hl 9 rfl (by simp [outerFields, width]) (by decide) hd,
    field_encapped hl 17 rfl (by simp [outerFields, width]) (by decide) ht]

/-- A TC egress run. -/
theorem ledger_egress {f f' : Bytes} {ops : List (Op Ptr)} {a : Int} (hp : v.programme = .egress)
    (he : EgressEntry f ops a f') (hv : v.encapsulated s = (decide (a = TC_ACT_OK_X) && decide (IsEncapped f f')))
    (hc : ∀ idx, idx ≠ .M_TC_URR_UPDATED → (v.counts s).count idx = (ops.filterMap bumpOf).count idx) :
    Ledger s [v] fun idx => (v.counts s).count idx := by
  have hx : v.isXdp = false := by rw [Visit.isXdp, hp]; rfl
  have hd : v.xdpDropped s = false := by rw [Visit.xdpDropped, hp]; rfl
  have ht : v.truncated s = false := by rw [Visit.truncated, hd, Bool.false_and]
  have hl : v.looksUp s = false := by rw [Visit.looksUp, hp]; rfl
  have hi : v.ingressShot s = false := by rw [Visit.ingressShot, hp]; rfl
  refine ledger_single hc ?_ fun _ => ?_
  · rw [hx, hd, ht, hl, hv]
    cases he with
    | passed | missed =>
      rw [decide_eq_false (not_isEncapped_self f)]
      decide
    | failed =>
      rw [show decide (TC_ACT_SHOT_X = TC_ACT_OK_X) = false from rfl, Bool.false_and]
      decide
    | encapped hl src dst teid_be hs hd ht =>
      rw [decide_eq_true (isEncapped_encapped hl hs hd ht)]
      decide
  · rw [hi]
    cases he <;> rfl

/-- One visit balances. -/
theorem ledger_one (s : Maps) (v : Visit) : Ledger s [v] fun idx => (v.counts s).count idx := by
  obtain ⟨a, x, hr, he⟩ := visit_entry s v
  have hv : v.verdict s = some a := by rw [Visit.verdict, hr]; rfl
  have hc : ∀ idx, idx ≠ .M_TC_URR_UPDATED →
      (v.counts s).count idx = (((v.trace s).filter noted).filterMap bumpOf).count idx := by
    intro idx hi
    exact (count_noted hi _).symm
  have hl := looksUp_eq s v
  cases hp : v.programme with
  | xdp =>
    rw [VisitEntry, hp] at he
    exact ledger_xdp hp he hv hc
  | ingress b =>
    rw [VisitEntry, hp] at he
    rw [hp] at hl
    exact ledger_ingress hp he hv hl hc
  | egress =>
    rw [VisitEntry, hp] at he
    exact ledger_egress hp he (by rw [Visit.encapsulated, hp, hr]; rfl) hc

theorem endings_noted (ops : List (Op Ptr)) : endings (ops.filter noted) = endings ops := by
  unfold endings
  rw [List.filterMap_filter]
  refine congrFun (congrArg _ (funext fun o => ?_)) ops
  cases o with
  | bump idx => cases idx <;> rfl
  | lookup m k => cases m <;> rfl
  | _ => rfl

/-- A run of TC ingress that looks up a TEID ends in one of the counters. -/
theorem ends_once (s : Maps) (v : Visit) : EndsOnce s v := by
  intro hl
  obtain ⟨a, x, hr, he⟩ := visit_entry s v
  rw [looksUp_eq, Bool.and_eq_true] at hl
  obtain ⟨hp, hl⟩ := hl
  rw [← endings_noted]
  generalize (v.trace s).filter noted = ops at he hl
  rw [VisitEntry] at he
  split at he
  · next hx => rw [hx] at hp; cases hp
  · cases he with
    | passed => cases hl
    | missed teid => rfl
    | shot teid idx hidx =>
      simp only [List.mem_cons, List.not_mem_nil, or_false] at hidx
      rcases hidx with rfl | rfl | rfl | rfl <;> rfl
    | forwarded teid ifindex => split <;> rfl
  · next hx => rw [hx] at hp; cases hp

/-! ## All visits -/

theorem Ledger.nil : Ledger s [] fun _ => 0 := by
  constructor <;> first | rfl | exact fun _ => rfl

theorem Ledger.cons {T T' : Metric → Nat} (h : v.step s = some s') (h₁ : Ledger s [v] T) (h₂ : Ledger s' vs T') :
    Ledger s (v :: vs) fun idx => T idx + T' idx := by
  have ht : ∀ p, tally p s (v :: vs) = tally p s [v] + tally p s' vs := fun p => by
    rw [tally, sumOver_cons h, sumOver_single]
  obtain ⟨a1, a2, a3, a4, a5, a6, a7, a8, a9⟩ := h₁
  obtain ⟨b1, b2, b3, b4, b5, b6, b7, b8, b9⟩ := h₂
  refine ⟨?_, ?_, ?_, ?_, ?_, ?_, ?_, fun hr => ?_, ?_⟩
  all_goals try rw [ht]
  · omega
  · omega
  · omega
  · omega
  · omega
  · omega
  · omega
  · have h8 := a8 fun w hw => hr w (by rw [List.mem_singleton.mp hw]; exact List.mem_cons_self)
    have h8' := b8 fun w hw => hr w (List.mem_cons_of_mem _ hw)
    omega
  · omega

/-- All visits balance, by induction on them. -/
theorem ledger_count (s : Maps) (vs : List Visit) : Ledger s vs fun idx => countOf idx s vs := by
  induction vs generalizing s with
  | nil => exact .nil
  | cons v vs ih =>
    obtain ⟨s', h⟩ := visit_step s v
    have hc := (ledger_one s v).cons h (ih s')
    have he : (fun idx => countOf idx s (v :: vs)) = fun idx => (v.counts s).count idx + countOf idx s' vs :=
      funext fun idx => sumOver_cons h
    rw [he]
    exact hc

/-! ## Totals -/

/-- How often CPU `c` counts `idx`. -/
def countOn (c : Nat) (idx : Metric) : Maps → List Visit → Nat :=
  sumOver fun s v => if v.cpu = c then (v.counts s).count idx else 0

theorem visit_metrics {c : Nat} {idx : Metric} (h : v.step s = some s') (hlt : s.metrics c idx < 2 ^ 64) :
    s'.metrics c idx = (s.metrics c idx + if v.cpu = c then (v.counts s).count idx else 0) % 2 ^ 64 := by
  obtain ⟨⟨a, x⟩, hr, rfl⟩ := Option.map_eq_some_iff.mp h
  have hm : x.1.maps.metrics = (s.countAll v.cpu (v.counts s)).metrics := amid_metrics hr
  rw [hm]
  split
  · next hc =>
    rw [← hc] at hlt ⊢
    exact metrics_countAll_self hlt _
  · next hc => rw [metrics_countAll_ne (Ne.symm hc), Nat.add_zero, Nat.mod_eq_of_lt hlt]

/-- By induction on the visits. -/
theorem visits_metrics {c : Nat} {idx : Metric} (h : exec Visit.step s vs = some s') (hlt : s.metrics c idx < 2 ^ 64) :
    s'.metrics c idx = (s.metrics c idx + countOn c idx s vs) % 2 ^ 64 := by
  induction vs generalizing s with
  | nil =>
    cases h
    exact (Nat.mod_eq_of_lt hlt).symm
  | cons v vs ih =>
    obtain ⟨s₁, h₁, h₂⟩ := exec_cons.mp h
    have hm : s₁.metrics c idx = _ := visit_metrics h₁ hlt
    have hi := ih h₂ (by rw [hm]; exact Nat.mod_lt _ (Nat.two_pow_pos 64))
    have hn : countOn c idx s (v :: vs) = (if v.cpu = c then (v.counts s).count idx else 0) + countOn c idx s₁ vs :=
      sumOver_cons h₁
    rw [hi, hm, hn, Nat.mod_add_mod, Nat.add_assoc]

/-- The CPUs' counts together. -/
theorem sum_countOn {N : Nat} (hcpu : ∀ v ∈ vs, v.cpu < N) (idx : Metric) (s : Maps) :
    ∑ c ∈ Finset.range N, countOn c idx s vs = countOf idx s vs := by
  induction vs generalizing s with
  | nil => exact Finset.sum_const_zero
  | cons v vs ih =>
    obtain ⟨s', h⟩ := visit_step s v
    have hn : ∀ c, countOn c idx s (v :: vs) =
        (if v.cpu = c then (v.counts s).count idx else 0) + countOn c idx s' vs := fun c => sumOver_cons h
    have hone : ∑ c ∈ Finset.range N, (if v.cpu = c then (v.counts s).count idx else 0) = (v.counts s).count idx := by
      rw [Finset.sum_ite_eq, if_pos (Finset.mem_range.mpr (hcpu v List.mem_cons_self))]
    have hof : countOf idx s (v :: vs) = (v.counts s).count idx + countOf idx s' vs := sumOver_cons h
    simp only [hn, Finset.sum_add_distrib, hone, hof, ih (fun w hw => hcpu w (List.mem_cons_of_mem _ hw))]

/-- A visit counts nothing twice. -/
theorem count_le_one {idx : Metric} (hi : idx ≠ .M_TC_URR_UPDATED) (s : Maps) (v : Visit) :
    (v.counts s).count idx ≤ 1 := by
  obtain ⟨a, x, hr, he⟩ := visit_entry s v
  have hnd : (((v.trace s).filter noted).filterMap bumpOf).Nodup := by
    generalize (v.trace s).filter noted = ops at he
    rw [VisitEntry] at he
    split at he
    · cases he with
      | miss h teid idx hi =>
        show List.Nodup [_, _, _, _]
        rcases hi with rfl | rfl <;> decide
      | hit teid =>
        show List.Nodup [_, _, _, _]
        decide
      | _ => decide
    · cases he with
      | passed => decide
      | missed teid | shot teid idx hidx => exact List.nodup_singleton _
      | forwarded teid ifindex =>
        split
        · show List.Nodup [_, _, _]
          decide
        · show List.Nodup [_, _]
          decide
    · generalize x.1.frame = f', v.wire = f at he
      cases he <;> decide
  rw [Visit.counts, ← count_noted hi]
  exact List.nodup_iff_count_le_one.mp hnd idx

theorem countOn_le {idx : Metric} (hi : idx ≠ .M_TC_URR_UPDATED) (c : Nat) (s : Maps) (vs : List Visit) :
    countOn c idx s vs ≤ vs.countP fun v => v.cpu = c := by
  induction vs generalizing s with
  | nil => exact Nat.le_refl 0
  | cons v vs ih =>
    obtain ⟨s', h⟩ := visit_step s v
    have hn : countOn c idx s (v :: vs) = (if v.cpu = c then (v.counts s).count idx else 0) + countOn c idx s' vs :=
      sumOver_cons h
    have hone := count_le_one hi s v
    rw [hn, List.countP_cons]
    have := ih s'
    by_cases hc : v.cpu = c
    · simp only [hc, ite_true, decide_true]
      omega
    · simp only [hc, ite_false, decide_false]
      omega

/-- Whatever the maps are between any two operations, the counters are a ledger
of the visits: modulo `2 ^ 64`, and exactly as long as no CPU has `2 ^ 64` visits. -/
theorem ledger_complete {N : Nat} (h0 : ∀ cpu idx, s.metrics cpu idx = 0) (hcpu : ∀ v ∈ vs, v.cpu < N) :
    ∃ s' out, exec Visit.step s vs = some s' ∧ Along Visit.step EndsOnce s vs ∧
      read_metrics (metrics_dump N s') = .ok out ∧ ∃ T : Metric → Nat, (∀ idx : Metric, out idx.name = some (T idx)) ∧
        ((∀ cpu, vs.countP (fun v => v.cpu = cpu) < 2 ^ 64) → Ledger s vs T) ∧
        ∃ counts, Ledger s vs counts ∧ ∀ idx, T idx ≡ counts idx [MOD 2 ^ 64] := by
  obtain ⟨s', h⟩ := visits_run s vs
  obtain ⟨out, hout, hname⟩ := read_metrics_eq N s'
  have hm : ∀ c idx, s'.metrics c idx = countOn c idx s vs % 2 ^ 64 := fun c idx => by
    rw [visits_metrics h (by rw [h0]; decide), h0, Nat.zero_add]
  refine ⟨s', out, h, along_of_forall (fun v _ s => ends_once s v) s, hout, metricTotal N s', hname, fun hlt => ?_, _,
    ledger_count s vs, fun idx => ?_⟩
  · refine (ledger_count s vs).congr fun idx hi => ?_
    rw [← sum_countOn hcpu]
    refine Finset.sum_congr rfl fun c _ => ?_
    rw [hm, Nat.mod_mod, Nat.mod_eq_of_lt ((countOn_le hi c s vs).trans_lt (hlt c))]
  · have ht : metricTotal N s' idx = ∑ c ∈ Finset.range N, countOn c idx s vs % 2 ^ 64 :=
      Finset.sum_congr rfl fun c _ => by rw [hm, Nat.mod_mod]
    rw [← sum_countOn hcpu, ht]
    exact (Finset.sum_nat_mod _ _ _).symm

/-- Two sessions, the second one with a QER that lets nothing through, a UE, and what a packet of
the first one has left. -/
def inService : Maps := ((after (do
  install_far 1 FAR_FORWARD 5 0 0
  install_qer 1 8000 0 1000
  install_qer 2 8000 0 10
  install_session 0x1000 1 1 1 32 1
  install_session 0x2000 2 2 1 32 1
  install_dl_ue ⟨10, 45, 0, 2⟩ 0x1000 ⟨192, 168, 1, 1⟩ 1) .empty).bind fun s =>
    (Job.packet willing (gpduFrame 0x1000)).step ⟨false, false, false⟩ 1 s).getD .empty

/-- A frame of no session and one of the first session at XDP, one of each session at TC ingress, and
one for the UE at TC egress. -/
def fiveVisits : List Visit := [⟨.xdp, willing, fun _ => inService, 0, gpduFrame 0x3000⟩,
  ⟨.xdp, willing, fun _ => inService, 0, gpduFrame 0x1000⟩,
  ⟨.ingress ⟨false, false, false⟩, willing, fun _ => inService, 1, gpduFrame 0x1000⟩,
  ⟨.ingress ⟨false, false, false⟩, willing, fun _ => inService, 1, gpduFrame 0x2000⟩,
  ⟨.egress, willing, fun _ => inService, 0, pingFrame⟩]

/-- Forwarded, refused, metered and encapsulated once each. -/
theorem ledger_complete_five : ∃ s' out, exec Visit.step .empty fiveVisits = some s' ∧
    Along Visit.step EndsOnce .empty fiveVisits ∧ read_metrics (metrics_dump 2 s') = .ok out ∧
    ∃ T : Metric → Nat, (∀ idx : Metric, out idx.name = some (T idx)) ∧ Ledger .empty fiveVisits T ∧
      ∀ idx ∈ [Metric.M_HIT, .M_MISS_TEID, .M_TC_FAR_FORWARD, .M_TC_QER_DROP, .M_TC_URR_UPDATED, .M_TC_DL_HIT],
        T idx = 1 := by
  have hrun : (exec Visit.step .empty fiveVisits).map (fun s' => [Metric.M_HIT, .M_MISS_TEID, .M_TC_FAR_FORWARD,
      .M_TC_QER_DROP, .M_TC_URR_UPDATED, .M_TC_DL_HIT].map (metricTotal 2 s')) = some [1, 1, 1, 1, 1, 1] := by
    decide +kernel
  obtain ⟨s', out, h, he, hout, T, hT, hl, -⟩ := @ledger_complete .empty fiveVisits 2
    (fun _ _ => rfl) (by simp [fiveVisits])
  obtain ⟨out', hout', hname⟩ := read_metrics_eq 2 s'
  cases hout.symm.trans hout'
  have ht : ∀ idx, T idx = metricTotal 2 s' idx := fun idx => Option.some.inj ((hT idx).symm.trans (hname idx))
  rw [h] at hrun
  refine ⟨s', out, h, he, hout, T, hT, hl fun cpu => List.countP_le_length.trans_lt (by decide), ?_⟩
  simpa only [List.map_cons, List.map_nil, Option.map_some, Option.some.injEq, List.cons.injEq, and_true, ← ht,
    List.forall_mem_cons, List.not_mem_nil, false_imp_iff, implies_true] using hrun

/-! ## Counters that wrap -/

/-- An empty frame. -/
def runt : Visit := ⟨.xdp, willing, fun _ => .empty, 0, []⟩

theorem tally_runts (n : Nat) (s : Maps) : tally (fun _ v => v.isXdp) s (List.replicate n runt) = n := by
  induction n generalizing s with
  | zero => rfl
  | succ n ih =>
    obtain ⟨s', h⟩ := visit_step s runt
    rw [List.replicate_succ, tally, sumOver_cons h]
    refine (congrArg (1 + ·) (ih s')).trans (Nat.add_comm 1 n)

theorem runts_reported (n : Nat) : ∃ s' out, exec Visit.step .empty (List.replicate n runt) = some s' ∧
    read_metrics (metrics_dump 1 s') = .ok out ∧ out "rx_total" = some (n % 2 ^ 64) := by
  obtain ⟨s', h⟩ := visits_run .empty (List.replicate n runt)
  obtain ⟨out, hout, hname⟩ := read_metrics_eq 1 s'
  refine ⟨s', out, h, hout, (hname .M_RX_TOTAL).trans (congrArg some ?_)⟩
  have hm : s'.metrics 0 .M_RX_TOTAL = _ := visits_metrics h (by decide)
  have hn : countOn 0 .M_RX_TOTAL .empty (List.replicate n runt) = n := by
    have hs : ∑ c ∈ Finset.range 1, countOn c .M_RX_TOTAL .empty (List.replicate n runt) = _ := sum_countOn
      (fun v hv => by rw [List.eq_of_mem_replicate hv]; decide) .M_RX_TOTAL .empty
    rw [Finset.sum_range_one, (ledger_count _ _).rx_total, tally_runts] at hs
    exact hs
  rw [metricTotal, Finset.sum_range_one, hm, hn, Nat.mod_mod]
  exact congrArg (· % 2 ^ 64) (Nat.zero_add n)

/-- After `2 ^ 64` frames on one CPU, `rx_total` is zero again. -/
theorem ledger_wraps : ∃ s' out, exec Visit.step .empty (List.replicate (2 ^ 64) runt) = some s' ∧
    read_metrics (metrics_dump 1 s') = .ok out ∧ out "rx_total" = some 0 ∧
    tally (fun _ v => v.isXdp) .empty (List.replicate (2 ^ 64) runt) = 2 ^ 64 := by
  obtain ⟨s', out, h, hout, hn⟩ := runts_reported (2 ^ 64)
  rw [Nat.mod_self] at hn
  exact ⟨s', out, h, hout, hn, tally_runts _ _⟩

end UPF
