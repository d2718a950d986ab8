import EbpfUpf.Impl.Agent
import EbpfUpf.Proof.Enforce
import EbpfUpf.Proof.Parser

/-!
# The uplink

The two uplink programmes on one frame. `xdp_gpdu` and `tc_gpdu` say what each
does with a G-PDU, `xdp_other` and `tc_other` with any other frame.
`parsers_agree` compares the two. `redirects_authorised_iff` says when a
redirect by TC ingress is always one that the rules call for: unless the FAR's
action is none of the three there are, when the packet is forwarded.
-/

open Framework

namespace UPF

variable {H : Helpers} {s : Machine}

theorem classify_shows (teid : Nat) : Shows H (xdp_classify teid) s
    [.lookup .teid_session teid, .bump (classified s.maps teid).1] (classified s.maps teid).2 := by
  unfold classified pdrOf
  rw [xdp_classify, lookup_bind]
  refine .seen rfl (kernel_lookup rfl _ _ _) ?_
  cases s.maps.lookup .teid_session teid with
  | none => exact .seen rfl rfl (.ret _ _)
  | some sess =>
  simp only [Option.map_some, read_bind, lookup_bind]
  refine .hidden rfl rfl (.hidden rfl (kernel_lookup rfl _ _ _) ?_)
  simp only [Maps.deref]
  cases s.maps.lookup .pdr_table (sess.get session_val.pdr_id 4) with
  | none => exact .seen rfl rfl (.ret _ _)
  | some pdr => exact .seen rfl rfl (.ret _ _)

/-- What a parser does, followed by the visible operations `ops` and the
verdict `v`. -/
structure Parsed (H : Helpers) (p : Bpf Ptr Int) (s : Machine) (counts : Metric → Prop) (ops : List (Op Ptr))
    (v : Int) : Prop where
  trace : ∃ pre : List (Op Ptr), (∀ o ∈ pre, ParseOp s.frame.length counts o) ∧
    (p.trace (kernel H) s).filter visible = pre.filter visible ++ ops
  run : ∃ s', p.run (kernel H) s = some (v, s')

theorem Parsed.of_leads {p p' : Bpf Ptr Int} {s' : Machine} {counts : Metric → Prop} {ops : List (Op Ptr)}
    {v : Int} (h : Prog.Leads (kernel H) (ParseOp s.frame.length counts) p s p' s')
    (hp : Shows H p' s' ops v) : Parsed H p s counts ops v := by
  obtain ⟨pre, hq, ht⟩ := h.trace_eq
  refine ⟨⟨pre, hq, ?_⟩, ?_⟩
  · rw [ht, List.filter_append, hp.1]
  · rw [h.run_eq]
    exact hp.2

theorem xdp_gpdu (g : IsGpdu s.frame) : Parsed H upf_xdp_uplink s XdpCount
    [.lookup .teid_session (teidOf s.frame), .bump (classified s.maps (teidOf s.frame)).1]
    (classified s.maps (teidOf s.frame)).2 := by
  obtain ⟨v, s', -, hl⟩ := xdp_parses H s
  rw [if_pos g] at hl
  have hk := leads_keeps hl
  have hc : classified s'.maps (teidOf s.frame) = classified s.maps (teidOf s.frame) := by
    simp only [classified, pdrOf, hk.lookup (m := .teid_session) (by decide),
      hk.lookup (m := .pdr_table) (by decide)]
  rw [← hc]
  exact .of_leads hl (classify_shows _)

theorem xdp_other (g : ¬ IsGpdu s.frame) : ∃ v, Parsed H upf_xdp_uplink s XdpCount [] v := by
  obtain ⟨v, s', -, hl⟩ := xdp_parses H s
  rw [if_neg g] at hl
  exact ⟨v, .of_leads hl (.ret v s')⟩

theorem tc_gpdu (b : Build) (g : IsGpdu s.frame) :
    let fate := fate b H (entered b s) (teidOf s.frame) (outerLen s.frame)
    Parsed H (upf_tc_ingress b) s (fun _ => False)
      (.lookup .teid_session (teidOf s.frame) :: fate.ops (outerLen s.frame)) (fate.verdict H) := by
  obtain ⟨v, s', ⟨-, rfl⟩, hl⟩ := tc_parses b H s
  rw [if_pos g] at hl
  exact .of_leads hl (enforce_shows b H (entered b s) _ _ _)

theorem tc_other (b : Build) (g : ¬ IsGpdu s.frame) :
    Parsed H (upf_tc_ingress b) s (fun _ => False) [] TC_ACT_OK_X ∧
    (upf_tc_ingress b).run (kernel H) s = some (TC_ACT_OK_X, entered b s) := by
  obtain ⟨v, s', ⟨rfl, rfl⟩, hl⟩ := tc_parses b H s
  rw [if_neg g] at hl
  exact ⟨.of_leads hl (.ret _ _), by rw [hl.run_eq]; rfl⟩

/-- A visible operation of a run is one of the parser's, or one of those that
follow. -/
theorem Parsed.mem {p : Bpf Ptr Int} {counts : Metric → Prop} {ops : List (Op Ptr)} {v : Int}
    (h : Parsed H p s counts ops v) {o : Op Ptr} (ho : visible o = true)
    (hm : o ∈ p.trace (kernel H) s) : ParseOp s.frame.length counts o ∨ o ∈ ops := by
  obtain ⟨pre, hq, ht⟩ := h.trace
  have : o ∈ pre.filter visible ++ ops := by
    rw [← ht]
    exact List.mem_filter.mpr ⟨hm, ho⟩
  rcases List.mem_append.mp this with h | h
  · exact .inl (hq o (List.mem_filter.mp h).1)
  · exact .inr h

theorem Parsed.mem_ops {p : Bpf Ptr Int} {counts : Metric → Prop} {ops : List (Op Ptr)} {v : Int}
    (h : Parsed H p s counts ops v) {o : Op Ptr} (ho : o ∈ ops) : o ∈ p.trace (kernel H) s := by
  obtain ⟨pre, hq, ht⟩ := h.trace
  have : o ∈ (p.trace (kernel H) s).filter visible := by
    rw [ht]
    exact List.mem_append_right _ ho
  exact (List.mem_filter.mp this).1

/-- What a fate shows is not on the packet, but for its stripping and its redirect. -/
theorem Fate.mem_ops {n : Nat} {fate : Fate} {o : Op Ptr} (h : o ∈ fate.ops n) :
    o = .bump fate.metric ∨ o = .adjust_room (-n) BPF_ADJ_ROOM_MAC_X BPF_F_ADJ_ROOM_FIXED_GSO_X ∨
      ∃ ifindex, fate = .forwarded ifindex ∧ o = .redirect ifindex 0 := by
  cases fate <;> simp [Fate.ops, Fate.metric] at h ⊢ <;> tauto

theorem xdp_lookup_iff (k : Nat) : .lookup .teid_session k ∈ upf_xdp_uplink.trace (kernel H) s ↔
    IsGpdu s.frame ∧ k = teidOf s.frame := by
  by_cases g : IsGpdu s.frame
  · have hx := xdp_gpdu (H := H) g
    refine ⟨fun h => ⟨g, ?_⟩, fun h => ?_⟩
    · rcases hx.mem rfl h with h | h
      · cases h
      · simpa using h
    · rw [h.2]
      exact hx.mem_ops List.mem_cons_self
  · obtain ⟨v, hx⟩ := xdp_other (H := H) g
    refine ⟨fun h => ?_, fun h => absurd h.1 g⟩
    rcases hx.mem rfl h with h | h <;> cases h

theorem tc_lookup_iff (b : Build) (k : Nat) : .lookup .teid_session k ∈ (upf_tc_ingress b).trace (kernel H) s ↔
    IsGpdu s.frame ∧ k = teidOf s.frame := by
  by_cases g : IsGpdu s.frame
  · have ht := tc_gpdu (H := H) b g
    refine ⟨fun h => ⟨g, ?_⟩, fun h => ?_⟩
    · rcases ht.mem rfl h with h | h
      · cases h
      · rcases List.mem_cons.mp h with h | h
        · simpa using h
        · rcases Fate.mem_ops h with h | h | ⟨_, -, h⟩ <;> cases h
    · rw [h.2]
      exact ht.mem_ops List.mem_cons_self
  · refine ⟨fun h => ?_, fun h => absurd h.1 g⟩
    rcases (tc_other (H := H) b g).1.mem rfl h with h | h <;> cases h

/-- What XDP passes without a hit is no G-PDU. -/
theorem not_gpdu_of_pass {s' : Machine} (hr : upf_xdp_uplink.run (kernel H) s = some (XDP_PASS, s'))
    (hh : .bump .M_HIT ∉ upf_xdp_uplink.trace (kernel H) s) : ¬ IsGpdu s.frame := by
  intro g
  have hx := xdp_gpdu (H := H) g
  obtain ⟨t, ht⟩ := hx.run
  have hv : (classified s.maps (teidOf s.frame)).2 = XDP_PASS := by
    rw [hr] at ht
    exact (Prod.mk.inj (Option.some.inj ht)).1.symm
  have hm : (classified s.maps (teidOf s.frame)).1 = .M_HIT := by
    revert hv
    unfold classified
    split
    · decide
    · split
      · exact fun _ => rfl
      · decide
  refine hh (hx.mem_ops (List.mem_cons_of_mem _ ?_))
  rw [hm]
  exact List.mem_cons_self

theorem xdp_load_le {off n : Nat} (h : .load off n ∈ upf_xdp_uplink.trace (kernel H) s) :
    off + n ≤ s.frame.length := by
  by_cases g : IsGpdu s.frame
  · rcases (xdp_gpdu (H := H) g).mem rfl h with h | h
    · exact h
    · simp at h
  · obtain ⟨v, hx⟩ := xdp_other (H := H) g
    rcases hx.mem rfl h with h | h
    · exact h
    · cases h

theorem tc_load_le {b : Build} {off n : Nat} (h : .load off n ∈ (upf_tc_ingress b).trace (kernel H) s) :
    off + n ≤ s.frame.length := by
  by_cases g : IsGpdu s.frame
  · rcases (tc_gpdu (H := H) b g).mem rfl h with h | h
    · exact h
    · rcases List.mem_cons.mp h with h | h
      · cases h
      · rcases Fate.mem_ops h with h | h | ⟨_, -, h⟩ <;> cases h
  · rcases (tc_other (H := H) b g).1.mem rfl h with h | h
    · exact h
    · cases h

/-- TC strips the outer headers of a G-PDU and nothing else. -/
theorem tc_strips {b : Build} {d : Int} {mode flags : Nat}
    (h : .adjust_room d mode flags ∈ (upf_tc_ingress b).trace (kernel H) s) :
    IsGpdu s.frame ∧ d = -(outerLen s.frame : Int) := by
  by_cases g : IsGpdu s.frame
  · refine ⟨g, ?_⟩
    rcases (tc_gpdu (H := H) b g).mem rfl h with h | h
    · cases h
    · rcases List.mem_cons.mp h with h | h
      · cases h
      · rcases Fate.mem_ops h with h | h | ⟨_, -, h⟩ <;> cases h
        rfl
  · rcases (tc_other (H := H) b g).1.mem rfl h with h | h <;> cases h

theorem xdp_runs (H : Helpers) (s : Machine) : ∃ r, upf_xdp_uplink.run (kernel H) s = some r := by
  by_cases g : IsGpdu s.frame
  · obtain ⟨s', h⟩ := (xdp_gpdu (H := H) g).run
    exact ⟨_, h⟩
  · obtain ⟨v, hx⟩ := xdp_other (H := H) g
    obtain ⟨s', h⟩ := hx.run
    exact ⟨_, h⟩

theorem tc_runs (b : Build) (H : Helpers) (s : Machine) : ∃ r, (upf_tc_ingress b).run (kernel H) s = some r := by
  by_cases g : IsGpdu s.frame
  · obtain ⟨s', h⟩ := (tc_gpdu (H := H) b g).run
    exact ⟨_, h⟩
  · exact ⟨_, (tc_other (H := H) b g).2⟩

/-- On any frame, the two programmes look up the same TEID, if any; what XDP
passes without a hit TC passes as well, and counts nothing; neither reads
beyond the end of the frame, and what TC strips is within it. -/
theorem parsers_agree (b : Build) (H H' : Helpers) (x t : Machine) (f : Bytes) :
    let xdp := Prog.trace (kernel H) upf_xdp_uplink { x with frame := f }
    let tc := Prog.trace (kernel H') (upf_tc_ingress b) { t with frame := f }
    (∀ k, .lookup .teid_session k ∈ xdp ↔ .lookup .teid_session k ∈ tc) ∧
    (∀ x', Prog.run (kernel H) upf_xdp_uplink { x with frame := f } = some (XDP_PASS, x') →
      .bump .M_HIT ∉ xdp → ∃ t', Prog.run (kernel H') (upf_tc_ingress b) { t with frame := f } =
        some (TC_ACT_OK_X, t') ∧ t'.maps = t.maps) ∧
    (∃ r, Prog.run (kernel H) upf_xdp_uplink { x with frame := f } = some r) ∧
    (∃ r, Prog.run (kernel H') (upf_tc_ingress b) { t with frame := f } = some r) ∧
    (∀ off n, .load off n ∈ xdp ∨ .load off n ∈ tc → off + n ≤ f.length) ∧
    ∀ d mode flags, .adjust_room d mode flags ∈ tc →
      d = -((4 * (f.get 14 1 % 16) + 16 : Nat) : Int) ∧ 4 * (f.get 14 1 % 16) + 16 ≤ f.length - 14 := by
  refine ⟨fun k => ?_, fun x' hr hh => ?_, xdp_runs _ _, tc_runs _ _ _, ?_, fun d mode flags h => ?_⟩
  · rw [xdp_lookup_iff, tc_lookup_iff]
  · have g : ¬ IsGpdu f := not_gpdu_of_pass (s := { x with frame := f }) hr hh
    exact ⟨_, (tc_other (s := { t with frame := f }) b g).2, rfl⟩
  · rintro off n (h | h)
    · exact xdp_load_le h
    · exact tc_load_le h
  · obtain ⟨g, rfl⟩ := tc_strips h
    have hl : outerLen f = 4 * (f.get 14 1 % 16) + 16 := by
      rw [outerLen, ihlBytes, Nat.mul_comm]
    rw [← hl]
    exact ⟨rfl, g.outerLen_le⟩

/-! ## Endings -/

theorem endings_visible (ops : List (Op Ptr)) : endings (ops.filter visible) = endings ops := by
  unfold endings
  rw [List.filterMap_filter]
  refine congrFun (congrArg _ (funext fun o => ?_)) ops
  cases o with
  | bump idx => cases idx <;> rfl
  | lookup m k => cases m <;> rfl
  | _ => rfl

theorem endings_append (xs ys : List (Op Ptr)) : endings (xs ++ ys) = endings xs ++ endings ys :=
  List.filterMap_append

theorem endings_parse {n : Nat} {pre : List (Op Ptr)} (h : ∀ o ∈ pre, ParseOp n (fun _ => False) o) :
    endings pre = [] := by
  refine List.filterMap_eq_nil_iff.mpr fun o ho => ?_
  have := h o ho
  cases o with
  | bump idx => cases this
  | _ => rfl

/-- A G-PDU ends in its fate, and in no other. -/
theorem tc_endings (b : Build) (g : IsGpdu s.frame) : endings ((upf_tc_ingress b).trace (kernel H) s) =
    [(fate b H (entered b s) (teidOf s.frame) (outerLen s.frame)).metric] := by
  obtain ⟨pre, hq, ht⟩ := (tc_gpdu (H := H) b g).trace
  rw [← endings_visible, ht, endings_append, endings_visible, endings_parse hq]
  cases fate b H (entered b s) (teidOf s.frame) (outerLen s.frame) <;> rfl

theorem xdp_hit_iff : .bump .M_HIT ∈ upf_xdp_uplink.trace (kernel H) s ↔
    IsGpdu s.frame ∧ (classified s.maps (teidOf s.frame)).1 = .M_HIT := by
  by_cases g : IsGpdu s.frame
  · have hx := xdp_gpdu (H := H) g
    refine ⟨fun h => ⟨g, ?_⟩, fun h => ?_⟩
    · rcases hx.mem rfl h with h | h
      · simp [ParseOp, XdpCount] at h
      · simpa [eq_comm] using h
    · rw [← h.2]
      exact hx.mem_ops (List.mem_cons_of_mem _ List.mem_cons_self)
  · obtain ⟨v, hx⟩ := xdp_other (H := H) g
    refine ⟨fun h => ?_, fun h => absurd h.1 g⟩
    rcases hx.mem rfl h with h | h
    · simp [ParseOp, XdpCount] at h
    · cases h

/-! ## Redirects -/

/-- The state in which the QER decides: the packet has lost its outer headers. -/
def decap (b : Build) (H : Helpers) (s : Machine) : Machine :=
  { entered b s with frame := decapped H s.frame (outerLen s.frame) }

/-- TC ingress redirects only a G-PDU that the rules forward and its QER
admits, by the interface of its FAR, and drops one that they do not forward. -/
structure Authorised (b : Build) (H : Helpers) (s : Machine) : Prop where
  redirect : ∀ ifindex flags, .redirect ifindex flags ∈ (upf_tc_ingress b).trace (kernel H) s →
    IsGpdu s.frame ∧ ∃ r, resolve s.maps (teidOf s.frame) = some r ∧ r.far.action = FAR_FORWARD ∧
      ifindex = r.far.out_ifindex ∧
      ∃ s', (admission b r.rule.qer_id (decap b H s).frame.length).run (kernel H) (decap b H s) =
        some (true, s')
  deny : ∀ r, IsGpdu s.frame → resolve s.maps (teidOf s.frame) = some r → r.far.action ≠ FAR_FORWARD →
    ∃ s', (upf_tc_ingress b).run (kernel H) s = some (TC_ACT_SHOT_X, s')

/-- The packet gets past its FAR, though the FAR's action is not to forward. -/
def Unauthorised (b : Build) (H : Helpers) (s : Machine) : Prop :=
  IsGpdu s.frame ∧ ∃ r, resolve s.maps (teidOf s.frame) = some r ∧
    r.far.action ∉ [FAR_DROP, FAR_FORWARD, FAR_BUFFER] ∧ 0 ≤ H.adjust_room (-outerLen s.frame) ∧
    qerAdmits b s.maps r.rule.qer_id s.cpu (H.ktime_get_ns (entered b s).ticks % 2 ^ 64)
      (decap b H s).frame.length

/-- The length the QER is asked about. -/
theorem length_decap (b : Build) (g : IsGpdu s.frame) :
    (decap b H s).frame.length = s.frame.length - outerLen s.frame := by
  have hl := g.outerLen_le
  have he := g.eth
  have hn : ¬ 0 ≤ -(outerLen s.frame : Int) := by
    simp only [outerLen]
    omega
  simp only [decap, decapped, resize, hn, ite_false, List.length_append, List.length_take, List.length_drop,
    ethhdr.size, neg_neg, Int.toNat_natCast]
  omega

/-- A redirect is that of the packet's fate. -/
theorem redirect_fate {b : Build} {ifindex flags : Nat}
    (h : .redirect ifindex flags ∈ (upf_tc_ingress b).trace (kernel H) s) :
    IsGpdu s.frame ∧ fate b H (entered b s) (teidOf s.frame) (outerLen s.frame) = .forwarded ifindex := by
  by_cases g : IsGpdu s.frame
  · refine ⟨g, ?_⟩
    rcases (tc_gpdu (H := H) b g).mem rfl h with h | h
    · cases h
    · rcases List.mem_cons.mp h with h | h
      · cases h
      · rcases Fate.mem_ops h with h | h | ⟨i, hf, h⟩
        · cases h
        · cases h
        · cases h
          exact hf
  · rcases (tc_other (H := H) b g).1.mem rfl h with h | h <;> cases h

/-- A packet is forwarded if its rules are there, nothing says to drop or
buffer it, there is room, and its QER admits it. -/
theorem fate_forwarded {b : Build} {teid n ifindex : Nat} (h : fate b H s teid n = .forwarded ifindex) :
    ∃ r, resolve s.maps teid = some r ∧ r.far.action ≠ FAR_DROP ∧ r.far.action ≠ FAR_BUFFER ∧
      0 ≤ H.adjust_room (-n) ∧ ifindex = r.far.out_ifindex ∧
      qerAdmits b s.maps r.rule.qer_id s.cpu (H.ktime_get_ns s.ticks % 2 ^ 64) (decapped H s.frame n).length := by
  unfold fate at h
  split at h
  · cases h
  next r hr =>
  split at h
  · cases h
  split at h
  · cases h
  split at h
  · cases h
  split at h
  · next h1 h2 h3 h4 =>
    cases h
    exact ⟨r, hr, h1, h2, Int.not_lt.mp h3, rfl, h4⟩
  · cases h

theorem fate_forward {b : Build} {teid n : Nat} {r : Resolved} (hr : resolve s.maps teid = some r)
    (ha : r.far.action = FAR_FORWARD) (hroom : 0 ≤ H.adjust_room (-n))
    (hq : qerAdmits b s.maps r.rule.qer_id s.cpu (H.ktime_get_ns s.ticks % 2 ^ 64) (decapped H s.frame n).length) :
    fate b H s teid n = .forwarded r.far.out_ifindex := by
  have hd : r.far.action ≠ FAR_DROP ∧ r.far.action ≠ FAR_BUFFER := by
    rw [ha]
    decide
  unfold fate
  rw [hr]
  simp only [hd.1, hd.2, Int.not_lt.mpr hroom, hq, ite_false, ite_true]

/-- A packet whose rules say anything else than to forward it is dropped,
unless it is forwarded all the same. -/
theorem fate_denied {b : Build} {teid n : Nat} {r : Resolved} (hr : resolve s.maps teid = some r) :
    (fate b H s teid n).verdict H = TC_ACT_SHOT_X ∨ ∃ ifindex, fate b H s teid n = .forwarded ifindex := by
  unfold fate
  rw [hr]
  dsimp only
  repeat' split
  all_goals first | exact .inl rfl | exact .inr ⟨_, rfl⟩

theorem Unauthorised.not_authorised {b : Build} (h : Unauthorised b H s) : ¬ Authorised b H s := by
  rintro ⟨hredirect, -⟩
  obtain ⟨g, r, hr, ha, hroom, hq⟩ := h
  have hf : fate b H (entered b s) (teidOf s.frame) (outerLen s.frame) = .forwarded r.far.out_ifindex := by
    simp only [List.mem_cons, List.not_mem_nil, or_false, not_or] at ha
    simp only [fate, entered, hr, ha.1, ha.2.2, ite_false, Int.not_lt.mpr hroom]
    exact if_pos hq
  have hm : .redirect r.far.out_ifindex 0 ∈ (upf_tc_ingress b).trace (kernel H) s := by
    refine (tc_gpdu (H := H) b g).mem_ops ?_
    rw [hf]
    simp [Fate.ops]
  obtain ⟨-, r', hr', hf', -⟩ := hredirect _ _ hm
  rw [hr] at hr'
  cases hr'
  simp [hf'] at ha

/-- Every redirect is authorised, unless the FAR's action is not one of the
three, and the kernel makes room and the QER admits the packet. -/
theorem authorised_iff (b : Build) (H : Helpers) (s : Machine) :
    Authorised b H s ↔ ¬ Unauthorised b H s := by
  constructor
  · exact fun ha hu => hu.not_authorised ha
  · intro hu
    have hfwd : ∀ {ifindex}, IsGpdu s.frame →
        fate b H (entered b s) (teidOf s.frame) (outerLen s.frame) = .forwarded ifindex →
        ∃ r, resolve s.maps (teidOf s.frame) = some r ∧ r.far.action = FAR_FORWARD ∧
          ifindex = r.far.out_ifindex ∧ qerAdmits b s.maps r.rule.qer_id s.cpu
            (H.ktime_get_ns (entered b s).ticks % 2 ^ 64) (decap b H s).frame.length := by
      intro ifindex g hf
      obtain ⟨r, hr, h1, h2, h3, h4, h5⟩ := fate_forwarded hf
      refine ⟨r, hr, by_contra fun h => hu ⟨g, r, hr, ?_, h3, h5⟩, h4, h5⟩
      simp [h1, h2, h]
    refine ⟨fun ifindex flags h => ?_, fun r g hr ha => ?_⟩
    · obtain ⟨g, hf⟩ := redirect_fate h
      obtain ⟨r, hr, ha, hi, hq⟩ := hfwd g hf
      obtain ⟨s', hs⟩ := admit_run b H (decap b H s) r.rule.qer_id (decap b H s).frame.length
      refine ⟨g, r, hr, ha, hi, s', ?_⟩
      rw [hs]
      exact congrArg (fun x => some (x, s')) hq
    · rcases fate_denied (s := entered b s) (b := b) (H := H) (n := outerLen s.frame) hr with hv | ⟨i, hf⟩
      · obtain ⟨s', h⟩ := (tc_gpdu (H := H) b g).run
        exact ⟨s', hv ▸ h⟩
      · obtain ⟨r', hr', ha', -⟩ := hfwd g hf
        rw [hr] at hr'
        cases hr'
        exact absurd ha' ha

/-- A FAR with action 3, which the agent installs as it does any other, and a
session that uses it: its packets are forwarded. -/
theorem far_action_unchecked : ∃ s, after (do
      install_far 1 3 5 0 0
      install_session 0x1000 1 0 1 32 0) .empty = some s ∧
    ¬ Authorised ⟨false, false, false⟩ willing ⟨s, 0, gpduFrame 0x1000, 0⟩ := by
  have h : (after (do
      install_far 1 3 5 0 0
      install_session 0x1000 1 0 1 32 0) .empty).map (fun s =>
        (resolve s 0x1000, qerAdmits ⟨false, false, false⟩ s 0 0 1 34)) =
      some (some ⟨1, ⟨1, 0, 0, 32, 0⟩, ⟨3, 5, 0, 0⟩⟩, true) := by decide +kernel
  obtain ⟨s, hs, hr⟩ := Option.map_eq_some_iff.mp h
  obtain ⟨hr, hq⟩ := Prod.mk.inj hr
  have g : IsGpdu (gpduFrame 0x1000) := by decide +kernel
  have ht : teidOf (gpduFrame 0x1000) = 0x1000 := by decide +kernel
  rw [← ht] at hr
  have hl : (decap ⟨false, false, false⟩ willing ⟨s, 0, gpduFrame 0x1000, 0⟩).frame.length = 34 :=
    (length_decap _ g).trans (show (gpduFrame 0x1000).length - outerLen (gpduFrame 0x1000) = 34 by
      decide +kernel)
  have hu : Unauthorised ⟨false, false, false⟩ willing ⟨s, 0, gpduFrame 0x1000, 0⟩ :=
    ⟨g, _, hr, by decide, Int.le_refl 0, by rw [hl]; exact hq⟩
  exact ⟨s, hs, hu.not_authorised⟩

end UPF
