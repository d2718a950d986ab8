import EbpfUpf.Proof.Agent
import EbpfUpf.Proof.Uplink
import EbpfUpf.Spec.Control

/-!
# The two hooks on the same maps

In every state that the control plane reaches, a PDR that XDP finds has a
bundle (`exec_hasBundles`), so what XDP counts as a hit TC enforces, provided
that the FAR of the bundle can be in `far_table` at all. The agent takes any
`far_id`; `hooks_agree` says that this is the only way in which the two hooks
come apart, and that they never do if the calls name FARs below `MAX_FARS`.
-/

open Framework

namespace UPF

/-- What a step does to the PDRs and their bundles. -/
inductive RuleStep (s : Maps) : Ctl → Maps → Prop
  | other {s' : Maps} (c : Ctl) : (∀ k, s'.lookup .pdr_table k = s.lookup .pdr_table k) →
    (∀ k, s'.lookup .tc_bundle_map k = s.lookup .tc_bundle_map k) → RuleStep s c s'
  | install (teid pdr_id qer_id far_id precedence urr_id : Int) : SessionFits pdr_id qer_id far_id precedence urr_id →
    RuleStep s (.call (.install_session teid pdr_id qer_id far_id precedence urr_id))
      (installed s teid pdr_id qer_id far_id precedence urr_id)
  | modify (pdr_id : Int) (c : Changes) (raw : Bytes) : s.lookup .tc_bundle_map pdr_id.toNat = some raw → Packs raw c →
    RuleStep s (.call (.modify_tc_bundle pdr_id c)) (modified s pdr_id raw c)
  | remove (teid pdr_id : Int) : RuleStep s (.call (.remove_session teid pdr_id)) (removed s teid pdr_id)

theorem RuleStep.put {s : Maps} (c : Ctl) {m : MapName} (hm : m ∉ [.pdr_table, .tc_bundle_map]) (k : Nat) (v : Bytes) :
    RuleStep s c (s.put m k v) := by
  simp only [List.mem_cons, List.not_mem_nil, or_false, not_or] at hm
  exact .other c (fun _ => lookup_put_map (Ne.symm hm.1) _ _ _ _) fun _ => lookup_put_map (Ne.symm hm.2) _ _ _ _

theorem ctl_ruleStep {s s' : Maps} {c : Ctl} (hs : c.step s = some s') : RuleStep s c s' := by
  cases c with
  | evict teid =>
    cases hs
    exact .other _ (fun _ => Maps.lookup_drop_ne (.inl (by decide))) fun _ => Maps.lookup_drop_ne (.inl (by decide))
  | call c =>
    obtain ⟨⟨⟩, hs⟩ := after_eq_some.mp hs
    cases c with
    | install_far =>
      obtain ⟨-, -, rfl⟩ := install_far_returns hs
      exact .put _ (by decide) _ _
    | install_qer =>
      obtain ⟨-, -, rfl⟩ := install_qer_returns hs
      exact .put _ (by decide) _ _
    | install_dl_ue =>
      obtain ⟨_, _, -, -, -, -, rfl⟩ := install_dl_ue_returns hs
      exact .put _ (by decide) _ _
    | install_upf_config =>
      obtain ⟨_, -, rfl⟩ := install_upf_config_returns hs
      exact .put _ (by decide) _ _
    | install_session =>
      obtain ⟨hf, -, rfl⟩ := install_session_returns hs
      exact .install _ _ _ _ _ _ hf
    | modify_tc_bundle pdr_id c =>
      obtain ⟨_, hs⟩ := returns_discard hs
      obtain ⟨-, raw, hr, hp, -, rfl⟩ := modify_tc_bundle_returns hs
      exact .modify pdr_id c raw hr hp
    | remove_session teid pdr_id =>
      obtain ⟨-, -, rfl⟩ := remove_session_returns hs
      exact .remove teid pdr_id

/-- Every PDR that XDP finds has a bundle. -/
def HasBundles (s : Maps) : Prop :=
  ∀ pdr_id, s.lookup .pdr_table pdr_id ≠ none → s.lookup .tc_bundle_map pdr_id ≠ none

theorem step_hasBundles {s s' : Maps} {c : Ctl} (hs : c.step s = some s') (h : HasBundles s) : HasBundles s' := by
  intro k hk
  cases ctl_ruleStep hs with
  | other _ hp hb =>
    rw [hb]
    exact h k (by rwa [← hp])
  | install teid pdr_id =>
    rw [installed_pdr] at hk
    rw [installed_bundle]
    by_cases e : k = pdr_id.toNat
    · rw [if_pos e]
      simp
    · rw [if_neg e] at hk ⊢
      exact h k hk
  | modify pdr_id c raw =>
    rw [modified_other _ _ (by decide)] at hk
    rw [modified_bundle]
    by_cases e : k = pdr_id.toNat
    · rw [if_pos e]
      simp
    · rw [if_neg e]
      exact h k hk
  | remove teid pdr_id =>
    rw [removed_pdr] at hk
    rw [removed_bundle]
    by_cases e : k = pdr_id.toNat
    · rw [if_pos e] at hk
      exact absurd rfl hk
    · rw [if_neg e] at hk ⊢
      exact h k hk

theorem exec_hasBundles {cs : List Ctl} {s : Maps} (h : exec Ctl.step .empty cs = some s) : HasBundles s := by
  refine exec_invariant (P := fun _ _ => True) (fun _ hi hs => step_hasBundles hs hi)
    (along_of_forall (fun _ _ _ => trivial) _) h ?_
  intro k hk
  simp [Maps.lookup_hash (.inl rfl : Maps.Hash .pdr_table), Maps.empty] at hk

/-! ## FARs that can be there -/

/-- The FARs that a call names are below `MAX_FARS`. -/
def Command.FarsInRange : Command → Prop
  | .install_session _ _ _ far_id _ _ => far_id < MAX_FARS
  | .modify_tc_bundle _ c => ∀ v ∈ c.far_id, v < MAX_FARS
  | _ => True

def Ctl.FarsInRange : Ctl → Prop
  | call c => c.FarsInRange
  | evict _ => True

/-- The FAR in force for each PDR is below `MAX_FARS`. -/
def FarsInRange (s : Maps) : Prop := ∀ pdr_id rule, ruleOf s pdr_id = some rule → rule.far_id < MAX_FARS

theorem step_farsInRange {s s' : Maps} {c : Ctl} (hc : c.FarsInRange) (hs : c.step s = some s')
    (h : FarsInRange s) : FarsInRange s' := by
  intro k rule hr
  cases ctl_ruleStep hs with
  | other _ hp hb =>
    rw [ruleOf, hb] at hr
    exact h k rule hr
  | install teid pdr_id qer_id far_id precedence urr_id hf =>
    rw [ruleOf, installed_bundle] at hr
    by_cases e : k = pdr_id.toNat
    · rw [if_pos e, Option.map_some, activeTuple_zero hf.tuple] at hr
      cases hr
      have : far_id < (4096 : Nat) := hc
      simp only [newTuple, MAX_FARS]
      omega
    · rw [if_neg e] at hr
      exact h k rule hr
  | modify pdr_id c raw hraw hp =>
    rw [ruleOf, modified_bundle] at hr
    by_cases e : k = pdr_id.toNat
    · rw [if_pos e, Option.map_some, activeTuple_flipped hp] at hr
      cases hr
      have hold := h pdr_id.toNat (activeTuple raw) (by rw [ruleOf, hraw, Option.map_some])
      cases hv : c.far_id with
      | none => simpa [Changes.apply, hv] using hold
      | some v =>
        have : v < (4096 : Nat) := hc v hv
        simp only [Changes.apply, hv, Option.getD_some, MAX_FARS]
        omega
    · rw [if_neg e] at hr
      exact h k rule hr
  | remove teid pdr_id =>
    rw [ruleOf, removed_bundle] at hr
    by_cases e : k = pdr_id.toNat
    · rw [if_pos e] at hr
      cases hr
    · rw [if_neg e] at hr
      exact h k rule hr

/-! ## Agreement -/

/-- The hooks agree on the frame `f`: XDP drops a G-PDU that does not resolve,
and TC enforces what XDP counts as a hit, whatever the kernel does. -/
structure HooksAgree (s : Maps) (f : Bytes) : Prop where
  deny : ∀ (H : Helpers) (x : Machine), x.maps = s → x.frame = f → IsGpdu f →
    (∀ pdr_id, pdrOf s (teidOf f) = some pdr_id → s.lookup .pdr_table pdr_id = none) →
    ∃ x', upf_xdp_uplink.run (kernel H) x = some (XDP_DROP, x')
  enforce : ∀ (b : Build) (H H' : Helpers) (x t : Machine) (v : Int) (x' : Machine), x.maps = s → x.frame = f →
    upf_xdp_uplink.run (kernel H) x = some (v, x') → .bump .M_HIT ∈ upf_xdp_uplink.trace (kernel H) x →
    ∃ m ∈ [Metric.M_TC_FAR_DROP, .M_TC_FAR_BUFFER, .M_TC_DECAP_ERR, .M_TC_QER_DROP, .M_TC_FAR_FORWARD],
      endings ((upf_tc_ingress b).trace (kernel H') { t with maps := x'.maps, frame := f }) = [m]

/-- The FAR that a packet which resolves is to meet can be in `far_table`. -/
def FarInRange (s : Maps) (f : Bytes) : Prop :=
  IsGpdu f → ∀ pdr_id rule, pdrOf s (teidOf f) = some pdr_id → s.lookup .pdr_table pdr_id ≠ none →
    ruleOf s pdr_id = some rule → rule.far_id < MAX_FARS

theorem far_lookup_iff {s : Maps} {k : Nat} : s.lookup .far_table k ≠ none ↔ k < MAX_FARS := by
  by_cases h : k < MAX_FARS
  · simp [Maps.lookup_array (rfl : MapName.far_table.type = .ARRAY) h, h]
  · simp [Maps.lookup_array_none (rfl : MapName.far_table.type = .ARRAY) h, h]

theorem resolve_ne_none_iff {s : Maps} {teid pdr_id : Nat} {rule : Tuple} (hp : pdrOf s teid = some pdr_id)
    (hr : ruleOf s pdr_id = some rule) : resolve s teid ≠ none ↔ rule.far_id < MAX_FARS := by
  rw [← far_lookup_iff (s := s)]
  cases hl : s.lookup .far_table rule.far_id <;> simp [resolve, hp, hr, hl]

theorem classified_hit_iff {s : Maps} {teid : Nat} : (classified s teid).1 = .M_HIT ↔
    ∃ pdr_id, pdrOf s teid = some pdr_id ∧ s.lookup .pdr_table pdr_id ≠ none := by
  unfold classified
  cases pdrOf s teid with
  | none => simp
  | some pdr_id => cases h : s.lookup .pdr_table pdr_id <;> simp [h]

theorem classified_drop {s : Maps} {teid : Nat}
    (h : ∀ pdr_id, pdrOf s teid = some pdr_id → s.lookup .pdr_table pdr_id = none) :
    (classified s teid).2 = XDP_DROP := by
  unfold classified
  cases hp : pdrOf s teid with
  | none => rfl
  | some pdr_id => simp [h pdr_id hp]

theorem fate_miss_iff {b : Build} {H : Helpers} {s : Machine} {teid n : Nat} :
    fate b H s teid n = .miss ↔ resolve s.maps teid = none := by
  unfold fate
  cases resolve s.maps teid with
  | none => simp
  | some r =>
    dsimp only
    repeat' split
    all_goals simp

/-- The counters of the fates other than a miss. -/
theorem Fate.metric_mem_iff {fate : Fate} :
    fate.metric ∈ [Metric.M_TC_FAR_DROP, .M_TC_FAR_BUFFER, .M_TC_DECAP_ERR, .M_TC_QER_DROP, .M_TC_FAR_FORWARD] ↔
      fate ≠ .miss := by
  cases fate <;> simp [Fate.metric]

theorem resolve_congr {s s' : Maps} (h : ∀ m, m ≠ .qer_state_shared → ∀ k, s'.lookup m k = s.lookup m k)
    (teid : Nat) : resolve s' teid = resolve s teid := by
  simp only [resolve, pdrOf, ruleOf, h .teid_session (by decide), h .tc_bundle_map (by decide),
    h .far_table (by decide)]

/-- On a frame that XDP finds a PDR for, TC ends in an enforcing fate if the
FAR in force can be in `far_table`, and only then. -/
theorem enforces_iff {s : Maps} (hb : HasBundles s) {f : Bytes} (g : IsGpdu f) {pdr_id : Nat}
    (hp : pdrOf s (teidOf f) = some pdr_id) (hl : s.lookup .pdr_table pdr_id ≠ none) (b : Build) (H : Helpers)
    {t : Machine} (hf : t.frame = f) (ht : ∀ m, m ≠ .qer_state_shared → ∀ k, t.maps.lookup m k = s.lookup m k) :
    (∃ m ∈ [Metric.M_TC_FAR_DROP, .M_TC_FAR_BUFFER, .M_TC_DECAP_ERR, .M_TC_QER_DROP, .M_TC_FAR_FORWARD],
      endings ((upf_tc_ingress b).trace (kernel H) t) = [m]) ↔
    ∀ rule, ruleOf s pdr_id = some rule → rule.far_id < MAX_FARS := by
  obtain ⟨raw, hraw⟩ := Option.ne_none_iff_exists'.mp (hb pdr_id hl)
  have hr : ruleOf s pdr_id = some (activeTuple raw) := by rw [ruleOf, hraw, Option.map_some]
  subst hf
  have hm := tc_endings (H := H) b g
  rw [hm]
  have hres : resolve (entered b t).maps (teidOf t.frame) = resolve s (teidOf t.frame) := resolve_congr ht _
  constructor
  · rintro ⟨m, hin, he⟩ rule hr'
    rw [← (List.cons.inj he).1, Fate.metric_mem_iff, Ne, fate_miss_iff, hres] at hin
    exact (resolve_ne_none_iff hp hr').mp hin
  · intro h
    refine ⟨_, Fate.metric_mem_iff.mpr ?_, rfl⟩
    rw [Ne, fate_miss_iff, hres]
    exact (resolve_ne_none_iff hp hr).mpr (h _ hr)

theorem hooksAgree_iff {s : Maps} (hb : HasBundles s) (f : Bytes) : HooksAgree s f ↔ FarInRange s f := by
  constructor
  · intro h g pdr_id rule hp hl hr
    obtain ⟨⟨v, x'⟩, hx⟩ := xdp_runs willing ⟨s, 0, f, 0⟩
    have hk := run_keeps hx
    have hit : .bump .M_HIT ∈ upf_xdp_uplink.trace (kernel willing) ⟨s, 0, f, 0⟩ :=
      xdp_hit_iff.mpr ⟨g, classified_hit_iff.mpr ⟨pdr_id, hp, hl⟩⟩
    have he := h.enforce ⟨false, false, false⟩ willing willing _ ⟨s, 0, f, 0⟩ v x' rfl rfl hx hit
    exact (enforces_iff (t := ⟨x'.maps, 0, f, 0⟩) hb g hp hl _ _ rfl fun m hm k => hk.lookup hm k).mp he rule hr
  · intro h
    constructor
    · rintro H x rfl rfl g hn
      obtain ⟨x', hx⟩ := (xdp_gpdu (H := H) g).run
      rw [classified_drop hn] at hx
      exact ⟨x', hx⟩
    · rintro b H H' x t v x' rfl rfl hx hit
      obtain ⟨g, hc⟩ := xdp_hit_iff.mp hit
      obtain ⟨pdr_id, hp, hl⟩ := classified_hit_iff.mp hc
      have hk := run_keeps hx
      exact (enforces_iff (t := { t with maps := x'.maps, frame := x.frame }) hb g hp hl b H' rfl
        fun m hm k => hk.lookup hm k).mpr fun rule hr => h g pdr_id rule hp hl hr

/-- In every state that the control plane reaches, the hooks agree on the
frames whose FAR can be there, and on no others; where all calls name such
FARs, they agree on every frame. -/
theorem hooks_agree {cs : List Ctl} {s : Maps} (h : exec Ctl.step .empty cs = some s) :
    (∀ f, HooksAgree s f ↔ FarInRange s f) ∧ ((∀ c ∈ cs, c.FarsInRange) → ∀ f, HooksAgree s f) := by
  have hb := exec_hasBundles h
  refine ⟨hooksAgree_iff hb, fun hc f => (hooksAgree_iff hb f).mpr ?_⟩
  have hr : FarsInRange s := by
    refine exec_invariant (P := fun _ c => c.FarsInRange) (fun hp hi hs => step_farsInRange hp hs hi)
      (along_of_forall (fun c hm _ => hc c hm) _) h ?_
    intro k rule hr
    simp [ruleOf, Maps.lookup_hash (.inl rfl : Maps.Hash .tc_bundle_map), Maps.empty] at hr
  exact fun _ pdr_id rule _ _ hrule => hr pdr_id rule hrule

/-- The calls of a session that uses FAR 1. -/
theorem hooks_agree_far_one : ∃ s, exec Ctl.step .empty [.call (.install_far 1 1 5 0 0),
    .call (.install_session 0x1000 1 0 1 32 0)] = some s ∧ ∀ f, HooksAgree s f := by
  have h : (exec Ctl.step .empty [.call (.install_far 1 1 5 0 0),
      .call (.install_session 0x1000 1 0 1 32 0)]).isSome := by decide +kernel
  obtain ⟨s, hs⟩ := Option.isSome_iff_exists.mp h
  exact ⟨s, hs, (hooks_agree hs).2 (by simp [Ctl.FarsInRange, Command.FarsInRange])⟩

/-- A session whose FAR is the first one that `far_table` has no place for:
XDP counts a hit, and TC hands the packet to the stack. -/
theorem hit_without_far : ∃ s, exec Ctl.step .empty [.call (.install_session 0x1000 1 0 4096 32 0)] = some s ∧
    ¬ HooksAgree s (gpduFrame 0x1000) := by
  have h : (exec Ctl.step .empty [.call (.install_session 0x1000 1 0 4096 32 0)]).map (fun s =>
      (pdrOf s 0x1000, (s.lookup .pdr_table 1).isSome, ruleOf s 1)) =
      some (some 1, true, some ⟨4096, 0, 0, 32, 0⟩) := by decide +kernel
  obtain ⟨s, hs, hr⟩ := Option.map_eq_some_iff.mp h
  obtain ⟨hp, hl⟩ := Prod.mk.inj hr
  obtain ⟨hl, hrule⟩ := Prod.mk.inj hl
  have g : IsGpdu (gpduFrame 0x1000) := by decide +kernel
  have ht : teidOf (gpduFrame 0x1000) = 0x1000 := by decide +kernel
  refine ⟨s, hs, fun ha => ?_⟩
  have := (hooksAgree_iff (exec_hasBundles hs) _).mp ha g 1 _ (by rw [ht, hp])
    (Option.isSome_iff_ne_none.mp hl) hrule
  exact absurd this (by decide)

end UPF
