import EbpfUpf.Proof.Integrity

/-!
# Zero downtime

In a disciplined run the maps are sound in every state, with the agent at any
point of a call (`step_integral`). So whatever else is done meanwhile, a packet
of a live session finds the session, its PDR and its bundle (`zero_downtime`),
and one of a session that is gone is dropped.
-/

open Framework

namespace UPF

variable {S S' : Upf} {L : Nat → Option Nat} {G : Nat → Bool} {s : Maps}

theorem live_snoc (h : List Event) (e : Event) : live (h ++ [e]) = liveStep (live h) e := by
  rw [live, List.foldl_append]
  rfl

theorem gone_snoc (h : List Event) (e : Event) : gone (h ++ [e]) = goneStep (gone h) e := by
  rw [gone, List.foldl_append]
  rfl

/-- The maps are sound, and what the agent has left to do keeps them so. -/
structure Integral (S : Upf) : Prop where
  sound : Sound (live S.hist) (gone S.hist) S.maps
  agent : ∀ c p, S.agent = some (c, p) → ∃ l, Safe (live S.hist) (gone S.hist) c l p S.maps

theorem Sound.weaken {L' : Nat → Option Nat} {G' : Nat → Bool} (h : Sound L G s)
    (hL : ∀ k p, L' k = some p → L k = some p) (hG : ∀ k, G' k = true → G k = true) : Sound L' G' s :=
  ⟨h.ref, fun k p hl => h.live k p (hL k p hl), fun k hg => h.gone k (hG k hg)⟩

theorem Sound.call (h : Sound L G s) (c : Command) : Sound (liveStep L (.call c)) (goneStep G (.call c)) s := by
  cases c with
  | install_session =>
    refine h.weaken (fun _ _ hl => hl) fun k hg => ?_
    rw [goneStep, Function.update_apply] at hg
    split at hg
    · cases hg
    · exact hg
  | remove_session =>
    refine h.weaken (fun k p hl => ?_) fun _ hg => hg
    rw [liveStep, Function.update_apply] at hl
    split at hl
    · cases hl
    · exact hl
  | _ => exact h

theorem Sound.done (h : Sound L G s) {c : Command} {r : Except PyError Unit} (he : r = .ok () → c.Effect s) :
    Sound (liveStep L (.done c r)) (goneStep G (.done c r)) s := by
  cases r with
  | error e => cases c <;> exact h
  | ok u =>
    have he := he rfl
    cases c with
    | install_session teid pdr_id =>
      refine ⟨h.ref, fun k p hl => ?_, h.gone⟩
      rw [liveStep, Function.update_apply] at hl
      split at hl
      · next e =>
        rw [e, he, hl]
      · exact h.live k p hl
    | remove_session teid pdr_id =>
      refine ⟨h.ref, h.live, fun k hg => ?_⟩
      rw [goneStep, Function.update_apply] at hg
      split at hg
      · next e => rw [e, he]
      · exact h.gone k hg
    | _ => exact h

theorem op_sameRules {p : Packet} {maps : Maps} {o : Op Ptr} {r : Op.Ans o} {s : Machine}
    (h : kernel p.H o (p.machine maps) = some (r, s)) : SameRules maps s.maps := by
  intro m hm k
  refine op_lookup h ?_ k
  simp only [List.mem_cons, List.not_mem_nil, or_false] at hm
  rcases hm with rfl | rfl | rfl <;> rfl

/-- Each move of a disciplined run keeps the maps sound. -/
theorem step_integral {mv : Move} (hd : Disciplined S mv) (hs : S.step mv = some S') (h : Integral S) :
    Integral S' := by
  cases mv with
  | call c =>
    obtain ⟨-, rfl⟩ := step_call hs
    have hsound := h.sound.call c
    refine ⟨by rwa [live_snoc, gone_snoc], fun c' p ha => ⟨[], ?_⟩⟩
    cases ha
    dsimp only
    rw [live_snoc, gone_snoc]
    refine call_safe hsound ?_ ?_
    · rintro teid pdr_id qer_id far_id precedence urr_id rfl
      exact ⟨fun p hl => hd.2 p (h.sound.live _ p hl), by rw [goneStep, Function.update_self]⟩
    · rintro teid pdr_id rfl
      exact ⟨by rw [liveStep, Function.update_self], hd.1⟩
  | sys =>
    obtain ⟨c, o, k, r, maps, ha, e, rfl⟩ := step_sys hs
    obtain ⟨l, hsafe⟩ := h.agent c _ ha
    obtain ⟨hsound, hk⟩ := hsafe.op SameRules.refl e
    refine ⟨by rwa [live_snoc, gone_snoc], fun c' p ha' => ⟨l ++ [⟨o, r⟩], ?_⟩⟩
    cases ha'
    dsimp only
    rw [live_snoc, gone_snoc]
    exact hk
  | done =>
    obtain ⟨c, r, ha, rfl⟩ := step_done hs
    obtain ⟨l, hsafe⟩ := h.agent c _ ha
    have := h.sound.done (hsafe _ (SameRules.refl _))
    exact ⟨by rwa [live_snoc, gone_snoc], nofun⟩
  | stop =>
    obtain ⟨c, p, -, rfl⟩ := step_stop hs
    exact ⟨by rw [live_snoc, gone_snoc]; exact h.sound, nofun⟩
  | evict teid => cases hd
  | arrive hook H cpu wire =>
    cases hs
    exact ⟨h.sound, h.agent⟩
  | op i =>
    obtain ⟨p, o, k, r, s, -, -, e, rfl⟩ := step_op hs
    have he := op_sameRules e
    refine ⟨by rw [live_snoc, gone_snoc]; exact h.sound.congr he, fun c p ha => ?_⟩
    obtain ⟨l, hsafe⟩ := h.agent c p ha
    dsimp only
    rw [live_snoc, gone_snoc]
    exact ⟨l, hsafe.env SameRules.trans he⟩

theorem pdrOf_empty (k : Nat) : pdrOf .empty k = none := by
  simp [pdrOf, Maps.lookup_hash (.inr rfl : Maps.Hash .teid_session), Maps.empty]

theorem start_integral : Integral (.start .empty) := by
  refine ⟨⟨fun teid pdr_id hp => ?_, nofun, nofun⟩, nofun⟩
  rw [Upf.start, pdrOf_empty] at hp
  cases hp

/-! ## Packets -/

/-- Wherever packet `i` looks up a session, a PDR or a bundle, `P` holds of what
happened before. -/
def Throughout (i : Nat) (P : List Event → Prop) (h : List Event) : Prop :=
  AtEach (fun pre e => ∀ m ∈ [MapName.teid_session, .pdr_table, .tc_bundle_map], ∀ k r,
    e = .op i (.lookup m k) r → P pre) h

/-- The packet is a hit for XDP, and TC finds its bundle. -/
def Served (hook : Hook) (pdr_id : Nat) (l : Log (BpfOps Ptr)) (v : Int) : Prop :=
  match hook with
  | .xdp => v = XDP_PASS ∧ counted .M_HIT ∈ l
  | .tc _ => ∃ bundle, found .tc_bundle_map pdr_id (some bundle) ∈ l

/-- What is found of sessions: the live ones, and nothing of those that are gone. -/
def SessionFound (pre : List Event) (k : Nat) (v : Option Bytes) : Prop :=
  (∀ pdr_id, live pre k = some pdr_id → v.map sessionPdr = some pdr_id) ∧ (gone pre k = true → v = none)

/-- What is found of the PDRs of live sessions. -/
def PdrFound (pre : List Event) (k : Nat) (v : Option Bytes) : Prop :=
  ∀ teid, live pre teid = some k → v ≠ none

theorem run_found {ms : List Move} (h : exec Upf.step (.start .empty) ms = some S)
    (hd : Along Upf.step Disciplined (.start .empty) ms) :
    Integral S ∧ AtEach (Lookups .teid_session SessionFound) S.hist ∧
    AtEach (Lookups .pdr_table PdrFound) S.hist ∧ AtEach (Lookups .tc_bundle_map PdrFound) S.hist := by
  have hstep : ∀ {S mv S'}, Disciplined S mv → Integral S → S.step mv = some S' → Integral S' :=
    fun hd hi hs => step_integral hd hs hi
  have hpdr : ∀ {S}, Integral S → ∀ k, PdrFound S.hist k (S.maps.lookup .pdr_table k) :=
    fun hi k teid hl => (hi.sound.ref teid k (hi.sound.live teid k hl)).1
  have hbundle : ∀ {S}, Integral S → ∀ k, PdrFound S.hist k (S.maps.lookup .tc_bundle_map k) :=
    fun hi k teid hl => (hi.sound.ref teid k (hi.sound.live teid k hl)).2
  have hsess : ∀ {S}, Integral S → ∀ k, SessionFound S.hist k (S.maps.lookup .teid_session k) :=
    fun hi k => ⟨fun pdr_id hl => hi.sound.live k pdr_id hl,
      fun hg => Option.map_eq_none_iff.mp (hi.sound.gone k hg)⟩
  have hr := run_lookups rfl hstep hsess hd h start_integral rfl
  exact ⟨hr.1, hr.2, (run_lookups rfl hstep hpdr hd h start_integral rfl).2,
    (run_lookups rfl hstep hbundle hd h start_integral rfl).2⟩

/-- What a packet found, it found at some point of the run. -/
theorem found_at {m : MapName} {A : List Event → Nat → Option Bytes → Prop} {i k : Nat} {v : Option Bytes}
    (h : AtEach (Lookups m A) S.hist) (hm : m ∈ [MapName.teid_session, .pdr_table, .tc_bundle_map])
    (hf : found m k v ∈ S.log i) {P : List Event → Prop} (hP : Throughout i P S.hist) :
    ∃ pre, A pre k v ∧ P pre := by
  obtain ⟨pre, post, heq⟩ := hist_of_mem hf
  exact ⟨pre, (h pre _ post heq).found, hP pre _ post heq m hm k _ rfl⟩

theorem xdp_served {teid pdr_id i : Nat} {v : Int} (hc : XdpCourse teid (rules (S.log i)) v)
    (hs : AtEach (Lookups .teid_session SessionFound) S.hist) (hp : AtEach (Lookups .pdr_table PdrFound) S.hist)
    (hl : Throughout i (fun pre => live pre teid = some pdr_id) S.hist) : v = XDP_PASS ∧ counted .M_HIT ∈ S.log i := by
  have hm : ∀ e ∈ rules (S.log i), e ∈ S.log i := fun e => mem_of_rules
  generalize hX : rules (S.log i) = X at hc hm
  cases hc with
  | no_session =>
    obtain ⟨pre, ⟨ha, -⟩, hlive⟩ := found_at hs (by simp) (hm _ List.mem_cons_self) hl
    cases ha pdr_id hlive
  | no_pdr sess =>
    obtain ⟨pre, ⟨ha, -⟩, hlive⟩ := found_at (v := some sess) hs (by simp) (hm _ List.mem_cons_self) hl
    have he := Option.some.inj (ha pdr_id hlive)
    obtain ⟨pre, ha, hlive⟩ := found_at (v := none) (k := sessionPdr sess) hp (by simp) (hm _ (by simp)) hl
    exact absurd rfl (ha teid (he ▸ hlive))
  | hit sess pdr => exact ⟨rfl, hm _ (by simp)⟩

theorem tc_served {teid pdr_id i : Nat} {v : Int} (hc : TcCourse teid (rules (S.log i)) v)
    (hs : AtEach (Lookups .teid_session SessionFound) S.hist) (hb : AtEach (Lookups .tc_bundle_map PdrFound) S.hist)
    (hl : Throughout i (fun pre => live pre teid = some pdr_id) S.hist) :
    ∃ bundle, found .tc_bundle_map pdr_id (some bundle) ∈ S.log i := by
  have hm : ∀ e ∈ rules (S.log i), e ∈ S.log i := fun e => mem_of_rules
  have hfound : ∀ sess bundle, found .teid_session teid (some sess) ∈ S.log i →
      found .tc_bundle_map (sessionPdr sess) bundle ∈ S.log i →
      ∃ bundle, found .tc_bundle_map pdr_id (some bundle) ∈ S.log i := by
    intro sess bundle h₁ h₂
    obtain ⟨pre, ⟨ha, -⟩, hlive⟩ := found_at (v := some sess) hs (by simp) h₁ hl
    have he := Option.some.inj (ha pdr_id hlive)
    obtain ⟨pre, ha, hlive⟩ := found_at hb (by simp) h₂ hl
    obtain ⟨b, rfl⟩ := Option.ne_none_iff_exists'.mp (ha teid (he ▸ hlive))
    exact ⟨b, he ▸ h₂⟩
  generalize hX : rules (S.log i) = X at hc hm
  cases hc with
  | no_session =>
    obtain ⟨pre, ⟨ha, -⟩, hlive⟩ := found_at hs (by simp) (hm _ List.mem_cons_self) hl
    cases ha pdr_id hlive
  | no_bundle sess => exact hfound sess none (hm _ (by simp)) (hm _ (by simp))
  | no_far sess bundle | dropped sess bundle | buffered sess bundle | decap_err sess bundle | far_gone sess bundle
  | refused sess bundle | redirected sess bundle =>
    exact hfound sess (some bundle) (hm _ (by simp [toBundle])) (hm _ (by simp [toBundle]))

theorem xdp_denied {teid i : Nat} {v : Int} (hc : XdpCourse teid (rules (S.log i)) v)
    (hs : AtEach (Lookups .teid_session SessionFound) S.hist)
    (hg : Throughout i (fun pre => gone pre teid = true) S.hist) : v = XDP_DROP := by
  have hm : ∀ e ∈ rules (S.log i), e ∈ S.log i := fun e => mem_of_rules
  generalize hX : rules (S.log i) = X at hc hm
  cases hc with
  | no_session | no_pdr => rfl
  | hit sess pdr =>
    obtain ⟨pre, ⟨-, ha⟩, hgone⟩ := found_at (v := some sess) hs (by simp) (hm _ List.mem_cons_self) hg
    cases ha hgone

/-- In every state of a disciplined run, however many of the writes of a call
are done, each session has its PDR and its bundle. A packet whose lookups all
come while its session is live is a hit for XDP and finds its bundle in TC;
one whose lookups come when it is gone is dropped. -/
theorem zero_downtime {ms : List Move} (h : exec Upf.step (.start .empty) ms = some S)
    (hd : Along Upf.step Disciplined (.start .empty) ms) : Referential S.maps ∧
    ∀ i p v, S.packets[i]? = some p → p.prog = .ret v → IsGpdu p.wire →
      (∀ pdr_id, Throughout i (fun pre => live pre (teidOf p.wire) = some pdr_id) S.hist →
        Served p.hook pdr_id (S.log i) v) ∧
      (p.hook = .xdp → Throughout i (fun pre => gone pre (teidOf p.wire) = true) S.hist → v = XDP_DROP) := by
  obtain ⟨hi, hs, hp, hb⟩ := run_found h hd
  refine ⟨hi.sound.ref, fun i p v hpi hv g => ?_⟩
  have hc := (course_of_run h hpi).2 v hv
  unfold Course at hc
  rw [if_pos g] at hc
  refine ⟨fun pdr_id hl => ?_, fun hx hg => ?_⟩
  · unfold Served
    split
    · next hh =>
      rw [hh] at hc
      exact xdp_served hc hs hp hl
    · next b hh =>
      rw [hh] at hc
      exact tc_served hc hs hb hl
  · rw [hx] at hc
    exact xdp_denied hc hs hg

/-- A session whose bundle is modified while packets come to XDP and to TC. -/
def amidModification : List Move :=
  [.call (.install_session 0x1000 1 0 1 32 0), .sys, .sys, .sys, .done, .arrive .xdp willing 0 (gpduFrame 0x1000),
    .arrive (.tc ⟨false, false, false⟩) willing 0 (gpduFrame 0x1000),
    .call (.modify_tc_bundle 1 ⟨some 2, none, none, none⟩), .sys, .sys] ++ List.replicate 15 (.op 0) ++
    List.replicate 15 (.op 1)

/-- The verdict of the programme, if it has come to it. -/
def Packet.verdict (p : Packet) : Option Int :=
  match p.prog with
  | .ret v => some v
  | .ask .. => none

theorem Packet.verdict_eq_some {p : Packet} {v : Int} : p.verdict = some v ↔ p.prog = .ret v := by
  unfold Packet.verdict
  cases p.prog <;> simp

/-- `P` holds before every event that is of packet `i`. -/
theorem throughout_of_take {i : Nat} {P : List Event → Prop} [DecidablePred P] {h : List Event}
    (ha : ((List.range h.length).all fun n => P (h.take n) ∨ (h[n]?.bind (Event.of i)).isNone) = true) :
    Throughout i P h := by
  rintro pre e post rfl m - k r rfl
  have hn := List.all_eq_true.mp ha pre.length (List.mem_range.mpr (by simp))
  simpa [Event.of] using hn

theorem zero_downtime_modified : ∃ S, exec Upf.step (.start .empty) amidModification = some S ∧
    pdrOf S.maps 0x1000 = some 1 ∧ Referential S.maps ∧ Served .xdp 1 (S.log 0) XDP_PASS ∧
    Served (.tc ⟨false, false, false⟩) 1 (S.log 1) TC_ACT_SHOT_X := by
  have h : (exec Upf.step (.start .empty) amidModification).map (fun S => (pdrOf S.maps 0x1000,
      decide (S.packets.map (fun p => (p.hook, p.verdict, p.wire)) = [(.xdp, some XDP_PASS, gpduFrame 0x1000),
        (.tc ⟨false, false, false⟩, some TC_ACT_SHOT_X, gpduFrame 0x1000)]),
      (List.range 2).all fun i => (List.range S.hist.length).all fun n =>
        live (S.hist.take n) (teidOf (gpduFrame 0x1000)) = some 1 ∨ (S.hist[n]?.bind (Event.of i)).isNone)) =
      some (some 1, true, true) := by
    decide +kernel
  obtain ⟨S, hs, h⟩ := Option.map_eq_some_iff.mp h
  simp only [Prod.mk.injEq, decide_eq_true_eq] at h
  obtain ⟨hp, hv, hl⟩ := h
  have g : IsGpdu (gpduFrame 0x1000) := by decide +kernel
  have hd : Along Upf.step Disciplined (.start .empty) amidModification := by
    refine ⟨⟨fun k hk => ?_, fun p hk => ?_⟩, fun S' _ => along_of_forall (by simp [Disciplined]) S'⟩
    · rw [Upf.start, pdrOf_empty] at hk
      cases hk
    · rw [Upf.start, pdrOf_empty] at hk
      cases hk
  obtain ⟨href, hserved⟩ := zero_downtime hs hd
  have served {i : Nat} (hi : i < 2) {hook : Hook} {v : Int}
      (he : (S.packets.map fun p => (p.hook, p.verdict, p.wire))[i]? = some (hook, some v, gpduFrame 0x1000)) :
      Served hook 1 (S.log i) v := by
    rw [List.getElem?_map] at he
    obtain ⟨p, hpi, he⟩ := Option.map_eq_some_iff.mp he
    simp only [Prod.mk.injEq] at he
    obtain ⟨rfl, hv, hw⟩ := he
    refine (hserved i p v hpi (Packet.verdict_eq_some.mp hv) (hw ▸ g)).1 1 ?_
    exact hw ▸ throughout_of_take (List.all_eq_true.mp hl i (List.mem_range.mpr hi))
  exact ⟨S, hs, hp, href, served Nat.two_pos (by rw [hv]; rfl), served Nat.one_lt_two (by rw [hv]; rfl)⟩

end UPF
