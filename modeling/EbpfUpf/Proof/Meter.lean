import EbpfUpf.Proof.Uplink
import EbpfUpf.Proof.Usage
import EbpfUpf.Spec.Meter

/-!
# What TC ingress sends and meters

The frames that a run redirects follow from its visible operations alone
(`sent_eq`), so that a G-PDU that is forwarded is sent once, without its outer
headers (`tc_sent`). `ingress_forwarded` is its whole run, with what it is
charged, and `ingress_other` says that no other frame is counted.
-/

open Framework

namespace UPF

variable {H : Helpers} {s : Machine}

/-! ## Sent frames -/

/-- What an operation makes of the frame. -/
def reframe (H : Helpers) (f : Bytes) : Op Ptr → Bytes
  | .adjust_room d _ _ => if H.adjust_room d < 0 then f else resize f H.room d
  | .store off val => f.set off val
  | _ => f

theorem kernel_frame {o : Op Ptr} {s' : Machine} {r : Op.Ans o} (h : kernel H o s = some (r, s')) :
    s'.frame = reframe H s.frame o := by
  cases o with
  | load off n =>
    simp only [kernel] at h
    split at h <;> cases h
    rfl
  | store off val =>
    simp only [kernel] at h
    split at h <;> cases h
    rfl
  | write p off n val =>
    cases p with
    | value m v => cases h
    | elem m key =>
      simp only [kernel] at h
      split at h <;> cases h
      rfl
  | create m key val =>
    simp only [kernel] at h
    split at h <;> cases h <;> rfl
  | adjust_room d mode flags =>
    simp only [kernel] at h
    split at h
    · next hd =>
      cases h
      exact (if_pos hd).symm
    · next hd =>
      cases h
      exact (if_neg hd).symm
  | _ =>
    cases h
    rfl

/-- What the operations `ops` send of the frame `f`. -/
def replay (H : Helpers) : List (Op Ptr) → Bytes → List (Nat × Bytes)
  | [], _ => []
  | o :: ops, f => (sends f o).toList ++ replay H ops (reframe H f o)

theorem replay_cons_of_hidden {o : Op Ptr} (h : visible o = false) (ops : List (Op Ptr)) (f : Bytes) :
    replay H (o :: ops) f = replay H ops f := by
  cases o with
  | store | adjust_room | redirect => cases h
  | _ => rfl

/-- By induction on the programme. -/
theorem sent_eq (p : Bpf Ptr Int) (s : Machine) : sent H p s = replay H (p.trace (kernel H) s) s.frame := by
  unfold sent
  induction p generalizing s with
  | ret a => rfl
  | ask o k ih =>
    have hs : ∀ l : List (Op Ptr × Machine), List.filterMap (fun x => sends x.2.frame x.1) ((o, s) :: l) =
        (sends s.frame o).toList ++ l.filterMap fun x => sends x.2.frame x.1 := by
      intro l
      rw [List.filterMap_cons]
      cases sends s.frame o <;> rfl
    rw [Prog.steps, Prog.trace, hs, replay]
    cases hk : kernel H o s with
    | none => rfl
    | some x =>
      rw [← kernel_frame hk]
      exact congrArg _ (ih x.1 x.2)

theorem replay_visible (ops : List (Op Ptr)) (f : Bytes) : replay H (ops.filter visible) f = replay H ops f := by
  induction ops generalizing f with
  | nil => rfl
  | cons o ops ih =>
    cases ho : visible o with
    | true => rw [List.filter_cons_of_pos ho, replay, replay, ih]
    | false => rw [List.filter_cons_of_neg (by simp [ho]), replay_cons_of_hidden ho, ih]

/-- A parser leaves the frame alone. -/
theorem replay_parse {n : Nat} {counts : Metric → Prop} {pre : List (Op Ptr)}
    (h : ∀ o ∈ pre, ParseOp n counts o) (ops : List (Op Ptr)) (f : Bytes) :
    replay H (pre ++ ops) f = replay H ops f := by
  induction pre with
  | nil => rfl
  | cons o pre ih =>
    have ho := h o List.mem_cons_self
    have ih := ih fun o' ho' => h o' (List.mem_cons_of_mem _ ho')
    cases o with
    | load | data_end | bump | ktime_get_ns => exact ih
    | _ => cases ho

theorem Parsed.sent {p : Bpf Ptr Int} {counts : Metric → Prop} {ops : List (Op Ptr)} {v : Int}
    (h : Parsed H p s counts ops v) : UPF.sent H p s = replay H ops s.frame := by
  obtain ⟨pre, hq, ht⟩ := h.trace
  rw [sent_eq, ← replay_visible, ht]
  exact replay_parse (fun o ho => hq o (List.mem_filter.mp ho).1) ops s.frame

/-- A G-PDU that is forwarded is sent once, and no other frame is. -/
theorem tc_sent (b : Build) : sent H (upf_tc_ingress b) s =
    if IsGpdu s.frame then
      match fate b H (entered b s) (teidOf s.frame) (outerLen s.frame) with
      | .forwarded ifindex => [(ifindex, (decap b H s).frame)]
      | _ => []
    else [] := by
  by_cases g : IsGpdu s.frame
  · rw [if_pos g, (tc_gpdu b g).sent]
    cases hf : fate b H (entered b s) (teidOf s.frame) (outerLen s.frame) with
    | forwarded ifindex =>
      obtain ⟨r, -, -, -, hroom, -⟩ := fate_forwarded hf
      simp only [Fate.ops, replay, reframe, sends, Int.not_lt.mpr hroom, ite_false]
      rfl
    | _ => rfl
  · rw [if_neg g, (tc_other b g).1.sent]
    rfl

/-! ## Meters -/

theorem decision_run (b : Build) (far_id qer_id generation pdr_id : Nat) :
    (emit_decision_event b far_id qer_id generation pdr_id).run (kernel H) s = some ((), s) := by
  unfold emit_decision_event
  split <;> rfl

theorem latency_run (b : Build) (pkt_len t : Nat) : ∃ ticks,
    (emit_latency_event b pkt_len t).run (kernel H) s = some ((), { s with ticks }) := by
  unfold emit_latency_event
  split
  · exact ⟨s.ticks + 1, rfl⟩
  · exact ⟨s.ticks, rfl⟩

/-- What is left to do for a packet that was admitted. -/
theorem redirect_run {b : Build} (far : Bytes) (far_id qer_id urr_id pdr_id generation n t : Nat) : ∃ maps ticks,
    Prog.run (kernel H) (passedOn b far far_id qer_id urr_id pdr_id generation n t) s =
      some (H.redirect (farOf far).out_ifindex, { s with maps, ticks }) ∧
    maps.metrics = (s.maps.countAll s.cpu (forwardCounts urr_id (H.redirect (farOf far).out_ifindex))).metrics ∧
    (urr_id ≠ 0 → HasRoom s.maps urr_id → Counted urr_id s.cpu n s.maps maps) ∧
    (urr_id = 0 ∨ ¬ HasRoom s.maps urr_id → Uncounted s.maps maps) ∧
    ∀ (e : BucketMap) q c, e.bucket q c maps = e.bucket q c s.maps := by
  obtain ⟨m₁, hu, hr⟩ := @urr_run H { s with maps := s.maps.countAll s.cpu [.M_TC_QER_PASS] } urr_id n
  obtain ⟨ticks, hl⟩ := @latency_run H { s with maps := m₁ } b n t
  have hpass : Uncounted s.maps (s.maps.countAll s.cpu [.M_TC_QER_PASS]) := uncounted_countAll _ _ _
  refine ⟨m₁.countAll s.cpu ([.M_TC_FAR_FORWARD] ++
    if H.redirect (farOf far).out_ifindex ≠ TC_ACT_REDIRECT_X then [.M_TC_REDIRECT_ERR] else []), ticks, ?_, ?_,
    fun h0 hroom => ?_, fun h => ?_, fun e q c => ?_⟩
  · rw [passedOn, bump_bind, Prog.run_ask _ rfl, Prog.run_bind]
    rw [Maps.countAll, List.foldl_cons, List.foldl_nil] at hu
    rw [hu, Option.bind_some, Prog.run_bind, decision_run,
      Option.bind_some, Prog.run_bind, hl, Option.bind_some, bump_bind, Prog.run_ask _ rfl, read_bind,
      Prog.run_ask _ rfl, redirect_bind, Prog.run_ask _ rfl]
    show Prog.run _ (if H.redirect (farOf far).out_ifindex ≠ TC_ACT_REDIRECT_X then _ else _) _ = _
    split
    · rfl
    · rfl
  · rw [forwardCounts, List.append_assoc, List.append_assoc, countAll_append s.maps,
      countAll_append (s.maps.countAll _ _)]
    exact metrics_countAll hr.metrics _ _
  · exact (hpass.trans_counted (hr.counted h0 ((hpass.hasRoom _).mpr hroom))).trans_uncounted (uncounted_countAll _ _ _)
  · refine hpass.trans ((hr.uncounted (h.imp_right fun h => ?_)).trans (uncounted_countAll _ _ _))
    rwa [hpass.hasRoom]
  · rw [bucket_countAll, hr.bucket]
    exact bucket_countAll _ _ _ _ _ _

theorem metrics_setElem (s : Maps) (m : MapName) (k cpu : Nat) (v : Bytes) :
    (s.setElem m k cpu v).metrics = s.metrics := by
  unfold Maps.setElem
  split <;> rfl

/-- A bucket is no usage. -/
theorem uncounted_setElem (s : Maps) (e : BucketMap) (q cpu : Nat) (v : Bytes) :
    Uncounted s (s.setElem e.map q cpu v) := by
  refine .of_percpu ?_
  rcases e.type with ht | ht
  · have hm : MapName.urr_counters ≠ e.map := fun hm => by
      rw [← hm] at ht
      cases ht
    rw [Maps.setElem_percpu (.inl ht)]
    exact Function.update_of_ne hm _ _
  · rw [Maps.setElem_shared ht]
    rfl

/-- What a call of `upf_qer_admit` does to the maps, apart from the bucket. -/
theorem admit_uncounted {b : Build} {q cpu : Nat} {s s' : Maps}
    (h : s' = s ∨ ∃ v, s' = s.setElem (BucketMap.of b).map q cpu v) : Uncounted s s' ∧ s'.metrics = s.metrics := by
  rcases h with rfl | ⟨v, rfl⟩
  · exact ⟨.refl _, rfl⟩
  · exact ⟨uncounted_setElem _ _ _ _ _, metrics_setElem _ _ _ _ _⟩

theorem qerAdmits_limits {b : Build} {s : Maps} {q cpu now n : Nat} {qv : Bytes} (hl : Limits q qv s) :
    qerAdmits b s q cpu now n = ((BucketMap.of b).admits qv q cpu now n s).1 := by
  simp only [qerAdmits, hl.1, hl.2, ite_false]

/-- The run of `upf_far_forward` up to the admission. -/
theorem admission_run {b : Build} {far_id : Nat} {far : Bytes} (hf : s.maps.lookup .far_table far_id = some far)
    (qer_id urr_id pdr_id generation n t : Nat) (hroom : 0 ≤ H.adjust_room (-n)) {ok : Bool} {s' : Machine}
    (hr : (admission b qer_id (decapped H s.frame n).length).run (kernel H)
      { s with frame := decapped H s.frame n } = some (ok, s')) :
    (upf_far_forward b far_id qer_id urr_id pdr_id generation n t).run (kernel H) s =
      Prog.run (kernel H) (if ok then
        passedOn b far far_id qer_id urr_id pdr_id generation (decapped H s.frame n).length t
        else bump .M_TC_QER_DROP >>= fun _ => .ret TC_ACT_SHOT_X) s' := by
  have hlook : kernel H (.lookup .far_table far_id) { s with frame := decapped H s.frame n } =
      some (some (.value .far_table far), { s with frame := decapped H s.frame n }) := by
    rw [kernel_lookup rfl]
    show some (Option.map _ (s.maps.lookup .far_table far_id), _) = _
    rw [hf, Option.map_some]
  rw [upf_far_forward, adjust_room_bind, Prog.run_ask _ (adjust_room_ok (Int.not_lt.mpr hroom) _ _ _),
    if_neg (Int.not_lt.mpr hroom), lookup_bind]
  refine (Prog.run_ask _ hlook).trans ?_
  dsimp only
  rw [skb_len_bind, Prog.run_ask _ rfl, Prog.run_bind]
  refine (congrArg (Option.bind · _) hr).trans ?_
  cases ok with
  | true => rfl
  | false => rfl

/-- The run of a packet that is to be forwarded. -/
theorem far_forward_run {b : Build} {far : Bytes} {rule : Tuple}
    (hf : s.maps.lookup .far_table rule.far_id = some far) (pdr_id n t : Nat) (hroom : 0 ≤ H.adjust_room (-n))
    (ha : qerAdmits b s.maps rule.qer_id s.cpu (H.ktime_get_ns s.ticks % 2 ^ 64) (decapped H s.frame n).length) :
    ∃ maps ticks, (upf_far_forward b rule.far_id rule.qer_id rule.urr_id pdr_id rule.generation n t).run (kernel H) s =
      some (H.redirect (farOf far).out_ifindex, ⟨maps, s.cpu, decapped H s.frame n, ticks⟩) ∧
    Metered b rule s.cpu (H.ktime_get_ns s.ticks % 2 ^ 64) (decapped H s.frame n).length s.maps maps ∧
    maps.metrics =
      (s.maps.countAll s.cpu (forwardCounts rule.urr_id (H.redirect (farOf far).out_ifindex))).metrics := by
  let s₁ : Machine := { s with frame := decapped H s.frame n }
  obtain ⟨m₂, t₂, hr, hb, hc⟩ := admit_effect b H s₁ rule.qer_id s₁.frame.length
  obtain ⟨hu, hm⟩ := admit_uncounted hb
  obtain ⟨m₃, t₃, hr₃, hm₃, hcount, hnone, hk⟩ := @redirect_run H { s₁ with maps := m₂, ticks := t₂ } b far rule.far_id
    rule.qer_id rule.urr_id pdr_id rule.generation s₁.frame.length t
  refine ⟨m₃, t₃, ?_, ⟨fun qv hq hq0 => ?_, fun h0 h => ?_, fun h => ?_⟩, ?_⟩
  · rw [admission_run hf _ _ _ _ _ _ hroom hr, if_pos ha]
    exact hr₃
  · have hl : Limits rule.qer_id qv s.maps := ⟨hq, hq0⟩
    have htok : ((BucketMap.of b).bucket rule.qer_id s.cpu m₃).tokens =
        ((BucketMap.of b).admits qv rule.qer_id s.cpu (H.ktime_get_ns s.ticks % 2 ^ 64) s₁.frame.length
          s.maps).2.tokens :=
      congrArg Bucket.tokens ((hk _ _ _).trans (hc qv hl))
    have ht := taken_tokens s₁.frame.length (bucketAt b qv rule.qer_id s.cpu (H.ktime_get_ns s.ticks % 2 ^ 64) s.maps)
    rw [qerAdmits_limits hl] at ha
    rw [htok, ← ht]
    exact congrArg (_ + ·) (congrArg (amount · s₁.frame.length) ha)
  · exact hu.trans_counted (hcount h0 ((hu.hasRoom _).mpr h))
  · exact hu.trans (hnone (h.imp_right fun h => by rwa [hu.hasRoom]))
  · exact hm₃.trans (metrics_countAll hm _ _)

/-! ## Fates -/

/-- What a fate does to the maps: a packet that is forwarded is metered, and any
other counted. -/
def Accounts (b : Build) (H : Helpers) (s : Machine) (teid n : Nat) (maps : Maps) : Fate → Prop
  | .forwarded ifindex => ∃ r, resolve s.maps teid = some r ∧
      Metered b r.rule s.cpu (H.ktime_get_ns s.ticks % 2 ^ 64) (decapped H s.frame n).length s.maps maps ∧
      maps.metrics = (s.maps.countAll s.cpu (forwardCounts r.rule.urr_id (H.redirect ifindex))).metrics
  | fate => Uncounted s.maps maps ∧ maps.metrics = (s.maps.countAll s.cpu [fate.metric]).metrics

/-- A run that only counts. -/
theorem accounts_count {b : Build} {teid n : Nat} (fate : Fate) (hf : ∀ ifindex, fate ≠ .forwarded ifindex) :
    Accounts b H s teid n (s.maps.countAll s.cpu [fate.metric]) fate := by
  have h : Uncounted s.maps (s.maps.countAll s.cpu [fate.metric]) := uncounted_countAll _ _ _
  cases fate with
  | forwarded ifindex => exact absurd rfl (hf ifindex)
  | _ => exact ⟨h, rfl⟩

/-- A run to the verdict of the fate, which does to the maps what the fate does. -/
abbrev Meets (b : Build) (H : Helpers) (s : Machine) (teid n : Nat) (p : Bpf Ptr Int) : Prop :=
  p.Yields (kernel H) s fun v s' => v = (fate b H s teid n).verdict H ∧
    Accounts b H s teid n s'.maps (fate b H s teid n)

theorem refused_run {b : Build} {far_id : Nat} {far : Bytes} (hf : s.maps.lookup .far_table far_id = some far)
    (qer_id urr_id pdr_id generation n t : Nat) (hroom : 0 ≤ H.adjust_room (-n))
    (ha : qerAdmits b s.maps qer_id s.cpu (H.ktime_get_ns s.ticks % 2 ^ 64) (decapped H s.frame n).length = false) :
    Prog.Yields (kernel H) (upf_far_forward b far_id qer_id urr_id pdr_id generation n t) s fun v s' =>
      v = TC_ACT_SHOT_X ∧ Uncounted s.maps s'.maps ∧
        s'.maps.metrics = (s.maps.countAll s.cpu [.M_TC_QER_DROP]).metrics := by
  obtain ⟨m₂, t₂, hr, hb, -⟩ := admit_effect b H { s with frame := decapped H s.frame n } qer_id
    (decapped H s.frame n).length
  obtain ⟨hu, hm⟩ := admit_uncounted hb
  unfold Prog.Yields
  rw [admission_run hf _ _ _ _ _ _ hroom hr, if_neg (Bool.eq_false_iff.mp ha)]
  exact ⟨_, _, rfl, rfl, hu.trans (uncounted_countAll _ _ [.M_TC_QER_DROP]), metrics_countAll hm _ [.M_TC_QER_DROP]⟩

/-- The run of a packet whose FAR says nothing else than to forward it. -/
theorem forward_run {b : Build} {r : Resolved} {far : Bytes} {teid : Nat} (hres : resolve s.maps teid = some r)
    (hfar : farOf far = r.far) (hf : s.maps.lookup .far_table r.rule.far_id = some far)
    (ha : r.far.action ≠ FAR_DROP ∧ r.far.action ≠ FAR_BUFFER) (n t : Nat) : Meets b H s teid n
      (upf_far_forward b r.rule.far_id r.rule.qer_id r.rule.urr_id r.pdr_id r.rule.generation n t) := by
  have hfate : fate b H s teid n = if H.adjust_room (-n) < 0 then .decapErr
      else if qerAdmits b s.maps r.rule.qer_id s.cpu (H.ktime_get_ns s.ticks % 2 ^ 64) (decapped H s.frame n).length
        then .forwarded r.far.out_ifindex else .refused := by
    unfold fate
    rw [hres]
    simp only [ha.1, ha.2, ite_false]
  unfold Meets
  rw [hfate]
  split
  · next h =>
    rw [upf_far_forward, adjust_room_bind]
    refine .ask (adjust_room_err h _ _ _) ?_
    rw [if_pos h]
    exact .ask rfl (.ret ⟨rfl, accounts_count .decapErr (by simp)⟩)
  next h =>
  split
  · next hq =>
    obtain ⟨maps, ticks, hr, hm, hc⟩ := far_forward_run (b := b) hf r.pdr_id n t (Int.not_lt.mp h) hq
    rw [hfar] at hr hc
    exact ⟨_, _, hr, rfl, r, hres, hm, hc⟩
  · next hq => exact refused_run hf _ _ _ _ n t (Int.not_lt.mp h) (Bool.eq_false_iff.mpr hq)

theorem meets_miss {b : Build} {teid n : Nat} (h : resolve s.maps teid = none) :
    Meets b H s teid n (bump .M_TC_MISS_FAR >>= fun _ => .ret TC_ACT_OK_X) := by
  unfold Meets
  rw [fate, h]
  exact .ask rfl (.ret ⟨rfl, accounts_count .miss (by simp)⟩)

/-- The run of a packet of a tunnel, by its fate. -/
theorem enforce_run (b : Build) (H : Helpers) (s : Machine) (teid ihl t : Nat) :
    Meets b H s teid (ihl + 16) (tc_enforce b teid ihl t) := by
  rw [tc_enforce, lookup_bind]
  refine .ask (kernel_lookup rfl _ _ _) ?_
  cases hs : s.maps.lookup .teid_session teid with
  | none => exact meets_miss (by simp [resolve, pdrOf, hs])
  | some sess =>
  simp only [Option.map_some, read_bind, lookup_bind]
  refine .ask rfl (.ask (kernel_lookup rfl _ _ _) ?_)
  simp only [Maps.deref]
  cases hb : s.maps.lookup .tc_bundle_map (sess.get session_val.pdr_id 4) with
  | none => exact meets_miss (by simp [resolve, pdrOf, ruleOf, hs, hb])
  | some bundle =>
  simp only [Option.map_some]
  have hk : kernel H (.lookup .far_table
      (bundle.get (tc_bundle.slot (activeSlot bundle) + tc_bundle_slot.far_id) 4)) s =
      some ((s.maps.lookup .far_table (activeTuple bundle).far_id).map (.value .far_table), s) :=
    kernel_lookup rfl _ _ _
  refine .ask rfl (.ask rfl (.ask hk ?_))
  cases hf : s.maps.lookup .far_table (activeTuple bundle).far_id with
  | none => exact meets_miss (by simp [resolve, pdrOf, ruleOf, hs, hb, hf])
  | some far =>
  have hres := resolve_eq hs hb hf
  simp only [Option.map_some]
  refine .ask rfl ?_
  change Prog.Yields _ (if (farOf far).action = FAR_DROP then _ else _) _ _
  split
  · next hd =>
    have hfate : fate b H s teid (ihl + 16) = .dropped := by
      unfold fate
      rw [hres]
      simp only [hd, ite_true]
    rw [hfate]
    exact .ask rfl (.ret ⟨rfl, accounts_count .dropped (by simp)⟩)
  next hd =>
  refine .ask rfl ?_
  change Prog.Yields _ (if (farOf far).action = FAR_BUFFER then _ else _) _ _
  split
  · next hb' =>
    have hfate : fate b H s teid (ihl + 16) = .buffered := by
      unfold fate
      rw [hres]
      simp only [hb']
      rfl
    rw [hfate]
    refine .ask rfl (.ask rfl (.ask rfl (.ask rfl (.ask rfl (.ask rfl (.ret ⟨rfl, ?_⟩))))))
    exact accounts_count .buffered (by simp)
  next hb' =>
  refine .ask rfl (.ask rfl (.ask rfl (.ask rfl (.ask rfl ?_))))
  exact forward_run hres rfl hf ⟨hd, hb'⟩ (ihl + 16) t

/-- A G-PDU's run, by its fate. -/
theorem ingress_run (b : Build) (g : IsGpdu s.frame) : (upf_tc_ingress b).Yields (kernel H) s fun v s' =>
    v = (fate b H (entered b s) (teidOf s.frame) (outerLen s.frame)).verdict H ∧
      Accounts b H (entered b s) (teidOf s.frame) (outerLen s.frame) s'.maps
        (fate b H (entered b s) (teidOf s.frame) (outerLen s.frame)) := by
  obtain ⟨v, s', ⟨-, rfl⟩, hl⟩ := tc_parses b H s
  rw [if_pos g] at hl
  exact .leads hl (enforce_run b H (entered b s) _ _ _)

end UPF
