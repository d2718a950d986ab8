import EbpfUpf.Proof.Bucket
import EbpfUpf.Proof.Bundle
import EbpfUpf.Spec.Fate

/-!
# Enforcement

What TC ingress does from the session lookup on, on maps that do not change
meanwhile: each packet meets its `fate` (`enforce_shows`). The helpers called
for a packet that is forwarded (`upf_qer_admit`, `upf_urr_update` and the
events) always return, and do nothing but what `Side` allows.
-/

open Framework

namespace UPF

/-! ## The helpers of the forward path -/

/-- What the helpers of the forward path do: nothing to the packet, and no
lookup of the rules. -/
def Side : Op Ptr → Prop
  | .lookup m _ => m = .qer_table ∨ m = .qer_state ∨ m = .qer_state_shared ∨ m = .urr_counters
  | .read (.value m _) _ _ => m = .qer_table
  | .read (.elem m _) _ _ => m.datapath = true
  | .write .. | .create .. | .ktime_get_ns | .perf_event_output .. | .spin_lock ..
  | .spin_unlock .. => True
  | .bump idx => idx = .M_TC_URR_UPDATED
  | _ => False

section Helpers

variable {α : Type} {H : Helpers}

theorem total_read {m : MapName} {key off n : Nat} {k : Nat → Bpf Ptr α} (hm : m.datapath = true)
    (hk : ∀ v, (k v).Total (kernel H) Side) :
    Prog.Total (kernel H) Side (.ask (.read (.elem m key) off n) k) := .ask hm fun _ => ⟨_, rfl, hk _⟩

theorem total_limit {qv : Bytes} {off n : Nat} {k : Nat → Bpf Ptr α} (hk : ∀ v, (k v).Total (kernel H) Side) :
    Prog.Total (kernel H) Side (.ask (.read (.value .qer_table qv) off n) k) := .ask rfl fun _ => ⟨_, rfl, hk _⟩

theorem total_write {m : MapName} {key off n v : Nat} {k : Unit → Bpf Ptr α} (hm : m.datapath = true)
    (hk : (k ()).Total (kernel H) Side) : Prog.Total (kernel H) Side (.ask (.write (.elem m key) off n v) k) :=
  .ask trivial fun s => ⟨_, kernel_write hm H s key off n v, hk⟩

theorem total_lookup {m : MapName} {key : Nat} {k : Option Ptr → Bpf Ptr α} (hm : m.datapath = true)
    (hk₀ : (k none).Total (kernel H) Side) (hk : (k (some (.elem m key))).Total (kernel H) Side) :
    Prog.Total (kernel H) Side (.ask (.lookup m key) k) := by
  refine .ask (by cases m <;> simp [Side, MapName.datapath] at hm ⊢) fun s => ⟨_, rfl, ?_⟩
  rcases ptr_elem hm s.maps key with h | h <;> simpa only [h]

theorem total_qer {key : Nat} {k : Option Ptr → Bpf Ptr α} (hk₀ : (k none).Total (kernel H) Side)
    (hk : ∀ v, (k (some (.value .qer_table v))).Total (kernel H) Side) :
    Prog.Total (kernel H) Side (.ask (.lookup .qer_table key) k) := by
  refine .ask (.inl rfl) fun s => ⟨_, kernel_lookup rfl H s key, ?_⟩
  cases s.maps.lookup .qer_table key with
  | none => exact hk₀
  | some v => exact hk v

theorem total_clock {k : Nat → Bpf Ptr α} (hk : ∀ t, (k t).Total (kernel H) Side) :
    Prog.Total (kernel H) Side (.ask .ktime_get_ns k) := .ask trivial fun _ => ⟨_, rfl, hk _⟩

theorem refill_total {m : MapName} (hm : m.datapath = true) (t l key : Nat) (elapsed : Nat → Nat → Nat)
    (qv : Bytes) (now : Nat) :
    (refill_bucket t l elapsed (.value .qer_table qv) (.elem m key) now).Total (kernel H) Side := by
  unfold refill_bucket
  refine total_read hm fun last => .ite ?_ ?_
  · exact total_limit fun _ => total_write hm (total_write hm trivial)
  · refine total_limit fun _ => total_read hm fun _ => total_write hm (total_read hm fun _ => total_limit fun _ => ?_)
    exact .ite (total_limit fun _ => total_write hm (total_write hm trivial)) (total_write hm trivial)

theorem take_total {m : MapName} (hm : m.datapath = true) (t key n : Nat) :
    (take_tokens t (.elem m key) n).Total (kernel H) Side := by
  unfold take_tokens
  exact total_read hm fun _ => .ite (total_write hm trivial) trivial

theorem admit_total (b : Build) (qer_id pkt_len : Nat) :
    (admission b qer_id pkt_len).Total (kernel H) Side := by
  unfold admission upf_qer_admit upf_qer_admit_shared upf_qer_admit_percpu
  simp only [lookup_bind, read_bind, ktime_get_ns_bind, spin_lock_bind]
  refine .ite ?_ ?_
  · refine total_qer trivial fun qv => total_limit fun _ => .ite trivial (total_lookup rfl trivial ?_)
    refine total_clock fun _ => .ask trivial fun _ => ⟨_, rfl, ?_⟩
    refine .bind (refill_total rfl _ _ _ _ _ _) fun _ => .bind (take_total rfl _ _ _) fun _ => ?_
    exact .ask trivial fun _ => ⟨_, rfl, trivial⟩
  · refine total_qer trivial fun qv => total_limit fun _ => .ite trivial (total_lookup rfl trivial ?_)
    exact total_clock fun _ => .bind (refill_total rfl _ _ _ _ _ _) fun _ => take_total rfl _ _ _

theorem urr_total (urr_id pkt_len : Nat) : (upf_urr_update urr_id pkt_len).Total (kernel H) Side := by
  have hb : (bump .M_TC_URR_UPDATED : Bpf Ptr Unit).Total (kernel H) Side := .ask rfl fun _ => ⟨_, rfl, trivial⟩
  unfold upf_urr_update
  refine .ite trivial (total_lookup rfl ?_ ?_)
  · refine .ask trivial fun s => ?_
    dsimp only [kernel]
    split <;> exact ⟨_, rfl, hb⟩
  · exact total_read rfl fun _ => total_write rfl (total_read rfl fun _ => total_write rfl hb)

theorem event_total (data : Bytes) : (perf_event_output data : Bpf Ptr Unit).Total (kernel H) Side :=
  .ask trivial fun _ => ⟨_, rfl, trivial⟩

theorem decision_total (b : Build) (far_id qer_id generation pdr_id : Nat) :
    (emit_decision_event b far_id qer_id generation pdr_id : Bpf Ptr Unit).Total (kernel H) Side :=
  .ite (event_total _) trivial

theorem latency_total (b : Build) (pkt_len t_entry : Nat) :
    (emit_latency_event b pkt_len t_entry : Bpf Ptr Unit).Total (kernel H) Side :=
  .ite (total_clock fun _ => event_total _) trivial

end Helpers

/-! ## Fates -/

/-- The visible operations of a run, and its verdict. -/
def Shows (H : Helpers) (p : Bpf Ptr Int) (s : Machine) (ops : List (Op Ptr)) (v : Int) : Prop :=
  (p.trace (kernel H) s).filter visible = ops ∧ ∃ s', p.run (kernel H) s = some (v, s')

namespace Shows

variable {H : Helpers} {s s' : Machine} {ops : List (Op Ptr)} {v : Int}

theorem ret (v : Int) (s : Machine) : Shows H (.ret v) s [] v := ⟨rfl, s, rfl⟩

theorem hidden {o : Op Ptr} {k : Op.Ans o → Bpf Ptr Int} {r : Op.Ans o} (ho : visible o = false)
    (e : kernel H o s = some (r, s')) (hk : Shows H (k r) s' ops v) : Shows H (.ask o k) s ops v := by
  refine ⟨?_, ?_⟩
  · rw [Prog.trace_ask _ e, List.filter_cons_of_neg (by simp [ho])]
    exact hk.1
  · rw [Prog.run_ask _ e]
    exact hk.2

theorem seen {o : Op Ptr} {k : Op.Ans o → Bpf Ptr Int} {r : Op.Ans o} (ho : visible o = true)
    (e : kernel H o s = some (r, s')) (hk : Shows H (k r) s' ops v) :
    Shows H (.ask o k) s (o :: ops) v := by
  refine ⟨?_, ?_⟩
  · rw [Prog.trace_ask _ e, List.filter_cons_of_pos ho]
    exact congrArg _ hk.1
  · rw [Prog.run_ask _ e]
    exact hk.2

theorem side_hidden {o : Op Ptr} (h : Side o) : visible o = false := by
  cases o with
  | lookup m k => rcases h with rfl | rfl | rfl | rfl <;> rfl
  | bump idx =>
    cases h
    rfl
  | load | store | adjust_room | redirect => cases h
  | _ => rfl

theorem side {α : Type} {p : Bpf Ptr α} {f : α → Bpf Ptr Int} (hp : p.Total (kernel H) Side)
    (hf : ∀ a s', p.run (kernel H) s = some (a, s') → Shows H (f a) s' ops v) : Shows H (p >>= f) s ops v := by
  obtain ⟨a, s', hr⟩ := hp.run s
  obtain ⟨ht, hv⟩ := hf a s' hr
  have hs : (p.trace (kernel H) s).filter visible = [] :=
    List.filter_eq_nil_iff.mpr fun o ho => by simp [side_hidden (hp.trace ho)]
  refine ⟨?_, ?_⟩
  · rw [Prog.trace_bind, hr, List.filter_append, hs]
    exact ht
  · rw [Prog.run_bind, hr]
    exact hv

end Shows

theorem adjust_room_ok {H : Helpers} {d : Int} (h : ¬ H.adjust_room d < 0) (s : Machine) (mode flags : Nat) :
    kernel H (.adjust_room d mode flags) s =
      some (H.adjust_room d, { s with frame := resize s.frame H.room d }) := by
  simp only [kernel, h, ite_false]

theorem adjust_room_err {H : Helpers} {d : Int} (h : H.adjust_room d < 0) (s : Machine) (mode flags : Nat) :
    kernel H (.adjust_room d mode flags) s = some (H.adjust_room d, s) := by
  simp only [kernel, h, ite_true]

/-- What is left of `upf_far_forward` when the packet is admitted. -/
abbrev passedOn (b : Build) (far : Bytes) (far_id qer_id urr_id pdr_id generation pkt_len t : Nat) : Bpf Ptr Int :=
  bump .M_TC_QER_PASS >>= fun _ => upf_urr_update urr_id pkt_len >>= fun _ =>
    emit_decision_event b far_id qer_id generation pdr_id >>= fun _ =>
    emit_latency_event b pkt_len t >>= fun _ => bump .M_TC_FAR_FORWARD >>= fun _ =>
    read (.value .far_table far) far_val.out_ifindex 4 >>= fun ifindex => redirect ifindex 0 >>= fun ret =>
    if ret ≠ TC_ACT_REDIRECT_X then bump .M_TC_REDIRECT_ERR >>= fun _ => .ret ret else .ret ret

theorem redirect_shows {b : Build} {H : Helpers} (s : Machine) (far : Bytes)
    (far_id qer_id urr_id pdr_id generation pkt_len t : Nat) :
    Shows H (passedOn b far far_id qer_id urr_id pdr_id generation pkt_len t) s
      [.bump .M_TC_FAR_FORWARD, .redirect (farOf far).out_ifindex 0] (H.redirect (farOf far).out_ifindex) := by
  rw [passedOn, bump_bind]
  refine .hidden rfl rfl (.side (urr_total urr_id pkt_len) fun _ s₁ _ => ?_)
  refine .side (decision_total b far_id qer_id generation pdr_id) fun _ s₂ _ => ?_
  refine .side (latency_total b pkt_len t) fun _ s₃ _ => ?_
  simp only [bump_bind, read_bind, redirect_bind]
  refine .seen rfl rfl (.hidden rfl rfl (.seen rfl rfl ?_))
  split
  · exact .hidden rfl rfl (.ret _ _)
  · exact .ret _ _

theorem forward_shows {b : Build} {H : Helpers} {s : Machine} {far_id : Nat} {far : Bytes}
    (hf : s.maps.lookup .far_table far_id = some far) (qer_id urr_id pdr_id generation n t : Nat) :
    let fate := if H.adjust_room (-n) < 0 then .decapErr
      else if qerAdmits b s.maps qer_id s.cpu (H.ktime_get_ns s.ticks % 2 ^ 64) (decapped H s.frame n).length
        then .forwarded (farOf far).out_ifindex else Fate.refused
    Shows H (upf_far_forward b far_id qer_id urr_id pdr_id generation n t) s (fate.ops n) (fate.verdict H) := by
  dsimp only
  rw [upf_far_forward, adjust_room_bind]
  split
  · next h =>
    refine .seen rfl (adjust_room_err h _ _ _) ?_
    rw [if_pos h]
    exact .seen rfl rfl (.ret _ _)
  next h =>
  have hops : ∀ {q : Prop} [Decidable q], (if q then Fate.forwarded (farOf far).out_ifindex else .refused).ops n =
      .adjust_room (-n) BPF_ADJ_ROOM_MAC_X BPF_F_ADJ_ROOM_FIXED_GSO_X :: if q then
        [.bump .M_TC_FAR_FORWARD, .redirect (farOf far).out_ifindex 0] else [.bump .M_TC_QER_DROP] := by
    intro q _
    split <;> rfl
  rw [hops]
  refine .seen rfl (adjust_room_ok h _ _ _) ?_
  rw [if_neg h, lookup_bind]
  refine .hidden rfl (kernel_lookup rfl _ _ _) ?_
  dsimp only
  rw [hf, Option.map_some]
  dsimp only
  rw [skb_len_bind]
  refine .hidden rfl rfl (.side (admit_total b _ _) fun r s₁ hr => ?_)
  obtain ⟨s₂, hr'⟩ := admit_run b H { s with frame := resize s.frame H.room (-n) } qer_id
    (resize s.frame H.room (-n)).length
  obtain ⟨rfl, rfl⟩ := Prod.mk.inj (Option.some.inj (hr'.symm.trans hr))
  rw [decapped]
  cases hq : qerAdmits b s.maps qer_id s.cpu (H.ktime_get_ns s.ticks % 2 ^ 64)
    (resize s.frame H.room (-n)).length with
  | true => exact redirect_shows _ _ _ _ _ _ _ _ _
  | false => exact .seen rfl rfl (.ret _ _)

theorem miss_shows {H : Helpers} (s : Machine) :
    Shows H (bump .M_TC_MISS_FAR >>= fun _ => .ret TC_ACT_OK_X) s (Fate.miss.ops n) (Fate.miss.verdict H) :=
  .seen rfl rfl (.ret _ _)

theorem resolve_eq {s : Maps} {teid : Nat} {sess bundle far : Bytes}
    (hs : s.lookup .teid_session teid = some sess)
    (hb : s.lookup .tc_bundle_map (sess.get session_val.pdr_id 4) = some bundle)
    (hf : s.lookup .far_table (activeTuple bundle).far_id = some far) :
    resolve s teid = some ⟨sess.get session_val.pdr_id 4, activeTuple bundle, farOf far⟩ := by
  simp [resolve, pdrOf, ruleOf, hs, hb, hf]

theorem resolve_fits {s : Maps} {teid : Nat} {r : Resolved} (h : resolve s teid = some r) : r.rule.Fits := by
  simp only [resolve, ruleOf, Option.bind_eq_bind, Option.bind_eq_some_iff, Option.map_eq_some_iff] at h
  obtain ⟨_, -, _, ⟨bundle, -, rfl⟩, _, -, h⟩ := h
  cases h
  exact activeTuple_fits bundle

/-- A packet of a tunnel meets its fate. -/
theorem enforce_shows (b : Build) (H : Helpers) (s : Machine) (teid ihl t : Nat) :
    Shows H (tc_enforce b teid ihl t) s (.lookup .teid_session teid :: (fate b H s teid (ihl + 16)).ops (ihl + 16))
      ((fate b H s teid (ihl + 16)).verdict H) := by
  rw [tc_enforce, lookup_bind]
  refine .seen rfl (kernel_lookup rfl _ _ _) ?_
  cases hs : s.maps.lookup .teid_session teid with
  | none =>
    have : resolve s.maps teid = none := by simp [resolve, pdrOf, hs]
    rw [fate, this]
    exact miss_shows s
  | some sess =>
  simp only [Option.map_some, read_bind, lookup_bind]
  refine .hidden rfl rfl (.hidden rfl (kernel_lookup rfl _ _ _) ?_)
  simp only [Maps.deref]
  cases hb : s.maps.lookup .tc_bundle_map (sess.get session_val.pdr_id 4) with
  | none =>
    have : resolve s.maps teid = none := by simp [resolve, pdrOf, ruleOf, hs, hb]
    rw [fate, this]
    exact miss_shows s
  | some bundle =>
  simp only [Option.map_some]
  have hk : kernel H (.lookup .far_table
      (bundle.get (tc_bundle.slot (activeSlot bundle) + tc_bundle_slot.far_id) 4)) s =
      some ((s.maps.lookup .far_table (activeTuple bundle).far_id).map (.value .far_table), s) :=
    kernel_lookup rfl _ _ _
  refine .hidden rfl rfl (.hidden rfl rfl (.hidden rfl hk ?_))
  cases hf : s.maps.lookup .far_table (activeTuple bundle).far_id with
  | none =>
    have : resolve s.maps teid = none := by simp [resolve, pdrOf, ruleOf, hs, hb, hf]
    rw [fate, this]
    exact miss_shows s
  | some far =>
  rw [fate, resolve_eq hs hb hf]
  simp only [Option.map_some]
  refine .hidden rfl rfl ?_
  change Shows H (if (farOf far).action = FAR_DROP then _ else _) _ _ _
  split
  · exact .seen rfl rfl (.ret _ _)
  refine .hidden rfl rfl ?_
  change Shows H (if (farOf far).action = FAR_BUFFER then _ else _) _ _ _
  split
  · exact .hidden rfl rfl (.hidden rfl rfl (.hidden rfl rfl (.hidden rfl rfl (.hidden rfl rfl
      (.seen rfl rfl (.ret _ _))))))
  refine .hidden rfl rfl (.hidden rfl rfl (.hidden rfl rfl (.hidden rfl rfl (.hidden rfl rfl ?_))))
  exact forward_shows hf _ _ _ _ _ _

end UPF
