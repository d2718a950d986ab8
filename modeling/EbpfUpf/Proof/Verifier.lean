import EbpfUpf.Impl.Agent
import EbpfUpf.Proof.Kernel
import EbpfUpf.Spec.Gpdu
import EbpfUpf.Spec.Qer
import EbpfUpf.Spec.Verifier

/-!
# The programmes pass the verifier

Each programme, in each build, keeps to the rules whatever it is answered
(`programme_verified`). The rules come first, one for each kind of operation.
A part of a programme that does nothing to the packet leaves what is known of it
(`Grows`).
-/

open Framework

namespace UPF

/-! ## Rules -/

/-- The same is known of the packet, and no pointer is lost. -/
structure Known.Grows (K K' : Known) : Prop where
  bytes : K'.bytes = K.bytes
  lock : K'.lock = K.lock
  held : K.held ⊆ K'.held

namespace Known.Grows

theorem refl (K : Known) : K.Grows K := ⟨rfl, rfl, List.Subset.refl _⟩

theorem trans {K K' K'' : Known} (h : K.Grows K') (h' : K'.Grows K'') : K.Grows K'' :=
  ⟨h'.bytes.trans h.bytes, h'.lock.trans h.lock, List.Subset.trans h.held h'.held⟩

end Known.Grows

/-- The part `p` of a programme that does nothing to the packet passes. -/
abbrev PartVerified {α : Type} (K : Known) (p : Bpf Ptr α) : Prop := Obeys verifier (fun _ K' => K.Grows K') K p

section Rules

variable {α : Type} {Post : α → Known → Prop} {K : Known} {e : Nat}

theorem verified_data_end {k : Nat → Bpf Ptr α} (hk : ∀ e, Obeys verifier Post { K with bytes := some e } (k e)) :
    Obeys verifier Post K (.ask .data_end k) := ⟨trivial, fun e _ => hk e⟩

theorem verified_load {off n : Nat} {k : Nat → Bpf Ptr α} (hb : K.bytes = some e) (h : off + n ≤ e)
    (hk : ∀ v, Obeys verifier Post K (k v)) : Obeys verifier Post K (.ask (.load off n) k) :=
  ⟨⟨e, hb, h⟩, fun v _ => hk v⟩

theorem verified_store {off : Nat} {val : Bytes} {k : Unit → Bpf Ptr α} (hb : K.bytes = some e)
    (h : off + val.length ≤ e) (hk : Obeys verifier Post K (k ())) :
    Obeys verifier Post K (.ask (.store off val) k) := ⟨⟨e, hb, h⟩, fun _ _ => hk⟩

theorem verified_read {p : Ptr} {off n : Nat} {k : Nat → Bpf Ptr α} (h : K.Valid p off n)
    (hk : ∀ v, Obeys verifier Post K (k v)) : Obeys verifier Post K (.ask (.read p off n) k) :=
  ⟨h, fun v _ => hk v⟩

theorem verified_write {p : Ptr} {off n v : Nat} {k : Unit → Bpf Ptr α} (hd : p.map.datapath = true)
    (h : K.Valid p off n) (hk : Obeys verifier Post K (k ())) : Obeys verifier Post K (.ask (.write p off n v) k) :=
  ⟨⟨hd, h⟩, fun _ _ => hk⟩

theorem Ptr.Of.map_eq {m : MapName} {key : Nat} {p : Ptr} (h : p.Of m key) : p.map = m := by
  cases p with
  | value => exact h.1
  | elem => exact h.1

theorem verified_lookup {m : MapName} {key : Nat} {k : Option Ptr → Bpf Ptr α} (hK : K.lock = none)
    (hn : Obeys verifier Post K (k none))
    (hs : ∀ (p : Ptr) (K' : Known), p.map = m → p ∈ K'.held → K.Grows K' → Obeys verifier Post K' (k (some p))) :
    Obeys verifier Post K (.ask (.lookup m key) k) := by
  refine ⟨hK, fun r hr => ?_⟩
  cases r with
  | none => exact hn
  | some p => exact hs p _ (hr p rfl).map_eq List.mem_cons_self ⟨rfl, rfl, List.subset_cons_self _ _⟩

/-- A helper that answers nothing the rules ask about. -/
theorem verified_helper {o : Op Ptr} {k : Op.Ans o → Bpf Ptr α} (ha : Known.Allowed K o)
    (hn : ∀ r, Known.next K o r = K) (hk : ∀ r, Obeys verifier Post K (k r)) : Obeys verifier Post K (.ask o k) := by
  refine ⟨ha, fun r _ => ?_⟩
  show Obeys verifier Post (Known.next K o r) (k r)
  rw [hn r]
  exact hk r

theorem verified_bump {idx : Metric} {k : Unit → Bpf Ptr α} (hK : K.lock = none)
    (hk : Obeys verifier Post K (k ())) : Obeys verifier Post K (.ask (.bump idx) k) :=
  verified_helper hK (fun _ => rfl) fun _ => hk

theorem verified_clock {k : Nat → Bpf Ptr α} (hK : K.lock = none) (hk : ∀ t, Obeys verifier Post K (k t)) :
    Obeys verifier Post K (.ask .ktime_get_ns k) := verified_helper hK (fun _ => rfl) hk

theorem verified_len {k : Nat → Bpf Ptr α} (hk : ∀ n, Obeys verifier Post K (k n)) :
    Obeys verifier Post K (.ask .len k) := verified_helper trivial (fun _ => rfl) hk

theorem verified_event {data : Bytes} {k : Unit → Bpf Ptr α} (hK : K.lock = none)
    (hk : Obeys verifier Post K (k ())) : Obeys verifier Post K (.ask (.perf_event_output data) k) :=
  verified_helper hK (fun _ => rfl) fun _ => hk

/-- A counter, and then a verdict. -/
theorem verified_verdict {idx : Metric} {v : Int} (hK : K.lock = none) :
    Obeys verifier Unlocked K (bump idx >>= fun _ => (.ret v : Bpf Ptr Int)) := verified_bump hK hK

/-- A part of a programme, and what follows it. -/
theorem PartVerified.bind {β : Type} {p : Bpf Ptr β} {f : β → Bpf Ptr α} (hp : PartVerified K p)
    (hf : ∀ a K', K.Grows K' → Obeys verifier Post K' (f a)) : Obeys verifier Post K (p >>= f) :=
  Obeys.bind hp hf

/-- A field of a value that a lookup returned. -/
theorem Known.valid {m : MapName} {p : Ptr} (hm : p.map = m) (hp : p ∈ K.held) {off n : Nat}
    (h : off + n ≤ m.value_size ∧ m ≠ .qer_state_shared) : K.Valid p off n :=
  ⟨hp, hm ▸ h.1, fun hs => absurd (hm.symm.trans hs) h.2⟩

end Rules

/-! ## XDP -/

theorem xdp_classify_verified {K : Known} (hK : K.lock = none) (teid : Nat) :
    Obeys verifier Unlocked K (xdp_classify teid) := by
  rw [xdp_classify, lookup_bind]
  refine verified_lookup hK (verified_verdict hK) fun sess K' hm hs hg => ?_
  have hK := hg.lock.trans hK
  refine verified_read (Known.valid hm hs (by decide)) fun pdr_id => ?_
  refine verified_lookup hK (verified_verdict hK) fun pdr K'' _ _ hg => ?_
  exact verified_verdict (hg.lock.trans hK)

theorem xdp_verified : Obeys verifier Unlocked .start upf_xdp_uplink := by
  rw [upf_xdp_uplink, data_end_bind]
  refine verified_data_end fun e => verified_bump rfl (.ite (fun _ => verified_verdict rfl) fun h₁ => ?_)
  simp only [ethhdr.h_proto, ethhdr.size, not_lt] at h₁ ⊢
  refine verified_load rfl (by omega) fun proto => .ite (fun _ => rfl) fun _ => ?_
  refine .ite (fun _ => verified_verdict rfl) fun h₂ => ?_
  simp only [iphdr.size, not_lt] at h₂
  refine verified_load rfl (by simp only [iphdr.protocol]; omega) fun proto => .ite (fun _ => rfl) fun _ => ?_
  refine verified_load rfl (by simp only [iphdr.ihl]; omega) fun ihl => ?_
  refine .ite (fun _ => verified_verdict rfl) fun _ => .ite (fun _ => verified_verdict rfl) fun h₃ => ?_
  simp only [udphdr.size, not_lt] at h₃ ⊢
  refine verified_load rfl (by simp only [udphdr.dest]; omega) fun dest => ?_
  refine .ite (fun _ => verified_verdict rfl) fun _ => verified_bump rfl ?_
  refine .ite (fun _ => verified_verdict rfl) fun h₄ => ?_
  simp only [not_lt] at h₄
  refine verified_load rfl (by omega) fun flags => verified_load rfl (by omega) fun type => ?_
  refine verified_load rfl (by omega) fun teid_be => .ite (fun _ => verified_verdict rfl) fun _ => ?_
  exact verified_bump rfl (xdp_classify_verified rfl _)

/-! ## TC ingress -/

section Ingress

variable {K : Known}

theorem refill_verified {qv st : Ptr} (hq : ∀ {off n : Nat}, off + n ≤ 24 → K.Valid qv off n)
    (hd : st.map.datapath = true) {t l : Nat} (ht : K.Valid st t 8) (hl : K.Valid st l 8)
    (elapsed : Nat → Nat → Nat) (now : Nat) : PartVerified K (refill_bucket t l elapsed qv st now) := by
  have hw : ∀ {v : Nat}, PartVerified K (write st l 8 v) := verified_write hd hl (.refl K)
  rw [refill_bucket, read_bind]
  refine verified_read hl fun last => .ite (fun _ => ?_) fun _ => ?_
  · exact verified_read (hq (by decide)) fun _ => verified_write hd ht hw
  · refine verified_read (hq (by decide)) fun _ => verified_read ht fun _ => verified_write hd ht ?_
    refine verified_read ht fun _ => verified_read (hq (by decide)) fun _ => .ite (fun _ => ?_) fun _ => hw
    exact verified_read (hq (by decide)) fun _ => verified_write hd ht hw

theorem take_verified {st : Ptr} (hd : st.map.datapath = true) {t : Nat} (ht : K.Valid st t 8) (n : Nat) :
    PartVerified K (take_tokens t st n) := by
  rw [take_tokens, read_bind]
  exact verified_read ht fun _ => .ite (fun _ => verified_write hd ht (.refl K)) fun _ => .refl K

theorem admit_shared_verified (hK : K.lock = none) (qer_id n : Nat) :
    PartVerified K (upf_qer_admit_shared qer_id n) := by
  rw [upf_qer_admit_shared, lookup_bind]
  refine verified_lookup hK (.refl K) fun qv K₁ hq hv hg₁ => ?_
  have hK₁ := hg₁.lock.trans hK
  refine verified_read (Known.valid hq hv (by decide)) fun _ => .ite (fun _ => hg₁) fun _ => ?_
  refine verified_lookup hK₁ hg₁ fun st K₂ hm hs hg₂ => ?_
  have hK₂ := hg₂.lock.trans hK₁
  have hd : st.map.datapath = true := by rw [hm]; rfl
  have tokens : ∀ {K : Known}, st ∈ K.held → K.lock = some st → K.Valid st qer_bucket_locked.tokens_bytes 8 :=
    fun h hl => ⟨h, by rw [hm]; decide, fun _ => hl⟩
  have last : ∀ {K : Known}, st ∈ K.held → K.lock = some st → K.Valid st qer_bucket_locked.last_ns 8 :=
    fun h hl => ⟨h, by rw [hm]; decide, fun _ => hl⟩
  have field : ∀ {K : Known} {off n : Nat}, qv ∈ K.held → off + n ≤ 24 → K.Valid qv off n :=
    fun hv h => Known.valid hq hv ⟨h, by decide⟩
  refine verified_clock hK₂ fun now => ⟨⟨hK₂, hs, hm⟩, fun _ _ => ?_⟩
  have refill : PartVerified ⟨K₂.bytes, K₂.held, some st⟩ (refill_bucket qer_bucket_locked.tokens_bytes
      qer_bucket_locked.last_ns elapsed_shared qv st now) :=
    refill_verified (K := ⟨K₂.bytes, K₂.held, some st⟩) (field (hg₂.held hv)) hd (tokens hs rfl) (last hs rfl) _ _
  refine refill.bind fun _ K₃ hg₃ => ?_
  refine (take_verified hd (tokens (hg₃.held hs) hg₃.lock) _).bind fun r K₄ hg₄ => ?_
  have hg := hg₁.trans hg₂
  exact ⟨hg₄.lock.trans hg₃.lock, fun _ _ => ⟨(hg₄.bytes.trans hg₃.bytes).trans hg.bytes, hK.symm,
    List.Subset.trans hg.held (List.Subset.trans hg₃.held hg₄.held)⟩⟩

theorem admit_percpu_verified (hK : K.lock = none) (qer_id n : Nat) :
    PartVerified K (upf_qer_admit_percpu qer_id n) := by
  rw [upf_qer_admit_percpu, lookup_bind]
  refine verified_lookup hK (.refl K) fun qv K₁ hq hv hg₁ => ?_
  have hK₁ := hg₁.lock.trans hK
  refine verified_read (Known.valid hq hv (by decide)) fun _ => .ite (fun _ => hg₁) fun _ => ?_
  refine verified_lookup hK₁ hg₁ fun st K₂ hm hs hg₂ => ?_
  have hd : st.map.datapath = true := by rw [hm]; rfl
  have tokens : ∀ {K : Known}, st ∈ K.held → K.Valid st qer_bucket_state.tokens_bytes 8 :=
    fun h => Known.valid hm h (by decide)
  have last : K₂.Valid st qer_bucket_state.last_ns 8 := Known.valid hm hs (by decide)
  have field : ∀ {off n : Nat}, off + n ≤ 24 → K₂.Valid qv off n :=
    fun h => Known.valid hq (hg₂.held hv) ⟨h, by decide⟩
  refine verified_clock (hg₂.lock.trans hK₁) fun now => ?_
  refine (refill_verified field hd (tokens hs) last _ _).bind fun _ K₃ hg₃ => ?_
  refine (take_verified hd (tokens (hg₃.held hs)) _).mono fun _ K₄ hg₄ => ?_
  exact ((hg₁.trans hg₂).trans hg₃).trans hg₄

theorem admit_verified (hK : K.lock = none) (b : Build) (qer_id n : Nat) :
    PartVerified K (admission b qer_id n) :=
  .ite (fun _ => admit_shared_verified hK qer_id n) fun _ => admit_percpu_verified hK qer_id n

theorem urr_verified (hK : K.lock = none) (urr_id n : Nat) : PartVerified K (upf_urr_update urr_id n) := by
  unfold upf_urr_update
  refine .ite (fun _ => .refl K) fun _ => verified_lookup hK ?_ fun uv K' hm hu hg => ?_
  · exact verified_helper ⟨hK, rfl, by simp [MapName.value_size]⟩ (fun _ => rfl) fun _ => verified_bump hK (.refl K)
  · have hd : uv.map.datapath = true := by rw [hm]; rfl
    refine verified_read (Known.valid hm hu (by decide)) fun _ => ?_
    refine verified_write hd (Known.valid hm hu (by decide)) (verified_read (Known.valid hm hu (by decide)) fun _ => ?_)
    refine verified_write hd (Known.valid hm hu (by decide)) ?_
    exact verified_bump (hg.lock.trans hK) hg

theorem decision_verified (hK : K.lock = none) (b : Build) (far_id qer_id generation pdr_id : Nat) :
    PartVerified K (emit_decision_event b far_id qer_id generation pdr_id) :=
  .ite (fun _ => verified_event hK (.refl K)) fun _ => .refl K

theorem latency_verified (hK : K.lock = none) (b : Build) (n t : Nat) : PartVerified K (emit_latency_event b n t) :=
  .ite (fun _ => verified_clock hK fun _ => verified_event hK (.refl K)) fun _ => .refl K

theorem entry_verified (hK : K.lock = none) (b : Build) : PartVerified K (entry_time b) :=
  .ite (fun _ => verified_clock hK fun _ => .refl K) fun _ => .refl K

theorem far_forward_verified (hK : K.lock = none) (b : Build) (far_id qer_id urr_id pdr_id generation n t : Nat) :
    Obeys verifier Unlocked K (upf_far_forward b far_id qer_id urr_id pdr_id generation n t) := by
  rw [upf_far_forward, adjust_room_bind]
  refine ⟨hK, fun ret _ => ?_⟩
  change Obeys verifier Unlocked { K with bytes := none } _
  refine .ite (fun _ => verified_verdict hK) fun _ => ?_
  rw [lookup_bind]
  refine verified_lookup hK (verified_verdict hK) fun far K₁ hm hf hg₁ => verified_len fun n => ?_
  have hK₁ : K₁.lock = none := hg₁.lock.trans hK
  refine (admit_verified hK₁ b _ _).bind fun r K₂ hg₂ => ?_
  have hK₂ := hg₂.lock.trans hK₁
  refine .ite (fun _ => verified_verdict hK₂) fun _ => verified_bump hK₂ ?_
  refine (urr_verified hK₂ _ _).bind fun _ K₃ hg₃ => ?_
  have hK₃ := hg₃.lock.trans hK₂
  refine (decision_verified hK₃ b _ _ _ _).bind fun _ K₄ hg₄ => ?_
  have hK₄ := hg₄.lock.trans hK₃
  refine (latency_verified hK₄ b _ _).bind fun _ K₅ hg₅ => ?_
  have hK₅ := hg₅.lock.trans hK₄
  have hf : far ∈ K₅.held := hg₅.held (hg₄.held (hg₃.held (hg₂.held hf)))
  refine verified_bump hK₅ (verified_read (Known.valid hm hf (by decide)) fun ifindex => ?_)
  exact verified_helper hK₅ (fun _ => rfl) fun ret => .ite (fun _ => verified_verdict hK₅) fun _ => hK₅

theorem slot_field (i : Nat) {f : Nat} (hf : f + 4 ≤ tc_bundle_slot.size) :
    tc_bundle.slot (i % 2) + f + 4 ≤ MapName.tc_bundle_map.value_size := by
  have : i % 2 < 2 := Nat.mod_lt _ (by decide)
  simp only [tc_bundle.slot, tc_bundle_slot.size, MapName.value_size, tc_bundle.size] at hf ⊢
  omega

theorem enforce_verified (hK : K.lock = none) (b : Build) (teid ihl t : Nat) :
    Obeys verifier Unlocked K (tc_enforce b teid ihl t) := by
  rw [tc_enforce, lookup_bind]
  refine verified_lookup hK (verified_verdict hK) fun sess K₁ hm hs hg₁ => ?_
  have hK₁ := hg₁.lock.trans hK
  refine verified_read (Known.valid hm hs (by decide)) fun pdr_id => ?_
  refine verified_lookup hK₁ (verified_verdict hK₁) fun bundle K₂ hm₂ hb hg₂ => ?_
  have hK₂ := hg₂.lock.trans hK₁
  refine verified_read (Known.valid hm₂ hb (by decide)) fun active => ?_
  refine verified_read (Known.valid hm₂ hb ⟨slot_field active (by decide), by decide⟩) fun far_id => ?_
  refine verified_lookup hK₂ (verified_verdict hK₂) fun far K₃ hm₃ hf hg₃ => ?_
  have hK₃ := hg₃.lock.trans hK₂
  have sess_field : K₃.Valid sess session_val.pdr_id 4 := Known.valid hm (hg₃.held (hg₂.held hs)) (by decide)
  have slot : ∀ {f : Nat}, f + 4 ≤ tc_bundle_slot.size → K₃.Valid bundle (tc_bundle.slot (active % 2) + f) 4 :=
    fun h => Known.valid hm₂ (hg₃.held hb) ⟨slot_field active h, by decide⟩
  have action : K₃.Valid far far_val.action 4 := Known.valid hm₃ hf (by decide)
  refine verified_read action fun _ => .ite (fun _ => verified_verdict hK₃) fun _ => ?_
  refine verified_read action fun _ => .ite (fun _ => ?_) fun _ => ?_
  · refine verified_read sess_field fun _ => verified_read (slot (by decide)) fun _ => verified_len fun n => ?_
    exact verified_clock hK₃ fun _ => verified_event hK₃ (verified_verdict hK₃)
  · refine verified_read (slot (by decide)) fun _ => verified_read (slot (by decide)) fun _ => ?_
    refine verified_read (slot (by decide)) fun _ => verified_read sess_field fun _ => ?_
    exact verified_read (slot (by decide)) fun _ => far_forward_verified hK₃ b _ _ _ _ _ _ _

theorem ingress_verified (b : Build) : Obeys verifier Unlocked .start (upf_tc_ingress b) := by
  rw [upf_tc_ingress]
  refine (entry_verified rfl b).bind fun t K hg => ?_
  have hK : K.lock = none := hg.lock
  rw [data_end_bind]
  refine verified_data_end fun e => .ite (fun _ => hK) fun h₁ => ?_
  simp only [ethhdr.h_proto, ethhdr.size, not_lt] at h₁ ⊢
  refine verified_load rfl (by omega) fun proto => .ite (fun _ => hK) fun _ => .ite (fun _ => hK) fun h₂ => ?_
  simp only [iphdr.size, not_lt] at h₂
  refine verified_load rfl (by simp only [iphdr.protocol]; omega) fun proto => .ite (fun _ => hK) fun _ => ?_
  refine verified_load rfl (by simp only [iphdr.ihl]; omega) fun ihl => .ite (fun _ => hK) fun _ => ?_
  refine .ite (fun _ => hK) fun h₃ => ?_
  simp only [udphdr.size, not_lt] at h₃ ⊢
  refine verified_load rfl (by simp only [udphdr.dest]; omega) fun dest => .ite (fun _ => hK) fun _ => ?_
  refine .ite (fun _ => hK) fun h₄ => ?_
  simp only [not_lt] at h₄
  refine verified_load rfl (by omega) fun type => .ite (fun _ => hK) fun _ => ?_
  refine verified_load rfl (by omega) fun teid_be => ?_
  exact enforce_verified (K := ⟨some e, K.held, K.lock⟩) hK b _ _ _

end Ingress

/-! ## TC egress -/

section Egress

variable {K : Known} {e : Nat}

theorem checksum20_verified (hb : K.bytes = some e) {hdr : Nat} (h : hdr + 20 ≤ e) :
    PartVerified K (ip_checksum20 hdr) := by
  have hw : ∀ (ws : List Nat) (sum : Nat), (∀ i ∈ ws, i < 10) →
      PartVerified K (ws.foldlM (fun sum i => do return sum + (← load (hdr + 2 * i) 2)) sum : Bpf Ptr Nat) := by
    intro ws
    induction ws with
    | nil => exact fun _ _ => .refl K
    | cons i ws ih =>
      intro sum hi
      have := hi i List.mem_cons_self
      rw [List.foldlM_cons]
      exact verified_load hb (by omega) fun v => ih _ fun j hj => hi j (List.mem_cons_of_mem _ hj)
  exact (hw _ 0 fun i => List.mem_range.mp).bind fun _ _ h => h

theorem write_outer_verified (hK : K.lock = none) (hb : K.bytes = some e) (h : 50 ≤ e) {ue : Ptr}
    (hu : ue.map = .dl_ue_map) (hm : ue ∈ K.held) (n3 : Nat) : Obeys verifier Unlocked K (write_outer ue n3) := by
  have load : ∀ {K : Known} {off n : Nat} {k : Nat → Bpf Ptr Int}, K.bytes = some e → off + n ≤ 50 →
      (∀ v, Obeys verifier Unlocked K (k v)) → Obeys verifier Unlocked K (.ask (.load off n) k) :=
    fun hb h' => verified_load hb (h'.trans h)
  have store : ∀ {K : Known} {off w x : Nat} {k : Unit → Bpf Ptr Int}, K.bytes = some e → off + w ≤ 50 →
      Obeys verifier Unlocked K (k ()) → Obeys verifier Unlocked K (.ask (.store off (toLE w x)) k) :=
    fun hb h' => verified_store hb (by rw [length_toLE]; exact h'.trans h)
  rw [write_outer, skb_len_bind]
  refine verified_len fun n => ?_
  refine load hb (by decide) fun _ => store hb (by decide) (load hb (by decide) fun _ => store hb (by decide) ?_)
  refine store hb (by decide) (store hb (by decide) (store hb (by decide) (store hb (by decide) ?_)))
  refine store hb (by decide) (store hb (by decide) (store hb (by decide) (store hb (by decide) ?_)))
  refine verified_read (Known.valid hu hm (by decide)) fun _ => store hb (by decide) ?_
  refine (checksum20_verified hb (by simp only [ethhdr.size]; omega)).bind fun _ K' hg => ?_
  have hb := hg.bytes.trans hb
  refine store hb (by decide) (store hb (by decide) (store hb (by decide) (store hb (by decide) ?_)))
  refine store hb (by decide) (store hb (by decide) (store hb (by decide) (store hb (by decide) ?_)))
  exact verified_read (Known.valid hu (hg.held hm) (by decide)) fun _ => store hb (by decide) (hg.lock.trans hK)

theorem add_outer_verified (hK : K.lock = none) {ue : Ptr} (hu : ue.map = .dl_ue_map) (hm : ue ∈ K.held) (n3 : Nat) :
    Obeys verifier Unlocked K (add_outer ue n3) := by
  rw [add_outer, adjust_room_bind]
  refine ⟨hK, fun ret _ => ?_⟩
  change Obeys verifier Unlocked { K with bytes := none } _
  refine .ite (fun _ => verified_verdict hK) fun _ => verified_data_end fun e => ?_
  refine .ite (fun _ => verified_verdict hK) fun _ => .ite (fun _ => verified_verdict hK) fun _ => ?_
  refine .ite (fun _ => verified_verdict hK) fun _ => .ite (fun _ => verified_verdict hK) fun h => ?_
  exact write_outer_verified (K := ⟨some e, K.held, K.lock⟩) hK rfl (not_lt.mp h) hu hm n3

theorem encap_verified (hK : K.lock = none) (dst_ip : Nat) : Obeys verifier Unlocked K (tc_encap dst_ip) := by
  rw [tc_encap, lookup_bind]
  refine verified_lookup hK (verified_verdict hK) fun ue K₁ hm hu hg₁ => ?_
  have hK₁ := hg₁.lock.trans hK
  refine verified_bump hK₁ (verified_lookup hK₁ (add_outer_verified hK₁ hm hu 0) fun cfg K₂ hc hf hg₂ => ?_)
  exact verified_read (Known.valid hc hf (by decide)) fun n3 =>
    add_outer_verified (hg₂.lock.trans hK₁) hm (hg₂.held hu) n3

theorem already_gtpu_verified (hb : K.bytes = some e) {ip : Nat} (h : ip + 20 ≤ e) :
    PartVerified K (already_gtpu ip e) := by
  rw [already_gtpu, load_bind]
  refine verified_load hb (by simp only [iphdr.protocol]; omega) fun _ => .ite (fun _ => ?_) fun _ => .refl K
  refine verified_load hb (by simp only [iphdr.ihl]; omega) fun _ => .ite (fun h' => ?_) fun _ => .refl K
  simp only [udphdr.size] at h'
  exact verified_load hb (by simp only [udphdr.dest]; omega) fun _ => .ite (fun _ => .refl K) fun _ => .refl K

theorem egress_verified : Obeys verifier Unlocked .start upf_tc_egress := by
  rw [upf_tc_egress, data_end_bind]
  refine verified_data_end fun e => .ite (fun _ => rfl) fun h₁ => ?_
  simp only [ethhdr.h_proto, ethhdr.size, not_lt] at h₁ ⊢
  refine verified_load rfl (by omega) fun proto => .ite (fun _ => rfl) fun _ => .ite (fun _ => rfl) fun h₂ => ?_
  simp only [iphdr.size, not_lt] at h₂
  refine (already_gtpu_verified rfl (by omega)).bind fun r K hg => .ite (fun _ => hg.lock) fun _ => ?_
  exact verified_load hg.bytes (by simp only [iphdr.daddr]; omega) fun dst_ip => encap_verified hg.lock dst_ip

end Egress

theorem programme_verified (p : Programme) : Obeys verifier Unlocked .start p.prog := by
  cases p with
  | xdp => exact xdp_verified
  | ingress b => exact ingress_verified b
  | egress => exact egress_verified

/-- Whatever a programme is answered, it has performed allowed operations only, and when
it comes to its verdict it holds no lock. -/
theorem programmes_verified (p : Programme) {l : Log (BpfOps Ptr)} {q : Bpf Ptr Int} (hl : Performs p.prog l q)
    (ha : AtEach (fun pre e => verifier.Possible (verifier.after .start pre) e.1 e.2) l) :
    AtEach (verifier.Step .start) l ∧ ∀ v, q = .ret v → (verifier.after .start l).lock = none := by
  have hk := (programme_verified p).kept hl ha
  refine ⟨hk.past, fun v hv => ?_⟩
  have hr := hk.rest
  rw [hv] at hr
  exact hr

theorem ptr_of {s : Maps} {m : MapName} {key : Nat} {p : Ptr} (h : s.ptr m key = some p) : p.Of m key := by
  by_cases hm : m.datapath = true
  · rcases ptr_elem hm s key with h' | h' <;> rw [h'] at h <;> cases h
    exact ⟨rfl, rfl, hm⟩
  · have hm : m.datapath = false := Bool.eq_false_of_not_eq_true hm
    rw [ptr_value hm] at h
    obtain ⟨v, -, rfl⟩ := Option.map_eq_some_iff.mp h
    exact ⟨rfl, hm⟩

/-- What the kernel answers is possible. -/
theorem kernel_known {H : Helpers} {o : Op Ptr} {r : Op.Ans o} {x x' : Machine} (h : kernel H o x = some (r, x'))
    (K : Known) : K.Possible o r := by
  cases o with
  | lookup m key =>
    cases h
    exact fun p hp => ptr_of hp
  | _ => exact trivial

/-- A FAR that forwards, a QER with a rate, and a session of theirs. -/
def metered : Option Maps := do
  let s ← after (install_far 1 FAR_FORWARD 5 0 0) .empty
  let s ← after (install_qer 1 8000 0 1000) s
  after (install_session 0x1000 1 1 1 32 1) s

/-- The first packet of the session in the shared build, which makes the bucket, and takes its lock. -/
theorem programmes_verified_locked : ∃ s l v, metered = some s ∧
    Performs (Programme.ingress ⟨true, true, true⟩).prog l (.ret v) ∧
    Op.spin_lock (.elem .qer_state_shared 1) ∈ l.map Sigma.fst ∧ AtEach (verifier.Step .start) l ∧
    (verifier.after .start l).lock = none := by
  have h : (metered.bind fun s =>
      ((upf_tc_ingress ⟨true, true, true⟩).run (kernel willing) ⟨s, 0, gpduFrame 0x1000, 0⟩).map fun x =>
        (x.1, (upf_tc_ingress ⟨true, true, true⟩).trace (kernel willing) ⟨s, 0, gpduFrame 0x1000, 0⟩ |>.contains
          (.spin_lock (.elem .qer_state_shared 1)))) = some (7, true) := by
    decide +kernel
  obtain ⟨s, hs, h⟩ := Option.bind_eq_some_iff.mp h
  obtain ⟨⟨v, x⟩, hx, h⟩ := Option.map_eq_some_iff.mp h
  obtain ⟨-, hlock⟩ := Prod.mk.inj h
  obtain ⟨l, hl, ht, ha⟩ := exists_performs (kernel willing) hx
  have hv := programmes_verified (.ingress ⟨true, true, true⟩) hl fun pre e post heq => by
    obtain ⟨x₁, x₂, he⟩ := ha e (heq ▸ List.mem_append_right _ List.mem_cons_self)
    exact kernel_known he (verifier.after .start pre)
  exact ⟨s, l, v, hs, hl, ht ▸ List.contains_iff_mem.mp hlock, hv.1, hv.2 v rfl⟩

end UPF
