import EbpfUpf.Proof.Egress
import EbpfUpf.Proof.Meter
import EbpfUpf.Spec.Ledger

/-!
# What a visit counts

Each programme is followed through all its exits, whatever a lookup finds:
`Noted` says which of the operations that the ledger is about a run performs,
with which verdict, and what becomes of the frame. `XdpEntry`, `IngressEntry`
and `EgressEntry` list the exits, and `visit_entry` says that each visit comes
to one of them.
-/

open Framework

namespace UPF

/-- The session lookup, and the counters that the ledger is about. -/
def noted : Op Ptr → Bool
  | .bump idx => idx ≠ .M_TC_URR_UPDATED
  | .lookup m _ => m = .teid_session
  | _ => false

variable {H : Helpers} {env : Nat → Maps}

theorem amid_ok {o : Op Ptr} {x : Machine × Nat} {r : Op.Ans o} {s' : Machine}
    (e : kernel H o (amidst env x) = some (r, s')) : kernelAmid H env o x = some (r, s', x.2 + 1) := by
  rw [kernelAmid, e]
  rfl

/-- From every state with the frame `f`, the run comes to its end, and what is
noted, the verdict and the frame left meet `Post`. -/
def Noted (H : Helpers) (env : Nat → Maps) (p : Bpf Ptr Int) (f : Bytes)
    (Post : List (Op Ptr) → Int → Bytes → Prop) : Prop :=
  ∀ x : Machine × Nat, x.1.frame = f → ∃ a x', p.run (kernelAmid H env) x = some (a, x') ∧
    Post ((p.trace (kernelAmid H env) x).filter noted) a x'.1.frame

namespace Noted

variable {f f' : Bytes} {Post : List (Op Ptr) → Int → Bytes → Prop}

theorem ret {v : Int} (h : Post [] v f) : Noted H env (.ret v) f Post := by
  rintro x rfl
  exact ⟨v, x, rfl, h⟩

theorem hidden {o : Op Ptr} {k : Op.Ans o → Bpf Ptr Int} (ho : noted o = false)
    (h : ∀ s, s.frame = f → ∃ r s' f', kernel H o s = some (r, s') ∧ s'.frame = f' ∧ Noted H env (k r) f' Post) :
    Noted H env (.ask o k) f Post := by
  intro x hx
  obtain ⟨r, s', f', e, hf, hk⟩ := h (amidst env x) hx
  obtain ⟨a, x', hr, hp⟩ := hk (s', x.2 + 1) hf
  refine ⟨a, x', by rw [Prog.run_ask _ (amid_ok e), hr], ?_⟩
  rw [Prog.trace_ask _ (amid_ok e), List.filter_cons_of_neg (by simp [ho])]
  exact hp

theorem seen {o : Op Ptr} {k : Op.Ans o → Bpf Ptr Int} (ho : noted o = true)
    (h : ∀ s, s.frame = f → ∃ r s', kernel H o s = some (r, s') ∧ s'.frame = f ∧
      Noted H env (k r) f fun ops a f' => Post (o :: ops) a f') :
    Noted H env (.ask o k) f Post := by
  intro x hx
  obtain ⟨r, s', e, hf, hk⟩ := h (amidst env x) hx
  obtain ⟨a, x', hr, hp⟩ := hk (s', x.2 + 1) hf
  refine ⟨a, x', by rw [Prog.run_ask _ (amid_ok e), hr], ?_⟩
  rw [Prog.trace_ask _ (amid_ok e), List.filter_cons_of_pos ho]
  exact hp

theorem load {off n : Nat} {k : Nat → Bpf Ptr Int} (h : off + n ≤ f.length)
    (hk : Noted H env (k (f.get off n)) f Post) : Noted H env (.ask (.load off n) k) f Post := by
  refine hidden rfl fun s hs => ⟨f.get off n, s, f, ?_, hs, hk⟩
  simp only [kernel, hs, h, ite_true]

theorem data_end {k : Nat → Bpf Ptr Int} (hk : Noted H env (k f.length) f Post) :
    Noted H env (.ask .data_end k) f Post :=
  hidden rfl fun s hs => ⟨f.length, s, f, by simp only [kernel, hs], hs, hk⟩

theorem len {k : Nat → Bpf Ptr Int} (hk : Noted H env (k f.length) f Post) : Noted H env (.ask .len k) f Post :=
  hidden rfl fun s hs => ⟨f.length, s, f, by simp only [kernel, hs], hs, hk⟩

theorem bump {idx : Metric} {k : Unit → Bpf Ptr Int} (hi : idx ≠ .M_TC_URR_UPDATED)
    (hk : Noted H env (k ()) f fun ops a f' => Post (.bump idx :: ops) a f') :
    Noted H env (.ask (.bump idx) k) f Post :=
  seen (by simpa [noted] using hi) fun s hs => ⟨(), _, rfl, hs, hk⟩

/-- A lookup in a map that the control plane writes finds some value or none. -/
theorem lookup {m : MapName} {key : Nat} {k : Option Ptr → Bpf Ptr Int} (hm : m.datapath = false)
    (hn : m ≠ .teid_session) (h₀ : Noted H env (k none) f Post) (hk : ∀ v, Noted H env (k (some (.value m v))) f Post) :
    Noted H env (.ask (.lookup m key) k) f Post := by
  refine hidden (by simpa [noted] using hn) fun s hs => ⟨_, s, f, kernel_lookup hm H s key, hs, ?_⟩
  cases s.maps.lookup m key with
  | none => exact h₀
  | some v => exact hk v

theorem session {key : Nat} {k : Option Ptr → Bpf Ptr Int}
    (h₀ : Noted H env (k none) f fun ops a f' => Post (.lookup .teid_session key :: ops) a f')
    (hk : ∀ v, Noted H env (k (some (.value .teid_session v))) f fun ops a f' =>
      Post (.lookup .teid_session key :: ops) a f') : Noted H env (.ask (.lookup .teid_session key) k) f Post := by
  refine seen rfl fun s hs => ⟨_, s, kernel_lookup rfl H s key, hs, ?_⟩
  cases s.maps.lookup .teid_session key with
  | none => exact h₀
  | some v => exact hk v

theorem read {m : MapName} {v : Bytes} {off n : Nat} {k : Nat → Bpf Ptr Int}
    (hk : Noted H env (k (v.get off n)) f Post) : Noted H env (.ask (.read (.value m v) off n) k) f Post :=
  hidden rfl fun s hs => ⟨_, s, f, rfl, hs, hk⟩

theorem adjust_room {d : Int} {mode flags : Nat} {k : Int → Bpf Ptr Int}
    (herr : H.adjust_room d < 0 → Noted H env (k (H.adjust_room d)) f Post)
    (hok : ¬ H.adjust_room d < 0 → Noted H env (k (H.adjust_room d)) (resize f H.room d) Post) :
    Noted H env (.ask (.adjust_room d mode flags) k) f Post := by
  refine hidden rfl fun s hs => ?_
  by_cases h : H.adjust_room d < 0
  · exact ⟨_, s, f, adjust_room_err h s mode flags, hs, herr h⟩
  · exact ⟨_, _, _, adjust_room_ok h s mode flags, by rw [← hs], hok h⟩

theorem redirect {ifindex flags : Nat} {k : Int → Bpf Ptr Int} (hk : Noted H env (k (H.redirect ifindex)) f Post) :
    Noted H env (.ask (.redirect ifindex flags) k) f Post :=
  hidden rfl fun s hs => ⟨_, s, f, rfl, hs, hk⟩

theorem event {data : Bytes} {k : Unit → Bpf Ptr Int} (hk : Noted H env (k ()) f Post) :
    Noted H env (.ask (.perf_event_output data) k) f Post :=
  hidden rfl fun s hs => ⟨(), s, f, rfl, hs, hk⟩

theorem clock {k : Nat → Bpf Ptr Int} (hk : ∀ t, Noted H env (k t) f Post) :
    Noted H env (.ask .ktime_get_ns k) f Post :=
  hidden rfl fun _ hs => ⟨_, _, f, rfl, hs, hk _⟩

theorem ite {c : Prop} [Decidable c] {p q : Bpf Ptr Int} (hp : c → Noted H env p f Post)
    (hq : ¬ c → Noted H env q f Post) : Noted H env (if c then p else q) f Post := by
  split
  · next h => exact hp h
  · next h => exact hq h

theorem side_unnoted {o : Op Ptr} (h : Side o) : noted o = false := by
  cases o with
  | lookup m k => rcases h with rfl | rfl | rfl | rfl <;> rfl
  | bump idx =>
    cases h
    rfl
  | load | store | adjust_room | redirect => cases h
  | _ => rfl

theorem side_frame {o : Op Ptr} {s s' : Machine} {r : Op.Ans o} (h : Side o) (e : kernel H o s = some (r, s')) :
    s'.frame = s.frame := by
  have := kernel_frame e
  cases o with
  | load | store | adjust_room | redirect => cases h
  | _ => exact this

/-- One of the helpers of the forward path, by induction on it. -/
theorem side {α : Type} {p : Bpf Ptr α} {g : α → Bpf Ptr Int} (hp : p.Total (kernel H) Side)
    (hg : ∀ a, Noted H env (g a) f Post) : Noted H env (p >>= g) f Post := by
  induction p with
  | ret a => exact hg a
  | ask o k ih =>
    refine hidden (side_unnoted hp.1) fun s hs => ?_
    obtain ⟨⟨r, s'⟩, e, ht⟩ := hp.2 s
    exact ⟨r, s', f, e, (side_frame hp.1 e).trans hs, ih r ht⟩

/-- An operation that has nothing to do with the maps. -/
def Packet : Op Ptr → Prop
  | .load .. | .store .. | .data_end | .len | .read (.value ..) .. => True
  | _ => False

theorem packet_same {o : Op Ptr} {s t s' : Machine} {r : Op.Ans o} (ho : Packet o) (ht : t.frame = s.frame)
    (e : kernel H o s = some (r, s')) : ∃ t', kernel H o t = some (r, t') ∧ t'.frame = s'.frame := by
  cases o with
  | load off n =>
    simp only [kernel] at e
    split at e
    · next h =>
      cases e
      exact ⟨t, by simp only [kernel, ht, h, ite_true], ht⟩
    · cases e
  | store off val =>
    simp only [kernel] at e
    split at e
    · next h =>
      cases e
      exact ⟨{ t with frame := s.frame.set off val }, by simp only [kernel, ht, h, ite_true], rfl⟩
    · cases e
  | data_end | len =>
    cases e
    exact ⟨t, by simp only [kernel, ht], ht⟩
  | read p off n =>
    cases p with
    | value m v =>
      cases e
      exact ⟨t, rfl, ht⟩
    | elem m key => cases ho
  | _ => cases ho

theorem packet_unnoted {o : Op Ptr} (h : Packet o) : noted o = false := by
  cases o with
  | bump | lookup => cases h
  | _ => rfl

/-- A run that has nothing to do with the maps goes as it does alone. -/
theorem packet {p : Bpf Ptr Int} {s s' : Machine} {a : Int} (hp : p.Asks Packet)
    (hr : p.run (kernel H) s = some (a, s')) (h : Post [] a s'.frame) : Noted H env p s.frame Post := by
  induction p generalizing s with
  | ret b =>
    cases hr
    exact ret h
  | ask o k ih =>
    rw [Prog.run] at hr
    split at hr
    · cases hr
    · next r s₁ e =>
      refine hidden (packet_unnoted hp.1) fun t ht => ?_
      obtain ⟨t', e', hf⟩ := packet_same hp.1 ht e
      exact ⟨r, t', s₁.frame, e', hf, ih r (hp.2 r) hr⟩

end Noted

/-! ## XDP -/

inductive XdpEntry (f : Bytes) : List (Op Ptr) → Int → Prop
  | malformed (h : ¬ TruncatedGtp f) : XdpEntry f [.bump .M_RX_TOTAL, .bump .M_DROP_PARSE] XDP_DROP
  | other : XdpEntry f [.bump .M_RX_TOTAL] XDP_PASS
  | nongtp : XdpEntry f [.bump .M_RX_TOTAL, .bump .M_PASS_NONGTP] XDP_PASS
  | truncated (h : TruncatedGtp f) :
    XdpEntry f [.bump .M_RX_TOTAL, .bump .M_RX_GTPU, .bump .M_DROP_PARSE] XDP_DROP
  | ctrl : XdpEntry f [.bump .M_RX_TOTAL, .bump .M_RX_GTPU, .bump .M_PASS_CTRL] XDP_PASS
  | miss (h : ¬ TruncatedGtp f) (teid : Nat) (idx : Metric) (hi : idx = .M_MISS_TEID ∨ idx = .M_MISS_PDR) :
    XdpEntry f [.bump .M_RX_TOTAL, .bump .M_RX_GTPU, .bump .M_RX_GPDU, .lookup .teid_session teid, .bump idx] XDP_DROP
  | hit (teid : Nat) : XdpEntry f [.bump .M_RX_TOTAL, .bump .M_RX_GTPU, .bump .M_RX_GPDU,
      .lookup .teid_session teid, .bump .M_HIT] XDP_PASS

/-- From the session lookup on. -/
theorem classify_noted {f : Bytes} (h : ¬ TruncatedGtp f) (teid : Nat) : Noted H env (xdp_classify teid) f
    fun ops a _ => XdpEntry f (.bump .M_RX_TOTAL :: .bump .M_RX_GTPU :: .bump .M_RX_GPDU :: ops) a := by
  rw [xdp_classify, lookup_bind]
  refine .session (.bump (by decide) (.ret (.miss h teid _ (.inl rfl)))) fun sess => ?_
  simp only [read_bind, lookup_bind]
  refine .read (.lookup rfl (by decide) ?_ fun pdr => ?_)
  · exact .bump (by decide) (.ret (.miss h teid _ (.inr rfl)))
  · exact .bump (by decide) (.ret (.hit teid))

/-- As the parser goes, with what it learns of the frame. -/
theorem xdp_noted (f : Bytes) : Noted H env upf_xdp_uplink f fun ops a _ => XdpEntry f ops a := by
  unfold upf_xdp_uplink
  simp only [data_end_bind, bump_bind, load_bind, Prog.pure_eq, Nat.zero_add, Nat.reduceAdd, ethhdr.size,
    ethhdr.h_proto, iphdr.size, iphdr.protocol, iphdr.ihl, udphdr.size, udphdr.dest, Nat.add_zero]
  refine .data_end (.bump (by decide) (.ite (fun h1 => ?_) fun h1 => ?_))
  · exact .bump (by decide) (.ret (.malformed fun g => by have := g.l4; omega))
  refine .load (by omega) (.ite (fun h2 => .ret .other) fun h2 => .ite (fun h3 => ?_) fun h3 => ?_)
  · exact .bump (by decide) (.ret (.malformed fun g => by have := g.l4; have := g.ihl; omega))
  refine .load (by omega) (.ite (fun h4 => .ret .other) fun h4 => .load (by omega) (.ite (fun h5 => ?_) fun h5 => ?_))
  · exact .bump (by decide) (.ret (.malformed fun g => absurd g.ihl (Nat.not_le.mpr h5)))
  refine .ite (fun h6 => ?_) fun h6 => .load (by omega) (.ite (fun h7 => ?_) fun h7 => ?_)
  · exact .bump (by decide) (.ret (.malformed fun g => absurd g.l4 (Nat.not_le.mpr h6)))
  · exact .bump (by decide) (.ret .nongtp)
  refine .bump (by decide) (.ite (fun h8 => ?_) fun h8 => ?_)
  · refine .bump (by decide) (.ret (.truncated ?_))
    exact ⟨not_not.mp h2, not_not.mp h4, Nat.not_lt.mp h5, Nat.not_lt.mp h6, not_not.mp h7, h8⟩
  have hg : ¬ TruncatedGtp f := fun g => h8 g.gtp
  refine .load (by omega) (.load (by omega) (.load (by omega) (.ite (fun h9 => ?_) fun h9 => ?_)))
  · exact .bump (by decide) (.ret .ctrl)
  · exact .bump (by decide) (classify_noted hg _)

/-! ## TC ingress -/

inductive IngressEntry (H : Helpers) : List (Op Ptr) → Int → Prop
  | passed : IngressEntry H [] TC_ACT_OK_X
  | missed (teid : Nat) : IngressEntry H [.lookup .teid_session teid, .bump .M_TC_MISS_FAR] TC_ACT_OK_X
  | shot (teid : Nat) (idx : Metric)
    (hi : idx ∈ [Metric.M_TC_FAR_DROP, .M_TC_FAR_BUFFER, .M_TC_DECAP_ERR, .M_TC_QER_DROP]) :
    IngressEntry H [.lookup .teid_session teid, .bump idx] TC_ACT_SHOT_X
  | forwarded (teid ifindex : Nat) : IngressEntry H ([.lookup .teid_session teid, .bump .M_TC_QER_PASS,
      .bump .M_TC_FAR_FORWARD] ++ if H.redirect ifindex ≠ TC_ACT_REDIRECT_X then [.bump .M_TC_REDIRECT_ERR] else [])
    (H.redirect ifindex)

theorem forward_noted (b : Build) (far_id qer_id urr_id pdr_id generation n t teid : Nat) (f : Bytes) :
    Noted H env (upf_far_forward b far_id qer_id urr_id pdr_id generation n t) f
      fun ops a _ => IngressEntry H (.lookup .teid_session teid :: ops) a := by
  rw [upf_far_forward, adjust_room_bind]
  refine .adjust_room (fun hd => ?_) fun hd => ?_
  · rw [if_pos hd]
    exact .bump (by decide) (.ret (.shot teid _ (by decide)))
  rw [if_neg hd, lookup_bind]
  refine .lookup rfl (by decide) (.bump (by decide) (.ret (.shot teid _ (by decide)))) fun far => ?_
  dsimp only
  rw [skb_len_bind]
  refine .len (.side (admit_total b _ _) fun admitted => ?_)
  cases admitted with
  | false => exact .bump (by decide) (.ret (.shot teid _ (by decide)))
  | true =>
    rw [if_neg (by decide), bump_bind]
    refine .bump (by decide) ?_
    refine .side (urr_total urr_id _) fun _ => .side (decision_total b _ _ _ _) fun _ => ?_
    refine .side (latency_total b _ _) fun _ => .bump (by decide) ?_
    simp only [read_bind, redirect_bind]
    refine .read (.redirect ?_)
    have hf := IngressEntry.forwarded (H := H) teid (far.get far_val.out_ifindex 4)
    split
    · next hr =>
      rw [if_pos hr] at hf
      exact .bump (by decide) (.ret hf)
    · next hr =>
      rw [if_neg hr] at hf
      exact .ret hf

theorem enforce_noted (b : Build) (teid ihl t : Nat) (f : Bytes) :
    Noted H env (tc_enforce b teid ihl t) f fun ops a _ => IngressEntry H ops a := by
  rw [tc_enforce, lookup_bind]
  refine .session (.bump (by decide) (.ret (.missed teid))) fun sess => ?_
  simp only [read_bind, lookup_bind]
  refine .read (.lookup rfl (by decide) (.bump (by decide) (.ret (.missed teid))) fun bundle => ?_)
  refine .read (.read (.lookup rfl (by decide) (.bump (by decide) (.ret (.missed teid))) fun far => ?_))
  refine .read (.ite (fun hd => .bump (by decide) (.ret (.shot teid _ (by decide)))) fun hd => ?_)
  refine .read (.ite (fun hb => ?_) fun hb => ?_)
  · refine .read (.read (.len (.clock fun ts => .event ?_)))
    exact .bump (by decide) (.ret (.shot teid _ (by decide)))
  · exact .read (.read (.read (.read (.read (forward_noted b _ _ _ _ _ _ _ teid f)))))

/-- The parser counts nothing. -/
theorem ingress_noted (b : Build) (f : Bytes) :
    Noted H env (upf_tc_ingress b) f fun ops a _ => IngressEntry H ops a := by
  have ht : (entry_time b : Bpf Ptr Nat).Total (kernel H) Side :=
    .ite (.ask trivial fun _ => ⟨_, rfl, trivial⟩) trivial
  unfold upf_tc_ingress
  refine .side ht fun t_entry => ?_
  simp only [data_end_bind, load_bind, Prog.pure_eq, Nat.zero_add, Nat.reduceAdd, ethhdr.size,
    ethhdr.h_proto, iphdr.size, iphdr.protocol, iphdr.ihl, udphdr.size, udphdr.dest, Nat.add_zero]
  refine .data_end (.ite (fun _ => .ret .passed) fun h1 => .load (by omega) ?_)
  refine .ite (fun _ => .ret .passed) fun _ => .ite (fun _ => .ret .passed) fun h3 => .load (by omega) ?_
  refine .ite (fun _ => .ret .passed) fun _ => .load (by omega) (.ite (fun _ => .ret .passed) fun _ => ?_)
  refine .ite (fun _ => .ret .passed) fun h6 => .load (by omega) (.ite (fun _ => .ret .passed) fun _ => ?_)
  refine .ite (fun _ => .ret .passed) fun h8 => .load (by omega) (.ite (fun _ => .ret .passed) fun _ => ?_)
  exact .load (by omega) (enforce_noted b _ _ _ f)

/-! ## TC egress -/

inductive EgressEntry (f : Bytes) : List (Op Ptr) → Int → Bytes → Prop
  | passed : EgressEntry f [] TC_ACT_OK_X f
  | missed : EgressEntry f [.bump .M_TC_DL_MISS] TC_ACT_OK_X f
  | failed (f' : Bytes) : EgressEntry f [.bump .M_TC_DL_HIT, .bump .M_TC_DL_ENCAP_ERR] TC_ACT_SHOT_X f'
  | encapped (hl : 34 ≤ f.length) (src dst teid_be : Nat) (hs : src < 2 ^ 32) (hd : dst < 2 ^ 32)
    (ht : teid_be < 2 ^ 32) :
    EgressEntry f [.bump .M_TC_DL_HIT] TC_ACT_OK_X (encapped f src dst teid_be)

theorem checksum_asks (hdr : Nat) : (ip_checksum20 hdr : Bpf Ptr Nat).Asks Noted.Packet := by
  have hsum : ∀ (is : List Nat) (z : Nat), (is.foldlM (fun sum i => do return sum + (← load (hdr + 2 * i) 2)) z :
      Bpf Ptr Nat).Asks Noted.Packet := by
    intro is
    induction is with
    | nil => exact fun _ => trivial
    | cons i is ih => exact fun z => ⟨trivial, fun w => ih _⟩
  exact (hsum _ 0).bind fun _ => trivial

theorem write_asks (ue : Bytes) (src : Nat) : (write_outer (.value .dl_ue_map ue) src).Asks Noted.Packet := by
  unfold write_outer
  simp only [skb_len_bind, load_bind, store_bind, read_bind]
  refine ⟨trivial, fun n => ⟨trivial, fun w => ⟨trivial, fun _ => ⟨trivial, fun w' => ⟨trivial, fun _ => ?_⟩⟩⟩⟩⟩
  iterate 8 refine ⟨trivial, fun _ => ?_⟩
  refine ⟨trivial, fun dst => ⟨trivial, fun _ => (checksum_asks _).bind fun check => ?_⟩⟩
  iterate 8 refine ⟨trivial, fun _ => ?_⟩
  exact ⟨trivial, fun teid_be => ⟨trivial, fun _ => trivial⟩⟩

/-- The outer headers are written as if nothing changed. -/
theorem outer_noted {f ue : Bytes} {src : Nat} (hl : 34 ≤ f.length) (hs : src < 2 ^ 32) :
    Noted H env (add_outer (.value .dl_ue_map ue) src) f fun ops a f' =>
      EgressEntry f (.bump .M_TC_DL_HIT :: ops) a f' := by
  have hroom : ((List.range 36).map H.room).length = 36 := by simp
  have hg := length_grown hl hroom
  rw [add_outer, adjust_room_bind]
  refine .adjust_room (fun hd => ?_) fun hd => ?_
  · rw [if_pos hd]
    exact .bump (by decide) (.ret (.failed f))
  rw [if_neg hd, data_end_bind]
  refine .data_end ?_
  have hr : resize f H.room (iphdr.size + udphdr.size + 8 : Nat) =
      f.take 14 ++ (List.range 36).map H.room ++ f.drop 14 := resize_grow f H.room
  rw [hr, hg, if_neg (by simp only [ethhdr.size]; omega), if_neg (by simp only [ethhdr.size, iphdr.size]; omega),
    if_neg (by simp only [ethhdr.size, iphdr.size, udphdr.size]; omega),
    if_neg (by simp only [ethhdr.size, iphdr.size, udphdr.size]; omega)]
  have hrun := write_outer_run (H := H)
    (s := ⟨.empty, 0, f.take 14 ++ (List.range 36).map H.room ++ f.drop 14, 0⟩) ue rfl
    (by rw [List.length_take]; omega) hroom src
  refine Noted.packet (write_asks ue src) hrun ?_
  · rw [List.length_drop]
    exact .encapped hl src _ _ hs (Bytes.get_lt _ _ _) (Bytes.get_lt _ _ _)

theorem encap_noted {f : Bytes} (hl : 34 ≤ f.length) (dst_ip : Nat) :
    Noted H env (tc_encap dst_ip) f fun ops a f' => EgressEntry f ops a f' := by
  rw [tc_encap, lookup_bind]
  refine .lookup rfl (by decide) (.bump (by decide) (.ret .missed)) fun ue => ?_
  simp only [bump_bind, lookup_bind]
  refine .bump (by decide) (.lookup rfl (by decide) (outer_noted hl (by decide)) fun cfg => ?_)
  exact .read (outer_noted hl (Bytes.get_lt cfg 0 4))

theorem egress_noted (f : Bytes) : Noted H env upf_tc_egress f fun ops a f' => EgressEntry f ops a f' := by
  unfold upf_tc_egress already_gtpu
  simp only [data_end_bind, load_bind, Prog.ask_bind, Prog.ite_bind, Prog.pure_eq, Prog.ret_bind, Nat.zero_add,
    Nat.reduceAdd, ethhdr.size, ethhdr.h_proto, iphdr.size, iphdr.protocol, iphdr.ihl, iphdr.daddr, udphdr.size,
    udphdr.dest, Nat.add_zero]
  refine .data_end (.ite (fun _ => .ret .passed) fun h1 => .load (by omega) (.ite (fun _ => .ret .passed) fun _ => ?_))
  refine .ite (fun _ => .ret .passed) fun h3 => .load (by omega) ?_
  have hlook : Noted H env (if false = true then .ret TC_ACT_OK_X else
      .ask (.load 30 4) fun dst_ip => tc_encap dst_ip) f fun ops a f' => EgressEntry f ops a f' :=
    .load (by omega) (encap_noted (by omega) _)
  refine .ite (fun _ => .load (by omega) (.ite (fun h5 => .load ?_ (.ite (fun _ => .ret .passed) fun _ => hlook))
    fun _ => hlook)) fun _ => hlook
  omega

/-! ## Visits -/

/-- The exits of a visit, by its programme. -/
def VisitEntry (v : Visit) (ops : List (Op Ptr)) (a : Int) (f' : Bytes) : Prop :=
  match v.programme with
  | .xdp => XdpEntry v.wire ops a
  | .ingress _ => IngressEntry v.H ops a
  | .egress => EgressEntry v.wire ops a f'

theorem visit_entry (s : Maps) (v : Visit) : ∃ a x', v.run s = some (a, x') ∧
    VisitEntry v ((v.trace s).filter noted) a x'.1.frame := by
  obtain ⟨programme, H, env, cpu, wire⟩ := v
  cases programme with
  | xdp => exact xdp_noted wire (Visit.start _ s) rfl
  | ingress b => exact ingress_noted b wire (Visit.start _ s) rfl
  | egress => exact egress_noted wire (Visit.start _ s) rfl

theorem metrics_create {s s' : Maps} {m : MapName} {k cpu : Nat} {v : Bytes} (h : s.create m k cpu v = .ok s') :
    s'.metrics = s.metrics := by
  unfold Maps.create at h
  split at h
  · cases h
  · split at h
    · exact (Except.ok.inj h) ▸ rfl
    · cases h

/-- What an operation does to the counters. -/
theorem kernel_metrics {o : Op Ptr} {s s' : Machine} {r : Op.Ans o} (h : kernel H o s = some (r, s')) :
    s'.cpu = s.cpu ∧ s'.maps.metrics = (s.maps.countAll s.cpu (bumpOf o).toList).metrics := by
  cases o with
  | load off n | store off val =>
    simp only [kernel] at h
    split at h <;> cases h
    exact ⟨rfl, rfl⟩
  | write p off n val =>
    cases p with
    | value m v => cases h
    | elem m key =>
      simp only [kernel] at h
      split at h <;> cases h
      exact ⟨rfl, metrics_setElem _ _ _ _ _⟩
  | create m key val =>
    simp only [kernel] at h
    split at h
    · next maps hc =>
      cases h
      exact ⟨rfl, metrics_create hc⟩
    · cases h
      exact ⟨rfl, rfl⟩
  | adjust_room d mode flags =>
    simp only [kernel] at h
    split at h <;> cases h <;> exact ⟨rfl, rfl⟩
  | _ =>
    cases h
    exact ⟨rfl, rfl⟩

/-- What others do to the maps leaves the counters, by induction on the programme. -/
theorem amid_metrics {env : Nat → Maps} {p : Bpf Ptr Int} {x x' : Machine × Nat} {a : Int}
    (h : p.run (kernelAmid H env) x = some (a, x')) :
    x'.1.maps.metrics = (x.1.maps.countAll x.1.cpu ((p.trace (kernelAmid H env) x).filterMap bumpOf)).metrics := by
  induction p generalizing x with
  | ret b =>
    cases h
    rfl
  | ask o k ih =>
    rw [Prog.run] at h
    split at h
    · cases h
    · next r x₁ e =>
      rw [Prog.trace_ask _ e]
      obtain ⟨⟨r, s₁⟩, hk, he⟩ := Option.map_eq_some_iff.mp e
      cases he
      obtain ⟨hc, hm⟩ := kernel_metrics hk
      have hx : (amidst env x).maps.metrics = x.1.maps.metrics := rfl
      have hl : (o :: (k r).trace (kernelAmid H env) (s₁, x.2 + 1)).filterMap bumpOf =
          (bumpOf o).toList ++ ((k r).trace (kernelAmid H env) (s₁, x.2 + 1)).filterMap bumpOf := by
        rw [List.filterMap_cons]
        cases bumpOf o <;> rfl
      rw [hl, countAll_append, ih r h]
      dsimp only
      rw [hc]
      exact metrics_countAll (hm.trans (metrics_countAll hx _ _)) _ _

end UPF
