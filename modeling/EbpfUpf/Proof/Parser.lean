import EbpfUpf.Impl.Tc
import EbpfUpf.Impl.Xdp
import EbpfUpf.Proof.Kernel
import EbpfUpf.Spec.Gpdu

/-!
# The uplink parsers

Both programmes read the headers in their own order, with their own verdicts
on a malformed frame. `xdp_parses` and `tc_parses` follow each to its session
lookup if the frame is a G-PDU, and to a verdict if it is not; every
operation on the way is a `ParseOp`, which reads within the frame only.
-/

open Framework

namespace UPF

/-- What a parser does before the session lookup, on a frame of `n` bytes. -/
def ParseOp (n : Nat) (counts : Metric → Prop) : Op Ptr → Prop
  | .load off w => off + w ≤ n
  | .data_end | .ktime_get_ns => True
  | .bump idx => counts idx
  | _ => False

/-- The program comes to the session lookup, where `q` is left to do, if the
frame is a G-PDU, and to a verdict if it is not. What `V` says of the state, and
of the verdict if there is one, holds then. -/
def Parses (H : Helpers) (counts : Metric → Prop) (V : Int → Machine → Prop) (f : Bytes)
    (q p : Bpf Ptr Int) (s : Machine) : Prop :=
  ∃ v s', V v s' ∧
    Prog.Leads (kernel H) (ParseOp f.length counts) p s (if IsGpdu f then q else .ret v) s'

namespace Parses

variable {H : Helpers} {counts : Metric → Prop} {V : Int → Machine → Prop} {f : Bytes} {q : Bpf Ptr Int}
  {s s' : Machine}

theorem ask {o : Op Ptr} {k : Op.Ans o → Bpf Ptr Int} {r : Op.Ans o} (e : kernel H o s = some (r, s'))
    (ho : ParseOp f.length counts o) (hk : Parses H counts V f q (k r) s') :
    Parses H counts V f q (.ask o k) s := by
  obtain ⟨v, t, hv, hl⟩ := hk
  exact ⟨v, t, hv, .ask e ho hl⟩

theorem load {off n : Nat} {k : Nat → Bpf Ptr Int} (hs : s.frame = f) (h : off + n ≤ f.length)
    (hk : Parses H counts V f q (k (f.get off n)) s) : Parses H counts V f q (.ask (.load off n) k) s := by
  have e : kernel H (.load off n) s = some (f.get off n, s) := by simp only [kernel, hs, h, ite_true]
  exact ask e h hk

theorem verdict {v : Int} (h : ¬ IsGpdu f) (hv : V v s) : Parses H counts V f q (.ret v) s := by
  refine ⟨v, s, hv, ?_⟩
  rw [if_neg h]
  exact .refl _ _

theorem gpdu {v : Int} (h : IsGpdu f) (hv : V v s) : Parses H counts V f q q s := by
  refine ⟨v, s, hv, ?_⟩
  rw [if_pos h]
  exact .refl _ _

end Parses

/-! ## TC ingress -/

/-- The time of entry, if it is read. -/
def entryTime (b : Build) (H : Helpers) (s : Machine) : Nat :=
  if b.latency_events then H.ktime_get_ns s.ticks % 2 ^ 64 else 0

/-- The state after the time of entry is read, if it is. -/
def entered (b : Build) (s : Machine) : Machine :=
  { s with ticks := if b.latency_events then s.ticks + 1 else s.ticks }

theorem entry_parses {b : Build} {H : Helpers} {s : Machine} {counts : Metric → Prop}
    {V : Int → Machine → Prop} {f : Bytes} {q : Bpf Ptr Int} {k : Nat → Bpf Ptr Int}
    (hk : Parses H counts V f q (k (entryTime b H s)) (entered b s)) :
    Parses H counts V f q (entry_time b >>= k) s := by
  obtain ⟨_, _, _ | _⟩ := b
  · exact hk
  · exact .ask rfl trivial hk

theorem tc_parses (b : Build) (H : Helpers) (s : Machine) :
    Parses H (fun _ => False) (fun v s' => v = TC_ACT_OK_X ∧ s' = entered b s) s.frame
      (tc_enforce b (teidOf s.frame) (ihlBytes s.frame) (entryTime b H s)) (upf_tc_ingress b) s := by
  refine entry_parses ?_
  have hs : (entered b s).frame = s.frame := rfl
  generalize s.frame = f at hs ⊢
  simp only [data_end_bind, load_bind, Prog.pure_eq, Nat.zero_add, Nat.reduceAdd, ethhdr.size,
    ethhdr.h_proto, iphdr.size, iphdr.protocol, iphdr.ihl, udphdr.size, udphdr.dest, Nat.add_zero]
  refine .ask rfl trivial ?_
  rw [hs]
  split
  · next h => exact .verdict (fun g => absurd g.eth (Nat.not_le.mpr h)) ⟨rfl, rfl⟩
  next h1 =>
  refine .load hs (by omega) ?_
  split
  · next h => exact .verdict (fun g => h g.proto) ⟨rfl, rfl⟩
  next h2 =>
  split
  · next h => exact .verdict (fun g => absurd g.ip (Nat.not_le.mpr h)) ⟨rfl, rfl⟩
  next h3 =>
  refine .load hs (by omega) ?_
  split
  · next h => exact .verdict (fun g => h g.udp) ⟨rfl, rfl⟩
  next h4 =>
  refine .load hs (by omega) ?_
  split
  · next h => exact .verdict (fun g => absurd g.ihl (Nat.not_le.mpr h)) ⟨rfl, rfl⟩
  next h5 =>
  split
  · next h => exact .verdict (fun g => absurd g.l4 (Nat.not_le.mpr h)) ⟨rfl, rfl⟩
  next h6 =>
  refine .load hs (by omega) ?_
  split
  · next h => exact .verdict (fun g => h g.port) ⟨rfl, rfl⟩
  next h7 =>
  split
  · next h => exact .verdict (fun g => absurd g.gtp (Nat.not_le.mpr h)) ⟨rfl, rfl⟩
  next h8 =>
  refine .load hs (by omega) ?_
  split
  · next h => exact .verdict (fun g => h g.type) ⟨rfl, rfl⟩
  next h9 =>
  refine .load hs (by omega) ?_
  exact .gpdu ⟨Nat.not_lt.mp h1, not_not.mp h2, Nat.not_lt.mp h3, not_not.mp h4, Nat.not_lt.mp h5,
    Nat.not_lt.mp h6, not_not.mp h7, Nat.not_lt.mp h8, not_not.mp h9⟩ ⟨rfl, rfl⟩

/-! ## XDP -/

/-- The counters of the XDP programme's parser. -/
def XdpCount (idx : Metric) : Prop :=
  idx = .M_RX_TOTAL ∨ idx = .M_RX_GTPU ∨ idx = .M_RX_GPDU ∨ idx = .M_PASS_NONGTP ∨ idx = .M_PASS_CTRL ∨
    idx = .M_DROP_PARSE

theorem xdp_verdict {H : Helpers} {s : Machine} {f : Bytes} {q : Bpf Ptr Int} {idx : Metric} {v : Int}
    (hc : XdpCount idx) (h : ¬ IsGpdu f) :
    Parses H XdpCount (fun _ _ => True) f q (bump idx >>= fun _ => .ret v) s :=
  .ask rfl hc (.verdict h trivial)

theorem xdp_parses (H : Helpers) (s : Machine) :
    Parses H XdpCount (fun _ _ => True) s.frame (xdp_classify (teidOf s.frame)) upf_xdp_uplink s := by
  generalize hs : s.frame = f
  unfold upf_xdp_uplink
  simp only [data_end_bind, load_bind, Prog.pure_eq, Nat.zero_add, Nat.reduceAdd, ethhdr.size,
    ethhdr.h_proto, iphdr.size, iphdr.protocol, iphdr.ihl, udphdr.size, udphdr.dest, Nat.add_zero]
  refine .ask rfl trivial ?_
  rw [hs]
  refine .ask rfl (.inl rfl) ?_
  split
  · next h => exact xdp_verdict (by simp [XdpCount]) fun g => absurd g.eth (Nat.not_le.mpr h)
  next h1 =>
  refine .load hs (by omega) ?_
  split
  · next h => exact .verdict (fun g => h g.proto) trivial
  next h2 =>
  split
  · next h => exact xdp_verdict (by simp [XdpCount]) fun g => absurd g.ip (Nat.not_le.mpr h)
  next h3 =>
  refine .load hs (by omega) ?_
  split
  · next h => exact .verdict (fun g => h g.udp) trivial
  next h4 =>
  refine .load hs (by omega) ?_
  split
  · next h => exact xdp_verdict (by simp [XdpCount]) fun g => absurd g.ihl (Nat.not_le.mpr h)
  next h5 =>
  split
  · next h => exact xdp_verdict (by simp [XdpCount]) fun g => absurd g.l4 (Nat.not_le.mpr h)
  next h6 =>
  refine .load hs (by omega) ?_
  split
  · next h => exact xdp_verdict (by simp [XdpCount]) fun g => h g.port
  next h7 =>
  refine .ask rfl (by simp [ParseOp, XdpCount]) ?_
  split
  · next h => exact xdp_verdict (by simp [XdpCount]) fun g => absurd g.gtp (Nat.not_le.mpr h)
  next h8 =>
  refine .load hs (by omega) ?_
  refine .load hs (by omega) ?_
  refine .load hs (by omega) ?_
  split
  · next h => exact xdp_verdict (by simp [XdpCount]) fun g => h g.type
  next h9 =>
  refine .ask rfl (by simp [ParseOp, XdpCount]) ?_
  exact .gpdu ⟨Nat.not_lt.mp h1, not_not.mp h2, Nat.not_lt.mp h3, not_not.mp h4, Nat.not_lt.mp h5,
    Nat.not_lt.mp h6, not_not.mp h7, Nat.not_lt.mp h8, not_not.mp h9⟩ (v := 0) trivial

/-- XDP only reads, and counts what it has counters for. -/
def XdpOp : Op Ptr → Prop
  | .load .. | .data_end | .lookup .. | .read .. => True
  | .bump idx => XdpCount idx ∨ idx = .M_HIT ∨ idx = .M_MISS_TEID ∨ idx = .M_MISS_PDR
  | _ => False

theorem xdp_asks : (upf_xdp_uplink : Bpf Ptr Int).Asks XdpOp := by
  have ite : ∀ {c : Prop} [Decidable c] {p q : Bpf Ptr Int}, p.Asks XdpOp → q.Asks XdpOp →
      (if c then p else q).Asks XdpOp := fun hp hq => (Prog.asks_ite _ _ _ _).mpr ⟨fun _ => hp, fun _ => hq⟩
  have count : ∀ {idx} {k : Unit → Bpf Ptr Int}, XdpCount idx → (k ()).Asks XdpOp →
      (bump idx >>= k : Bpf Ptr Int).Asks XdpOp := fun h hk => ⟨.inl h, fun _ => hk⟩
  have classify : ∀ teid, (xdp_classify teid : Bpf Ptr Int).Asks XdpOp := by
    intro teid
    refine ⟨trivial, fun r => ?_⟩
    cases r with
    | none => exact ⟨.inr (.inr (.inl rfl)), fun _ => trivial⟩
    | some sess =>
      refine ⟨trivial, fun pdr_id => ⟨trivial, fun r => ?_⟩⟩
      cases r with
      | none => exact ⟨.inr (.inr (.inr rfl)), fun _ => trivial⟩
      | some pdr => exact ⟨.inr (.inl rfl), fun _ => trivial⟩
  have parse : (bump .M_DROP_PARSE >>= fun _ => .ret XDP_DROP : Bpf Ptr Int).Asks XdpOp :=
    count (by simp [XdpCount]) trivial
  refine ⟨trivial, fun e => count (by simp [XdpCount]) (ite parse ⟨trivial, fun proto => ite trivial (ite parse ?_)⟩)⟩
  refine ⟨trivial, fun protocol => ite trivial ⟨trivial, fun ihl => ite parse (ite parse ?_)⟩⟩
  refine ⟨trivial, fun dest => ite (count (by simp [XdpCount]) trivial) (count (by simp [XdpCount]) (ite parse ?_))⟩
  refine ⟨trivial, fun flags => ⟨trivial, fun type => ⟨trivial, fun teid => ite ?_ ?_⟩⟩⟩
  · exact count (by simp [XdpCount]) trivial
  · exact count (by simp [XdpCount]) (classify _)

end UPF
