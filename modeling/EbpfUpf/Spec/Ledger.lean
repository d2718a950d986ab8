import EbpfUpf.Impl.Visits
import EbpfUpf.Spec.Fate
import EbpfUpf.Spec.Tunnel
import EbpfUpf.Spec.Usage

/-!
# The ledger

How often the counters should have been counted: `Ledger` relates them to the
verdicts on the frames and to what became of these, where `tally` counts the
visits that meet a condition.
-/

open Framework

namespace UPF

/-- A frame to GTP-U's port that ends within the GTP-U header. -/
structure TruncatedGtp (f : Bytes) : Prop where
  proto : f.get 12 2 = bpf_htons ETH_P_IP_X
  udp : f.get 23 1 = IPPROTO_UDP_X
  ihl : 20 ≤ ihlBytes f
  l4 : 14 + ihlBytes f + 8 ≤ f.length
  port : f.get (14 + ihlBytes f + 2) 2 = bpf_htons GTPU_PORT_X
  gtp : f.length < gtpOff f + 8

theorem truncatedGtp_iff (f : Bytes) : TruncatedGtp f ↔
    f.get 12 2 = bpf_htons ETH_P_IP_X ∧ f.get 23 1 = IPPROTO_UDP_X ∧ 20 ≤ ihlBytes f ∧
    14 + ihlBytes f + 8 ≤ f.length ∧ f.get (14 + ihlBytes f + 2) 2 = bpf_htons GTPU_PORT_X ∧
    f.length < gtpOff f + 8 :=
  ⟨fun ⟨a, b, c, d, e, g⟩ => ⟨a, b, c, d, e, g⟩, fun ⟨a, b, c, d, e, g⟩ => ⟨a, b, c, d, e, g⟩⟩

instance (f : Bytes) : Decidable (TruncatedGtp f) := decidable_of_iff _ (truncatedGtp_iff f).symm

/-- `out` is the frame `f` in a tunnel, by whatever addresses. -/
def IsEncapped (f out : Bytes) : Prop := out = encapped f (out.get 26 4) (out.get 30 4) (out.get 46 4)

instance (f out : Bytes) : Decidable (IsEncapped f out) := inferInstanceAs (Decidable (_ = _))

/-- What an operation counts. -/
def bumpOf : Op Ptr → Option Metric
  | .bump idx => some idx
  | _ => none

namespace Programme

def isXdp : Programme → Bool
  | xdp => true
  | _ => false

def isIngress : Programme → Bool
  | ingress _ => true
  | _ => false

def isEgress : Programme → Bool
  | egress => true
  | _ => false

end Programme

/-! ## Visits -/

namespace Visit

variable (s : Maps) (v : Visit)

/-- What the visit counts. -/
def counts : List Metric := (v.trace s).filterMap bumpOf

def verdict : Option Int := (v.run s).map Prod.fst

def isXdp : Bool := v.programme.isXdp

def xdpDropped : Bool := v.programme.isXdp && v.verdict s = some XDP_DROP

def truncated : Bool := v.xdpDropped s && TruncatedGtp v.wire

/-- TC ingress comes to the lookup of the TEID. -/
def looksUp : Bool := v.programme.isIngress && (v.trace s).any fun
  | .lookup .teid_session _ => true
  | _ => false

def ingressShot : Bool := v.programme.isIngress && v.verdict s = some TC_ACT_SHOT_X

/-- TC egress passes the frame in a tunnel. -/
def encapsulated : Bool := v.programme.isEgress && match v.run s with
  | some (a, s', _) => a = TC_ACT_OK_X && IsEncapped v.wire s'.frame
  | none => false

end Visit

/-- The sum of `f` over the visits. -/
def sumOver (f : Maps → Visit → Nat) : Maps → List Visit → Nat
  | _, [] => 0
  | s, v :: vs => f s v + match v.step s with
    | none => 0
    | some s' => sumOver f s' vs

/-- How many visits meet `p`. -/
def tally (p : Maps → Visit → Bool) : Maps → List Visit → Nat := sumOver fun s v => (p s v).toNat

/-- How often `idx` is counted. -/
def countOf (idx : Metric) : Maps → List Visit → Nat := sumOver fun s v => (v.counts s).count idx

/-- What the totals `T` say of the visits `vs` from `s`. -/
structure Ledger (s : Maps) (vs : List Visit) (T : Metric → Nat) : Prop where
  rx_total : T .M_RX_TOTAL = tally (fun _ v => v.isXdp) s vs
  rx_gpdu : T .M_RX_GPDU = T .M_HIT + T .M_MISS_TEID + T .M_MISS_PDR
  xdp_drop : tally (fun s v => v.xdpDropped s) s vs = T .M_DROP_PARSE + T .M_MISS_TEID + T .M_MISS_PDR
  truncated : T .M_RX_GTPU = T .M_RX_GPDU + T .M_PASS_CTRL + tally (fun s v => v.truncated s) s vs
  endings : T .M_TC_MISS_FAR + T .M_TC_FAR_DROP + T .M_TC_FAR_BUFFER + T .M_TC_DECAP_ERR + T .M_TC_QER_DROP +
    T .M_TC_FAR_FORWARD = tally (fun s v => v.looksUp s) s vs
  qer_pass : T .M_TC_QER_PASS = T .M_TC_FAR_FORWARD
  redirect_err : T .M_TC_REDIRECT_ERR ≤ T .M_TC_FAR_FORWARD
  shot : (∀ v ∈ vs, ∀ ifindex, v.H.redirect ifindex = TC_ACT_REDIRECT_X ∨ v.H.redirect ifindex = TC_ACT_SHOT_X) →
    tally (fun s v => v.ingressShot s) s vs =
      T .M_TC_FAR_DROP + T .M_TC_FAR_BUFFER + T .M_TC_DECAP_ERR + T .M_TC_QER_DROP + T .M_TC_REDIRECT_ERR
  encapsulated : T .M_TC_DL_HIT = T .M_TC_DL_ENCAP_ERR + tally (fun s v => v.encapsulated s) s vs

/-- TC ingress adds one to one of the counters in which a G-PDU may end. -/
def EndsOnce (s : Maps) (v : Visit) : Prop := v.looksUp s → (endings (v.trace s)).length = 1

end UPF
