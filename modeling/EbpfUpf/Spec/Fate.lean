import EbpfUpf.Spec.Qer
import EbpfUpf.Spec.Rules

/-!
# What becomes of a G-PDU

`classified` is what XDP makes of a packet of a tunnel, and `fate` what TC
ingress does with it, from the maps as they are and the kernel's answers:
`resolve` has the rules, and each fate has its verdict and shows in the
operations performed (`Fate.verdict`, `Fate.ops`).
-/

open Framework

namespace UPF

inductive Fate where
  | miss
  | dropped
  | buffered
  | decapErr
  | refused
  | forwarded (ifindex : Nat)
  deriving DecidableEq

/-- The packet without its `n` bytes of outer headers. -/
def decapped (H : Helpers) (frame : Bytes) (n : Nat) : Bytes := resize frame H.room (-n)

/-- The fate of a packet of tunnel `teid` with `n` bytes of outer headers. -/
def fate (b : Build) (H : Helpers) (s : Machine) (teid n : Nat) : Fate :=
  match resolve s.maps teid with
  | none => .miss
  | some r =>
    if r.far.action = FAR_DROP then .dropped
    else if r.far.action = FAR_BUFFER then .buffered
    else if H.adjust_room (-n) < 0 then .decapErr
    else if qerAdmits b s.maps r.rule.qer_id s.cpu (H.ktime_get_ns s.ticks % 2 ^ 64)
      (decapped H s.frame n).length then .forwarded r.far.out_ifindex
    else .refused

namespace Fate

def verdict (H : Helpers) : Fate → Int
  | miss => TC_ACT_OK_X
  | forwarded ifindex => H.redirect ifindex
  | _ => TC_ACT_SHOT_X

/-- The counter of the fate. -/
def metric : Fate → Metric
  | miss => .M_TC_MISS_FAR
  | dropped => .M_TC_FAR_DROP
  | buffered => .M_TC_FAR_BUFFER
  | decapErr => .M_TC_DECAP_ERR
  | refused => .M_TC_QER_DROP
  | forwarded _ => .M_TC_FAR_FORWARD

/-- The visible operations of the fate, where `n` bytes are to be stripped. -/
def ops (n : Nat) : Fate → List (Op Ptr)
  | decapErr => [.adjust_room (-n) BPF_ADJ_ROOM_MAC_X BPF_F_ADJ_ROOM_FIXED_GSO_X, .bump .M_TC_DECAP_ERR]
  | refused => [.adjust_room (-n) BPF_ADJ_ROOM_MAC_X BPF_F_ADJ_ROOM_FIXED_GSO_X, .bump .M_TC_QER_DROP]
  | forwarded ifindex => [.adjust_room (-n) BPF_ADJ_ROOM_MAC_X BPF_F_ADJ_ROOM_FIXED_GSO_X,
      .bump .M_TC_FAR_FORWARD, .redirect ifindex 0]
  | f => [.bump f.metric]

end Fate

/-- What XDP does with a packet of tunnel `teid`: what it counts, and its verdict. -/
def classified (s : Maps) (teid : Nat) : Metric × Int :=
  match pdrOf s teid with
  | none => (.M_MISS_TEID, XDP_DROP)
  | some pdr_id => if (s.lookup .pdr_table pdr_id).isSome then (.M_HIT, XDP_PASS) else (.M_MISS_PDR, XDP_DROP)

/-- The operations that show what a programme does to the packet: those on the
packet itself, the session lookup, and the counters of the fates. -/
def visible : Op Ptr → Bool
  | .load .. | .store .. | .adjust_room .. | .redirect .. => true
  | .lookup m _ => m = .teid_session
  | .bump idx => idx ∈ [.M_TC_MISS_FAR, .M_TC_FAR_DROP, .M_TC_FAR_BUFFER, .M_TC_DECAP_ERR,
      .M_TC_QER_DROP, .M_TC_FAR_FORWARD, .M_HIT, .M_MISS_TEID, .M_MISS_PDR]
  | _ => false

/-- The fates that a run counts. -/
def endings (ops : List (Op Ptr)) : List Metric :=
  ops.filterMap fun
    | .bump idx => if idx ∈ [.M_TC_MISS_FAR, .M_TC_FAR_DROP, .M_TC_FAR_BUFFER, .M_TC_DECAP_ERR,
        .M_TC_QER_DROP, .M_TC_FAR_FORWARD] then some idx else none
    | _ => none

end UPF
