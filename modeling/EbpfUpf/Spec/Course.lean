import EbpfUpf.Impl.System
import EbpfUpf.Spec.Gpdu
import EbpfUpf.Spec.Rules

/-!
# The course of a packet

What a programme asks the rules on its way, and with which answers, when the
maps may change at any time: of all its operations, those that look up
sessions, PDRs, bundles and FARs and read what they find, the redirect, and
XDP's counters (`rules`). `XdpCourse` and `TcCourse` are the ways that a G-PDU
of tunnel `teid` can go, with the verdict at the end of each; any other frame
asks nothing.
-/

open Framework

namespace UPF

def isRule : Op Ptr → Bool
  | .lookup m _ | .read (.value m _) _ _ => m ∈ [.teid_session, .pdr_table, .tc_bundle_map, .far_table]
  | .redirect .. => true
  | .bump idx => idx ∈ [.M_HIT, .M_MISS_TEID, .M_MISS_PDR]
  | _ => false

def rules (l : Log (BpfOps Ptr)) : Log (BpfOps Ptr) := l.filter fun e => isRule e.1

/-- A lookup and its answer. -/
abbrev found (m : MapName) (key : Nat) (v : Option Bytes) : (o : Op Ptr) × Op.Ans o :=
  ⟨.lookup m key, v.map (.value m)⟩

/-- A read of a value that a lookup found. -/
abbrev readOf (m : MapName) (v : Bytes) (off : Nat) : (o : Op Ptr) × Op.Ans o :=
  ⟨.read (.value m v) off 4, v.get off 4⟩

abbrev counted (idx : Metric) : (o : Op Ptr) × Op.Ans o := ⟨.bump idx, ()⟩

def sessionPdr (sess : Bytes) : Nat := sess.get session_val.pdr_id 4

inductive XdpCourse (teid : Nat) : Log (BpfOps Ptr) → Int → Prop
  | no_session : XdpCourse teid [found .teid_session teid none, counted .M_MISS_TEID] XDP_DROP
  | no_pdr (sess : Bytes) : XdpCourse teid [found .teid_session teid (some sess),
      readOf .teid_session sess session_val.pdr_id, found .pdr_table (sessionPdr sess) none,
      counted .M_MISS_PDR] XDP_DROP
  | hit (sess pdr : Bytes) : XdpCourse teid [found .teid_session teid (some sess),
      readOf .teid_session sess session_val.pdr_id, found .pdr_table (sessionPdr sess) (some pdr),
      counted .M_HIT] XDP_PASS

/-- Field `f` of the slot in force. -/
abbrev slotRead (bundle : Bytes) (f : Nat) : (o : Op Ptr) × Op.Ans o :=
  readOf .tc_bundle_map bundle (tc_bundle.slot (activeSlot bundle) + f)

/-- The way to a bundle. -/
def toBundle (teid : Nat) (sess bundle : Bytes) : Log (BpfOps Ptr) :=
  [found .teid_session teid (some sess), readOf .teid_session sess session_val.pdr_id,
    found .tc_bundle_map (sessionPdr sess) (some bundle)]

/-- From there to the FAR. -/
def toFar (bundle far : Bytes) : Log (BpfOps Ptr) :=
  [readOf .tc_bundle_map bundle tc_bundle.active, slotRead bundle tc_bundle_slot.far_id,
    found .far_table (activeTuple bundle).far_id (some far), readOf .far_table far far_val.action]

/-- What a packet that is to be forwarded reads next. -/
def toForward (sess bundle far : Bytes) : Log (BpfOps Ptr) :=
  [readOf .far_table far far_val.action, slotRead bundle tc_bundle_slot.far_id,
    slotRead bundle tc_bundle_slot.qer_id, slotRead bundle tc_bundle_slot.urr_id,
    readOf .teid_session sess session_val.pdr_id, slotRead bundle tc_bundle_slot.generation]

inductive TcCourse (teid : Nat) : Log (BpfOps Ptr) → Int → Prop
  | no_session : TcCourse teid [found .teid_session teid none] TC_ACT_OK_X
  | no_bundle (sess : Bytes) : TcCourse teid [found .teid_session teid (some sess),
      readOf .teid_session sess session_val.pdr_id, found .tc_bundle_map (sessionPdr sess) none] TC_ACT_OK_X
  | no_far (sess bundle : Bytes) : TcCourse teid (toBundle teid sess bundle ++
      [readOf .tc_bundle_map bundle tc_bundle.active, slotRead bundle tc_bundle_slot.far_id,
        found .far_table (activeTuple bundle).far_id none]) TC_ACT_OK_X
  | dropped (sess bundle far : Bytes) : (farOf far).action = FAR_DROP →
    TcCourse teid (toBundle teid sess bundle ++ toFar bundle far) TC_ACT_SHOT_X
  | buffered (sess bundle far : Bytes) : (farOf far).action = FAR_BUFFER →
    TcCourse teid (toBundle teid sess bundle ++ toFar bundle far ++ [readOf .far_table far far_val.action,
      readOf .teid_session sess session_val.pdr_id, slotRead bundle tc_bundle_slot.far_id]) TC_ACT_SHOT_X
  | decap_err (sess bundle far : Bytes) : (farOf far).action ∉ [FAR_DROP, FAR_BUFFER] →
    TcCourse teid (toBundle teid sess bundle ++ toFar bundle far ++ toForward sess bundle far) TC_ACT_SHOT_X
  | far_gone (sess bundle far : Bytes) : (farOf far).action ∉ [FAR_DROP, FAR_BUFFER] →
    TcCourse teid (toBundle teid sess bundle ++ toFar bundle far ++ toForward sess bundle far ++
      [found .far_table (activeTuple bundle).far_id none]) TC_ACT_SHOT_X
  | refused (sess bundle far far' : Bytes) : (farOf far).action ∉ [FAR_DROP, FAR_BUFFER] →
    TcCourse teid (toBundle teid sess bundle ++ toFar bundle far ++ toForward sess bundle far ++
      [found .far_table (activeTuple bundle).far_id (some far')]) TC_ACT_SHOT_X
  | redirected (sess bundle far far' : Bytes) (v : Int) : (farOf far).action ∉ [FAR_DROP, FAR_BUFFER] →
    TcCourse teid (toBundle teid sess bundle ++ toFar bundle far ++ toForward sess bundle far ++
      [found .far_table (activeTuple bundle).far_id (some far'), readOf .far_table far' far_val.out_ifindex,
        ⟨.redirect (farOf far').out_ifindex 0, v⟩]) v

/-- The course of a frame in a programme. -/
def Course (hook : Hook) (wire : Bytes) (l : Log (BpfOps Ptr)) (v : Int) : Prop :=
  if IsGpdu wire then match hook with
    | .xdp => XdpCourse (teidOf wire) l v
    | .tc _ => TcCourse (teidOf wire) l v
  else l = []

end UPF
