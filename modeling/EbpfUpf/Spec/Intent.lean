import EbpfUpf.Spec.Qer
import EbpfUpf.Spec.Rules

/-!
# What the agent was told

`Intent` is what a sequence of calls says, in numbers and without bytes: each
call lays its arguments over what was said before (`Intent.told`). `reading`
is what the maps say, by the layouts and byte orders of the datapath. Elements
of arrays are zero until they are written (`Intent.unset`).
-/

open Framework

namespace UPF

/-- The limits of a QER. -/
@[ext] structure Qer where
  mbr_ul_bps : Nat
  mbr_dl_bps : Nat
  burst_bytes : Nat
  deriving DecidableEq

def qerOf (v : Bytes) : Qer where
  mbr_ul_bps := v.get qer_val.mbr_ul_bps 8
  mbr_dl_bps := v.get qer_val.mbr_dl_bps 8
  burst_bytes := v.get qer_val.burst_bytes 4

/-- The tunnel of a UE. -/
structure DlUe where
  teid : Nat
  gnb_ipv4 : Nat
  qfi : Nat
  deriving DecidableEq

def dlUeOf (v : Bytes) : DlUe where
  teid := bpf_ntohl (v.get dl_ue_val.teid_be 4)
  gnb_ipv4 := bpf_ntohl (v.get dl_ue_val.gnb_ipv4_be 4)
  qfi := v.get dl_ue_val.qfi 2

/-- The address in an `upf_config`. -/
def n3Of (v : Bytes) : Nat := bpf_ntohl (v.get 0 4)

/-- The address as a number. -/
def Dotted.addr (q : Dotted) : Nat := ((q.a * 256 + q.b) * 256 + q.c) * 256 + q.d

/-- The `__u32` that the datapath reads where address `a` is on the wire. -/
def wireKey (a : BitVec 32) : Nat := bswap 4 a.toNat

@[ext] structure Intent where
  /-- The PDR of a TEID. -/
  pdr : Nat → Option Nat
  /-- The rules of a PDR. -/
  rule : Nat → Option Tuple
  far : Nat → Option Far
  qer : Nat → Option Qer
  /-- The tunnel to the UE with an address. -/
  ue : BitVec 32 → Option DlUe
  n3 : Option Nat

namespace Intent

def unset : Intent where
  pdr _ := none
  rule _ := none
  far far_id := if far_id < MAX_FARS then some ⟨0, 0, 0, 0⟩ else none
  qer qer_id := if qer_id < MAX_QERS then some ⟨0, 0, 0⟩ else none
  ue _ := none
  n3 := some 0

/-- What is said after a call. -/
def told (i : Intent) : Command → Intent
  | .install_far far_id action out_ifindex peer_ipv4_be out_teid_be => { i with
      far := Function.update i.far far_id.toNat
        (some ⟨action.toNat, out_ifindex.toNat, peer_ipv4_be.toNat, out_teid_be.toNat⟩) }
  | .install_qer qer_id mbr_ul_bps mbr_dl_bps burst_bytes => { i with
      qer := Function.update i.qer qer_id.toNat (some ⟨mbr_ul_bps.toNat, mbr_dl_bps.toNat, burst_bytes.toNat⟩) }
  | .install_dl_ue ue_ip teid gnb_ip qfi => { i with
      ue := Function.update i.ue (.ofNat 32 ue_ip.addr) (some ⟨teid.toNat, gnb_ip.addr, qfi.toNat⟩) }
  | .install_upf_config n3_addr => { i with n3 := some n3_addr.addr }
  | .install_session teid pdr_id qer_id far_id precedence urr_id => { i with
      pdr := Function.update i.pdr teid.toNat (some pdr_id.toNat)
      rule := Function.update i.rule pdr_id.toNat
        (some ⟨far_id.toNat, qer_id.toNat, urr_id.toNat, precedence.toNat, 0⟩) }
  | .modify_tc_bundle pdr_id c => { i with
      rule := Function.update i.rule pdr_id.toNat ((i.rule pdr_id.toNat).map c.apply) }
  | .remove_session teid pdr_id => { i with
      pdr := Function.update i.pdr teid.toNat none
      rule := Function.update i.rule pdr_id.toNat none }

end Intent

/-- What the maps say. -/
def reading (s : Maps) : Intent where
  pdr := pdrOf s
  rule := ruleOf s
  far := Option.map farOf ∘ s.lookup .far_table
  qer := Option.map qerOf ∘ s.lookup .qer_table
  ue := (Option.map dlUeOf ∘ s.lookup .dl_ue_map) ∘ wireKey
  n3 := (s.lookup .upf_config_map 0).map n3Of

/-- A call that comes to its end. -/
def Command.step (s : Maps) (c : Command) : Option Maps := after c.call s

end UPF
