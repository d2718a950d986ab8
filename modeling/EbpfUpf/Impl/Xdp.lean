import EbpfUpf.Impl.Bpf

/-!
# The XDP programme (`bpf/upf_xdp.c`)

GTP-U uplink classification. `xdp_classify` is the part of `upf_xdp_uplink`
from the session lookup on.
-/

open Framework

namespace UPF

variable {P : Type}

def xdp_classify (teid : Nat) : Bpf P Int := do
  match ← lookup .teid_session teid with
  | none =>
    bump .M_MISS_TEID
    return XDP_DROP
  | some sess =>
    match ← lookup .pdr_table (← read sess session_val.pdr_id 4) with
    | none =>
      bump .M_MISS_PDR
      return XDP_DROP
    | some _ =>
      bump .M_HIT
      return XDP_PASS

def upf_xdp_uplink : Bpf P Int := do
  let data_end ← data_end
  bump .M_RX_TOTAL
  let eth := 0
  if eth + ethhdr.size > data_end then
    bump .M_DROP_PARSE
    return XDP_DROP
  if (← load (eth + ethhdr.h_proto) 2) ≠ bpf_htons ETH_P_IP_X then
    return XDP_PASS
  let ip := eth + ethhdr.size
  if ip + iphdr.size > data_end then
    bump .M_DROP_PARSE
    return XDP_DROP
  if (← load (ip + iphdr.protocol) 1) ≠ IPPROTO_UDP_X then
    return XDP_PASS
  let ihl_bytes := (← load (ip + iphdr.ihl) 1) % 16 * 4
  if ihl_bytes < iphdr.size then
    bump .M_DROP_PARSE
    return XDP_DROP
  let l4 := ip + ihl_bytes
  if l4 + udphdr.size > data_end then
    bump .M_DROP_PARSE
    return XDP_DROP
  let udp := l4
  if (← load (udp + udphdr.dest) 2) ≠ bpf_htons GTPU_PORT_X then
    bump .M_PASS_NONGTP
    return XDP_PASS
  bump .M_RX_GTPU
  let gtp := udp + udphdr.size
  if gtp + 8 > data_end then
    bump .M_DROP_PARSE
    return XDP_DROP
  -- Any value of the flags is tolerated.
  let _flags ← load gtp 1
  let msg_type ← load (gtp + 1) 1
  let teid_be ← load (gtp + 4) 4
  let teid := bpf_ntohl teid_be
  if msg_type ≠ GTPU_GPDU_X then
    bump .M_PASS_CTRL
    return XDP_PASS
  bump .M_RX_GPDU
  xdp_classify teid

end UPF
