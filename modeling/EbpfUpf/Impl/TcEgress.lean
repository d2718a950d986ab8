import EbpfUpf.Impl.Bpf

/-!
# The TC egress programme (`bpf/upf_tc_egress.c`)

Downlink GTP-U encapsulation. `tc_encap` is the part of `upf_tc_egress` from
the lookup of the UE on, `add_outer` the part that makes room for the headers
and `write_outer` the one that fills them in.
-/

open Framework

namespace UPF

variable {P : Type}

/-- A difference of two `__u32`. -/
def sub32 (a b : Nat) : Nat := (a + 2 ^ 32 - b) % 2 ^ 32

/-- The sum of the ten halfwords from `hdr` on, folded twice and inverted. -/
def ip_checksum20 (hdr : Nat) : Bpf P Nat := do
  let sum ← (List.range 10).foldlM (fun sum i => do return sum + (← load (hdr + 2 * i) 2)) 0
  let sum := sum % 2 ^ 16 + sum / 2 ^ 16
  let sum := sum % 2 ^ 16 + sum / 2 ^ 16
  return 2 ^ 16 - 1 - sum % 2 ^ 16

def write_outer (ue : P) (n3_addr_be : Nat) : Bpf P Int := do
  let outer_ip := ethhdr.size
  let outer_udp := outer_ip + iphdr.size
  let gtp := outer_udp + udphdr.size
  let total_len := sub32 (← skb_len) ethhdr.size
  let udp_len := sub32 total_len iphdr.size
  let gtp_paylen := sub32 (sub32 udp_len udphdr.size) 8
  -- The version and the length are halves of one byte.
  store (outer_ip + iphdr.ihl) (toLE 1 ((← load (outer_ip + iphdr.ihl) 1) % 16 + 16 * 4))
  store (outer_ip + iphdr.ihl) (toLE 1 ((← load (outer_ip + iphdr.ihl) 1) / 16 * 16 + 5))
  store (outer_ip + iphdr.tos) (toLE 1 0)
  store (outer_ip + iphdr.tot_len) (toLE 2 (bpf_htons (total_len % 2 ^ 16)))
  store (outer_ip + iphdr.id) (toLE 2 0)
  store (outer_ip + iphdr.frag_off) (toLE 2 0)
  store (outer_ip + iphdr.ttl) (toLE 1 64)
  store (outer_ip + iphdr.protocol) (toLE 1 IPPROTO_UDP_X)
  store (outer_ip + iphdr.check) (toLE 2 0)
  store (outer_ip + iphdr.saddr) (toLE 4 n3_addr_be)
  store (outer_ip + iphdr.daddr) (toLE 4 (← read ue dl_ue_val.gnb_ipv4_be 4))
  store (outer_ip + iphdr.check) (toLE 2 (← ip_checksum20 outer_ip))
  store (outer_udp + udphdr.source) (toLE 2 (bpf_htons GTPU_PORT_X))
  store (outer_udp + udphdr.dest) (toLE 2 (bpf_htons GTPU_PORT_X))
  store (outer_udp + udphdr.len) (toLE 2 (bpf_htons (udp_len % 2 ^ 16)))
  store (outer_udp + udphdr.check) (toLE 2 0)
  store gtp (toLE 1 0x30)
  store (gtp + 1) (toLE 1 0xff)
  store (gtp + 2) (toLE 2 (bpf_htons (gtp_paylen % 2 ^ 16)))
  store (gtp + 4) (toLE 4 (← read ue dl_ue_val.teid_be 4))
  return TC_ACT_OK_X

def add_outer (ue : P) (n3_addr_be : Nat) : Bpf P Int := do
  let add_len := iphdr.size + udphdr.size + 8
  if (← adjust_room add_len BPF_ADJ_ROOM_MAC_X BPF_F_ADJ_ROOM_FIXED_GSO_X) < 0 then
    bump .M_TC_DL_ENCAP_ERR
    return TC_ACT_SHOT_X
  -- The packet has grown: its end is read again.
  let data_end ← data_end
  if ethhdr.size > data_end then
    bump .M_TC_DL_ENCAP_ERR
    return TC_ACT_SHOT_X
  if ethhdr.size + iphdr.size > data_end then
    bump .M_TC_DL_ENCAP_ERR
    return TC_ACT_SHOT_X
  if ethhdr.size + iphdr.size + udphdr.size > data_end then
    bump .M_TC_DL_ENCAP_ERR
    return TC_ACT_SHOT_X
  if ethhdr.size + iphdr.size + udphdr.size + 8 > data_end then
    bump .M_TC_DL_ENCAP_ERR
    return TC_ACT_SHOT_X
  write_outer ue n3_addr_be

def tc_encap (dst_ip : Nat) : Bpf P Int := do
  match ← lookup .dl_ue_map dst_ip with
  | none =>
    bump .M_TC_DL_MISS
    return TC_ACT_OK_X
  | some ue =>
    bump .M_TC_DL_HIT
    match ← lookup .upf_config_map 0 with
    | some cfg => add_outer ue (← read cfg 0 4)
    | none => add_outer ue 0

/-- Whether the packet is to GTP-U's port already. -/
def already_gtpu (ip data_end : Nat) : Bpf P Bool := do
  if (← load (ip + iphdr.protocol) 1) = IPPROTO_UDP_X then
    let ihl_bytes := (← load (ip + iphdr.ihl) 1) % 16 * 4
    let l4 := ip + ihl_bytes
    if l4 + udphdr.size ≤ data_end then
      if (← load (l4 + udphdr.dest) 2) = bpf_htons GTPU_PORT_X then
        return true
  return false

def upf_tc_egress : Bpf P Int := do
  let data_end ← data_end
  let eth := 0
  if eth + ethhdr.size > data_end then
    return TC_ACT_OK_X
  if (← load (eth + ethhdr.h_proto) 2) ≠ bpf_htons ETH_P_IP_X then
    return TC_ACT_OK_X
  let ip := eth + ethhdr.size
  if ip + iphdr.size > data_end then
    return TC_ACT_OK_X
  if ← already_gtpu ip data_end then
    return TC_ACT_OK_X
  let dst_ip ← load (ip + iphdr.daddr) 4
  tc_encap dst_ip

end UPF
