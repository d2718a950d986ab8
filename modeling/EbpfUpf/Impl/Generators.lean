import EbpfUpf.Framework.Stores
import EbpfUpf.Impl.Blast
import EbpfUpf.Impl.Bpf

/-!
# The packet generators

`gtpu_blast.c`, `qer_blast.c`, `xdp_throughput_blast.c` and `bench_prog_cost.c`
build their packets by the same statements, in a buffer of 1500 bytes, which all
but the last one clear before. A `Generator` has what their packets differ in.
-/

open Framework

namespace UPF

structure Generator where
  src_mac : Bytes
  /-- The outer UDP source port. -/
  source : Nat
  teid : Nat
  /-- The bytes between the inner header and the payload. -/
  skip : Nat
  /-- The number of bytes of payload. -/
  pad : Nat

namespace Generator

abbrev ip : Nat := ethhdr.size

abbrev udp : Nat := ip + iphdr.size

abbrev gtp : Nat := udp + udphdr.size

/-- The inner IPv4 header. -/
abbrev iip : Nat := gtp + 8

/-- The headers without lengths and checksums, and the payload. -/
def headers (g : Generator) : List (Nat × Bytes) :=
  [(0, List.replicate 6 0xff), (6, g.src_mac), (ethhdr.h_proto, toLE 2 (bpf_htons 0x0800)),
    (ip + iphdr.ihl, [0x45]), (ip + iphdr.ttl, [64]), (ip + iphdr.protocol, [17]),
    (ip + iphdr.saddr, [10, 99, 0, 2]), (ip + iphdr.daddr, [10, 99, 0, 1]),
    (udp + udphdr.source, toLE 2 (bpf_htons g.source)), (udp + udphdr.dest, toLE 2 (bpf_htons 2152)),
    (udp + udphdr.check, toLE 2 0),
    (gtp, [0x30]), (gtp + 1, [0xff]), (gtp + 4, toLE 4 (bpf_ntohl g.teid)),
    (iip + iphdr.ihl, [0x45]), (iip + iphdr.ttl, [64]), (iip + iphdr.protocol, [17]),
    (iip + iphdr.saddr, [10, 45, 0, 1]), (iip + iphdr.daddr, [8, 8, 8, 8]),
    (iip + iphdr.size + g.skip, List.replicate g.pad 0x58)]

/-- The packet, built in `buf`. -/
def build (g : Generator) (buf : Bytes) : Option Bytes := do
  let total_pkt := iip + iphdr.size + g.skip + g.pad
  let ip_total := total_pkt - ethhdr.size
  let udp_total := ip_total - iphdr.size
  let gtp_payload := udp_total - udphdr.size - 8
  let iip_total := ip_total - iphdr.size - udphdr.size - 8
  let buf ← Bytes.stores g.headers buf
  let buf ← buf.store? (ip + iphdr.tot_len) (toLE 2 (bpf_htons ip_total))
  let buf ← buf.store? (ip + iphdr.check) (toLE 2 (ip_csum (buf.drop ip) iphdr.size))
  let buf ← buf.store? (udp + udphdr.len) (toLE 2 (bpf_htons udp_total))
  let buf ← buf.store? (gtp + 2) (toLE 2 (bpf_htons gtp_payload))
  let buf ← buf.store? (iip + iphdr.tot_len) (toLE 2 (bpf_htons iip_total))
  let buf ← buf.store? (iip + iphdr.check) (toLE 2 (ip_csum (buf.drop iip) iphdr.size))
  return buf.take total_pkt

end Generator

/-- `uint8_t buf[1500] = {0}`. -/
def blank : Bytes := List.replicate 1500 0

def gtpu_blast (src_mac : Bytes) (teid : Nat) : Generator := ⟨src_mac, 2152, teid, 0, 80⟩

namespace qer_blast

def MAX_FLOWS : Nat := 64

/-- The packet of flow `f`. -/
def flow (src_mac : Bytes) (teid_base f : Nat) : Generator :=
  ⟨src_mac, 30000 + f * 7, (teid_base + f) % 2 ^ 32, 0, 80⟩

end qer_blast

/-- The packet of thread `idx` of `xdp_throughput_blast`, which adds the size of the inner
header to `off` twice. -/
def worker (src_mac : Bytes) (g_teid_base idx : Nat) (g_frame_bytes : Int) : Generator :=
  let header_bytes : Nat := Generator.iip + iphdr.size + iphdr.size
  ⟨src_mac, 31000 + idx * 11, (g_teid_base + idx) % 2 ^ 32, iphdr.size, (g_frame_bytes - header_bytes - 4).toNat⟩

/-- `build_pkt` of `bench_prog_cost.c`, the buffer of which is not cleared. -/
def build_pkt (teid : Nat) : Generator := ⟨List.replicate 6 0x02, 31000, teid, 0, 80⟩

end UPF
