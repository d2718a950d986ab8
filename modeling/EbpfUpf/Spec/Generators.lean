import EbpfUpf.Impl.Generators
import EbpfUpf.Spec.Tunnel

/-!
# Generated packets

A generated packet is a G-PDU of its TEID, and every length in it is that of
what follows (`Generated`).
-/

open Framework

namespace UPF

namespace Generator

/-- The values of the generator fit their fields. -/
structure Fits (g : Generator) : Prop where
  src_mac : g.src_mac.length = 6
  source : g.source < 2 ^ 16
  teid : g.teid < 2 ^ 32

structure Generated (g : Generator) (buf out : Bytes) : Prop where
  length : out.length = 70 + g.skip + g.pad
  gpdu : IsGpdu out
  teid : teidOf out = g.teid
  outer : outerLen out = 36
  eth : out.slice 0 12 = List.replicate 6 0xff ++ g.src_mac
  saddr : out.slice 26 8 = [10, 99, 0, 2, 10, 99, 0, 1]
  source : be out 34 2 = g.source
  tot_len : be out 16 2 = out.length - 14
  udp_len : be out 38 2 = out.length - 34
  gtp_len : be out 44 2 = out.length - 50
  inner : out.get 50 1 = 0x45
  inner_len : be out 52 2 = out.length - 50
  skipped : out.slice 70 g.skip = buf.slice 70 g.skip
  payload : out.drop (70 + g.skip) = List.replicate g.pad 0x58

/-- A program builds packet `g` in the buffer `buf`; that of `bench_prog_cost` has what the
stack had. -/
inductive Runs : Generator → Bytes → Prop
  | gtpu_blast {src_mac : Bytes} {teid : Nat} : src_mac.length = 6 → teid < 2 ^ 32 →
    Runs (gtpu_blast src_mac teid) blank
  | qer_blast {src_mac : Bytes} {teid_base f : Nat} : src_mac.length = 6 → f < qer_blast.MAX_FLOWS →
    Runs (qer_blast.flow src_mac teid_base f) blank
  | xdp_throughput_blast {src_mac : Bytes} {teid_base idx : Nat} {frame_bytes : Int} : src_mac.length = 6 → idx < 256 →
    Runs (worker src_mac teid_base idx frame_bytes) blank
  | bench_prog_cost {stack : Bytes} {teid : Nat} : stack.length = 1500 → teid < 2 ^ 32 → Runs (build_pkt teid) stack

/-- The IPv4 header at `off` verifies. -/
def HeaderVerifies (out : Bytes) (off : Nat) : Prop := Verifies (out.slice off 20)

/-- What stands in `buf` for the checksum at `off` adds nothing to a sum. -/
def Neutral (buf : Bytes) (off : Nat) : Prop := buf.get off 2 = 0 ∨ buf.get off 2 = 0xffff

/-- How a build in `buf` ends: it writes beyond the buffer, or the packet is well formed
but for its checksums, which are right if the buffer had nothing in their place. -/
def Outcome (g : Generator) (buf : Bytes) : Prop :=
  (1430 < g.skip + g.pad ∧ g.build buf = none) ∨
  (g.skip + g.pad ≤ 1430 ∧ ∃ out, g.build buf = some out ∧ g.Generated buf out ∧
    (HeaderVerifies out 14 ↔ Neutral buf 24) ∧ (HeaderVerifies out 50 ↔ Neutral buf 60))

end Generator

end UPF
