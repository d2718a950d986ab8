import EbpfUpf.Framework.Loops
import EbpfUpf.Impl.Contention
import EbpfUpf.Spec.Usage

/-!
# What the contention experiment measures

The packets are those of `qer_blast` for the sessions that were set up
(`FromBlast`), and each becomes 114 bytes without its outer headers. What is
measured is true of them (`Measures`).
-/

open Framework

namespace UPF

namespace qer_contention

/-- The packet is that of one of `n` flows, and the kernel can shorten it. -/
structure FromBlast (n : Nat) (d : Delivery) : Prop where
  flow : ∃ src_mac f, src_mac.length = 6 ∧ f < n ∧ f < qer_blast.MAX_FLOWS ∧
    (qer_blast.flow src_mac 0x7000 f).build blank = some d.wire
  room : 0 ≤ d.H.adjust_room (-36)

/-- No counter comes to its end with `n` packets more. -/
structure Unwrapped (s : Maps) (n : Nat) : Prop where
  pass : ∀ c, s.metrics c .M_TC_QER_PASS + n < 2 ^ 64
  drop : ∀ c, s.metrics c .M_TC_QER_DROP + n < 2 ^ 64
  bytes : ∀ c, (usage s 1 c).bytes + 114 * n < 2 ^ 64

/-- The measurement around the packets `ds`, from `s` to `s'`, on `N` CPUs: every packet is
admitted or rejected, those that are admitted are measured with 114 bytes each, and the CPUs
engaged are those that had a packet. -/
def Measures (N : Nat) (s : Maps) (ds : List Delivery) (s' : Maps) : Prop :=
  ∀ urrs urrs', IsDump N s .urr_counters urrs → IsDump N s' .urr_counters urrs' → ∃ before after,
    snapshot (metrics_dump N s) urrs = .ok before ∧ snapshot (metrics_dump N s') urrs' = .ok after ∧
    (measured before after).admitted + (measured before after).rejected = ds.length ∧
    (measured before after).admitted_bytes = 114 * (measured before after).admitted ∧
    (measured before after).cpus_engaged = (List.range N).countP fun c => ∃ d ∈ ds, d.cpu = c

end qer_contention

end UPF
