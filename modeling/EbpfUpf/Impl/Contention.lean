import EbpfUpf.Impl.Generators
import EbpfUpf.Impl.Jobs
import EbpfUpf.Impl.Processes
import EbpfUpf.Impl.Report
import EbpfUpf.Impl.Xdp

/-!
# The contention experiment (`test/qer_contention.py`)

What comes in during the experiment goes through XDP and, if that passes it,
through TC ingress (`Delivery`). Here one packet is through before the next one
comes in, on whatever CPU. The experiment takes a snapshot of the counters
before and after, and reports the differences (`measured`). The times, and what
it divides by them, are left out.
-/

open Framework

namespace UPF

/-- A packet that comes in on CPU `cpu`. -/
structure Delivery where
  H : Helpers
  cpu : Nat
  wire : Bytes

def Delivery.step (b : Build) (s : Maps) (d : Delivery) : Option Maps := do
  let (v, m) ← upf_xdp_uplink.run (kernel d.H) (arrival d.cpu s d.wire)
  if v = XDP_PASS then
    let (_, m) ← (upf_tc_ingress b).run (kernel d.H) (arrival d.cpu m.maps m.frame)
    return m.maps
  else return m.maps

namespace qer_contention

def QER_PASS_IDX : Nat := METRIC_NAMES.idxOf "tc_qer_pass"

def QER_DROP_IDX : Nat := METRIC_NAMES.idxOf "tc_qer_drop"

/-- The values of the CPUs for counter `idx`. -/
def percpu_metric : List Entry → Nat → List Nat
  | [], _ => []
  | entry :: dump, idx => if le entry.key ≠ idx then percpu_metric dump idx else entry.values.map le

structure Snapshot where
  pass : List Nat
  drop : List Nat
  bytes_ul : Nat

/-- From dumps of `metrics` and `urr_counters`. -/
def snapshot (metrics urrs : List Entry) : Except PyError Snapshot := do
  let urr := (← read_urr urrs 1).getD ⟨0, 0⟩
  return ⟨percpu_metric metrics QER_PASS_IDX, percpu_metric metrics QER_DROP_IDX, urr.bytes_ul⟩

structure Measured where
  admitted : Int
  rejected : Int
  cpus_engaged : Nat
  admitted_bytes : Int

/-- What `main` makes of the two snapshots. -/
def measured (before after : Snapshot) : Measured :=
  let per_cpu_pass := List.zipWith (fun a b : Nat => (a : Int) - b) after.pass before.pass
  let per_cpu_drop := List.zipWith (fun a b : Nat => (a : Int) - b) after.drop before.drop
  { admitted := per_cpu_pass.sum
    rejected := per_cpu_drop.sum
    cpus_engaged := (List.range per_cpu_pass.length).countP fun i =>
      per_cpu_pass.getD i 0 > 0 ∨ i < per_cpu_drop.length ∧ per_cpu_drop.getD i 0 > 0
    admitted_bytes := (after.bytes_ul : Int) - before.bytes_ul }

end qer_contention

end UPF
