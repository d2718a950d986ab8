import Mathlib.Algebra.BigOperators.Group.Finset.Basic
import EbpfUpf.Impl.Bpf
import EbpfUpf.Impl.Report

/-!
# Usage

What the URRs have counted: `usage` of a URR on a CPU, in the entries of
`urr_counters`. A packet adds its bytes and itself (`Usage.add`), each count
being kept in 64 bits, if the URR has an entry or there is room for one
(`HasRoom`). `total` and `metricTotal` are what the agent makes of the values of
all CPUs.
-/

open Framework

namespace UPF

@[ext] structure Usage where
  bytes : Nat
  pkts : Nat
  deriving DecidableEq

/-- A packet of `n` bytes more. -/
def Usage.add (x : Usage) (n : Nat) : Usage := ⟨(x.bytes + n) % 2 ^ 64, (x.pkts + 1) % 2 ^ 64⟩

/-- What URR `urr_id` has counted on CPU `cpu`: nothing, if it has no entry. -/
def usage (s : Maps) (urr_id cpu : Nat) : Usage :=
  ⟨(s.elem .urr_counters urr_id cpu).get urr_val.bytes_ul 8, (s.elem .urr_counters urr_id cpu).get urr_val.pkts_ul 8⟩

/-- The URRs with an entry. -/
def urrKeys (s : Maps) : Finset Nat := (s.percpu .urr_counters).keys

def HasRoom (s : Maps) (urr_id : Nat) : Prop := urr_id ∈ urrKeys s ∨ (urrKeys s).card < MAX_URRS

instance (s : Maps) (urr_id : Nat) : Decidable (HasRoom s urr_id) := inferInstanceAs (Decidable (_ ∨ _))

/-- A packet of `n` bytes is counted under `urr_id` on CPU `cpu`, from `s` to `s'`. -/
structure Counted (urr_id cpu n : Nat) (s s' : Maps) : Prop where
  keys : urrKeys s' = insert urr_id (urrKeys s)
  self : usage s' urr_id cpu = (usage s urr_id cpu).add n
  other : ∀ u c, u ≠ urr_id ∨ c ≠ cpu → usage s' u c = usage s u c

/-- No URR counts anything. -/
structure Uncounted (s s' : Maps) : Prop where
  keys : urrKeys s' = urrKeys s
  same : ∀ u c, usage s' u c = usage s u c

/-- What URR `u` has counted on `N` CPUs. -/
def total (N : Nat) (s : Maps) (u : Nat) : UrrReport :=
  ⟨∑ cpu ∈ Finset.range N, (usage s u cpu).bytes, ∑ cpu ∈ Finset.range N, (usage s u cpu).pkts⟩

/-- The name of a counter. -/
def Metric.name (idx : Metric) : String := METRIC_NAMES.getD idx.ctorIdx ""

/-- The total of counter `idx` on `N` CPUs, each read as a `__u64`. -/
def metricTotal (N : Nat) (s : Maps) (idx : Metric) : Nat := ∑ cpu ∈ Finset.range N, s.metrics cpu idx % 2 ^ 64

/-- The maps after CPU `cpu` counted `idxs`. -/
def Maps.countAll (s : Maps) (cpu : Nat) (idxs : List Metric) : Maps := idxs.foldl (fun s idx => s.count cpu idx) s

/-- What a packet under URR `urr_id` counts in `metrics`, whatever became of its usage. -/
def urrCounts (urr_id : Nat) : List Metric := if urr_id = 0 then [] else [.M_TC_URR_UPDATED]

end UPF
