import EbpfUpf.Spec.Volume

/-!
# Accounting

What the agent should find at any time: as many packets in all the URRs as
`tc_urr_updated` says (`UsageAccounted`), where each packet counted in
`tc_far_forward` adds one to its URR (`AddsOne`).
-/

open Framework

namespace UPF

/-- What a dump says of the packets of URR `u`. -/
def pktsOf (raw : List Entry) (u : Nat) : Nat :=
  match read_urr raw u with
  | .ok (some report) => report.pkts_ul
  | _ => 0

/-- `tc_urr_updated` is the sum of the packets of all URRs that have an entry. -/
def UsageAccounted (N : Nat) (s : Maps) : Prop := ∀ raw, IsDump N s .urr_counters raw →
  ∃ out, read_metrics (metrics_dump N s) = .ok out ∧
    out "tc_urr_updated" = some (∑ u ∈ urrKeys s, pktsOf raw u)

/-- The job is a frame that is counted in `tc_far_forward`, by rules with URR `u`. -/
def Job.Counted (b : Build) (cpu : Nat) (s : Maps) (u : Nat) : Job → Prop
  | packet H wire => .bump .M_TC_FAR_FORWARD ∈ (upf_tc_ingress b).trace (kernel H) (arrival cpu s wire) ∧
      urrOf s wire = some u
  | _ => False

def AddsOne (N : Nat) (b : Build) (cpu : Nat) (s : Maps) (job : Job) : Prop :=
  ∀ u s', u ≠ 0 → job.Counted b cpu s u → job.step b cpu s = some s' →
    (total N s' u).pkts_ul = (total N s u).pkts_ul + 1

/-- A packet that is to be counted under a URR finds its entry, or room for one,
and a counter that does not wrap. -/
def Countable (b : Build) (cpu : Nat) (s : Maps) (job : Job) : Prop :=
  ∀ u, u ≠ 0 → job.Counted b cpu s u → HasRoom s u ∧ s.metrics cpu .M_TC_URR_UPDATED < 2 ^ 64 - 1

/-- No URR was used yet. -/
structure Unused (s : Maps) : Prop where
  usage : s.percpu .urr_counters = ∅
  metrics : ∀ cpu, s.metrics cpu .M_TC_URR_UPDATED = 0

end UPF
