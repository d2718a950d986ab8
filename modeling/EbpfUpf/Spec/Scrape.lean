import EbpfUpf.Impl.Scrape
import EbpfUpf.Impl.Testbed
import EbpfUpf.Spec.Ledger
import EbpfUpf.Spec.Usage

/-!
# Scrapes

What a scrape of the metrics page shows (`Shows`), and how often the frames have
counted a stage (`bumps`).
-/

open Framework

namespace UPF

/-- Both readers find the number `n` for the stage `idx` on the page. -/
def Metric.Shows (idx : Metric) (page : Text) (n : Nat) : Prop :=
  metrics_counter page idx.name = n ∧ read_metric page idx.name = [decimal n]

/-- How often frames counted `idx`. -/
def bumps (idx : Metric) (h : List Happening) : Nat :=
  h.countP fun
    | .op _ o _ => bumpOf o = some idx
    | _ => false

/-- The frames arrive on `N` CPUs. -/
def Testbed.OnCpus (N : Nat) (ms : List Testbed.Move) : Prop :=
  ∀ programme H cpu wire, .arrive programme H cpu wire ∈ ms → cpu < N

end UPF
