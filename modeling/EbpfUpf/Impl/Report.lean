import EbpfUpf.Impl.Agent

/-!
# What the agent reports (`loader/agent.py`)

`read_urr` and `read_metrics` add up the values of the CPUs in a dump of a
per-CPU map, in numbers without bound. A dump has an entry for each key. That
of a hash map has them in any order (`IsDump`); that of `metrics` is
`metrics_dump`.
-/

open Framework

namespace UPF

/-- `struct.unpack` with a little-endian format. -/
def unpack : List Fmt → Bytes → Except PyError (List Nat)
  | [], [] => .ok []
  | [], _ :: _ => .error .struct_error
  | c :: cs, bs => do
    if bs.length < c.width then throw .struct_error
    return le (bs.take c.width) :: (← unpack cs (bs.drop c.width))

/-- An entry of a dump: the values are those of the CPUs, in turn. -/
structure Entry where
  key : Bytes
  values : List Bytes
  deriving DecidableEq

/-- `raw` is a dump of the per-CPU hash map `m` on `N` CPUs. -/
def IsDump (N : Nat) (s : Maps) (m : MapName) (raw : List Entry) : Prop :=
  ∃ keys : List Nat, keys.Nodup ∧ (∀ k, k ∈ keys ↔ k ∈ s.percpu m) ∧
    raw = keys.map fun k => ⟨toLE 4 k, (List.range N).map fun cpu => s.elem m k cpu⟩

/-! ## URRs -/

structure UrrReport where
  bytes_ul : Nat
  pkts_ul : Nat
  deriving DecidableEq

/-- The value of one more CPU. -/
def add_urr (sum : UrrReport) (v : Bytes) : Except PyError UrrReport := do
  match ← unpack [.Q, .Q, .Q, .Q] v with
  | [bul, _, pul, _] => return ⟨sum.bytes_ul + bul, sum.pkts_ul + pul⟩
  | _ => throw .struct_error

def read_urr (raw : List Entry) (urr_id : Int) : Except PyError (Option UrrReport) :=
  match raw with
  | [] => return none
  | entry :: raw => do
    if (← unpack [.I] entry.key).map Int.ofNat ≠ [urr_id] then
      read_urr raw urr_id
    else
      return some (← entry.values.foldlM add_urr ⟨0, 0⟩)

/-! ## Metrics -/

def METRIC_NAMES : List String := [
  "rx_total", "rx_gtpu", "rx_gpdu",
  "hit", "miss_teid", "miss_pdr",
  "pass_nongtp", "pass_ctrl", "drop_parse",
  "tc_miss_far", "tc_far_drop", "tc_far_forward", "tc_far_buffer",
  "tc_decap_err", "tc_redirect_err", "tc_qer_pass", "tc_qer_drop",
  "tc_urr_updated", "tc_dl_hit", "tc_dl_miss", "tc_dl_encap_err"]

/-- The counters, by their index. -/
def Metric.all : List Metric := [
  .M_RX_TOTAL, .M_RX_GTPU, .M_RX_GPDU, .M_HIT, .M_MISS_TEID, .M_MISS_PDR,
  .M_PASS_NONGTP, .M_PASS_CTRL, .M_DROP_PARSE,
  .M_TC_MISS_FAR, .M_TC_FAR_DROP, .M_TC_FAR_FORWARD, .M_TC_FAR_BUFFER, .M_TC_DECAP_ERR,
  .M_TC_REDIRECT_ERR, .M_TC_QER_PASS, .M_TC_QER_DROP, .M_TC_URR_UPDATED,
  .M_TC_DL_HIT, .M_TC_DL_MISS, .M_TC_DL_ENCAP_ERR]

/-- A dump of `metrics` on `N` CPUs. -/
def metrics_dump (N : Nat) (s : Maps) : List Entry :=
  Metric.all.map fun idx => ⟨toLE 4 idx.ctorIdx, (List.range N).map fun cpu => toLE 8 (s.metrics cpu idx)⟩

/-- The value of one more CPU. -/
def add_metric (total : Nat) (v : Bytes) : Except PyError Nat := do
  match ← unpack [.Q] v with
  | [n] => return total + n
  | _ => throw .struct_error

/-- One more entry. -/
def add_entry (out : String → Option Nat) (entry : Entry) : Except PyError (String → Option Nat) := do
  match ← unpack [.I] entry.key with
  | [idx] => match METRIC_NAMES[idx]? with
    | none => return out
    | some name => return Function.update out name (some (← entry.values.foldlM add_metric 0))
  | _ => throw .struct_error

/-- The dictionary, from a name to its total. -/
def read_metrics (raw : List Entry) : Except PyError (String → Option Nat) := raw.foldlM add_entry fun _ => none

end UPF
