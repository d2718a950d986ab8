import Mathlib.Data.Finmap
import EbpfUpf.Framework.Bytes

/-!
# The pinned maps (`bpf/upf_maps.h`)

The maps that the XDP and TC programmes and the agent share, and what the
kernel does on a lookup, an update and a delete of each type of map. Keys are
the `__u32` that the four key bytes hold; values are the bytes stored, laid
out as the C structures are (the offsets below). A map holds at most
`max_entries` keys: an array has exactly the keys below it, all there from
the start and zero, and a hash map that is full refuses a new key. An LRU
hash map never refuses one; what it evicts instead is left to the caller
(`Maps.evict`).

Per-CPU maps keep a value for each CPU under one key. The counters of
`metrics` are kept as numbers.
-/

open Framework

namespace UPF

abbrev MAX_TEIDS : Nat := 65536
abbrev MAX_PDRS : Nat := 4096
abbrev MAX_FARS : Nat := 4096
abbrev MAX_QERS : Nat := 4096
abbrev MAX_URRS : Nat := 4096
abbrev MAX_DL_UES : Nat := 65536

/-! ## Value layouts -/

namespace session_val
abbrev pdr_id : Nat := 0
abbrev qer_id : Nat := 4
abbrev far_id : Nat := 8
end session_val

namespace pdr_val
abbrev far_id : Nat := 0
abbrev qer_id : Nat := 4
abbrev precedence : Nat := 8
abbrev urr_id : Nat := 12
end pdr_val

abbrev FAR_DROP : Nat := 0
abbrev FAR_FORWARD : Nat := 1
abbrev FAR_BUFFER : Nat := 2

namespace far_val
abbrev action : Nat := 0
abbrev out_ifindex : Nat := 4
abbrev peer_ipv4_be : Nat := 8
abbrev out_teid_be : Nat := 12
end far_val

namespace qer_val
abbrev mbr_ul_bps : Nat := 0
abbrev mbr_dl_bps : Nat := 8
abbrev burst_bytes : Nat := 16
end qer_val

namespace qer_bucket_state
abbrev tokens_bytes : Nat := 0
abbrev last_ns : Nat := 8
end qer_bucket_state

namespace qer_bucket_locked
-- The spin lock is four bytes, so the `__u64` after it is at 8.
abbrev tokens_bytes : Nat := 8
abbrev last_ns : Nat := 16
end qer_bucket_locked

namespace tc_bundle_slot
abbrev far_id : Nat := 0
abbrev qer_id : Nat := 4
abbrev urr_id : Nat := 8
abbrev precedence : Nat := 12
abbrev generation : Nat := 16
abbrev size : Nat := 24
end tc_bundle_slot

namespace tc_bundle
abbrev active : Nat := 0
abbrev slot (i : Nat) : Nat := 8 + tc_bundle_slot.size * i
abbrev size : Nat := 56
end tc_bundle

namespace urr_val
abbrev bytes_ul : Nat := 0
abbrev bytes_dl : Nat := 8
abbrev pkts_ul : Nat := 16
abbrev pkts_dl : Nat := 24
end urr_val

namespace dl_ue_val
abbrev teid_be : Nat := 0
abbrev gnb_ipv4_be : Nat := 4
abbrev qfi : Nat := 8
end dl_ue_val

/-! ## The maps -/

inductive Metric where
  | M_RX_TOTAL | M_RX_GTPU | M_RX_GPDU | M_HIT | M_MISS_TEID | M_MISS_PDR
  | M_PASS_NONGTP | M_PASS_CTRL | M_DROP_PARSE
  | M_TC_MISS_FAR | M_TC_FAR_DROP | M_TC_FAR_FORWARD | M_TC_FAR_BUFFER | M_TC_DECAP_ERR
  | M_TC_REDIRECT_ERR | M_TC_QER_PASS | M_TC_QER_DROP | M_TC_URR_UPDATED
  | M_TC_DL_HIT | M_TC_DL_MISS | M_TC_DL_ENCAP_ERR
  deriving DecidableEq

inductive MapType where
  | HASH | ARRAY | PERCPU_ARRAY | PERCPU_HASH | LRU_HASH | PERF_EVENT_ARRAY
  deriving DecidableEq

inductive MapName where
  | teid_session | pdr_table | far_table | qer_table | qer_state | qer_state_shared
  | tc_bundle_map | urr_counters | dl_ue_map | metrics | upf_config_map | perf_events
  deriving DecidableEq

namespace MapName

def type : MapName → MapType
  | teid_session => .LRU_HASH
  | pdr_table | tc_bundle_map | dl_ue_map => .HASH
  | far_table | qer_table | qer_state_shared | upf_config_map => .ARRAY
  | qer_state | metrics => .PERCPU_ARRAY
  | urr_counters => .PERCPU_HASH
  | perf_events => .PERF_EVENT_ARRAY

def max_entries : MapName → Nat
  | teid_session => MAX_TEIDS
  | pdr_table | tc_bundle_map => MAX_PDRS
  | far_table => MAX_FARS
  | qer_table | qer_state | qer_state_shared => MAX_QERS
  | urr_counters => MAX_URRS
  | dl_ue_map => MAX_DL_UES
  | metrics => 21
  | upf_config_map => 1
  | perf_events => 0

def value_size : MapName → Nat
  | teid_session | pdr_table | far_table | qer_state => 16
  | qer_table | qer_state_shared => 24
  | tc_bundle_map => tc_bundle.size
  | urr_counters => 32
  | dl_ue_map => 12
  | metrics => 8
  | upf_config_map | perf_events => 4

end MapName

/-- The errors of the `bpf()` calls. -/
inductive Errno where
  | ENOENT | E2BIG | EEXIST | EINVAL | ENOMEM | EBUSY
  deriving DecidableEq

/-- What the maps hold. -/
structure Maps where
  table : MapName → Finmap fun _ : Nat => Bytes
  percpu : MapName → Finmap fun _ : Nat => Nat → Bytes
  metrics : Nat → Metric → Nat

namespace Maps

/-- Freshly created maps. -/
def empty : Maps := ⟨fun _ => ∅, fun _ => ∅, fun _ _ => 0⟩

def zeros (n : Nat) : Bytes := List.replicate n 0

/-- The value under a key of a map that is not per-CPU. -/
def lookup (s : Maps) (m : MapName) (key : Nat) : Option Bytes :=
  match m.type with
  | .ARRAY => if key < m.max_entries then
      some (((s.table m).lookup key).getD (zeros m.value_size)) else none
  | .HASH | .LRU_HASH => (s.table m).lookup key
  | _ => none

/-- The maps with `val` under `key`. -/
def put (s : Maps) (m : MapName) (key : Nat) (val : Bytes) : Maps :=
  { s with table := Function.update s.table m ((s.table m).insert key val) }

def drop (s : Maps) (m : MapName) (key : Nat) : Maps :=
  { s with table := Function.update s.table m ((s.table m).erase key) }

/-- An update with `BPF_ANY`. The LRU map takes every key; at most
`max_entries` stay if the caller evicts. -/
def update (s : Maps) (m : MapName) (key : Nat) (val : Bytes) : Except Errno Maps :=
  match m.type with
  | .ARRAY => if key < m.max_entries then .ok (s.put m key val) else .error .E2BIG
  | .HASH => if key ∈ s.table m ∨ (s.table m).keys.card < m.max_entries then .ok (s.put m key val)
      else .error .E2BIG
  | .LRU_HASH => .ok (s.put m key val)
  | _ => .error .EINVAL

def delete (s : Maps) (m : MapName) (key : Nat) : Except Errno Maps :=
  match m.type with
  | .HASH | .LRU_HASH => if key ∈ s.table m then .ok (s.drop m key) else .error .ENOENT
  | _ => .error .EINVAL

/-- The LRU map gives up the session of `teid`. -/
def evict (s : Maps) (teid : Nat) : Maps := s.drop .teid_session teid

/-- The `n` bytes that an element of that size has for the bytes `v`. -/
def fit (n : Nat) (v : Bytes) : Bytes := (v ++ zeros n).take n

/-- An element that the datapath writes through a pointer, as CPU `cpu` sees it. -/
def elem (s : Maps) (m : MapName) (key cpu : Nat) : Bytes :=
  fit m.value_size <| match m.type with
    | .PERCPU_ARRAY | .PERCPU_HASH => (((s.percpu m).lookup key).getD fun _ => []) cpu
    | _ => ((s.table m).lookup key).getD []

/-- The maps with `val` under `key` of a per-CPU map, on all CPUs. -/
def putCpu (s : Maps) (m : MapName) (key : Nat) (val : Nat → Bytes) : Maps :=
  { s with percpu := Function.update s.percpu m ((s.percpu m).insert key val) }

def setElem (s : Maps) (m : MapName) (key cpu : Nat) (val : Bytes) : Maps :=
  match m.type with
  | .PERCPU_ARRAY | .PERCPU_HASH => s.putCpu m key
      (Function.update (((s.percpu m).lookup key).getD fun _ => []) cpu val)
  | _ => s.put m key val

/-- An update with `BPF_NOEXIST` of a per-CPU hash map by CPU `cpu`: the other
CPUs' values of a new key are zero. -/
def create (s : Maps) (m : MapName) (key cpu : Nat) (val : Bytes) : Except Errno Maps :=
  if key ∈ s.percpu m then .error .EEXIST
  else if (s.percpu m).keys.card < m.max_entries then
    .ok (s.putCpu m key (Function.update (fun _ => zeros m.value_size) cpu val))
  else .error .E2BIG

/-- `bump`: one more in CPU `cpu`'s counter `idx`. -/
def count (s : Maps) (cpu : Nat) (idx : Metric) : Maps :=
  let now := Function.update (s.metrics cpu) idx ((s.metrics cpu idx + 1) % 2 ^ 64)
  { s with metrics := Function.update s.metrics cpu now }

end Maps

end UPF
