import EbpfUpf.Impl.Agent

/-!
# The map benchmarks (`test/bench_rule_update.c`, `test/bench_memory.c`)

Two C programs that write to the maps in use. Integers that become keys are
`uint32_t`s. The maps are pinned, and there is memory. The clock and what is
printed of the times are left out; a `main` ends with its exit status, and
`bench_memory` also with the numbers that it prints.
-/

open Framework

namespace UPF

/-- A C `main` on its way; it may end early, with a status. -/
abbrev Main (α : Type) := ExceptT Int (Prog SysOps) α

/-- `bpf_map_update_elem(fd, &key, &value, BPF_ANY) < 0`. -/
def bpf_map_update_elem (m : MapName) (key : Nat) (value : Bytes) : Prog SysOps Bool :=
  .ask (.update m (toLE 4 key) value) fun r => .ret !r.toBool

def bpf_map_delete_elem (m : MapName) (key : Nat) : Prog SysOps Unit :=
  .ask (.delete m (toLE 4 key)) fun _ => .ret ()

namespace Bench

-- The structures as the benchmarks declare them, without a `urr_id`.
def pdr_val (far_id qer_id precedence : Nat) : Bytes :=
  toLE 4 far_id ++ toLE 4 qer_id ++ toLE 4 precedence ++ toLE 4 0

def session_val (pdr_id qer_id far_id : Nat) : Bytes :=
  toLE 4 pdr_id ++ toLE 4 qer_id ++ toLE 4 far_id ++ toLE 4 0

abbrev TEID_BASE : Nat := 0x10000

abbrev PDR_BASE : Nat := 0x20000

/-- The key that `bench_rule_update` touches first. -/
abbrev WARM_UP : Nat := 0xFFFFFFFE

/-- The updates of rule `i`; the result is whether they failed. -/
def update_pdr (i : Nat) : Prog SysOps Bool := bpf_map_update_elem .pdr_table (PDR_BASE + i) (pdr_val 1 1 100)

def update_teid (i : Nat) : Prog SysOps Bool :=
  bpf_map_update_elem .teid_session (TEID_BASE + i) (session_val (PDR_BASE + i) 1 1)

def delete_rule (i : Nat) : Prog SysOps Unit := do
  bpf_map_delete_elem .teid_session (TEID_BASE + i)
  bpf_map_delete_elem .pdr_table (PDR_BASE + i)

/-- One turn of the loop: a call that fails ends the program. -/
def install_rule (i : Nat) : Main Unit := do
  if ← update_pdr i then throw 1
  if ← update_teid i then throw 1

end Bench

open Bench

/-- `csv` is whether `csv_out_path` can be opened, if there is one. -/
def bench_rule_update (n : Int) (csv : Option Bool) : Main Unit := do
  if n ≤ 0 then throw 2
  let _ ← bpf_map_update_elem .pdr_table WARM_UP (pdr_val 1 1 1)
  bpf_map_delete_elem .pdr_table WARM_UP
  (List.range n.toNat).forM install_rule
  (List.range n.toNat).forM fun i => (delete_rule i : Main Unit)
  if csv = some false then throw 1

/-- What `bench_memory` prints. -/
structure MemoryLine where
  n_sessions : Int
  pdr_table_estimate_bytes : Nat
  teid_session_estimate_bytes : Nat
  total_estimate_bytes : Nat
  /-- The quotient, of which one decimal is printed. -/
  per_session_bytes : Rat
  inserts_failed : Nat
  deriving DecidableEq

/-- `memlock_for`: keys have four bytes. -/
def memlock_for (m : MapName) : Nat := m.max_entries * (4 + m.value_size)

/-- One turn of the loop that counts the calls that fail. -/
def Bench.insert_rule (fail i : Nat) : Prog SysOps Nat := do
  let fail := fail + (if ← update_pdr i then 1 else 0)
  return fail + (if ← update_teid i then 1 else 0)

def bench_memory (n : Int) : Main MemoryLine := do
  if n ≤ 0 then throw 2
  (List.range n.toNat).forM fun i => (delete_rule i : Main Unit)
  let fail ← (List.range n.toNat).foldlM (fun fail i => (insert_rule fail i : Main Nat)) 0
  (List.range n.toNat).forM fun i => (delete_rule i : Main Unit)
  let est_t := memlock_for .teid_session
  let est_p := memlock_for .pdr_table
  let total_bytes := est_t + est_p
  return ⟨n, est_p, est_t, total_bytes, (total_bytes : Rat) / (n : Rat), fail⟩

/-- The exit status. -/
def Main.status {α : Type} (p : Main α) : Prog SysOps Int := do
  match ← p.run with
  | .ok _ => return 0
  | .error e => return e

end UPF
