import EbpfUpf.Impl.Bench
import EbpfUpf.Impl.Measure

/-!
# The processes

What the repository's programs do to the maps: the agent as it starts and as it
serves, and the drivers of the experiments. The loop of `toggle_bundle.py` goes
on for a given time; here it makes a given number of rounds. The parts of
`qer_contention.py` before and after the traffic are given apart.
-/

open Framework

namespace UPF

/-- `bootstrap_initial` of `loader/agent.py`. -/
def bootstrap_initial (n out_ifindex : Int) : Agent Unit := do
  install_far 1 FAR_FORWARD out_ifindex 0 0
  install_qer 1 0 0 0
  (List.range n.toNat).forM fun i => install_session (0x1000 + i) (0x2000 + i) 1 1 100 1

namespace toggle_bundle

def pdr_id : Int := 0x2000

def pairs : List (Int × Int) := [(1, 1), (3, 3)]

/-- Round `i` of the loop: the generation that it committed. -/
def toggle (i : Nat) : Agent Int := do
  let (far_id, qer_id) := pairs.getD (i % 2) (0, 0)
  modify_tc_bundle pdr_id ⟨some far_id, some qer_id, none, none⟩

/-- `main`: the last generation. -/
def main (rounds : Nat) : Agent (Option Int) :=
  (List.range rounds).foldlM (fun _ i => do return some (← toggle i)) none

end toggle_bundle

namespace qer_contention

def TEID_BASE : Int := 0x7000

def PDR_BASE : Int := 0x7000

def set_up (nflows mbr_bps burst out_ifindex : Int) : Agent Unit := do
  install_far 1 FAR_FORWARD out_ifindex 0 0
  install_qer 1 mbr_bps 0 burst
  (List.range nflows.toNat).forM fun i => install_session (TEID_BASE + i) (PDR_BASE + i) 1 1 100 1

def clean_up (nflows : Int) : Agent Unit :=
  (List.range nflows.toNat).forM fun i => remove_session (TEID_BASE + i) (PDR_BASE + i)

end qer_contention

/-- The exit status of a Python program that ends like this. -/
def Agent.status {α : Type} (p : Agent α) : Prog SysOps Int := do
  match ← p.run with
  | .ok _ => return 0
  | .error _ => return 1

inductive Process where
  | bootstrap_initial (n out_ifindex : Int)
  /-- A call of the agent while it serves. -/
  | call (c : Command)
  | measure_rule_update (n_rules : Int)
  | toggle_bundle (rounds : Nat)
  | qer_contention_set_up (nflows mbr_bps burst out_ifindex : Int)
  | qer_contention_clean_up (nflows : Int)
  | bench_rule_update (n : Int) (csv : Option Bool)
  | bench_memory (n : Int)

def Process.prog : Process → Prog SysOps Int
  | bootstrap_initial n out_ifindex => (UPF.bootstrap_initial n out_ifindex).status
  | call c => Agent.status c.call
  | measure_rule_update n_rules => (UPF.measure_rule_update n_rules).status
  | toggle_bundle rounds => (toggle_bundle.main rounds).status
  | qer_contention_set_up nflows mbr_bps burst out_ifindex =>
    (qer_contention.set_up nflows mbr_bps burst out_ifindex).status
  | qer_contention_clean_up nflows => (qer_contention.clean_up nflows).status
  | bench_rule_update n csv => (UPF.bench_rule_update n csv).status
  | bench_memory n => (UPF.bench_memory n).status

end UPF
