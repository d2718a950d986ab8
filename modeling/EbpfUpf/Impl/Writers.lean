import EbpfUpf.Framework.Lock
import EbpfUpf.Impl.Agent

/-!
# Two writers

The agent and `test/toggle_bundle.py` are processes of their own, and each may
call `modify_tc_bundle`. A move is one system call of one of them. No operation
takes a lock.
-/

open Framework

namespace UPF

inductive Writer where
  | agent
  | toggle_bundle
  deriving DecidableEq

def Writer.other : Writer → Writer
  | agent => toggle_bundle
  | toggle_bundle => agent

abbrev Writers := Pool SysOps Writer (Except PyError Int) Maps

namespace Writers

/-- Each is to call `modify_tc_bundle` on the same PDR. -/
def start (s : Maps) (pdr_id : Int) (c : Writer → Changes) : Writers :=
  ⟨s, none, fun w => (modify_tc_bundle pdr_id (c w)).run⟩

def step : Writers → Writer → Option Writers := Pool.step (fun _ => sys) (fun _ => false) fun _ => false

end Writers

end UPF
