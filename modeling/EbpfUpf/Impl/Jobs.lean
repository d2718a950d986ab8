import EbpfUpf.Impl.Agent
import EbpfUpf.Impl.Tc

/-!
# One thing at a time

The agent and TC ingress on one CPU, with nothing going on at the same time: a
job is a call of the agent, an eviction from the map of sessions, or a frame
that is run through TC ingress. A call that raises leaves the maps as they were
when it did.
-/

open Framework

namespace UPF

inductive Job where
  | call (c : Command)
  | evict (teid : Nat)
  | packet (H : Helpers) (wire : Bytes)

/-- The state in which a frame arrives on CPU `cpu`. -/
def arrival (cpu : Nat) (s : Maps) (wire : Bytes) : Machine := ⟨s, cpu, wire, 0⟩

def Job.step (b : Build) (cpu : Nat) (s : Maps) : Job → Option Maps
  | call c => (Prog.run sys c.call.run s).map Prod.snd
  | evict teid => some (s.evict teid)
  | packet H wire => ((upf_tc_ingress b).run (kernel H) (arrival cpu s wire)).map fun x => x.2.maps

end UPF
