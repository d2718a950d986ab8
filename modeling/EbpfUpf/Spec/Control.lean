import EbpfUpf.Spec.Fate

/-!
# The control plane's histories

What changes the maps from outside the datapath: the agent's calls that come to
their end, and the evictions of the LRU map of sessions.
-/

open Framework

namespace UPF

inductive Ctl where
  | call (c : Command)
  | evict (teid : Nat)

def Ctl.step (s : Maps) : Ctl → Option Maps
  | call c => after c.call s
  | evict teid => some (s.evict teid)

end UPF
