import EbpfUpf.Impl.Pins
import EbpfUpf.Spec.Gpdu

/-!
# An agent and its datapath

Without a reload the agent works on the maps of the datapath, as if there were
no file descriptors (`Move.direct`). What is loaded later has a datapath that
drops everything (`Unserved`) if the agent does not start again.
-/

open Framework

namespace UPF.Site

/-- The move is no part of a reload. -/
def Move.Settled : Move → Prop
  | wipe | load => False
  | _ => True

def Move.isRestart : Move → Bool
  | restart => true
  | _ => false

/-- What the move does to the only maps there are. -/
def Move.direct (b : Build) (s : Maps) : Move → Option Maps
  | call c => (Prog.run sys c.call.run s).map Prod.snd
  | deliver d => d.step b s
  | _ => some s

/-- No session is known, and XDP drops every G-PDU for that. -/
def Unserved (s : Maps) : Prop :=
  (∀ teid, s.lookup .teid_session teid = none) ∧
  ∀ H cpu wire, IsGpdu wire → .bump .M_MISS_TEID ∈ upf_xdp_uplink.trace (kernel H) (arrival cpu s wire) ∧
    ∃ m, upf_xdp_uplink.run (kernel H) (arrival cpu s wire) = some (XDP_DROP, m)

end UPF.Site
