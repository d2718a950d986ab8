import EbpfUpf.Impl.System

/-!
# The elements of `far_table`

An array keeps its elements in their places. An update writes the new value
over the old one, and a lookup by a programme returns a pointer to the element,
so that what is read through it is what the FAR is at that time, whenever it
was looked up.

`stepFars` is the user plane function with such pointers, while the agent does
nothing but install FARs. Nothing else that a programme finds in the agent's
maps is written meanwhile, so that there the value found is the value read.
-/

open Framework

namespace UPF

inductive FarMove where
  | install_far (far_id action out_ifindex peer_ipv4_be out_teid_be : Int)
  | sys
  | done
  | stop
  | arrive (hook : Hook) (H : Helpers) (cpu : Nat) (wire : Bytes)
  | op (i : Nat)

/-- The kernel for a packet that has pointers to the elements of `far_table`. -/
def liveKernel (H : Helpers) : Handler (BpfOps Ptr) Machine
  | .lookup .far_table key, s => some (if key < MAX_FARS then some (.elem .far_table key) else none, s)
  | o, s => kernel H o s

def Upf.stepFars (S : Upf) : FarMove → Option Upf
  | .install_far far_id action out_ifindex peer_ipv4_be out_teid_be =>
    S.step (.call (.install_far far_id action out_ifindex peer_ipv4_be out_teid_be))
  | .sys => S.step .sys
  | .done => S.step .done
  | .stop => S.step .stop
  | .arrive hook H cpu wire => S.step (.arrive hook H cpu wire)
  | .op i => match S.packets[i]? with
    | none => none
    | some p => match p.prog with
      | .ret _ => none
      | .ask o k => (liveKernel p.H o (p.machine S.maps)).map fun x =>
          { S with maps := x.2.maps, packets := S.packets.set i (p.next x.2 (k x.1)),
                   hist := S.hist ++ [.op i o x.1] }

end UPF
