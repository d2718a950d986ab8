import EbpfUpf.Impl.Tc
import EbpfUpf.Impl.TcEgress
import EbpfUpf.Impl.Xdp

/-!
# Frames in turn

Frames that are run through the three programmes one after the other, each on
some CPU, while others change the maps between any two operations. Only the
programmes write the counters.
-/

open Framework

namespace UPF

/-- The state as an operation finds it: the maps are what others have made of
them, `env n` before the operation numbered `n`. -/
def amidst (env : Nat → Maps) (x : Machine × Nat) : Machine :=
  { x.1 with maps := { env x.2 with metrics := x.1.maps.metrics } }

/-- The kernel, while others change the maps. -/
def kernelAmid (H : Helpers) (env : Nat → Maps) : Handler (BpfOps Ptr) (Machine × Nat)
  | o, x => (kernel H o (amidst env x)).map fun y => (y.1, y.2, x.2 + 1)

inductive Programme where
  | xdp
  | ingress (b : Build)
  | egress

def Programme.prog : Programme → Bpf Ptr Int
  | xdp => upf_xdp_uplink
  | ingress b => upf_tc_ingress b
  | egress => upf_tc_egress

/-- A frame that is run through a programme on CPU `cpu`. -/
structure Visit where
  programme : Programme
  H : Helpers
  env : Nat → Maps
  cpu : Nat
  wire : Bytes

namespace Visit

def start (v : Visit) (s : Maps) : Machine × Nat := (⟨s, v.cpu, v.wire, 0⟩, 0)

def run (v : Visit) (s : Maps) : Option (Int × Machine × Nat) :=
  v.programme.prog.run (kernelAmid v.H v.env) (v.start s)

/-- The operations performed. -/
def trace (v : Visit) (s : Maps) : List (Op Ptr) := v.programme.prog.trace (kernelAmid v.H v.env) (v.start s)

def step (s : Maps) (v : Visit) : Option Maps := (v.run s).map fun x => x.2.1.maps

end Visit

end UPF
