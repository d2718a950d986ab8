import EbpfUpf.Impl.Contention

/-!
# Pinned maps (`loader/bpf_syscall.py`, `scripts/reload_all.sh`)

The agent opens a map by its pin when it first uses it, and uses the file
descriptor from then on (`PinnedMapCache`). A reload of the datapath removes the
pins, and loads the programmes with fresh maps, which it pins. Every map of a
load is known by the number of the load.
-/

open Framework

namespace UPF

structure Site where
  /-- `_fds` of the agent: the load whose map it is. -/
  fds : MapName → Option Nat
  /-- The load that is pinned and attached. -/
  pinned : Option Nat
  loads : List Maps

def Syscall.map : Syscall → MapName
  | update m .. | lookup m .. | delete m .. => m

namespace Site

/-- One load, and an agent that has opened nothing. -/
def start (maps : Maps) : Site := ⟨fun _ => none, some 0, [maps]⟩

/-- `PinnedMapCache.fd`. -/
def fd (S : Site) (name : MapName) : Option Nat := (S.fds name).or S.pinned

/-- The methods of `PinnedMapCache`. `bpf_obj_get` raises if there is no pin. -/
def PinnedMapCache : Handler SysOps Site := fun c S =>
  match S.fd c.map with
  | none => some (.error .ENOENT, S)
  | some g => do
    let (r, maps) ← sys c (S.loads.getD g .empty)
    return (r, { S with fds := Function.update S.fds c.map (some g), loads := S.loads.set g maps })

inductive Move where
  | call (c : Command)
  | deliver (d : Delivery)
  /-- `rm -rf "$PIN"`, after the programmes were detached. -/
  | wipe
  /-- The programmes are loaded, and attached. -/
  | load
  /-- The agent ends, and starts as another process. -/
  | restart

def step (b : Build) (S : Site) : Move → Option Site
  | .call c => (Prog.run PinnedMapCache c.call.run S).map Prod.snd
  | .deliver d => do
    let g ← S.pinned
    let maps ← d.step b (S.loads.getD g .empty)
    return { S with loads := S.loads.set g maps }
  | .wipe => some { S with pinned := none }
  | .load => some { S with pinned := some S.loads.length, loads := S.loads ++ [.empty] }
  | .restart => some { S with fds := fun _ => none }

end Site

end UPF
