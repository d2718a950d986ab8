import EbpfUpf.Framework.Faults
import EbpfUpf.Framework.System
import EbpfUpf.Impl.Visits
import EbpfUpf.Spec.Rules

/-!
# Calls whose system calls may fail

A system call may fail for reasons that the maps do not show: then it has
changed nothing, and `_bpf` raises. `attempt` is a call with given failures,
which ends with what it returns or raises and the maps it leaves. `Later` is what
may happen after it: other calls, with failures of their own, and packets.
-/

open Framework

namespace UPF

/-- The answer to a system call that fails. -/
def refused (e : Errno) (_ : Syscall) : Except Errno Bytes := .error e

/-- A call, with the system calls failing that `faults` says. -/
def attempt {α : Type} (p : Agent α) (s : Maps) (faults : List (Option Errno)) : Option (Except PyError α × Maps) :=
  (Prog.run (faulty refused sys) p.run (s, faults)).map fun x => (x.1, x.2.1)

inductive Later where
  | call (c : Command) (faults : List (Option Errno))
  | evict (teid : Nat)
  | packet (p : Programme) (H : Helpers) (cpu : Nat) (wire : Bytes)

/-- What comes of the maps. A call may also raise. -/
def Later.step (s : Maps) : Later → Option Maps
  | call c faults => (attempt c.call s faults).map Prod.snd
  | evict teid => some (s.evict teid)
  | packet p H cpu wire => (p.prog.run (kernel H) ⟨s, cpu, wire, 0⟩).map fun x => x.2.maps

end UPF
