import EbpfUpf.Framework.System
import EbpfUpf.Impl.Agent
import EbpfUpf.Impl.Visits

/-!
# The testbed

Everything on the maps at once: any number of processes that make system calls
(the agent, the drivers of the experiments) and of frames that run through any
of the three programmes, on whichever CPUs. A move is one system call or one
operation of one frame's programme; a process that is killed makes no more
moves. Here the lock of a shared bucket excludes: a frame that comes to take it
waits until the frame that holds it has given it back.
-/

open Framework

namespace UPF

/-- A frame, and what its programme has left to do. -/
structure InFlight where
  programme : Programme
  H : Helpers
  cpu : Nat
  frame : Bytes
  ticks : Nat
  prog : Bpf Ptr Int

namespace InFlight

def arrived (programme : Programme) (H : Helpers) (cpu : Nat) (wire : Bytes) : InFlight :=
  ⟨programme, H, cpu, wire, 0, programme.prog⟩

def machine (p : InFlight) (maps : Maps) : Machine := ⟨maps, p.cpu, p.frame, p.ticks⟩

/-- The frame after an operation that leaves `s`, and `prog` to do. -/
def next (p : InFlight) (s : Machine) (prog : Bpf Ptr Int) : InFlight :=
  { p with frame := s.frame, ticks := s.ticks, prog }

end InFlight

inductive Happening where
  /-- A system call of process `j`. -/
  | sys (j : Nat) (o : Syscall) (r : Except Errno Bytes)
  | evict (teid : Nat)
  /-- An operation of frame `i`. -/
  | op (i : Nat) (o : Op Ptr) (r : Op.Ans o)

structure Testbed where
  maps : Maps
  processes : List (Prog SysOps Int)
  frames : List InFlight
  /-- The frame that holds the lock behind a pointer. -/
  holder : Ptr → Option Nat
  /-- What happened, oldest first. -/
  hist : List Happening

namespace Testbed

inductive Move where
  | exec (p : Prog SysOps Int)
  | sys (j : Nat)
  | evict (teid : Nat)
  | arrive (programme : Programme) (H : Helpers) (cpu : Nat) (wire : Bytes)
  | op (i : Nat)

def start (maps : Maps) : Testbed := ⟨maps, [], [], fun _ => none, []⟩

/-- Whether the operation has to wait. -/
def waits (S : Testbed) : Op Ptr → Bool
  | .spin_lock q => (S.holder q).isSome
  | _ => false

/-- Who holds which lock after an operation of frame `i`. -/
def holds (holder : Ptr → Option Nat) (i : Nat) : Op Ptr → Ptr → Option Nat
  | .spin_lock q => Function.update holder q (some i)
  | .spin_unlock q => Function.update holder q none
  | _ => holder

def step (S : Testbed) : Move → Option Testbed
  | .exec p => some { S with processes := S.processes ++ [p] }
  | .sys j => match S.processes[j]? with
    | some (.ask o k) => (UPF.sys o S.maps).map fun x =>
        { S with maps := x.2, processes := S.processes.set j (k x.1), hist := S.hist ++ [.sys j o x.1] }
    | _ => none
  | .evict teid => some { S with maps := S.maps.evict teid, hist := S.hist ++ [.evict teid] }
  | .arrive programme H cpu wire => some { S with frames := S.frames ++ [.arrived programme H cpu wire] }
  | .op i => match S.frames[i]? with
    | none => none
    | some p => match p.prog with
      | .ret _ => none
      | .ask o k => if S.waits o then none else
        (kernel p.H o (p.machine S.maps)).map fun x =>
          { S with maps := x.2.maps, frames := S.frames.set i (p.next x.2 (k x.1)),
                   holder := holds S.holder i o, hist := S.hist ++ [.op i o x.1] }

end Testbed

end UPF
