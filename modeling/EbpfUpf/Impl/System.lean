import EbpfUpf.Framework.Amid
import EbpfUpf.Impl.Agent
import EbpfUpf.Impl.Tc
import EbpfUpf.Impl.Xdp

/-!
# The user plane function

One agent and any number of packets on the same maps. A move is one system
call of the agent or one operation of one packet's programme, so that calls
and packets interleave operation by operation. The agent makes one call after
another; a call that raises is over, and one may be cut short at any point
(`Move.stop`).

A lookup is atomic, and what a programme finds in a map that the control plane
writes it has as a snapshot, the value as it was then (`Ptr.value`). The kernel
promises less: see `Impl.Live` and `Impl.Htab`. A spin lock excludes nobody
here. `Upf.hist` records what happened.
-/

open Framework

namespace UPF

/-- Where a programme is attached. -/
inductive Hook where
  | xdp
  | tc (b : Build)
  deriving DecidableEq

def Hook.programme : Hook → Bpf Ptr Int
  | xdp => upf_xdp_uplink
  | tc b => upf_tc_ingress b

/-- A packet, and what its programme has left to do. -/
structure Packet where
  hook : Hook
  H : Helpers
  cpu : Nat
  /-- The frame as it came. -/
  wire : Bytes
  frame : Bytes
  ticks : Nat
  prog : Bpf Ptr Int

namespace Packet

def arrived (hook : Hook) (H : Helpers) (cpu : Nat) (wire : Bytes) : Packet :=
  ⟨hook, H, cpu, wire, wire, 0, hook.programme⟩

def machine (p : Packet) (maps : Maps) : Machine := ⟨maps, p.cpu, p.frame, p.ticks⟩

/-- The packet after an operation that leaves `s`, and `prog` to do. -/
def next (p : Packet) (s : Machine) (prog : Bpf Ptr Int) : Packet :=
  { p with frame := s.frame, ticks := s.ticks, prog }

end Packet

inductive Event where
  | call (c : Command)
  | sys (o : Syscall) (r : Except Errno Bytes)
  | done (c : Command) (r : Except PyError Unit)
  | stop (c : Command)
  | evict (teid : Nat)
  /-- An operation of packet `i`. -/
  | op (i : Nat) (o : Op Ptr) (r : Op.Ans o)

structure Upf where
  maps : Maps
  /-- The call that the agent is in, and what is left of it. -/
  agent : Option (Command × Prog SysOps (Except PyError Unit))
  packets : List Packet
  /-- What happened, oldest first. -/
  hist : List Event

inductive Move where
  | call (c : Command)
  | sys
  | done
  | stop
  | evict (teid : Nat)
  | arrive (hook : Hook) (H : Helpers) (cpu : Nat) (wire : Bytes)
  | op (i : Nat)

namespace Upf

def start (maps : Maps) : Upf := ⟨maps, none, [], []⟩

def step (S : Upf) : Move → Option Upf
  | .call c => match S.agent with
    | none => some { S with agent := some (c, c.call.run), hist := S.hist ++ [.call c] }
    | some _ => none
  | .sys => match S.agent with
    | some (c, .ask o k) => (UPF.sys o S.maps).map fun x =>
        { S with maps := x.2, agent := some (c, k x.1), hist := S.hist ++ [.sys o x.1] }
    | _ => none
  | .done => match S.agent with
    | some (c, .ret r) => some { S with agent := none, hist := S.hist ++ [.done c r] }
    | _ => none
  | .stop => match S.agent with
    | some (c, _) => some { S with agent := none, hist := S.hist ++ [.stop c] }
    | none => none
  | .evict teid => some { S with maps := S.maps.evict teid, hist := S.hist ++ [.evict teid] }
  | .arrive hook H cpu wire => some { S with packets := S.packets ++ [.arrived hook H cpu wire] }
  | .op i => match S.packets[i]? with
    | none => none
    | some p => match p.prog with
      | .ret _ => none
      | .ask o k => (kernel p.H o (p.machine S.maps)).map fun x =>
          { S with maps := x.2.maps, packets := S.packets.set i (p.next x.2 (k x.1)),
                   hist := S.hist ++ [.op i o x.1] }

end Upf

/-- What an event tells of packet `i`. -/
def Event.of (i : Nat) : Event → Option ((o : Op Ptr) × Op.Ans o)
  | op j o r => if j = i then some ⟨o, r⟩ else none
  | _ => none

/-- What packet `i` did so far. -/
def Upf.log (S : Upf) (i : Nat) : Log (BpfOps Ptr) := S.hist.filterMap (Event.of i)

end UPF
