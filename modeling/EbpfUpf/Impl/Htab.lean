import EbpfUpf.Impl.System

/-!
# The elements of `tc_bundle_map`

A preallocated hash map does not replace a value at once. An update copies it
word by word into a spare element and then publishes that one in place of the
old, which becomes the spare of the next update, whoever still holds a pointer
to it. A lookup by a programme returns a pointer to the element that is
published then, and a read through it sees what the element holds by now.

`Sharing` is one PDR's bundle in two such elements, with the agent modifying it
and one packet on its way. A turn is one step of the agent's system calls (an
update is one turn for each word of `w` bytes, and one to publish) or one
operation of the packet.
-/

open Framework

namespace UPF

/-- The two elements that a PDR's bundle alternates between. -/
structure Htab where
  elem : Nat → Bytes
  /-- The element that is published; the other one is the spare. -/
  live : Nat
  /-- How many words of the update in hand are copied. -/
  copied : Nat

namespace Htab

def spare (t : Htab) : Nat := 1 - t.live

/-- One more word of `v`, the `i`th one. -/
def copy (t : Htab) (w : Nat) (v : Bytes) : Htab :=
  let word := (v.drop (w * t.copied)).take w
  { t with elem := Function.update t.elem t.spare ((t.elem t.spare).set (w * t.copied) word),
           copied := t.copied + 1 }

def publish (t : Htab) : Htab := { t with live := t.spare, copied := 0 }

end Htab

inductive Tick where
  /-- Something that the agent did. -/
  | agent (e : Event)
  /-- A word copied into element `id`. -/
  | copy (id off : Nat) (word : Bytes)
  /-- An operation of the packet. -/
  | op (o : Op Ptr) (r : Op.Ans o)

structure Sharing where
  maps : Maps
  agent : Option (Command × Prog SysOps (Except PyError Unit))
  htab : Htab
  packet : Packet
  /-- What happened, oldest first. -/
  hist : List Tick

inductive Turn where
  | call (c : Changes)
  | agent
  | op

/-- The kernel for the packet: where it has the PDR's bundle, it has a pointer
to an element. -/
def htabKernel (H : Helpers) (pdr_id : Nat) (t : Htab) : Handler (BpfOps Ptr) Machine
  | .lookup .tc_bundle_map key, s =>
    if key = pdr_id then some (some (.elem .tc_bundle_map t.live), s)
    else kernel H (.lookup .tc_bundle_map key) s
  | .read (.elem .tc_bundle_map id) off n, s => some ((t.elem id).get off n, s)
  | o, s => kernel H o s

namespace Sharing

/-- The bundle of `maps` in element 0, and a packet at the start. The spare
element may hold anything. -/
def start (maps : Maps) (bundle spare : Bytes) (p : Packet) : Sharing :=
  ⟨maps, none, ⟨fun id => if id = 0 then bundle else spare, 0, 0⟩, p, []⟩

/-- One turn of the agent that is in the call `c` with `o` to do next. -/
def turn (w : Nat) (S : Sharing) (c : Command) (o : Syscall)
    (k : Except Errno Bytes → Prog SysOps (Except PyError Unit)) : Option Sharing :=
  match o with
  | .update .tc_bundle_map key v =>
    if w * S.htab.copied < v.length then
      some { S with htab := S.htab.copy w v,
                    hist := S.hist ++ [.copy S.htab.spare (w * S.htab.copied) ((v.drop (w * S.htab.copied)).take w)] }
    else
      (sys (.update .tc_bundle_map key (S.htab.elem S.htab.spare)) S.maps).map fun x =>
        { S with maps := x.2, agent := some (c, k x.1), htab := S.htab.publish,
                 hist := S.hist ++ [.agent (.sys o x.1)] }
  | o => (sys o S.maps).map fun x =>
    { S with maps := x.2, agent := some (c, k x.1), hist := S.hist ++ [.agent (.sys o x.1)] }

def step (w : Nat) (pdr_id : Int) (S : Sharing) : Turn → Option Sharing
  | .call c => match S.agent with
    | none => some { S with agent := some (.modify_tc_bundle pdr_id c, (Command.modify_tc_bundle pdr_id c).call.run),
                            hist := S.hist ++ [.agent (.call (.modify_tc_bundle pdr_id c))] }
    | some _ => none
  | .agent => match S.agent with
    | none => none
    | some (c, .ret r) => some { S with agent := none, hist := S.hist ++ [.agent (.done c r)] }
    | some (c, .ask o k) => S.turn w c o k
  | .op => match S.packet.prog with
    | .ret _ => none
    | .ask o k => (htabKernel S.packet.H pdr_id.toNat S.htab o (S.packet.machine S.maps)).map fun x =>
      { S with maps := x.2.maps, packet := S.packet.next x.2 (k x.1), hist := S.hist ++ [.op o x.1] }

end Sharing

end UPF
