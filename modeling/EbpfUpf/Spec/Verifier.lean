import EbpfUpf.Framework.Typestate
import EbpfUpf.Impl.Visits

/-!
# What the kernel's verifier asks of a programme

A programme may touch the bytes of the packet only as far as it has found them
to be there, by the end of the packet as it read it last, and a change of the
packet's size makes that void. It may use a pointer into a map only if a lookup
returned it, and only within a value of that map, and it may call no helper
while it holds a lock, which it must have given back in the end (`verifier`).
That a shared bucket is used only by who holds its lock is not something the
verifier asks, but it is what the lock is for, and it is asked here as well.
What a programme may be answered is anything of the right kind: any bytes, any
end of the packet, and from a lookup nothing or a pointer into that map.
-/

open Framework

namespace UPF

/-- The map that a pointer leads into. -/
def Ptr.map : Ptr → MapName
  | value m _ | elem m _ => m

/-- A lookup of `key` in `m` may return the pointer. -/
def Ptr.Of (m : MapName) (key : Nat) : Ptr → Prop
  | value m' _ => m' = m ∧ m.datapath = false
  | elem m' key' => m' = m ∧ key' = key ∧ m.datapath = true

/-- What is known at a point of a programme. -/
structure Known where
  /-- The end of the packet, if it was read since the packet had its size. -/
  bytes : Option Nat
  /-- The pointers that lookups returned. -/
  held : List Ptr
  /-- The pointer to the lock that is taken. -/
  lock : Option Ptr

namespace Known

def start : Known := ⟨none, [], none⟩

/-- The `n` bytes at `off` are in the packet. -/
def Within (K : Known) (off n : Nat) : Prop := ∃ e, K.bytes = some e ∧ off + n ≤ e

/-- The `n` bytes at `off` of the value that `p` leads to may be used. -/
def Valid (K : Known) (p : Ptr) (off n : Nat) : Prop :=
  p ∈ K.held ∧ off + n ≤ p.map.value_size ∧ (p.map = .qer_state_shared → K.lock = some p)

def Allowed (K : Known) : Op Ptr → Prop
  | .load off n => K.Within off n
  | .store off val => K.Within off val.length
  | .data_end | .len => True
  | .read p off n => K.Valid p off n
  | .write p off n _ => p.map.datapath = true ∧ K.Valid p off n
  | .create m _ val => K.lock = none ∧ m.type = .PERCPU_HASH ∧ val.length = m.value_size
  | .spin_lock p => K.lock = none ∧ p ∈ K.held ∧ p.map = .qer_state_shared
  | .spin_unlock p => K.lock = some p
  | .lookup .. | .bump _ | .ktime_get_ns | .adjust_room .. | .redirect .. | .perf_event_output _ => K.lock = none

def Possible (_ : Known) : (o : Op Ptr) → Op.Ans o → Prop
  | .lookup m key, r => ∀ p, r = some p → p.Of m key
  | _, _ => True

def next (K : Known) : (o : Op Ptr) → Op.Ans o → Known
  | .data_end, e => { K with bytes := some e }
  | .lookup .., r => { K with held := r.toList ++ K.held }
  | .adjust_room .., _ => { K with bytes := none }
  | .spin_lock p, _ => { K with lock := some p }
  | .spin_unlock _, _ => { K with lock := none }
  | _, _ => K

end Known

def verifier : Discipline (BpfOps Ptr) Known := ⟨Known.Allowed, Known.Possible, Known.next⟩

/-- A programme gives back its lock. -/
def Unlocked (_ : Int) (K : Known) : Prop := K.lock = none

end UPF
