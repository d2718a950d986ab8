import EbpfUpf.Impl.Processes
import EbpfUpf.Impl.Testbed
import EbpfUpf.Spec.Verifier

/-!
# What holds on the testbed

The maps stay well formed (`Maps.WellFormed`): each value has the size of its
map's values, no map has a key that it cannot have, and no map but the LRU map
has more keys than it has room for. This needs processes that hand the kernel a whole key and a whole
value (`Sized`): it reads as many bytes as the map's definition says, whatever
the buffer's length is.

What a frame does next stays within the packet and within the values that its
pointers lead to, and a shared bucket is used only under its lock
(`Testbed.InBounds`, `Exclusive`).
-/

open Framework

namespace UPF

structure Maps.WellFormed (s : Maps) : Prop where
  value : ∀ {m k v}, (s.table m).lookup k = some v → v.length = m.value_size
  /-- The value of a CPU that has written none is empty. -/
  percpu_value : ∀ {m k f}, (s.percpu m).lookup k = some f → ∀ cpu, (f cpu).length ≤ m.value_size
  key : ∀ {m k}, k ∈ s.table m → k < 2 ^ 32
  /-- Arrays have no keys but their indices. -/
  array : ∀ {m k}, m.type = .ARRAY → k ∈ s.table m → k < m.max_entries
  percpu_array : ∀ {m k}, m.type = .PERCPU_ARRAY → k ∈ s.percpu m → k < m.max_entries
  hash : ∀ {m}, m.type = .HASH → (s.table m).keys.card ≤ m.max_entries
  percpu_hash : ∀ {m}, m.type = .PERCPU_HASH → (s.percpu m).keys.card ≤ m.max_entries

/-- A system call with a whole key and a whole value. -/
def Sized : Syscall → Prop
  | .update m key value => key.length = 4 ∧ value.length = m.value_size
  | .lookup m key value_size => key.length = 4 ∧ value_size = m.value_size
  | .delete _ key => key.length = 4

/-- The `n` bytes at `off` of what the pointer leads to are there for frame `i`. -/
def Testbed.There (S : Testbed) (i : Nat) (p : InFlight) (q : Ptr) (off n : Nat) : Prop :=
  off + n ≤ (S.maps.deref p.cpu q).length ∧ (q.map = .qer_state_shared → S.holder q = some i)

/-- The operation of frame `i` touches nothing that it should not. -/
def Testbed.InBounds (S : Testbed) (i : Nat) (p : InFlight) : Op Ptr → Prop
  | .load off n => off + n ≤ p.frame.length
  | .store off val => off + val.length ≤ p.frame.length
  | .read q off n => S.There i p q off n
  | .write q off n _ => q.map.datapath = true ∧ S.There i p q off n
  | .create m _ val => val.length = m.value_size
  | _ => True

/-- The operation uses the value behind `q`, or takes its lock. -/
def Op.Uses (q : Ptr) : Op Ptr → Prop
  | .read q' .. | .write q' .. | .spin_lock q' => q' = q
  | _ => False

/-- Between a frame's taking of a lock and the next use of what it protects by another
frame, the lock was given back. -/
def Exclusive (hist : List Happening) : Prop :=
  ∀ {pre mid post : List Happening} {i j : Nat} {q : Ptr} {o : Op Ptr} {r : Op.Ans o},
    hist = pre ++ .op i (.spin_lock q) () :: mid ++ .op j o r :: post → o.Uses q → j ≠ i →
    .op i (.spin_unlock q) () ∈ mid

/-- Every system call so far was made with a whole key and a whole value. -/
def CallsSized (hist : List Happening) : Prop := ∀ {j : Nat} {o : Syscall} {r : Except Errno Bytes},
  .sys j o r ∈ hist → Sized o

/-- The processes that the run starts hand over whole keys and values. -/
def Testbed.AllSized (ms : List Testbed.Move) : Prop := ∀ t, .exec t ∈ ms → t.Asks Sized

/-- The processes that the run starts are the repository's. -/
def Testbed.OfProcesses (ms : List Testbed.Move) : Prop := ∀ t, .exec t ∈ ms → ∃ p : Process, t = p.prog

end UPF
