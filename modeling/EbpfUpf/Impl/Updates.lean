import EbpfUpf.Framework.InsertOnce
import EbpfUpf.Impl.Tc

/-!
# Updates of the URRs on several CPUs

`upf_urr_update` on `N` CPUs at once, in two steps: the lookup with the update
of the entry that it finds, and, where it finds none, the insert. Between the
two the other CPUs go on.
-/

open Framework

namespace UPF

variable {N : Nat}

/-- A call of `upf_urr_update`. -/
structure UrrCall (N : Nat) where
  cpu : Fin N
  urr_id : BitVec 32
  pkt_len : BitVec 32
  deriving DecidableEq

structure Updates (N : Nat) where
  maps : Maps
  /-- The call that a CPU is to insert for, and what it has left to do. -/
  left : Fin N → Option (UrrCall N × Bpf Ptr Unit)
  /-- The calls that are over, oldest first. A call is kept unless it came to an
  insert that failed. -/
  history : List (Tried (UrrCall N))

inductive Act (N : Nat) where
  | call (c : UrrCall N)
  | insert (cpu : Fin N)
  deriving DecidableEq

def isCreate : Op Ptr → Bool
  | .create .. => true
  | _ => false

/-- Whether an insert for the URR succeeds. -/
def Maps.inserts (s : Maps) (urr_id cpu : Nat) : Bool :=
  match s.create .urr_counters urr_id cpu [] with
  | .ok _ => true
  | .error _ => false

namespace Updates

def start (s : Maps) : Updates N := ⟨s, fun _ => none, []⟩

/-- The CPU as it runs the call. -/
def machine (S : Updates N) (cpu : Fin N) : Machine := ⟨S.maps, cpu, [], 0⟩

def step (H : Helpers) (S : Updates N) : Act N → Option (Updates N)
  | .call c => match S.left c.cpu with
    | some _ => none
    | none =>
      match Prog.upTo (kernel H) isCreate (upf_urr_update c.urr_id.toNat c.pkt_len.toNat) (S.machine c.cpu) with
      | none => none
      | some (.ret (), s) => some ⟨s.maps, S.left, S.history ++ [⟨c, true⟩]⟩
      | some (p, s) => some ⟨s.maps, Function.update S.left c.cpu (some (c, p)), S.history⟩
  | .insert cpu => match S.left cpu with
    | none => none
    | some (c, p) => (p.run (kernel H) (S.machine cpu)).map fun x =>
      ⟨x.2.maps, Function.update S.left cpu none, S.history ++ [⟨c, S.maps.inserts c.urr_id.toNat cpu⟩]⟩

end Updates

end UPF
