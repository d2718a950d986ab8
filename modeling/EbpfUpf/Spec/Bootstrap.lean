import EbpfUpf.Impl.Updates
import EbpfUpf.Spec.Usage

/-!
# The bootstrap race

What may be lost when several CPUs find no entry for a URR and one of them
creates it: one call at most on each of the other CPUs (`Bootstrapped`).
-/

open Framework

namespace UPF

variable {N : Nat}

namespace Updates

/-- The calls for URR `u` that are over. -/
def finished (S : Updates N) (u : BitVec 32) : List (Tried (UrrCall N)) := S.history.filter fun e => e.call.urr_id = u

def kept (S : Updates N) (u : BitVec 32) : List (Tried (UrrCall N)) := (S.finished u).filter fun e => e.kept

/-- The calls for URR `u` that CPU `cpu` has lost. -/
def lostOn (S : Updates N) (u : BitVec 32) (cpu : Fin N) : List (Tried (UrrCall N)) :=
  (S.finished u).filter fun e => e.call.cpu = cpu ∧ ¬ e.kept

/-- The calls for URR `u` that CPU `cpu` has kept. -/
def keptOn (S : Updates N) (u : BitVec 32) (cpu : Fin N) : List (Tried (UrrCall N)) :=
  (S.finished u).filter fun e => e.call.cpu = cpu ∧ e.kept

/-- There is room for another URR. -/
def HasSpace (S : Updates N) (_ : Act N) : Prop := (urrKeys S.maps).card < MAX_URRS

instance (S : Updates N) (a : Act N) : Decidable (S.HasSpace a) := inferInstanceAs (Decidable (_ < _))

end Updates

/-- The bytes of the calls. -/
def callBytes (es : List (Tried (UrrCall N))) : Nat := (es.map fun e => e.call.pkt_len.toNat).sum

/-- What the CPUs have lost of the calls for URR `u`, and what `read_urr` reports: the
calls that were kept and their bytes, on each CPU in 64 bits. -/
structure Bootstrapped (S : Updates N) (u : BitVec 32) : Prop where
  once : ∀ cpu, (S.lostOn u cpu).length ≤ 1
  /-- The call that was over first made the entry. It is kept, and its CPU loses none. -/
  creator : ∀ e es, S.finished u = e :: es → e.kept ∧ S.lostOn u e.call.cpu = []
  report : ∀ raw, IsDump N S.maps .urr_counters raw → ∃ report : UrrReport,
    read_urr raw u.toNat = .ok (if S.finished u = [] then none else some report) ∧
    report.pkts_ul = ∑ cpu, (S.keptOn u cpu).length % 2 ^ 64 ∧
    report.bytes_ul = ∑ cpu, callBytes (S.keptOn u cpu) % 2 ^ 64 ∧
    ((∀ cpu, (S.keptOn u cpu).length < 2 ^ 64) → (S.finished u).length ≤ report.pkts_ul + (N - 1)) ∧
    ((∀ cpu, callBytes (S.keptOn u cpu) < 2 ^ 64) → report.bytes_ul = callBytes (S.kept u))

end UPF
