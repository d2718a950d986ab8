import EbpfUpf.Framework.Loops
import EbpfUpf.Impl.Processes
import EbpfUpf.Spec.Intent

/-!
# What a start says

`bootstrap_initial` and the set-up of `qer_contention.py` install a FAR and a QER
with number 1, and sessions with consecutive numbers. `Startup` has what they
differ in; `rules` and `sessions` are what they say. The sessions fit as long as
their PDRs do, with the PDRs that are there already, into each of the two maps
that have a limit (`Startup.Fit`). The LRU map takes them all, and evicts no
other session if it has room for all of them (`Startup.Room`).
-/

open Framework

namespace UPF

/-- The first TEID and PDR, and the rules. -/
structure Startup where
  teid : Nat
  pdr : Nat
  far : Far
  qer : Qer
  /-- All keys are 32 bits wide, as long as there are no more sessions than PDRs. -/
  teid_lt : teid + MAX_PDRS < 2 ^ 32
  pdr_lt : pdr + MAX_PDRS < 2 ^ 32

namespace Startup

/-- The FAR and the QER are said. -/
def rules (b : Startup) (i : Intent) : Intent :=
  { i with far := Function.update i.far 1 (some b.far), qer := Function.update i.qer 1 (some b.qer) }

/-- The first `n` sessions are said. -/
def sessions (b : Startup) (n : Nat) (i : Intent) : Intent :=
  { i with pdr := overlay b.teid n (fun j => some (b.pdr + j)) i.pdr,
           rule := overlay b.pdr n (fun _ => some ⟨1, 1, 1, 100, 0⟩) i.rule }

/-- They are taken back. -/
def removed (b : Startup) (n : Nat) (i : Intent) : Intent :=
  { i with pdr := overlay b.teid n (fun _ => none) i.pdr, rule := overlay b.pdr n (fun _ => none) i.rule }

/-- The keys of a map, with the first `n` PDRs. -/
def keys (b : Startup) (s : Maps) (m : MapName) (n : Nat) : Finset Nat := grown (s.table m).keys (b.pdr + ·) n

structure Fit (b : Startup) (s : Maps) (n : Nat) : Prop where
  pdr : (b.keys s .pdr_table n).card ≤ MAX_PDRS
  bundle : (b.keys s .tc_bundle_map n).card ≤ MAX_PDRS

/-- No session has to be evicted for the first `n`. -/
def Room (b : Startup) (s : Maps) (n : Nat) : Prop :=
  (grown (s.table .teid_session).keys (b.teid + ·) n).card ≤ MAX_TEIDS

/-- How a start ends, when `x` was said before its first session: all `n` sessions are said, or
those before the first one that does not fit. -/
def Outcome (b : Startup) (s : Maps) (n : Nat) (x : Intent) (r : Except PyError Unit) (y : Intent) : Prop :=
  (b.Fit s n ∧ r = .ok () ∧ y = b.sessions n x) ∨
  ∃ k < n, b.Fit s k ∧ ¬b.Fit s (k + 1) ∧ r = .error (.OSError .E2BIG) ∧ y = b.sessions k x

/-- How an experiment ends that takes its sessions back: if not all of them fit, it takes back none. -/
def TakenBack (b : Startup) (s : Maps) (n : Nat) (x : Intent) (r : Except PyError Unit) (y : Intent) : Prop :=
  (b.Fit s n ∧ r = .ok () ∧ y = b.removed n x) ∨
  ∃ k < n, b.Fit s k ∧ ¬b.Fit s (k + 1) ∧ r = .error (.OSError .E2BIG) ∧ y = b.sessions k x

end Startup

/-- What `bootstrap_initial` says, and the set-up of `qer_contention.py`. -/
def bootstrap (out_ifindex : Int) : Startup :=
  ⟨0x1000, 0x2000, ⟨FAR_FORWARD, out_ifindex.toNat, 0, 0⟩, ⟨0, 0, 0⟩, by decide, by decide⟩

def contention (mbr_bps burst out_ifindex : Int) : Startup :=
  ⟨0x7000, 0x7000, ⟨FAR_FORWARD, out_ifindex.toNat, 0, 0⟩, ⟨mbr_bps.toNat, 0, burst.toNat⟩, by decide, by decide⟩

/-- The maps hold no more PDRs than they can. -/
structure WithinLimits (s : Maps) : Prop where
  pdr : (s.table .pdr_table).keys.card ≤ MAX_PDRS
  bundle : (s.table .tc_bundle_map).keys.card ≤ MAX_PDRS

end UPF
