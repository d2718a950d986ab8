import EbpfUpf.Framework.Loops
import EbpfUpf.Impl.Bench

/-!
# What a program leaves in the maps

`Leaves new s t` says that the maps `t` are `s` with the changes `new`. The
benchmarks write the keys of their own rules (`Bench.held`) and delete them
(`Bench.cleared`). A rule is taken if its PDR is there or there is room for it,
so the PDRs of the first `n` rules fit when `Bench.pdrs s n` is not too big a
set. The sessions do not make the LRU map evict others when `Bench.teids s n` is
not too big a set either.
-/

open Framework

namespace UPF

/-- A key of a map is left alone, deleted, or given a value. -/
abbrev NewContent := MapName → Nat → Option (Option Bytes)

structure Leaves (new : NewContent) (s t : Maps) : Prop where
  table : ∀ m key, (t.table m).lookup key = (new m key).getD ((s.table m).lookup key)
  percpu : t.percpu = s.percpu
  metrics : t.metrics = s.metrics

namespace Bench

/-- The PDRs of the first `j` rules and the sessions of the first `k`. -/
def held (j k : Nat) : NewContent
  | .pdr_table, key => if PDR_BASE ≤ key ∧ key < PDR_BASE + j then some (some (pdr_val 1 1 100)) else none
  | .teid_session, key => if TEID_BASE ≤ key ∧ key < TEID_BASE + k then
      some (some (session_val (PDR_BASE + (key - TEID_BASE)) 1 1)) else none
  | _, _ => none

/-- Neither PDR nor session of the first `n` rules. -/
def cleared (n : Nat) : NewContent
  | .pdr_table, key => if PDR_BASE ≤ key ∧ key < PDR_BASE + n then some none else none
  | .teid_session, key => if TEID_BASE ≤ key ∧ key < TEID_BASE + n then some none else none
  | _, _ => none

/-- The keys of `pdr_table`, with those of the first `n` rules. -/
def pdrs (s : Maps) (n : Nat) : Finset Nat := grown (s.table .pdr_table).keys (PDR_BASE + ·) n

/-- The keys of `teid_session`, with those of the first `n` rules. -/
def teids (s : Maps) (n : Nat) : Finset Nat := grown (s.table .teid_session).keys (TEID_BASE + ·) n

/-- The maps after the warm-up: a rule of that number is gone. -/
def warmedUp (s : Maps) : Maps := s.drop .pdr_table WARM_UP

/-- The keys of `pdr_table` that no rule of the benchmark has. -/
def others (s : Maps) (n : Nat) : Finset Nat :=
  (s.table .pdr_table).keys.filter fun key => ¬(PDR_BASE ≤ key ∧ key < PDR_BASE + n)

end Bench

end UPF
