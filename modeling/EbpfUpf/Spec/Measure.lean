import EbpfUpf.Impl.Measure

/-!
# What a measurement must leave behind

A measurement has keys of its own (`scratchKey`), and leaves the maps `Clean` if
they hold what they held before and a session can be installed that could be
before.
-/

open Framework

namespace UPF

/-- The key of session `i` of a measurement. -/
def scratchKey (i : Nat) : MapName → Option Nat
  | .teid_session => some (0x10000 + i)
  | .pdr_table | .tc_bundle_map => some (0x20000 + i)
  | _ => none

/-- None of the keys of `n` sessions is in use. -/
def Fresh (n : Nat) (s : Maps) : Prop := ∀ i < n, ∀ m, ∀ key ∈ scratchKey i m, key ∉ s.table m

/-- How many keys a map has room for. -/
def room (s : Maps) (m : MapName) : Nat := m.max_entries - (s.table m).keys.card

/-- The maps `s'` are as clean as `s`. -/
structure Clean (s s' : Maps) : Prop where
  content : ∀ m ∈ [MapName.pdr_table, .tc_bundle_map, .teid_session], s'.table m = s.table m
  install : ∀ teid pdr_id qer_id far_id precedence urr_id : Int,
    (after (install_session teid pdr_id qer_id far_id precedence urr_id) s).isSome →
    (after (install_session teid pdr_id qer_id far_id precedence urr_id) s').isSome

end UPF
