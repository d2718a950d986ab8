import EbpfUpf.Framework.Layout
import EbpfUpf.Impl.Agent

/-!
# Rules

What the bytes in the maps say: a session's PDR, a PDR's rule tuple, and a
FAR. A bundle holds two tuples, and `active` says which one is in force
(`activeTuple`). `resolve` is the whole way from a TEID to what is to be done
with its packets, if each map on the way has an entry.
-/

open Framework

namespace UPF

/-- The rules of a PDR. -/
@[ext] structure Tuple where
  far_id : Nat
  qer_id : Nat
  urr_id : Nat
  precedence : Nat
  generation : Nat
  deriving DecidableEq

/-- Each field fits a `__u32`. -/
structure Tuple.Fits (t : Tuple) : Prop where
  far_id : t.far_id < 2 ^ 32
  qer_id : t.qer_id < 2 ^ 32
  urr_id : t.urr_id < 2 ^ 32
  precedence : t.precedence < 2 ^ 32
  generation : t.generation < 2 ^ 32

/-- The fields of a slot. -/
def Tuple.fields (t : Tuple) : List (Nat × Nat) :=
  [(4, t.far_id), (4, t.qer_id), (4, t.urr_id), (4, t.precedence), (4, t.generation), (4, 0)]

/-- A bundle with the tuples `t₀` and `t₁`. -/
def bundle (active : Nat) (t₀ t₁ : Tuple) : Bytes :=
  layout ([(4, active), (4, 0)] ++ t₀.fields ++ t₁.fields)

/-- The tuple in slot `i` of a bundle. -/
def slotTuple (bundle : Bytes) (i : Nat) : Tuple where
  far_id := bundle.get (tc_bundle.slot i + tc_bundle_slot.far_id) 4
  qer_id := bundle.get (tc_bundle.slot i + tc_bundle_slot.qer_id) 4
  urr_id := bundle.get (tc_bundle.slot i + tc_bundle_slot.urr_id) 4
  precedence := bundle.get (tc_bundle.slot i + tc_bundle_slot.precedence) 4
  generation := bundle.get (tc_bundle.slot i + tc_bundle_slot.generation) 4

def activeSlot (bundle : Bytes) : Nat := bundle.get tc_bundle.active 4 % 2

def activeTuple (bundle : Bytes) : Tuple := slotTuple bundle (activeSlot bundle)

/-- The tuple that a modification makes of `t`. -/
def Changes.apply (c : Changes) (t : Tuple) : Tuple where
  far_id := (c.far_id.getD t.far_id).toNat
  qer_id := (c.qer_id.getD t.qer_id).toNat
  urr_id := (c.urr_id.getD t.urr_id).toNat
  precedence := (c.precedence.getD t.precedence).toNat
  generation := t.generation + 1

/-- What is given fits a `__u32`. -/
structure Changes.Fits (c : Changes) : Prop where
  far_id : ∀ v ∈ c.far_id, Fmt.I.fits v
  qer_id : ∀ v ∈ c.qer_id, Fmt.I.fits v
  urr_id : ∀ v ∈ c.urr_id, Fmt.I.fits v
  precedence : ∀ v ∈ c.precedence, Fmt.I.fits v

@[ext] structure Far where
  action : Nat
  out_ifindex : Nat
  peer_ipv4_be : Nat
  out_teid_be : Nat
  deriving DecidableEq

def farOf (v : Bytes) : Far where
  action := v.get far_val.action 4
  out_ifindex := v.get far_val.out_ifindex 4
  peer_ipv4_be := v.get far_val.peer_ipv4_be 4
  out_teid_be := v.get far_val.out_teid_be 4

/-- Where a TEID leads. -/
structure Resolved where
  pdr_id : Nat
  rule : Tuple
  far : Far
  deriving DecidableEq

/-- The PDR of a TEID. -/
def pdrOf (s : Maps) (teid : Nat) : Option Nat :=
  (s.lookup .teid_session teid).map fun sess => sess.get session_val.pdr_id 4

/-- The rules of a PDR that are in force. -/
def ruleOf (s : Maps) (pdr_id : Nat) : Option Tuple :=
  (s.lookup .tc_bundle_map pdr_id).map activeTuple

def resolve (s : Maps) (teid : Nat) : Option Resolved := do
  let pdr_id ← pdrOf s teid
  let rule ← ruleOf s pdr_id
  let far ← (s.lookup .far_table rule.far_id).map farOf
  return ⟨pdr_id, rule, far⟩

end UPF
