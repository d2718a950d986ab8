import EbpfUpf.Framework.Prog
import EbpfUpf.Impl.Maps

/-!
# The agent (`loader/agent.py`, `loader/bpf_syscall.py`)

The control plane's functions, as programs that make `bpf()` system calls and
may raise. Python integers are `Int`s: `struct.pack` raises for one that does
not fit its field, and an `OSError` comes from a call that fails. An IPv4
address in dotted form is given by its four numbers.

`sys` is the kernel's side of a system call on the maps. Each one that fails
changes nothing.
-/

open Framework

namespace UPF

inductive PyError where
  | struct_error
  | illegal_address
  | OSError (e : Errno)
  deriving DecidableEq

/-! ## `struct` and `socket` -/

/-- The field codes of a `struct` format. -/
inductive Fmt where
  | H | I | Q
  deriving DecidableEq

def Fmt.width : Fmt → Nat
  | H => 2
  | I => 4
  | Q => 8

def Fmt.fits (c : Fmt) (v : Int) : Prop := 0 ≤ v ∧ v < 256 ^ c.width

instance (c : Fmt) (v : Int) : Decidable (c.fits v) := inferInstanceAs (Decidable (_ ∧ _))

/-- `struct.pack` with a little-endian format. -/
def pack : List (Fmt × Int) → Except PyError Bytes
  | [] => .ok []
  | (c, v) :: rest => do
    if ¬ c.fits v then throw .struct_error
    return toLE c.width v.toNat ++ (← pack rest)

/-- `struct.pack(">I", v)`. -/
def pack_be (v : Int) : Except PyError Bytes := do
  return (← pack [(.I, v)]).reverse

/-- The four numbers of an IPv4 address in dotted form. -/
structure Dotted where
  a : Nat
  b : Nat
  c : Nat
  d : Nat
  deriving DecidableEq

def inet_aton (q : Dotted) : Except PyError Bytes :=
  if q.a < 256 ∧ q.b < 256 ∧ q.c < 256 ∧ q.d < 256 then
    .ok [.ofNat 8 q.a, .ofNat 8 q.b, .ofNat 8 q.c, .ofNat 8 q.d]
  else .error .illegal_address

/-! ## System calls -/

inductive Syscall where
  | update (m : MapName) (key value : Bytes)
  | lookup (m : MapName) (key : Bytes) (value_size : Nat)
  | delete (m : MapName) (key : Bytes)
  deriving DecidableEq

abbrev SysOps : Interface := ⟨Syscall, fun _ => Except Errno Bytes⟩

/-- The kernel's side of a system call. -/
def sys : Handler SysOps Maps
  | .update m key value, s => match s.update m (le key) value with
    | .ok s' => some (.ok [], s')
    | .error e => some (.error e, s)
  | .lookup m key _, s => match s.lookup m (le key) with
    | some v => some (.ok v, s)
    | none => some (.error .ENOENT, s)
  | .delete m key, s => match s.delete m (le key) with
    | .ok s' => some (.ok [], s')
    | .error e => some (.error e, s)

/-- The kernel's side as long as the LRU map has room, taken to evict only when it is full.
There is no answer where it would have to evict a session for another one. -/
def sysLru : Handler SysOps Maps
  | .update .teid_session key value, s =>
    if le key ∈ s.table .teid_session ∨ (s.table .teid_session).keys.card < MAX_TEIDS then
      sys (.update .teid_session key value) s
    else none
  | o, s => sys o s

abbrev Agent (α : Type) := ExceptT PyError (Prog SysOps) α

/-- `_bpf`: a call that fails raises an `OSError`. -/
def bpf (c : Syscall) : Agent Bytes :=
  ExceptT.mk (Prog.ask c fun r => .ret (r.mapError .OSError))

def map_update (m : MapName) (key value : Bytes) : Agent Unit := do
  let _ ← bpf (.update m key value)

def map_lookup (m : MapName) (key : Bytes) (value_size : Nat) : Agent Bytes :=
  bpf (.lookup m key value_size)

/-- `map_delete`: an `OSError` is passed over. -/
def map_delete (m : MapName) (key : Bytes) : Agent Unit :=
  tryCatch (do let _ ← bpf (.delete m key)) fun
    | .OSError _ => pure ()
    | e => throw e

/-! ## Encoders -/

def enc_session (pdr_id qer_id far_id : Int) : Except PyError Bytes :=
  pack [(.I, pdr_id), (.I, qer_id), (.I, far_id), (.I, 0)]

def enc_pdr (far_id qer_id precedence urr_id : Int) : Except PyError Bytes :=
  pack [(.I, far_id), (.I, qer_id), (.I, precedence), (.I, urr_id)]

def enc_far (action out_ifindex peer_ipv4_be out_teid_be : Int) : Except PyError Bytes :=
  pack [(.I, action), (.I, out_ifindex), (.I, peer_ipv4_be), (.I, out_teid_be)]

def enc_qer (mbr_ul_bps mbr_dl_bps burst_bytes : Int) : Except PyError Bytes :=
  pack [(.Q, mbr_ul_bps), (.Q, mbr_dl_bps), (.I, burst_bytes), (.I, 0)]

def enc_u32 (v : Int) : Except PyError Bytes := pack [(.I, v)]

def enc_bundle_slot (far_id qer_id urr_id precedence generation : Int) : Except PyError Bytes :=
  pack [(.I, far_id), (.I, qer_id), (.I, urr_id), (.I, precedence), (.I, generation), (.I, 0)]

def enc_bundle (active : Int) (slot0_bytes slot1_bytes : Bytes) : Except PyError Bytes := do
  return (← pack [(.I, active), (.I, 0)]) ++ slot0_bytes ++ slot1_bytes

/-! ## Rules -/

def install_far (far_id action out_ifindex peer_ipv4_be out_teid_be : Int) : Agent Unit := do
  map_update .far_table (← enc_u32 far_id) (← enc_far action out_ifindex peer_ipv4_be out_teid_be)

def install_qer (qer_id mbr_ul_bps mbr_dl_bps burst_bytes : Int) : Agent Unit := do
  map_update .qer_table (← enc_u32 qer_id) (← enc_qer mbr_ul_bps mbr_dl_bps burst_bytes)

def install_dl_ue (ue_ip_dotted : Dotted) (teid : Int) (gnb_ip_dotted : Dotted) (qfi : Int) :
    Agent Unit := do
  let key ← inet_aton ue_ip_dotted
  let teid_be ← pack_be teid
  let gnb_be ← inet_aton gnb_ip_dotted
  map_update .dl_ue_map key (teid_be ++ gnb_be ++ (← pack [(.H, qfi), (.H, 0)]))

def install_upf_config (n3_addr_dotted : Dotted) : Agent Unit := do
  map_update .upf_config_map (← enc_u32 0) (← inet_aton n3_addr_dotted)

/-- Both slots identical, slot 0 active. -/
def install_tc_bundle (pdr_id far_id qer_id urr_id precedence generation : Int) : Agent Unit := do
  let slot ← enc_bundle_slot far_id qer_id urr_id precedence generation
  map_update .tc_bundle_map (← enc_u32 pdr_id) (← enc_bundle 0 slot slot)

/-- The arguments of `modify_tc_bundle` that may be left out. -/
structure Changes where
  far_id : Option Int
  qer_id : Option Int
  urr_id : Option Int
  precedence : Option Int
  deriving DecidableEq

/-- What `modify_tc_bundle` packs from the value `raw` it looked up: which slot
is active, both slots with the new tuple in the inactive one, and the new
generation. -/
def prep_slots (raw : Bytes) (c : Changes) : Except PyError (Nat × Bytes × Bytes × Int) := do
  let active := raw.get tc_bundle.active 4 % 2
  let slot_off := tc_bundle.slot active
  let cur_far_id := raw.get (slot_off + tc_bundle_slot.far_id) 4
  let cur_qer_id := raw.get (slot_off + tc_bundle_slot.qer_id) 4
  let cur_urr_id := raw.get (slot_off + tc_bundle_slot.urr_id) 4
  let cur_prec := raw.get (slot_off + tc_bundle_slot.precedence) 4
  let cur_gen := raw.get (slot_off + tc_bundle_slot.generation) 4
  let new_far_id := c.far_id.getD cur_far_id
  let new_qer_id := c.qer_id.getD cur_qer_id
  let new_urr_id := c.urr_id.getD cur_urr_id
  let new_prec := c.precedence.getD cur_prec
  let new_gen : Int := cur_gen + 1
  let cur_slot_bytes ← enc_bundle_slot cur_far_id cur_qer_id cur_urr_id cur_prec cur_gen
  let new_slot_bytes ← enc_bundle_slot new_far_id new_qer_id new_urr_id new_prec new_gen
  if active = 0 then
    return (active, cur_slot_bytes, new_slot_bytes, new_gen)
  else
    return (active, new_slot_bytes, cur_slot_bytes, new_gen)

/-- Step 1 writes the new tuple to the inactive slot, step 2 flips `active`. -/
def modify_tc_bundle (pdr_id : Int) (c : Changes) : Agent Int := do
  let raw ← map_lookup .tc_bundle_map (← enc_u32 pdr_id) (4 + 4 + 24 + 24)
  let (active, slot0, slot1, new_gen) ← prep_slots raw c
  let inactive := 1 - active
  map_update .tc_bundle_map (← enc_u32 pdr_id) (← enc_bundle active slot0 slot1)
  map_update .tc_bundle_map (← enc_u32 pdr_id) (← enc_bundle inactive slot0 slot1)
  return new_gen

def install_session (teid pdr_id qer_id far_id precedence urr_id : Int) : Agent Unit := do
  map_update .pdr_table (← enc_u32 pdr_id) (← enc_pdr far_id qer_id precedence urr_id)
  install_tc_bundle pdr_id far_id qer_id urr_id precedence 0
  map_update .teid_session (← enc_u32 teid) (← enc_session pdr_id qer_id far_id)

def remove_session (teid pdr_id : Int) : Agent Unit := do
  map_delete .teid_session (← enc_u32 teid)
  map_delete .pdr_table (← enc_u32 pdr_id)
  map_delete .tc_bundle_map (← enc_u32 pdr_id)

/-! ## Calls -/

/-- A call of one of the functions above, with its arguments. -/
inductive Command where
  | install_far (far_id action out_ifindex peer_ipv4_be out_teid_be : Int)
  | install_qer (qer_id mbr_ul_bps mbr_dl_bps burst_bytes : Int)
  | install_dl_ue (ue_ip_dotted : Dotted) (teid : Int) (gnb_ip_dotted : Dotted) (qfi : Int)
  | install_upf_config (n3_addr_dotted : Dotted)
  | install_session (teid pdr_id qer_id far_id precedence urr_id : Int)
  | modify_tc_bundle (pdr_id : Int) (c : Changes)
  | remove_session (teid pdr_id : Int)
  deriving DecidableEq

/-- What a call does; nobody looks at the generation that `modify_tc_bundle` returns. -/
def Command.call : Command → Agent Unit
  | install_far far_id action out_ifindex peer_ipv4_be out_teid_be =>
    UPF.install_far far_id action out_ifindex peer_ipv4_be out_teid_be
  | install_qer qer_id mbr_ul_bps mbr_dl_bps burst_bytes =>
    UPF.install_qer qer_id mbr_ul_bps mbr_dl_bps burst_bytes
  | install_dl_ue ue_ip_dotted teid gnb_ip_dotted qfi =>
    UPF.install_dl_ue ue_ip_dotted teid gnb_ip_dotted qfi
  | install_upf_config n3_addr_dotted => UPF.install_upf_config n3_addr_dotted
  | install_session teid pdr_id qer_id far_id precedence urr_id =>
    UPF.install_session teid pdr_id qer_id far_id precedence urr_id
  | modify_tc_bundle pdr_id c => do
    let _ ← UPF.modify_tc_bundle pdr_id c
  | remove_session teid pdr_id => UPF.remove_session teid pdr_id

/-- The maps after a call that returns. -/
def after {α : Type} (p : Agent α) (s : Maps) : Option Maps :=
  match Prog.run sys p s with
  | some (.ok _, s') => some s'
  | _ => none

end UPF
