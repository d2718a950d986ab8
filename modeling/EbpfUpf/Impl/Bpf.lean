import EbpfUpf.Framework.Prog
import EbpfUpf.Impl.Maps

/-!
# What a BPF programme can do

The operations of the datapath programmes: loads from and stores to the
packet, the map helpers, reads and writes through the pointers that a lookup
returns, and the other helpers they call. A programme does not depend on what
a pointer is (`P`), so that it cannot make one up.

`kernel` runs a programme on its own on one CPU. A pointer into a map that
only the control plane writes stands for the value found, which nothing
changes during the run; a pointer into a map that the datapath writes names
the element (`Ptr`). Where the control plane writes meanwhile, the value is a
snapshot: `liveKernel` and `htabKernel` have pointers to the elements of
`far_table` and `tc_bundle_map` instead. A packet access beyond the end of the frame faults. What
the kernel is free to choose (the clock, whether the packet can be resized,
what a redirect returns) is in `Helpers`.
-/

open Framework

namespace UPF

/-! ## Operations -/

inductive Op (P : Type) where
  /-- The `n` bytes at `data + off`, as a number in the CPU's byte order. -/
  | load (off n : Nat)
  | store (off : Nat) (val : Bytes)
  /-- `data_end - data`. -/
  | data_end
  /-- `skb->len`. -/
  | len
  | lookup (m : MapName) (key : Nat)
  | read (p : P) (off n : Nat)
  | write (p : P) (off n val : Nat)
  /-- `bpf_map_update_elem` with `BPF_NOEXIST`. -/
  | create (m : MapName) (key : Nat) (val : Bytes)
  | bump (idx : Metric)
  | ktime_get_ns
  | adjust_room (len_diff : Int) (mode flags : Nat)
  | redirect (ifindex flags : Nat)
  | perf_event_output (data : Bytes)
  | spin_lock (p : P)
  | spin_unlock (p : P)
  deriving DecidableEq

@[reducible] def Op.Ans {P : Type} : Op P → Type
  | .load .. | .data_end | .len | .read .. | .ktime_get_ns => Nat
  | .lookup .. => Option P
  | .adjust_room .. | .redirect .. => Int
  | .store .. | .write .. | .create .. | .bump .. | .perf_event_output .. | .spin_lock ..
  | .spin_unlock .. => Unit

/-- The interface of BPF programmes whose map pointers are `P`s. -/
abbrev BpfOps (P : Type) : Interface := ⟨Op P, Op.Ans⟩

abbrev Bpf (P α : Type) := Prog (BpfOps P) α

variable {P : Type}

def load (off n : Nat) : Bpf P Nat := .ask (.load off n) .ret
def store (off : Nat) (val : Bytes) : Bpf P Unit := .ask (.store off val) .ret
def data_end : Bpf P Nat := .ask .data_end .ret
def skb_len : Bpf P Nat := .ask .len .ret
def lookup (m : MapName) (key : Nat) : Bpf P (Option P) := .ask (.lookup m key) .ret
def read (p : P) (off n : Nat) : Bpf P Nat := .ask (.read p off n) .ret
def write (p : P) (off n val : Nat) : Bpf P Unit := .ask (.write p off n val) .ret
def create (m : MapName) (key : Nat) (val : Bytes) : Bpf P Unit := .ask (.create m key val) .ret
def bump (idx : Metric) : Bpf P Unit := .ask (.bump idx) .ret
def ktime_get_ns : Bpf P Nat := .ask .ktime_get_ns .ret
def adjust_room (len_diff : Int) (mode flags : Nat) : Bpf P Int :=
  .ask (.adjust_room len_diff mode flags) .ret
def redirect (ifindex flags : Nat) : Bpf P Int := .ask (.redirect ifindex flags) .ret
def perf_event_output (data : Bytes) : Bpf P Unit := .ask (.perf_event_output data) .ret
def spin_lock (p : P) : Bpf P Unit := .ask (.spin_lock p) .ret
def spin_unlock (p : P) : Bpf P Unit := .ask (.spin_unlock p) .ret

section Bind

variable {α : Type}

@[simp] theorem load_bind (off n : Nat) (f : Nat → Bpf P α) : load off n >>= f = .ask (.load off n) f := rfl
@[simp] theorem store_bind (off : Nat) (val : Bytes) (f : Unit → Bpf P α) :
    store off val >>= f = .ask (.store off val) f := rfl
@[simp] theorem data_end_bind (f : Nat → Bpf P α) : data_end >>= f = .ask .data_end f := rfl
@[simp] theorem skb_len_bind (f : Nat → Bpf P α) : skb_len >>= f = .ask .len f := rfl
@[simp] theorem lookup_bind (m : MapName) (key : Nat) (f : Option P → Bpf P α) :
    lookup m key >>= f = .ask (.lookup m key) f := rfl
@[simp] theorem read_bind (p : P) (off n : Nat) (f : Nat → Bpf P α) :
    read p off n >>= f = .ask (.read p off n) f := rfl
@[simp] theorem write_bind (p : P) (off n val : Nat) (f : Unit → Bpf P α) :
    write p off n val >>= f = .ask (.write p off n val) f := rfl
@[simp] theorem create_bind (m : MapName) (key : Nat) (val : Bytes) (f : Unit → Bpf P α) :
    create m key val >>= f = .ask (.create m key val) f := rfl
@[simp] theorem bump_bind (idx : Metric) (f : Unit → Bpf P α) : bump idx >>= f = .ask (.bump idx) f := rfl
@[simp] theorem ktime_get_ns_bind (f : Nat → Bpf P α) : ktime_get_ns >>= f = .ask .ktime_get_ns f := rfl
@[simp] theorem adjust_room_bind (d : Int) (mode flags : Nat) (f : Int → Bpf P α) :
    adjust_room d mode flags >>= f = .ask (.adjust_room d mode flags) f := rfl
@[simp] theorem redirect_bind (ifindex flags : Nat) (f : Int → Bpf P α) :
    redirect ifindex flags >>= f = .ask (.redirect ifindex flags) f := rfl
@[simp] theorem perf_event_output_bind (data : Bytes) (f : Unit → Bpf P α) :
    perf_event_output data >>= f = .ask (.perf_event_output data) f := rfl
@[simp] theorem spin_lock_bind (p : P) (f : Unit → Bpf P α) :
    spin_lock p >>= f = .ask (.spin_lock p) f := rfl
@[simp] theorem spin_unlock_bind (p : P) (f : Unit → Bpf P α) :
    spin_unlock p >>= f = .ask (.spin_unlock p) f := rfl

end Bind

/-- `bpf_htons` and `bpf_ntohs` on a little-endian machine. -/
def bpf_htons (v : Nat) : Nat := bswap 2 v

/-- `bpf_ntohl` on a little-endian machine. -/
def bpf_ntohl (v : Nat) : Nat := bswap 4 v

/-! ## Header layouts and constants -/

namespace ethhdr
abbrev h_proto : Nat := 12
abbrev size : Nat := 14
end ethhdr

namespace iphdr
-- The low half of the first byte is the header length in words, the high half
-- the version.
abbrev ihl : Nat := 0
abbrev tos : Nat := 1
abbrev tot_len : Nat := 2
abbrev id : Nat := 4
abbrev frag_off : Nat := 6
abbrev ttl : Nat := 8
abbrev protocol : Nat := 9
abbrev check : Nat := 10
abbrev saddr : Nat := 12
abbrev daddr : Nat := 16
abbrev size : Nat := 20
end iphdr

namespace udphdr
abbrev source : Nat := 0
abbrev dest : Nat := 2
abbrev len : Nat := 4
abbrev check : Nat := 6
abbrev size : Nat := 8
end udphdr

abbrev XDP_DROP : Int := 1
abbrev XDP_PASS : Int := 2

abbrev TC_ACT_OK_X : Int := 0
abbrev TC_ACT_SHOT_X : Int := 2
abbrev TC_ACT_REDIRECT_X : Int := 7

abbrev ETH_P_IP_X : Nat := 0x0800
abbrev IPPROTO_UDP_X : Nat := 17
abbrev GTPU_PORT_X : Nat := 2152
abbrev GTPU_GPDU_X : Nat := 0xff
abbrev BPF_ADJ_ROOM_MAC_X : Nat := 1
abbrev BPF_F_ADJ_ROOM_FIXED_GSO_X : Nat := 1

/-! ## Running a programme on its own -/

/-- What a pointer returned by a lookup points to. -/
inductive Ptr where
  | value (m : MapName) (v : Bytes)
  | elem (m : MapName) (key : Nat)
  deriving DecidableEq

/-- The state of a run: the maps, the CPU it is on, the frame, and how often
the clock was read. -/
structure Machine where
  maps : Maps
  cpu : Nat
  frame : Bytes
  ticks : Nat

/-- What the kernel answers where the programme does not determine it. -/
structure Helpers where
  /-- The readings of the clock, in turn; they come as a `__u64`. -/
  ktime_get_ns : Nat → Nat
  /-- The result of a `bpf_skb_adjust_room`; negative is a failure. -/
  adjust_room : Int → Int
  /-- The bytes in the room made by one, before they are written. -/
  room : Nat → Byte
  redirect : Nat → Int

/-- The maps whose values the datapath writes through a pointer. -/
def MapName.datapath : MapName → Bool
  | .qer_state | .qer_state_shared | .urr_counters => true
  | _ => false

namespace Maps

/-- The pointer that a lookup by the datapath returns: to the element where the
datapath writes, and elsewhere a snapshot of the value. -/
def ptr (s : Maps) (m : MapName) (key : Nat) : Option Ptr :=
  match m with
  | .qer_state | .qer_state_shared => if key < m.max_entries then some (.elem m key) else none
  | .urr_counters => if key ∈ s.percpu m then some (.elem m key) else none
  | m => (s.lookup m key).map (.value m)

/-- What a read through a pointer by CPU `cpu` sees. -/
def deref (s : Maps) (cpu : Nat) : Ptr → Bytes
  | .value _ v => v
  | .elem m key => s.elem m key cpu

end Maps

/-- The frame after `bpf_skb_adjust_room` in MAC mode: bytes are inserted
after the Ethernet header, or deleted there. -/
def resize (frame : Bytes) (room : Nat → Byte) (len_diff : Int) : Bytes :=
  if 0 ≤ len_diff then
    frame.take ethhdr.size ++ (List.range len_diff.toNat).map room ++ frame.drop ethhdr.size
  else frame.take ethhdr.size ++ frame.drop (ethhdr.size + (-len_diff).toNat)

def kernel (H : Helpers) : Handler (BpfOps Ptr) Machine
  | .load off n, s => if off + n ≤ s.frame.length then some (s.frame.get off n, s) else none
  | .store off val, s => if off + val.length ≤ s.frame.length then
      some ((), { s with frame := s.frame.set off val }) else none
  | .data_end, s => some (s.frame.length, s)
  | .len, s => some (s.frame.length, s)
  | .lookup m key, s => some (s.maps.ptr m key, s)
  | .read p off n, s => some ((s.maps.deref s.cpu p).get off n, s)
  | .write p off n val, s => match p with
    | .value .. => none
    | .elem m key => if m.datapath then
        let v := (s.maps.elem m key s.cpu).set off (toLE n val)
        some ((), { s with maps := s.maps.setElem m key s.cpu v })
      else none
  | .create m key val, s => match s.maps.create m key s.cpu val with
    | .ok maps => some ((), { s with maps })
    | .error _ => some ((), s)
  | .bump idx, s => some ((), { s with maps := s.maps.count s.cpu idx })
  | .ktime_get_ns, s => some (H.ktime_get_ns s.ticks % 2 ^ 64, { s with ticks := s.ticks + 1 })
  | .adjust_room d _ _, s => if H.adjust_room d < 0 then some (H.adjust_room d, s)
      else some (H.adjust_room d, { s with frame := resize s.frame H.room d })
  | .redirect ifindex _, s => some (H.redirect ifindex, s)
  | .perf_event_output _, s => some ((), s)
  | .spin_lock _, s => some ((), s)
  | .spin_unlock _, s => some ((), s)

end UPF
