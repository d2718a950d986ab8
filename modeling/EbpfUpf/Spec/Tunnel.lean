import EbpfUpf.Framework.Checksum
import EbpfUpf.Framework.Layout
import EbpfUpf.Impl.TcEgress
import EbpfUpf.Spec.Gpdu

/-!
# Tunnel packets

What the downlink makes of a packet for a UE: the same packet behind an IPv4, a
UDP and a GTP-U header, 36 bytes after the Ethernet header (`encapped`).
`IsTunnel` says what such a packet is, field by field, where `be` reads a field
in network byte order. `Plain` are the frames that the downlink looks up.
-/

open Framework

namespace UPF

/-- The `n`-byte field at `off`, in network byte order. -/
def be (f : Bytes) (off n : Nat) : Nat := bswap n (f.get off n)

/-! ## Frames that are looked up -/

/-- The frame is to GTP-U's port, wherever its IPv4 header says that the UDP
header is. -/
def IsGtpu (f : Bytes) : Prop :=
  f.get 23 1 = IPPROTO_UDP_X ∧ 14 + ihlBytes f + 8 ≤ f.length ∧
    f.get (14 + ihlBytes f + 2) 2 = bpf_htons GTPU_PORT_X

instance (f : Bytes) : Decidable (IsGtpu f) := inferInstanceAs (Decidable (_ ∧ _ ∧ _))

/-- An IPv4 packet that is not to GTP-U's port. -/
structure Plain (f : Bytes) : Prop where
  proto : f.get 12 2 = bpf_htons ETH_P_IP_X
  ip : 34 ≤ f.length
  inner : ¬ IsGtpu f

theorem plain_iff (f : Bytes) : Plain f ↔ f.get 12 2 = bpf_htons ETH_P_IP_X ∧ 34 ≤ f.length ∧ ¬ IsGtpu f :=
  ⟨fun ⟨a, b, c⟩ => ⟨a, b, c⟩, fun ⟨a, b, c⟩ => ⟨a, b, c⟩⟩

instance (f : Bytes) : Decidable (Plain f) := decidable_of_iff _ (plain_iff f).symm

/-- The destination, as it is on the wire. -/
def daddrOf (f : Bytes) : Nat := f.get 30 4

/-- The address that the tunnel comes from, on the wire. -/
def n3Addr (s : Maps) : Nat := ((s.lookup .upf_config_map 0).map fun cfg => cfg.get 0 4).getD 0

/-! ## Outer headers -/

def ipHeader (total_len src dst check : Nat) : Bytes :=
  layout [(1, 0x45), (1, 0), (2, bpf_htons total_len), (2, 0), (2, 0), (1, 64), (1, IPPROTO_UDP_X), (2, check),
    (4, src), (4, dst)]

def ipCheck (total_len src dst : Nat) : Nat := checksum (sumLE (ipHeader total_len src dst 0))

def udpHeader (len : Nat) : Bytes :=
  layout [(2, bpf_htons GTPU_PORT_X), (2, bpf_htons GTPU_PORT_X), (2, bpf_htons len), (2, 0)]

def gtpHeader (len teid_be : Nat) : Bytes :=
  layout [(1, 0x30), (1, 0xff), (2, bpf_htons len), (4, teid_be)]

/-- The 36 bytes in front of a packet of `n` bytes, from `src` to `dst`, both
as they are on the wire, like `teid_be`; the lengths are taken in 16 bits. -/
def outerHeaders (n src dst teid_be : Nat) : Bytes :=
  let total_len := (n + 36) % 2 ^ 16
  ipHeader total_len src dst (ipCheck total_len src dst) ++ udpHeader ((n + 16) % 2 ^ 16) ++
    gtpHeader (n % 2 ^ 16) teid_be

/-- The frame `f` in a tunnel. -/
def encapped (f : Bytes) (src dst teid_be : Nat) : Bytes :=
  f.take 14 ++ outerHeaders (f.length - 14) src dst teid_be ++ f.drop 14

/-- `out` is the frame `f` in a well-formed tunnel packet. -/
structure IsTunnel (f : Bytes) (src dst teid_be : Nat) (out : Bytes) : Prop where
  length : out.length = f.length + 36
  eth : out.take 14 = f.take 14
  version : out.get 14 1 / 16 = 4
  ihl : out.get 14 1 % 16 = 5
  tot_len : be out 16 2 = out.length - 14
  protocol : out.get 23 1 = 17
  check : Verifies ((out.drop 14).take 20)
  saddr : out.get 26 4 = src
  daddr : out.get 30 4 = dst
  source : be out 34 2 = 2152
  dest : be out 36 2 = 2152
  udp_len : be out 38 2 = out.length - 34
  flags : out.get 42 1 = 0x30
  type : out.get 43 1 = 0xff
  gtp_len : be out 44 2 = out.length - 50
  teid : out.get 46 4 = teid_be
  payload : out.drop 50 = f.drop 14

/-- A packet to 10.45.0.2, with twenty bytes of payload. -/
def pingFrame : Bytes :=
  List.replicate 12 0 ++ [0x08, 0x00] ++
  [0x45] ++ List.replicate 8 0 ++ [1] ++ List.replicate 6 0 ++ [10, 45, 0, 2] ++ List.replicate 20 0

example : Plain pingFrame ∧ daddrOf pingFrame = le [10, 45, 0, 2] := by decide +kernel

/-- The downlink makes room in the frame, and passes it. -/
def Encapsulates (H : Helpers) (s : Machine) : Prop :=
  (∃ s', upf_tc_egress.run (kernel H) s = some (TC_ACT_OK_X, s')) ∧
    ∃ d mode flags, .adjust_room d mode flags ∈ upf_tc_egress.trace (kernel H) s

end UPF
