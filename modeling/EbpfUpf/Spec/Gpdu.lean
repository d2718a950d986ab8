import EbpfUpf.Impl.Bpf

/-!
# G-PDUs

What the datapath takes for an uplink G-PDU, as a property of the frame: an
IPv4 header of at least twenty bytes, a UDP header to port 2152 and the eight
mandatory bytes of a GTP-U header of type 0xff, all within the frame. `teid`
is its tunnel, and `outerLen` the number of bytes after the Ethernet header
that carry it.
-/

open Framework

namespace UPF

/-- The length of the IPv4 header, by its own account. -/
def ihlBytes (f : Bytes) : Nat := f.get 14 1 % 16 * 4

/-- The length of the IPv4, UDP and GTP-U headers. -/
def outerLen (f : Bytes) : Nat := ihlBytes f + 16

/-- Where the GTP-U header starts. -/
def gtpOff (f : Bytes) : Nat := 14 + ihlBytes f + 8

/-- The TEID, in host order. -/
def teidOf (f : Bytes) : Nat := bpf_ntohl (f.get (gtpOff f + 4) 4)

/-- The headers are there, each with the value that leads to the next one. -/
structure IsGpdu (f : Bytes) : Prop where
  eth : 14 ≤ f.length
  proto : f.get 12 2 = bpf_htons ETH_P_IP_X
  ip : 34 ≤ f.length
  udp : f.get 23 1 = IPPROTO_UDP_X
  ihl : 20 ≤ ihlBytes f
  l4 : 14 + ihlBytes f + 8 ≤ f.length
  port : f.get (14 + ihlBytes f + 2) 2 = bpf_htons GTPU_PORT_X
  gtp : gtpOff f + 8 ≤ f.length
  type : f.get (gtpOff f + 1) 1 = GTPU_GPDU_X

theorem isGpdu_iff (f : Bytes) : IsGpdu f ↔
    14 ≤ f.length ∧ f.get 12 2 = bpf_htons ETH_P_IP_X ∧ 34 ≤ f.length ∧ f.get 23 1 = IPPROTO_UDP_X ∧
    20 ≤ ihlBytes f ∧ 14 + ihlBytes f + 8 ≤ f.length ∧
    f.get (14 + ihlBytes f + 2) 2 = bpf_htons GTPU_PORT_X ∧ gtpOff f + 8 ≤ f.length ∧
    f.get (gtpOff f + 1) 1 = GTPU_GPDU_X :=
  ⟨fun ⟨a, b, c, d, e, g, h, i, j⟩ => ⟨a, b, c, d, e, g, h, i, j⟩,
    fun ⟨a, b, c, d, e, g, h, i, j⟩ => ⟨a, b, c, d, e, g, h, i, j⟩⟩

instance (f : Bytes) : Decidable (IsGpdu f) := decidable_of_iff _ (isGpdu_iff f).symm

/-- The outer headers of a G-PDU are within the frame. -/
theorem IsGpdu.outerLen_le {f : Bytes} (h : IsGpdu f) : outerLen f ≤ f.length - 14 := by
  have := h.gtp
  simp only [gtpOff] at this
  simp only [outerLen]
  omega

/-- A G-PDU without IPv4 options, and with twenty bytes of payload. -/
def gpduFrame (teid : Nat) : Bytes :=
  List.replicate 12 0 ++ [0x08, 0x00] ++
  [0x45] ++ List.replicate 8 0 ++ [17] ++ List.replicate 10 0 ++
  [0x08, 0x68, 0x08, 0x68, 0, 0, 0, 0] ++
  [0x30, 0xff, 0, 20] ++ (toLE 4 teid).reverse ++ List.replicate 20 0

/-- A kernel that makes room and redirects. -/
def willing : Helpers := ⟨fun t => t + 1, fun _ => 0, fun _ => 0, fun _ => TC_ACT_REDIRECT_X⟩

example : IsGpdu (gpduFrame 0x1000) ∧ teidOf (gpduFrame 0x1000) = 0x1000 := by decide +kernel

end UPF
