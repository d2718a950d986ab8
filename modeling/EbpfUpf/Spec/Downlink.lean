import EbpfUpf.Framework.System
import EbpfUpf.Spec.Tunnel

/-!
# The downlink

What `upf_tc_egress` comes to, as a function of the frame, the entry of its
destination and whether the kernel makes room (`egressed`). `Covered` is what
the tunnel asks of it for a packet to a UE: the packet is dropped, or wrapped,
or was a GTP-U packet already, where `GtpuPacket` says what one really is.
`Pass` is one more run on what a run let out.
-/

open Framework

namespace UPF

/-- The result of a run, and the state it leaves. -/
def egressed (H : Helpers) (s : Machine) : Int × Machine :=
  if Plain s.frame then
    match s.maps.lookup .dl_ue_map (daddrOf s.frame) with
    | none => (TC_ACT_OK_X, { s with maps := s.maps.count s.cpu .M_TC_DL_MISS })
    | some ue =>
      let hit := s.maps.count s.cpu .M_TC_DL_HIT
      if H.adjust_room 36 < 0 then (TC_ACT_SHOT_X, { s with maps := hit.count s.cpu .M_TC_DL_ENCAP_ERR })
      else (TC_ACT_OK_X, { s with
        maps := hit
        frame := encapped s.frame (n3Addr s.maps) (ue.get dl_ue_val.gnb_ipv4_be 4) (ue.get dl_ue_val.teid_be 4) })
  else (TC_ACT_OK_X, s)

/-- The frame that a run lets out, if it does. -/
def letOut (H : Helpers) (s : Machine) : Option Bytes :=
  (upf_tc_egress.run (kernel H) s).bind fun x => if x.1 = TC_ACT_OK_X then some x.2.frame else none

/-- What a run finds besides the frame. -/
structure Pass where
  H : Helpers
  maps : Maps
  cpu : Nat
  ticks : Nat

def Pass.run (f : Bytes) (p : Pass) : Option Bytes := letOut p.H ⟨p.maps, p.cpu, f, p.ticks⟩

/-! ## Packets for UEs -/

/-- The fragment offset, in units of eight bytes. -/
def fragOffset (f : Bytes) : Nat := be f 20 2 % 2 ^ 13

/-- The IPv4 header is whole, and in the same fragment a UDP header to port 2152
follows it. -/
structure GtpuPacket (f : Bytes) : Prop where
  proto : f.get 23 1 = IPPROTO_UDP_X
  ihl : 5 ≤ f.get 14 1 % 16
  offset : fragOffset f = 0
  udp : 14 + ihlBytes f + udphdr.size ≤ f.length
  dest : be f (14 + ihlBytes f + udphdr.dest) 2 = GTPU_PORT_X

/-- The packet for the UE `ue` is dropped, or let out to its gNB and TEID, or was
a GTP-U packet before. -/
def Covered (H : Helpers) (s : Machine) (ue : Bytes) : Prop :=
  ∃ a s', upf_tc_egress.run (kernel H) s = some (a, s') ∧ (a = TC_ACT_SHOT_X ∨ a = TC_ACT_OK_X ∧
    (s'.frame = encapped s.frame (n3Addr s.maps) (ue.get dl_ue_val.gnb_ipv4_be 4) (ue.get dl_ue_val.teid_be 4) ∨
      s'.frame = s.frame ∧ GtpuPacket s.frame))

/-- A later fragment of a UDP datagram to 10.45.0.2, with 08 68 where a first
one has its port. -/
def strayFragment : Bytes :=
  List.replicate 12 0 ++ [0x08, 0x00] ++
  [0x45] ++ List.replicate 5 0 ++ [0x00, 0xb9, 64, 17] ++ List.replicate 6 0 ++ [10, 45, 0, 2] ++
  [0, 0, 0x08, 0x68] ++ List.replicate 16 0

end UPF
