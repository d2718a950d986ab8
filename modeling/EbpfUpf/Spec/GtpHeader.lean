import EbpfUpf.Spec.Gpdu
import EbpfUpf.Spec.Tunnel

/-!
# The GTP-U header in full

A G-PDU as it is sent, part by part (`Gpdu`). After the eight mandatory bytes of
its GTP-U header come four more if any of the flags E, S and PN is set, and after
these, if E is, a chain of extension headers. The T-PDU is what follows.
-/

open Framework

namespace UPF

/-- A chain of extension headers of which the first has type `t`. Each one has
its length, in units of four bytes, at the front and the type of the next one at
the end. The type 0 is no header. -/
inductive Extensions : Byte → Bytes → Prop
  | none : Extensions 0 []
  | next {t t' len : Byte} {content rest : Bytes} : t ≠ 0 → content.length + 2 = 4 * len.toNat → Extensions t' rest →
      Extensions t (len :: content ++ t' :: rest)

namespace gtpFlags

/-- N-PDU number, sequence number and extension header, in this order. -/
abbrev PN (flags : Nat) : Prop := flags % 2 = 1
abbrev S (flags : Nat) : Prop := flags / 2 % 2 = 1
abbrev E (flags : Nat) : Prop := flags / 4 % 2 = 1

end gtpFlags

open gtpFlags

/-- What follows the mandatory bytes, under the flags. The extension headers
count only if E is set. -/
inductive OptionalPart (flags : Nat) : Bytes → Prop
  | absent : ¬ E flags → ¬ S flags → ¬ PN flags → OptionalPart flags []
  | fields {seq : Bytes} (npdu t : Byte) : ¬ E flags → S flags ∨ PN flags → seq.length = 2 →
      OptionalPart flags (seq ++ [npdu, t])
  | extended {seq exts : Bytes} (npdu : Byte) {t : Byte} : E flags → seq.length = 2 → Extensions t exts →
      OptionalPart flags (seq ++ [npdu, t] ++ exts)

/-- A G-PDU that is no fragment, in an Ethernet frame, with its lengths right. -/
structure Gpdu where
  eth : Bytes
  ip : Bytes
  udp : Bytes
  gtp : Bytes
  optional : Bytes
  tpdu : Bytes
  eth_length : eth.length = 14
  h_proto : be eth 12 2 = ETH_P_IP_X
  ip_length : ip.length = ip.get 0 1 % 16 * 4
  ip_size : 20 ≤ ip.length
  ip_version : ip.get 0 1 / 16 = 4
  tot_len : be ip 2 2 = ip.length + udp.length + gtp.length + optional.length + tpdu.length
  /-- Neither more fragments, nor an offset. -/
  whole : be ip 6 2 % 2 ^ 14 = 0
  protocol : ip.get 9 1 = IPPROTO_UDP_X
  udp_length : udp.length = 8
  dest : be udp 2 2 = GTPU_PORT_X
  udp_len : be udp 4 2 = udp.length + gtp.length + optional.length + tpdu.length
  gtp_length : gtp.length = 8
  version : gtp.get 0 1 / 32 = 1
  protocol_type : gtp.get 0 1 / 16 % 2 = 1
  msg_type : gtp.get 1 1 = GTPU_GPDU_X
  gtp_len : be gtp 2 2 = optional.length + tpdu.length
  optional_part : OptionalPart (gtp.get 0 1) optional

namespace Gpdu

def flags (g : Gpdu) : Nat := g.gtp.get 0 1

/-- The frame. -/
def wire (g : Gpdu) : Bytes := g.eth ++ g.ip ++ g.udp ++ g.gtp ++ g.optional ++ g.tpdu

/-- None of the three flags is set. -/
def Unflagged (g : Gpdu) : Prop := ¬ E g.flags ∧ ¬ S g.flags ∧ ¬ PN g.flags

end Gpdu

/-- A G-PDU of QoS flow 9, which a PDU session container says. -/
def qfiGpdu : Gpdu where
  eth := List.replicate 12 0 ++ [0x08, 0x00]
  ip := [0x45, 0, 0, 64] ++ List.replicate 5 0 ++ [17] ++ List.replicate 10 0
  udp := [0x08, 0x68, 0x08, 0x68, 0, 44, 0, 0]
  gtp := [0x34, 0xff, 0, 28, 0, 0, 0x20, 0]
  optional := [0, 0, 0, 0x85, 1, 0x10, 9, 0]
  tpdu := 0x45 :: List.replicate 19 0
  eth_length := rfl
  h_proto := rfl
  ip_length := rfl
  ip_size := by decide
  ip_version := rfl
  tot_len := rfl
  whole := rfl
  protocol := rfl
  udp_length := rfl
  dest := rfl
  udp_len := rfl
  gtp_length := rfl
  version := rfl
  protocol_type := rfl
  msg_type := rfl
  gtp_len := rfl
  optional_part := @OptionalPart.extended _ [0, 0] _ 0 0x85 (by decide) rfl
    (@Extensions.next _ 0 1 [0x10, 9] [] (by decide) (by decide) .none)

end UPF
