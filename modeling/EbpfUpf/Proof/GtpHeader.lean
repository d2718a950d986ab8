import EbpfUpf.Proof.Meter
import EbpfUpf.Spec.GtpHeader

/-!
# What decapsulation strips

TC ingress strips the IPv4 header by its length, and sixteen bytes: the UDP
header and the mandatory part of the GTP-U header (`decapped_wire`). The optional
part and the extension headers stay in front of the T-PDU, so that what it
redirects is the T-PDU just if there are none (`redirected_frame`).
-/

open Framework

namespace UPF

variable {H : Helpers}

theorem OptionalPart.eq_nil_iff {flags : Nat} {bs : Bytes} (h : OptionalPart flags bs) :
    bs = [] ↔ ¬ gtpFlags.E flags ∧ ¬ gtpFlags.S flags ∧ ¬ gtpFlags.PN flags := by
  cases h with
  | absent he hs hp => exact iff_of_true rfl ⟨he, hs, hp⟩
  | fields npdu t he hsp hl =>
    refine iff_of_false (by simp) ?_
    rintro ⟨-, hs, hp⟩
    exact hsp.elim hs hp
  | extended npdu he hl hx =>
    refine iff_of_false (by simp) ?_
    rintro ⟨hn, -⟩
    exact hn he

namespace Gpdu

theorem unflagged_iff (g : Gpdu) : g.Unflagged ↔ g.optional = [] := g.optional_part.eq_nil_iff.symm

/-- A field of a part is a field of the frame, after the parts before it. -/
theorem get_part (front back : Bytes) {part : Bytes} {off n : Nat} (h : off + n ≤ part.length) :
    (front ++ part ++ back).get (front.length + off) n = part.get off n := by
  rw [List.append_assoc, Bytes.get_append_right (by omega), Nat.add_sub_cancel_left, Bytes.get_append_left h]

theorem get_ip (g : Gpdu) {off n : Nat} (h : off + n ≤ g.ip.length) : g.wire.get (14 + off) n = g.ip.get off n := by
  have hp := get_part g.eth (g.udp ++ g.gtp ++ g.optional ++ g.tpdu) h
  simp only [← List.append_assoc, g.eth_length] at hp
  exact hp

theorem get_udp (g : Gpdu) {off n : Nat} (h : off + n ≤ 8) :
    g.wire.get (14 + g.ip.length + off) n = g.udp.get off n := by
  have hp := get_part (g.eth ++ g.ip) (g.gtp ++ g.optional ++ g.tpdu) (h.trans g.udp_length.ge)
  simp only [← List.append_assoc, List.length_append, g.eth_length] at hp
  exact hp

theorem get_gtp (g : Gpdu) {off n : Nat} (h : off + n ≤ 8) :
    g.wire.get (14 + g.ip.length + 8 + off) n = g.gtp.get off n := by
  have hp := get_part (g.eth ++ g.ip ++ g.udp) (g.optional ++ g.tpdu) (h.trans g.gtp_length.ge)
  simp only [← List.append_assoc, List.length_append, g.eth_length, g.udp_length] at hp
  exact hp

theorem length_wire (g : Gpdu) : g.wire.length = 30 + g.ip.length + g.optional.length + g.tpdu.length := by
  simp only [wire, List.length_append, g.eth_length, g.udp_length, g.gtp_length]
  omega

theorem ihlBytes_wire (g : Gpdu) : ihlBytes g.wire = g.ip.length := by
  have hs := g.ip_size
  rw [ihlBytes, ← Nat.add_zero 14, g.get_ip (by omega), ← g.ip_length]

/-- The datapath takes it for what it is. -/
theorem isGpdu_wire (g : Gpdu) : IsGpdu g.wire := by
  have hs := g.ip_size
  have hl := g.length_wire
  have he := g.eth_length
  have hi := g.ihlBytes_wire
  have hbe : ∀ {bs : Bytes} {off v : Nat}, be bs off 2 = v → bs.get off 2 = bpf_htons v := by
    intro bs off v h
    rw [← h]
    exact (bswap_bswap (Bytes.get_lt bs off 2)).symm
  refine ⟨by omega, ?_, by omega, ?_, by omega, by omega, ?_, by rw [gtpOff]; omega, ?_⟩
  · rw [← hbe g.h_proto]
    simp only [wire, List.append_assoc]
    exact Bytes.get_append_left (by omega)
  · rw [← g.protocol]
    exact g.get_ip (show 9 + 1 ≤ g.ip.length by omega)
  · rw [hi, ← hbe g.dest]
    exact g.get_udp (by decide)
  · rw [gtpOff, hi, ← g.msg_type]
    exact g.get_gtp (by decide)

theorem outerLen_wire (g : Gpdu) : outerLen g.wire = g.ip.length + g.udp.length + g.gtp.length := by
  rw [outerLen, ihlBytes_wire, g.udp_length, g.gtp_length]

/-- What is left of the frame. -/
theorem decapped_wire (H : Helpers) (g : Gpdu) :
    decapped H g.wire (outerLen g.wire) = g.eth ++ g.optional ++ g.tpdu := by
  have he := g.eth_length
  have hn : ¬ (0 : Int) ≤ -(outerLen g.wire : Int) := by
    have hs := g.ip_size
    rw [outerLen_wire]
    omega
  have ht : g.wire.take ethhdr.size = g.eth := by
    simp only [wire, List.append_assoc]
    exact List.take_left' he
  have hd : g.wire.drop (ethhdr.size + outerLen g.wire) = g.optional ++ g.tpdu := by
    have hw : g.wire = (g.eth ++ g.ip ++ g.udp ++ g.gtp) ++ (g.optional ++ g.tpdu) := by
      simp only [wire, List.append_assoc]
    rw [outerLen_wire, hw]
    refine List.drop_left' ?_
    simp only [List.length_append, he, ethhdr.size]
    omega
  rw [decapped, resize, if_neg hn, neg_neg, Int.toNat_natCast, ht, hd, List.append_assoc]

end Gpdu

/-- What is redirected has been stripped of its outer headers. -/
theorem sent_decapped {b : Build} {s : Machine} {ifindex : Nat} {out : Bytes}
    (h : (ifindex, out) ∈ sent H (upf_tc_ingress b) s) : out = decapped H s.frame (outerLen s.frame) := by
  rw [tc_sent] at h
  split at h
  · split at h
    · exact (Prod.mk.inj (List.mem_singleton.mp h)).2
    · exact absurd h List.not_mem_nil
  · exact absurd h List.not_mem_nil

/-- Behind the Ethernet header of what is redirected is all that follows the
mandatory part of the GTP-U header. That is the T-PDU just if no flag is set. -/
theorem redirected_frame (g : Gpdu) (b : Build) (H : Helpers) (s : Machine) (hs : s.frame = g.wire) {ifindex : Nat}
    {out : Bytes} (h : (ifindex, out) ∈ sent H (upf_tc_ingress b) s) :
    out = g.eth ++ g.optional ++ g.tpdu ∧ (out = g.eth ++ g.tpdu ↔ g.Unflagged) := by
  have ho := sent_decapped h
  rw [hs, g.decapped_wire] at ho
  refine ⟨ho, ?_⟩
  rw [ho, g.unflagged_iff, List.append_assoc, List.append_cancel_left_eq]
  exact List.append_left_eq_self

/-- The maps of a session that forwards. -/
theorem exists_forwarding : ∃ m, after (do
      install_far 1 1 5 0 0
      install_session 0x2000 1 0 1 32 0) .empty = some m ∧
    sent willing (upf_tc_ingress ⟨false, false, false⟩) ⟨m, 0, qfiGpdu.wire, 0⟩ =
      [(5, qfiGpdu.eth ++ qfiGpdu.optional ++ qfiGpdu.tpdu)] := by
  have hm : (after (do
      install_far 1 1 5 0 0
      install_session 0x2000 1 0 1 32 0) .empty).map (fun m =>
        sent willing (upf_tc_ingress ⟨false, false, false⟩) ⟨m, 0, qfiGpdu.wire, 0⟩) =
      some [(5, qfiGpdu.eth ++ qfiGpdu.optional ++ qfiGpdu.tpdu)] := by decide +kernel
  exact Option.map_eq_some_iff.mp hm

/-- A packet with a QoS flow identifier is forwarded behind its container. -/
theorem redirected_frame_qfi : ∃ s out, s.frame = qfiGpdu.wire ∧ IsGpdu s.frame ∧
    (5, out) ∈ sent willing (upf_tc_ingress ⟨false, false, false⟩) s ∧
    out = qfiGpdu.eth ++ qfiGpdu.optional ++ qfiGpdu.tpdu ∧
    (out = qfiGpdu.eth ++ qfiGpdu.tpdu ↔ qfiGpdu.Unflagged) := by
  obtain ⟨m, -, hm⟩ := exists_forwarding
  have h : (5, qfiGpdu.eth ++ qfiGpdu.optional ++ qfiGpdu.tpdu) ∈
      sent willing (upf_tc_ingress ⟨false, false, false⟩) ⟨m, 0, qfiGpdu.wire, 0⟩ := hm ▸ List.mem_singleton_self _
  exact ⟨_, _, rfl, qfiGpdu.isGpdu_wire, h, redirected_frame qfiGpdu _ willing _ rfl h⟩

theorem container_redirected : ∃ m out, after (do
      install_far 1 1 5 0 0
      install_session 0x2000 1 0 1 32 0) .empty = some m ∧
    (5, out) ∈ sent willing (upf_tc_ingress ⟨false, false, false⟩) ⟨m, 0, qfiGpdu.wire, 0⟩ ∧
    out ≠ qfiGpdu.eth ++ qfiGpdu.tpdu := by
  obtain ⟨m, hm, hs⟩ := exists_forwarding
  exact ⟨m, _, hm, hs ▸ List.mem_singleton_self _, by decide⟩

end UPF
