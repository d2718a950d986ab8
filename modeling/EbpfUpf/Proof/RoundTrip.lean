import EbpfUpf.Proof.Egress
import EbpfUpf.Proof.Intent
import EbpfUpf.Proof.Meter

/-!
# The uplink undoes the downlink

A frame in a tunnel is a G-PDU with 36 bytes of outer headers
(`encapped_isGpdu`), which stripped give the frame back (`decapped_encapped`).
So what the downlink encapsulates for a UE, the uplink takes for a packet of
the UE's tunnel, and sends and meters the frame as it was
(`decap_undoes_encap`).
-/

open Framework

namespace UPF

section Tunnel

variable {f : Bytes} {src dst teid_be : Nat}

theorem ihlBytes_encapped (hl : 34 ≤ f.length) : ihlBytes (encapped f src dst teid_be) = 20 := by
  have h0 : (encapped f src dst teid_be).get 14 1 = 0x45 :=
    field_encapped hl 0 rfl (by simp [outerFields, width]) (by decide) (by decide)
  rw [ihlBytes, h0]

theorem outerLen_encapped (hl : 34 ≤ f.length) : outerLen (encapped f src dst teid_be) = 36 := by
  rw [outerLen, ihlBytes_encapped hl]

/-- The Ethernet header is left alone. -/
theorem get_encapped {off n : Nat} (hl : 34 ≤ f.length) (h : off + n ≤ 14) :
    (encapped f src dst teid_be).get off n = f.get off n := by
  have h14 : (f.take 14).length = 14 := by
    rw [List.length_take]
    omega
  rw [encapped, List.append_assoc, Bytes.get_append_left (by omega)]
  conv_rhs => rw [← List.take_append_drop 14 f, Bytes.get_append_left (by omega)]

theorem encapped_isGpdu (hp : Plain f) : IsGpdu (encapped f src dst teid_be) := by
  have hl := hp.ip
  have hlen : (encapped f src dst teid_be).length = f.length + 36 := length_encapped hl
  have hihl : ihlBytes (encapped f src dst teid_be) = 20 := ihlBytes_encapped hl
  have hgtp : gtpOff (encapped f src dst teid_be) = 42 := by rw [gtpOff, hihl]
  refine ⟨by omega, ?_, by omega, ?_, by omega, by omega, ?_, by omega, ?_⟩
  · rw [get_encapped hl (by decide)]
    exact hp.proto
  · exact field_encapped hl 6 rfl (by simp [outerFields, width]) (by decide) (by decide)
  · rw [hihl]
    exact field_encapped hl 11 rfl (by simp [outerFields, width]) (by decide) (by decide)
  · rw [hgtp]
    exact field_encapped hl 15 rfl (by simp [outerFields, width]) (by decide) (by decide)

theorem teidOf_encapped (hl : 34 ≤ f.length) (ht : teid_be < 2 ^ 32) :
    teidOf (encapped f src dst teid_be) = bpf_ntohl teid_be := by
  have h : (encapped f src dst teid_be).get 46 4 = teid_be :=
    field_encapped hl 17 rfl (by simp [outerFields, width]) (by decide) ht
  rw [teidOf, gtpOff, ihlBytes_encapped hl, h]

theorem decapped_encapped (H : Helpers) (hl : 34 ≤ f.length) :
    decapped H (encapped f src dst teid_be) 36 = f := by
  show (encapped f src dst teid_be).take 14 ++ (encapped f src dst teid_be).drop 50 = f
  rw [take_encapped hl, drop_encapped hl, List.take_append_drop]

theorem decap_encapped (b : Build) (H : Helpers) {t : Machine} (hl : 34 ≤ f.length)
    (ht : t.frame = encapped f src dst teid_be) : (decap b H t).frame = f := by
  rw [decap, ht, outerLen_encapped hl]
  exact decapped_encapped H hl

end Tunnel

/-- What the agent wrote for a UE gives the tunnel it was told. -/
theorem written_teid {ue_ip gnb_ip : Dotted} {T qfi : Int} {k ue : Bytes} {s₀ s₁ : Maps}
    (h : after (install_dl_ue ue_ip T gnb_ip qfi) s₀ = some s₁) (hk : inet_aton ue_ip = .ok k)
    (hu : s₁.lookup .dl_ue_map (le k) = some ue) : Fmt.I.fits T ∧ bpf_ntohl (ue.get dl_ue_val.teid_be 4) = T.toNat := by
  obtain ⟨⟨⟩, h⟩ := after_eq_some.mp h
  obtain ⟨k', gnb, hk', hg, ht, hq, rfl⟩ := install_dl_ue_returns h
  cases hk.symm.trans hk'
  rw [lookup_put (.inl rfl), if_pos rfl] at hu
  cases hu
  exact ⟨ht, congrArg DlUe.teid (dlUeOf_dlUeBytes ht hg hq)⟩

/-- What the downlink encapsulates for a UE with TEID `T`, TC ingress takes for a
packet of tunnel `T`; if it forwards it, it sends the frame that the downlink
got, and its QER and its URR are charged that frame's length. -/
theorem decap_undoes_encap {H : Helpers} {s : Machine} {ue_ip gnb_ip : Dotted} {T qfi : Int} {k : Bytes} {s₀ s₁ : Maps}
    (h : Encapsulates H s) (hw : after (install_dl_ue ue_ip T gnb_ip qfi) s₀ = some s₁)
    (hk : inet_aton ue_ip = .ok k) (hd : daddrOf s.frame = le k)
    (hs : s.maps.lookup .dl_ue_map (le k) = s₁.lookup .dl_ue_map (le k)) (b : Build) (H' : Helpers) (t : Machine) :
    ∃ s', upf_tc_egress.run (kernel H) s = some (TC_ACT_OK_X, s') ∧
    let t := { t with frame := s'.frame }
    (∀ key : Nat, .lookup .teid_session key ∈ (upf_tc_ingress b).trace (kernel H') t ↔ (key : Int) = T) ∧
    ∀ r, resolve t.maps T.toNat = some r → r.far.action = FAR_FORWARD → 0 ≤ H'.adjust_room (-36) →
      (∃ x, (admission b r.rule.qer_id (decap b H' t).frame.length).run (kernel H') (decap b H' t) = some (true, x)) →
      sent H' (upf_tc_ingress b) t = [(r.far.out_ifindex, s.frame)] ∧
      ∃ v t', (upf_tc_ingress b).run (kernel H') t = some (v, t') ∧
        Metered b r.rule t.cpu (H'.ktime_get_ns (entered b t).ticks % 2 ^ 64) s.frame.length t.maps t'.maps := by
  obtain ⟨hp, ⟨ue, hue⟩, hr⟩ := encapsulates_iff.mp h
  refine ⟨_, egress_run hp hue hr, ?_⟩
  have hl := hp.ip
  rw [hd, hs] at hue
  obtain ⟨hT, hteid⟩ := written_teid hw hk hue
  generalize hf : encapped s.frame (n3Addr s.maps) (ue.get dl_ue_val.gnb_ipv4_be 4) (ue.get dl_ue_val.teid_be 4) = f
  have g : IsGpdu f := hf ▸ encapped_isGpdu hp
  have ht : teidOf f = T.toNat := hf ▸ (teidOf_encapped hl (Bytes.get_lt _ _ _)).trans hteid
  have ho : outerLen f = 36 := hf ▸ outerLen_encapped hl
  have hdec : decapped H' f 36 = s.frame := hf ▸ decapped_encapped H' hl
  dsimp only
  refine ⟨fun key => ?_, fun r hres ha hroom hq => ?_⟩
  · have hT0 := hT.1
    rw [tc_lookup_iff, and_iff_right g, ht]
    omega
  · have hframe : (decap b H' { t with frame := f }).frame = s.frame := decap_encapped b H' hl hf.symm
    obtain ⟨x, hq⟩ := hq
    rw [hframe] at hq
    obtain ⟨x', hq'⟩ := admit_run b H' (decap b H' { t with frame := f }) r.rule.qer_id s.frame.length
    have hadm : qerAdmits b t.maps r.rule.qer_id t.cpu
        (H'.ktime_get_ns (entered b { t with frame := f }).ticks % 2 ^ 64) s.frame.length = true :=
      (Prod.mk.inj (Option.some.inj (hq'.symm.trans hq))).1
    have hfate : fate b H' (entered b { t with frame := f }) (teidOf f) (outerLen f) =
        .forwarded r.far.out_ifindex := by
      rw [ht, ho]
      refine fate_forward hres ha hroom ?_
      show qerAdmits b t.maps r.rule.qer_id t.cpu _ (decapped H' f 36).length = true
      rw [hdec]
      exact hadm
    obtain ⟨v, t', hrun, -, hacc⟩ := ingress_run (H := H') (s := { t with frame := f }) b g
    rw [hfate] at hacc
    obtain ⟨r', hres', hm, -⟩ := hacc
    rw [ht] at hres'
    cases hres.symm.trans hres'
    refine ⟨?_, v, t', hrun, ?_⟩
    · rw [tc_sent, if_pos g]
      dsimp only
      rw [hfate, hframe]
    · rw [ho] at hm
      have hlen : (decapped H' f 36).length = s.frame.length := congrArg List.length hdec
      exact hlen ▸ hm

/-- A packet for a UE, taken back into the uplink by way of a FAR that forwards, a QER with a rate
and a URR. -/
theorem decap_undoes_encap_ping : ∃ s m s' v t',
    after (install_dl_ue ⟨10, 45, 0, 2⟩ 0x2000 ⟨192, 168, 1, 1⟩ 1) .empty = some s ∧
    after (do
      install_far 1 1 5 0 0
      install_qer 1 8000 0 1000
      install_session 0x2000 1 1 1 32 1) .empty = some m ∧
    upf_tc_egress.run (kernel willing) ⟨s, 0, pingFrame, 0⟩ = some (TC_ACT_OK_X, s') ∧
    sent willing (upf_tc_ingress ⟨false, false, false⟩) ⟨m, 0, s'.frame, 0⟩ = [(5, pingFrame)] ∧
    (upf_tc_ingress ⟨false, false, false⟩).run (kernel willing) ⟨m, 0, s'.frame, 0⟩ = some (v, t') ∧
    Metered ⟨false, false, false⟩ ⟨1, 1, 1, 32, 0⟩ 0 1 pingFrame.length m t'.maps ∧
    Counted 1 0 pingFrame.length m t'.maps := by
  have h : (after (install_dl_ue ⟨10, 45, 0, 2⟩ 0x2000 ⟨192, 168, 1, 1⟩ 1) .empty).map
      (fun s => (s.lookup .dl_ue_map (daddrOf pingFrame)).isSome) = some true := by decide +kernel
  obtain ⟨s, hs, hu⟩ := Option.map_eq_some_iff.mp h
  have hm : (after (do
      install_far 1 1 5 0 0
      install_qer 1 8000 0 1000
      install_session 0x2000 1 1 1 32 1) .empty).map (fun m => (resolve m 0x2000,
        qerAdmits ⟨false, false, false⟩ m 1 0 1 pingFrame.length, decide (HasRoom m 1))) =
      some (some ⟨1, ⟨1, 1, 1, 32, 0⟩, ⟨1, 5, 0, 0⟩⟩, true, true) := by decide +kernel
  obtain ⟨m, hm, hr⟩ := Option.map_eq_some_iff.mp hm
  simp only [Prod.mk.injEq, decide_eq_true_eq] at hr
  obtain ⟨hr, hq, hroom⟩ := hr
  have he : Encapsulates willing ⟨s, 0, pingFrame, 0⟩ :=
    encapsulates_iff.mpr ⟨show Plain pingFrame by decide +kernel, Option.isSome_iff_exists.mp hu, by decide⟩
  obtain ⟨s', hrun, -, hf⟩ := decap_undoes_encap he hs (k := [10, 45, 0, 2]) rfl
    (show daddrOf pingFrame = le [10, 45, 0, 2] by decide +kernel) rfl ⟨false, false, false⟩ willing ⟨m, 0, [], 0⟩
  have hlen : (decap ⟨false, false, false⟩ willing ⟨m, 0, s'.frame, 0⟩).frame.length = pingFrame.length := by
    obtain ⟨hp, ⟨ue, hue⟩, hroom⟩ := encapsulates_iff.mp he
    cases hrun.symm.trans (egress_run hp hue hroom)
    exact congrArg List.length (decap_encapped _ willing hp.ip rfl)
  rw [← hlen] at hq
  obtain ⟨x, hx⟩ := admit_run ⟨false, false, false⟩ willing (decap ⟨false, false, false⟩ willing ⟨m, 0, s'.frame, 0⟩) 1
    (decap ⟨false, false, false⟩ willing ⟨m, 0, s'.frame, 0⟩).frame.length
  obtain ⟨hsent, v, t', hrun', hmet⟩ := hf _ hr rfl (by decide) ⟨x, hx.trans (congrArg (fun r => some (r, x)) hq)⟩
  exact ⟨s, m, s', v, t', hs, hm, hrun, hsent, hrun', hmet, hmet.counted (by decide) hroom⟩

end UPF
