import EbpfUpf.Proof.Egress
import EbpfUpf.Spec.Downlink

/-!
# Downlink frames

Every run of `upf_tc_egress` comes to `egressed` (`egress_eq`). What it wraps it
takes for a GTP-U packet the next time, whatever the maps are then
(`encapsulated_once`). The packets for UEs that it lets out as they are, though
they are no GTP-U packets, are those whose IPv4 header is short or that are
later fragments, with the port where it is looked for (`covered_iff`).
-/

open Framework

namespace UPF

variable {H : Helpers} {s : Machine} {ue : Bytes}

/-! ## The runs -/

theorem encap_miss (hu : s.maps.lookup .dl_ue_map (daddrOf s.frame) = none) :
    (tc_encap (daddrOf s.frame)).run (kernel H) s =
      some (TC_ACT_OK_X, { s with maps := s.maps.count s.cpu .M_TC_DL_MISS }) := by
  have hk : kernel H (.lookup .dl_ue_map (daddrOf s.frame)) s = some (none, s) := by
    rw [kernel_lookup rfl, hu, Option.map_none]
  rw [tc_encap, lookup_bind]
  exact (Prog.run_ask _ hk).trans rfl

theorem egress_eq (H : Helpers) (s : Machine) : upf_tc_egress.run (kernel H) s = some (egressed H s) := by
  have hl := (egress_leads H s).run_eq
  unfold egressed
  by_cases hp : Plain s.frame
  · rw [if_pos hp] at hl ⊢
    rw [hl]
    cases hu : s.maps.lookup .dl_ue_map (daddrOf s.frame) with
    | none => exact encap_miss hu
    | some ue =>
      rw [(encap_leads hu).run_eq]
      by_cases hr : H.adjust_room 36 < 0
      · simp only [hr, ite_true]
        exact add_outer_err hr _
      · simp only [hr, ite_false]
        exact add_outer_run (s := { s with maps := s.maps.count s.cpu .M_TC_DL_HIT }) hp.ip (Int.not_lt.mp hr) _
  · rw [if_neg hp] at hl ⊢
    exact hl

theorem letOut_eq (H : Helpers) (s : Machine) :
    letOut H s = if (egressed H s).1 = TC_ACT_OK_X then some (egressed H s).2.frame else none := by
  rw [letOut, egress_eq, Option.bind_some]

/-- What is not looked up is let out as it is. -/
theorem letOut_of_not_plain (hp : ¬ Plain s.frame) : letOut H s = some s.frame := by
  rw [letOut_eq, egressed, if_neg hp, if_pos rfl]

/-- So is what is for no UE. -/
theorem letOut_of_miss (hp : Plain s.frame) (hu : s.maps.lookup .dl_ue_map (daddrOf s.frame) = none) :
    letOut H s = some s.frame := by
  rw [letOut_eq, egressed, if_pos hp, hu, if_pos rfl]

theorem letOut_of_hit (hp : Plain s.frame) (hu : s.maps.lookup .dl_ue_map (daddrOf s.frame) = some ue) :
    letOut H s = if H.adjust_room 36 < 0 then none else
      some (encapped s.frame (n3Addr s.maps) (ue.get dl_ue_val.gnb_ipv4_be 4) (ue.get dl_ue_val.teid_be 4)) := by
  rw [letOut_eq, egressed, if_pos hp, hu]
  by_cases hr : H.adjust_room 36 < 0
  · simp [hr]
  · simp [hr]

/-! ## Wrapped once -/

/-- The guard finds the outer UDP header. -/
theorem encapped_isGtpu {f : Bytes} (hl : 34 ≤ f.length) (src dst teid_be : Nat) :
    IsGtpu (encapped f src dst teid_be) := by
  have hlen : (encapped f src dst teid_be).length = f.length + 36 := length_encapped hl
  have hv : (encapped f src dst teid_be).get 14 1 = 0x45 :=
    field_encapped hl 0 rfl (by simp [outerFields, width]) (by decide) (by decide)
  have hi : ihlBytes (encapped f src dst teid_be) = 20 := by rw [ihlBytes, hv]
  refine ⟨?_, ?_, ?_⟩
  · exact field_encapped hl 6 rfl (by simp [outerFields, width]) (by decide) (by decide)
  · omega
  · rw [hi]
    exact field_encapped hl 11 rfl (by simp [outerFields, width]) (by decide) (by decide)

theorem encapped_not_plain {f : Bytes} (hl : 34 ≤ f.length) (src dst teid_be : Nat) :
    ¬ Plain (encapped f src dst teid_be) := fun h => h.inner (encapped_isGtpu hl src dst teid_be)

/-- Any number of runs on a frame that none of them looks up. -/
theorem exec_pass {f : Bytes} (hf : ¬ Plain f) (later : List Pass) : exec Pass.run f later = some f := by
  induction later with
  | nil => rfl
  | cons p later ih => exact exec_cons.mpr ⟨f, letOut_of_not_plain (s := ⟨p.maps, p.cpu, f, p.ticks⟩) hf, ih⟩

/-- A frame that was wrapped is let out unchanged ever after, and any frame let
out is let out unchanged by a second run that finds the same UEs. -/
theorem encapsulated_once (H : Helpers) (s : Machine) (out : Bytes) (h : letOut H s = some out) :
    (Encapsulates H s → ∀ later : List Pass, exec Pass.run out later = some out) ∧
    ∀ p : Pass, (∀ k, p.maps.lookup .dl_ue_map k = s.maps.lookup .dl_ue_map k) → p.run out = some out := by
  by_cases hp : Plain s.frame
  · cases hu : s.maps.lookup .dl_ue_map (daddrOf s.frame) with
    | none =>
      rw [letOut_of_miss hp hu] at h
      obtain rfl := Option.some.inj h
      refine ⟨fun he => ?_, fun p hm => ?_⟩
      · obtain ⟨-, ⟨ue, hu'⟩, -⟩ := encapsulates_iff.mp he
        cases hu.symm.trans hu'
      · exact letOut_of_miss (s := ⟨p.maps, p.cpu, s.frame, p.ticks⟩) hp ((hm _).trans hu)
    | some ue =>
      rw [letOut_of_hit hp hu] at h
      split at h
      · cases h
      obtain rfl := Option.some.inj h
      have hn := encapped_not_plain hp.ip (n3Addr s.maps) (ue.get dl_ue_val.gnb_ipv4_be 4) (ue.get dl_ue_val.teid_be 4)
      exact ⟨fun _ later => exec_pass hn later, fun p _ => letOut_of_not_plain hn⟩
  · rw [letOut_of_not_plain hp] at h
    obtain rfl := Option.some.inj h
    refine ⟨fun _ later => exec_pass hp later, fun p _ => ?_⟩
    exact letOut_of_not_plain (s := ⟨p.maps, p.cpu, s.frame, p.ticks⟩) hp

/-! ## Packets for UEs -/

theorem gtpuPacket_iff {f : Bytes} : GtpuPacket f ↔ IsGtpu f ∧ 5 ≤ f.get 14 1 % 16 ∧ fragOffset f = 0 := by
  have hd : be f (14 + ihlBytes f + udphdr.dest) 2 = GTPU_PORT_X ↔
      f.get (14 + ihlBytes f + 2) 2 = bpf_htons GTPU_PORT_X := by
    constructor
    · intro h
      rw [← h]
      exact (bswap_bswap (Bytes.get_lt f _ 2)).symm
    · intro h
      rw [be, h]
      rfl
  constructor
  · rintro ⟨h1, h2, h3, h4, h5⟩
    exact ⟨⟨h1, h4, hd.mp h5⟩, h2, h3⟩
  · rintro ⟨⟨h1, h4, h5⟩, h2, h3⟩
    exact ⟨h1, h2, h3, h4, hd.mpr h5⟩

/-- What is let out as it is must be a GTP-U packet. -/
theorem covered_of_not_plain (hp : ¬ Plain s.frame) (hl : 34 ≤ s.frame.length) :
    Covered H s ue ↔ GtpuPacket s.frame := by
  have he : egressed H s = (TC_ACT_OK_X, s) := by rw [egressed, if_neg hp]
  rw [Covered, egress_eq, he]
  constructor
  · rintro ⟨a, s', hr, hc⟩
    cases hr
    rcases hc with hc | ⟨-, hc | ⟨-, hc⟩⟩
    · exact absurd hc (by decide)
    · have hlen := congrArg List.length hc
      rw [length_encapped hl] at hlen
      omega
    · exact hc
  · intro hg
    exact ⟨_, s, rfl, .inr ⟨rfl, .inr ⟨rfl, hg⟩⟩⟩

/-- What is looked up is dropped or wrapped. -/
theorem covered_of_plain (hp : Plain s.frame) (hu : s.maps.lookup .dl_ue_map (daddrOf s.frame) = some ue) :
    Covered H s ue := by
  rw [Covered, egress_eq, egressed, if_pos hp, hu]
  by_cases hr : H.adjust_room 36 < 0
  · simp only [hr, ite_true]
    exact ⟨_, _, rfl, .inl rfl⟩
  · simp only [hr, ite_false]
    exact ⟨_, _, rfl, .inr ⟨rfl, .inl rfl⟩⟩

/-- A packet for a UE is covered, unless the guard takes for the port what is
none. -/
theorem covered_iff (H : Helpers) (s : Machine) (ue : Bytes) (hip : s.frame.get 12 2 = bpf_htons ETH_P_IP_X)
    (hl : 34 ≤ s.frame.length) (hu : s.maps.lookup .dl_ue_map (daddrOf s.frame) = some ue) :
    Covered H s ue ↔ (IsGtpu s.frame → 5 ≤ s.frame.get 14 1 % 16 ∧ fragOffset s.frame = 0) := by
  by_cases hg : IsGtpu s.frame
  · rw [covered_of_not_plain (fun hp => hp.inner hg) hl, gtpuPacket_iff]
    simp only [hg, true_and, true_implies]
  · exact iff_of_true (covered_of_plain ⟨hip, hl, hg⟩ hu) fun h => absurd h hg

/-- The maps with the UE 10.45.0.2. -/
theorem exists_ue (f : Bytes) (hf : daddrOf f = daddrOf pingFrame) : ∃ s ue,
    after (install_dl_ue ⟨10, 45, 0, 2⟩ 0x2000 ⟨192, 168, 1, 1⟩ 1) .empty = some s ∧
    s.lookup .dl_ue_map (daddrOf f) = some ue := by
  have h : (after (install_dl_ue ⟨10, 45, 0, 2⟩ 0x2000 ⟨192, 168, 1, 1⟩ 1) .empty).map
      (fun s => (s.lookup .dl_ue_map (daddrOf pingFrame)).isSome) = some true := by decide +kernel
  obtain ⟨s, hs, hu⟩ := Option.map_eq_some_iff.mp h
  obtain ⟨ue, hu⟩ := Option.isSome_iff_exists.mp hu
  exact ⟨s, ue, hs, hf ▸ hu⟩

/-- A ping to the UE is covered. -/
theorem covered_iff_ping : ∃ s ue, s.lookup .dl_ue_map (daddrOf pingFrame) = some ue ∧
    Covered willing ⟨s, 0, pingFrame, 0⟩ ue := by
  obtain ⟨s, ue, -, hu⟩ := exists_ue pingFrame rfl
  refine ⟨s, ue, hu, (covered_iff willing ⟨s, 0, pingFrame, 0⟩ ue ?_ ?_ hu).mpr fun hg => ?_⟩
  · show pingFrame.get 12 2 = bpf_htons ETH_P_IP_X
    decide +kernel
  · show 34 ≤ pingFrame.length
    decide
  · exact absurd hg (show ¬ IsGtpu pingFrame by decide +kernel)

/-- A later fragment to the UE leaves as it came. -/
theorem fragment_uncovered : ∃ s ue, after (install_dl_ue ⟨10, 45, 0, 2⟩ 0x2000 ⟨192, 168, 1, 1⟩ 1) .empty = some s ∧
    strayFragment.get 12 2 = bpf_htons ETH_P_IP_X ∧ 34 ≤ strayFragment.length ∧
    s.lookup .dl_ue_map (daddrOf strayFragment) = some ue ∧
    letOut willing ⟨s, 0, strayFragment, 0⟩ = some strayFragment ∧
    ¬ Covered willing ⟨s, 0, strayFragment, 0⟩ ue := by
  obtain ⟨s, ue, hs, hu⟩ := exists_ue strayFragment (by decide +kernel)
  have hp : ¬ Plain strayFragment := by decide +kernel
  have hl : 34 ≤ strayFragment.length := by decide
  refine ⟨s, ue, hs, by decide +kernel, hl, hu, letOut_of_not_plain (s := ⟨s, 0, strayFragment, 0⟩) hp, fun hc => ?_⟩
  have hg := (covered_of_not_plain (s := ⟨s, 0, strayFragment, 0⟩) hp hl).mp hc
  exact absurd hg.offset (show fragOffset strayFragment ≠ 0 by decide +kernel)

/-- The ping again, from the maps after the first run. -/
theorem encapsulated_once_ping : ∃ s ue, s.lookup .dl_ue_map (daddrOf pingFrame) = some ue ∧
    ∀ later : List Pass, exec Pass.run
      (encapped pingFrame (n3Addr s) (ue.get dl_ue_val.gnb_ipv4_be 4) (ue.get dl_ue_val.teid_be 4)) later =
      some (encapped pingFrame (n3Addr s) (ue.get dl_ue_val.gnb_ipv4_be 4) (ue.get dl_ue_val.teid_be 4)) := by
  obtain ⟨s, ue, -, hu⟩ := exists_ue pingFrame rfl
  have hp : Plain pingFrame := by decide +kernel
  refine ⟨s, ue, hu, (encapsulated_once willing ⟨s, 0, pingFrame, 0⟩ _ (letOut_of_hit hp hu)).1 ?_⟩
  exact encapsulates_iff.mpr ⟨hp, ⟨ue, hu⟩, by decide⟩

end UPF
