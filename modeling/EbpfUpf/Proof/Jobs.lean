import EbpfUpf.Proof.Meter
import EbpfUpf.Spec.Volume

/-!
# What a job counts

The agent counts nothing (`call_uncounted`). A frame that TC ingress forwards
is counted under its URR, and no other frame is (`packet_forwarded`,
`packet_other`).
-/

open Framework

namespace UPF

variable {b : Build} {cpu : Nat} {s s' : Maps}

/-- A system call changes no per-CPU map. -/
theorem sys_percpu {o : Syscall} {r : Except Errno Bytes} (h : sys o s = some (r, s')) :
    s'.percpu = s.percpu ∧ s'.metrics = s.metrics := by
  cases o with
  | update m k v =>
    simp only [sys] at h
    split at h
    · next s₁ hu =>
      cases h
      rw [(Maps.update_ok hu).1]
      exact ⟨rfl, rfl⟩
    · cases h
      exact ⟨rfl, rfl⟩
  | lookup m k n =>
    simp only [sys] at h
    split at h <;> cases h <;> exact ⟨rfl, rfl⟩
  | delete m k =>
    simp only [sys] at h
    split at h
    · next s₁ hd =>
      cases h
      rw [(Maps.delete_ok hd).1]
      exact ⟨rfl, rfl⟩
    · cases h
      exact ⟨rfl, rfl⟩

theorem call_percpu {c : Command} (h : (Job.call c).step b cpu s = some s') :
    s'.percpu = s.percpu ∧ s'.metrics = s.metrics := by
  obtain ⟨⟨r, s₁⟩, hr, rfl⟩ := Option.map_eq_some_iff.mp h
  exact Prog.run_rel sys (R := fun s s' => s'.percpu = s.percpu ∧ s'.metrics = s.metrics) (fun _ => ⟨rfl, rfl⟩)
    (fun h₁ h₂ => ⟨h₂.1.trans h₁.1, h₂.2.trans h₁.2⟩) sys_percpu hr

theorem call_uncounted {c : Command} (h : (Job.call c).step b cpu s = some s') : Uncounted s s' :=
  .of_percpu (by rw [(call_percpu h).1])

/-! ## Frames -/

theorem entered_ticks (b : Build) (cpu : Nat) (s : Maps) (wire : Bytes) (H : Helpers) :
    H.ktime_get_ns (entered b (arrival cpu s wire)).ticks % 2 ^ 64 = meteredAt b H := by
  unfold entered arrival meteredAt
  split <;> rfl

variable {H : Helpers} {wire : Bytes}

/-- The fate of a frame that arrives. -/
abbrev fateOf (b : Build) (cpu : Nat) (s : Maps) (H : Helpers) (wire : Bytes) : Fate :=
  fate b H (entered b (arrival cpu s wire)) (teidOf wire) (outerLen wire)

theorem drop_decap (b : Build) (H : Helpers) (m : Machine) (g : IsGpdu m.frame) :
    (decap b H m).frame.drop ethhdr.size = m.frame.drop (ethhdr.size + outerLen m.frame) := by
  have hn : ¬ 0 ≤ -(outerLen m.frame : Int) := by
    simp only [outerLen]
    omega
  have he := g.eth
  simp only [decap, decapped, resize, hn, ite_false, neg_neg, Int.toNat_natCast]
  exact List.drop_left' (by rw [List.length_take, ethhdr.size]; omega)

theorem sent_forwarded {ifindex : Nat} (g : IsGpdu wire) (hf : fateOf b cpu s H wire = .forwarded ifindex) :
    sent H (upf_tc_ingress b) (arrival cpu s wire) = [(ifindex, (decap b H (arrival cpu s wire)).frame)] := by
  rw [tc_sent, if_pos (show IsGpdu (arrival cpu s wire).frame from g),
    show fate b H _ (teidOf (arrival cpu s wire).frame) (outerLen (arrival cpu s wire).frame) = _ from hf]

theorem sent_other (h : IsGpdu wire → ∀ ifindex, fateOf b cpu s H wire ≠ .forwarded ifindex) :
    sent H (upf_tc_ingress b) (arrival cpu s wire) = [] := by
  rw [tc_sent]
  split
  · next g =>
    cases hf : fateOf b cpu s H wire with
    | forwarded ifindex => exact absurd hf (h g ifindex)
    | _ => rw [show fate b H _ (teidOf (arrival cpu s wire).frame) (outerLen (arrival cpu s wire).frame) = _ from hf]
  · rfl

/-- What is redirected under a URR: the packets of its tunnels behind their
outer headers, if their fate is to be forwarded. -/
theorem redirected_iff {u : Nat} {packet : Bytes} : (Job.packet H wire).redirected b cpu s u = some packet ↔
    urrOf s wire = some u ∧ IsGpdu wire ∧ (∃ ifindex, fateOf b cpu s H wire = .forwarded ifindex) ∧
      packet = wire.drop (ethhdr.size + outerLen wire) := by
  rw [Job.redirected]
  by_cases hu : urrOf s wire = some u
  · rw [if_pos hu]
    by_cases hg : IsGpdu wire ∧ ∃ ifindex, fateOf b cpu s H wire = .forwarded ifindex
    · obtain ⟨g, ifindex, hf⟩ := hg
      have hd := drop_decap b H (arrival cpu s wire) g
      change (decap b H (arrival cpu s wire)).frame.drop ethhdr.size = wire.drop (ethhdr.size + outerLen wire) at hd
      rw [sent_forwarded g hf, hf]
      simp only [List.head?_cons, Option.map_some, hd, hu, g, true_and, Option.some.injEq, Fate.forwarded.injEq,
        exists_eq', eq_comm]
    · rw [sent_other fun g ifindex hf => hg ⟨g, ifindex, hf⟩]
      refine iff_of_false nofun ?_
      rintro ⟨-, g, hf, -⟩
      exact hg ⟨g, hf⟩
  · simp [hu]

theorem length_redirected {u : Nat} {packet : Bytes} (h : (Job.packet H wire).redirected b cpu s u = some packet) :
    packet.length + 14 = (decapped H wire (outerLen wire)).length := by
  obtain ⟨-, g, -, rfl⟩ := redirected_iff.mp h
  have hl := length_decap (H := H) (s := arrival cpu s wire) b g
  change (decapped H wire (outerLen wire)).length = wire.length - outerLen wire at hl
  have ho := g.outerLen_le
  have he := g.eth
  rw [hl, List.length_drop]
  simp only [ethhdr.size]
  omega

theorem not_redirected (h : ∀ ifindex, fateOf b cpu s H wire ≠ .forwarded ifindex) (u : Nat) :
    (Job.packet H wire).redirected b cpu s u = none := by
  rw [Option.eq_none_iff_forall_ne_some]
  intro packet hr
  obtain ⟨-, -, ⟨ifindex, hf⟩, -⟩ := redirected_iff.mp hr
  exact h ifindex hf

/-- A frame is redirected under the URR of its rules, which counts it, or under
none, and nothing counts it. -/
inductive PacketStep (b : Build) (cpu : Nat) (s : Maps) (H : Helpers) (wire : Bytes) (s' : Maps) : Prop
  | redirected (r : Resolved) (ret : Int) (packet : Bytes) (rules : resolve s (teidOf wire) = some r)
    (sent : (Job.packet H wire).redirected b cpu s r.rule.urr_id = some packet)
    (metered : Metered b r.rule cpu (meteredAt b H) (packet.length + 14) s s')
    (metrics : s'.metrics = (s.countAll cpu (forwardCounts r.rule.urr_id ret)).metrics)
  | other (idxs : List Metric) (sent : ∀ u, (Job.packet H wire).redirected b cpu s u = none)
    (uncounted : Uncounted s s') (counts : .M_TC_URR_UPDATED ∉ idxs)
    (metrics : s'.metrics = (s.countAll cpu idxs).metrics)

theorem packet_step (h : (Job.packet H wire).step b cpu s = some s') : PacketStep b cpu s H wire s' := by
  obtain ⟨⟨v, m'⟩, hr, rfl⟩ := Option.map_eq_some_iff.mp h
  by_cases g : IsGpdu wire
  · obtain ⟨v', m'', hr', -, hacc⟩ := ingress_run (H := H) (s := arrival cpu s wire) b g
    cases hr.symm.trans hr'
    change Accounts b H _ (teidOf wire) (outerLen wire) m'.maps (fateOf b cpu s H wire) at hacc
    cases hf : fateOf b cpu s H wire with
    | forwarded ifindex =>
      rw [hf] at hacc
      obtain ⟨r, hres, hm, hc⟩ := hacc
      have hsent : (Job.packet H wire).redirected b cpu s r.rule.urr_id =
          some (wire.drop (ethhdr.size + outerLen wire)) :=
        redirected_iff.mpr ⟨congrArg (Option.map _) hres, g, ⟨ifindex, hf⟩, rfl⟩
      rw [entered_ticks] at hm
      refine .redirected r _ _ hres hsent ?_ hc
      rw [length_redirected hsent]
      exact hm
    | _ =>
      rw [hf] at hacc
      exact .other [_] (not_redirected (by simp [hf])) hacc.1 (by decide) hacc.2
  · have hr' := (tc_other (H := H) (s := arrival cpu s wire) b g).2
    cases hr.symm.trans hr'
    refine .other [] (fun u => ?_) (.refl _) (by decide) rfl
    rw [Option.eq_none_iff_forall_ne_some]
    exact fun packet hp => g (redirected_iff.mp hp).2.1

/-- A frame is redirected under no other URR than that of its rules. -/
theorem redirected_urr {u : Nat} {packet : Bytes} {r : Resolved} (hr : resolve s (teidOf wire) = some r)
    (h : (Job.packet H wire).redirected b cpu s u = some packet) : u = r.rule.urr_id := by
  have hu := (redirected_iff.mp h).1
  rw [urrOf, hr] at hu
  exact (Option.some.inj hu).symm

end UPF
