import EbpfUpf.Framework.Loops
import EbpfUpf.Impl.Processes
import EbpfUpf.Proof.Integrity
import EbpfUpf.Proof.Intent
import EbpfUpf.Proof.Torn
import EbpfUpf.Spec.Testbed

/-!
# What the processes hand to the kernel

The `bpf()` system call takes a key and a value by their addresses, and how
many bytes it reads there is up to the map. No process of the repository hands
it a buffer of another size, whatever the calls before have answered
(`process_sized`).
-/

open Framework

namespace UPF

variable {α β ε : Type} {Q : Syscall → Prop}

theorem asks_ok {e : Except PyError α} {f : α → Agent β} (h : ∀ a, e = .ok a → (f a).run.Asks Q) :
    (liftM e >>= f : Agent β).run.Asks Q := by
  cases e with
  | error e => exact trivial
  | ok a => exact h a rfl

theorem asks_status {p : Agent α} (h : p.run.Asks Q) : p.status.Asks Q := h.bind fun r => by cases r <;> trivial

theorem asks_main {p : Main α} (h : p.run.Asks Q) : p.status.Asks Q := h.bind fun r => by cases r <;> trivial

/-! ## The agent -/

theorem length_pack {fs : List (Fmt × Int)} {bs : Bytes} (h : pack fs = .ok bs) :
    bs.length = (fs.map fun f => f.1.width).sum := by
  obtain ⟨-, rfl⟩ := pack_ok.mp h
  rw [length_layout, width, packFields, List.map_map]
  rfl

theorem length_key (v : Int) : (key v).length = 4 := length_toLE 4 _

theorem length_u32 {v : Int} {bs : Bytes} (h : enc_u32 v = .ok bs) : bs.length = 4 := length_pack h

theorem install_session_sized (teid pdr_id qer_id far_id precedence urr_id : Int) :
    (install_session teid pdr_id qer_id far_id precedence urr_id).run.Asks Sized := by
  rw [install_session_eq]
  refine asks_ite_throw (asks_update ⟨length_key _, length_layout _⟩ (asks_update ⟨length_key _, ?_⟩ ?_))
  · exact length_bundle _ _ _
  · exact asks_ite_throw (asks_update ⟨length_key _, length_layout _⟩ trivial)

theorem modify_tc_bundle_sized (pdr_id : Int) (c : Changes) : (modify_tc_bundle pdr_id c).run.Asks Sized := by
  rw [modify_tc_bundle_eq]
  refine asks_ite_throw (asks_lookup ⟨length_key _, rfl⟩ fun raw => asks_ite_throw ?_)
  exact asks_update ⟨length_key _, length_staged _ _ _⟩ (asks_update ⟨length_key _, length_staged _ _ _⟩ trivial)

theorem remove_session_sized (teid pdr_id : Int) : (remove_session teid pdr_id).run.Asks Sized := by
  rw [remove_session_eq]
  refine asks_ite_throw (asks_delete (length_key _) (asks_ite_throw ?_))
  exact asks_delete (length_key _) (asks_delete (length_key _) trivial)

theorem install_far_sized (far_id action out_ifindex peer_ipv4_be out_teid_be : Int) :
    (install_far far_id action out_ifindex peer_ipv4_be out_teid_be).run.Asks Sized :=
  asks_ok fun _ hk => asks_ok fun _ hv => asks_map_update ⟨length_u32 hk, length_pack hv⟩

theorem install_qer_sized (qer_id mbr_ul_bps mbr_dl_bps burst_bytes : Int) :
    (install_qer qer_id mbr_ul_bps mbr_dl_bps burst_bytes).run.Asks Sized :=
  asks_ok fun _ hk => asks_ok fun _ hv => asks_map_update ⟨length_u32 hk, length_pack hv⟩

theorem install_dl_ue_sized (ue_ip_dotted : Dotted) (teid : Int) (gnb_ip_dotted : Dotted) (qfi : Int) :
    (install_dl_ue ue_ip_dotted teid gnb_ip_dotted qfi).run.Asks Sized := by
  refine asks_ok fun k hk => asks_ok fun t ht => asks_ok fun g hg => asks_ok fun v hv => asks_map_update ?_
  refine ⟨(inet_aton_ok hk).1, ?_⟩
  have ht : t.length = 4 := by
    unfold pack_be at ht
    cases hp : pack [(.I, teid)] with
    | error e => simp [hp, Except.bind, bind] at ht
    | ok bs =>
      simp only [hp, bind, Except.bind, pure, Except.pure, Except.ok.injEq] at ht
      rw [← ht, List.length_reverse]
      exact length_pack hp
  rw [List.length_append, List.length_append, ht, (inet_aton_ok hg).1, length_pack hv]
  rfl

theorem install_upf_config_sized (n3_addr_dotted : Dotted) : (install_upf_config n3_addr_dotted).run.Asks Sized :=
  asks_ok fun _ hk => asks_ok fun _ hv => asks_map_update ⟨length_u32 hk, (inet_aton_ok hv).1⟩

theorem install_sessions_sized (teid pdr_id : Nat → Int) (qer_id far_id precedence urr_id : Int) (n : Nat) :
    ((List.range n).forM fun i =>
      install_session (teid i) (pdr_id i) qer_id far_id precedence urr_id).run.Asks Sized :=
  asks_forM fun i _ => install_session_sized (teid i) (pdr_id i) qer_id far_id precedence urr_id

theorem remove_sessions_sized (teid pdr_id : Nat → Int) (n : Nat) :
    ((List.range n).forM fun i => remove_session (teid i) (pdr_id i)).run.Asks Sized :=
  asks_forM fun i _ => remove_session_sized (teid i) (pdr_id i)

theorem call_sized (c : Command) : c.call.run.Asks Sized := by
  cases c with
  | install_far => exact install_far_sized _ _ _ _ _
  | install_qer => exact install_qer_sized _ _ _ _
  | install_dl_ue => exact install_dl_ue_sized _ _ _ _
  | install_upf_config => exact install_upf_config_sized _
  | install_session => exact install_session_sized _ _ _ _ _ _
  | modify_tc_bundle => exact asks_discard (modify_tc_bundle_sized _ _)
  | remove_session => exact remove_session_sized _ _

/-! ## The benchmarks -/

section Bench

open Bench

theorem delete_rule_sized (i : Nat) : (delete_rule i : Main Unit).run.Asks Sized :=
  ⟨length_toLE _ _, fun _ => ⟨length_toLE _ _, fun _ => trivial⟩⟩

theorem update_pdr_sized (i : Nat) : (update_pdr i).Asks Sized :=
  ⟨⟨length_toLE _ _, by simp [pdr_val, MapName.value_size]⟩, fun _ => trivial⟩

theorem update_teid_sized (i : Nat) : (update_teid i).Asks Sized :=
  ⟨⟨length_toLE _ _, by simp [session_val, MapName.value_size]⟩, fun _ => trivial⟩

theorem install_rule_sized (i : Nat) : (install_rule i).run.Asks Sized := by
  refine asks_bind (asks_plain (update_pdr_sized i)) fun r => ?_
  cases r with
  | true => exact trivial
  | false =>
    refine asks_bind (asks_plain (update_teid_sized i)) fun r => ?_
    cases r <;> trivial

theorem insert_rule_sized (fail i : Nat) : (insert_rule fail i).Asks Sized :=
  (update_pdr_sized i).bind fun r => by
    cases r <;> exact (update_teid_sized i).bind fun r => by cases r <;> trivial

theorem bench_rule_update_sized (n : Int) (csv : Option Bool) : (bench_rule_update n csv).run.Asks Sized := by
  rw [bench_rule_update]
  by_cases h0 : n ≤ 0
  · rw [if_pos h0]
    trivial
  · rw [if_neg h0]
    refine asks_bind (asks_plain ⟨⟨length_toLE _ _, by simp [pdr_val, MapName.value_size]⟩, fun _ => trivial⟩)
      fun _ => asks_bind (asks_plain ⟨length_toLE _ _, fun _ => trivial⟩) fun _ => ?_
    refine asks_bind (asks_forM fun i _ => install_rule_sized i) fun _ =>
      asks_bind (asks_forM fun i _ => delete_rule_sized i) fun _ => ?_
    split <;> trivial

theorem bench_memory_sized (n : Int) : (bench_memory n).run.Asks Sized := by
  unfold bench_memory
  split
  · trivial
  · refine asks_bind (asks_forM fun i _ => delete_rule_sized i) fun _ => asks_bind ?_ fun _ =>
      asks_bind (asks_forM fun i _ => delete_rule_sized i) fun _ => trivial
    exact asks_foldlM (fun fail i _ => asks_plain (insert_rule_sized fail i)) _

end Bench

/-- Every process hands over whole keys and whole values. -/
theorem process_sized (p : Process) : p.prog.Asks Sized := by
  cases p with
  | bootstrap_initial n out_ifindex =>
    exact asks_status (asks_bind (install_far_sized _ _ _ _ _) fun _ => asks_bind (install_qer_sized _ _ _ _) fun _ =>
      install_sessions_sized _ _ _ _ _ _ _)
  | call c => exact asks_status (call_sized c)
  | measure_rule_update n_rules =>
    exact asks_status (asks_bind (install_sessions_sized _ _ _ _ _ _ _) fun _ =>
      remove_sessions_sized _ _ _)
  | toggle_bundle rounds =>
    refine asks_status (asks_foldlM (fun _ i _ => ?_) _)
    exact asks_bind (p := toggle_bundle.toggle i) (modify_tc_bundle_sized _ _) fun gen => trivial
  | qer_contention_set_up nflows mbr_bps burst out_ifindex =>
    exact asks_status (asks_bind (install_far_sized _ _ _ _ _) fun _ => asks_bind (install_qer_sized _ _ _ _) fun _ =>
      install_sessions_sized _ _ _ _ _ _ _)
  | qer_contention_clean_up nflows => exact asks_status (remove_sessions_sized _ _ _)
  | bench_rule_update n csv => exact asks_main (bench_rule_update_sized n csv)
  | bench_memory n => exact asks_main (bench_memory_sized n)

theorem Testbed.OfProcesses.allSized {ms : List Testbed.Move} (h : OfProcesses ms) : AllSized ms := by
  intro t ht
  obtain ⟨p, rfl⟩ := h t ht
  exact process_sized p

end UPF
