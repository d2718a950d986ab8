import EbpfUpf.Proof.System
import EbpfUpf.Spec.Events
import EbpfUpf.Spec.Gpdu

/-!
# The programmes report what they found

TC ingress keeps to `reporting` whatever it is answered, and XDP sends nothing
(`hook_reports`). A packet of a run keeps to every discipline that its programme
keeps to and whose answers the kernel gives (`run_kept`), so that in a run every
event is faithful.
-/

open Framework

namespace UPF

/-! ## The programmes -/

namespace Findings

variable {b : Build} {K K' K'' : Findings}

/-- Nothing is forgotten, the packet has its length, and nothing was sent or counted. -/
structure Grows (K K' : Findings) : Prop where
  found : K.found ⊆ K'.found
  len : K'.len = K.len
  times : K.times <+: K'.times
  events : K'.events = K.events
  forwards : K'.forwards = K.forwards
  buffers : K'.buffers = K.buffers

theorem Grows.refl (K : Findings) : K.Grows K := ⟨List.Subset.refl _, rfl, List.prefix_rfl, rfl, rfl, rfl⟩

theorem Grows.trans (h : K.Grows K') (h' : K'.Grows K'') : K.Grows K'' :=
  ⟨List.Subset.trans h.found h'.found, h'.len.trans h.len, h.times.trans h'.times, h'.events.trans h.events,
    h'.forwards.trans h.forwards, h'.buffers.trans h.buffers⟩

/-- Nothing was sent or counted yet. -/
structure Blank (K : Findings) : Prop where
  events : K.events = 0
  forwards : K.forwards = 0
  buffers : K.buffers = 0

theorem Blank.mono (h : K.Blank) (hg : K.Grows K') : K'.Blank :=
  ⟨hg.events.trans h.events, hg.forwards.trans h.forwards, hg.buffers.trans h.buffers⟩

theorem Blank.tallied (h : K.Blank) (v : Int) : Tallied b v K := by
  simp [Tallied, h.events, h.forwards, h.buffers]

theorem Resolved.mono {teid pdr_id : Nat} {t : Tuple} (h : K.Resolved teid pdr_id t) (hf : K.found ⊆ K'.found) :
    K'.Resolved teid pdr_id t := by
  obtain ⟨sess, bundle, hs, hp, hb, ht⟩ := h
  exact ⟨sess, bundle, hf hs, hp, hf hb, ht⟩

theorem head_mono {ts ts' : List Nat} {t : Nat} (h : ts.head? = some t) (hp : ts <+: ts') : ts'.head? = some t := by
  obtain ⟨later, hts⟩ := hp
  rw [← hts, List.head?_append, h]
  rfl

theorem tallied_mono {v : Int} (h : Tallied b v K) (hg : K.Grows K') (v' : Int) : Tallied b v' K' := by
  unfold Tallied at h ⊢
  rw [hg.events, hg.forwards, hg.buffers, h]

/-- The operations that report nothing and find nothing out about the rule. -/
def Silent : Op Ptr → Prop
  | .perf_event_output _ | .len | .bump .M_TC_FAR_FORWARD | .bump .M_TC_FAR_BUFFER => False
  | .lookup m _ => m.isRule = false
  | _ => True

theorem silent_allowed {o : Op Ptr} (ho : Silent o) : Allowed b K o := by
  cases o with
  | perf_event_output data => exact ho.elim
  | _ => trivial

theorem silent_next {o : Op Ptr} (ho : Silent o) (r : Op.Ans o) : K.Grows (K.next o r) := by
  cases o with
  | perf_event_output data => exact ho.elim
  | len => exact ho.elim
  | bump idx => cases idx <;> first | exact ho.elim | exact .refl K
  | lookup m key =>
    have hm : m.isRule = false := ho
    cases r with
    | none => exact .refl K
    | some p =>
      cases p with
      | value m' v =>
        show K.Grows (if m.isRule then { K with found := (m, key, v) :: K.found } else K)
        rw [hm]
        exact .refl K
      | elem m' k => exact .refl K
  | ktime_get_ns => exact ⟨List.Subset.refl _, rfl, List.prefix_append _ _, rfl, rfl, rfl⟩
  | _ => exact .refl K

end Findings

open Findings

section Programmes

variable {α β : Type} {b : Build} {K : Findings} {Post : α → Findings → Prop}

/-- A part of a programme that is silent, and what follows it. -/
theorem silent_bind {p : Bpf Ptr β} {f : β → Bpf Ptr α} (hp : p.Asks Silent)
    (hf : ∀ a K', K.Grows K' → Obeys (reporting b) Post K' (f a)) : Obeys (reporting b) Post K (p >>= f) := by
  induction p generalizing K with
  | ret a => exact hf a K (.refl K)
  | ask o k ih =>
    refine ⟨silent_allowed hp.1, fun r _ => ih r (hp.2 r) fun a K' hg => hf a K' ?_⟩
    exact (silent_next hp.1 r).trans hg

theorem silent_op {o : Op Ptr} {k : Op.Ans o → Bpf Ptr α} (ho : Silent o)
    (hk : ∀ r K', K.Grows K' → Obeys (reporting b) Post K' (k r)) : Obeys (reporting b) Post K (.ask o k) :=
  silent_bind (p := .ask o .ret) ⟨ho, fun _ => trivial⟩ hk

/-- A lookup in a map of the rules. -/
theorem rule_lookup {m : MapName} {key : Nat} {k : Option Ptr → Bpf Ptr α} (hr : m.isRule = true)
    (hd : m.datapath = false) (hn : Obeys (reporting b) Post K (k none))
    (hk : ∀ v K', (m, key, v) ∈ K'.found → K.Grows K' → Obeys (reporting b) Post K' (k (some (.value m v)))) :
    Obeys (reporting b) Post K (.ask (.lookup m key) k) := by
  refine ⟨trivial, fun r hp => ?_⟩
  cases r with
  | none => exact hn
  | some p =>
    obtain ⟨v, rfl⟩ := hp p rfl hd
    show Obeys (reporting b) Post (if m.isRule then _ else K) _
    rw [if_pos hr]
    exact hk v { K with found := (m, key, v) :: K.found } List.mem_cons_self
      ⟨List.subset_cons_self _ _, rfl, List.prefix_rfl, rfl, rfl, rfl⟩

theorem value_read {m : MapName} {v : Bytes} {off n : Nat} {k : Nat → Bpf Ptr α}
    (hk : Obeys (reporting b) Post K (k (v.get off n))) :
    Obeys (reporting b) Post K (.ask (.read (.value m v) off n) k) := by
  refine ⟨trivial, fun r hr => ?_⟩
  rw [show r = v.get off n from hr]
  exact hk

theorem silent_ite {c : Prop} [Decidable c] {p q : Bpf Ptr β} (hp : p.Asks Silent) (hq : q.Asks Silent) :
    (if c then p else q).Asks Silent := (Prog.asks_ite _ _ _ _).mpr ⟨fun _ => hp, fun _ => hq⟩

theorem refill_silent (t l : Nat) (elapsed : Nat → Nat → Nat) (qv st : Ptr) (now : Nat) :
    (refill_bucket t l elapsed qv st now).Asks Silent := by
  have hw : (write st l 8 now).Asks Silent := ⟨trivial, fun _ => trivial⟩
  rw [refill_bucket, read_bind]
  refine ⟨trivial, fun last => silent_ite ⟨trivial, fun _ => ⟨trivial, fun _ => hw⟩⟩ ?_⟩
  refine ⟨trivial, fun _ => ⟨trivial, fun _ => ⟨trivial, fun _ => ⟨trivial, fun _ => ⟨trivial, fun _ => ?_⟩⟩⟩⟩⟩
  exact silent_ite ⟨trivial, fun _ => ⟨trivial, fun _ => hw⟩⟩ hw

theorem take_silent (t : Nat) (st : Ptr) (n : Nat) : (take_tokens t st n).Asks Silent := by
  rw [take_tokens, read_bind]
  exact ⟨trivial, fun tokens => silent_ite ⟨trivial, fun _ => trivial⟩ trivial⟩

theorem admit_silent (b : Build) (qer_id pkt_len : Nat) :
    (admission b qer_id pkt_len).Asks Silent := by
  refine silent_ite ⟨rfl, fun r => ?_⟩ ⟨rfl, fun r => ?_⟩
  · cases r with
    | none => trivial
    | some qv =>
      refine ⟨trivial, fun mbr => silent_ite trivial ⟨rfl, fun r => ?_⟩⟩
      cases r with
      | none => trivial
      | some st =>
        refine ⟨trivial, fun now => ⟨trivial, fun _ => (refill_silent _ _ _ _ _ _).bind fun _ => ?_⟩⟩
        exact (take_silent _ _ _).bind fun _ => ⟨trivial, fun _ => trivial⟩
  · cases r with
    | none => trivial
    | some qv =>
      refine ⟨trivial, fun mbr => silent_ite trivial ⟨rfl, fun r => ?_⟩⟩
      cases r with
      | none => trivial
      | some st => exact ⟨trivial, fun now => (refill_silent _ _ _ _ _ _).bind fun _ => take_silent _ _ _⟩

theorem urr_silent (urr_id pkt_len : Nat) : (upf_urr_update urr_id pkt_len : Bpf Ptr Unit).Asks Silent := by
  refine silent_ite trivial ⟨rfl, fun r => ?_⟩
  cases r with
  | none => exact ⟨trivial, fun _ => ⟨trivial, fun _ => trivial⟩⟩
  | some uv =>
    refine ⟨trivial, fun _ => ⟨trivial, fun _ => ⟨trivial, fun _ => ⟨trivial, fun _ => ?_⟩⟩⟩⟩
    exact ⟨trivial, fun _ => trivial⟩

/-- A verdict of a packet that is neither forwarded nor buffered. -/
theorem blank_verdict (hK : K.Blank) {idx : Metric} {v : Int} (hi : Silent (.bump idx)) :
    Obeys (reporting b) (Tallied b) K (bump idx >>= fun _ => .ret v) :=
  silent_op hi fun _ _ hg => (hK.mono hg).tallied v

/-- The packet's rule is found, and so is the time at which it came. -/
structure Ready (b : Build) (K : Findings) (teid pdr_id : Nat) (t : Tuple) (t_entry : Nat) : Prop where
  resolved : K.Resolved teid pdr_id t
  entry : b.latency_events = true → K.times.head? = some t_entry
  blank : K.Blank

theorem Ready.mono {K' : Findings} {teid pdr_id t_entry : Nat} {t : Tuple} (h : Ready b K teid pdr_id t t_entry)
    (hg : K.Grows K') : Ready b K' teid pdr_id t t_entry :=
  ⟨h.resolved.mono hg.found, fun hb => head_mono (h.entry hb) hg.times, h.blank.mono hg⟩

/-- After `n` events, and nothing else that `Grows` does not allow. -/
structure Sent (n : Nat) (K K' : Findings) : Prop where
  events : K'.events = K.events + n
  forwards : K'.forwards = K.forwards
  buffers : K'.buffers = K.buffers

theorem decision_reports {teid pdr_id : Nat} {t : Tuple} (h : K.Resolved teid pdr_id t) :
    Obeys (reporting b) (fun _ K' => K' = { K with events := K.events + if b.decision_events then 1 else 0 }) K
      (emit_decision_event b t.far_id t.qer_id t.generation pdr_id) := by
  refine .ite (fun hb => ⟨.decision hb h, fun _ _ => ?_⟩) fun hb => ?_
  · rw [hb]
    rfl
  · rw [if_neg hb]
    rfl

theorem latency_reports {pkt_len t_entry : Nat} (hl : K.len = some pkt_len)
    (h : b.latency_events = true → K.times.head? = some t_entry) : Obeys (reporting b)
      (fun _ K' => Sent (if b.latency_events then 1 else 0) K K') K (emit_latency_event b pkt_len t_entry) := by
  refine .ite (fun hb => ⟨trivial, fun now _ => ⟨?_, fun _ _ => ?_⟩⟩) fun hb => ?_
  · refine Faithful.latency hb hl ?_ List.getLast?_concat
    exact head_mono (h hb) (List.prefix_append _ _)
  · rw [if_pos hb]
    exact ⟨rfl, rfl, rfl⟩
  · rw [if_neg hb]
    exact ⟨rfl, rfl, rfl⟩

theorem entry_reports (b : Build) : Obeys (reporting b)
    (fun t K => (b.latency_events = true → K.times.head? = some t) ∧ K.Blank) .start (entry_time b) :=
  .ite (fun _ => ⟨trivial, fun _ _ => ⟨fun _ => rfl, rfl, rfl, rfl⟩⟩) fun hb =>
    ⟨fun hl => absurd hl hb, rfl, rfl, rfl⟩

theorem forward_reports {teid pdr_id t_entry : Nat} {t : Tuple} (h : Ready b K teid pdr_id t t_entry) (n : Nat) :
    Obeys (reporting b) (Tallied b) K
      (upf_far_forward b t.far_id t.qer_id t.urr_id pdr_id t.generation n t_entry) := by
  rw [upf_far_forward, adjust_room_bind]
  refine silent_op trivial fun ret K₁ hg₁ => .ite (fun _ => blank_verdict (h.mono hg₁).blank trivial) fun _ => ?_
  rw [lookup_bind]
  refine rule_lookup rfl rfl (blank_verdict (h.mono hg₁).blank trivial) fun far K₂ _ hg₂ => ?_
  have h₂ := (h.mono hg₁).mono hg₂
  refine ⟨trivial, fun pkt_len _ => ?_⟩
  have h₂' : Ready b { K₂ with len := some pkt_len } teid pdr_id t t_entry :=
    ⟨h₂.resolved, h₂.entry, h₂.blank.events, h₂.blank.forwards, h₂.blank.buffers⟩
  refine silent_bind (K := { K₂ with len := some pkt_len }) (p := upf_qer_admit b t.qer_id pkt_len)
    (admit_silent b _ _) fun admitted K₃ hg₃ => ?_
  refine .ite (fun _ => blank_verdict (h₂'.mono hg₃).blank trivial) fun _ => ?_
  refine silent_op trivial fun _ K₄ hg₄ => silent_bind (p := upf_urr_update t.urr_id pkt_len)
    (urr_silent _ _) fun _ K₅ hg₅ => ?_
  have hg := (hg₃.trans hg₄).trans hg₅
  have h₅ := h₂'.mono hg
  refine (decision_reports h₅.resolved).bind fun _ K₆ hk => ?_
  subst hk
  refine (latency_reports (K := { K₅ with events := K₅.events + if b.decision_events then 1 else 0 }) hg.len
    h₅.entry).bind fun _ K₇ hs => ?_
  refine ⟨trivial, fun _ _ => ?_⟩
  have hK : Tallied b 0 { K₇ with forwards := K₇.forwards + 1 } := by
    simp only [Tallied, hs.events, hs.forwards, hs.buffers, h₅.blank.events, h₅.blank.forwards, h₅.blank.buffers,
      Build.perForward]
    omega
  refine value_read ⟨trivial, fun ret _ => .ite (fun _ => ?_) fun _ => hK⟩
  exact silent_op trivial fun _ K₈ hg₈ => tallied_mono hK hg₈ ret

theorem enforce_reports {t_entry : Nat} (h : b.latency_events = true → K.times.head? = some t_entry)
    (hK : K.Blank) (teid ihl_bytes : Nat) :
    Obeys (reporting b) (Tallied b) K (tc_enforce b teid ihl_bytes t_entry) := by
  rw [tc_enforce, lookup_bind]
  refine rule_lookup rfl rfl (blank_verdict hK trivial) fun sess K₁ hs hg₁ => value_read ?_
  refine rule_lookup rfl rfl (blank_verdict (hK.mono hg₁) trivial) fun bundle K₂ hb hg₂ => value_read (value_read ?_)
  refine rule_lookup rfl rfl (blank_verdict ((hK.mono hg₁).mono hg₂) trivial) fun far K₃ hf hg₃ => ?_
  have hg := (hg₁.trans hg₂).trans hg₃
  have hr : Ready b K₃ teid (sess.get session_val.pdr_id 4) (activeTuple bundle) t_entry :=
    ⟨⟨sess, bundle, hg₃.found (hg₂.found hs), rfl, hg₃.found hb, rfl⟩, fun hl => head_mono (h hl) hg.times, hK.mono hg⟩
  refine value_read (.ite (fun _ => blank_verdict hr.blank trivial) fun _ =>
    value_read (.ite (fun ha => ?_) fun _ => ?_))
  · refine value_read (value_read ⟨trivial, fun pkt_len _ => ⟨trivial, fun ts_ns _ => ⟨?_, fun _ _ => ?_⟩⟩⟩)
    · exact Faithful.buffer (t := activeTuple bundle)
        (K := { K₃ with len := some pkt_len, times := K₃.times ++ [ts_ns] })
        hr.resolved hf ha rfl List.getLast?_concat
    · refine ⟨trivial, fun _ _ => ?_⟩
      show K₃.events + 1 = K₃.forwards * b.perForward + (K₃.buffers + 1)
      rw [hr.blank.events, hr.blank.forwards, hr.blank.buffers]
      omega
  · refine value_read (value_read (value_read (value_read (value_read ?_))))
    exact forward_reports hr _

theorem ingress_reports (b : Build) : Obeys (reporting b) (Tallied b) .start (upf_tc_ingress b) := by
  rw [upf_tc_ingress]
  refine (entry_reports b).bind fun t_entry K h => ?_
  obtain ⟨h, hK⟩ := h
  have pass : Tallied b TC_ACT_OK_X K := hK.tallied _
  refine ⟨trivial, fun e _ => .ite (fun _ => pass) fun _ => ?_⟩
  refine ⟨trivial, fun proto _ => .ite (fun _ => pass) fun _ => .ite (fun _ => pass) fun _ => ?_⟩
  refine ⟨trivial, fun protocol _ => .ite (fun _ => pass) fun _ => ⟨trivial, fun ihl _ => ?_⟩⟩
  refine .ite (fun _ => pass) fun _ => .ite (fun _ => pass) fun _ => ⟨trivial, fun dest _ => ?_⟩
  refine .ite (fun _ => pass) fun _ => .ite (fun _ => pass) fun _ => ⟨trivial, fun type _ => ?_⟩
  exact .ite (fun _ => pass) fun _ => ⟨trivial, fun teid_be _ => enforce_reports h hK _ _⟩

/-- The operation neither sends an event nor counts a packet that has sent one. -/
def Eventless : Op Ptr → Prop
  | .perf_event_output _ | .bump .M_TC_FAR_FORWARD | .bump .M_TC_FAR_BUFFER => False
  | _ => True

theorem eventless_reports {p : Bpf Ptr Int} (hp : p.Asks Eventless) (hK : K.Blank) :
    Obeys (reporting b) (Tallied b) K p := by
  induction p generalizing K with
  | ret a => exact hK.tallied a
  | ask o k ih =>
    refine ⟨?_, fun r _ => ih r (hp.2 r) ?_⟩
    · cases o with
      | perf_event_output data => exact hp.1.elim
      | _ => trivial
    · by_cases ho : Silent o
      · exact hK.mono (silent_next ho r)
      · cases o with
        | perf_event_output data => exact hp.1.elim
        | len => exact ⟨hK.events, hK.forwards, hK.buffers⟩
        | lookup m key =>
          cases r with
          | none => exact hK
          | some p =>
            cases p with
            | value m' v =>
              show (if m.isRule then { K with found := (m, key, v) :: K.found } else K).Blank
              split
              · exact ⟨hK.events, hK.forwards, hK.buffers⟩
              · exact hK
            | elem m' k => exact hK
        | bump idx => cases idx <;> first | exact hp.1.elim | exact absurd trivial ho
        | _ => exact absurd trivial ho

theorem xdp_eventless : (upf_xdp_uplink : Bpf Ptr Int).Asks Eventless :=
  xdp_asks.mono fun o ho => by
    cases o with
    | bump idx => rcases ho with (rfl | rfl | rfl | rfl | rfl | rfl) | rfl | rfl | rfl <;> trivial
    | perf_event_output => exact ho
    | _ => trivial

end Programmes

theorem hook_reports (hook : Hook) :
    Obeys (reporting hook.build) (Tallied hook.build) .start hook.programme := by
  cases hook with
  | xdp => exact eventless_reports xdp_eventless ⟨rfl, rfl, rfl⟩
  | tc b => exact ingress_reports b

/-! ## In a run -/

section Run

variable {κ : Type} {D : Hook → Discipline (BpfOps Ptr) κ} {Post : Hook → Int → κ → Prop} {k₀ : κ} {S S' : Upf}

/-- Every packet has kept to its programme's discipline, and will. -/
def AllKept (D : Hook → Discipline (BpfOps Ptr) κ) (Post : Hook → Int → κ → Prop) (k₀ : κ) (S : Upf) : Prop :=
  ∀ i p, S.packets[i]? = some p → Kept (D p.hook) (Post p.hook) k₀ (S.log i) p.prog

theorem AllKept.congr (h : AllKept D Post k₀ S) (hp : S'.packets = S.packets) (hl : ∀ i, S'.log i = S.log i) :
    AllKept D Post k₀ S' := by
  intro i p hi
  rw [hl]
  exact h i p (hp ▸ hi)

theorem step_kept {mv : Move} (hprog : ∀ hook, Obeys (D hook) (Post hook) k₀ hook.programme)
    (hans : ∀ {hook H o s r s' k}, kernel H o s = some (r, s') → (D hook).Possible k o r)
    (hs : S.step mv = some S') (hf : Follows S) (h : AllKept D Post k₀ S) : AllKept D Post k₀ S' := by
  cases mv with
  | call c =>
    obtain ⟨-, rfl⟩ := step_call hs
    exact h.congr rfl fun i => log_snoc_none rfl
  | sys =>
    obtain ⟨c, o, k, r, maps, -, -, rfl⟩ := step_sys hs
    exact h.congr rfl fun i => log_snoc_none rfl
  | done =>
    obtain ⟨c, r, -, rfl⟩ := step_done hs
    exact h.congr rfl fun i => log_snoc_none rfl
  | stop =>
    obtain ⟨c, p, -, rfl⟩ := step_stop hs
    exact h.congr rfl fun i => log_snoc_none rfl
  | evict teid =>
    cases hs
    exact h.congr rfl fun i => log_snoc_none rfl
  | arrive hook H cpu wire =>
    cases hs
    intro i p hi
    rcases Nat.lt_trichotomy i S.packets.length with hlt | rfl | hgt
    · rw [List.getElem?_append_left hlt] at hi
      exact h i p hi
    · rw [List.getElem?_concat_length] at hi
      cases hi
      have : S.log S.packets.length = [] := hf.fresh _ le_rfl
      exact this ▸ Kept.start (hprog hook)
    · rw [List.getElem?_eq_none (by rw [List.length_append]; exact hgt)] at hi
      cases hi
  | op j =>
    obtain ⟨p, o, k, r, s, hj, hp, e, rfl⟩ := step_op hs
    intro i p' hi
    by_cases hij : j = i
    · subst hij
      rw [List.getElem?_set_self (List.getElem?_eq_some_iff.mp hj).1] at hi
      cases hi
      have hk := h j p hj
      rw [hp] at hk
      rw [log_snoc, Event.of, if_pos rfl, Option.toList_some]
      exact hk.op (hans e)
    · rw [List.getElem?_set_ne hij] at hi
      rw [log_snoc_none (by rw [Event.of, if_neg hij])]
      exact h i p' hi

theorem run_kept (hprog : ∀ hook, Obeys (D hook) (Post hook) k₀ hook.programme)
    (hans : ∀ {hook H o s r s' k}, kernel H o s = some (r, s') → (D hook).Possible k o r) {maps : Maps}
    {ms : List Move} (h : exec Upf.step (.start maps) ms = some S) : AllKept D Post k₀ S := by
  refine (exec_invariant (J := fun S => Follows S ∧ AllKept D Post k₀ S) (P := fun _ _ => True)
    (fun _ hi hs => ⟨step_follows hs hi.1, step_kept hprog hans hs hi.1 hi.2⟩)
    (along_of_forall (fun _ _ _ => trivial) _) h
    ⟨run_follows (show exec Upf.step (.start maps) [] = some _ from rfl), fun i p hi => ?_⟩).2
  simp [Upf.start] at hi

end Run

theorem kernel_possible {H : Helpers} {o : Op Ptr} {s s' : Machine} {r : Op.Ans o} {K : Findings}
    (h : kernel H o s = some (r, s')) : Findings.Possible K o r := by
  cases o with
  | lookup m key =>
    cases h
    intro p hp hd
    rw [ptr_value hd] at hp
    obtain ⟨v, -, rfl⟩ := Option.map_eq_some_iff.mp hp
    exact ⟨v, rfl⟩
  | read p off n =>
    cases h
    cases p with
    | value m v => rfl
    | elem m k => trivial
  | _ => trivial

theorem findings_snoc (l : Log (BpfOps Ptr)) (e : (o : Op Ptr) × Op.Ans o) :
    findings (l ++ [e]) = (findings l).next e.1 e.2 := by
  rw [findings, List.foldl_append]
  rfl

theorem run_reporting {maps : Maps} {ms : List Move} {S : Upf} (h : exec Upf.step (.start maps) ms = some S) :
    AllKept (fun hook => reporting hook.build) (fun hook => Tallied hook.build) .start S :=
  run_kept hook_reports (fun {hook _ o _ r _ K} e =>
    show (reporting hook.build).Possible K o r from kernel_possible (K := K) e) h

theorem reports_of_kept {p : Packet} {l : Log (BpfOps Ptr)}
    (h : Kept (reporting p.hook.build) (Tallied p.hook.build) .start l p.prog) : p.Reports l := by
  refine ⟨fun pre e post he data hd => ?_, fun v hv => ?_⟩
  · have ha := (h.past pre e post he).1
    obtain ⟨o, r⟩ := e
    obtain rfl : o = .perf_event_output data := hd
    exact ha
  · have hr := h.rest
    rw [hv] at hr
    exact hr

end UPF
