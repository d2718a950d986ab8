import EbpfUpf.Proof.Capture
import EbpfUpf.Proof.Commit
import EbpfUpf.Proof.Events
import EbpfUpf.Spec.Gpdu
import EbpfUpf.Spec.Toggle

/-!
# The consistency experiment finds nothing torn

What a run of `toggle_bundle.py` has begun is known from its moves
(`run_begun`), so the tuple that is in force has one of two pairs and the number
of the round as its generation (`modified_changes`). A decision event carries a
tuple that its packet found (`decision_found`), and that was in force. So
`analyze.py` finds no torn pair, and mismatches only for a start that its parity
does not fit (`toggles_judged`).
-/

open Framework

namespace UPF

/-! ## The rounds -/

/-- The modification that a move begins. -/
def Move.begins (mv : Move) : List Changes := mv.command?.toList.flatMap fun c => begun [.call c]

theorem step_begun {S S' : Upf} {mv : Move} (hs : S.step mv = some S') :
    begun S'.hist = begun S.hist ++ mv.begins := by
  cases mv with
  | call c =>
    obtain ⟨-, rfl⟩ := step_call hs
    simp [Move.begins, Move.command?]
  | sys =>
    obtain ⟨c, o, k, r, maps, -, -, rfl⟩ := step_sys hs
    exact (begun_snoc rfl).trans (List.append_nil _).symm
  | done =>
    obtain ⟨c, r, -, rfl⟩ := step_done hs
    exact (begun_snoc rfl).trans (List.append_nil _).symm
  | stop =>
    obtain ⟨c, p, -, rfl⟩ := step_stop hs
    exact (begun_snoc rfl).trans (List.append_nil _).symm
  | evict teid =>
    cases hs
    exact (begun_snoc rfl).trans (List.append_nil _).symm
  | arrive hook H cpu wire =>
    cases hs
    exact (List.append_nil _).symm
  | op i =>
    obtain ⟨p, o, k, r, s, -, -, -, rfl⟩ := step_op hs
    exact (begun_snoc rfl).trans (List.append_nil _).symm

theorem run_begun {S S' : Upf} {ms : List Move} (h : exec Upf.step S ms = some S') :
    begun S'.hist = begun S.hist ++ ms.flatMap Move.begins := by
  induction ms generalizing S with
  | nil =>
    cases h
    simp
  | cons mv ms ih =>
    obtain ⟨S₁, hs, h⟩ := exec_cons.mp h
    rw [ih h, step_begun hs, List.flatMap_cons, List.append_assoc]

theorem changes_fits (i : Nat) : (toggle_bundle.changes i).Fits := by
  have h : (toggle_bundle.changes i) = ⟨some 1, some 1, none, none⟩ ∨
      (toggle_bundle.changes i) = ⟨some 3, some 3, none, none⟩ := by
    rcases Nat.mod_two_eq_zero_or_one i with h | h <;> simp [toggle_bundle.changes, toggle_bundle.pairs, h]
  rcases h with h | h <;> rw [h] <;> constructor <;> decide

namespace Toggling

variable {n : Nat} {ms : List Move}

theorem begins (h : Toggling n ms) : ms.flatMap Move.begins = (List.range n).map toggle_bundle.changes := by
  have : ms.flatMap Move.begins = (ms.filterMap Move.command?).flatMap fun c => begun [.call c] := by
    rw [List.filterMap_eq_flatMap_toList, List.flatMap_assoc]
    rfl
  rw [this, h.rounds, List.flatMap_map, List.map_eq_flatMap]
  refine List.flatMap_congr fun i _ => ?_
  simp [toggle_bundle.command, begun, changes_fits]

theorem modifies (h : Toggling n ms) : ∀ mv ∈ ms, mv.Modifies toggle_bundle.pdr_id := by
  intro mv hmv
  cases mv with
  | call c =>
    have hc : c ∈ ms.filterMap Move.command? := List.mem_filterMap.mpr ⟨_, hmv, rfl⟩
    rw [h.rounds] at hc
    obtain ⟨i, -, rfl⟩ := List.mem_map.mp hc
    rfl
  | stop => exact absurd rfl (h.whole _ hmv)
  | _ => trivial

end Toggling

/-- The tuple after the first `n` rounds. -/
theorem modified_changes (t : Tuple) (n : Nat) : (t.modified ((List.range n).map toggle_bundle.changes)).generation =
    t.generation + n ∧ analyze.Tuple.pair (t.modified ((List.range n).map toggle_bundle.changes)) =
      analyze.pairAt t (t.generation + n) := by
  refine ⟨by rw [generation_modified, List.length_map, List.length_range], ?_⟩
  cases n with
  | zero => simp [Tuple.modified, analyze.pairAt]
  | succ n =>
    rw [List.range_succ, List.map_append, List.map_singleton, modified_concat, analyze.pairAt,
      if_neg (by omega), show t.generation + (n + 1) - t.generation = n + 1 by omega]
    rcases Nat.mod_two_eq_zero_or_one n with h | h
    · rw [if_pos (by omega)]
      simp [analyze.Tuple.pair, Changes.apply, toggle_bundle.changes, toggle_bundle.pairs, h]
    · rw [if_neg (by omega)]
      simp [analyze.Tuple.pair, Changes.apply, toggle_bundle.changes, toggle_bundle.pairs, h]

/-- A prefix of the rounds. -/
theorem committed_changes {t : Tuple} {n : Nat} {h : List Event}
    (hb : begun h <+: (List.range n).map toggle_bundle.changes) :
    ∃ k, k ≤ n ∧ committed t h = t.modified ((List.range k).map toggle_bundle.changes) := by
  have hp : (begun h).take (writes h / 2) <+: (List.range n).map toggle_bundle.changes :=
    (List.take_prefix _ _).trans hb
  rw [List.prefix_iff_eq_take, ← List.map_take, List.take_range] at hp
  exact ⟨_, Nat.min_le_right _ _, congrArg t.modified hp⟩

/-! ## What the events say -/

/-- Only a lookup that finds something finds it. -/
theorem next_found (K : Findings) (e : (o : Op Ptr) × Op.Ans o) : (K.next e.1 e.2).found = K.found ∨
    ∃ m k m' v, e = ⟨.lookup m k, some (.value m' v)⟩ ∧ (K.next e.1 e.2).found = (m, k, v) :: K.found := by
  obtain ⟨o, r⟩ := e
  cases o with
  | lookup m k =>
    cases r with
    | none => exact .inl rfl
    | some p =>
      cases p with
      | elem m' k' => exact .inl rfl
      | value m' v =>
        show (if m.isRule then { K with found := (m, k, v) :: K.found } else K).found = _ ∨ _
        by_cases hm : m.isRule
        · exact .inr ⟨m, k, m', v, rfl, congrArg Findings.found (if_pos hm)⟩
        · exact .inl (congrArg Findings.found (if_neg hm))
  | bump idx => cases idx <;> exact .inl rfl
  | _ => exact .inl rfl

theorem found_mem {l : Log (BpfOps Ptr)} {m : MapName} {k : Nat} {v : Bytes} (h : (m, k, v) ∈ (findings l).found) :
    ∃ m', (⟨.lookup m k, some (.value m' v)⟩ : (o : Op Ptr) × Op.Ans o) ∈ l := by
  induction l using List.reverseRecOn with
  | nil => cases h
  | append_singleton l e ih =>
    rw [findings_snoc] at h
    have hl : (m, k, v) ∈ (findings l).found →
        ∃ m', (⟨.lookup m k, some (.value m' v)⟩ : (o : Op Ptr) × Op.Ans o) ∈ l ++ [e] := fun h => by
      obtain ⟨m', hm⟩ := ih h
      exact ⟨m', List.mem_append_left _ hm⟩
    rcases next_found (findings l) e with hf | ⟨m₁, k₁, m', v₁, rfl, hf⟩
    · exact hl (hf ▸ h)
    · rw [hf] at h
      rcases List.mem_cons.mp h with he | h
      · cases he
        exact ⟨m', List.mem_append_right _ List.mem_cons_self⟩
      · exact hl h

/-- A decision event tells of a bundle that its packet found. -/
theorem decision_found {maps : Maps} {ms : List Move} {S : Upf} (h : exec Upf.step (.start maps) ms = some S)
    (hD : S.DecisionsOnly) {data : Bytes} (he : S.Emitted data) (hd : data.length = 16) :
    ∃ i pdr_id m bundle, Event.op i (.lookup .tc_bundle_map pdr_id) (some (.value m bundle)) ∈ S.hist ∧
      pdr_id < 2 ^ 32 ∧ data = decisionBytes (activeTuple bundle).far_id (activeTuple bundle).qer_id
        (activeTuple bundle).generation pdr_id := by
  obtain ⟨i, r, he⟩ := he
  have hlog : (⟨.perf_event_output data, r⟩ : (o : Op Ptr) × Op.Ans o) ∈ S.log i :=
    List.mem_filterMap.mpr ⟨_, he, if_pos rfl⟩
  obtain ⟨p, hi⟩ : ∃ p, S.packets[i]? = some p := by
    cases hi : S.packets[i]? with
    | some p => exact ⟨p, rfl⟩
    | none =>
      rw [(run_follows h).fresh i (List.getElem?_eq_none_iff.mp hi)] at hlog
      cases hlog
  obtain ⟨pre, post, hl⟩ := List.append_of_mem hlog
  have hf := (reports_of_kept (run_reporting h i p hi)).1 pre _ post hl data rfl
  cases hf with
  | latency hb =>
    rw [hD p (List.mem_of_getElem? hi)] at hb
    cases hb
  | buffer =>
    rw [bufferBytes] at hd
    simp at hd
  | @decision teid pdr_id t hb hr =>
    obtain ⟨sess, bundle, -, rfl, hf, rfl⟩ := hr
    obtain ⟨m, hm⟩ := found_mem hf
    have hm : _ ∈ S.log i := hl ▸ List.mem_append_left _ hm
    obtain ⟨pre, post, hh⟩ := hist_of_mem hm
    exact ⟨i, _, m, bundle, hh ▸ List.mem_append_right _ List.mem_cons_self, Bytes.get_lt _ _ _, rfl⟩

/-! ## The experiment -/

section Experiment

variable {maps : Maps} {cur : Bytes} {n : Nat} {ms : List Move} {S : Upf}

/-- Each packet finds what the rounds so far have committed. -/
theorem toggles_found (hl : maps.lookup .tc_bundle_map toggle_bundle.pdr_id.toNat = some cur)
    (h : exec Upf.step (.start maps) ms = some S) (ht : Toggling n ms)
    (hn : (activeTuple cur).generation + n < 2 ^ 32) :
    AtEach (FindsCommitted toggle_bundle.pdr_id.toNat (activeTuple cur)) S.hist := by
  have hk : Fmt.I.fits toggle_bundle.pdr_id := by decide
  have hb : begun S.hist = (List.range n).map toggle_bundle.changes := by
    rw [run_begun h, ht.begins]
    rfl
  have hr := (run_lookups (m := .tc_bundle_map) rfl
    (A := fun pre k v => k = toggle_bundle.pdr_id.toNat → (activeTuple cur).generation + (begun pre).length < 2 ^ 32 →
      ∃ b, v = some b ∧ activeTuple b = committed (activeTuple cur) pre)
    (P := fun _ mv => mv.Modifies toggle_bundle.pdr_id)
    (J := fun S => (activeTuple cur).generation + (begun S.hist).length < 2 ^ 32 →
      Committing toggle_bundle.pdr_id (activeTuple cur) S)
    (fun {S mv S'} hp hi hs hn => ?_) (fun {S} hi k hk' hn => ?_)
    (along_of_forall (fun mv h' _ => ht.modifies mv h') _) h
    (fun _ => ⟨cur, [], hl, rfl, .idle⟩) rfl).2
  · intro pre e post heq i r he
    subst he
    obtain ⟨v, hv, ha⟩ := hr pre _ post heq i _ r rfl
    have hlen := congrArg List.length hb
    rw [heq, begun_append, List.length_append, List.length_map, List.length_range] at hlen
    obtain ⟨b, rfl, hb⟩ := ha rfl (by omega)
    exact ⟨b, hv, hb⟩
  · rw [step_begun hs, List.length_append] at hn
    exact step_committing hk hp (by omega) hs (hi (by omega))
  · obtain ⟨cur', cs, hl, ht, hp⟩ := hi hn
    exact ⟨cur', hk' ▸ hl, by rw [ht, committed, hp.take]⟩

/-- A decision event tells of a tuple that was in force. -/
theorem decision_tupleOf (hl : maps.lookup .tc_bundle_map toggle_bundle.pdr_id.toNat = some cur)
    (h : exec Upf.step (.start maps) ms = some S) (ht : Toggling n ms)
    (hn : (activeTuple cur).generation + n < 2 ^ 32) (hD : S.DecisionsOnly) {data : Bytes}
    (he : S.Emitted data) (hd : IsDecision data) :
    ∃ e : analyze.Event, e.bytes = data ∧ e.Fits ∧ analyze.TupleOf (activeTuple cur) n e := by
  obtain ⟨i, pdr_id, m, bundle, hm, hp, rfl⟩ := decision_found h hD he hd.1
  have hlt : ∀ off, bundle.get off 4 < 2 ^ 32 := fun off => Bytes.get_lt _ _ _
  refine ⟨⟨(activeTuple bundle).far_id, (activeTuple bundle).qer_id, (activeTuple bundle).generation, pdr_id⟩, rfl,
    ⟨hlt _, hlt _, hlt _, hp⟩, ?_⟩
  obtain rfl : pdr_id = toggle_bundle.pdr_id.toNat := by
    have hb : decisionBytes (activeTuple bundle).far_id (activeTuple bundle).qer_id (activeTuple bundle).generation
        pdr_id = layout [(4, (activeTuple bundle).far_id), (4, (activeTuple bundle).qer_id),
          (4, (activeTuple bundle).generation), (4, pdr_id)] := by simp [decisionBytes, layout]
    exact (get_layout_at 3 rfl rfl hp).symm.trans (hb ▸ hd.2)
  obtain ⟨pre, post, hh⟩ := List.append_of_mem hm
  obtain ⟨v, hv, hc⟩ := toggles_found hl h ht hn pre _ post hh i _ rfl
  cases hv
  have hb : begun pre <+: (List.range n).map toggle_bundle.changes := by
    have := run_begun h
    rw [ht.begins] at this
    exact ⟨begun (_ :: post), by rw [← begun_append, ← hh, this]; rfl⟩
  obtain ⟨k, hk, hc'⟩ := committed_changes (t := activeTuple cur) hb
  obtain ⟨hg, hpair⟩ := modified_changes (activeTuple cur) k
  rw [hc'] at hc
  rw [← hc] at hg hpair
  refine ⟨?_, ?_, ?_⟩
  · show _ ≤ (activeTuple bundle).generation
    omega
  · show (activeTuple bundle).generation ≤ _
    omega
  · show analyze.Tuple.pair (activeTuple bundle) = analyze.pairAt _ (activeTuple bundle).generation
    rw [hpair, hg]

end Experiment

namespace analyze

variable {t₀ : Tuple} {n : Nat} {es : List Event}

theorem pairAt_valid (h : Tuple.pair t₀ ∈ valid_pairs) (g : Nat) : pairAt t₀ g ∈ valid_pairs := by
  unfold pairAt
  split
  · exact h
  · split <;> decide

theorem torn_eq_nil (h : Tuple.pair t₀ ∈ valid_pairs) (he : ∀ e ∈ es, TupleOf t₀ n e) : torn es = [] := by
  rw [torn, List.filter_eq_nil_iff]
  intro e hm
  rw [(he e hm).2.2, decide_eq_true_eq, not_not]
  exact pairAt_valid h _

/-- Two parities of the same number. -/
theorem misjudged_iff {e : Event} (h : TupleOf t₀ n e) :
    (e.pair ≠ pairOf e.generation) ↔ Misjudged t₀ e = true := by
  obtain ⟨hge, -, hp⟩ := h
  rw [hp, pairAt, Misjudged]
  split
  · next hg => rw [hg, decide_eq_true_eq]
  · next hg =>
    rw [decide_eq_true_eq, pairOf]
    rcases Nat.mod_two_eq_zero_or_one (e.generation - t₀.generation) with hd | hd <;>
      rcases Nat.mod_two_eq_zero_or_one e.generation with hg' | hg' <;>
      simp only [hd, hg'] <;> simp <;> omega

theorem mismatches_eq (he : ∀ e ∈ es, TupleOf t₀ n e) : mismatches es = es.countP (Misjudged t₀) :=
  List.countP_congr fun e hm => by rw [decide_eq_true_eq]; exact misjudged_iff (he e hm)

theorem distinct_le (he : ∀ e ∈ es, TupleOf t₀ n e) : distinct_generations es ≤ n + 1 := by
  have hsub : (es.map Event.generation).dedup ⊆ (List.range (n + 1)).map (t₀.generation + ·) := by
    intro g hg
    obtain ⟨e, hm, rfl⟩ := List.mem_map.mp (List.mem_dedup.mp hg)
    obtain ⟨hlo, hhi, -⟩ := he e hm
    exact List.mem_map.mpr ⟨e.generation - t₀.generation, List.mem_range.mpr (by omega), by omega⟩
  have := (List.nodup_dedup _).subperm hsub |>.length_le
  rwa [List.length_map, List.length_range] at this

end analyze

theorem exists_map {α β : Type} {f : α → β} {Q : α → Prop} {bs : List β} (h : ∀ b ∈ bs, ∃ a, f a = b ∧ Q a) :
    ∃ as : List α, as.map f = bs ∧ ∀ a ∈ as, Q a := by
  induction bs with
  | nil => exact ⟨[], rfl, by simp⟩
  | cons b bs ih =>
    obtain ⟨hb, hbs⟩ := List.forall_mem_cons.mp h
    obtain ⟨a, rfl, ha⟩ := hb
    obtain ⟨as, rfl, has⟩ := ih hbs
    exact ⟨a :: as, rfl, List.forall_mem_cons.mpr ⟨ha, has⟩⟩

/-- However packets and rounds interleave, the analysis of the decisions that were captured
finds nothing torn and no more generations than there were, and mismatches only where the
first tuple or the generation that the rounds began at does not fit its parity. -/
theorem toggles_judged {maps : Maps} {cur : Bytes} {n : Nat} {ms : List Move} {S : Upf}
    (hl : maps.lookup .tc_bundle_map toggle_bundle.pdr_id.toNat = some cur)
    (h : exec Upf.step (.start maps) ms = some S) (ht : Toggling n ms)
    (hn : (activeTuple cur).generation + n < 2 ^ 32) (hD : S.DecisionsOnly)
    (hv : analyze.Tuple.pair (activeTuple cur) ∈ analyze.valid_pairs) {c : Capture} {sent : List Bytes}
    (hc : c.Shows sent) (hs : ∀ data ∈ sent, S.Emitted data ∧ IsDecision data) :
    ∃ es, analyze.parse c.text = .ok es ∧ analyze.torn es = [] ∧
      analyze.mismatches es = es.countP (analyze.Misjudged (activeTuple cur)) ∧
      analyze.distinct_generations es ≤ n + 1 := by
  obtain ⟨es, rfl, he⟩ := exists_map fun data hd => decision_tupleOf hl h ht hn hD (hs data hd).1 (hs data hd).2
  have hf := shows_read analyze.event (fun e hm => analyze.event_bytes (he e hm).1) hc
  have hin : ∀ e ∈ es, analyze.TupleOf (activeTuple cur) n e := fun e hm => (he e hm).2
  refine ⟨es, ?_, analyze.torn_eq_nil hv hin, analyze.mismatches_eq hin, analyze.distinct_le hin⟩
  rw [analyze.parse, parseLines_capture, hf]

/-- One round from generation 0, with a packet before and one after it. -/
def oneRound : List Move :=
  [.arrive (.tc ⟨false, true, false⟩) willing 0 (gpduFrame 0x1000)] ++ List.replicate 30 (.op 0) ++
  [.call (toggle_bundle.command 0), .sys, .sys, .sys, .done,
    .arrive (.tc ⟨false, true, false⟩) willing 0 (gpduFrame 0x1000)] ++ List.replicate 30 (.op 1)

def Event.emits (data : Bytes) : Event → Bool
  | op _ (.perf_event_output data') _ => data' = data
  | _ => false

theorem emitted_of_any {S : Upf} {data : Bytes} (h : S.hist.any (Event.emits data) = true) : S.Emitted data := by
  obtain ⟨e, he, hd⟩ := List.any_eq_true.mp h
  cases e with
  | op i o r =>
    cases o with
    | perf_event_output data' =>
      obtain rfl : data' = data := of_decide_eq_true hd
      exact ⟨i, r, he⟩
    | _ => cases hd
  | _ => cases hd

/-- Generation 1 has the pair of even generations. -/
theorem toggles_judged_one : ∃ maps S, (after (install_far 1 1 5 0 0) .empty).bind
      (after (install_session 0x1000 0x2000 1 1 32 0)) = some maps ∧
    exec Upf.step (.start maps) oneRound = some S ∧
    ∃ es, analyze.parse (Capture.text [sampleOf (decisionBytes 1 1 0 0x2000) rfl, lostLine,
        sampleOf (decisionBytes 1 1 1 0x2000) rfl]) = .ok es ∧ analyze.torn es = [] ∧
      analyze.distinct_generations es ≤ 2 := by
  have h : ((after (install_far 1 1 5 0 0) .empty).bind (after (install_session 0x1000 0x2000 1 1 32 0))).bind
      (fun maps => (maps.lookup .tc_bundle_map toggle_bundle.pdr_id.toNat).bind fun cur =>
        (exec Upf.step (.start maps) oneRound).map fun S => (activeTuple cur,
          S.packets.all fun p => !p.hook.build.latency_events, S.hist.any (Event.emits (decisionBytes 1 1 0 0x2000)),
          S.hist.any (Event.emits (decisionBytes 1 1 1 0x2000)))) = some (⟨1, 1, 0, 32, 0⟩, true, true, true) := by
    decide +kernel
  obtain ⟨maps, hm, h⟩ := Option.bind_eq_some_iff.mp h
  obtain ⟨cur, hl, h⟩ := Option.bind_eq_some_iff.mp h
  obtain ⟨S, hs, h⟩ := Option.map_eq_some_iff.mp h
  obtain ⟨ht, hp, h₀, h₁⟩ : _ ∧ _ ∧ _ ∧ _ := by simpa only [Prod.mk.injEq] using h
  have hD : S.DecisionsOnly := fun p hm => by simpa using List.all_eq_true.mp hp p hm
  have := toggles_judged hl hs (n := 1) ⟨by decide, by simp [oneRound]⟩ (by rw [ht]; decide) hD
    (by rw [ht]; decide) (c := [sampleOf (decisionBytes 1 1 0 0x2000) rfl, lostLine,
      sampleOf (decisionBytes 1 1 1 0x2000) rfl])
    (.cons (List.prefix_append _ _) (.cons (List.prefix_append _ _) .nil))
    (by simp only [List.mem_cons, List.not_mem_nil, or_false, forall_eq_or_imp, forall_eq]
        exact ⟨⟨emitted_of_any h₀, rfl, by decide⟩, emitted_of_any h₁, rfl, by decide⟩)
  obtain ⟨es, hes, htorn, -, hd⟩ := this
  exact ⟨maps, S, hm, hs, es, hes, htorn, hd⟩

end UPF
