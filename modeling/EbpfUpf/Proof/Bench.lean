import EbpfUpf.Proof.Measure
import EbpfUpf.Proof.Sessions
import EbpfUpf.Spec.Bench

/-!
# What the benchmarks leave behind

`Leaves` composes (`Leaves.trans`), and follows each update and deletion. The
loops of the benchmarks are then those of `Framework.Loops`.
-/

open Framework

namespace UPF

namespace Leaves

variable {new new' : NewContent} {s t u : Maps}

theorem refl (s : Maps) : Leaves (fun _ _ => none) s s := ⟨fun _ _ => rfl, rfl, rfl⟩

theorem congr (h : Leaves new s t) (hn : ∀ m key, new m key = new' m key) : Leaves new' s t :=
  ⟨fun m key => hn m key ▸ h.table m key, h.percpu, h.metrics⟩

theorem trans (h : Leaves new s t) (h' : Leaves new' t u) :
    Leaves (fun m key => new' m key <|> new m key) s u := by
  refine ⟨fun m key => ?_, h'.percpu.trans h.percpu, h'.metrics.trans h.metrics⟩
  rw [h'.table, h.table]
  cases new' m key <;> rfl

theorem put (h : Leaves new s t) (m : MapName) (k : Nat) (v : Bytes) :
    Leaves (fun m' key => if m' = m ∧ key = k then some (some v) else new m' key) s (t.put m k v) := by
  refine ⟨fun m' key => ?_, h.percpu, h.metrics⟩
  by_cases hm : m' = m
  · subst hm
    rw [Maps.table_put]
    by_cases hk : key = k
    · subst hk
      simp
    · rw [Finmap.lookup_insert_of_ne _ hk, h.table]
      simp [hk]
  · rw [Maps.table_put_ne _ _ _ hm, h.table]
    simp [hm]

theorem drop (h : Leaves new s t) (m : MapName) (k : Nat) :
    Leaves (fun m' key => if m' = m ∧ key = k then some none else new m' key) s (t.drop m k) := by
  refine ⟨fun m' key => ?_, h.percpu, h.metrics⟩
  by_cases hm : m' = m
  · subst hm
    rw [Maps.table_drop]
    by_cases hk : key = k
    · subst hk
      simp
    · rw [Finmap.lookup_erase_ne hk, h.table]
      simp [hk]
  · rw [Maps.table_drop_ne _ _ hm, h.table]
    simp [hm]

end Leaves

/-- A hash map takes what fits. -/
theorem update_takes {s : Maps} {m : MapName} (hm : m.type = .HASH) (hc : (s.table m).keys.card ≤ m.max_entries)
    {k : Nat} (h : (insert k (s.table m).keys).card ≤ m.max_entries) (v : Bytes) :
    s.update m k v = .ok (s.put m k v) := by
  rw [← takes_iff hc, Finmap.mem_keys] at h
  rw [Maps.update, hm]
  exact if_pos h

theorem update_refuses {s : Maps} {m : MapName} (hm : m.type = .HASH) (hc : (s.table m).keys.card ≤ m.max_entries)
    {k : Nat} (h : ¬(insert k (s.table m).keys).card ≤ m.max_entries) (v : Bytes) :
    s.update m k v = .error .E2BIG := by
  rw [← takes_iff hc, Finmap.mem_keys] at h
  rw [Maps.update, hm]
  exact if_neg h

namespace Bench

variable {s s₁ t : Maps} {n i : Nat}

theorem key_le {k : Nat} (h : k < 2 ^ 32) : le (toLE 4 k) = k := le_toLE_of_lt h

/-- A deletion leaves the key out, whether it was there or not. -/
theorem delete_ends {m : MapName} (hm : Maps.Hash m) {k : Nat} (hk : k < 2 ^ 32) (s : Maps) :
    (bpf_map_delete_elem m k).run sys s = some ((), s.drop m k) := by
  rw [bpf_map_delete_elem, Prog.run, sys, key_le hk, ← deleted_eq_drop hm]
  unfold deleted
  cases s.delete m k <;> rfl

theorem update_ends {m : MapName} {k : Nat} (hk : k < 2 ^ 32) (v : Bytes) (s : Maps) :
    (bpf_map_update_elem m k v).run sys s = some (match s.update m k v with
      | .ok s' => (false, s')
      | .error _ => (true, s)) := by
  rw [bpf_map_update_elem, Prog.run, sys, key_le hk]
  cases s.update m k v <;> rfl

theorem pdr_lt (h : i < 2 ^ 31) : PDR_BASE + i < 2 ^ 32 := by
  show 0x20000 + i < 2 ^ 32
  omega

theorem teid_lt (h : i < 2 ^ 31) : TEID_BASE + i < 2 ^ 32 := by
  show 0x10000 + i < 2 ^ 32
  omega

theorem delete_rule_ends (hi : i < 2 ^ 31) (s : Maps) : (delete_rule i).run sys s =
    some ((), (s.drop .teid_session (TEID_BASE + i)).drop .pdr_table (PDR_BASE + i)) := by
  rw [delete_rule, Prog.run_bind, delete_ends (.inr rfl) (teid_lt hi)]
  exact delete_ends (.inl rfl) (pdr_lt hi) _

theorem cleared_succ (n : Nat) (m : MapName) (key : Nat) :
    (if m = .pdr_table ∧ key = PDR_BASE + n then some none
      else if m = .teid_session ∧ key = TEID_BASE + n then some none else cleared n m key) = cleared (n + 1) m key := by
  cases m <;> simp only [cleared, reduceCtorEq, true_and, false_and, if_false] <;> (split_ifs <;> first | rfl | omega)

/-- The loop that deletes the rules. -/
theorem delete_loop (hn : n ≤ 2 ^ 31) (s : Maps) : ∃ t,
    Ends sys ((List.range n).forM fun i => (delete_rule i : Main Unit)) s (.ok ()) t ∧ Leaves (cleared n) s t := by
  refine ends_range_ok (J := fun i t => Leaves (cleared i) s t) (fun i hi t ht => ?_) ?_
  · refine ⟨_, ends_lift (delete_rule_ends (by omega) t), ?_⟩
    exact ((ht.drop _ _).drop _ _).congr (cleared_succ i)
  · exact (Leaves.refl s).congr fun m key => by cases m <;> simp [cleared]

theorem held_pdr (j k : Nat) (m : MapName) (key : Nat) :
    (if m = .pdr_table ∧ key = PDR_BASE + j then some (some (pdr_val 1 1 100)) else held j k m key) =
      held (j + 1) k m key := by
  cases m <;> simp only [held, reduceCtorEq, true_and, false_and, if_false]
  split_ifs <;> first | rfl | omega

theorem held_teid (j k : Nat) (m : MapName) (key : Nat) :
    (if m = .teid_session ∧ key = TEID_BASE + k then some (some (session_val (PDR_BASE + k) 1 1))
      else held j k m key) = held j (k + 1) m key := by
  cases m <;> simp only [held, reduceCtorEq, true_and, false_and, if_false]
  by_cases h : key = TEID_BASE + k
  · subst h
    rw [if_pos rfl, if_pos (by omega), Nat.add_sub_cancel_left]
  · rw [if_neg h]
    split_ifs <;> first | rfl | omega

theorem held_keys {j k : Nat} (h : Leaves (held j k) s t) : (t.table .pdr_table).keys = pdrs s j := by
  ext key
  rw [Finmap.mem_keys, ← Finmap.lookup_isSome, h.table, pdrs, mem_grown, Finmap.mem_keys, ← Finmap.lookup_isSome, held]
  have hr : (∃ i < j, PDR_BASE + i = key) ↔ PDR_BASE ≤ key ∧ key < PDR_BASE + j :=
    ⟨fun ⟨i, hi, he⟩ => by omega, fun h => ⟨key - PDR_BASE, by omega, by omega⟩⟩
  rw [hr]
  split_ifs with hk
  · simp [hk]
  · simp [hk]

/-- The rule of a PDR that fits, and of one that does not. -/
theorem update_pdr_ends (hi : i < 2 ^ 31) (hc : (t.table .pdr_table).keys.card ≤ MAX_PDRS) :
    (update_pdr i).run sys t = if (insert (PDR_BASE + i) (t.table .pdr_table).keys).card ≤ MAX_PDRS then
      some (false, t.put .pdr_table (PDR_BASE + i) (pdr_val 1 1 100)) else some (true, t) := by
  rw [update_pdr, update_ends (pdr_lt hi)]
  split_ifs with hf
  · rw [update_takes rfl hc hf]
  · rw [update_refuses rfl hc hf]

theorem update_teid_ends {i : Nat} (hi : i < 2 ^ 31) (t : Maps) : (update_teid i).run sys t =
    some (false, t.put .teid_session (TEID_BASE + i) (session_val (PDR_BASE + i) 1 1)) := by
  rw [update_teid, update_ends (teid_lt hi)]
  rfl

/-- Before turn `i` of the loop that installs, the first `i` rules are there, and fit. -/
structure Filling (s : Maps) (i : Nat) (t : Maps) : Prop where
  leaves : Leaves (held i i) s t
  fits : (pdrs s i).card ≤ MAX_PDRS

theorem filling_start (h : (s.table .pdr_table).keys.card ≤ MAX_PDRS) : Filling s 0 s :=
  ⟨(Leaves.refl s).congr fun m key => by cases m <;> simp [held], by rwa [pdrs, grown_zero]⟩

/-- One turn of the loop that installs. -/
theorem install_rule_ends (hi : i < 2 ^ 31) (h : Filling s i t) :
    (∃ t', Ends sys (install_rule i) t (.ok ()) t' ∧ Filling s (i + 1) t') ∨
      ∃ e t', Ends sys (install_rule i) t (.error e) t' ∧
        (e = 1 ∧ Filling s i t' ∧ MAX_PDRS < (pdrs s (i + 1)).card) := by
  have hk := held_keys h.leaves
  have hp := update_pdr_ends hi (hk ▸ h.fits)
  rw [hk, show insert (PDR_BASE + i) (pdrs s i) = pdrs s (i + 1) from grown_succ.symm] at hp
  split_ifs at hp with hf
  · left
    refine ⟨(t.put .pdr_table (PDR_BASE + i) (pdr_val 1 1 100)).put .teid_session (TEID_BASE + i)
      (session_val (PDR_BASE + i) 1 1), (ends_lift hp).bind ?_, ?_, hf⟩
    · exact (ends_lift (update_teid_ends hi _)).bind (ends_pure sys () _)
    · refine ((h.leaves.put _ _ _).put _ _ _).congr fun m key => ?_
      simp only [held_pdr]
      exact held_teid _ _ m key
  · right
    exact ⟨1, t, (ends_lift hp).bind ((ends_throw sys 1 t).stop _), rfl, h, by omega⟩

/-- Before turn `i` of the loop that counts, the rules that there was room for are
there, and the others have failed. -/
structure Counting (s : Maps) (i fail : Nat) (t : Maps) : Prop where
  leaves : Leaves (held (min i (room s .pdr_table)) i) s t
  fail : fail = i - room s .pdr_table

theorem insert_rule_run (hi : i < 2 ^ 31) {failed : Bool} (hp : (update_pdr i).run sys s = some (failed, s₁))
    (fail : Nat) : (insert_rule fail i).run sys s = some (fail + (if failed then 1 else 0),
      s₁.put .teid_session (TEID_BASE + i) (session_val (PDR_BASE + i) 1 1)) := by
  rw [insert_rule, Prog.run_bind, hp]
  cases failed
  · show Prog.run sys (update_teid i >>= _) _ = _
    rw [Prog.run_bind, update_teid_ends hi]
    rfl
  · show Prog.run sys (update_teid i >>= _) _ = _
    rw [Prog.run_bind, update_teid_ends hi]
    rfl

/-- One turn of it, when none of the rules was there before. -/
theorem insert_rule_ends (hn : n ≤ 2 ^ 31) (hnew : ∀ i < n, PDR_BASE + i ∉ (s.table .pdr_table).keys)
    (hc : (s.table .pdr_table).keys.card ≤ MAX_PDRS) (hi : i < n) {fail : Nat} (h : Counting s i fail t) :
    ∃ fail' t', Ends sys (insert_rule fail i : Main Nat) t (.ok fail') t' ∧ Counting s (i + 1) fail' t' := by
  have hk := held_keys h.leaves
  have hroom : room s .pdr_table = MAX_PDRS - (s.table .pdr_table).keys.card := rfl
  have hcard : ∀ j ≤ n, (pdrs s j).card = (s.table .pdr_table).keys.card + j := fun j hj =>
    card_grown (fun i hi => hnew i (by omega)) fun i _ j _ he => by simpa using he
  have hp := update_pdr_ends (i := i) (by omega) (show (t.table .pdr_table).keys.card ≤ MAX_PDRS by
    rw [hk, hcard _ (by omega)]
    omega)
  have hins : (insert (PDR_BASE + i) (t.table .pdr_table).keys).card =
      (s.table .pdr_table).keys.card + min i (room s .pdr_table) + 1 := by
    rw [Finset.card_insert_of_notMem, hk, hcard _ (by omega)]
    rw [hk, pdrs, mem_grown]
    rintro (hm | ⟨j, hj, he⟩)
    · exact hnew i hi hm
    · omega
  rw [hins] at hp
  by_cases hr : i < room s .pdr_table
  · rw [if_pos (by omega)] at hp
    refine ⟨_, _, ends_lift (insert_rule_run (by omega) hp fail), ?_, ?_⟩
    · refine ((h.leaves.put _ _ _).put _ _ _).congr fun m key => ?_
      rw [Nat.min_eq_left (by omega), Nat.min_eq_left (by omega)]
      simp only [held_pdr]
      exact held_teid _ _ m key
    · rw [h.fail, if_neg (by decide)]
      omega
  · rw [if_neg (by omega)] at hp
    refine ⟨_, _, ends_lift (insert_rule_run (by omega) hp fail), ?_, ?_⟩
    · refine (h.leaves.put _ _ _).congr fun m key => ?_
      rw [Nat.min_eq_right (by omega), Nat.min_eq_right (by omega)]
      exact held_teid _ _ m key
    · rw [h.fail, if_pos rfl]
      omega

theorem mem_others {key : Nat} : key ∈ others s n ↔
    key ∈ (s.table .pdr_table).keys ∧ ¬(PDR_BASE ≤ key ∧ key < PDR_BASE + n) := Finset.mem_filter

theorem cleared_keys (h : Leaves (cleared n) s t) : (t.table .pdr_table).keys = others s n := by
  ext key
  rw [mem_others, Finmap.mem_keys, ← Finmap.lookup_isSome, h.table, Finmap.mem_keys, ← Finmap.lookup_isSome, cleared]
  split_ifs with hk
  · simp [hk]
  · simp [hk]

/-- Whatever the rules were, after they are deleted there are none. -/
theorem cleared_after {new : NewContent} (hnew : ∀ m key, cleared n m key = none → new m key = none)
    (h : Leaves new s t) {u : Maps} (h' : Leaves (cleared n) t u) : Leaves (cleared n) s u := by
  refine (h.trans h').congr fun m key => ?_
  cases hc : cleared n m key with
  | none => exact hnew m key hc
  | some c => rfl

theorem held_none {j k : Nat} (hj : j ≤ n) (hk : k ≤ n) (m : MapName) (key : Nat) (h : cleared n m key = none) :
    held j k m key = none := by
  cases m <;> simp only [cleared, held] at h ⊢
  all_goals
    split_ifs at h with hc
    exact if_neg fun hh => hc (by omega)

theorem drop_put (s : Maps) (m : MapName) (k : Nat) (v : Bytes) : (s.put m k v).drop m k = s.drop m k := by
  refine maps_ext (fun m' k' => ?_) rfl rfl
  by_cases hm : m' = m
  · subst hm
    rw [Maps.table_drop, Maps.table_put, Maps.table_drop]
    by_cases hk : k' = k
    · rw [hk, Finmap.lookup_erase, Finmap.lookup_erase]
    · rw [Finmap.lookup_erase_ne hk, Finmap.lookup_erase_ne hk, Finmap.lookup_insert_of_ne _ hk]
  · rw [Maps.table_drop_ne _ _ hm, Maps.table_put_ne _ _ _ hm, Maps.table_drop_ne _ _ hm]

/-- The first update of the benchmark may fail. -/
theorem warm_up {s : Maps} (hc : (s.table .pdr_table).keys.card ≤ MAX_PDRS) : ∃ failed s₁,
    (bpf_map_update_elem .pdr_table WARM_UP (pdr_val 1 1 1)).run sys s = some (failed, s₁) ∧
      s₁.drop .pdr_table WARM_UP = warmedUp s := by
  rw [update_ends (by decide)]
  by_cases hf : (insert WARM_UP (s.table .pdr_table).keys).card ≤ MAX_PDRS
  · rw [update_takes rfl hc hf]
    exact ⟨_, _, rfl, drop_put _ _ _ _⟩
  · rw [update_refuses rfl hc hf]
    exact ⟨_, _, rfl, rfl⟩

/-! ## Sessions -/

theorem lt_of_room (h : (teids s n).card ≤ MAX_TEIDS) : n < 2 ^ 31 :=
  ((le_card_grown fun i j he => by simpa using he).trans h).trans_lt (by decide)

theorem mem_teids (hi : i < n) : TEID_BASE + i ∈ teids s n := mem_grown.mpr (.inr ⟨i, hi, rfl⟩)

theorem delete_rule_listed (K : Finset Nat) (i : Nat) : (delete_rule i : Main Unit).run.Asks (Listed K) :=
  ⟨trivial, fun _ => ⟨trivial, fun _ => trivial⟩⟩

theorem update_teid_listed (hn : n < 2 ^ 31) (hi : i < n) : (update_teid i).Asks (Listed (teids s n)) :=
  ⟨by rw [Listed, key_le (teid_lt (by omega))]; exact mem_teids hi, fun _ => trivial⟩

theorem install_rule_listed (hn : n < 2 ^ 31) (hi : i < n) : (install_rule i).run.Asks (Listed (teids s n)) := by
  refine asks_bind (asks_plain ⟨trivial, fun _ => trivial⟩) fun r => ?_
  cases r with
  | true => exact trivial
  | false =>
    refine asks_bind (asks_plain (update_teid_listed hn hi)) fun r => ?_
    cases r <;> trivial

theorem insert_rule_listed (hn : n < 2 ^ 31) (hi : i < n) (fail : Nat) :
    (insert_rule fail i).Asks (Listed (teids s n)) := by
  have hp : (update_pdr i).Asks (Listed (teids s n)) := ⟨trivial, fun _ => trivial⟩
  exact hp.bind fun r => by cases r <;> exact (update_teid_listed hn hi).bind fun r => by cases r <;> trivial

theorem bench_memory_listed (h : (teids s n).card ≤ MAX_TEIDS) :
    (bench_memory n).run.Asks (Listed (teids s n)) := by
  have hn := lt_of_room h
  unfold bench_memory
  rw [Int.toNat_natCast]
  split
  · trivial
  · refine asks_bind (asks_forM fun i _ => delete_rule_listed _ i) fun _ => asks_bind ?_ fun _ =>
      asks_bind (asks_forM fun i _ => delete_rule_listed _ i) fun _ => trivial
    exact asks_foldlM (fun fail i hi => asks_plain (insert_rule_listed hn (List.mem_range.mp hi) fail)) _

theorem bench_rule_update_listed (h : (teids s n).card ≤ MAX_TEIDS) (csv : Option Bool) :
    (bench_rule_update n csv).run.Asks (Listed (teids s n)) := by
  have hn := lt_of_room h
  rw [bench_rule_update, Int.toNat_natCast]
  by_cases h0 : (n : Int) ≤ 0
  · rw [if_pos h0]
    trivial
  · rw [if_neg h0]
    refine asks_bind (asks_plain ⟨trivial, fun _ => trivial⟩) fun _ =>
      asks_bind (asks_plain ⟨trivial, fun _ => trivial⟩) fun _ => ?_
    refine asks_bind (asks_forM fun i hi => install_rule_listed hn (List.mem_range.mp hi)) fun _ =>
      asks_bind (asks_forM fun i _ => delete_rule_listed _ i) fun _ => ?_
    split <;> trivial

theorem subset_teids (s : Maps) (n : Nat) : (s.table .teid_session).keys ⊆ teids s n :=
  Finset.subset_union_left

end Bench

open Bench

/-- `bench_memory` counts exactly the rules that there was no room for besides those that
are not its own, and leaves nothing of its own behind. -/
theorem bench_memory_counts {s : Maps} {n : Nat} (hpos : 0 < n) (hroom : (teids s n).card ≤ MAX_TEIDS)
    (hc : (s.table .pdr_table).keys.card ≤ MAX_PDRS) : ∃ t,
    Ends sysLru (bench_memory n) s (.ok ⟨n, 81920, 1310720, 1392640, 1392640 / (n : Rat),
      n - (MAX_PDRS - (others s n).card)⟩) t ∧ Leaves (cleared n) s t := by
  have hn := lt_of_room hroom
  obtain ⟨s₁, h₁, hl₁⟩ := delete_loop hn.le s
  have hk₁ := cleared_keys hl₁
  have hc₁ : (s₁.table .pdr_table).keys.card ≤ MAX_PDRS :=
    hk₁ ▸ (Finset.card_le_card (Finset.filter_subset _ _)).trans hc
  have hnew : ∀ i < n, PDR_BASE + i ∉ (s₁.table .pdr_table).keys := fun i hi hm => by
    rw [hk₁, mem_others] at hm
    omega
  obtain ⟨fail, s₂, h₂, hl₂, hf⟩ := ends_foldl (J := Counting s₁)
    (fun i hi fail t h => insert_rule_ends hn.le hnew hc₁ hi h)
    (⟨(Leaves.refl s₁).congr fun m key => by cases m <;> simp [held], (Nat.zero_sub _).symm⟩)
  obtain ⟨t, h₃, hl₃⟩ := delete_loop hn.le s₂
  refine ⟨t, ?_, cleared_after (fun _ _ h => h) hl₁ (cleared_after (held_none (Nat.min_le_left _ _) le_rfl) hl₂ hl₃)⟩
  have hfit : room s₁ .pdr_table = MAX_PDRS - (others s n).card := by
    rw [room, hk₁]
    rfl
  rw [hfit] at hf
  rw [ends_sysLru (bench_memory_listed hroom) hroom (subset_teids s n), ← hf, bench_memory, if_neg (by omega),
    Int.toNat_natCast]
  exact h₁.bind (h₂.bind (h₃.bind (ends_pure sys _ t)))

theorem teids_empty (n : Nat) : (teids .empty n).card = n := by
  have hk : (Maps.empty.table .teid_session).keys = ∅ := rfl
  rw [teids, hk, card_grown (fun i _ => by simp) fun i _ j _ he => by simpa using he]
  simp

/-- 904 of 5000 rules do not fit into fresh maps. -/
theorem bench_memory_counts_5000 : ∃ t, Ends sysLru (bench_memory 5000) .empty
      (.ok ⟨5000, 81920, 1310720, 1392640, 1392640 / 5000, 904⟩) t ∧ Leaves (cleared 5000) .empty t :=
  bench_memory_counts (s := .empty) (n := 5000) (by decide) (by rw [teids_empty]; decide) (by decide)

/-- `bench_rule_update` installs its rules and deletes them again if their PDRs fit, and then has
status 0 unless it cannot open its file; if they do not, it stops with status 1 at the first one that
does not, and leaves those before it. -/
theorem bench_rule_update_ends {s : Maps} {n : Nat} (hpos : 0 < n) (hroom : (teids s n).card ≤ MAX_TEIDS)
    (hc : (s.table .pdr_table).keys.card ≤ MAX_PDRS) (csv : Option Bool) :
    ((pdrs (warmedUp s) n).card ≤ MAX_PDRS ∧ ∃ t, Ends sysLru (bench_rule_update n csv) s
      (if csv = some false then .error 1 else .ok ()) t ∧ Leaves (cleared n) (warmedUp s) t) ∨
    (∃ k < n, (pdrs (warmedUp s) k).card ≤ MAX_PDRS ∧ MAX_PDRS < (pdrs (warmedUp s) (k + 1)).card ∧
      ∃ t, Ends sysLru (bench_rule_update n csv) s (.error 1) t ∧ Leaves (held k k) (warmedUp s) t) := by
  have hn := lt_of_room hroom
  simp only [ends_sysLru (bench_rule_update_listed hroom csv) hroom (subset_teids s n)]
  obtain ⟨failed, s₁, hu, hw⟩ := warm_up hc
  have hd : (bpf_map_delete_elem .pdr_table WARM_UP).run sys s₁ = some ((), warmedUp s) := by
    rw [delete_ends (.inl rfl) (by decide), hw]
  have hc : ((warmedUp s).table .pdr_table).keys.card ≤ MAX_PDRS := by
    rw [warmedUp, Maps.table_drop, Finmap.keys_erase]
    exact Finset.card_erase_le.trans hc
  have hstart : ∀ {r t}, Ends sys (do
      (List.range n).forM install_rule
      (List.range n).forM fun i => (delete_rule i : Main Unit)
      if csv = some false then throw 1 : Main Unit) (warmedUp s) r t →
      Ends sys (bench_rule_update n csv) s r t := fun h => by
    rw [bench_rule_update, if_neg (by omega), Int.toNat_natCast]
    exact (ends_lift hu).bind ((ends_lift hd).bind h)
  rcases ends_range (n := n) (fun i hi t ht => install_rule_ends (by omega) ht) (filling_start hc) with
    ⟨t₁, h₁, hf⟩ | ⟨k, hk, e, t, h₁, rfl, hf, hover⟩
  · obtain ⟨t, h₂, hl⟩ := delete_loop hn.le t₁
    refine .inl ⟨hf.fits, t, hstart (h₁.bind (h₂.bind ?_)), cleared_after (held_none le_rfl le_rfl) hf.leaves hl⟩
    split
    · exact ends_throw sys 1 t
    · exact ends_pure sys () t
  · exact .inr ⟨k, hk, hf.fits, hover, t, hstart (h₁.stop _), hf.leaves⟩

theorem pdrs_warmedUp_empty (n : Nat) : (pdrs (warmedUp .empty) n).card = n := by
  have hk : ((warmedUp .empty).table .pdr_table).keys = ∅ := rfl
  rw [pdrs, hk, card_grown (fun i _ => by simp) fun i _ j _ he => by simpa using he]
  simp

theorem bench_rule_update_ends_5000 : ∃ t, Ends sysLru (bench_rule_update 5000 none) .empty (.error 1) t ∧
    Leaves (held 4096 4096) (warmedUp .empty) t := by
  rcases bench_rule_update_ends (s := .empty) (n := 5000) (by decide) (by rw [teids_empty]; decide) (by decide) none
    with ⟨h, -⟩ | ⟨k, -, h₁, h₂, h⟩
  · rw [pdrs_warmedUp_empty] at h
    exact absurd h (by decide)
  · rw [pdrs_warmedUp_empty] at h₁ h₂
    obtain rfl : k = 4096 := Nat.le_antisymm h₁ (Nat.le_of_lt_succ h₂)
    exact h

end UPF
