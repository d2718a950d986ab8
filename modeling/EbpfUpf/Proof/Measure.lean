import EbpfUpf.Proof.Agent
import EbpfUpf.Spec.Measure

/-!
# Measurements

The installation loop stops at the first session for which `pdr_table` or
`tc_bundle_map` has no room, and leaves what it has installed (`installs_stop`).
If there is none, the removal loop takes every session out again
(`measure_returns`).
-/

open Framework

namespace UPF

variable {α β : Type} {s s₁ s' t : Maps}

/-! ## Tables -/

theorem maps_ext (ht : ∀ m k, (s'.table m).lookup k = (s.table m).lookup k) (hp : s'.percpu = s.percpu)
    (hm : s'.metrics = s.metrics) : s' = s := by
  obtain ⟨t, p, c⟩ := s
  obtain ⟨t', p', c'⟩ := s'
  cases hp
  cases hm
  obtain rfl : t' = t := funext fun m => Finmap.ext_lookup (ht m)
  rfl

/-- A delete of a key that is not there is none. -/
theorem deleted_eq_drop {m : MapName} (hm : Maps.Hash m) (k : Nat) (s : Maps) : deleted m k s = s.drop m k := by
  unfold deleted
  cases h : s.delete m k with
  | ok s' => exact (Maps.delete_ok h).1
  | error e =>
    have hn := Maps.delete_error hm h
    rw [Maps.lookup_hash hm] at hn
    show s = s.drop m k
    symm
    refine maps_ext (fun m' k' => ?_) rfl rfl
    rw [Maps.lookup_table_drop]
    split
    · next he => rw [he.1, he.2, hn]
    · rfl

theorem card_put {m : MapName} {k : Nat} (v : Bytes) (h : k ∉ s.table m) :
    ((s.put m k v).table m).keys.card = (s.table m).keys.card + 1 := by
  have hk : ((s.put m k v).table m).keys = insert k (s.table m).keys := by
    ext k'
    rw [Maps.table_put, Finset.mem_insert, Finmap.mem_keys, Finmap.mem_keys, Finmap.mem_insert]
  rw [hk, Finset.card_insert_of_notMem (by rwa [Finmap.mem_keys])]

/-! ## One session -/

theorem scratch_teid (i : Nat) : (base_teid + i).toNat = 0x10000 + i := by
  unfold base_teid
  omega

theorem scratch_pdr (i : Nat) : (base_pdr + i).toNat = 0x20000 + i := by
  unfold base_pdr
  omega

theorem scratch_fits {i : Nat} (h : i < 2 ^ 16) : Fmt.I.fits (base_teid + i) ∧ Fmt.I.fits (base_pdr + i) := by
  simp only [Fmt.fits, Fmt.width, base_teid, base_pdr]
  omega

/-- Session `i` is installed. -/
abbrev installScratch (i : Nat) : Agent Unit := install_session (base_teid + i) (base_pdr + i) 1 1 100 1

/-- The maps with `k` sessions. -/
def sessions (s : Maps) : Nat → Maps
  | 0 => s
  | k + 1 => installed (sessions s k) (base_teid + k) (base_pdr + k) 1 1 100 1

/-- The maps without the first `k` sessions. -/
def withoutSessions (s : Maps) : Nat → Maps
  | 0 => s
  | k + 1 => removed (withoutSessions s k) (base_teid + k) (base_pdr + k)

/-- The keys of the first `n` sessions. -/
def Scratch (n : Nat) (m : MapName) (key : Nat) : Prop := ∃ i < n, scratchKey i m = some key

theorem scratch_succ {n : Nat} {m : MapName} {key : Nat} :
    Scratch (n + 1) m key ↔ Scratch n m key ∨ scratchKey n m = some key := by
  constructor
  · rintro ⟨i, hi, h⟩
    rcases Nat.lt_succ_iff_lt_or_eq.mp hi with hi | rfl
    · exact .inl ⟨i, hi, h⟩
    · exact .inr h
  · rintro (⟨i, hi, h⟩ | h)
    · exact ⟨i, Nat.lt_succ_of_lt hi, h⟩
    · exact ⟨n, Nat.lt_succ_self n, h⟩

/-- Later sessions have other keys. -/
theorem not_scratch {k : Nat} {m : MapName} {key : Nat} (h : scratchKey k m = some key) : ¬ Scratch k m key := by
  rintro ⟨i, hi, hk⟩
  cases m <;> simp only [scratchKey, Option.some.injEq, reduceCtorEq] at h hk <;> omega

theorem installed_table {i : Nat} {m : MapName} {key : Nat} (h : scratchKey i m ≠ some key) :
    ((installed s (base_teid + i) (base_pdr + i) 1 1 100 1).table m).lookup key = (s.table m).lookup key := by
  rw [installed, Maps.lookup_table_put, Maps.lookup_table_put, Maps.lookup_table_put, scratch_teid, scratch_pdr]
  cases m <;> simp only [scratchKey, ne_eq, Option.some.injEq] at h <;> simp [Ne.symm h]

theorem removed_eq (s : Maps) (teid pdr_id : Int) : removed s teid pdr_id =
    ((s.drop .teid_session teid.toNat).drop .pdr_table pdr_id.toNat).drop .tc_bundle_map pdr_id.toNat := by
  rw [removed, deleted_eq_drop (.inl rfl), deleted_eq_drop (.inl rfl), deleted_eq_drop (.inr rfl)]

theorem removed_table {i : Nat} {m : MapName} {key : Nat} :
    ((removed s (base_teid + i) (base_pdr + i)).table m).lookup key =
      if scratchKey i m = some key then none else (s.table m).lookup key := by
  rw [removed_eq, Maps.lookup_table_drop, Maps.lookup_table_drop, Maps.lookup_table_drop, scratch_teid, scratch_pdr]
  cases m <;> simp [scratchKey, eq_comm]

/-! ## Many sessions -/

theorem sessions_table {k : Nat} {m : MapName} {key : Nat} (h : ¬ Scratch k m key) :
    ((sessions s k).table m).lookup key = (s.table m).lookup key := by
  induction k with
  | zero => rfl
  | succ k ih =>
    rw [scratch_succ, not_or] at h
    rw [sessions, installed_table h.2, ih h.1]

theorem withoutSessions_table (k : Nat) (m : MapName) (key : Nat) :
    (Scratch k m key → ((withoutSessions s k).table m).lookup key = none) ∧
    (¬ Scratch k m key → ((withoutSessions s k).table m).lookup key = (s.table m).lookup key) := by
  induction k with
  | zero => exact ⟨fun ⟨i, hi, _⟩ => absurd hi (Nat.not_lt_zero i), fun _ => rfl⟩
  | succ k ih =>
    rw [scratch_succ, withoutSessions, removed_table]
    by_cases hk : scratchKey k m = some key
    · simp [hk]
    · simpa [hk] using ih

theorem sessions_frame (s : Maps) (k : Nat) :
    (sessions s k).percpu = s.percpu ∧ (sessions s k).metrics = s.metrics := by
  induction k with
  | zero => exact ⟨rfl, rfl⟩
  | succ k ih => exact ih

theorem withoutSessions_frame (s : Maps) (k : Nat) :
    (withoutSessions s k).percpu = s.percpu ∧ (withoutSessions s k).metrics = s.metrics := by
  induction k with
  | zero => exact ⟨rfl, rfl⟩
  | succ k ih =>
    rw [withoutSessions, removed_eq]
    exact ih

theorem Fresh.lookup {n : Nat} (hf : Fresh n s) {m : MapName} {key : Nat} (h : Scratch n m key) :
    (s.table m).lookup key = none := by
  obtain ⟨i, hi, hk⟩ := h
  exact Finmap.lookup_eq_none.mpr (hf i hi m key hk)

/-- Sessions that are installed and removed leave nothing. -/
theorem withoutSessions_sessions {n : Nat} (hf : Fresh n s) : withoutSessions (sessions s n) n = s := by
  obtain ⟨hp, hm⟩ := sessions_frame s n
  obtain ⟨hp', hm'⟩ := withoutSessions_frame (sessions s n) n
  refine maps_ext (fun m key => ?_) (hp'.trans hp) (hm'.trans hm)
  obtain ⟨h1, h2⟩ := withoutSessions_table (s := sessions s n) n m key
  by_cases h : Scratch n m key
  · rw [h1 h, hf.lookup h]
  · rw [h2 h, sessions_table h]

/-- The next session's keys are not in use. -/
theorem next_fresh {n k : Nat} (hf : Fresh n s) (hk : k < n) {m : MapName} {key : Nat} (h : scratchKey k m = some key) :
    key ∉ (sessions s k).table m := by
  rw [← Finmap.lookup_eq_none, sessions_table (not_scratch h), hf.lookup ⟨k, hk, h⟩]

theorem installed_pdr_table (s : Maps) (teid pdr_id qer_id far_id precedence urr_id : Int) :
    (installed s teid pdr_id qer_id far_id precedence urr_id).table .pdr_table =
      (s.put .pdr_table pdr_id.toNat (pdrBytes far_id qer_id precedence urr_id)).table .pdr_table := by
  rw [installed, Maps.table_put_ne _ _ _ (by decide), Maps.table_put_ne _ _ _ (by decide)]

theorem installed_bundle_table (s : Maps) (teid pdr_id qer_id far_id precedence urr_id : Int) :
    (installed s teid pdr_id qer_id far_id precedence urr_id).table .tc_bundle_map =
      (s.put .tc_bundle_map pdr_id.toNat (bundle 0 (newTuple far_id qer_id urr_id precedence)
        (newTuple far_id qer_id urr_id precedence))).table .tc_bundle_map := by
  rw [installed, Maps.table_put_ne _ _ _ (by decide), Maps.table_put, Maps.table_put,
    Maps.table_put_ne _ _ _ (by decide)]

/-- Each session takes a key of `pdr_table` and one of `tc_bundle_map`. -/
theorem sessions_card {n k : Nat} (hf : Fresh n s) (hk : k ≤ n) {m : MapName}
    (hm : m = .pdr_table ∨ m = .tc_bundle_map) :
    ((sessions s k).table m).keys.card = (s.table m).keys.card + k := by
  induction k with
  | zero => rfl
  | succ k ih =>
    have ih := ih (Nat.le_of_succ_le hk)
    rcases hm with rfl | rfl
    · rw [sessions, installed_pdr_table, card_put, ih, Nat.add_assoc]
      exact next_fresh hf hk (by rw [scratch_pdr]; rfl)
    · rw [sessions, installed_bundle_table, card_put, ih, Nat.add_assoc]
      exact next_fresh hf hk (by rw [scratch_pdr]; rfl)

/-! ## Running the loops -/

/-- The call raises, with the maps `t`. -/
def Raises (p : Agent α) (s : Maps) (t : Maps) : Prop := ∃ e, Prog.run sys p.run s = some (.error e, t)

theorem Returns.bind {p : Agent α} {f : α → Agent β} {a : α} {b : β} (h₁ : Returns p s a s₁)
    (h₂ : Returns (f a) s₁ b s') : Returns (p >>= f) s b s' := by
  rw [Returns, ExceptT.run_bind, Prog.run_bind, show Prog.run sys p.run s = _ from h₁]
  exact h₂

theorem Returns.raises {p : Agent α} {f : α → Agent β} {a : α} (h₁ : Returns p s a s₁)
    (h₂ : Raises (f a) s₁ t) : Raises (p >>= f) s t := by
  obtain ⟨e, h₂⟩ := h₂
  refine ⟨e, ?_⟩
  rw [ExceptT.run_bind, Prog.run_bind, show Prog.run sys p.run s = _ from h₁]
  exact h₂

theorem Raises.bind {p : Agent α} (f : α → Agent β) (h : Raises p s t) : Raises (p >>= f) s t := by
  obtain ⟨e, h⟩ := h
  refine ⟨e, ?_⟩
  rw [ExceptT.run_bind, Prog.run_bind, h]
  rfl

/-- A loop of calls that all return, by induction on their number. -/
theorem forM_returns {f : Nat → Agent Unit} {S : Nat → Maps} {n : Nat}
    (h : ∀ i < n, Returns (f i) (S i) () (S (i + 1))) :
    Returns ((List.range n).forM f) (S 0) () (S n) := by
  induction n with
  | zero => exact returns_pure.mpr ⟨rfl, rfl⟩
  | succ n ih =>
    rw [List.range_succ]
    show Returns (forM (List.range n ++ [n]) f) _ _ _
    rw [List.forM_append]
    refine (ih fun i hi => h i (Nat.lt_succ_of_lt hi)).bind ?_
    rw [List.forM_cons]
    exact (h n (Nat.lt_succ_self n)).bind (returns_pure.mpr ⟨rfl, rfl⟩)

/-- A loop stops at the first call that raises. -/
theorem forM_raises {f : Nat → Agent Unit} {S : Nat → Maps} {k n : Nat} (hk : k < n)
    (h : ∀ i < k, Returns (f i) (S i) () (S (i + 1))) (hr : Raises (f k) (S k) t) :
    Raises ((List.range n).forM f) (S 0) t := by
  have hn : List.range n = List.range k ++ k :: (List.range (n - k - 1)).map fun i => k + 1 + i := by
    conv_lhs => rw [show n = k + 1 + (n - k - 1) by omega, List.range_add, List.range_succ]
    rw [List.append_assoc, List.singleton_append]
  rw [hn]
  show Raises (forM (List.range k ++ k :: _) f) _ _
  rw [List.forM_append]
  refine (forM_returns h).raises ?_
  rw [List.forM_cons]
  exact hr.bind _

/-! ## The measurement -/

theorem update_room {m : MapName} (hm : m.type = .HASH) {k : Nat} {v : Bytes}
    (h : (s.table m).keys.card < m.max_entries) : s.update m k v = .ok (s.put m k v) := by
  simp only [Maps.update, hm, h, or_true, ite_true]

theorem update_full {m : MapName} (hm : m.type = .HASH) {k : Nat} {v : Bytes} (hk : k ∉ s.table m)
    (h : m.max_entries ≤ (s.table m).keys.card) : s.update m k v = .error .E2BIG := by
  simp only [Maps.update, hm, hk, Nat.not_lt.mpr h, or_self, ite_false]

theorem raises_update_error {m : MapName} {k v : Bytes} {p : Agent α} {e : Errno} (h : s.update m (le k) v = .error e) :
    Raises (updateThen m k v p) s s := by
  refine ⟨.OSError e, ?_⟩
  simp [updateThen, ExceptT.run, ExceptT.mk, Prog.run, sys, h]

theorem raises_update_ok {m : MapName} {k v : Bytes} {p : Agent α} (h : s.update m (le k) v = .ok s₁)
    (hp : Raises p s₁ t) : Raises (updateThen m k v p) s t := by
  obtain ⟨e, hp⟩ := hp
  refine ⟨e, ?_⟩
  rw [← hp]
  simp [updateThen, ExceptT.run, ExceptT.mk, Prog.run, sys, h]

section Install

variable {i : Nat}

theorem session_fits (h : i < 2 ^ 16) : SessionFits (base_pdr + i) 1 1 100 1 :=
  ⟨(scratch_fits h).2, by decide, by decide, by decide, by decide, trivial⟩

/-- There is room in both maps. -/
theorem install_returns (hi : i < 2 ^ 16) (hp : (s.table .pdr_table).keys.card < MAX_PDRS)
    (hb : (s.table .tc_bundle_map).keys.card < MAX_PDRS) :
    Returns (installScratch i) s ()
      (installed s (base_teid + i) (base_pdr + i) 1 1 100 1) := by
  have hk := (scratch_fits hi).2
  have ht := (scratch_fits hi).1
  rw [installScratch, install_session_eq, returns_ite, sessionWrites, returns_update]
  refine ⟨session_fits hi, _, update_room rfl hp, returns_update.mpr ⟨_, update_room rfl ?_, ?_⟩⟩
  · rwa [Maps.table_put_ne _ _ _ (by decide)]
  · refine returns_ite.mpr ⟨ht, returns_update.mpr ⟨_, rfl, returns_pure.mpr ⟨rfl, ?_⟩⟩⟩
    rw [le_key hk, le_key ht]
    rfl

/-- There is none in `pdr_table`. -/
theorem install_raises_pdr (hi : i < 2 ^ 16) (hk : 0x20000 + i ∉ s.table .pdr_table)
    (hp : MAX_PDRS ≤ (s.table .pdr_table).keys.card) :
    Raises (installScratch i) s s := by
  rw [installScratch, install_session_eq, if_pos (session_fits hi), sessionWrites]
  refine raises_update_error (update_full rfl ?_ hp)
  rwa [le_key (scratch_fits hi).2, scratch_pdr]

/-- There is none in `tc_bundle_map`: the PDR is written, and stays. -/
theorem install_raises_bundle (hi : i < 2 ^ 16) (hk : 0x20000 + i ∉ s.table .tc_bundle_map)
    (hp : (s.table .pdr_table).keys.card < MAX_PDRS) (hb : MAX_PDRS ≤ (s.table .tc_bundle_map).keys.card) :
    Raises (installScratch i) s (s.put .pdr_table (0x20000 + i) (pdrBytes 1 1 100 1)) := by
  rw [installScratch, install_session_eq, if_pos (session_fits hi), sessionWrites]
  have h1 : s.update .pdr_table (le (key (base_pdr + i))) (pdrBytes 1 1 100 1) =
      .ok (s.put .pdr_table (0x20000 + i) (pdrBytes 1 1 100 1)) := by
    rw [le_key (scratch_fits hi).2, scratch_pdr]
    exact update_room rfl hp
  have ht : (s.put .pdr_table (0x20000 + i) (pdrBytes 1 1 100 1)).table .tc_bundle_map = s.table .tc_bundle_map :=
    Maps.table_put_ne _ _ _ (by decide)
  refine raises_update_ok h1 (raises_update_error (update_full rfl ?_ ?_))
  · rwa [le_key (scratch_fits hi).2, scratch_pdr, ht]
  · rwa [ht]

end Install

theorem scratchKey_pdr (i : Nat) : scratchKey i .pdr_table = some (0x20000 + i) := rfl

theorem scratchKey_bundle (i : Nat) : scratchKey i .tc_bundle_map = some (0x20000 + i) := rfl

theorem room_pdr_le (s : Maps) : room s .pdr_table ≤ 4096 := Nat.sub_le _ _

theorem room_bundle_le (s : Maps) : room s .tc_bundle_map ≤ 4096 := Nat.sub_le _ _

variable {n : Nat}

/-- As long as there is room, the loop goes on. -/
theorem sessions_step (hf : Fresh n s) {i : Nat} (hi : i < n) (hp : i < room s .pdr_table)
    (hb : i < room s .tc_bundle_map) : Returns (installScratch i) (sessions s i) () (sessions s (i + 1)) := by
  have hcp := sessions_card hf hi.le (.inl rfl)
  have hcb := sessions_card hf hi.le (.inr rfl)
  have hle := room_pdr_le s
  refine install_returns (by omega) ?_ ?_
  all_goals simp only [room, MapName.max_entries] at hp hb; omega

/-- The removals all return. -/
theorem removals_return (t : Maps) (h : n ≤ 4096) :
    Returns ((List.range n).forM fun i => remove_session (base_teid + i) (base_pdr + i)) t ()
      (withoutSessions t n) := by
  refine forM_returns (S := withoutSessions t) fun i hi => ?_
  obtain ⟨ht, hk⟩ := scratch_fits (show i < 2 ^ 16 by omega)
  rw [remove_session_eq, returns_ite, sessionDeletes, returns_delete]
  refine ⟨ht, returns_ite.mpr ⟨hk, ?_⟩⟩
  rw [returns_delete, returns_delete, le_key ht, le_key hk]
  exact returns_pure.mpr ⟨rfl, rfl⟩

/-- With room for all sessions, the measurement returns and leaves nothing. -/
theorem measure_returns {n : Int} (hf : Fresh n.toNat s) (hp : n.toNat ≤ room s .pdr_table)
    (hb : n.toNat ≤ room s .tc_bundle_map) : Returns (measure_rule_update n) s () s := by
  have hinst := forM_returns (f := installScratch) (S := sessions s)
    fun i hi => sessions_step hf hi (by omega) (by omega)
  have hrem := removals_return (sessions s n.toNat) (hp.trans (room_pdr_le s))
  rw [withoutSessions_sessions hf] at hrem
  exact hinst.bind hrem

/-- Without room for all of them it stops, and what it has installed stays. -/
theorem measure_stops {n : Int} (hf : Fresh n.toNat s)
    (h : ¬ (n.toNat ≤ room s .pdr_table ∧ n.toNat ≤ room s .tc_bundle_map)) : ∃ t, Raises (measure_rule_update n) s t ∧
      (room s .pdr_table = 0 ∧ t = s ∨
        0 < room s .pdr_table ∧ (s.table .pdr_table).keys.card < (t.table .pdr_table).keys.card) := by
  by_cases hle : room s .pdr_table ≤ room s .tc_bundle_map
  · -- `pdr_table` is full first.
    have hk : room s .pdr_table < n.toNat := by omega
    have hc := sessions_card hf hk.le (.inl rfl)
    have hfresh := next_fresh hf hk (scratchKey_pdr _)
    have hr := forM_raises (f := installScratch) (S := sessions s) hk
      (fun i hi => sessions_step hf (hi.trans hk) hi (by omega))
      (install_raises_pdr (Nat.lt_of_le_of_lt (room_pdr_le s) (by decide)) hfresh
        (by rw [hc]; simp only [room, MapName.max_entries]; omega))
    refine ⟨_, hr.bind _, ?_⟩
    rcases Nat.eq_zero_or_pos (room s .pdr_table) with h0 | hpos
    · exact .inl ⟨h0, by rw [h0]; rfl⟩
    · exact .inr ⟨hpos, by omega⟩
  · have hk : room s .tc_bundle_map < n.toNat := by omega
    have hcp := sessions_card hf hk.le (.inl rfl)
    have hcb := sessions_card hf hk.le (.inr rfl)
    have hpos : 0 < room s .pdr_table := by omega
    have hlt : (s.table .pdr_table).keys.card + room s .tc_bundle_map < MAX_PDRS := by
      have hlt := Nat.lt_of_not_le hle
      rw [show room s .pdr_table = MAX_PDRS - (s.table .pdr_table).keys.card from rfl] at hlt
      omega
    have hr := forM_raises (f := installScratch) (S := sessions s) hk
      (fun i hi => sessions_step hf (hi.trans hk) (by omega) hi)
      (install_raises_bundle (Nat.lt_of_le_of_lt (room_bundle_le s) (by decide))
        (next_fresh hf hk (scratchKey_bundle _)) (by omega)
        (by rw [hcb]; simp only [room, MapName.max_entries]; omega))
    refine ⟨_, hr.bind _, .inr ⟨hpos, ?_⟩⟩
    rw [card_put _ (next_fresh hf hk (scratchKey_pdr _)), hcp]
    omega

/-- A measurement of `n` sessions returns or raises; it cleans up just if there is
room for all of them, or if there is none for the first write. -/
theorem measure_clean_iff (s : Maps) (n : Int) (hf : Fresh n.toNat s) : ∃ r t,
    Prog.run sys (measure_rule_update n).run s = some (r, t) ∧
    (Clean s t ↔ room s .pdr_table = 0 ∨ n.toNat ≤ room s .pdr_table ∧ n.toNat ≤ room s .tc_bundle_map) := by
  have hs : Clean s s := ⟨fun _ _ => rfl, fun _ _ _ _ _ _ h => h⟩
  by_cases h : n.toNat ≤ room s .pdr_table ∧ n.toNat ≤ room s .tc_bundle_map
  · exact ⟨_, s, measure_returns hf h.1 h.2, iff_of_true hs (.inr h)⟩
  · obtain ⟨t, ⟨e, hr⟩, ht⟩ := measure_stops hf h
    refine ⟨_, t, hr, ?_⟩
    rcases ht with ⟨h0, rfl⟩ | ⟨hpos, hlt⟩
    · exact iff_of_true hs (.inl h0)
    · refine iff_of_false (fun hc => ?_) (by omega)
      rw [hc.content .pdr_table (by simp)] at hlt
      exact Nat.lt_irrefl _ hlt

theorem fresh_empty (n : Nat) : Fresh n .empty := fun _ _ _ _ _ => Finmap.notMem_empty

theorem room_empty {m : MapName} (hm : m = .pdr_table ∨ m = .tc_bundle_map) : room .empty m = MAX_PDRS := by
  rcases hm with rfl | rfl <;> rfl

/-- A hundred sessions on empty maps. -/
theorem measure_clean_hundred : ∃ r t,
    Prog.run sys (measure_rule_update 100).run .empty = some (r, t) ∧ Clean .empty t := by
  obtain ⟨r, t, hr, hc⟩ := measure_clean_iff .empty 100 (fresh_empty _)
  refine ⟨r, t, hr, hc.mpr (.inr ?_)⟩
  rw [room_empty (.inl rfl), room_empty (.inr rfl)]
  decide

/-- Five thousand are too many: the first 4096 stay. -/
theorem measure_leaks : Fresh 5000 .empty ∧ ∃ e t,
    Prog.run sys (measure_rule_update 5000).run .empty = some (.error e, t) ∧ ¬ Clean .empty t := by
  have h : ¬ ((5000 : Int).toNat ≤ room .empty .pdr_table ∧ (5000 : Int).toNat ≤ room .empty .tc_bundle_map) := by
    rw [room_empty (.inl rfl)]
    decide
  obtain ⟨t, ⟨e, hr⟩, ht⟩ := measure_stops (fresh_empty _) h
  refine ⟨fresh_empty _, e, t, hr, fun hc => ?_⟩
  rcases ht with ⟨h0, -⟩ | ⟨-, hlt⟩
  · rw [room_empty (.inl rfl)] at h0
    exact absurd h0 (by decide)
  · rw [hc.content .pdr_table (by simp)] at hlt
    exact Nat.lt_irrefl _ hlt

end UPF
