import EbpfUpf.Proof.Downlink
import EbpfUpf.Proof.Integrity
import EbpfUpf.Proof.Uplink
import EbpfUpf.Spec.Attempts

/-!
# Failed modifications

The agent reads of a bundle only which slot is active and the tuple in it, so it
cannot tell two bundles apart that agree on both, and a modification of either
writes the same bytes (`Alike`). A modification that raises leaves such a bundle
behind, whatever it was that failed (`modify_tc_bundle_ends`): it has written to
the inactive slot at most. So whatever comes later goes as if there had been no
such call (`exec_alike`).
-/

open Framework

namespace UPF

variable {α β : Type} {s s' t t' : Maps}

/-! ## What the agent sees -/

/-- What the agent makes of a bundle. -/
def asRead (v : Bytes) : Nat × Tuple := (activeSlot v, activeTuple v)

/-- The maps look the same to the agent. It depends on no value but a bundle's, and
on the room in the maps that may be full. -/
structure Alike (s t : Maps) : Prop where
  mem : ∀ m, Maps.Hash m → ∀ k, k ∈ t.table m ↔ k ∈ s.table m
  read : ∀ k, ((t.table .tc_bundle_map).lookup k).map asRead = ((s.table .tc_bundle_map).lookup k).map asRead

namespace Alike

theorem refl (s : Maps) : Alike s s := ⟨fun _ _ _ => Iff.rfl, fun _ => rfl⟩

/-- The maps change in different ways, but not in what the agent sees. -/
theorem congr (h : Alike s t) (hs : ∀ m, Maps.Hash m → s'.table m = s.table m)
    (ht : ∀ m, Maps.Hash m → t'.table m = t.table m) : Alike s' t' := by
  refine ⟨fun m hm k => ?_, fun k => ?_⟩
  · rw [hs m hm, ht m hm]
    exact h.mem m hm k
  · rw [hs _ (.inl rfl), ht _ (.inl rfl)]
    exact h.read k

theorem card (h : Alike s t) {m : MapName} (hm : Maps.Hash m) : (t.table m).keys.card = (s.table m).keys.card := by
  congr 1
  ext k
  rw [Finmap.mem_keys, Finmap.mem_keys, h.mem m hm]

theorem put (h : Alike s t) (m : MapName) (k : Nat) {v w : Bytes} (hv : asRead w = asRead v) :
    Alike (s.put m k v) (t.put m k w) := by
  refine ⟨fun m' hm k' => ?_, fun k' => ?_⟩
  · rw [Maps.mem_put, Maps.mem_put, h.mem m' hm]
  · rw [Maps.lookup_table_put, Maps.lookup_table_put]
    split
    · rw [Option.map_some, Option.map_some, hv]
    · exact h.read k'

theorem drop (h : Alike s t) (m : MapName) (k : Nat) : Alike (s.drop m k) (t.drop m k) := by
  refine ⟨fun m' hm k' => ?_, fun k' => ?_⟩
  · rw [Maps.mem_drop, Maps.mem_drop, h.mem m' hm]
  · rw [Maps.lookup_table_drop, Maps.lookup_table_drop]
    split
    · rfl
    · exact h.read k'

theorem bundle (h : Alike s t) (k : Nat) :
    (s.lookup .tc_bundle_map k = none ∧ t.lookup .tc_bundle_map k = none) ∨
    ∃ v w, s.lookup .tc_bundle_map k = some v ∧ t.lookup .tc_bundle_map k = some w ∧ asRead w = asRead v := by
  have hk := h.read k
  rw [Maps.lookup_hash (.inl rfl), Maps.lookup_hash (.inl rfl)]
  cases hs : (s.table .tc_bundle_map).lookup k with
  | none =>
    rw [hs, Option.map_none, Option.map_eq_none_iff] at hk
    exact .inl ⟨rfl, hk⟩
  | some v =>
    rw [hs, Option.map_some, Option.map_eq_some_iff] at hk
    obtain ⟨w, hw, he⟩ := hk
    exact .inr ⟨v, w, rfl, hw, he⟩

theorem rule (h : Alike s t) (k : Nat) : ruleOf t k = ruleOf s k := by
  unfold ruleOf
  rcases h.bundle k with ⟨hs, ht⟩ | ⟨v, w, hs, ht, he⟩
  · rw [hs, ht]
  · rw [hs, ht, Option.map_some, Option.map_some, (Prod.mk.inj he).2]

/-! ## System calls -/

theorem update (h : Alike s t) (m : MapName) (k : Nat) (v : Bytes) :
    (∃ e, s.update m k v = .error e ∧ t.update m k v = .error e) ∨
    s.update m k v = .ok (s.put m k v) ∧ t.update m k v = .ok (t.put m k v) := by
  unfold Maps.update
  cases hm : m.type with
  | ARRAY =>
    dsimp only
    split
    · exact .inr ⟨rfl, rfl⟩
    · exact .inl ⟨_, rfl, rfl⟩
  | HASH =>
    simp only [h.mem m (.inl hm), h.card (.inl hm)]
    split
    · exact .inr ⟨rfl, rfl⟩
    · exact .inl ⟨_, rfl, rfl⟩
  | LRU_HASH => exact .inr ⟨rfl, rfl⟩
  | PERCPU_ARRAY | PERCPU_HASH | PERF_EVENT_ARRAY => exact .inl ⟨_, rfl, rfl⟩

theorem delete (h : Alike s t) (m : MapName) (k : Nat) :
    (∃ e, s.delete m k = .error e ∧ t.delete m k = .error e) ∨
    s.delete m k = .ok (s.drop m k) ∧ t.delete m k = .ok (t.drop m k) := by
  unfold Maps.delete
  cases hm : m.type with
  | HASH =>
    simp only [h.mem m (.inl hm)]
    split
    · exact .inr ⟨rfl, rfl⟩
    · exact .inl ⟨_, rfl, rfl⟩
  | LRU_HASH =>
    simp only [h.mem m (.inr hm)]
    split
    · exact .inr ⟨rfl, rfl⟩
    · exact .inl ⟨_, rfl, rfl⟩
  | ARRAY | PERCPU_ARRAY | PERCPU_HASH | PERF_EVENT_ARRAY => exact .inl ⟨_, rfl, rfl⟩

end Alike

/-- The system calls that write. -/
def Mutates : Syscall → Prop
  | .lookup .. => False
  | _ => True

/-- They have the same answer. -/
theorem sys_alike (o : Syscall) (s t : Maps) (ho : Mutates o) (h : Alike s t) :
    ∃ r s' t', sys o s = some (r, s') ∧ sys o t = some (r, t') ∧ Alike s' t' := by
  cases o with
  | update m k v =>
    rcases h.update m (le k) v with ⟨e, hs, ht⟩ | ⟨hs, ht⟩
    · exact ⟨.error e, s, t, by rw [sys, hs], by rw [sys, ht], h⟩
    · exact ⟨.ok [], _, _, by rw [sys, hs], by rw [sys, ht], h.put m _ rfl⟩
  | lookup => exact ho.elim
  | delete m k =>
    rcases h.delete m (le k) with ⟨e, hs, ht⟩ | ⟨hs, ht⟩
    · exact ⟨.error e, s, t, by rw [sys, hs], by rw [sys, ht], h⟩
    · exact ⟨.ok [], _, _, by rw [sys, hs], by rw [sys, ht], h.drop m _⟩

/-! ## Calls -/

/-- A call that goes on in the same way from maps that look the same. -/
abbrev Blinded (p : Agent α) : Prop := Prog.Blind refused sys Alike p.run

/-- A call after which the maps meet `Post`, whatever has failed. -/
abbrev Ends (p : Agent α) (s : Maps) (Post : Except PyError α → Maps → Prop) : Prop :=
  Prog.Ensures refused sys p.run s Post

theorem blinded_of_asks {p : Agent α} (h : p.run.Asks Mutates) : Blinded p := .of_asks sys_alike h

theorem blinded_lookup {k : Bytes} {n : Nat} {p : Bytes → Agent α} (hp : ∀ v, Blinded (p v))
    (hs : ∀ v w, asRead w = asRead v → p w = p v) :
    Blinded (lookupThen .tc_bundle_map k n p) := by
  refine ⟨fun e => trivial, fun s t h => ?_⟩
  rcases h.bundle (le k) with ⟨hv, hw⟩ | ⟨v, w, hv, hw, he⟩
  · exact ⟨(.error .ENOENT, s), (.error .ENOENT, t), by rw [sys, hv], by rw [sys, hw], rfl, h, trivial⟩
  · refine ⟨(.ok v, s), (.ok w, t), by rw [sys, hv], by rw [sys, hw], ?_, h, hp v⟩
    exact congrArg ExceptT.run (hs v w he).symm

theorem bundleWrites_asks (pdr_id : Int) (raw : Bytes) (c : Changes) : (bundleWrites pdr_id raw c).run.Asks Mutates :=
  asks_update trivial (asks_update trivial trivial)

/-- What a modification writes and returns depends on the slot and the tuple only. -/
theorem bundleWrites_congr {v w : Bytes} (h : asRead w = asRead v) (pdr_id : Int) (c : Changes) :
    bundleWrites pdr_id w c = bundleWrites pdr_id v c := by
  obtain ⟨ha, ht⟩ := Prod.mk.inj h
  unfold bundleWrites staged
  rw [ha, ht]

theorem packs_congr {v w : Bytes} (h : asRead w = asRead v) (c : Changes) : Packs w c ↔ Packs v c := by
  unfold Packs
  rw [(Prod.mk.inj h).2]

theorem modify_tc_bundle_blinded (pdr_id : Int) (c : Changes) : Blinded (modify_tc_bundle pdr_id c) := by
  rw [modify_tc_bundle_eq]
  split
  · refine blinded_lookup (fun v => ?_) fun v w he => ?_
    · exact blinded_of_asks (asks_ite_throw (bundleWrites_asks pdr_id v c))
    · rw [bundleWrites_congr he]
      exact if_congr (packs_congr he c) rfl rfl
  · trivial

theorem install_session_asks (teid pdr_id qer_id far_id precedence urr_id : Int) :
    (install_session teid pdr_id qer_id far_id precedence urr_id).run.Asks Mutates := by
  rw [install_session_eq]
  exact asks_ite_throw (asks_update trivial (asks_update trivial (asks_ite_throw (asks_update trivial trivial))))

theorem discard_blinded {p : Agent α} (h : Blinded p) : Blinded (do let _ ← p : Agent Unit) := by
  unfold Blinded
  rw [ExceptT.run_bind]
  exact h.bind fun r => by cases r <;> trivial

theorem call_blinded (c : Command) : Blinded c.call := by
  cases c with
  | install_session => exact blinded_of_asks (install_session_asks ..)
  | remove_session => exact blinded_of_asks (remove_session_asks _ _ fun _ _ => trivial)
  | modify_tc_bundle pdr_id c => exact discard_blinded (modify_tc_bundle_blinded pdr_id c)
  | install_far | install_qer | install_upf_config =>
    exact blinded_of_asks (asks_lift fun _ => asks_lift fun _ => asks_map_update trivial)
  | install_dl_ue =>
    exact blinded_of_asks (asks_lift fun _ => asks_lift fun _ => asks_lift fun _ => asks_lift fun _ =>
      asks_map_update trivial)

/-! ## A call that fails -/

variable {Post : Except PyError α → Maps → Prop}

theorem ends_throw {e : PyError} (h : Post (.error e) s) : Ends (throw e : Agent α) s Post := .ret h

theorem ends_pure {a : α} (h : Post (.ok a) s) : Ends (pure a : Agent α) s Post := .ret h

theorem ends_update {m : MapName} {k v : Bytes} {p : Agent α} (he : ∀ e, Post (.error (.OSError e)) s)
    (hp : Ends p (s.put m (le k) v) Post) : Ends (updateThen m k v p) s Post := by
  refine .ask (fun e => .ret (he e)) fun r s' h => ?_
  rw [sys] at h
  cases hu : s.update m (le k) v with
  | ok s₁ =>
    rw [hu] at h
    cases h
    obtain ⟨rfl, -⟩ := Maps.update_ok hu
    exact hp
  | error e =>
    rw [hu] at h
    cases h
    exact .ret (he e)

theorem ends_lookup {m : MapName} {k : Bytes} {n : Nat} {p : Bytes → Agent α}
    (he : ∀ e, Post (.error (.OSError e)) s) (hp : ∀ v, s.lookup m (le k) = some v → Ends (p v) s Post) :
    Ends (lookupThen m k n p) s Post := by
  refine .ask (fun e => .ret (he e)) fun r s' h => ?_
  rw [sys] at h
  cases hl : s.lookup m (le k) with
  | some v =>
    rw [hl] at h
    cases h
    exact hp v hl
  | none =>
    rw [hl] at h
    cases h
    exact .ret (he _)

/-- Writing to the inactive slot changes nothing that the agent sees. -/
theorem staged_alike {k : Nat} {raw : Bytes} (h : s.lookup .tc_bundle_map k = some raw) (c : Changes) :
    Alike s (s.put .tc_bundle_map k (staged raw c (activeSlot raw))) := by
  rw [Maps.lookup_hash (.inl rfl)] at h
  refine ⟨fun m _ k' => ?_, fun k' => ?_⟩
  · rw [Maps.mem_put]
    refine or_iff_right_of_imp fun he => ?_
    rw [he.1, he.2]
    exact Finmap.mem_of_lookup_eq_some h
  · rw [Maps.lookup_table_put]
    split
    · next he =>
      rw [he.2, h, Option.map_some, Option.map_some, asRead, activeSlot_staged raw c (activeSlot_lt raw),
        activeTuple_staged, asRead]
    · rfl

/-- A modification that raises has made no difference to the agent. -/
theorem modify_tc_bundle_ends (pdr_id : Int) (c : Changes) (s : Maps) :
    Ends (modify_tc_bundle pdr_id c) s fun r s' => (∃ e, r = .error e) → Alike s s' := by
  rw [modify_tc_bundle_eq]
  split
  · refine ends_lookup (fun _ _ => .refl s) fun raw hl => ?_
    split
    · unfold bundleWrites
      -- Nothing can fail any more once the second write has taken place.
      have hs := staged_alike hl c
      refine ends_update (fun _ _ => .refl s) (ends_update (fun _ _ => hs) (ends_pure fun he => ?_))
      obtain ⟨_, he⟩ := he
      cases he
    · exact ends_throw fun _ => .refl s
  · exact ends_throw fun _ => .refl s

/-! ## What comes after it -/

theorem attempt_alike {p : Agent α} (hp : Blinded p) (h : Alike s t) (faults : List (Option Errno)) :
    ∃ r s' t', attempt p s faults = some (r, s') ∧ attempt p t faults = some (r, t') ∧ Alike s' t' := by
  obtain ⟨r, s', t', rest, hs, ht, h'⟩ := hp.run h faults
  exact ⟨r, s', t', by rw [attempt, hs, Option.map_some], by rw [attempt, ht, Option.map_some], h'⟩

theorem programme_runs (p : Programme) (H : Helpers) (s : Machine) : ∃ x, p.prog.run (kernel H) s = some x := by
  cases p with
  | xdp => exact xdp_runs H s
  | ingress b => exact tc_runs b H s
  | egress => exact ⟨_, egress_eq H s⟩

theorem later_alike (h : Alike s t) (l : Later) :
    ∃ s' t', l.step s = some s' ∧ l.step t = some t' ∧ Alike s' t' := by
  cases l with
  | call c faults =>
    obtain ⟨r, s', t', hs, ht, h'⟩ := attempt_alike (call_blinded c) h faults
    exact ⟨s', t', by rw [Later.step, hs, Option.map_some], by rw [Later.step, ht, Option.map_some], h'⟩
  | evict teid => exact ⟨_, _, rfl, rfl, h.drop _ _⟩
  | packet p H cpu wire =>
    -- A packet may find other counters and buckets in the two runs, but it leaves the hash maps alone.
    have hne : ∀ m, Maps.Hash m → m ≠ .qer_state_shared := by
      rintro m hm rfl
      cases hm with
      | inl hm => cases hm
      | inr hm => cases hm
    obtain ⟨x, hx⟩ := programme_runs p H ⟨s, cpu, wire, 0⟩
    obtain ⟨y, hy⟩ := programme_runs p H ⟨t, cpu, wire, 0⟩
    refine ⟨x.2.maps, y.2.maps, by rw [Later.step, hx]; rfl, by rw [Later.step, hy]; rfl, ?_⟩
    exact h.congr (fun m hm => (run_keeps hx).table m (hne m hm)) fun m hm => (run_keeps hy).table m (hne m hm)

theorem exec_alike (h : Alike s t) (later : List Later) :
    ∃ s' t', exec Later.step s later = some s' ∧ exec Later.step t later = some t' ∧ Alike s' t' := by
  induction later generalizing s t with
  | nil => exact ⟨s, t, rfl, rfl, h⟩
  | cons l later ih =>
    obtain ⟨s₁, t₁, hs, ht, h₁⟩ := later_alike h l
    obtain ⟨s', t', hs', ht', h'⟩ := ih h₁
    exact ⟨s', t', exec_cons.mpr ⟨s₁, hs, hs'⟩, exec_cons.mpr ⟨t₁, ht, ht'⟩, h'⟩

theorem failed_alike {pdr_id : Int} {c : Changes} {faults : List (Option Errno)} {e : PyError}
    (h : attempt (modify_tc_bundle pdr_id c) s faults = some (.error e, s')) : Alike s s' := by
  obtain ⟨x, hx, he⟩ := Option.map_eq_some_iff.mp h
  obtain ⟨hr, rfl⟩ := Prod.mk.inj he
  exact modify_tc_bundle_ends pdr_id c s faults x hx ⟨e, hr⟩

/-- A modification that raises leaves each PDR's rules in force. Whatever happens
then, and whatever fails then, a later modification returns the same generation,
or raises the same, and leaves the same rules in force as without the one that
raised. -/
theorem failed_modification {pdr_id : Int} {c : Changes} {faults : List (Option Errno)} {e : PyError}
    (h : attempt (modify_tc_bundle pdr_id c) s faults = some (.error e, s')) :
    (∀ k, ruleOf s' k = ruleOf s k) ∧
    ∀ (later : List Later) (pdr_id' : Int) (c' : Changes) (faults' : List (Option Errno)),
      ∃ u u' r t t', exec Later.step s later = some u ∧ exec Later.step s' later = some u' ∧
        attempt (modify_tc_bundle pdr_id' c') u faults' = some (r, t) ∧
        attempt (modify_tc_bundle pdr_id' c') u' faults' = some (r, t') ∧ ∀ k, ruleOf t' k = ruleOf t k := by
  have ha := failed_alike h
  refine ⟨ha.rule, fun later pdr_id' c' faults' => ?_⟩
  obtain ⟨u, u', hu, hu', hl⟩ := exec_alike ha later
  obtain ⟨r, t, t', ht, ht', hr⟩ := attempt_alike (modify_tc_bundle_blinded pdr_id' c') hl faults'
  exact ⟨u, u', r, t, t', hu, hu', ht, ht', hr.rule⟩

/-- Maps with one bundle, in which slot 1 is active and the word `active` has
another bit set. -/
def oneBundle : Maps :=
  Maps.empty.put .tc_bundle_map 1 (bundle 0x80000003 ⟨1, 1, 1, 32, 6⟩ ⟨2, 2, 2, 32, 7⟩)

theorem failed_modification_flip : ∃ s' t',
    attempt (modify_tc_bundle 1 ⟨some 5, none, none, none⟩) oneBundle [none, none, some .EBUSY] =
      some (.error (.OSError .EBUSY), s') ∧ ruleOf s' 1 = some ⟨2, 2, 2, 32, 7⟩ ∧
    attempt (modify_tc_bundle 1 ⟨none, some 9, none, none⟩) s' [] = some (.ok 8, t') ∧
      ruleOf t' 1 = some ⟨2, 9, 2, 32, 8⟩ := by
  have h : ((attempt (modify_tc_bundle 1 ⟨some 5, none, none, none⟩) oneBundle [none, none, some .EBUSY]).map
      Prod.fst) = some (.error (.OSError .EBUSY)) := by decide +kernel
  have h' : ((attempt (modify_tc_bundle 1 ⟨none, some 9, none, none⟩) oneBundle []).map
      fun x => (x.1, ruleOf x.2 1)) = some (.ok 8, some ⟨2, 9, 2, 32, 8⟩) := by decide +kernel
  obtain ⟨⟨r, s'⟩, hs, he⟩ := Option.map_eq_some_iff.mp h
  cases he
  obtain ⟨hr, hl⟩ := failed_modification hs
  obtain ⟨u, u', r, t, t', hu, hu', ht, ht', hk⟩ := hl [] 1 ⟨none, some 9, none, none⟩ []
  cases hu
  cases hu'
  rw [ht, Option.map_some, Option.some.injEq, Prod.mk.injEq] at h'
  obtain ⟨rfl, ht8⟩ := h'
  refine ⟨s', t', hs, ?_, ht', ?_⟩
  · rw [hr]
    decide +kernel
  · rw [hk]
    exact ht8

end UPF
