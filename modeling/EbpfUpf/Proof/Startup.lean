import EbpfUpf.Proof.Bench
import EbpfUpf.Proof.Intent
import EbpfUpf.Proof.Sessions
import EbpfUpf.Spec.Startup

/-!
# How a start ends

One session is installed if its PDR fits (`session_ends`), so the loop of a start
goes on as long as the PDRs fit (`sessions_end`), and what the maps say at every
point is what the sessions so far have said.
-/

open Framework

namespace UPF

theorem returns_iff_ends {α : Type} {p : Agent α} {s t : Maps} {a : α} : Returns p s a t ↔ Ends sys p s (.ok a) t :=
  Iff.rfl

section Session

variable {s t : Maps} {α : Type} {teid pdr_id : Int}

theorem updateThen_ends {m : MapName} {k v : Bytes} {n : Nat} {p : Agent α} {s₁ : Maps} {r : Except PyError α}
    (hk : le k = n) (h : s.update m n v = .ok s₁) (hp : Ends sys p s₁ r t) : Ends sys (updateThen m k v p) s r t := by
  rw [Ends, updateThen]
  simp only [ExceptT.run, ExceptT.mk, Prog.run, sys, hk, h]
  exact hp

theorem updateThen_stops {m : MapName} {k v : Bytes} {n : Nat} {p : Agent α} {e : Errno} (hk : le k = n)
    (h : s.update m n v = .error e) : Ends sys (updateThen m k v p) s (.error (.OSError e)) s := by
  simp [Ends, updateThen, ExceptT.run, ExceptT.mk, Prog.run, sys, hk, h]

theorem keys_insert {β : Type} (x : Finmap fun _ : Nat => β) (k : Nat) (v : β) :
    (x.insert k v).keys = insert k x.keys := by
  ext k'
  simp [Finmap.mem_keys]

/-- The PDR fits into both maps. -/
def FitsIn (s : Maps) (pdr_id : Nat) : Prop :=
  (insert pdr_id (s.table .pdr_table).keys).card ≤ MAX_PDRS ∧
  (insert pdr_id (s.table .tc_bundle_map).keys).card ≤ MAX_PDRS

/-- How `install_session` ends: with everything written, or at the map that has no room. -/
theorem session_ends (hf : SessionFits pdr_id 1 1 100 1) (ht : Fmt.I.fits teid) (hl : WithinLimits s) :
    (FitsIn s pdr_id.toNat ∧
      Ends sys (install_session teid pdr_id 1 1 100 1) s (.ok ()) (installed s teid pdr_id 1 1 100 1)) ∨
    (¬FitsIn s pdr_id.toNat ∧ ∃ t,
      Ends sys (install_session teid pdr_id 1 1 100 1) s (.error (.OSError .E2BIG)) t ∧ reading t = reading s) := by
  rw [install_session_eq, if_pos hf, sessionWrites, if_pos ht]
  have hk := le_key hf.1
  by_cases h₁ : (insert pdr_id.toNat (s.table .pdr_table).keys).card ≤ MAX_PDRS
  · let s₁ := s.put .pdr_table pdr_id.toNat (pdrBytes 1 1 100 1)
    have hs₁ : s₁.table .tc_bundle_map = s.table .tc_bundle_map := Maps.table_put_ne _ _ _ (by decide)
    have hl₁ : (s₁.table .tc_bundle_map).keys.card ≤ MAX_PDRS := hs₁ ▸ hl.bundle
    have u₁ : s.update .pdr_table pdr_id.toNat (pdrBytes 1 1 100 1) = .ok s₁ := update_takes rfl hl.pdr h₁ _
    by_cases h₂ : (insert pdr_id.toNat (s.table .tc_bundle_map).keys).card ≤ MAX_PDRS
    · have u₂ := update_takes (s := s₁) rfl hl₁ (hs₁ ▸ h₂)
        (bundle 0 (newTuple 1 1 1 100) (newTuple 1 1 1 100))
      exact .inl ⟨⟨h₁, h₂⟩, updateThen_ends hk u₁ (updateThen_ends hk u₂
        (updateThen_ends (le_key ht) rfl (ends_pure sys () _)))⟩
    · have u₂ := update_refuses (s := s₁) rfl hl₁ (hs₁ ▸ h₂)
        (bundle 0 (newTuple 1 1 1 100) (newTuple 1 1 1 100))
      exact .inr ⟨fun h => h₂ h.2, s₁, updateThen_ends hk u₁ (updateThen_stops hk u₂), reading_pdr_table _ _⟩
  · exact .inr ⟨fun h => h₁ h.1, s, updateThen_stops hk (update_refuses rfl hl.pdr h₁ _), rfl⟩

end Session

namespace Startup

variable {b : Startup} {s₀ t : Maps} {n i : Nat}

/-- Session `i`. -/
abbrev session (b : Startup) (i : Nat) : Agent Unit := install_session (b.teid + i) (b.pdr + i) 1 1 100 1

theorem session_fits (hi : i ≤ MAX_PDRS) : SessionFits (b.pdr + i) 1 1 100 1 ∧ Fmt.I.fits (b.teid + i) := by
  have hp := b.pdr_lt
  have ht := b.teid_lt
  have hw : (256 : Int) ^ Fmt.I.width = 2 ^ 32 := by decide
  refine ⟨⟨⟨by omega, ?_⟩, by decide, by decide, by decide, by decide, trivial⟩, by omega, ?_⟩
  · rw [hw]
    omega
  · rw [hw]
    omega

/-- Before session `i` the ones before it are there, and fit. -/
structure Point (b : Startup) (s₀ : Maps) (i : Nat) (t : Maps) : Prop where
  pdr : (t.table .pdr_table).keys = b.keys s₀ .pdr_table i
  bundle : (t.table .tc_bundle_map).keys = b.keys s₀ .tc_bundle_map i
  fit : b.Fit s₀ i
  said : reading t = b.sessions i (reading s₀)

theorem Point.withinLimits (h : Point b s₀ i t) : WithinLimits t := ⟨h.pdr ▸ h.fit.pdr, h.bundle ▸ h.fit.bundle⟩

theorem Point.le (h : Point b s₀ i t) : i ≤ MAX_PDRS :=
  (le_card_grown fun i j he => by simpa using he).trans h.fit.pdr

theorem point_start (hl : WithinLimits s₀) : Point b s₀ 0 s₀ := by
  refine ⟨grown_zero.symm, grown_zero.symm, ⟨?_, ?_⟩, ?_⟩
  · rw [Startup.keys, grown_zero]
    exact hl.pdr
  · rw [Startup.keys, grown_zero]
    exact hl.bundle
  · simp [sessions]

theorem sessions_succ (b : Startup) (i : Nat) (x : Intent) : (b.sessions i x).told
    (.install_session (b.teid + i) (b.pdr + i) 1 1 100 1) = b.sessions (i + 1) x := by
  have ht : (b.teid + i : Int).toNat = b.teid + i := by omega
  have hp : (b.pdr + i : Int).toNat = b.pdr + i := by omega
  simp only [Intent.told, sessions, ht, hp]
  rw [show (1 : Int).toNat = 1 from rfl, show (100 : Int).toNat = 100 from rfl]
  congr 1
  · exact update_overlay
  · exact update_overlay

theorem fitsIn_iff (h : Point b s₀ i t) : FitsIn t (b.pdr + i) ↔ b.Fit s₀ (i + 1) := by
  rw [FitsIn, h.pdr, h.bundle]
  have hg : ∀ m, insert (b.pdr + i) (b.keys s₀ m i) = b.keys s₀ m (i + 1) := fun m => grown_succ.symm
  rw [hg, hg]
  exact ⟨fun h => ⟨h.1, h.2⟩, fun h => ⟨h.1, h.2⟩⟩

/-- The loop of a start. -/
theorem sessions_end (b : Startup) (hl : WithinLimits s₀) (n : Nat) :
    (∃ t, Ends sys ((List.range n).forM b.session) s₀ (.ok ()) t ∧ Point b s₀ n t) ∨
    ∃ k < n, ∃ e t, Ends sys ((List.range n).forM b.session) s₀ (.error e) t ∧
      (e = .OSError .E2BIG ∧ b.Fit s₀ k ∧ ¬b.Fit s₀ (k + 1) ∧ reading t = b.sessions k (reading s₀)) := by
  refine ends_range (fun i hi t h => ?_) (point_start hl)
  obtain ⟨hf, ht⟩ := session_fits (b := b) h.le
  have hp : (b.pdr + i : Int).toNat = b.pdr + i := by omega
  rcases session_ends hf ht h.withinLimits with ⟨hfit, he⟩ | ⟨hfit, t', he, hr⟩
  · rw [hp, fitsIn_iff h] at hfit
    refine .inl ⟨_, he, ?_, ?_, hfit, ?_⟩
    · rw [installed_pdr_table, Maps.table_put, keys_insert, h.pdr, hp]
      exact grown_succ.symm
    · rw [installed_bundle_table, Maps.table_put, keys_insert, h.bundle, hp]
      exact grown_succ.symm
    · rw [reading_step (c := .install_session (b.teid + i) (b.pdr + i) 1 1 100 1)
        (after_eq_some.mpr ⟨(), he⟩), h.said, sessions_succ]
  · rw [hp, fitsIn_iff h] at hfit
    exact .inr ⟨_, t', he, rfl, h.fit, hfit, hr.trans h.said⟩

/-- The loop that takes the sessions back. -/
theorem removals_end (b : Startup) (hn : n ≤ MAX_PDRS) (t : Maps) : ∃ u,
    Ends sys ((List.range n).forM fun i => remove_session (b.teid + i) (b.pdr + i)) t (.ok ()) u ∧
      reading u = b.removed n (reading t) := by
  refine ends_range_ok (J := fun i u => reading u = b.removed i (reading t)) (fun i hi u hu => ?_) ?_
  · obtain ⟨hf, ht⟩ := session_fits (b := b) (show i ≤ MAX_PDRS by omega)
    have hteid : (b.teid + i : Int).toNat = b.teid + i := by omega
    have hpdr : (b.pdr + i : Int).toNat = b.pdr + i := by omega
    refine ⟨UPF.removed u (b.teid + i) (b.pdr + i), ?_, ?_⟩
    · rw [← returns_iff_ends, remove_session_eq, returns_ite, sessionDeletes, returns_delete]
      refine ⟨ht, returns_ite.mpr ⟨hf.1, ?_⟩⟩
      rw [returns_delete, returns_delete, le_key ht, le_key hf.1]
      exact returns_pure.mpr ⟨rfl, rfl⟩
    · rw [reading_removed, hu, hteid, hpdr]
      simp only [removed]
      congr 1
      · exact update_overlay
      · exact update_overlay
  · simp [removed]

theorem removed_sessions (b : Startup) (n : Nat) (x : Intent) : b.removed n (b.sessions n x) = b.removed n x := by
  simp only [removed, sessions, overlay_overlay]

/-- The FAR and the QER of a start. -/
theorem rules_end {mbr burst out : Int} (hm : Fmt.Q.fits mbr) (hb : Fmt.I.fits burst) (ho : Fmt.I.fits out)
    (hfar : b.far = ⟨FAR_FORWARD, out.toNat, 0, 0⟩) (hqer : b.qer = ⟨mbr.toNat, 0, burst.toNat⟩) (s : Maps) : ∃ s₀,
    Ends sys (do
      install_far 1 FAR_FORWARD out 0 0
      install_qer 1 mbr 0 burst) s (.ok ()) s₀ ∧ s₀.table .pdr_table = s.table .pdr_table ∧
      s₀.table .tc_bundle_map = s.table .tc_bundle_map ∧ reading s₀ = b.rules (reading s) := by
  have hk : Fmt.I.fits 1 := by decide
  have hf : PackFits [(.I, ((FAR_FORWARD : Nat) : Int)), (.I, out), (.I, 0), (.I, 0)] :=
    ⟨by decide, ho, by decide, by decide, trivial⟩
  have hq : PackFits [(.Q, mbr), (.Q, 0), (.I, burst)] := ⟨hm, by decide, hb, trivial⟩
  let s₁ := s.put .far_table 1 (farBytes FAR_FORWARD out 0 0)
  have h₁ : Returns (install_far 1 FAR_FORWARD out 0 0) s () s₁ := by
    rw [install_far, returns_u32, enc_far, returns_pack, map_update_eq, returns_update]
    exact ⟨hk, hf, _, rfl, returns_pure.mpr ⟨rfl, rfl⟩⟩
  have h₂ : Returns (install_qer 1 mbr 0 burst) s₁ () (s₁.put .qer_table 1 (qerBytes mbr 0 burst)) := by
    rw [install_qer, returns_u32, enc_qer, returns_pack, map_update_eq, returns_update]
    exact ⟨hk, ⟨hm, by decide, hb, by decide, trivial⟩, _, rfl, returns_pure.mpr ⟨rfl, rfl⟩⟩
  have ht : ∀ m, m ≠ .far_table → m ≠ .qer_table →
      (s₁.put .qer_table 1 (qerBytes mbr 0 burst)).table m = s.table m := fun m hf hq => by
    rw [Maps.table_put_ne _ _ _ hq, Maps.table_put_ne _ _ _ hf]
  refine ⟨s₁.put .qer_table 1 (qerBytes mbr 0 burst), h₁.bind h₂, ht _ (by decide) (by decide),
    ht _ (by decide) (by decide), ?_⟩
  · rw [reading_qer (by decide), reading_far (by decide), farOf_farBytes hf, qerOf_qerBytes hq, rules, hfar, hqer]
    rfl

theorem fit_congr {s : Maps} (hp : s₀.table .pdr_table = s.table .pdr_table)
    (hb : s₀.table .tc_bundle_map = s.table .tc_bundle_map) (n : Nat) : b.Fit s₀ n ↔ b.Fit s n := by
  have hk : b.keys s₀ .pdr_table n = b.keys s .pdr_table n := by rw [Startup.keys, hp, Startup.keys]
  have hk' : b.keys s₀ .tc_bundle_map n = b.keys s .tc_bundle_map n := by rw [Startup.keys, hb, Startup.keys]
  exact ⟨fun h => ⟨hk ▸ h.pdr, hk' ▸ h.bundle⟩, fun h => ⟨hk.symm ▸ h.pdr, hk'.symm ▸ h.bundle⟩⟩

/-- A whole start. -/
theorem start_ends {mbr burst out : Int} (hm : Fmt.Q.fits mbr) (hb : Fmt.I.fits burst) (ho : Fmt.I.fits out)
    (hfar : b.far = ⟨FAR_FORWARD, out.toNat, 0, 0⟩) (hqer : b.qer = ⟨mbr.toNat, 0, burst.toNat⟩) {s : Maps}
    (hl : WithinLimits s) (n : Nat) : ∃ r t,
      Ends sys (do
        install_far 1 FAR_FORWARD out 0 0
        install_qer 1 mbr 0 burst
        (List.range n).forM b.session) s r t ∧ b.Outcome s n (b.rules (reading s)) r (reading t) := by
  obtain ⟨s₀, h₀, hpdr, hbun, hr₀⟩ := rules_end (b := b) hm hb ho hfar hqer s
  have hprog : ∀ {r t}, Ends sys ((List.range n).forM b.session) s₀ r t → Ends sys (do
      install_far 1 FAR_FORWARD out 0 0
      install_qer 1 mbr 0 burst
      (List.range n).forM b.session) s r t := fun h => by
    have := h₀.bind (f := fun _ => (List.range n).forM b.session) h
    rwa [bind_assoc] at this
  have hl₀ : WithinLimits s₀ := ⟨hpdr ▸ hl.pdr, hbun ▸ hl.bundle⟩
  rcases sessions_end b hl₀ n with ⟨t, ht, hp⟩ | ⟨k, hk, e, t, ht, rfl, hf, hnf, hr⟩
  · exact ⟨_, t, hprog ht, .inl ⟨(fit_congr hpdr hbun n).mp hp.fit, rfl, hr₀ ▸ hp.said⟩⟩
  · exact ⟨_, t, hprog ht, .inr ⟨k, hk, (fit_congr hpdr hbun k).mp hf,
      fun h => hnf ((fit_congr hpdr hbun (k + 1)).mpr h), rfl, hr₀ ▸ hr⟩⟩

/-- A start lists its own sessions only. -/
theorem start_listed (mbr burst out : Int) {n : Nat} {K : Finset Nat} (hK : ∀ i < n, b.teid + i ∈ K) : (do
    install_far 1 FAR_FORWARD out 0 0
    install_qer 1 mbr 0 burst
    (List.range n).forM b.session : Agent Unit).run.Asks (Listed K) := by
  have hf : (install_far 1 FAR_FORWARD out 0 0).run.Asks (Listed K) := install_far_listed 1 FAR_FORWARD out 0 0
  have hq : (install_qer 1 mbr 0 burst).run.Asks (Listed K) := install_qer_listed 1 mbr 0 burst
  refine asks_bind hf fun _ => asks_bind hq fun _ => install_sessions_listed _ _ _ _ _ _ fun i hi _ => ?_
  rw [show (b.teid + i : Int).toNat = b.teid + i by omega]
  exact hK i hi

theorem own_session (b : Startup) (s : Maps) {i : Nat} (hi : i < n) :
    b.teid + i ∈ grown (s.table .teid_session).keys (b.teid + ·) n :=
  mem_grown.mpr (.inr ⟨i, hi, rfl⟩)

end Startup

open Startup

/-- The agent's start says its rules and as many of its sessions as fit, and raises if that
is not all of them. -/
theorem bootstrap_told {s : Maps} (hl : WithinLimits s) {n out : Int} (ho : Fmt.I.fits out)
    (hroom : (bootstrap out).Room s n.toNat) : ∃ r t, Ends sysLru (bootstrap_initial n out) s r t ∧
      (bootstrap out).Outcome s n.toNat ((bootstrap out).rules (reading s)) r (reading t) := by
  obtain ⟨r, t, h, hr⟩ := start_ends (b := bootstrap out) (show Fmt.Q.fits 0 by decide) (show Fmt.I.fits 0 by decide) ho
    rfl rfl hl n.toNat
  have hlisted := start_listed 0 0 out fun i (hi : i < n.toNat) => own_session (bootstrap out) s hi
  exact ⟨r, t, (ends_sysLru hlisted hroom Finset.subset_union_left).mpr h, hr⟩

theorem fit_empty (b : Startup) (n : Nat) : b.Fit .empty n ↔ n ≤ MAX_PDRS := by
  have hk : ∀ m, (b.keys .empty m n).card = n := fun m => by
    have h0 : ((Maps.empty.table m).keys : Finset Nat) = ∅ := rfl
    rw [Startup.keys, h0, card_grown (fun i _ => by simp) fun i _ j _ he => by simpa using he]
    simp
  exact ⟨fun h => hk .pdr_table ▸ h.pdr, fun h => ⟨(hk _).symm ▸ h, (hk _).symm ▸ h⟩⟩

theorem sessions_room (b : Startup) {n : Nat} (h : n ≤ MAX_TEIDS) : b.Room .empty n := by
  have h0 : (Maps.empty.table .teid_session).keys = ∅ := rfl
  rw [Room, h0, card_grown (fun i _ => by simp) fun i _ j _ he => by simpa using he]
  simpa using h

/-- Of 5000 sessions, fresh maps take 4096. -/
theorem bootstrap_told_5000 : ∃ t, Ends sysLru (bootstrap_initial 5000 2) .empty (.error (.OSError .E2BIG)) t ∧
    reading t = (bootstrap 2).sessions 4096 ((bootstrap 2).rules .unset) := by
  obtain ⟨r, t, he, h⟩ := bootstrap_told (s := .empty) (n := 5000) ⟨by decide, by decide⟩
    (show Fmt.I.fits 2 by decide) (sessions_room _ (by decide))
  rcases h with ⟨h, -⟩ | ⟨k, -, h₁, h₂, rfl, hr⟩
  · rw [fit_empty] at h
    exact absurd h (by decide)
  · rw [fit_empty] at h₁ h₂
    obtain rfl : k = 4096 := Nat.le_antisymm h₁ (Nat.le_of_not_lt h₂)
    exact ⟨t, he, reading_empty ▸ hr⟩

/-- The contention experiment takes back the sessions that it said, but not its rules; if not
all sessions fit, it raises, and takes nothing back. -/
theorem contention_taken_back {s : Maps} (hl : WithinLimits s) {n mbr burst out : Int}
    (hm : Fmt.Q.fits mbr) (hb : Fmt.I.fits burst) (ho : Fmt.I.fits out)
    (hroom : (contention mbr burst out).Room s n.toNat) : ∃ r t,
    Ends sysLru (do
      qer_contention.set_up n mbr burst out
      qer_contention.clean_up n) s r t ∧ (contention mbr burst out).TakenBack s n.toNat
        ((contention mbr burst out).rules (reading s)) r (reading t) := by
  have hlisted : (do
      qer_contention.set_up n mbr burst out
      qer_contention.clean_up n : Agent Unit).run.Asks (Listed (grown (s.table .teid_session).keys
        ((contention mbr burst out).teid + ·) n.toNat)) := by
    have hup := start_listed mbr burst out fun i (hi : i < n.toNat) => own_session (contention mbr burst out) s hi
    exact asks_bind hup fun _ => remove_sessions_listed _ _ _
  simp only [ends_sysLru hlisted hroom Finset.subset_union_left]
  obtain ⟨r, t, h, hr⟩ := start_ends (b := contention mbr burst out) hm hb ho rfl rfl hl n.toNat
  rcases hr with ⟨hf, rfl, hs⟩ | ⟨k, hk, hf, hnf, rfl, hs⟩
  · have hn : n.toNat ≤ MAX_PDRS := (le_card_grown fun i j he => by simpa using he).trans hf.pdr
    obtain ⟨u, hu, hr⟩ := removals_end (contention mbr burst out) hn t
    refine ⟨_, u, Ends.bind h hu, .inl ⟨hf, rfl, ?_⟩⟩
    rw [hr, hs, removed_sessions]
  · exact ⟨_, t, Ends.stop _ h, .inr ⟨k, hk, hf, hnf, rfl, hs⟩⟩

theorem contention_taken_back_64 : ∃ t, Ends sysLru (do
      qer_contention.set_up 64 1000000000 65536 2
      qer_contention.clean_up 64) .empty (.ok ()) t ∧
    reading t = (contention 1000000000 65536 2).removed 64 ((contention 1000000000 65536 2).rules .unset) := by
  obtain ⟨r, t, he, h⟩ := contention_taken_back (s := .empty) (n := 64) ⟨by decide, by decide⟩
    (show Fmt.Q.fits 1000000000 by decide) (show Fmt.I.fits 65536 by decide) (show Fmt.I.fits 2 by decide)
    (sessions_room _ (by decide))
  rcases h with ⟨-, rfl, hr⟩ | ⟨k, hk, -, h, -⟩
  · exact ⟨t, he, reading_empty ▸ hr⟩
  · rw [fit_empty] at h
    have : k < 64 := hk
    have : MAX_PDRS = 4096 := rfl
    omega

end UPF
