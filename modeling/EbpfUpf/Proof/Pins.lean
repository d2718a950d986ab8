import EbpfUpf.Proof.Uplink
import EbpfUpf.Proof.Writers
import EbpfUpf.Spec.Pins

/-!
# What the cache of file descriptors does

`calls_refine`: as long as the agent has opened nothing but the maps of one load,
and these are pinned, a program runs as it does on these maps. `Apart` is what
remains of it after a reload: the agent holds the sessions of the load before.
-/

open Framework

namespace UPF

namespace Site

variable {b : Build} {S S' : Site} {s s' : Maps}

/-! ## One load -/

/-- There is one load, which is pinned. -/
structure Alone (s : Maps) (S : Site) : Prop where
  pinned : S.pinned = some 0
  loads : S.loads = [s]
  fds : ∀ m, S.fds m = none ∨ S.fds m = some 0

theorem Alone.fd (h : Alone s S) (m : MapName) : S.fd m = some 0 := by
  rw [Site.fd, h.pinned]
  rcases h.fds m with hm | hm <;> rw [hm] <;> rfl

/-- By induction on the program. -/
theorem calls_refine {α : Type} (p : Prog SysOps α) (h : Alone s S) : ∃ a s' S', Prog.run sys p s = some (a, s') ∧
    Prog.run PinnedMapCache p S = some (a, S') ∧ Alone s' S' := by
  induction p generalizing s S with
  | ret a => exact ⟨a, s, S, rfl, rfl, h⟩
  | ask c k ih =>
    obtain ⟨⟨r, s₁⟩, hs⟩ := sys_total c s
    let S₁ : Site := { S with fds := Function.update S.fds c.map (some 0), loads := S.loads.set 0 s₁ }
    have hc : PinnedMapCache c S = some (r, S₁) := by
      have hl : S.loads.getD 0 .empty = s := by rw [h.loads]; rfl
      simp only [PinnedMapCache, h.fd, hl, hs]
      rfl
    have h₁ : Alone s₁ S₁ := by
      refine ⟨h.pinned, by rw [show S₁.loads = S.loads.set 0 s₁ from rfl, h.loads]; rfl, fun m => ?_⟩
      by_cases hm : m = c.map
      · exact .inr (hm ▸ Function.update_self ..)
      · rw [show S₁.fds m = S.fds m from Function.update_of_ne hm _ _]
        exact h.fds m
    obtain ⟨a, s', S', hr, hr', h'⟩ := ih r h₁
    exact ⟨a, s', S', by rw [Prog.run, hs]; exact hr, by rw [Prog.run, hc]; exact hr', h'⟩

theorem Alone.step (h : Alone s S) {mv : Move} (hm : mv.Settled) (hs : S.step b mv = some S') :
    ∃ s', Move.direct b s mv = some s' ∧ Alone s' S' := by
  cases mv with
  | call c =>
    obtain ⟨a, s', S₁, hr, hr', h'⟩ := calls_refine c.call.run h
    simp only [Site.step, hr', Option.map_some, Option.some.injEq] at hs
    exact ⟨s', by rw [Move.direct, hr]; rfl, hs ▸ h'⟩
  | deliver d =>
    have hl : S.loads.getD 0 .empty = s := by rw [h.loads]; rfl
    simp only [Site.step, h.pinned, Option.bind_eq_bind, Option.bind_some, hl, Option.bind_eq_some_iff] at hs
    obtain ⟨s', hd, hs⟩ := hs
    cases hs
    exact ⟨s', hd, rfl, by rw [h.loads]; rfl, h.fds⟩
  | wipe | load => exact hm.elim
  | restart =>
    cases hs
    exact ⟨s, rfl, h.pinned, h.loads, fun _ => .inl rfl⟩

theorem Alone.run (h : Alone s S) {ms : List Move} (hm : ∀ mv ∈ ms, mv.Settled)
    (he : exec (Site.step b) S ms = some S') : ∃ s', exec (Move.direct b) s ms = some s' ∧ Alone s' S' := by
  refine exec_simulates (R := fun S s => Alone s S) (P := Move.Settled) ?_ hm he h
  intro S s mv S' hm h hs
  exact h.step hm hs

/-! ## After a reload -/

theorem sys_table {c : Syscall} {r : Except Errno Bytes} (h : sys c s = some (r, s')) {m : MapName} (hm : m ≠ c.map) :
    s'.table m = s.table m := by
  cases c with
  | update m' k v =>
    have hm : m ≠ m' := hm
    simp only [sys] at h
    split at h
    · next s₁ hu =>
      cases h
      rw [(Maps.update_ok hu).1, Maps.table_put_ne _ _ _ hm]
    · cases h
      rfl
  | lookup m' k n =>
    simp only [sys] at h
    split at h <;> cases h <;> rfl
  | delete m' k =>
    have hm : m ≠ m' := hm
    simp only [sys] at h
    split at h
    · next s₁ hd =>
      cases h
      rw [(Maps.delete_ok hd).1, Maps.table_drop_ne _ _ hm]
    · cases h
      rfl

theorem delivery_table {d : Delivery} (h : d.step b s = some s') {m : MapName} (hm : m ≠ .qer_state_shared) :
    s'.table m = s.table m := by
  simp only [Delivery.step, Option.bind_eq_bind, Option.bind_eq_some_iff] at h
  obtain ⟨⟨v, m₁⟩, hx, h⟩ := h
  have h₁ := (run_keeps hx).table m hm
  split at h
  · obtain ⟨⟨v', m₂⟩, ht, h⟩ := Option.bind_eq_some_iff.mp h
    cases h
    exact ((run_keeps ht).table m hm).trans h₁
  · cases h
    exact h₁

/-- The agent has its sessions in load `g`, and those that came after it have none. -/
structure Apart (g : Nat) (S : Site) : Prop where
  held : S.fds .teid_session = some g
  fresh : ∀ i s, g < i → S.loads[i]? = some s → s.table .teid_session = ∅
  bound : g < S.loads.length
  pinned : ∀ i, S.pinned = some i → g < i ∧ i < S.loads.length

/-- The maps of load `j` change, but not the sessions of one that came later. -/
theorem Apart.set {g j : Nat} (h : Apart g S) (hf : S'.fds .teid_session = some g) (hp : S'.pinned = S.pinned)
    (hl : S'.loads = S.loads.set j s)
    (hj : g < j → s.table .teid_session = (S.loads.getD j .empty).table .teid_session) : Apart g S' := by
  have hlen : S'.loads.length = S.loads.length := by rw [hl, List.length_set]
  refine ⟨hf, fun i t hi ht => ?_, hlen ▸ h.bound, fun i hi => ?_⟩
  · rw [hl] at ht
    by_cases hij : j = i
    · subst hij
      have hlt : j < S.loads.length := by
        have := (List.getElem?_eq_some_iff.mp ht).1
        rwa [List.length_set] at this
      rw [List.getElem?_set_self hlt] at ht
      cases ht
      rw [hj hi, List.getD_eq_getElem?_getD, List.getElem?_eq_getElem hlt, Option.getD_some]
      exact h.fresh j _ hi (List.getElem?_eq_getElem hlt)
    · rw [List.getElem?_set_ne hij] at ht
      exact h.fresh i t hi ht
  · rw [hlen]
    exact h.pinned i (hp ▸ hi)

theorem Apart.sys {g : Nat} (h : Apart g S) {c : Syscall} {r : Except Errno Bytes}
    (hs : PinnedMapCache c S = some (r, S')) : Apart g S' := by
  unfold PinnedMapCache at hs
  split at hs
  · cases hs
    exact h
  · next j hj =>
    obtain ⟨⟨r', maps⟩, hsys, hs⟩ := Option.bind_eq_some_iff.mp hs
    cases hs
    have hself : c.map = .teid_session → j = g := fun hc => by
      rw [fd, hc, h.held] at hj
      exact (Option.some.inj hj).symm
    refine h.set ?_ rfl rfl fun hlt => sys_table hsys fun hc => (hself hc.symm).not_gt hlt
    by_cases hc : c.map = .teid_session
    · show Function.update S.fds c.map (some j) .teid_session = some g
      rw [← hc, Function.update_self, hself hc]
    · exact (Function.update_of_ne (Ne.symm hc) _ _).trans h.held

theorem Apart.step {g : Nat} (h : Apart g S) {mv : Move} (hm : mv.isRestart = false) (hs : S.step b mv = some S') :
    Apart g S' := by
  cases mv with
  | call c =>
    obtain ⟨⟨a, S₁⟩, hr, rfl⟩ := Option.map_eq_some_iff.mp hs
    exact Prog.run_rel PinnedMapCache (R := fun S S' => Apart g S → Apart g S') (fun _ h => h)
      (fun h₁ h₂ h => h₂ (h₁ h)) (fun e h => h.sys e) hr h
  | deliver d =>
    obtain ⟨i, hi, hs⟩ := Option.bind_eq_some_iff.mp hs
    obtain ⟨maps, hd, hs⟩ := Option.bind_eq_some_iff.mp hs
    cases hs
    exact h.set h.held rfl rfl fun _ => delivery_table hd (by decide)
  | wipe =>
    cases hs
    exact ⟨h.held, h.fresh, h.bound, nofun⟩
  | load =>
    cases hs
    have hlen : (S.loads ++ [Maps.empty]).length = S.loads.length + 1 := List.length_append
    refine ⟨h.held, fun i s hi he => ?_, ?_, fun i hi => ?_⟩
    · by_cases hlt : i < S.loads.length
      · rw [List.getElem?_append_left hlt] at he
        exact h.fresh i s hi he
      · rw [List.getElem?_append_right (Nat.le_of_not_lt hlt)] at he
        obtain rfl : s = .empty := List.mem_singleton.mp (List.mem_of_getElem? he)
        rfl
    · exact hlen ▸ Nat.lt_succ_of_lt h.bound
    · cases hi
      exact ⟨h.bound, hlen ▸ Nat.lt_succ_self _⟩
  | restart => cases hm

theorem Apart.run {g : Nat} (h : Apart g S) {ms : List Move} (hm : ∀ mv ∈ ms, mv.isRestart = false)
    (he : exec (Site.step b) S ms = some S') : Apart g S' :=
  exec_invariant (P := fun _ mv => mv.isRestart = false) (fun hm h hs => h.step hm hs)
    (along_of_forall (fun mv hmv _ => hm mv hmv) S) he h

theorem unserved_of_empty (h : s.table .teid_session = ∅) : Unserved s := by
  have hn : ∀ teid, s.lookup .teid_session teid = none := fun teid => by
    rw [Maps.lookup_congr (s := .empty) (by rw [h]; rfl)]
    rfl
  refine ⟨hn, fun H cpu wire g => ?_⟩
  have hx := xdp_gpdu (H := H) (s := arrival cpu s wire) g
  have hc : classified (arrival cpu s wire).maps (teidOf (arrival cpu s wire).frame) = (.M_MISS_TEID, XDP_DROP) := by
    simp only [classified, pdrOf, show (arrival cpu s wire).maps = s from rfl, hn, Option.map_none]
  rw [hc] at hx
  exact ⟨hx.mem_ops (List.mem_cons_of_mem _ List.mem_cons_self), hx.run⟩

end Site

open Site

/-- Until the datapath is reloaded, the file descriptors make no difference. After that, what an
agent that has held sessions does never reaches the sessions of the datapath, and every G-PDU is
dropped, until the agent starts again. -/
theorem reload_unseen {b : Build} {maps : Maps} {ms : List Site.Move} {S : Site} (hm : ∀ mv ∈ ms, mv.Settled)
    (h : exec (Site.step b) (.start maps) ms = some S) :
    (∃ s, exec (Site.Move.direct b) maps ms = some s ∧ S.loads = [s]) ∧
    ((S.fds .teid_session).isSome → ∀ ms' S', (∀ mv ∈ ms', mv.isRestart = false) →
      exec (Site.step b) S (.wipe :: ms') = some S' →
      ∀ i s, S'.pinned = some i → S'.loads[i]? = some s → Unserved s) := by
  have hstart : Alone maps (.start maps) := ⟨rfl, rfl, fun _ => .inl rfl⟩
  obtain ⟨s, hd, ha⟩ := hstart.run hm h
  refine ⟨⟨s, hd, ha.loads⟩, fun ho ms' S' hr h' i t hi ht => ?_⟩
  obtain ⟨S₁, hw, he⟩ := exec_cons.mp h'
  cases hw
  have hheld : S.fds .teid_session = some 0 := (ha.fds _).resolve_left fun hn => by simp [hn] at ho
  have hap : Apart 0 { S with pinned := none } := by
    have hl : Site.loads { S with pinned := none } = [s] := ha.loads
    refine ⟨hheld, fun i t hi ht => ?_, ?_, nofun⟩
    · rw [hl, List.getElem?_eq_none (Nat.succ_le_of_lt hi)] at ht
      cases ht
    · rw [hl]
      exact Nat.one_pos
  have hfin := hap.run hr he
  exact unserved_of_empty (hfin.fresh i t (hfin.pinned i hi).1 ht)

/-- A session that is installed again after a reload, in vain. -/
theorem reload_unseen_again : ∃ S S' s, let again := Site.Move.call (.install_session 0x1000 0x2000 1 1 100 1)
    exec (Site.step ⟨false, false, false⟩) (.start .empty) [again] = some S ∧
    (∃ s, exec (Site.Move.direct ⟨false, false, false⟩) .empty [again] = some s ∧ S.loads = [s]) ∧
    exec (Site.step ⟨false, false, false⟩) S [.wipe, .load, again] = some S' ∧
    S'.pinned = some 1 ∧ S'.loads[1]? = some s ∧ Unserved s := by
  let again : Site.Move := .call (.install_session 0x1000 0x2000 1 1 100 1)
  have h : ((exec (Site.step ⟨false, false, false⟩) (.start .empty) [again]).map fun S =>
      (S.fds .teid_session, ((exec (Site.step ⟨false, false, false⟩) S [.wipe, .load, again]).map fun S' =>
        (S'.pinned, S'.loads.length)))) = some (some 0, some (some 1, 2)) := by
    decide +kernel
  obtain ⟨S, hS, h⟩ := Option.map_eq_some_iff.mp h
  obtain ⟨hf, h⟩ := Prod.mk.inj h
  obtain ⟨S', hS', h⟩ := Option.map_eq_some_iff.mp h
  obtain ⟨hp, hl⟩ := Prod.mk.inj h
  have hs : S'.loads[1]? = some _ := List.getElem?_eq_getElem (hl ▸ Nat.one_lt_two)
  have hheld : (S.fds .teid_session).isSome := by
    rw [hf]
    rfl
  have hr := reload_unseen (by simp [again, Move.Settled]) hS
  exact ⟨S, S', _, hS, hr.1, hS', hp, hs, hr.2 hheld _ S' (by simp [again, Move.isRestart]) hS' 1 _ hp hs⟩

end UPF
