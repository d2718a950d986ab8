import EbpfUpf.Proof.Commit
import EbpfUpf.Proof.Integrity
import EbpfUpf.Spec.Generations

/-!
# Generations

The bundle of a PDR is a versioned cell (`versioned`), whose versions are the
generations: `modify_tc_bundle` advances it, `remove_session` clears it, and
`install_session` resets it. So from one install to the next a generation
stands for one tuple (`generation_identifies`).
-/

open Framework

namespace UPF

variable {pdr_id : Nat}

theorem watch_snoc (h : List Event) (e : Event) : watch pdr_id (h ++ [e]) = (watch pdr_id h).step pdr_id e :=
  List.foldl_append

/-! ## The agent -/

/-- A system call that does not write the bundle. -/
def Spares (pdr_id : Nat) : Syscall → Prop
  | .update m key _ => m = .tc_bundle_map → le key ≠ pdr_id
  | _ => True

/-- Where the agent is, when the bundle of the PDR is `cur`. -/
inductive AgentAt (pdr_id : Nat) (cur : Option Bytes) :
    Option (Command × Prog SysOps (Except PyError Unit)) → Prop
  | idle : AgentAt pdr_id cur none
  | installing (c : Command) (p : Prog SysOps (Except PyError Unit)) : c.isInstall = true →
    AgentAt pdr_id cur (some (c, p))
  | sparing (c : Command) (p : Prog SysOps (Except PyError Unit)) : c.isInstall = false → p.Asks (Spares pdr_id) →
    AgentAt pdr_id cur (some (c, p))
  | called (id : Int) (c : Changes) : Fmt.I.fits id → id.toNat = pdr_id →
    AgentAt pdr_id cur (some (.modify_tc_bundle id c, (Command.modify_tc_bundle id c).call.run))
  | staging (id : Int) (c : Changes) (raw : Bytes) : Fmt.I.fits id → id.toNat = pdr_id → Packs raw c → cur = some raw →
    AgentAt pdr_id cur (some (.modify_tc_bundle id c, (stageWrite id raw c).run))
  | flipping (id : Int) (c : Changes) (raw : Bytes) : Fmt.I.fits id → id.toNat = pdr_id → Packs raw c →
    cur = some (staged raw c (activeSlot raw)) →
    AgentAt pdr_id cur (some (.modify_tc_bundle id c, (flipWrite id raw c).run))

/-- A call as it begins. -/
theorem agentAt_call (cur : Option Bytes) (c : Command) : AgentAt pdr_id cur (some (c, c.call.run)) := by
  cases c with
  | install_session => exact .installing _ _ rfl
  | modify_tc_bundle id c =>
    by_cases hk : Fmt.I.fits id ∧ id.toNat = pdr_id
    · exact .called id c hk.1 hk.2
    · refine .sparing _ _ rfl (asks_discard (modify_tc_bundle_asks id c (fun _ => trivial) fun hf _ _ => ?_))
      rw [le_key hf]
      exact fun he => hk ⟨hf, he⟩
  | remove_session teid id => exact .sparing _ _ rfl (remove_session_asks teid id fun _ _ => trivial)
  | install_far | install_qer | install_upf_config =>
    exact .sparing _ _ rfl (asks_lift fun _ => asks_lift fun _ => asks_map_update nofun)
  | install_dl_ue =>
    exact .sparing _ _ rfl (asks_lift fun _ => asks_lift fun _ => asks_lift fun _ => asks_lift fun _ =>
      asks_map_update nofun)

/-! ## The cell -/

/-- The bundle as a versioned cell. -/
def versioned (pdr_id : Nat) (S : Upf) : Versioned Tuple :=
  ⟨ruleOf S.maps pdr_id, (watch pdr_id S.hist).installs, (watch pdr_id S.hist).sightings⟩

structure Watched (pdr_id : Nat) (S : Upf) : Prop where
  current : (watch pdr_id S.hist).current = S.agent.map Prod.fst
  agent : AgentAt pdr_id (S.maps.lookup .tc_bundle_map pdr_id) S.agent
  ordered : (versioned pdr_id S).Ordered Tuple.generation

theorem ruleOf_congr {s s' : Maps} (h : s'.lookup .tc_bundle_map pdr_id = s.lookup .tc_bundle_map pdr_id) :
    ruleOf s' pdr_id = ruleOf s pdr_id := by
  rw [ruleOf, h, ruleOf]

theorem spares_watch {o : Syscall} (ho : Spares pdr_id o) (r : Except Errno Bytes) (w : Watch) :
    w.step pdr_id (.sys o r) = w := by
  cases o with
  | update m key v =>
    cases r with
    | error e => cases m <;> rfl
    | ok _ =>
      cases m with
      | tc_bundle_map => exact if_neg fun h => ho rfl h.1
      | _ => rfl
  | lookup | delete => rfl

theorem spares_lookup {o : Syscall} (ho : Spares pdr_id o) {s s' : Maps} {r : Except Errno Bytes}
    (h : sys o s = some (r, s')) : s'.lookup .tc_bundle_map pdr_id = s.lookup .tc_bundle_map pdr_id ∨
      s'.lookup .tc_bundle_map pdr_id = none := by
  by_cases hw : o.writes = some .tc_bundle_map
  · cases o with
    | update m key v =>
      obtain rfl : m = .tc_bundle_map := Option.some.inj hw
      have hne : pdr_id ≠ le key := Ne.symm (ho rfl)
      simp only [sys] at h
      split at h <;> cases h
      · next hu =>
        obtain ⟨rfl, -⟩ := Maps.update_ok hu
        exact .inl (Maps.lookup_put_ne (.inr hne))
      · exact .inl rfl
    | lookup => cases hw
    | delete m key =>
      obtain rfl : m = .tc_bundle_map := Option.some.inj hw
      simp only [sys] at h
      split at h <;> cases h
      · next hd =>
        obtain ⟨rfl, -⟩ := Maps.delete_ok hd
        by_cases hk : pdr_id = le key
        · subst hk
          exact .inr (Maps.lookup_drop_hash (.inl rfl) _)
        · exact .inl (Maps.lookup_drop_ne (.inr hk))
      · exact .inl rfl
  · exact .inl (sys_lookup h hw _)

/-- What a system call that spares the bundle does to the cell. -/
theorem spares_versioned {o : Syscall} (ho : Spares pdr_id o) {S : Upf} {s' : Maps} {r : Except Errno Bytes}
    (h : sys o S.maps = some (r, s')) (a : Option (Command × Prog SysOps (Except PyError Unit))) :
    Versioned.Step Tuple.generation (versioned pdr_id S)
      (versioned pdr_id { S with maps := s', agent := a, hist := S.hist ++ [.sys o r] }) := by
  rw [versioned, versioned, watch_snoc, spares_watch ho]
  dsimp only
  rcases spares_lookup ho h with hl | hl
  · rw [ruleOf_congr hl]
    exact .idle _
  · have hn : ruleOf s' pdr_id = none := by rw [ruleOf, hl, Option.map_none]
    rw [hn]
    exact .clear _

/-- A write that is not an install shows in the bundle alone. -/
theorem watch_update {w : Watch} {c : Command} (hw : w.current = some c) (hc : c.isInstall = false) (key v : Bytes)
    (bs : Bytes) : w.step pdr_id (.sys (.update .tc_bundle_map key v) (.ok bs)) = w :=
  if_neg fun h => by
    rw [hw, Option.any_some, hc] at h
    exact Bool.false_ne_true h.2

/-- An install writes anything, and that resets the cell. -/
theorem install_versioned {S : Upf} {c : Command} {o : Syscall} {s' : Maps} {r : Except Errno Bytes}
    (hc : (watch pdr_id S.hist).current = some c) (hi : c.isInstall = true) (h : sys o S.maps = some (r, s'))
    (a : Option (Command × Prog SysOps (Except PyError Unit))) :
    Versioned.Step Tuple.generation (versioned pdr_id S)
      (versioned pdr_id { S with maps := s', agent := a, hist := S.hist ++ [.sys o r] }) := by
  by_cases ho : Spares pdr_id o
  · exact spares_versioned ho h a
  · obtain ⟨key, v, rfl, hk⟩ : ∃ key v, o = .update .tc_bundle_map key v ∧ le key = pdr_id := by
      cases o with
      | update m key v =>
        obtain ⟨rfl, hk⟩ := by simpa [Spares] using ho
        exact ⟨key, v, rfl, hk⟩
      | lookup | delete => exact absurd trivial ho
    rw [versioned, versioned, watch_snoc]
    simp only [sys] at h
    split at h <;> cases h
    · have hw : (watch pdr_id S.hist).step pdr_id (.sys (.update .tc_bundle_map key v) (.ok [])) =
          { watch pdr_id S.hist with installs := (watch pdr_id S.hist).installs + 1 } :=
        if_pos ⟨hk, by rw [hc]; exact hi⟩
      rw [hw]
      exact .reset _ _
    · exact .idle _

theorem current_sys (w : Watch) (o : Syscall) (r : Except Errno Bytes) :
    (w.step pdr_id (.sys o r)).current = w.current := by
  unfold Watch.step
  split
  any_goals rfl
  · next h => cases h
  · next h => cases h
  · next h => cases h
  · split <;> rfl
  · next h => cases h

/-- One system call of the agent. -/
theorem sys_watched {S S' : Upf} (hs : S.step .sys = some S') (h : Watched pdr_id S) : Watched pdr_id S' := by
  obtain ⟨c, o, k, r, maps, ha, e, rfl⟩ := step_sys hs
  obtain ⟨hc, hp, ho⟩ := h
  have hcur : (watch pdr_id S.hist).current = some c := by rw [hc, ha]; rfl
  have hcur' : (watch pdr_id (S.hist ++ [.sys o r])).current = some c := by
    rw [watch_snoc, current_sys, hcur]
  rw [ha] at hp
  generalize hq : (some (c, Prog.ask o k) : Option (Command × Prog SysOps (Except PyError Unit))) = q at hp
  cases hp with
  | idle => cases hq
  | installing c p hi =>
    cases hq
    exact ⟨hcur', .installing _ _ hi, ho.step (install_versioned hcur hi e _)⟩
  | sparing c p hi hp =>
    cases hq
    exact ⟨hcur', .sparing _ _ hi (hp.2 r), ho.step (spares_versioned hp.1 e _)⟩
  | called id c hk hid =>
    rw [modify_call_eq hk] at hq
    cases hq
    have hsp : Spares pdr_id (.lookup .tc_bundle_map (key id) 56) := trivial
    refine ⟨hcur', ?_, ho.step (spares_versioned hsp e _)⟩
    simp only [sys, le_key hk, hid] at e
    split at e <;> cases e
    · next raw hl =>
      dsimp only
      by_cases hpk : Packs raw c
      · rw [if_pos hpk]
        exact .staging id c raw hk hid hpk hl
      · rw [if_neg hpk]
        exact .sparing _ _ rfl trivial
    · exact .sparing _ _ rfl trivial
  | staging id c raw hk hid hpk hraw =>
    cases hq
    subst hid
    cases (sys_update_bundle hk hraw _).symm.trans e
    have hl : (S.maps.put .tc_bundle_map id.toNat (staged raw c (activeSlot raw))).lookup .tc_bundle_map id.toNat =
        some (staged raw c (activeSlot raw)) := Maps.lookup_put_hash (.inl rfl) _ _
    refine ⟨hcur', .flipping id c raw hk rfl hpk hl, ?_⟩
    have hrule : ruleOf (S.maps.put .tc_bundle_map id.toNat (staged raw c (activeSlot raw))) id.toNat =
        ruleOf S.maps id.toNat := by
      rw [ruleOf, hl, ruleOf, hraw, Option.map_some, Option.map_some, activeTuple_staged]
    refine ho.step ?_
    rw [versioned, versioned, watch_snoc, watch_update hcur rfl]
    dsimp only
    rw [hrule]
    exact .idle _
  | flipping id c raw hk hid hpk hraw =>
    cases hq
    subst hid
    cases (sys_update_bundle hk hraw _).symm.trans e
    refine ⟨hcur', .sparing _ _ rfl trivial, ?_⟩
    have hold : ruleOf S.maps id.toNat = some (activeTuple raw) := by
      rw [ruleOf, hraw, Option.map_some, activeTuple_staged]
    have hrule : ruleOf (S.maps.put .tc_bundle_map id.toNat (staged raw c (1 - activeSlot raw))) id.toNat =
        some (c.apply (activeTuple raw)) := by
      rw [ruleOf, Maps.lookup_put_hash (.inl rfl), Option.map_some, activeTuple_flipped hpk]
    refine ho.step ?_
    rw [versioned, versioned, watch_snoc, watch_update hcur rfl]
    dsimp only
    rw [hrule]
    exact .advance hold (Nat.lt_succ_self _)

/-! ## Runs -/

/-- A packet's operation may find the bundle, and shows nothing else. -/
theorem watch_op {S : Upf} {p : Packet} {o : Op Ptr} {r : Op.Ans o} {s : Machine} (i : Nat)
    (h : kernel p.H o (p.machine S.maps) = some (r, s)) (w : Watch) :
    w.step pdr_id (.op i o r) = w ∨ ∃ t, ruleOf S.maps pdr_id = some t ∧
      w.step pdr_id (.op i o r) = { w with sightings := w.sightings ++ [⟨w.installs, t⟩] } := by
  by_cases ho : o = .lookup .tc_bundle_map pdr_id
  · subst ho
    rw [kernel_lookup rfl] at h
    cases h
    rw [ruleOf]
    cases hl : (p.machine S.maps).maps.lookup .tc_bundle_map pdr_id with
    | none => exact .inl rfl
    | some v =>
      refine .inr ⟨activeTuple v, ?_, if_pos rfl⟩
      rw [show S.maps.lookup .tc_bundle_map pdr_id = some v from hl]
      rfl
  · left
    unfold Watch.step
    split
    any_goals rfl
    · next h => cases h
    · next h => cases h
    · next h => cases h
    · next h => cases h
    · next he =>
      cases he
      exact if_neg fun hk => ho (congrArg _ hk)

/-- The cell after the operation. -/
theorem op_versioned {S : Upf} {p : Packet} {o : Op Ptr} {r : Op.Ans o} {s : Machine} (i : Nat)
    (h : kernel p.H o (p.machine S.maps) = some (r, s)) (packets : List Packet) :
    Versioned.Step Tuple.generation (versioned pdr_id S)
      (versioned pdr_id { S with maps := s.maps, packets, hist := S.hist ++ [.op i o r] }) := by
  have hl := op_lookup h (m := .tc_bundle_map) rfl pdr_id
  rw [versioned, versioned, watch_snoc]
  dsimp only
  rw [ruleOf_congr hl]
  rcases watch_op i h (watch pdr_id S.hist) with hw | ⟨t, ht, hw⟩
  · rw [hw]
    exact .idle _
  · rw [hw]
    exact .look ht

/-- An event that shows neither an install nor a reader leaves the cell in order. -/
theorem ordered_quiet {S S' : Upf} (e : Event) (hh : S'.hist = S.hist ++ [e])
    (hl : S'.maps.lookup .tc_bundle_map pdr_id = S.maps.lookup .tc_bundle_map pdr_id)
    (he : ∀ w : Watch, (w.step pdr_id e).installs = w.installs ∧ (w.step pdr_id e).sightings = w.sightings)
    (ho : (versioned pdr_id S).Ordered Tuple.generation) : (versioned pdr_id S').Ordered Tuple.generation := by
  obtain ⟨hi, hs⟩ := he (watch pdr_id S.hist)
  rw [versioned] at ho ⊢
  rw [hh, watch_snoc, hi, hs, ruleOf_congr hl]
  exact ho

theorem step_watched {S S' : Upf} {mv : Move} (hs : S.step mv = some S') (h : Watched pdr_id S) :
    Watched pdr_id S' := by
  cases mv with
  | call c =>
    obtain ⟨-, rfl⟩ := step_call hs
    refine ⟨?_, agentAt_call _ c, ?_⟩
    · rw [watch_snoc]
      rfl
    · exact ordered_quiet (.call c) rfl rfl (fun _ => ⟨rfl, rfl⟩) h.ordered
  | sys => exact sys_watched hs h
  | done =>
    obtain ⟨c, r, -, rfl⟩ := step_done hs
    refine ⟨?_, .idle, ?_⟩
    · rw [watch_snoc]
      rfl
    · exact ordered_quiet (.done c r) rfl rfl (fun _ => ⟨rfl, rfl⟩) h.ordered
  | stop =>
    obtain ⟨c, p, -, rfl⟩ := step_stop hs
    refine ⟨?_, .idle, ?_⟩
    · rw [watch_snoc]
      rfl
    · exact ordered_quiet (.stop c) rfl rfl (fun _ => ⟨rfl, rfl⟩) h.ordered
  | evict teid =>
    cases hs
    have hl : (S.maps.evict teid).lookup .tc_bundle_map pdr_id = S.maps.lookup .tc_bundle_map pdr_id :=
      Maps.lookup_drop_ne (.inl (by decide))
    refine ⟨?_, ?_, ?_⟩
    · rw [watch_snoc]
      exact h.current
    · rw [hl]
      exact h.agent
    · exact ordered_quiet (.evict teid) rfl hl (fun _ => ⟨rfl, rfl⟩) h.ordered
  | arrive hook H cpu wire =>
    cases hs
    exact ⟨h.current, h.agent, h.ordered⟩
  | op i =>
    obtain ⟨p, o, k, r, s, -, -, e, rfl⟩ := step_op hs
    refine ⟨?_, ?_, h.ordered.step (op_versioned i e _)⟩
    · rw [watch_snoc]
      rcases watch_op i e (watch pdr_id S.hist) with hw | ⟨t, -, hw⟩
      · rw [hw]
        exact h.current
      · rw [hw]
        exact h.current
    · rw [op_lookup e rfl]
      exact h.agent

/-- From one install of a PDR to the next, packets that find the same generation find the
same tuple. A packet reads the bundle as its lookup found it, in one snapshot. -/
theorem generation_identifies {maps : Maps} {ms : List Move} {S : Upf} (h : exec Upf.step (.start maps) ms = some S)
    (pdr_id : Nat) : Identified pdr_id S.hist ∧ ∀ i, OneSnapshot (S.log i) := by
  have hw : Watched pdr_id S := exec_invariant (P := fun _ _ => True) (fun _ hi hs => step_watched hs hi)
    (along_of_forall (fun _ _ _ => trivial) _) h ⟨rfl, .idle, Versioned.ordered_nil _ _⟩
  exact ⟨hw.ordered.identified, run_oneSnapshot h⟩

/-- A call of the agent, with `n` system calls. -/
def callMoves (c : Command) (n : Nat) : List Move := .call c :: (List.replicate n .sys ++ [.done])

/-- One packet of the tunnel before its session gets another QER, and two after that. -/
def modifiedBetween : List Move :=
  List.replicate 3 (.arrive (.tc ⟨false, false, false⟩) willing 0 (gpduFrame 0x1000)) ++
  callMoves (.install_session 0x1000 1 0 1 32 0) 3 ++ List.replicate 12 (.op 0) ++
  callMoves (.modify_tc_bundle 1 ⟨none, some 2, none, none⟩) 3 ++ List.replicate 12 (.op 1) ++
  List.replicate 12 (.op 2)

/-- The last two packets find generation 1, and one tuple. -/
theorem generation_identifies_modified : ∃ S, exec Upf.step (.start .empty) modifiedBetween = some S ∧
    (watch 1 S.hist).sightings = [⟨1, ⟨1, 0, 0, 32, 0⟩⟩, ⟨1, ⟨1, 2, 0, 32, 1⟩⟩, ⟨1, ⟨1, 2, 0, 32, 1⟩⟩] ∧
    Identified 1 S.hist ∧ ∀ i, OneSnapshot (S.log i) := by
  have h : (exec Upf.step (.start .empty) modifiedBetween).map (fun S => (watch 1 S.hist).sightings) =
      some [⟨1, ⟨1, 0, 0, 32, 0⟩⟩, ⟨1, ⟨1, 2, 0, 32, 1⟩⟩, ⟨1, ⟨1, 2, 0, 32, 1⟩⟩] := by decide +kernel
  obtain ⟨S, hs, hw⟩ := Option.map_eq_some_iff.mp h
  exact ⟨S, hs, hw, generation_identifies hs 1⟩

/-! ## A PDR that is installed again -/

/-- A packet of the tunnel after each of two installs of the session. -/
def reinstalled : List Move :=
  [.arrive (.tc ⟨false, false, false⟩) willing 0 (gpduFrame 0x1000),
    .arrive (.tc ⟨false, false, false⟩) willing 0 (gpduFrame 0x1000)] ++
  callMoves (.install_session 0x1000 1 0 1 32 0) 3 ++ List.replicate 12 (.op 0) ++
  callMoves (.install_session 0x1000 1 0 2 32 0) 3 ++ List.replicate 12 (.op 1)

/-- Generation 0 stands for FAR 1 and then for FAR 2. -/
theorem generation_reused : ∃ S x y, exec Upf.step (.start .empty) reinstalled = some S ∧
    (watch 1 S.hist).sightings = [x, y] ∧ x.value = ⟨1, 0, 0, 32, 0⟩ ∧ y.value = ⟨2, 0, 0, 32, 0⟩ ∧
    x.value.generation = y.value.generation ∧ x.value.far_id ≠ y.value.far_id := by
  have h : (exec Upf.step (.start .empty) reinstalled).map (fun S => (watch 1 S.hist).sightings) =
      some [⟨1, ⟨1, 0, 0, 32, 0⟩⟩, ⟨2, ⟨2, 0, 0, 32, 0⟩⟩] := by decide +kernel
  obtain ⟨S, hs, hw⟩ := Option.map_eq_some_iff.mp h
  exact ⟨S, _, _, hs, hw, rfl, rfl, rfl, by decide⟩

end UPF
