import EbpfUpf.Proof.Agent
import EbpfUpf.Proof.System

/-!
# The transactional commit

`modify_tc_bundle` writes a bundle twice. The second write of a call commits
it: `committed` lays the calls with both writes done over the tuple that the
session was installed with. Between packets' operations the agent is at one
of the points of `Phase`, and the slot in force holds the committed tuple at
each of them (`step_phase`). So that is what every packet finds, and it finds
one generation after another (`reads_committed`).
-/

open Framework

namespace UPF

/-- The modifications begun that can be packed, oldest first. -/
def begun (h : List Event) : List Changes :=
  h.filterMap fun
    | .call (.modify_tc_bundle _ c) => if c.Fits then some c else none
    | _ => none

/-- How often a bundle was written. -/
def writes (h : List Event) : Nat :=
  h.countP fun
    | .sys (.update .tc_bundle_map _ _) (.ok _) => true
    | _ => false

/-- The tuple after the calls `cs`, one after another. -/
def Tuple.modified (t : Tuple) (cs : List Changes) : Tuple := cs.foldl (fun t c => c.apply t) t

/-- The tuple of the last call whose second write is done. -/
def committed (t₀ : Tuple) (h : List Event) : Tuple := t₀.modified ((begun h).take (writes h / 2))

@[simp] theorem begun_append (h h' : List Event) : begun (h ++ h') = begun h ++ begun h' := List.filterMap_append

@[simp] theorem writes_append (h h' : List Event) : writes (h ++ h') = writes h + writes h' := List.countP_append

/-- An event that neither begins a modification nor writes a bundle. -/
theorem begun_snoc {h : List Event} {e : Event} (he : begun [e] = []) : begun (h ++ [e]) = begun h := by
  rw [begun_append, he, List.append_nil]

theorem writes_snoc {h : List Event} {e : Event} (he : writes [e] = 0) : writes (h ++ [e]) = writes h := by
  rw [writes_append, he, Nat.add_zero]

@[simp] theorem generation_apply (c : Changes) (t : Tuple) : (c.apply t).generation = t.generation + 1 := rfl

theorem generation_modified (t : Tuple) (cs : List Changes) :
    (t.modified cs).generation = t.generation + cs.length := by
  induction cs generalizing t with
  | nil => rfl
  | cons c cs ih =>
    have : (t.modified (c :: cs)) = (c.apply t).modified cs := rfl
    rw [this, ih, generation_apply, List.length_cons]
    omega

theorem modified_concat (t : Tuple) (cs : List Changes) (c : Changes) :
    t.modified (cs ++ [c]) = c.apply (t.modified cs) := by
  rw [Tuple.modified, List.foldl_append]
  rfl

/-- More happens, and no earlier generation comes back. -/
theorem generation_committed_le (t₀ : Tuple) (h h' : List Event) :
    (committed t₀ h).generation ≤ (committed t₀ (h ++ h')).generation := by
  simp only [committed, generation_modified, List.length_take, begun_append, writes_append, List.length_append]
  omega

/-! ## The agent -/

/-- The second write of a call that found the bundle `raw`. -/
def flipWrite (pdr_id : Int) (raw : Bytes) (c : Changes) : Agent Unit :=
  updateThen .tc_bundle_map (key pdr_id) (staged raw c (1 - activeSlot raw)) (pure ())

/-- Both writes. -/
def stageWrite (pdr_id : Int) (raw : Bytes) (c : Changes) : Agent Unit :=
  updateThen .tc_bundle_map (key pdr_id) (staged raw c (activeSlot raw)) (flipWrite pdr_id raw c)

theorem modify_call_eq {pdr_id : Int} (hk : Fmt.I.fits pdr_id) (c : Changes) :
    (Command.modify_tc_bundle pdr_id c).call = lookupThen .tc_bundle_map (key pdr_id) 56 fun raw =>
      if Packs raw c then stageWrite pdr_id raw c else throw .struct_error := by
  have : (Command.modify_tc_bundle pdr_id c).call = modify_tc_bundle pdr_id c >>= fun _ => pure () := rfl
  rw [this, modify_tc_bundle_eq, if_pos hk]
  refine congrArg (Prog.ask (I := SysOps) (Syscall.lookup .tc_bundle_map (key pdr_id) 56)) (funext fun r => ?_)
  cases r with
  | error e => rfl
  | ok raw =>
    dsimp only
    by_cases h : Packs raw c
    · rw [if_pos h, if_pos h]
      refine congrArg (Prog.ask (I := SysOps) (Syscall.update .tc_bundle_map (key pdr_id)
        (staged raw c (activeSlot raw)))) (funext fun r => ?_)
      cases r with
      | error e => rfl
      | ok _ =>
        refine congrArg (Prog.ask (I := SysOps) (Syscall.update .tc_bundle_map (key pdr_id)
          (staged raw c (1 - activeSlot raw)))) (funext fun r => ?_)
        cases r <;> rfl
    · rw [if_neg h, if_neg h]
      rfl

/-- Where the agent is, when `cs` are committed and the bundle is `cur`: what
was begun, the writes that were made, and what is left. -/
inductive Phase (pdr_id : Int) (cs : List Changes) (cur : Bytes) :
    List Changes → Nat → Option (Command × Prog SysOps (Except PyError Unit)) → Prop
  | idle : Phase pdr_id cs cur cs (2 * cs.length) none
  | finished (c : Command) (r : Except PyError Unit) : Phase pdr_id cs cur cs (2 * cs.length) (some (c, .ret r))
  | refused (c : Changes) : ¬ c.Fits → Phase pdr_id cs cur cs (2 * cs.length)
    (some (.modify_tc_bundle pdr_id c, (Command.modify_tc_bundle pdr_id c).call.run))
  | called (c : Changes) : c.Fits → Phase pdr_id cs cur (cs ++ [c]) (2 * cs.length)
    (some (.modify_tc_bundle pdr_id c, (Command.modify_tc_bundle pdr_id c).call.run))
  | staging (c : Changes) : Packs cur c → Phase pdr_id cs cur (cs ++ [c]) (2 * cs.length)
    (some (.modify_tc_bundle pdr_id c, (stageWrite pdr_id cur c).run))
  | flipping (c : Changes) (raw : Bytes) : Packs raw c → cur = staged raw c (activeSlot raw) →
    Phase pdr_id cs cur (cs ++ [c]) (2 * cs.length + 1)
    (some (.modify_tc_bundle pdr_id c, (flipWrite pdr_id raw c).run))

theorem Phase.take {pdr_id : Int} {cs b : List Changes} {cur : Bytes} {w : Nat}
    {a : Option (Command × Prog SysOps (Except PyError Unit))} (h : Phase pdr_id cs cur b w a) :
    b.take (w / 2) = cs := by
  cases h with
  | idle | finished | refused => rw [Nat.mul_div_cancel_left _ (by decide), List.take_length]
  | called | staging => rw [Nat.mul_div_cancel_left _ (by decide), List.take_left]
  | flipping => rw [show (2 * cs.length + 1) / 2 = cs.length by omega, List.take_left]

/-- The bundle of the PDR, with the agent at one of its points, and what is
committed in force. -/
def Committing (pdr_id : Int) (t₀ : Tuple) (S : Upf) : Prop :=
  ∃ cur cs, S.maps.lookup .tc_bundle_map pdr_id.toNat = some cur ∧ activeTuple cur = t₀.modified cs ∧
    Phase pdr_id cs cur (begun S.hist) (writes S.hist) S.agent

/-- The agent modifies the bundle of `pdr_id`, and no call is cut short. -/
def Move.Modifies (pdr_id : Int) : Move → Prop
  | call (.modify_tc_bundle p _) => p = pdr_id
  | call _ | stop => False
  | _ => True

theorem update_present {s : Maps} {m : MapName} (hm : Maps.Hash m) {k : Nat} {v : Bytes}
    (h : s.lookup m k = some v) (v' : Bytes) : s.update m k v' = .ok (s.put m k v') := by
  rw [Maps.lookup_hash hm] at h
  have hk : k ∈ s.table m := Finmap.mem_of_lookup_eq_some h
  rcases hm with hm | hm <;> simp [Maps.update, hm, hk]

section Bundle

variable {s : Maps} {pdr_id : Int} {cur : Bytes}

/-- The agent finds a bundle that is there. -/
theorem sys_lookup_bundle (hk : Fmt.I.fits pdr_id) (hl : s.lookup .tc_bundle_map pdr_id.toNat = some cur) (n : Nat) :
    sys (.lookup .tc_bundle_map (key pdr_id) n) s = some (.ok cur, s) := by
  rw [sys, le_key hk, hl]

/-- It can always write it. -/
theorem sys_update_bundle (hk : Fmt.I.fits pdr_id) (hl : s.lookup .tc_bundle_map pdr_id.toNat = some cur) (v : Bytes) :
    sys (.update .tc_bundle_map (key pdr_id) v) s = some (.ok [], s.put .tc_bundle_map pdr_id.toNat v) := by
  rw [sys, le_key hk, update_present (.inl rfl) hl]

end Bundle

/-- One system call of the agent. -/
theorem sys_committing {pdr_id : Int} (hk : Fmt.I.fits pdr_id) {t₀ : Tuple} {S S' : Upf}
    (hg : t₀.generation + (begun S.hist).length < 2 ^ 32) (hs : S.step .sys = some S')
    (h : Committing pdr_id t₀ S) : Committing pdr_id t₀ S' := by
  obtain ⟨cmd, o, k, r, maps, ha, e, rfl⟩ := step_sys hs
  obtain ⟨cur, cs, hl, ht, hp⟩ := h
  rw [ha] at hp
  generalize hb : begun S.hist = b at hp
  generalize hw : writes S.hist = w at hp
  generalize hq : Prog.ask o k = q at hp
  cases hp with
  | finished => cases hq
  | refused c hc =>
    rw [modify_call_eq hk] at hq
    cases hq
    cases (sys_lookup_bundle hk hl _).symm.trans e
    refine ⟨cur, cs, hl, ht, ?_⟩
    rw [begun_snoc rfl, writes_snoc rfl, hb, hw]
    dsimp only
    rw [if_neg fun hp => hc hp.1]
    exact .finished _ _
  | called c hc =>
    rw [modify_call_eq hk] at hq
    cases hq
    cases (sys_lookup_bundle hk hl _).symm.trans e
    refine ⟨cur, cs, hl, ht, ?_⟩
    rw [begun_snoc rfl, writes_snoc rfl, hb, hw]
    have hp : Packs cur c := by
      refine ⟨hc, ?_⟩
      rw [hb, List.length_append, List.length_singleton] at hg
      rw [ht, generation_modified]
      omega
    dsimp only
    rw [if_pos hp]
    exact .staging c hp
  | staging c hc =>
    cases hq
    cases (sys_update_bundle hk hl _).symm.trans e
    refine ⟨_, cs, Maps.lookup_put_hash (.inl rfl) _ _, ?_, ?_⟩
    · rw [activeTuple_staged, ht]
    · rw [begun_snoc rfl, writes_append, hb, hw]
      exact .flipping c cur hc rfl
  | flipping c raw hc hr =>
    cases hq
    cases (sys_update_bundle hk hl _).symm.trans e
    refine ⟨_, cs ++ [c], Maps.lookup_put_hash (.inl rfl) _ _, ?_, ?_⟩
    · rw [activeTuple_flipped hc, modified_concat, ← ht, hr, activeTuple_staged]
    · rw [begun_snoc rfl, writes_append, hb, hw]
      have : 2 * cs.length + 1 + 1 = 2 * (cs ++ [c]).length := by
        rw [List.length_append, List.length_singleton]
        omega
      change Phase _ _ _ _ (2 * cs.length + 1 + 1) _
      rw [this]
      exact .finished _ _

/-- Each move keeps the agent at one of its points. -/
theorem step_committing {pdr_id : Int} (hk : Fmt.I.fits pdr_id) {t₀ : Tuple} {S S' : Upf} {mv : Move}
    (hm : mv.Modifies pdr_id) (hg : t₀.generation + (begun S.hist).length < 2 ^ 32) (hs : S.step mv = some S')
    (h : Committing pdr_id t₀ S) : Committing pdr_id t₀ S' := by
  cases mv with
  | call cmd =>
    obtain ⟨ha, rfl⟩ := step_call hs
    obtain ⟨cur, cs, hl, ht, hp⟩ := h
    refine ⟨cur, cs, hl, ht, ?_⟩
    cases cmd with
    | modify_tc_bundle p c =>
      obtain rfl : p = pdr_id := hm
      rw [ha] at hp
      generalize hb : begun S.hist = b at hp
      generalize hw : writes S.hist = w at hp
      cases hp
      rw [begun_append, writes_snoc rfl, hb, hw]
      by_cases hc : c.Fits
      · have : begun [.call (.modify_tc_bundle p c)] = [c] := by simp [begun, hc]
        rw [this]
        exact .called c hc
      · have : begun [.call (.modify_tc_bundle p c)] = [] := by simp [begun, hc]
        rw [this, List.append_nil]
        exact .refused c hc
    | _ => cases hm
  | sys => exact sys_committing hk hg hs h
  | done =>
    obtain ⟨c, r, ha, rfl⟩ := step_done hs
    obtain ⟨cur, cs, hl, ht, hp⟩ := h
    refine ⟨cur, cs, hl, ht, ?_⟩
    rw [ha] at hp
    rw [begun_snoc rfl, writes_snoc rfl]
    generalize hb : begun S.hist = b at hp ⊢
    generalize hw : writes S.hist = w at hp ⊢
    generalize hq : Prog.ret r = q at hp
    cases hp with
    | finished => exact .idle
    | refused c hc | called c hc =>
      rw [modify_call_eq hk] at hq
      cases hq
    | staging | flipping => cases hq
  | stop => cases hm
  | evict teid =>
    cases hs
    obtain ⟨cur, cs, hl, ht, hp⟩ := h
    refine ⟨cur, cs, (Maps.lookup_drop_ne (.inl (by decide))).trans hl, ht, ?_⟩
    rw [begun_snoc rfl, writes_snoc rfl]
    exact hp
  | arrive hook H cpu wire =>
    cases hs
    exact h
  | op i =>
    obtain ⟨p, o, _, r, s, -, -, e, rfl⟩ := step_op hs
    obtain ⟨cur, cs, hl, ht, hp⟩ := h
    refine ⟨cur, cs, (op_lookup e rfl _).trans hl, ht, ?_⟩
    rw [begun_snoc rfl, writes_snoc rfl]
    exact hp

/-! ## Packets -/

/-- What packets found for the PDR, in the order of their lookups. -/
def seen (pdr_id : Nat) (h : List Event) : List Tuple :=
  h.filterMap fun
    | .op _ (.lookup .tc_bundle_map k) (some (.value _ v)) => if k = pdr_id then some (activeTuple v) else none
    | _ => none

/-- The bundles that a packet found. -/
def bundlesFound (l : Log (BpfOps Ptr)) : List Bytes :=
  l.filterMap fun
    | ⟨.lookup .tc_bundle_map _, some (.value _ v)⟩ => some v
    | _ => none

/-- What a packet read of bundles: where, and what. -/
def bundleReads (l : Log (BpfOps Ptr)) : List (Bytes × Nat × Nat) :=
  l.filterMap fun
    | ⟨.read (.value .tc_bundle_map v) off _, x⟩ => some (v, off, x)
    | _ => none

/-- The word that says which slot is in force, and the fields there. -/
def inForce (v : Bytes) : List (Nat × Nat) :=
  let cur := tc_bundle.slot (activeSlot v)
  let t := activeTuple v
  [(tc_bundle.active, v.get tc_bundle.active 4), (cur + tc_bundle_slot.far_id, t.far_id),
    (cur + tc_bundle_slot.qer_id, t.qer_id), (cur + tc_bundle_slot.urr_id, t.urr_id),
    (cur + tc_bundle_slot.generation, t.generation)]

/-- A packet found one bundle, and all that it read of bundles is in force there. -/
def OneSnapshot (l : Log (BpfOps Ptr)) : Prop :=
  ∀ r ∈ bundleReads l, ∃ v, bundlesFound l = [v] ∧ r.1 = v ∧ r.2 ∈ inForce v

theorem bundlesFound_rules (l : Log (BpfOps Ptr)) : bundlesFound (rules l) = bundlesFound l := by
  refine filterMap_rules (fun e he => ?_) l
  obtain ⟨o, r⟩ := e
  cases o with
  | lookup m k => cases m <;> first | rfl | cases he
  | _ => rfl

theorem bundleReads_rules (l : Log (BpfOps Ptr)) : bundleReads (rules l) = bundleReads l := by
  refine filterMap_rules (fun e he => ?_) l
  obtain ⟨o, r⟩ := e
  cases o with
  | read p off n =>
    cases p with
    | value m v => cases m <;> first | rfl | cases he
    | elem m k => rfl
  | _ => rfl

/-- Questions that find no bundle, and read of bundles only what is in force in `v`. -/
def OnlyReads (v : Bytes) (Y : Log (BpfOps Ptr)) : Prop :=
  bundlesFound Y = [] ∧ ∀ r ∈ bundleReads Y, r.1 = v ∧ r.2 ∈ inForce v

theorem OnlyReads.append {v : Bytes} {Y Z : Log (BpfOps Ptr)} (hY : OnlyReads v Y) (hZ : OnlyReads v Z) :
    OnlyReads v (Y ++ Z) := by
  refine ⟨?_, fun r hr => ?_⟩
  · rw [bundlesFound, List.filterMap_append]
    exact List.append_eq_nil_iff.mpr ⟨hY.1, hZ.1⟩
  · rw [bundleReads, List.filterMap_append] at hr
    exact (List.mem_append.mp hr).elim (hY.2 r) (hZ.2 r)

theorem OnlyReads.of_prefix {v : Bytes} {Y Z : Log (BpfOps Ptr)} (h : OnlyReads v Z) (hp : Y <+: Z) :
    OnlyReads v Y := by
  obtain ⟨t, rfl⟩ := hp
  rw [OnlyReads, bundlesFound, bundleReads, List.filterMap_append, List.filterMap_append] at h
  exact ⟨(List.append_eq_nil_iff.mp h.1).1, fun r hr => h.2 r (List.mem_append_left _ hr)⟩

theorem onlyReads_toFar (bundle far : Bytes) : OnlyReads bundle (toFar bundle far) := by
  refine ⟨rfl, fun r hr => ?_⟩
  simp only [bundleReads, toFar, List.filterMap_cons, List.filterMap_nil, List.mem_cons, List.not_mem_nil,
    or_false] at hr
  rcases hr with rfl | rfl <;> exact ⟨rfl, by simp [inForce, activeTuple, slotTuple]⟩

theorem onlyReads_toForward (sess bundle far : Bytes) : OnlyReads bundle (toForward sess bundle far) := by
  refine ⟨rfl, fun r hr => ?_⟩
  simp only [bundleReads, toForward, List.filterMap_cons, List.filterMap_nil, List.mem_cons, List.not_mem_nil,
    or_false] at hr
  rcases hr with rfl | rfl | rfl | rfl <;> exact ⟨rfl, by simp [inForce, activeTuple, slotTuple]⟩

/-- A course that reads a bundle comes to one, and then reads what is in force there. -/
theorem TcCourse.reads {teid : Nat} {X : Log (BpfOps Ptr)} {v : Int} (h : TcCourse teid X v) :
    bundleReads X = [] ∨ ∃ sess bundle Y, X = toBundle teid sess bundle ++ Y ∧ OnlyReads bundle Y := by
  have hn : ∀ {bundle : Bytes} {Z : Log (BpfOps Ptr)}, bundlesFound Z = [] → bundleReads Z = [] →
      OnlyReads bundle Z := fun h₁ h₂ => ⟨h₁, by simp [h₂]⟩
  cases h with
  | no_session | no_bundle => exact .inl rfl
  | no_far sess bundle =>
    refine .inr ⟨sess, bundle, _, rfl, rfl, fun r hr => ?_⟩
    exact (onlyReads_toFar bundle []).2 r hr
  | dropped sess bundle far => exact .inr ⟨sess, bundle, _, rfl, onlyReads_toFar bundle far⟩
  | buffered sess bundle far =>
    refine .inr ⟨sess, bundle, _, List.append_assoc .., (onlyReads_toFar bundle far).append ⟨rfl, fun r hr => ?_⟩⟩
    exact (onlyReads_toFar bundle []).2 r (List.mem_cons_of_mem _ hr)
  | decap_err sess bundle far =>
    exact .inr ⟨sess, bundle, _, List.append_assoc ..,
      (onlyReads_toFar bundle far).append (onlyReads_toForward sess bundle far)⟩
  | far_gone sess bundle far =>
    exact .inr ⟨sess, bundle, _, by rw [List.append_assoc, List.append_assoc],
      (onlyReads_toFar bundle far).append ((onlyReads_toForward sess bundle far).append (hn rfl rfl))⟩
  | refused sess bundle far far' =>
    exact .inr ⟨sess, bundle, _, by rw [List.append_assoc, List.append_assoc],
      (onlyReads_toFar bundle far).append ((onlyReads_toForward sess bundle far).append (hn rfl rfl))⟩
  | redirected sess bundle far far' w =>
    exact .inr ⟨sess, bundle, _, by rw [List.append_assoc, List.append_assoc],
      (onlyReads_toFar bundle far).append ((onlyReads_toForward sess bundle far).append (hn rfl rfl))⟩

theorem run_oneSnapshot {maps : Maps} {ms : List Move} {S : Upf} (h : exec Upf.step (.start maps) ms = some S)
    (i : Nat) : OneSnapshot (S.log i) := by
  intro r hr
  rw [← bundleReads_rules] at hr
  rw [← bundlesFound_rules]
  rcases rules_log_cases h i with h | ⟨teid, X, v, hX, hc | hc⟩
  · rw [h] at hr
    cases hr
  all_goals have hp : bundleReads (rules (S.log i)) <+: bundleReads X := hX.filterMap _
  · have : bundleReads X = [] := by cases hc <;> rfl
    rw [this] at hp
    cases List.prefix_nil.mp hp ▸ hr
  rcases hc.reads with hn | ⟨sess, bundle, Y, rfl, hY⟩
  · rw [hn] at hp
    cases List.prefix_nil.mp hp ▸ hr
  rcases List.prefix_or_prefix_of_prefix hX (List.prefix_append (toBundle teid sess bundle) Y) with hb | hb
  · have hp : bundleReads (rules (S.log i)) <+: [] := hb.filterMap _
    cases List.prefix_nil.mp hp ▸ hr
  · obtain ⟨Z, hZ⟩ := hb
    rw [← hZ] at hX hr ⊢
    have hY := hY.of_prefix ((List.prefix_append_right_inj _).mp hX)
    obtain ⟨h₁, h₂⟩ := hY.2 r hr
    exact ⟨bundle, congrArg (bundle :: ·) hY.1, h₁, h₂⟩

/-! ## Runs -/

/-- What a lookup of the PDR's bundle finds after the history `pre`. -/
def FindsCommitted (pdr_id : Nat) (t₀ : Tuple) (pre : List Event) (e : Event) : Prop :=
  ∀ i r, e = .op i (.lookup .tc_bundle_map pdr_id) r →
    ∃ v, r = some (.value .tc_bundle_map v) ∧ activeTuple v = committed t₀ pre

theorem seen_append (pdr_id : Nat) (h h' : List Event) : seen pdr_id (h ++ h') = seen pdr_id h ++ seen pdr_id h' :=
  List.filterMap_append

theorem FindsCommitted.seen {pdr_id : Nat} {t₀ : Tuple} {pre : List Event} {e : Event}
    (h : FindsCommitted pdr_id t₀ pre e) : ∀ t ∈ seen pdr_id [e], t = committed t₀ pre := by
  intro t ht
  simp only [UPF.seen, List.mem_filterMap, List.mem_singleton] at ht
  obtain ⟨e', rfl, he⟩ := ht
  split at he
  · next i k m v =>
    split at he
    · next hk =>
      cases he
      subst hk
      obtain ⟨v', hv, ht⟩ := h _ _ rfl
      cases hv
      exact ht
    · cases he
  · cases he

/-- One generation after another, and none that is still to come. -/
theorem seen_sorted {pdr_id : Nat} {t₀ : Tuple} {h : List Event} (ha : AtEach (FindsCommitted pdr_id t₀) h) :
    (seen pdr_id h).Pairwise (fun t t' => t.generation ≤ t'.generation) ∧
    ∀ t ∈ seen pdr_id h, t.generation ≤ (committed t₀ h).generation := by
  induction h using List.reverseRecOn with
  | nil => exact ⟨.nil, nofun⟩
  | append_singleton h e ih =>
    obtain ⟨ha, he⟩ := atEach_snoc.mp ha
    obtain ⟨hp, hl⟩ := ih ha
    have hs : ∀ t ∈ seen pdr_id [e], t = committed t₀ h := he.seen
    rw [seen_append]
    refine ⟨List.pairwise_append.mpr ⟨hp, ?_, fun t ht t' ht' => ?_⟩, fun t ht => ?_⟩
    · refine List.pairwise_of_forall_mem_list fun t ht t' ht' => ?_
      rw [hs t ht, hs t' ht']
    · rw [hs t' ht']
      exact hl t ht
    · refine le_trans ?_ (generation_committed_le t₀ h [e])
      rcases List.mem_append.mp ht with ht | ht
      · exact hl t ht
      · rw [hs t ht]

theorem run_findsCommitted {pdr_id : Int} (hk : Fmt.I.fits pdr_id) {t₀ : Tuple} (hg : t₀.generation = 0)
    {maps : Maps} {cur : Bytes} (hl : maps.lookup .tc_bundle_map pdr_id.toNat = some cur)
    (ht : activeTuple cur = t₀) {ms : List Move} {S : Upf} (h : exec Upf.step (.start maps) ms = some S)
    (hm : ∀ mv ∈ ms, mv.Modifies pdr_id) (hn : (begun S.hist).length < 2 ^ 32) :
    AtEach (FindsCommitted pdr_id.toNat t₀) S.hist := by
  have hr := (run_lookups (m := .tc_bundle_map) rfl
    (A := fun pre k v => k = pdr_id.toNat → (begun pre).length < 2 ^ 32 →
      ∃ b, v = some b ∧ activeTuple b = committed t₀ pre)
    (P := fun _ mv => mv.Modifies pdr_id)
    (J := fun S => (begun S.hist).length < 2 ^ 32 → Committing pdr_id t₀ S)
    (fun {S mv S'} hp hi hs hn => ?_) (fun {S} hi k hk' hn => ?_) (along_of_forall (fun mv h' _ => hm mv h') _) h
    (fun _ => ⟨cur, [], hl, ht, .idle⟩) rfl).2
  · intro pre e post heq i r he
    subst he
    obtain ⟨v, hv, ha⟩ := hr pre _ post heq i _ r rfl
    rw [heq, begun_append, List.length_append] at hn
    obtain ⟨b, rfl, hb⟩ := ha rfl (by omega)
    exact ⟨b, hv, hb⟩
  · obtain ⟨t, ht⟩ := step_hist hs
    rw [ht, begun_append, List.length_append] at hn
    have hn : (begun S.hist).length < 2 ^ 32 := by omega
    exact step_committing hk hp (by rw [hg]; omega) hs (hi hn)
  · obtain ⟨cur, cs, hl, ht, hp⟩ := hi hn
    refine ⟨cur, hk' ▸ hl, ?_⟩
    rw [ht, committed, hp.take]

/-- Every packet finds what is committed when it looks, so that the tuples
found are of one generation after another, and reads nothing but what it found. -/
theorem reads_committed {s maps : Maps} {teid pdr_id qer_id far_id precedence urr_id : Int}
    (hi : after (install_session teid pdr_id qer_id far_id precedence urr_id) s = some maps) {ms : List Move}
    {S : Upf} (h : exec Upf.step (.start maps) ms = some S) (hm : ∀ mv ∈ ms, mv.Modifies pdr_id)
    (hn : (begun S.hist).length < 2 ^ 32) :
    AtEach (FindsCommitted pdr_id.toNat (newTuple far_id qer_id urr_id precedence)) S.hist ∧
    (seen pdr_id.toNat S.hist).Pairwise (fun t t' => t.generation ≤ t'.generation) ∧
    ∀ i, OneSnapshot (S.log i) := by
  obtain ⟨⟨⟩, hret⟩ := after_eq_some.mp hi
  obtain ⟨hf, -, rfl⟩ := install_session_returns hret
  have hc := run_findsCommitted hf.1 rfl (by rw [installed_bundle, if_pos rfl]) (activeTuple_zero hf.tuple _) h hm hn
  exact ⟨hc, (seen_sorted hc).1, run_oneSnapshot h⟩

/-- A packet between the two writes of a call, and one after them. -/
theorem reads_committed_flip : ∃ maps S, after (install_session 0x1000 1 0 1 32 0) .empty = some maps ∧
    exec Upf.step (.start maps) ([.arrive (.tc ⟨false, false, false⟩) willing 0 (gpduFrame 0x1000),
      .arrive (.tc ⟨false, false, false⟩) willing 0 (gpduFrame 0x1000),
      .call (.modify_tc_bundle 1 ⟨some 2, none, none, none⟩), .sys, .sys] ++ List.replicate 12 (.op 0) ++ [.sys] ++
      List.replicate 12 (.op 1)) = some S ∧
    seen 1 S.hist = [⟨1, 0, 0, 32, 0⟩, ⟨2, 0, 0, 32, 1⟩] ∧ ∀ i, OneSnapshot (S.log i) := by
  have h : ((after (install_session 0x1000 1 0 1 32 0) .empty).bind fun maps =>
      (exec Upf.step (.start maps) ([.arrive (.tc ⟨false, false, false⟩) willing 0 (gpduFrame 0x1000),
        .arrive (.tc ⟨false, false, false⟩) willing 0 (gpduFrame 0x1000),
        .call (.modify_tc_bundle 1 ⟨some 2, none, none, none⟩), .sys, .sys] ++ List.replicate 12 (.op 0) ++ [.sys] ++
        List.replicate 12 (.op 1))).map fun S => (seen 1 S.hist, (begun S.hist).length)) =
      some ([⟨1, 0, 0, 32, 0⟩, ⟨2, 0, 0, 32, 1⟩], 1) := by decide +kernel
  obtain ⟨maps, hi, h⟩ := Option.bind_eq_some_iff.mp h
  obtain ⟨S, hs, h⟩ := Option.map_eq_some_iff.mp h
  obtain ⟨hseen, hn⟩ := Prod.mk.inj h
  exact ⟨maps, S, hi, hs, hseen, (reads_committed hi hs (by simp [Move.Modifies]) (by rw [hn]; decide)).2.2⟩

end UPF
