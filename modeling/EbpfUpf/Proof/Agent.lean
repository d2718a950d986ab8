import EbpfUpf.Proof.Bundle
import EbpfUpf.Proof.Maps

/-!
# The agent's calls, step by step

Each function of the agent as the system calls it makes, in turn: what it
packs, and that it stops at a call that fails (`install_session_eq`,
`modify_tc_bundle_eq`, `remove_session_eq`, and so on). `Returns` is a call
that comes to its end, and the `returns_` lemmas are what it has done then.
-/

open Framework

namespace UPF

variable {α β : Type}

/-- An update, and `p` if it succeeds. -/
def updateThen (m : MapName) (key value : Bytes) (p : Agent α) : Agent α :=
  ExceptT.mk <| .ask (.update m key value) fun
    | .ok _ => p.run
    | .error e => .ret (.error (.OSError e))

/-- A delete, and `p` whether it succeeds or not. -/
def deleteThen (m : MapName) (key : Bytes) (p : Agent α) : Agent α :=
  ExceptT.mk <| .ask (.delete m key) fun _ => p.run

/-- A lookup, and `p` if it succeeds. -/
def lookupThen (m : MapName) (key : Bytes) (value_size : Nat) (p : Bytes → Agent α) : Agent α :=
  ExceptT.mk <| .ask (.lookup m key value_size) fun
    | .ok v => (p v).run
    | .error e => .ret (.error (.OSError e))

theorem ok_bind (a : α) (f : α → Agent β) : (liftM (Except.ok a : Except PyError α) >>= f : Agent β) = f a := rfl

theorem error_bind (e : PyError) (f : α → Agent β) :
    (liftM (Except.error e : Except PyError α) >>= f : Agent β) = throw e := rfl

theorem map_update_bind (m : MapName) (key value : Bytes) (f : Unit → Agent β) :
    (map_update m key value >>= f : Agent β) = updateThen m key value (f ()) := by
  refine congrArg (Prog.ask (I := SysOps) (Syscall.update m key value)) (funext fun r => ?_)
  cases r <;> rfl

theorem map_update_eq (m : MapName) (key value : Bytes) :
    map_update m key value = updateThen m key value (pure ()) := by
  refine congrArg (Prog.ask (I := SysOps) (Syscall.update m key value)) (funext fun r => ?_)
  cases r <;> rfl

theorem map_lookup_bind (m : MapName) (key : Bytes) (n : Nat) (f : Bytes → Agent β) :
    (map_lookup m key n >>= f : Agent β) = lookupThen m key n f := by
  refine congrArg (Prog.ask (I := SysOps) (Syscall.lookup m key n)) (funext fun r => ?_)
  cases r <;> rfl

theorem map_delete_bind (m : MapName) (key : Bytes) (f : Unit → Agent β) :
    (map_delete m key >>= f : Agent β) = deleteThen m key (f ()) := by
  refine congrArg (Prog.ask (I := SysOps) (Syscall.delete m key)) (funext fun r => ?_)
  cases r <;> rfl

theorem map_delete_eq (m : MapName) (key : Bytes) :
    map_delete m key = deleteThen m key (pure ()) := by
  refine congrArg (Prog.ask (I := SysOps) (Syscall.delete m key)) (funext fun r => ?_)
  cases r <;> rfl

/-! ## Encoders -/

/-- The four bytes of a `__u32` key. -/
def key (v : Int) : Bytes := toLE 4 v.toNat

theorem le_key {v : Int} (h : Fmt.I.fits v) : le (key v) = v.toNat := le_toLE_of_lt (toNat_lt h)

theorem enc_u32_ok {v : Int} (h : Fmt.I.fits v) : enc_u32 v = .ok (key v) :=
  pack_ok.mpr ⟨⟨h, trivial⟩, List.append_nil _⟩

theorem enc_u32_error {v : Int} (h : ¬ Fmt.I.fits v) : enc_u32 v = .error .struct_error :=
  pack_error fun hp => h hp.1

/-- The bytes of a `session_val`. -/
def sessionBytes (pdr_id qer_id far_id : Int) : Bytes :=
  layout [(4, pdr_id.toNat), (4, qer_id.toNat), (4, far_id.toNat), (4, 0)]

theorem pdr_sessionBytes {pdr_id qer_id far_id : Int} (h : Fmt.I.fits pdr_id) :
    (sessionBytes pdr_id qer_id far_id).get session_val.pdr_id 4 = pdr_id.toNat :=
  get_layout_at 0 rfl rfl (toNat_lt h)

/-- The bytes of a `pdr_val`. -/
def pdrBytes (far_id qer_id precedence urr_id : Int) : Bytes :=
  layout [(4, far_id.toNat), (4, qer_id.toNat), (4, precedence.toNat), (4, urr_id.toNat)]

/-- The tuple that a session is installed with. -/
def newTuple (far_id qer_id urr_id precedence : Int) : Tuple :=
  ⟨far_id.toNat, qer_id.toNat, urr_id.toNat, precedence.toNat, 0⟩

/-! ## Calls -/

/-- What `install_session` needs to fit, but for the TEID. -/
def SessionFits (pdr_id qer_id far_id precedence urr_id : Int) : Prop :=
  PackFits [(.I, pdr_id), (.I, far_id), (.I, qer_id), (.I, precedence), (.I, urr_id)]

instance (pdr_id qer_id far_id precedence urr_id : Int) :
    Decidable (SessionFits pdr_id qer_id far_id precedence urr_id) := instDecidablePackFits _

theorem SessionFits.tuple {pdr_id qer_id far_id precedence urr_id : Int}
    (h : SessionFits pdr_id qer_id far_id precedence urr_id) : (newTuple far_id qer_id urr_id precedence).Fits :=
  ⟨toNat_lt h.2.1, toNat_lt h.2.2.1, toNat_lt h.2.2.2.2.1, toNat_lt h.2.2.2.1, Nat.two_pow_pos 32⟩

/-- The three writes of `install_session`, the TEID's last. -/
def sessionWrites (teid pdr_id qer_id far_id precedence urr_id : Int) : Agent Unit :=
  updateThen .pdr_table (key pdr_id) (pdrBytes far_id qer_id precedence urr_id) <|
  updateThen .tc_bundle_map (key pdr_id)
    (bundle 0 (newTuple far_id qer_id urr_id precedence) (newTuple far_id qer_id urr_id precedence)) <|
  if Fmt.I.fits teid then
    updateThen .teid_session (key teid) (sessionBytes pdr_id qer_id far_id) (pure ())
  else throw .struct_error

theorem install_tc_bundle_bind {pdr_id qer_id far_id precedence urr_id : Int}
    (h : SessionFits pdr_id qer_id far_id precedence urr_id) (f : Unit → Agent α) :
    (install_tc_bundle pdr_id far_id qer_id urr_id precedence 0 >>= f : Agent α) =
      updateThen .tc_bundle_map (key pdr_id)
        (bundle 0 (newTuple far_id qer_id urr_id precedence) (newTuple far_id qer_id urr_id precedence)) (f ()) := by
  obtain ⟨hk, h1, h2, h3, h4, -⟩ := h
  have hs : enc_bundle_slot far_id qer_id urr_id precedence 0 =
      .ok (layout (newTuple far_id qer_id urr_id precedence).fields) :=
    pack_ok.mpr ⟨⟨h1, h2, h4, h3, by decide, by decide, trivial⟩, rfl⟩
  have hb := enc_bundle_ok (show 0 < 2 by decide) (newTuple far_id qer_id urr_id precedence)
    (newTuple far_id qer_id urr_id precedence)
  rw [Nat.cast_zero] at hb
  rw [install_tc_bundle, hs, ok_bind, enc_u32_ok hk, ok_bind, hb, ok_bind, map_update_bind]

theorem install_session_eq (teid pdr_id qer_id far_id precedence urr_id : Int) :
    install_session teid pdr_id qer_id far_id precedence urr_id =
      if SessionFits pdr_id qer_id far_id precedence urr_id then
        sessionWrites teid pdr_id qer_id far_id precedence urr_id
      else throw .struct_error := by
  rw [install_session, enc_pdr]
  by_cases h : SessionFits pdr_id qer_id far_id precedence urr_id
  · obtain ⟨hk, hv⟩ := id h
    have hs : enc_session pdr_id qer_id far_id = .ok (sessionBytes pdr_id qer_id far_id) :=
      pack_ok.mpr ⟨⟨hk, hv.2.1, hv.1, by decide, trivial⟩, rfl⟩
    rw [if_pos h, enc_u32_ok hk, ok_bind, pack_ok.mpr ⟨hv, rfl⟩, ok_bind, map_update_bind,
      install_tc_bundle_bind h]
    unfold sessionWrites
    by_cases ht : Fmt.I.fits teid
    · rw [if_pos ht, enc_u32_ok ht, ok_bind, hs, ok_bind, map_update_eq]
      rfl
    · rw [if_neg ht, enc_u32_error ht, error_bind]
      rfl
  · rw [if_neg h]
    by_cases hk : Fmt.I.fits pdr_id
    · rw [enc_u32_ok hk, ok_bind, pack_error fun hv => h ⟨hk, hv⟩, error_bind]
    · rw [enc_u32_error hk, error_bind]

/-- The deletes of `remove_session`, the TEID's first. -/
def sessionDeletes (teid pdr_id : Int) : Agent Unit :=
  deleteThen .teid_session (key teid) <|
  if Fmt.I.fits pdr_id then
    deleteThen .pdr_table (key pdr_id) <| deleteThen .tc_bundle_map (key pdr_id) (pure ())
  else throw .struct_error

theorem remove_session_eq (teid pdr_id : Int) : remove_session teid pdr_id =
    if Fmt.I.fits teid then sessionDeletes teid pdr_id else throw .struct_error := by
  rw [remove_session]
  by_cases ht : Fmt.I.fits teid
  · rw [if_pos ht, enc_u32_ok ht, ok_bind, map_delete_bind, sessionDeletes]
    by_cases hk : Fmt.I.fits pdr_id
    · rw [if_pos hk, enc_u32_ok hk, ok_bind, map_delete_bind, ok_bind, map_delete_eq]
    · rw [if_neg hk, enc_u32_error hk, error_bind]
  · rw [if_neg ht, enc_u32_error ht, error_bind]

/-- The two writes of `modify_tc_bundle` to a bundle that was found to be `raw`. -/
def bundleWrites (pdr_id : Int) (raw : Bytes) (c : Changes) : Agent Int :=
  updateThen .tc_bundle_map (key pdr_id) (staged raw c (activeSlot raw)) <|
  updateThen .tc_bundle_map (key pdr_id) (staged raw c (1 - activeSlot raw)) <|
  pure (((activeTuple raw).generation : Int) + 1)

theorem bundleWrites_eq {pdr_id : Int} (hk : Fmt.I.fits pdr_id) {raw : Bytes} {c : Changes} (h : Packs raw c) :
    (liftM (prep_slots raw c) >>= fun (active, slot0, slot1, new_gen) => do
      let inactive := 1 - active
      map_update .tc_bundle_map (← enc_u32 pdr_id) (← enc_bundle active slot0 slot1)
      map_update .tc_bundle_map (← enc_u32 pdr_id) (← enc_bundle inactive slot0 slot1)
      return new_gen : Agent Int) = bundleWrites pdr_id raw c := by
  obtain ⟨slot0, slot1, hp, hb⟩ := prep_slots_ok h
  rw [hp, ok_bind]
  dsimp only
  rw [enc_u32_ok hk, ok_bind, hb _ (activeSlot_lt raw), ok_bind, map_update_bind, ok_bind,
    hb _ (by omega), ok_bind, map_update_bind]
  rfl

theorem modify_tc_bundle_eq (pdr_id : Int) (c : Changes) : modify_tc_bundle pdr_id c =
    if Fmt.I.fits pdr_id then
      lookupThen .tc_bundle_map (key pdr_id) 56 fun raw =>
        if Packs raw c then bundleWrites pdr_id raw c else throw .struct_error
    else throw .struct_error := by
  rw [modify_tc_bundle]
  by_cases hk : Fmt.I.fits pdr_id
  · rw [if_pos hk, enc_u32_ok hk, ok_bind, map_lookup_bind]
    refine congrArg _ (funext fun raw => ?_)
    by_cases h : Packs raw c
    · rw [if_pos h, ← bundleWrites_eq hk h, enc_u32_ok hk]
    · rw [if_neg h, prep_slots_error h, error_bind]
  · rw [if_neg hk, enc_u32_error hk, error_bind]

/-! ## Calls that return -/

/-- The call comes to its end, with the answer `a` and the maps `s'`. -/
def Returns (p : Agent α) (s : Maps) (a : α) (s' : Maps) : Prop := Prog.run sys p.run s = some (.ok a, s')

theorem returns_pure {a b : α} {s s' : Maps} : Returns (pure a) s b s' ↔ a = b ∧ s = s' := by
  simp [Returns, ExceptT.run, pure, ExceptT.pure, ExceptT.mk]

theorem not_returns_throw {e : PyError} {a : α} {s s' : Maps} : ¬ Returns (throw e : Agent α) s a s' := by
  intro h
  cases h

theorem returns_ite {q : Prop} [Decidable q] {p : Agent α} {e : PyError} {s s' : Maps} {a : α} :
    Returns (if q then p else throw e) s a s' ↔ q ∧ Returns p s a s' := by
  by_cases h : q
  · simp [h]
  · simp [h, not_returns_throw]

theorem returns_lift {e : Except PyError α} {f : α → Agent β} {s s' : Maps} {b : β} :
    Returns (liftM e >>= f) s b s' ↔ ∃ a, e = .ok a ∧ Returns (f a) s b s' := by
  cases e with
  | error e => simp [error_bind, not_returns_throw]
  | ok a => simp [ok_bind]

theorem returns_update {m : MapName} {k v : Bytes} {p : Agent α} {s s' : Maps} {a : α} :
    Returns (updateThen m k v p) s a s' ↔ ∃ s₁, s.update m (le k) v = .ok s₁ ∧ Returns p s₁ a s' := by
  unfold Returns updateThen
  cases h : s.update m (le k) v with
  | error e => simp [ExceptT.run, ExceptT.mk, Prog.run, sys, h]
  | ok s₁ => simp [ExceptT.run, ExceptT.mk, Prog.run, sys, h]

theorem returns_lookup {m : MapName} {k : Bytes} {n : Nat} {p : Bytes → Agent α} {s s' : Maps} {a : α} :
    Returns (lookupThen m k n p) s a s' ↔ ∃ v, s.lookup m (le k) = some v ∧ Returns (p v) s a s' := by
  unfold Returns lookupThen
  cases h : s.lookup m (le k) with
  | none => simp [ExceptT.run, ExceptT.mk, Prog.run, sys, h]
  | some v => simp [ExceptT.run, ExceptT.mk, Prog.run, sys, h]

/-- The maps after a delete, whether or not there was something to delete. -/
def deleted (m : MapName) (k : Nat) (s : Maps) : Maps :=
  match s.delete m k with
  | .ok s' => s'
  | .error _ => s

theorem returns_delete {m : MapName} {k : Bytes} {p : Agent α} {s s' : Maps} {a : α} :
    Returns (deleteThen m k p) s a s' ↔ Returns p (deleted m (le k) s) a s' := by
  unfold Returns deleteThen deleted
  cases h : s.delete m (le k) with
  | error e => simp [ExceptT.run, ExceptT.mk, Prog.run, sys, h]
  | ok s₁ => simp [ExceptT.run, ExceptT.mk, Prog.run, sys, h]

theorem returns_discard {p : Agent α} {s s' : Maps} (h : Returns (do let _ ← p : Agent Unit) s () s') :
    ∃ a, Returns p s a s' := by
  rw [Returns, ExceptT.run_bind, Prog.run_bind] at h
  unfold Returns
  cases hp : Prog.run sys p.run s with
  | none => simp [hp] at h
  | some x =>
    obtain ⟨_ | a, s₁⟩ := x
    · simp [hp] at h
    · simp only [hp, Option.bind_some, ExceptT.run_pure, Prog.pure_eq, Prog.run_ret, Option.some.injEq,
        Prod.mk.injEq, true_and] at h
      exact ⟨a, by rw [h]⟩

theorem after_eq_some {p : Agent α} {s s' : Maps} : after p s = some s' ↔ ∃ a, Returns p s a s' := by
  unfold after Returns
  split
  · next h => simp [ExceptT.run, h]
  · next h =>
    simp only [reduceCtorEq, false_iff, not_exists]
    exact fun a ha => h _ _ ha

theorem lookup_deleted_self {m : MapName} (hm : Maps.Hash m) (k : Nat) (s : Maps) :
    (deleted m k s).lookup m k = none := by
  unfold deleted
  cases h : s.delete m k with
  | ok s' =>
    obtain ⟨rfl, -⟩ := Maps.delete_ok h
    exact Maps.lookup_drop_hash hm k
  | error e => exact Maps.delete_error hm h

theorem lookup_deleted_ne {m m' : MapName} {k k' : Nat} (h : m' ≠ m ∨ k' ≠ k) (s : Maps) :
    (deleted m k s).lookup m' k' = s.lookup m' k' := by
  unfold deleted
  cases hd : s.delete m k with
  | ok s' =>
    obtain ⟨rfl, -⟩ := Maps.delete_ok hd
    exact Maps.lookup_drop_ne h
  | error e => rfl

section Returns

variable {s s' : Maps}

theorem returns_u32 {v : Int} {f : Bytes → Agent β} {b : β} :
    Returns (liftM (enc_u32 v) >>= f) s b s' ↔ Fmt.I.fits v ∧ Returns (f (key v)) s b s' := by
  rw [returns_lift]
  by_cases h : Fmt.I.fits v
  · simp [enc_u32_ok h, h]
  · simp [enc_u32_error h, h]

theorem pack_teid {teid : Int} (h : Fmt.I.fits teid) : pack [(.I, teid)] = .ok (toLE 4 teid.toNat) :=
  pack_ok.mpr ⟨⟨h, trivial⟩, List.append_nil _⟩

theorem returns_pack {fs : List (Fmt × Int)} {f : Bytes → Agent β} {b : β} :
    Returns (liftM (pack fs) >>= f) s b s' ↔ PackFits fs ∧ Returns (f (layout (packFields fs))) s b s' := by
  rw [returns_lift]
  by_cases h : PackFits fs
  · simp [pack_ok.mpr ⟨h, rfl⟩, h]
  · simp [pack_error h, h]

/-- An update as the last step of a call. -/
theorem returns_map_update {m : MapName} {k v : Bytes} (h : Returns (map_update m k v) s () s') :
    s' = s.put m (le k) v ∧ (m.type = .ARRAY → le k < m.max_entries) := by
  rw [map_update_eq, returns_update] at h
  obtain ⟨s₁, hu, hp⟩ := h
  obtain ⟨-, rfl⟩ := returns_pure.mp hp
  obtain ⟨rfl, hk, -⟩ := Maps.update_ok hu
  exact ⟨rfl, hk⟩

/-- The bytes of a `far_val`. -/
def farBytes (action out_ifindex peer_ipv4_be out_teid_be : Int) : Bytes :=
  layout [(4, action.toNat), (4, out_ifindex.toNat), (4, peer_ipv4_be.toNat), (4, out_teid_be.toNat)]

/-- The bytes of a `qer_val`. -/
def qerBytes (mbr_ul_bps mbr_dl_bps burst_bytes : Int) : Bytes :=
  layout [(8, mbr_ul_bps.toNat), (8, mbr_dl_bps.toNat), (4, burst_bytes.toNat), (4, 0)]

/-- The bytes of a `dl_ue_val`. -/
def dlUeBytes (teid : Int) (gnb_be : Bytes) (qfi : Int) : Bytes :=
  (toLE 4 teid.toNat).reverse ++ gnb_be ++ layout [(2, qfi.toNat), (2, 0)]

theorem install_far_returns {far_id action out_ifindex peer_ipv4_be out_teid_be : Int}
    (h : Returns (install_far far_id action out_ifindex peer_ipv4_be out_teid_be) s () s') :
    PackFits [(.I, far_id), (.I, action), (.I, out_ifindex), (.I, peer_ipv4_be), (.I, out_teid_be)] ∧
    far_id.toNat < MAX_FARS ∧
    s' = s.put .far_table far_id.toNat (farBytes action out_ifindex peer_ipv4_be out_teid_be) := by
  rw [install_far, returns_u32, enc_far, returns_pack] at h
  obtain ⟨hk, hv, h⟩ := h
  obtain ⟨rfl, hl⟩ := returns_map_update h
  rw [le_key hk] at hl ⊢
  exact ⟨⟨hk, hv⟩, hl rfl, rfl⟩

theorem install_qer_returns {qer_id mbr_ul_bps mbr_dl_bps burst_bytes : Int}
    (h : Returns (install_qer qer_id mbr_ul_bps mbr_dl_bps burst_bytes) s () s') :
    PackFits [(.I, qer_id), (.Q, mbr_ul_bps), (.Q, mbr_dl_bps), (.I, burst_bytes)] ∧
    qer_id.toNat < MAX_QERS ∧
    s' = s.put .qer_table qer_id.toNat (qerBytes mbr_ul_bps mbr_dl_bps burst_bytes) := by
  rw [install_qer, returns_u32, enc_qer, returns_pack] at h
  obtain ⟨hk, ⟨h1, h2, h3, -⟩, h⟩ := h
  obtain ⟨rfl, hl⟩ := returns_map_update h
  rw [le_key hk] at hl ⊢
  exact ⟨⟨hk, h1, h2, h3, trivial⟩, hl rfl, rfl⟩

theorem install_dl_ue_returns {ue_ip gnb_ip : Dotted} {teid qfi : Int}
    (h : Returns (install_dl_ue ue_ip teid gnb_ip qfi) s () s') : ∃ ue gnb,
    inet_aton ue_ip = .ok ue ∧ inet_aton gnb_ip = .ok gnb ∧ Fmt.I.fits teid ∧ Fmt.H.fits qfi ∧
    s' = s.put .dl_ue_map (le ue) (dlUeBytes teid gnb qfi) := by
  rw [install_dl_ue, returns_lift] at h
  obtain ⟨ue, hu, h⟩ := h
  obtain ⟨teid_be, ht, h⟩ := returns_lift.mp h
  obtain ⟨gnb, hg, h⟩ := returns_lift.mp h
  obtain ⟨⟨hq, -⟩, h⟩ := returns_pack.mp h
  have hf : Fmt.I.fits teid ∧ teid_be = (toLE 4 teid.toNat).reverse := by
    rw [pack_be] at ht
    by_cases hf : Fmt.I.fits teid
    · rw [pack_teid hf] at ht
      exact ⟨hf, (Except.ok.inj ht).symm⟩
    · rw [pack_error fun hp : PackFits [(.I, teid)] => hf hp.1] at ht
      cases ht
  obtain ⟨hf, rfl⟩ := hf
  exact ⟨ue, gnb, hu, hg, hf, hq, (returns_map_update h).1⟩

theorem install_upf_config_returns {n3_addr : Dotted} (h : Returns (install_upf_config n3_addr) s () s') :
    ∃ n3, inet_aton n3_addr = .ok n3 ∧ s' = s.put .upf_config_map 0 n3 := by
  rw [install_upf_config, returns_u32] at h
  obtain ⟨n3, hn, h⟩ := returns_lift.mp h.2
  exact ⟨n3, hn, (returns_map_update h).1⟩

/-- The maps after the three writes of `install_session`. -/
def installed (s : Maps) (teid pdr_id qer_id far_id precedence urr_id : Int) : Maps :=
  let t := newTuple far_id qer_id urr_id precedence
  ((s.put .pdr_table pdr_id.toNat (pdrBytes far_id qer_id precedence urr_id)).put .tc_bundle_map pdr_id.toNat
    (bundle 0 t t)).put .teid_session teid.toNat (sessionBytes pdr_id qer_id far_id)

theorem install_session_returns {teid pdr_id qer_id far_id precedence urr_id : Int}
    (h : Returns (install_session teid pdr_id qer_id far_id precedence urr_id) s () s') :
    SessionFits pdr_id qer_id far_id precedence urr_id ∧ Fmt.I.fits teid ∧
    s' = installed s teid pdr_id qer_id far_id precedence urr_id := by
  rw [install_session_eq, returns_ite, sessionWrites, returns_update] at h
  obtain ⟨hf, s₁, h₁, h⟩ := h
  obtain ⟨s₂, h₂, h⟩ := returns_update.mp h
  obtain ⟨ht, h⟩ := returns_ite.mp h
  obtain ⟨s₃, h₃, h⟩ := returns_update.mp h
  obtain ⟨-, rfl⟩ := returns_pure.mp h
  rw [le_key hf.1] at h₁ h₂
  rw [le_key ht] at h₃
  obtain ⟨rfl, -⟩ := Maps.update_ok h₁
  obtain ⟨rfl, -⟩ := Maps.update_ok h₂
  obtain ⟨rfl, -⟩ := Maps.update_ok h₃
  exact ⟨hf, ht, rfl⟩

/-- The maps after `modify_tc_bundle` of a bundle that was `raw`. -/
def modified (s : Maps) (pdr_id : Int) (raw : Bytes) (c : Changes) : Maps :=
  (s.put .tc_bundle_map pdr_id.toNat (staged raw c (activeSlot raw))).put .tc_bundle_map pdr_id.toNat
    (staged raw c (1 - activeSlot raw))

theorem modify_tc_bundle_returns {pdr_id : Int} {c : Changes} {a : Int}
    (h : Returns (modify_tc_bundle pdr_id c) s a s') :
    Fmt.I.fits pdr_id ∧ ∃ raw, s.lookup .tc_bundle_map pdr_id.toNat = some raw ∧ Packs raw c ∧
    a = (activeTuple raw).generation + 1 ∧ s' = modified s pdr_id raw c := by
  rw [modify_tc_bundle_eq, returns_ite, returns_lookup] at h
  obtain ⟨hk, raw, hr, h⟩ := h
  obtain ⟨hc, h⟩ := returns_ite.mp h
  obtain ⟨s₁, h₁, h⟩ := returns_update.mp h
  obtain ⟨s₂, h₂, h⟩ := returns_update.mp h
  obtain ⟨ha, rfl⟩ := returns_pure.mp h
  rw [le_key hk] at hr h₁ h₂
  obtain ⟨rfl, -⟩ := Maps.update_ok h₁
  obtain ⟨rfl, -⟩ := Maps.update_ok h₂
  exact ⟨hk, raw, hr, hc, ha.symm, rfl⟩

/-- The maps after the deletes of `remove_session`. -/
def removed (s : Maps) (teid pdr_id : Int) : Maps :=
  deleted .tc_bundle_map pdr_id.toNat (deleted .pdr_table pdr_id.toNat (deleted .teid_session teid.toNat s))

theorem remove_session_returns {teid pdr_id : Int} (h : Returns (remove_session teid pdr_id) s () s') :
    Fmt.I.fits teid ∧ Fmt.I.fits pdr_id ∧ s' = removed s teid pdr_id := by
  rw [remove_session_eq, returns_ite, sessionDeletes, returns_delete] at h
  obtain ⟨ht, h⟩ := h
  obtain ⟨hk, h⟩ := returns_ite.mp h
  rw [returns_delete, returns_delete, le_key ht, le_key hk] at h
  obtain ⟨-, rfl⟩ := returns_pure.mp h
  exact ⟨ht, hk, rfl⟩

/-! ## Lookups after a call -/

theorem lookup_put {m : MapName} (hm : Maps.Hash m) (s : Maps) (k k' : Nat) (v : Bytes) :
    (s.put m k v).lookup m k' = if k' = k then some v else s.lookup m k' := by
  split
  · next h =>
    subst h
    exact Maps.lookup_put_hash hm _ v
  · next h => exact Maps.lookup_put_ne (.inr h)

theorem lookup_deleted {m : MapName} (hm : Maps.Hash m) (s : Maps) (k k' : Nat) :
    (deleted m k s).lookup m k' = if k' = k then none else s.lookup m k' := by
  split
  · next h =>
    subst h
    exact lookup_deleted_self hm _ s
  · next h => exact lookup_deleted_ne (.inr h) s

theorem lookup_put_map {m m' : MapName} (h : m' ≠ m) (s : Maps) (k k' : Nat) (v : Bytes) :
    (s.put m k v).lookup m' k' = s.lookup m' k' := Maps.lookup_put_ne (.inl h)

theorem lookup_deleted_map {m m' : MapName} (h : m' ≠ m) (s : Maps) (k k' : Nat) :
    (deleted m k s).lookup m' k' = s.lookup m' k' := lookup_deleted_ne (.inl h) s

variable (teid pdr_id qer_id far_id precedence urr_id : Int) (k : Nat)

theorem installed_session :
    (installed s teid pdr_id qer_id far_id precedence urr_id).lookup .teid_session k =
      if k = teid.toNat then some (sessionBytes pdr_id qer_id far_id) else s.lookup .teid_session k := by
  rw [installed, lookup_put (.inr rfl), lookup_put_map (by decide), lookup_put_map (by decide)]

theorem installed_pdr :
    (installed s teid pdr_id qer_id far_id precedence urr_id).lookup .pdr_table k =
      if k = pdr_id.toNat then some (pdrBytes far_id qer_id precedence urr_id) else s.lookup .pdr_table k := by
  rw [installed, lookup_put_map (by decide), lookup_put_map (by decide), lookup_put (.inl rfl)]

theorem installed_bundle :
    (installed s teid pdr_id qer_id far_id precedence urr_id).lookup .tc_bundle_map k =
      if k = pdr_id.toNat then some (bundle 0 (newTuple far_id qer_id urr_id precedence)
        (newTuple far_id qer_id urr_id precedence)) else s.lookup .tc_bundle_map k := by
  rw [installed, lookup_put_map (by decide), lookup_put (.inl rfl), lookup_put_map (by decide)]

theorem installed_other {m : MapName} (h : m ∉ [.teid_session, .pdr_table, .tc_bundle_map]) :
    (installed s teid pdr_id qer_id far_id precedence urr_id).lookup m k = s.lookup m k := by
  simp only [List.mem_cons, List.not_mem_nil, or_false, not_or] at h
  rw [installed, lookup_put_map h.1, lookup_put_map h.2.2, lookup_put_map h.2.1]

theorem modified_bundle (raw : Bytes) (c : Changes) : (modified s pdr_id raw c).lookup .tc_bundle_map k =
    if k = pdr_id.toNat then some (staged raw c (1 - activeSlot raw)) else s.lookup .tc_bundle_map k := by
  rw [modified, lookup_put (.inl rfl), lookup_put (.inl rfl)]
  split <;> rfl

theorem modified_other {m : MapName} (h : m ≠ .tc_bundle_map) (raw : Bytes) (c : Changes) :
    (modified s pdr_id raw c).lookup m k = s.lookup m k := by
  rw [modified, lookup_put_map h, lookup_put_map h]

theorem removed_pdr : (removed s teid pdr_id).lookup .pdr_table k =
    if k = pdr_id.toNat then none else s.lookup .pdr_table k := by
  rw [removed, lookup_deleted_map (by decide), lookup_deleted (.inl rfl), lookup_deleted_map (by decide)]

theorem removed_bundle : (removed s teid pdr_id).lookup .tc_bundle_map k =
    if k = pdr_id.toNat then none else s.lookup .tc_bundle_map k := by
  rw [removed, lookup_deleted (.inl rfl), lookup_deleted_map (by decide), lookup_deleted_map (by decide)]

theorem removed_other {m : MapName} (h : m ∉ [.teid_session, .pdr_table, .tc_bundle_map]) :
    (removed s teid pdr_id).lookup m k = s.lookup m k := by
  simp only [List.mem_cons, List.not_mem_nil, or_false, not_or] at h
  rw [removed, lookup_deleted_map h.2.2, lookup_deleted_map h.2.1, lookup_deleted_map h.1]

end Returns

end UPF
