import EbpfUpf.Proof.Agent
import EbpfUpf.Proof.System

/-!
# Referential integrity

Every session that can be found has its PDR and its bundle, between any two
writes of any call, and wherever a call is cut short (`Referential`). It rests
on the order of the writes: a TEID is written last and deleted first. `live`
are the sessions whose installation is complete and whose removal has not
begun; a session stays live through whatever else the agent does, provided
that it does not pair its PDR with another TEID (`Disciplined`).
-/

open Framework

namespace UPF

/-- Each session's PDR is in `pdr_table` and in `tc_bundle_map`. -/
def Referential (s : Maps) : Prop :=
  ∀ teid pdr_id, pdrOf s teid = some pdr_id →
    s.lookup .pdr_table pdr_id ≠ none ∧ s.lookup .tc_bundle_map pdr_id ≠ none

def liveStep (L : Nat → Option Nat) : Event → Nat → Option Nat
  | .done (.install_session teid pdr_id _ _ _ _) (.ok _) => Function.update L teid.toNat (some pdr_id.toNat)
  | .call (.remove_session teid _) => Function.update L teid.toNat none
  | _ => L

/-- The sessions that are installed, and not yet to be removed. -/
def live (h : List Event) : Nat → Option Nat := h.foldl liveStep fun _ => none

def goneStep (G : Nat → Bool) : Event → Nat → Bool
  | .done (.remove_session teid _) (.ok _) => Function.update G teid.toNat true
  | .call (.install_session teid _ _ _ _ _) => Function.update G teid.toNat false
  | _ => G

/-- The sessions that are removed, and not yet to be installed again. -/
def gone (h : List Event) : Nat → Bool := h.foldl goneStep fun _ => false

/-- No other TEID has the PDR, and the TEID has no other PDR. -/
def Paired (s : Maps) (teid pdr_id : Nat) : Prop :=
  (∀ k, pdrOf s k = some pdr_id → k = teid) ∧ ∀ p, pdrOf s teid = some p → p = pdr_id

/-- A session is installed and removed with a PDR of its own, and is not evicted. -/
def Disciplined (S : Upf) : Move → Prop
  | .call (.install_session teid pdr_id _ _ _ _) | .call (.remove_session teid pdr_id) =>
    Paired S.maps teid.toNat pdr_id.toNat
  | .evict _ => False
  | _ => True

/-- What holds between any two operations, with the sessions `L` live and `G` gone. -/
structure Sound (L : Nat → Option Nat) (G : Nat → Bool) (s : Maps) : Prop where
  ref : Referential s
  live : ∀ teid pdr_id, L teid = some pdr_id → pdrOf s teid = some pdr_id
  gone : ∀ teid, G teid = true → pdrOf s teid = none

/-- The same sessions, PDRs and bundles. -/
def SameRules (s s' : Maps) : Prop :=
  ∀ m ∈ [MapName.teid_session, .pdr_table, .tc_bundle_map], ∀ k, s'.lookup m k = s.lookup m k

namespace SameRules

variable {s s' s'' : Maps}

theorem refl (s : Maps) : SameRules s s := fun _ _ _ => rfl

theorem trans (h : SameRules s s') (h' : SameRules s' s'') : SameRules s s'' :=
  fun m hm k => (h' m hm k).trans (h m hm k)

theorem session (h : SameRules s s') (k : Nat) : pdrOf s' k = pdrOf s k := by
  rw [pdrOf, pdrOf, h .teid_session (by simp)]

theorem pdr (h : SameRules s s') (k : Nat) : s'.lookup .pdr_table k = s.lookup .pdr_table k := h _ (by simp) k

theorem bundle (h : SameRules s s') (k : Nat) : s'.lookup .tc_bundle_map k = s.lookup .tc_bundle_map k :=
  h _ (by simp) k

end SameRules

variable {L : Nat → Option Nat} {G : Nat → Bool} {s s' : Maps}

theorem Sound.congr (h : Sound L G s) (he : SameRules s s') : Sound L G s' := by
  refine ⟨fun teid pdr_id hp => ?_, fun teid pdr_id hl => ?_, fun teid hg => ?_⟩
  · rw [he.session] at hp
    rw [he.pdr, he.bundle]
    exact h.ref teid pdr_id hp
  · rw [he.session, h.live teid pdr_id hl]
  · rw [he.session, h.gone teid hg]

/-! ## Writes -/

theorem pdrOf_put {m : MapName} (hm : m ≠ .teid_session) (k k' : Nat) (v : Bytes) :
    pdrOf (s.put m k v) k' = pdrOf s k' := by
  rw [pdrOf, pdrOf, lookup_put_map hm.symm]

theorem lookup_put_ne_none {m m' : MapName} (hm : Maps.Hash m) {k k' : Nat} {v : Bytes} (h : s.lookup m k' ≠ none) :
    (s.put m' k v).lookup m k' ≠ none := by
  by_cases e : m = m'
  · subst e
    rw [lookup_put hm]
    split
    · simp
    · exact h
  · rwa [lookup_put_map e]

/-- A write other than to the sessions leaves none without its PDR. -/
theorem Sound.put (h : Sound L G s) {m : MapName} (hm : m ≠ .teid_session) (k : Nat) (v : Bytes) :
    Sound L G (s.put m k v) := by
  refine ⟨fun teid pdr_id hp => ?_, fun teid pdr_id hl => ?_, fun teid hg => ?_⟩
  · rw [pdrOf_put hm] at hp
    obtain ⟨h₁, h₂⟩ := h.ref teid pdr_id hp
    exact ⟨lookup_put_ne_none (.inl rfl) h₁, lookup_put_ne_none (.inl rfl) h₂⟩
  · rw [pdrOf_put hm, h.live teid pdr_id hl]
  · rw [pdrOf_put hm, h.gone teid hg]

theorem pdrOf_put_session (teid k : Nat) (sess : Bytes) : pdrOf (s.put .teid_session teid sess) k =
    if k = teid then some (sess.get session_val.pdr_id 4) else pdrOf s k := by
  rw [pdrOf, lookup_put (.inr rfl)]
  split <;> rfl

/-- A session may be written when its PDR is there. -/
theorem Sound.put_session (h : Sound L G s) {teid pdr_id : Nat} {sess : Bytes}
    (hs : sess.get session_val.pdr_id 4 = pdr_id) (hL : ∀ p, L teid = some p → p = pdr_id) (hG : G teid = false)
    (hp : s.lookup .pdr_table pdr_id ≠ none) (hb : s.lookup .tc_bundle_map pdr_id ≠ none) :
    Sound L G (s.put .teid_session teid sess) := by
  refine ⟨fun k p hk => ?_, fun k p hl => ?_, fun k hg => ?_⟩
  · rw [lookup_put_map (by decide), lookup_put_map (by decide)]
    rw [pdrOf_put_session, hs] at hk
    split at hk
    · cases hk
      exact ⟨hp, hb⟩
    · exact h.ref k p hk
  · rw [pdrOf_put_session, hs]
    split
    · next e =>
      subst e
      rw [hL p hl]
    · exact h.live k p hl
  · rw [pdrOf_put_session]
    split
    · next e =>
      rw [e, hG] at hg
      cases hg
    · exact h.gone k hg

theorem pdrOf_deleted {m : MapName} (hm : m ≠ .teid_session) (k k' : Nat) :
    pdrOf (deleted m k s) k' = pdrOf s k' := by
  rw [pdrOf, pdrOf, lookup_deleted_map hm.symm]

theorem pdrOf_deleted_session (teid k : Nat) : pdrOf (deleted .teid_session teid s) k =
    if k = teid then none else pdrOf s k := by
  rw [pdrOf, lookup_deleted (.inr rfl)]
  split <;> rfl

theorem Sound.delete_session (h : Sound L G s) {teid : Nat} (hL : L teid = none) :
    Sound L G (deleted .teid_session teid s) := by
  refine ⟨fun k p hk => ?_, fun k p hl => ?_, fun k hg => ?_⟩
  · rw [lookup_deleted_map (by decide), lookup_deleted_map (by decide)]
    rw [pdrOf_deleted_session] at hk
    split at hk
    · cases hk
    · exact h.ref k p hk
  · rw [pdrOf_deleted_session]
    split
    · next e =>
      rw [e, hL] at hl
      cases hl
    · exact h.live k p hl
  · rw [pdrOf_deleted_session]
    split
    · rfl
    · exact h.gone k hg

/-- A PDR may go when no session has it. -/
theorem Sound.delete_pdr (h : Sound L G s) {m : MapName} (hm : m ≠ .teid_session) {pdr_id : Nat}
    (hn : ∀ k, pdrOf s k ≠ some pdr_id) : Sound L G (deleted m pdr_id s) := by
  refine ⟨fun k p hk => ?_, fun k p hl => ?_, fun k hg => ?_⟩
  · rw [pdrOf_deleted hm] at hk
    have hne : p ≠ pdr_id := fun e => hn k (e ▸ hk)
    rw [lookup_deleted_ne (.inr hne), lookup_deleted_ne (.inr hne)]
    exact h.ref k p hk
  · rw [pdrOf_deleted hm, h.live k p hl]
  · rw [pdrOf_deleted hm, h.gone k hg]

/-! ## Calls -/

/-- What a call that came to its end has done. -/
def Command.Effect (s : Maps) : Command → Prop
  | install_session teid pdr_id _ _ _ _ => pdrOf s teid.toNat = some pdr_id.toNat
  | remove_session teid _ => pdrOf s teid.toNat = none
  | _ => True

theorem Command.Effect.congr {c : Command} (h : c.Effect s) (he : SameRules s s') : c.Effect s' := by
  cases c with
  | install_session => exact (he.session _).trans h
  | remove_session => exact (he.session _).trans h
  | _ => trivial

/-- A call among packets, which leave the rules alone: the maps are sound after
each of its operations, and at the end it has done what it is for. -/
abbrev Safe (L : Nat → Option Nat) (G : Nat → Bool) (c : Command) (l : Log SysOps)
    (p : Prog SysOps (Except PyError Unit)) (s : Maps) : Prop :=
  Amid sys SameRules (fun _ _ s => Sound L G s) (fun _ r s => r = .ok () → c.Effect s) l p s

variable {c : Command} {l : Log SysOps}

theorem safe_throw (e : PyError) : Safe L G c l (throw e : Agent Unit).run s := nofun

theorem safe_pure (h : c.Effect s) : Safe L G c l (pure () : Agent Unit).run s := fun _ he _ => h.congr he

theorem safe_update {m : MapName} {k v : Bytes} {p : Agent Unit} (hs : Sound L G s)
    (hw : ∀ s', SameRules s s' → Sound L G (s'.put m (le k) v))
    (hp : ∀ s' l, SameRules s s' → Safe L G c l p.run (s'.put m (le k) v)) :
    Safe L G c l (updateThen m k v p).run s := by
  intro s' he
  cases hu : s'.update m (le k) v with
  | ok s'' =>
    obtain ⟨rfl, -⟩ := Maps.update_ok hu
    exact ⟨.ok [], _, by rw [sys, hu], hw s' he, hp s' _ he⟩
  | error e => exact ⟨.error e, s', by rw [sys, hu], hs.congr he, safe_throw _⟩

theorem sys_delete (m : MapName) (k : Bytes) (s : Maps) : ∃ r, sys (.delete m k) s = some (r, deleted m (le k) s) := by
  unfold deleted
  cases hd : s.delete m (le k) with
  | ok s' => exact ⟨.ok [], by rw [sys, hd]⟩
  | error e => exact ⟨.error e, by rw [sys, hd]⟩

theorem safe_delete {m : MapName} {k : Bytes} {p : Agent Unit}
    (hw : ∀ s', SameRules s s' → Sound L G (deleted m (le k) s'))
    (hp : ∀ s' l, SameRules s s' → Safe L G c l p.run (deleted m (le k) s')) :
    Safe L G c l (deleteThen m k p).run s := by
  intro s' he
  obtain ⟨r, hr⟩ := sys_delete m k s'
  exact ⟨r, _, hr, hw s' he, hp s' _ he⟩

/-- A PDR that no session has is deleted, and no session changes. -/
theorem safe_delete_pdr {m : MapName} (hm : m ≠ .teid_session) {k : Bytes} {p : Agent Unit} (hs : Sound L G s)
    (hn : ∀ teid, pdrOf s teid ≠ some (le k))
    (hp : ∀ s' l, Sound L G s' → (∀ teid, pdrOf s' teid = pdrOf s teid) → Safe L G c l p.run s') :
    Safe L G c l (deleteThen m k p).run s := by
  have hw : ∀ s', SameRules s s' → Sound L G (deleted m (le k) s') := fun s' he =>
    (hs.congr he).delete_pdr hm fun teid => by rw [he.session]; exact hn teid
  exact safe_delete hw fun s' l he => hp _ l (hw s' he) fun teid => by rw [pdrOf_deleted hm, he.session]

/-- The PDR and its bundle come before the session. -/
theorem install_session_safe {teid pdr_id qer_id far_id precedence urr_id : Int} (hs : Sound L G s)
    (hL : ∀ p, L teid.toNat = some p → p = pdr_id.toNat) (hG : G teid.toNat = false) :
    Safe L G (.install_session teid pdr_id qer_id far_id precedence urr_id) l
      (install_session teid pdr_id qer_id far_id precedence urr_id).run s := by
  rw [install_session_eq]
  split
  · next hf =>
    have hk := le_key hf.1
    refine safe_update hs (fun s₁ h₁ => (hs.congr h₁).put (by decide) _ _) fun s₁ l h₁ => ?_
    have hs₁ := (hs.congr h₁).put (m := .pdr_table) (by decide) (le (key pdr_id))
      (pdrBytes far_id qer_id precedence urr_id)
    have hp₁ : (s₁.put .pdr_table (le (key pdr_id)) (pdrBytes far_id qer_id precedence urr_id)).lookup
        .pdr_table pdr_id.toNat ≠ none := by
      rw [hk, lookup_put (.inl rfl), if_pos rfl]
      simp
    generalize s₁.put .pdr_table _ _ = s₁' at hs₁ hp₁ ⊢
    refine safe_update hs₁ (fun s₂ h₂ => (hs₁.congr h₂).put (by decide) _ _) fun s₂ l h₂ => ?_
    generalize bundle _ _ _ = b
    have hs₂ := (hs₁.congr h₂).put (m := .tc_bundle_map) (by decide) (le (key pdr_id)) b
    have hp₂ : (s₂.put .tc_bundle_map (le (key pdr_id)) b).lookup .pdr_table pdr_id.toNat ≠ none :=
      lookup_put_ne_none (.inl rfl) (by rwa [h₂.pdr])
    have hb₂ : (s₂.put .tc_bundle_map (le (key pdr_id)) b).lookup .tc_bundle_map pdr_id.toNat ≠ none := by
      rw [hk, lookup_put (.inl rfl), if_pos rfl]
      simp
    generalize s₂.put .tc_bundle_map _ _ = s₂' at hs₂ hp₂ hb₂ ⊢
    split
    · next ht =>
      refine safe_update hs₂ (fun s₃ h₃ => ?_) fun s₃ l h₃ => safe_pure ?_
      · rw [le_key ht]
        exact (hs₂.congr h₃).put_session (pdr_sessionBytes hf.1) hL hG (by rwa [h₃.pdr]) (by rwa [h₃.bundle])
      · rw [le_key ht, Command.Effect, pdrOf_put_session, if_pos rfl, pdr_sessionBytes hf.1]
    · exact safe_throw _
  · exact safe_throw _

/-- The session goes before the PDR and its bundle. -/
theorem remove_session_safe {teid pdr_id : Int} (hs : Sound L G s) (hL : L teid.toNat = none)
    (hd : ∀ k, pdrOf s k = some pdr_id.toNat → k = teid.toNat) :
    Safe L G (.remove_session teid pdr_id) l (remove_session teid pdr_id).run s := by
  rw [remove_session_eq]
  split
  · next ht =>
    rw [sessionDeletes]
    refine safe_delete (fun s₁ h₁ => ?_) fun s₁ l h₁ => ?_
    · rw [le_key ht]
      exact (hs.congr h₁).delete_session hL
    rw [le_key ht]
    have hs₁ := (hs.congr h₁).delete_session hL
    have hn₁ : ∀ k, pdrOf (deleted .teid_session teid.toNat s₁) k ≠ some pdr_id.toNat := by
      intro k hk
      rw [pdrOf_deleted_session] at hk
      split at hk
      · cases hk
      · next hne =>
        rw [h₁.session] at hk
        exact hne (hd k hk)
    have he₁ : pdrOf (deleted .teid_session teid.toNat s₁) teid.toNat = none := by
      rw [pdrOf_deleted_session, if_pos rfl]
    generalize deleted .teid_session _ _ = s₁' at hs₁ hn₁ he₁ ⊢
    split
    · next hf =>
      rw [← le_key hf] at hn₁
      refine safe_delete_pdr (by decide) hs₁ hn₁ fun s₂ l hs₂ he₂ => ?_
      refine safe_delete_pdr (by decide) hs₂ (fun k => by rw [he₂]; exact hn₁ k) fun s₃ l hs₃ he₃ => safe_pure ?_
      rw [Command.Effect, he₃, he₂, he₁]
    · exact safe_throw _
  · exact safe_throw _

/-- The system calls of the other functions: they neither write nor delete a session. -/
def Harmless : Syscall → Prop
  | .update m _ _ => m ≠ .teid_session
  | .lookup .. => True
  | .delete .. => False

theorem safe_harmless {p : Prog SysOps (Except PyError Unit)} (hp : p.Asks Harmless) (hs : Sound L G s)
    (hc : ∀ s, c.Effect s) : Safe L G c l p s := by
  refine .of_asks hp (J := Sound L G) (fun he h => h.congr he) (fun {o s} ho h => ?_) hs fun _ _ s _ _ => hc s
  cases o with
  | update m k v =>
    cases hu : s.update m (le k) v with
    | ok s' =>
      obtain ⟨rfl, -⟩ := Maps.update_ok hu
      exact ⟨.ok [], _, by rw [sys, hu], h.put ho _ _, h.put ho _ _⟩
    | error e => exact ⟨.error e, s, by rw [sys, hu], h, h⟩
  | lookup m k n =>
    cases hl : s.lookup m (le k) with
    | some v => exact ⟨.ok v, s, by rw [sys, hl], h, h⟩
    | none => exact ⟨.error .ENOENT, s, by rw [sys, hl], h, h⟩
  | delete m k => cases ho

section Asks

variable {α β : Type} {Q : Syscall → Prop}

theorem asks_lift {e : Except PyError α} {f : α → Agent β} (h : ∀ a, (f a).run.Asks Q) :
    (liftM e >>= f : Agent β).run.Asks Q := by
  cases e with
  | error e => exact trivial
  | ok a => exact h a

theorem asks_map_update {m : MapName} {k v : Bytes} (h : Q (.update m k v)) : (map_update m k v).run.Asks Q := by
  rw [map_update_eq]
  exact ⟨h, fun r => by cases r <;> trivial⟩

theorem asks_discard {p : Agent α} (h : p.run.Asks Q) : (do let _ ← p : Agent Unit).run.Asks Q := by
  rw [ExceptT.run_bind]
  exact h.bind fun r => by cases r <;> trivial

theorem asks_update {m : MapName} {k v : Bytes} {p : Agent α} (h : Q (.update m k v)) (hp : p.run.Asks Q) :
    (updateThen m k v p).run.Asks Q := by
  refine ⟨h, fun r => ?_⟩
  cases r with
  | error e => trivial
  | ok _ => exact hp

theorem asks_delete {m : MapName} {k : Bytes} {p : Agent α} (h : Q (.delete m k)) (hp : p.run.Asks Q) :
    (deleteThen m k p).run.Asks Q := ⟨h, fun _ => hp⟩

theorem asks_lookup {m : MapName} {k : Bytes} {n : Nat} {p : Bytes → Agent α} (h : Q (.lookup m k n))
    (hp : ∀ v, (p v).run.Asks Q) : (lookupThen m k n p).run.Asks Q := by
  refine ⟨h, fun r => ?_⟩
  cases r with
  | error e => trivial
  | ok v => exact hp v

theorem asks_ite_throw {c : Prop} [Decidable c] {p : Agent α} {e : PyError} (hp : p.run.Asks Q) :
    (if c then p else throw e : Agent α).run.Asks Q := by
  split
  · exact hp
  · trivial

theorem modify_tc_bundle_asks (pdr_id : Int) (c : Changes)
    (hl : ∀ n, Q (.lookup .tc_bundle_map (key pdr_id) n))
    (hu : Fmt.I.fits pdr_id → ∀ v, Q (.update .tc_bundle_map (key pdr_id) v)) :
    (modify_tc_bundle pdr_id c).run.Asks Q := by
  rw [modify_tc_bundle_eq]
  split
  · next hk =>
    exact asks_lookup (hl _) fun raw => asks_ite_throw (asks_update (hu hk _) (asks_update (hu hk _) trivial))
  · trivial

theorem remove_session_asks (teid pdr_id : Int) (h : ∀ m k, Q (.delete m k)) :
    (remove_session teid pdr_id).run.Asks Q := by
  rw [remove_session_eq]
  exact asks_ite_throw (asks_delete (h _ _) (asks_ite_throw (asks_delete (h _ _) (asks_delete (h _ _) trivial))))

end Asks

/-- Every call is safe where the discipline allows it. -/
theorem call_safe (hs : Sound L G s)
    (hi : ∀ teid pdr_id qer_id far_id precedence urr_id,
      c = .install_session teid pdr_id qer_id far_id precedence urr_id →
      (∀ p, L teid.toNat = some p → p = pdr_id.toNat) ∧ G teid.toNat = false)
    (hr : ∀ teid pdr_id, c = .remove_session teid pdr_id →
      L teid.toNat = none ∧ ∀ k, pdrOf s k = some pdr_id.toNat → k = teid.toNat) :
    Safe L G c l c.call.run s := by
  cases c with
  | install_session =>
    obtain ⟨hL, hG⟩ := hi _ _ _ _ _ _ rfl
    exact install_session_safe hs hL hG
  | remove_session =>
    obtain ⟨hL, hd⟩ := hr _ _ rfl
    exact remove_session_safe hs hL hd
  | modify_tc_bundle pdr_id c =>
    exact safe_harmless (asks_discard (modify_tc_bundle_asks pdr_id c (fun _ => trivial) fun _ _ => by
      simp [Harmless])) hs fun _ => trivial
  | install_far | install_qer | install_upf_config =>
    exact safe_harmless (asks_lift fun _ => asks_lift fun _ => asks_map_update (by simp [Harmless])) hs
      fun _ => trivial
  | install_dl_ue =>
    exact safe_harmless (asks_lift fun _ => asks_lift fun _ => asks_lift fun _ => asks_lift fun _ =>
      asks_map_update (by simp [Harmless])) hs fun _ => trivial

end UPF
