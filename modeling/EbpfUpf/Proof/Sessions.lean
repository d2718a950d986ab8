import EbpfUpf.Framework.Loops
import EbpfUpf.Proof.Integrity

/-!
# Sessions while there is room

A program that puts into `teid_session` only keys of a set for which the map has
room never makes it evict (`run_sysLru`). Which keys a program puts there is a
matter of the program alone (`Listed`).
-/

open Framework

namespace UPF

variable {α ε : Type} {K : Finset Nat} {s s' : Maps}

/-- The sessions that a system call adds are those of `K`. -/
def Listed (K : Finset Nat) : Syscall → Prop
  | .update .teid_session key _ => le key ∈ K
  | _ => True

/-- A system call adds at most the session that it names. -/
theorem sys_sessions {o : Syscall} {r : Except Errno Bytes} (h : sys o s = some (r, s')) (ho : Listed K o)
    (hs : (s.table .teid_session).keys ⊆ K) : (s'.table .teid_session).keys ⊆ K := by
  by_cases hw : o.writes = some .teid_session
  · cases o with
    | lookup => cases hw
    | update m key v =>
      cases hw
      cases h
      intro k hk
      rw [Finmap.mem_keys, Maps.table_put, Finmap.mem_insert] at hk
      rcases hk with rfl | hk
      · exact ho
      · exact hs (Finmap.mem_keys.mpr hk)
    | delete m key =>
      cases hw
      simp only [sys] at h
      split at h <;> cases h
      · next hd =>
        obtain ⟨rfl, -⟩ := Maps.delete_ok hd
        rw [Maps.table_drop, Finmap.keys_erase]
        exact (Finset.erase_subset _ _).trans hs
      · exact hs
  · intro k hk
    rw [Finmap.mem_keys, ← Finmap.lookup_isSome, ← Maps.lookup_hash (.inr rfl), sys_lookup h hw,
      Maps.lookup_hash (.inr rfl), Finmap.lookup_isSome, ← Finmap.mem_keys] at hk
    exact hs hk

/-- A system call for a session that there is room for. -/
theorem sysLru_eq {o : Syscall} (ho : Listed K o) (hK : K.card ≤ MAX_TEIDS)
    (hs : (s.table .teid_session).keys ⊆ K) : sysLru o s = sys o s := by
  cases o with
  | update m key v =>
    cases m <;> first | rfl | skip
    rw [sysLru]
    refine if_pos ?_
    by_cases hk : le key ∈ s.table .teid_session
    · exact .inl hk
    · have hsub : insert (le key) (s.table .teid_session).keys ⊆ K := Finset.insert_subset ho hs
      have := Finset.card_le_card hsub
      rw [Finset.card_insert_of_notMem (by rwa [Finmap.mem_keys])] at this
      exact .inr (by omega)
  | lookup | delete => rfl

theorem run_sysLru {p : Prog SysOps α} (hp : p.Asks (Listed K)) (hK : K.card ≤ MAX_TEIDS)
    (hs : (s.table .teid_session).keys ⊆ K) : p.run sysLru s = p.run sys s := by
  induction p generalizing s with
  | ret a => rfl
  | ask o k ih =>
    rw [Prog.run, Prog.run, sysLru_eq hp.1 hK hs]
    cases h : sys o s with
    | none => rfl
    | some x =>
      obtain ⟨r, s'⟩ := x
      exact ih r (hp.2 r) (sys_sessions h hp.1 hs)

theorem ends_sysLru {p : ExceptT ε (Prog SysOps) α} {r : Except ε α} (hp : p.run.Asks (Listed K))
    (hK : K.card ≤ MAX_TEIDS) (hs : (s.table .teid_session).keys ⊆ K) :
    Framework.Ends sysLru p s r s' ↔ Framework.Ends sys p s r s' := by
  rw [Framework.Ends, run_sysLru hp hK hs, Framework.Ends]

/-- Without room it has no answer, else that of the kernel. -/
theorem sysLru_le {o : Syscall} {x : Except Errno Bytes × Maps} (h : sysLru o s = some x) : sys o s = some x := by
  unfold sysLru at h
  split at h
  · split at h
    · exact h
    · cases h
  · exact h

theorem ends_of_sysLru {p : ExceptT ε (Prog SysOps) α} {r : Except ε α} (h : Framework.Ends sysLru p s r s') :
    Framework.Ends sys p s r s' :=
  Prog.run_of_le sysLru_le h

/-! ## The agent -/

theorem install_session_listed {teid pdr_id qer_id far_id precedence urr_id : Int}
    (h : Fmt.I.fits teid → teid.toNat ∈ K) :
    (install_session teid pdr_id qer_id far_id precedence urr_id).run.Asks (Listed K) := by
  rw [install_session_eq]
  refine asks_ite_throw (asks_update trivial (asks_update trivial ?_))
  split
  · next ht => exact asks_update (by rw [Listed, le_key ht]; exact h ht) trivial
  · trivial

theorem remove_session_listed (teid pdr_id : Int) : (remove_session teid pdr_id).run.Asks (Listed K) :=
  remove_session_asks teid pdr_id fun _ _ => trivial

theorem install_sessions_listed (teid pdr_id : Nat → Int) (qer_id far_id precedence urr_id : Int) {n : Nat}
    (h : ∀ i < n, Fmt.I.fits (teid i) → (teid i).toNat ∈ K) : ((List.range n).forM fun i =>
      install_session (teid i) (pdr_id i) qer_id far_id precedence urr_id).run.Asks (Listed K) :=
  asks_forM fun i hi => install_session_listed (h i (List.mem_range.mp hi))

theorem remove_sessions_listed (teid pdr_id : Nat → Int) (n : Nat) :
    ((List.range n).forM fun i => remove_session (teid i) (pdr_id i)).run.Asks (Listed K) :=
  asks_forM fun i _ => remove_session_listed (teid i) (pdr_id i)

theorem install_far_listed (far_id action out_ifindex peer_ipv4_be out_teid_be : Int) :
    (install_far far_id action out_ifindex peer_ipv4_be out_teid_be).run.Asks (Listed K) :=
  asks_lift fun _ => asks_lift fun _ => asks_map_update trivial

theorem install_qer_listed (qer_id mbr_ul_bps mbr_dl_bps burst_bytes : Int) :
    (install_qer qer_id mbr_ul_bps mbr_dl_bps burst_bytes).run.Asks (Listed K) :=
  asks_lift fun _ => asks_lift fun _ => asks_map_update trivial

end UPF
