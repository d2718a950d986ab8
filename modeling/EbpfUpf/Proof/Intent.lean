import EbpfUpf.Proof.Agent
import EbpfUpf.Proof.Uplink
import EbpfUpf.Spec.Intent

/-!
# The maps say what the agent was told

A write to a map changes what the maps say in one place (`reading_far` and
the like), and what is read there is what was packed. So each call that
comes to its end changes the reading as it changes the intent
(`reading_step`), and after any sequence of calls they are equal
(`reading_told`).
-/

open Framework

namespace UPF

/-! ## Lookups as functions -/

variable {s s' : Maps}

theorem lookup_put_fun {m : MapName} (hm : Maps.Hash m) (k : Nat) (v : Bytes) :
    (s.put m k v).lookup m = Function.update (s.lookup m) k (some v) := by
  funext k'
  rw [lookup_put hm, Function.update_apply]

theorem lookup_put_array_fun {m : MapName} (hm : m.type = .ARRAY) {k : Nat} (hk : k < m.max_entries) (v : Bytes) :
    (s.put m k v).lookup m = Function.update (s.lookup m) k (some v) := by
  funext k'
  rw [Function.update_apply]
  split
  · next h => rw [h, Maps.lookup_put_array hm v hk]
  · next h => exact Maps.lookup_put_ne (.inr h)

theorem lookup_deleted_fun {m : MapName} (hm : Maps.Hash m) (k : Nat) :
    (deleted m k s).lookup m = Function.update (s.lookup m) k none := by
  funext k'
  rw [lookup_deleted hm, Function.update_apply]

theorem lookup_put_map_fun {m m' : MapName} (h : m' ≠ m) (k : Nat) (v : Bytes) :
    (s.put m k v).lookup m' = s.lookup m' := funext fun k' => lookup_put_map h s k k' v

theorem lookup_deleted_map_fun {m m' : MapName} (h : m' ≠ m) (k : Nat) :
    (deleted m k s).lookup m' = s.lookup m' := funext fun k' => lookup_deleted_map h s k k'

theorem pdrOf_eq : pdrOf s = Option.map (fun v => v.get session_val.pdr_id 4) ∘ s.lookup .teid_session := rfl

theorem ruleOf_eq : ruleOf s = Option.map activeTuple ∘ s.lookup .tc_bundle_map := rfl

/-! ## Bytes -/

theorem toNat_lt_pow {c : Fmt} {v : Int} (h : c.fits v) : v.toNat < 256 ^ c.width := by
  rw [Int.toNat_lt h.1]
  exact_mod_cast h.2

theorem wireKey_injective : Function.Injective wireKey := by
  intro a b h
  apply BitVec.eq_of_toNat_eq
  rw [← bswap_bswap (n := 4) a.isLt, ← bswap_bswap (n := 4) b.isLt]
  exact congrArg (bswap 4) h

theorem ntohl_le {bs : Bytes} (h : bs.length = 4) : bpf_ntohl (le bs) = le bs.reverse := by
  rw [bpf_ntohl, ← h, bswap_le]

theorem inet_aton_ok {q : Dotted} {bs : Bytes} (h : inet_aton q = .ok bs) :
    bs.length = 4 ∧ le bs.reverse = q.addr := by
  unfold inet_aton at h
  split at h
  · next hq =>
    cases h
    refine ⟨rfl, ?_⟩
    simp only [List.reverse_cons, List.reverse_nil, List.nil_append, List.cons_append, le, BitVec.toNat_ofNat,
      Dotted.addr]
    omega
  · cases h

theorem le_inet_aton {q : Dotted} {bs : Bytes} (h : inet_aton q = .ok bs) : le bs = wireKey (.ofNat 32 q.addr) := by
  obtain ⟨hl, hr⟩ := inet_aton_ok h
  have hlt : le bs.reverse < 2 ^ 32 := by
    have := le_lt bs.reverse
    rwa [List.length_reverse, hl] at this
  have := bswap_le bs.reverse
  rw [List.reverse_reverse, List.length_reverse, hl] at this
  rw [wireKey, BitVec.toNat_ofNat, ← hr, Nat.mod_eq_of_lt hlt, this]

theorem farOf_farBytes {action out_ifindex peer_ipv4_be out_teid_be : Int}
    (h : PackFits [(.I, action), (.I, out_ifindex), (.I, peer_ipv4_be), (.I, out_teid_be)]) :
    farOf (farBytes action out_ifindex peer_ipv4_be out_teid_be) =
      ⟨action.toNat, out_ifindex.toNat, peer_ipv4_be.toNat, out_teid_be.toNat⟩ :=
  Far.ext (get_layout_at 0 rfl rfl (toNat_lt h.1)) (get_layout_at 1 rfl rfl (toNat_lt h.2.1))
    (get_layout_at 2 rfl rfl (toNat_lt h.2.2.1)) (get_layout_at 3 rfl rfl (toNat_lt h.2.2.2.1))

theorem qerOf_qerBytes {mbr_ul_bps mbr_dl_bps burst_bytes : Int}
    (h : PackFits [(.Q, mbr_ul_bps), (.Q, mbr_dl_bps), (.I, burst_bytes)]) :
    qerOf (qerBytes mbr_ul_bps mbr_dl_bps burst_bytes) =
      ⟨mbr_ul_bps.toNat, mbr_dl_bps.toNat, burst_bytes.toNat⟩ :=
  Qer.ext (get_layout_at 0 rfl rfl (toNat_lt_pow h.1)) (get_layout_at 1 rfl rfl (toNat_lt_pow h.2.1))
    (get_layout_at 2 rfl rfl (toNat_lt_pow h.2.2.1))

theorem dlUeOf_dlUeBytes {teid qfi : Int} {gnb_ip : Dotted} {gnb : Bytes} (ht : Fmt.I.fits teid)
    (hg : inet_aton gnb_ip = .ok gnb) (hq : Fmt.H.fits qfi) :
    dlUeOf (dlUeBytes teid gnb qfi) = ⟨teid.toNat, gnb_ip.addr, qfi.toNat⟩ := by
  obtain ⟨hl, hr⟩ := inet_aton_ok hg
  have hrev : (toLE 4 teid.toNat).reverse.length = 4 := by rw [List.length_reverse, length_toLE]
  have h1 : (dlUeBytes teid gnb qfi).get dl_ue_val.teid_be 4 = le (toLE 4 teid.toNat).reverse := by
    have := Bytes.get_zero_length (toLE 4 teid.toNat).reverse
    rw [hrev] at this
    rw [dlUeBytes, List.append_assoc, Bytes.get_append_left (by rw [hrev]), this]
  have h2 : (dlUeBytes teid gnb qfi).get dl_ue_val.gnb_ipv4_be 4 = le gnb := by
    have := Bytes.get_zero_length gnb
    rw [hl] at this
    rw [dlUeBytes, Bytes.get_append_left (by rw [List.length_append, hrev, hl]),
      Bytes.get_append_right (by rw [hrev]), hrev, Nat.sub_self, this]
  have h3 : (dlUeBytes teid gnb qfi).get dl_ue_val.qfi 2 = qfi.toNat := by
    rw [dlUeBytes, Bytes.get_append_right (by rw [List.length_append, hrev, hl]), List.length_append, hrev, hl,
      Nat.sub_self]
    exact get_layout_at 0 rfl rfl (toNat_lt_pow hq)
  rw [dlUeOf, h1, h2, h3, ntohl_le hrev, List.reverse_reverse, le_toLE_of_lt (toNat_lt ht), ntohl_le hl, hr]

theorem n3Of_inet_aton {q : Dotted} {bs : Bytes} (h : inet_aton q = .ok bs) : n3Of bs = q.addr := by
  obtain ⟨hl, hr⟩ := inet_aton_ok h
  have := Bytes.get_zero_length bs
  rw [hl] at this
  rw [n3Of, this, ntohl_le hl, hr]

/-! ## Readings after a write -/

theorem reading_empty : reading .empty = .unset := by
  have ha : ∀ {m : MapName} (_ : m.type = .ARRAY) (k : Nat), Maps.empty.lookup m k =
      if k < m.max_entries then some (Maps.zeros m.value_size) else none := by
    intro m hm k
    split
    · next h =>
      rw [Maps.lookup_array hm h]
      rfl
    · next h => exact Maps.lookup_array_none hm h
  have hf : ∀ (q : Prop) [Decidable q], Option.map farOf (if q then some (Maps.zeros 16) else none) =
      if q then some ⟨0, 0, 0, 0⟩ else none := fun q _ => by split <;> rfl
  have hq : ∀ (q : Prop) [Decidable q], Option.map qerOf (if q then some (Maps.zeros 24) else none) =
      if q then some ⟨0, 0, 0⟩ else none := fun q _ => by split <;> rfl
  apply Intent.ext
  · rfl
  · rfl
  · exact funext fun k => (congrArg _ (ha (m := .far_table) rfl k)).trans (hf _)
  · exact funext fun k => (congrArg _ (ha (m := .qer_table) rfl k)).trans (hq _)
  · rfl
  · rfl

theorem reading_far {k : Nat} (hk : k < MAX_FARS) (v : Bytes) : reading (s.put .far_table k v) =
    { reading s with far := Function.update (reading s).far k (some (farOf v)) } := by
  simp (disch := decide) only [reading, pdrOf_eq, ruleOf_eq, lookup_put_map_fun]
  rw [lookup_put_array_fun rfl hk, Function.comp_update, Option.map_some]

theorem reading_qer {k : Nat} (hk : k < MAX_QERS) (v : Bytes) : reading (s.put .qer_table k v) =
    { reading s with qer := Function.update (reading s).qer k (some (qerOf v)) } := by
  simp (disch := decide) only [reading, pdrOf_eq, ruleOf_eq, lookup_put_map_fun]
  rw [lookup_put_array_fun rfl hk, Function.comp_update, Option.map_some]

theorem reading_ue (a : BitVec 32) (v : Bytes) : reading (s.put .dl_ue_map (wireKey a) v) =
    { reading s with ue := Function.update (reading s).ue a (some (dlUeOf v)) } := by
  simp (disch := decide) only [reading, pdrOf_eq, ruleOf_eq, lookup_put_map_fun]
  rw [lookup_put_fun (.inl rfl), Function.comp_update, Option.map_some,
    Function.update_comp_eq_of_injective _ wireKey_injective]

theorem reading_n3 (v : Bytes) : reading (s.put .upf_config_map 0 v) = { reading s with n3 := some (n3Of v) } := by
  simp (disch := decide) only [reading, pdrOf_eq, ruleOf_eq, lookup_put_map_fun]
  rw [lookup_put_array_fun rfl (by decide), Function.update_self, Option.map_some]

theorem reading_pdr_table (k : Nat) (v : Bytes) : reading (s.put .pdr_table k v) = reading s := by
  simp (disch := decide) only [reading, pdrOf_eq, ruleOf_eq, lookup_put_map_fun]

theorem reading_session (k : Nat) (v : Bytes) : reading (s.put .teid_session k v) =
    { reading s with pdr := Function.update (reading s).pdr k (some (v.get session_val.pdr_id 4)) } := by
  simp (disch := decide) only [reading, pdrOf_eq, ruleOf_eq, lookup_put_map_fun]
  rw [lookup_put_fun (.inr rfl), Function.comp_update, Option.map_some]

theorem reading_bundle (k : Nat) (v : Bytes) : reading (s.put .tc_bundle_map k v) =
    { reading s with rule := Function.update (reading s).rule k (some (activeTuple v)) } := by
  simp (disch := decide) only [reading, pdrOf_eq, ruleOf_eq, lookup_put_map_fun]
  rw [lookup_put_fun (.inl rfl), Function.comp_update, Option.map_some]

theorem reading_removed (teid pdr_id : Int) : reading (removed s teid pdr_id) = { reading s with
    pdr := Function.update (reading s).pdr teid.toNat none
    rule := Function.update (reading s).rule pdr_id.toNat none } := by
  simp (disch := decide) only [reading, removed, pdrOf_eq, ruleOf_eq, lookup_deleted_map_fun]
  rw [lookup_deleted_fun (.inr rfl), lookup_deleted_fun (.inl rfl), Function.comp_update, Function.comp_update,
    Option.map_none, Option.map_none]
  simp (disch := decide) only [lookup_deleted_map_fun]

/-! ## Histories -/

/-- Each call does to the reading what it does to the intent. -/
theorem reading_step {c : Command} (h : c.step s = some s') : reading s' = (reading s).told c := by
  obtain ⟨⟨⟩, hs⟩ := after_eq_some.mp h
  cases c with
  | install_far =>
    obtain ⟨hf, hk, rfl⟩ := install_far_returns hs
    rw [reading_far hk, farOf_farBytes hf.2]
    rfl
  | install_qer =>
    obtain ⟨hf, hk, rfl⟩ := install_qer_returns hs
    rw [reading_qer hk, qerOf_qerBytes hf.2]
    rfl
  | install_dl_ue =>
    obtain ⟨ue, gnb, hu, hg, ht, hq, rfl⟩ := install_dl_ue_returns hs
    rw [le_inet_aton hu, reading_ue, dlUeOf_dlUeBytes ht hg hq]
    rfl
  | install_upf_config =>
    obtain ⟨n3, hn, rfl⟩ := install_upf_config_returns hs
    rw [reading_n3, n3Of_inet_aton hn]
    rfl
  | install_session =>
    obtain ⟨hf, -, rfl⟩ := install_session_returns hs
    rw [installed, reading_session, reading_bundle, reading_pdr_table, pdr_sessionBytes hf.1,
      activeTuple_zero hf.tuple]
    rfl
  | modify_tc_bundle pdr_id c =>
    obtain ⟨_, hs⟩ := returns_discard hs
    obtain ⟨-, raw, hr, hp, -, rfl⟩ := modify_tc_bundle_returns hs
    rw [modified, reading_bundle, reading_bundle, activeTuple_flipped hp]
    simp only [Intent.told, Function.update_idem]
    simp [reading, ruleOf, hr]
  | remove_session teid pdr_id =>
    obtain ⟨-, -, rfl⟩ := remove_session_returns hs
    exact reading_removed teid pdr_id

theorem reading_run {cs : List Command} (h : exec Command.step s cs = some s') :
    reading s' = cs.foldl Intent.told (reading s) := by
  induction cs generalizing s with
  | nil =>
    cases h
    rfl
  | cons c cs ih =>
    obtain ⟨s₁, h₁, h₂⟩ := exec_cons.mp h
    rw [ih h₂, reading_step h₁, List.foldl_cons]

/-- The number that the agent writes for a TEID is what the programmes read of
it on the wire. -/
theorem le_key_eq_teidOf {teid : Int} {k w f : Bytes} (hk : enc_u32 teid = .ok k) (hw : pack_be teid = .ok w)
    (hf : (f.drop (gtpOff f + 4)).take 4 = w) : le k = teidOf f := by
  by_cases ht : Fmt.I.fits teid
  · rw [enc_u32_ok ht] at hk
    cases hk
    rw [pack_be, pack_teid ht] at hw
    have hw : (toLE 4 teid.toNat).reverse = w := Except.ok.inj hw
    rw [teidOf, Bytes.get, hf, ← hw, ntohl_le (by rw [List.length_reverse, length_toLE]), List.reverse_reverse]
    rfl
  · rw [enc_u32_error ht] at hk
    cases hk

/-- After any calls, the maps say what the agent was told, and a session's key
is the number that both uplink programmes look up for its TEID on the wire. -/
theorem reading_told {cs : List Command} (h : exec Command.step .empty cs = some s) :
    reading s = cs.foldl Intent.told .unset ∧
    ∀ (teid : Int) (k w : Bytes), enc_u32 teid = .ok k → pack_be teid = .ok w →
      ∀ (b : Build) (H : Helpers) (x : Machine), IsGpdu x.frame →
        (x.frame.drop (gtpOff x.frame + 4)).take 4 = w →
        (∀ key, .lookup .teid_session key ∈ upf_xdp_uplink.trace (kernel H) x ↔ key = le k) ∧
        ∀ key, .lookup .teid_session key ∈ (upf_tc_ingress b).trace (kernel H) x ↔ key = le k := by
  refine ⟨by rw [reading_run h, reading_empty], fun teid k w hk hw b H x g hf => ?_⟩
  rw [le_key_eq_teidOf hk hw hf]
  exact ⟨fun key => by rw [xdp_lookup_iff, and_iff_right g], fun key => by rw [tc_lookup_iff, and_iff_right g]⟩

/-- A session whose FAR and precedence are modified. -/
theorem reading_told_modified : ∃ s, exec Command.step .empty [.install_far 2 1 5 0 0,
      .install_session 0x1000 1 0 1 32 7, .modify_tc_bundle 1 ⟨some 2, none, none, some 0⟩] = some s ∧
    (reading s).rule 1 = some ⟨2, 0, 7, 0, 1⟩ := by
  have h : (exec Command.step .empty [.install_far 2 1 5 0 0, .install_session 0x1000 1 0 1 32 7,
      .modify_tc_bundle 1 ⟨some 2, none, none, some 0⟩]).isSome := by decide +kernel
  obtain ⟨s, hs⟩ := Option.isSome_iff_exists.mp h
  exact ⟨s, hs, by rw [(reading_told hs).1]; rfl⟩

end UPF
