import EbpfUpf.Impl.Agent
import EbpfUpf.Proof.Parser
import EbpfUpf.Spec.Tunnel

/-!
# Encapsulation

The outer headers are written from front to back over the room that was made
for them (`Writing`), so that what is written is followed byte for byte and
what was in the room before is not seen again (`write_outer_run`). `egress_run` is a
run that does so, `encapsulates_iff` says which do, and `encap_well_formed`
what comes out.
-/

open Framework

namespace UPF

/-! ## Lengths -/

theorem length_ipHeader (total_len src dst check : Nat) : (ipHeader total_len src dst check).length = 20 := by
  rw [ipHeader, length_layout]
  rfl

theorem length_udpHeader (len : Nat) : (udpHeader len).length = 8 := by
  rw [udpHeader, length_layout]
  rfl

theorem length_gtpHeader (len teid_be : Nat) : (gtpHeader len teid_be).length = 8 := by
  rw [gtpHeader, length_layout]
  rfl

theorem length_outerHeaders (n src dst teid_be : Nat) : (outerHeaders n src dst teid_be).length = 36 := by
  simp only [outerHeaders, List.length_append, length_ipHeader, length_udpHeader, length_gtpHeader]

/-! ## Writing the headers -/

theorem kernel_store {H : Helpers} {s : Machine} {off : Nat} {as ws bs v : Bytes} (hs : s.frame = as ++ ws ++ bs)
    (ho : off = as.length) (hw : ws.length = v.length) :
    kernel H (.store off v) s = some ((), { s with frame := as ++ v ++ bs }) := by
  have hb : off + v.length ≤ s.frame.length := by
    rw [hs, List.length_append, List.length_append]
    omega
  have hset : s.frame.set off v = as ++ v ++ bs := by rw [hs, Bytes.set_mid ho hw]
  simp only [kernel, hb, ite_true, hset]

theorem kernel_load {H : Helpers} {s : Machine} {off n : Nat} (h : off + n ≤ s.frame.length) :
    kernel H (.load off n) s = some (s.frame.get off n, s) := by
  simp only [kernel, h, ite_true]

/-- The bytes `done` stand after the Ethernet header `eth` and the rest of the
36 bytes is yet to be written, in front of `rest`. -/
def Writing (s₀ : Machine) (eth rest done : Bytes) (s : Machine) : Prop :=
  ∃ todo, s = { s₀ with frame := eth ++ done ++ todo ++ rest } ∧ eth.length = 14 ∧
    done.length + todo.length = 36

namespace Writing

variable {α : Type} {H : Helpers} {s₀ s : Machine} {eth rest done : Bytes} {X : Option (α × Machine)}

theorem length (h : Writing s₀ eth rest done s) : s.frame.length = 50 + rest.length := by
  obtain ⟨todo, rfl, he, hl⟩ := h
  simp only [List.length_append]
  omega

/-- A store where the next byte is due. -/
theorem next (h : Writing s₀ eth rest done s) {off : Nat} {v : Bytes} {k : Unit → Bpf Ptr α}
    (ho : off = 14 + done.length) (hv : done.length + v.length ≤ 36)
    (hk : ∀ s', Writing s₀ eth rest (done ++ v) s' → (k ()).run (kernel H) s' = X) :
    Prog.run (kernel H) (.ask (.store off v) k) s = X := by
  obtain ⟨todo, rfl, he, hl⟩ := h
  have hf : eth ++ done ++ todo ++ rest = eth ++ done ++ todo.take v.length ++ (todo.drop v.length ++ rest) := by
    rw [List.append_assoc _ (todo.take _), ← List.append_assoc (todo.take _), List.take_append_drop,
      List.append_assoc _ todo]
  have e : kernel H (.store off v) { s₀ with frame := eth ++ done ++ todo ++ rest } =
      some ((), { s₀ with frame := eth ++ done ++ v ++ (todo.drop v.length ++ rest) }) :=
    kernel_store hf (by rw [List.length_append]; omega) (by rw [List.length_take]; omega)
  rw [Prog.run_ask _ e]
  refine hk _ ⟨todo.drop v.length, ?_, he, ?_⟩
  · simp only [List.append_assoc]
  · rw [List.length_append, List.length_drop]
    omega

/-- A store over bytes written before. -/
theorem again (h : Writing s₀ eth rest done s) (a w b : Bytes) {off : Nat} {v : Bytes} {k : Unit → Bpf Ptr α}
    (hd : done = a ++ w ++ b) (ho : off = 14 + a.length) (hw : w.length = v.length)
    (hk : ∀ s', Writing s₀ eth rest (a ++ v ++ b) s' → (k ()).run (kernel H) s' = X) :
    Prog.run (kernel H) (.ask (.store off v) k) s = X := by
  obtain ⟨todo, rfl, he, hl⟩ := h
  subst hd
  have hf : eth ++ (a ++ w ++ b) ++ todo ++ rest = eth ++ a ++ w ++ (b ++ todo ++ rest) := by
    simp only [List.append_assoc]
  have e : kernel H (.store off v) { s₀ with frame := eth ++ (a ++ w ++ b) ++ todo ++ rest } =
      some ((), { s₀ with frame := eth ++ a ++ v ++ (b ++ todo ++ rest) }) :=
    kernel_store hf (by rw [List.length_append]; omega) hw
  rw [Prog.run_ask _ e]
  refine hk _ ⟨todo, ?_, he, ?_⟩
  · simp only [List.append_assoc]
  · simp only [List.length_append] at hl ⊢
    omega

/-- A load of bytes written before. -/
theorem load (h : Writing s₀ eth rest done s) {i n : Nat} {k : Nat → Bpf Ptr α} (hn : i + n ≤ done.length)
    (hk : (k (done.get i n)).run (kernel H) s = X) : Prog.run (kernel H) (.ask (.load (14 + i) n) k) s = X := by
  have hf := h.length
  obtain ⟨todo, hs, he, hl⟩ := h
  have hg : s.frame.get (14 + i) n = done.get i n := by
    rw [hs]
    show (eth ++ done ++ todo ++ rest).get (14 + i) n = _
    rw [List.append_assoc, List.append_assoc, Bytes.get_append_right (by omega), he, Nat.add_sub_cancel_left,
      Bytes.get_append_left hn]
  rw [Prog.run_ask _ (kernel_load (by omega)), hg]
  exact hk

/-- A load of the room's first byte, whatever it is. -/
theorem load_room (h : Writing s₀ eth rest done s) {k : Nat → Bpf Ptr α}
    (hk : ∀ x, (k x).run (kernel H) s = X) : Prog.run (kernel H) (.ask (.load 14 1) k) s = X := by
  have hf := h.length
  rw [Prog.run_ask _ (kernel_load (by omega))]
  exact hk _

end Writing

/-- The sum of the words of `ws`, by induction on how many are read. -/
theorem sum_run {α : Type} {H : Helpers} {s : Machine} {as ws bs : Bytes} (hs : s.frame = as ++ ws ++ bs) (n : Nat)
    (hn : 2 * n ≤ ws.length) (k : Nat → Bpf Ptr α) :
    Prog.run (kernel H) ((List.range n).foldlM (fun sum i => do return sum + (← load (as.length + 2 * i) 2)) 0 >>= k)
      s = (k (sumLE (ws.take (2 * n)))).run (kernel H) s := by
  induction n generalizing k with
  | zero => rfl
  | succ n ih =>
    have hl : as.length + 2 * n + 2 ≤ s.frame.length := by
      rw [hs, List.length_append, List.length_append]
      omega
    have hg : s.frame.get (as.length + 2 * n) 2 = ws.get (2 * n) 2 := by
      rw [hs, List.append_assoc, Bytes.get_append_right (by omega), Nat.add_sub_cancel_left,
        Bytes.get_append_left (by omega)]
    rw [List.range_succ, List.foldlM_append, Prog.bind_bind, ih (by omega)]
    refine (Prog.run_ask _ (kernel_load hl)).trans ?_
    rw [hg, Nat.mul_succ, sumLE_take _ (by omega)]
    rfl

theorem checksum_run {α : Type} {H : Helpers} {s : Machine} {as ws bs : Bytes} (hs : s.frame = as ++ ws ++ bs)
    (hn : ws.length = 20) (k : Nat → Bpf Ptr α) : Prog.run (kernel H) (ip_checksum20 as.length >>= k) s =
      (k (checksum (sumLE ws))).run (kernel H) s := by
  rw [ip_checksum20, Prog.bind_bind, sum_run hs 10 (by omega), List.take_of_length_le (by omega)]
  rfl

theorem Writing.checksum {α : Type} {H : Helpers} {s₀ s : Machine} {eth rest done : Bytes}
    (h : Writing s₀ eth rest done s) (hn : done.length = 20) (k : Nat → Bpf Ptr α) :
    Prog.run (kernel H) (ip_checksum20 14 >>= k) s = (k (Framework.checksum (sumLE done))).run (kernel H) s := by
  obtain ⟨todo, rfl, he, hl⟩ := h
  rw [← he]
  exact checksum_run (List.append_assoc _ _ _) hn k

/-- The three lengths, in 16 bits. -/
theorem outer_lengths {n r : Nat} (h : n = 50 + r) :
    sub32 n ethhdr.size % 2 ^ 16 = (r + 36) % 2 ^ 16 ∧
    sub32 (sub32 n ethhdr.size) iphdr.size % 2 ^ 16 = (r + 16) % 2 ^ 16 ∧
    sub32 (sub32 (sub32 (sub32 n ethhdr.size) iphdr.size) udphdr.size) 8 % 2 ^ 16 = r % 2 ^ 16 := by
  simp only [sub32, ethhdr.size, iphdr.size, udphdr.size]
  refine ⟨?_, ?_, ?_⟩ <;> omega

/-- The headers are written over the room, in front of what follows it. -/
theorem write_outer_run {H : Helpers} {s : Machine} {eth room rest : Bytes} (ue : Bytes)
    (hs : s.frame = eth ++ room ++ rest) (he : eth.length = 14) (hr : room.length = 36) (n3_addr_be : Nat) :
    let outer := outerHeaders rest.length n3_addr_be (ue.get dl_ue_val.gnb_ipv4_be 4) (ue.get dl_ue_val.teid_be 4)
    (write_outer (.value .dl_ue_map ue) n3_addr_be).run (kernel H) s =
      some (TC_ACT_OK_X, { s with frame := eth ++ outer ++ rest }) := by
  have hw : Writing s eth rest [] s := ⟨room, by rw [List.append_nil, ← hs], he, by simpa using hr⟩
  obtain ⟨htl, hul, hgl⟩ := outer_lengths hw.length
  rw [write_outer, skb_len_bind, Prog.run_ask _ rfl]
  simp only [load_bind, store_bind, read_bind, htl, hul, hgl, ethhdr.size, iphdr.size, udphdr.size, udphdr.source,
    udphdr.dest, udphdr.len, udphdr.check, Nat.reduceAdd]
  dsimp only [outerHeaders]
  generalize (rest.length + 36) % 2 ^ 16 = tl
  generalize (rest.length + 16) % 2 ^ 16 = ul
  generalize rest.length % 2 ^ 16 = gl
  refine hw.load_room fun x => hw.next rfl (by simp) fun s₁ h₁ => h₁.load (i := 0) (by simp) ?_
  have hv : Bytes.get ([] ++ toLE 1 (x % 16 + 16 * 4)) 0 1 / 16 * 16 + 5 = 0x45 := by
    rw [List.nil_append, Bytes.get_toLE (by omega)]
    omega
  rw [hv]
  refine h₁.again [] _ [] (List.append_nil _).symm rfl rfl fun s₂ h₂ => ?_
  refine h₂.next rfl (by simp) fun s₃ h₃ => h₃.next rfl (by simp) fun s₄ h₄ => h₄.next rfl (by simp) fun s₅ h₅ => ?_
  refine h₅.next rfl (by simp) fun s₆ h₆ => h₆.next rfl (by simp) fun s₇ h₇ => h₇.next rfl (by simp) fun s₈ h₈ => ?_
  refine h₈.next rfl (by simp) fun s₉ h₉ => h₉.next rfl (by simp) fun s₁₀ h₁₀ => ?_
  rw [Prog.run_ask _ rfl]
  refine h₁₀.next rfl (by simp) fun s₁₁ h₁₁ => ?_
  -- The header so far has no checksum.
  have hd : Writing s eth rest (ipHeader tl n3_addr_be (ue.get dl_ue_val.gnb_ipv4_be 4) 0) s₁₁ := h₁₁
  rw [hd.checksum (length_ipHeader _ _ _ _)]
  refine hd.again (layout [(1, 0x45), (1, 0), (2, bpf_htons tl), (2, 0), (2, 0), (1, 64), (1, IPPROTO_UDP_X)])
    (toLE 2 0) (layout [(4, n3_addr_be), (4, ue.get dl_ue_val.gnb_ipv4_be 4)]) rfl rfl rfl fun s₁₂ h₁₂ => ?_
  have hc : Writing s eth rest (ipHeader tl n3_addr_be (ue.get dl_ue_val.gnb_ipv4_be 4)
    (ipCheck tl n3_addr_be (ue.get dl_ue_val.gnb_ipv4_be 4))) s₁₂ := h₁₂
  have hl := length_ipHeader tl n3_addr_be (ue.get dl_ue_val.gnb_ipv4_be 4)
    (ipCheck tl n3_addr_be (ue.get dl_ue_val.gnb_ipv4_be 4))
  generalize hip : ipHeader tl n3_addr_be (ue.get dl_ue_val.gnb_ipv4_be 4)
    (ipCheck tl n3_addr_be (ue.get dl_ue_val.gnb_ipv4_be 4)) = ip at hc hl
  refine hc.next (by simp [hl]) (by simp [hl]) fun s₁₃ h₁₃ => h₁₃.next (by simp [hl]) (by simp [hl]) fun s₁₄ h₁₄ => ?_
  refine h₁₄.next (by simp [hl]) (by simp [hl]) fun s₁₅ h₁₅ => h₁₅.next (by simp [hl]) (by simp [hl]) fun s₁₆ h₁₆ => ?_
  refine h₁₆.next (by simp [hl]) (by simp [hl]) fun s₁₇ h₁₇ => h₁₇.next (by simp [hl]) (by simp [hl]) fun s₁₈ h₁₈ => ?_
  refine h₁₈.next (by simp [hl]) (by simp [hl]) fun s₁₉ h₁₉ => ?_
  rw [Prog.run_ask _ rfl]
  refine h₁₉.next (by simp [hl]) (by simp [hl]) fun s₂₀ h₂₀ => ?_
  obtain ⟨todo, rfl, -, ht⟩ := h₂₀
  have ht : todo = [] := by simpa [hl] using ht
  subst ht
  simp only [udpHeader, gtpHeader, layout, List.append_nil, List.append_assoc]
  rfl

/-! ## The frames that are looked up -/

theorem load_leads {H : Helpers} {counts : Metric → Prop} {s s' : Machine} {p : Bpf Ptr Int} {off n : Nat}
    {k : Nat → Bpf Ptr Int} (h : off + n ≤ s.frame.length)
    (hk : Prog.Leads (kernel H) (ParseOp s.frame.length counts) (k (s.frame.get off n)) s p s') :
    Prog.Leads (kernel H) (ParseOp s.frame.length counts) (.ask (.load off n) k) s p s' :=
  .ask (kernel_load h) h hk

theorem gtpu_leads {H : Helpers} {counts : Metric → Prop} {s : Machine} (hl : 34 ≤ s.frame.length)
    (k : Bool → Bpf Ptr Int) :
    Prog.Leads (kernel H) (ParseOp s.frame.length counts) (already_gtpu 14 s.frame.length >>= k) s
      (k (decide (IsGtpu s.frame))) s := by
  have hno : ¬ IsGtpu s.frame → Prog.Leads (kernel H) (ParseOp s.frame.length counts) (k false) s
      (k (decide (IsGtpu s.frame))) s := by
    intro h
    rw [decide_eq_false h]
    exact .refl _ _
  rw [already_gtpu]
  simp only [load_bind, Prog.ask_bind, Prog.ite_bind, Prog.pure_eq, Prog.ret_bind]
  refine load_leads (by show 14 + 9 + 1 ≤ _; omega) ?_
  split
  · next h1 =>
    refine load_leads (by show 14 + 0 + 1 ≤ _; omega) ?_
    split
    · next h2 =>
      refine load_leads (Nat.le_trans (by show _ + 2 + 2 ≤ _ + 8; omega) h2) ?_
      split
      · next h3 =>
        have h : IsGtpu s.frame := ⟨h1, h2, h3⟩
        rw [decide_eq_true h]
        exact .refl _ _
      · next h3 => exact hno fun h => h3 h.2.2
    · next h2 => exact hno fun h => h2 h.2.1
  · next h1 => exact hno fun h => h1 h.1

/-- The programme comes to the lookup of the destination if the frame is
`Plain`, and passes it otherwise. -/
theorem egress_leads (H : Helpers) (s : Machine) :
    Prog.Leads (kernel H) (ParseOp s.frame.length fun _ => False) upf_tc_egress s
      (if Plain s.frame then tc_encap (daddrOf s.frame) else .ret TC_ACT_OK_X) s := by
  have hpass : ¬ Plain s.frame → Prog.Leads (kernel H) (ParseOp s.frame.length fun _ => False) (.ret TC_ACT_OK_X) s
      (if Plain s.frame then tc_encap (daddrOf s.frame) else .ret TC_ACT_OK_X) s := by
    intro h
    rw [if_neg h]
    exact .refl _ _
  rw [upf_tc_egress]
  simp only [data_end_bind, load_bind, Prog.pure_eq, Nat.zero_add, ethhdr.size, ethhdr.h_proto, iphdr.size,
    iphdr.daddr, Nat.reduceAdd]
  refine .ask rfl trivial ?_
  split
  · next h => exact hpass fun hp => by have := hp.ip; omega
  next h1 =>
  refine load_leads (by omega) ?_
  split
  · next h => exact hpass fun hp => h hp.proto
  next h2 =>
  split
  · next h => exact hpass fun hp => by have := hp.ip; omega
  next h3 =>
  refine (gtpu_leads (by omega) _).trans ?_
  split
  · next h => exact hpass fun hp => hp.inner (of_decide_eq_true h)
  next h4 =>
  refine load_leads (by omega) ?_
  rw [if_pos ⟨not_not.mp h2, by omega, fun h => h4 (decide_eq_true h)⟩]
  exact .refl _ _

/-! ## Encapsulation -/

variable {H : Helpers} {s : Machine} {ue : Bytes}

theorem resize_grow (frame : Bytes) (room : Nat → Byte) : resize frame room 36 =
    frame.take 14 ++ (List.range 36).map room ++ frame.drop 14 := rfl

theorem length_grown {f room : Bytes} (hl : 34 ≤ f.length) (hr : room.length = 36) :
    (f.take 14 ++ room ++ f.drop 14).length = f.length + 36 := by
  simp only [List.length_append, List.length_take, List.length_drop, hr]
  omega

theorem add_outer_run (hl : 34 ≤ s.frame.length) (hr : 0 ≤ H.adjust_room 36) (n3_addr_be : Nat) :
    (add_outer (.value .dl_ue_map ue) n3_addr_be).run (kernel H) s = some (TC_ACT_OK_X, { s with
      frame := encapped s.frame n3_addr_be (ue.get dl_ue_val.gnb_ipv4_be 4) (ue.get dl_ue_val.teid_be 4) }) := by
  have hroom : ((List.range 36).map H.room).length = 36 := by simp
  have hg := length_grown hl hroom
  have e : kernel H (.adjust_room 36 BPF_ADJ_ROOM_MAC_X BPF_F_ADJ_ROOM_FIXED_GSO_X) s =
      some (H.adjust_room 36, { s with frame := resize s.frame H.room 36 }) := by
    simp only [kernel, Int.not_lt.mpr hr, ite_false]
  rw [add_outer, adjust_room_bind]
  refine (Prog.run_ask _ e).trans ?_
  rw [if_neg (Int.not_lt.mpr hr), data_end_bind, Prog.run_ask _ rfl]
  dsimp only
  rw [resize_grow, hg, if_neg (by simp only [ethhdr.size]; omega),
    if_neg (by simp only [ethhdr.size, iphdr.size]; omega),
    if_neg (by simp only [ethhdr.size, iphdr.size, udphdr.size]; omega),
    if_neg (by simp only [ethhdr.size, iphdr.size, udphdr.size]; omega),
    write_outer_run ue rfl (by rw [List.length_take]; omega) hroom, List.length_drop]
  rfl

theorem add_outer_err (hr : H.adjust_room 36 < 0) (n3_addr_be : Nat) :
    (add_outer (.value .dl_ue_map ue) n3_addr_be).run (kernel H) s =
      some (TC_ACT_SHOT_X, { s with maps := s.maps.count s.cpu .M_TC_DL_ENCAP_ERR }) := by
  have e : kernel H (.adjust_room 36 BPF_ADJ_ROOM_MAC_X BPF_F_ADJ_ROOM_FIXED_GSO_X) s = some (H.adjust_room 36, s) := by
    simp only [kernel, hr, ite_true]
  rw [add_outer, adjust_room_bind]
  refine (Prog.run_ask _ e).trans ?_
  rw [if_pos hr]
  rfl

/-- What comes before the room is made. -/
def NoRoom : Op Ptr → Prop
  | .adjust_room .. => False
  | _ => True

/-- A destination that is a UE's. -/
theorem encap_leads (hu : s.maps.lookup .dl_ue_map (daddrOf s.frame) = some ue) :
    Prog.Leads (kernel H) NoRoom (tc_encap (daddrOf s.frame)) s (add_outer (.value .dl_ue_map ue) (n3Addr s.maps))
      { s with maps := s.maps.count s.cpu .M_TC_DL_HIT } := by
  have hk : kernel H (.lookup .dl_ue_map (daddrOf s.frame)) s = some (some (.value .dl_ue_map ue), s) := by
    rw [kernel_lookup rfl, hu, Option.map_some]
  rw [tc_encap, lookup_bind]
  refine .ask hk trivial ?_
  simp only [bump_bind, lookup_bind]
  refine .ask rfl trivial (.ask (kernel_lookup rfl _ _ _) trivial ?_)
  have hn : ({ s with maps := s.maps.count s.cpu .M_TC_DL_HIT } : Machine).maps.lookup .upf_config_map 0 =
      s.maps.lookup .upf_config_map 0 := rfl
  rw [hn, n3Addr]
  cases s.maps.lookup .upf_config_map 0 with
  | none => exact .refl _ _
  | some cfg => exact .ask rfl trivial (.refl _ _)

/-- The frame of a UE's packet is in a tunnel when the programme passes it. -/
theorem egress_run (hp : Plain s.frame) (hu : s.maps.lookup .dl_ue_map (daddrOf s.frame) = some ue)
    (hr : 0 ≤ H.adjust_room 36) : upf_tc_egress.run (kernel H) s = some (TC_ACT_OK_X, { s with
      maps := s.maps.count s.cpu .M_TC_DL_HIT
      frame := encapped s.frame (n3Addr s.maps) (ue.get dl_ue_val.gnb_ipv4_be 4) (ue.get dl_ue_val.teid_be 4) }) := by
  have hl := egress_leads H s
  rw [if_pos hp] at hl
  rw [hl.run_eq, (encap_leads hu).run_eq]
  exact add_outer_run (s := { s with maps := s.maps.count s.cpu .M_TC_DL_HIT }) hp.ip hr _

/-- Room is made for plain frames for UEs only. -/
theorem egress_makes_room {d : Int} {mode flags : Nat}
    (h : .adjust_room d mode flags ∈ upf_tc_egress.trace (kernel H) s) :
    Plain s.frame ∧ ∃ ue, s.maps.lookup .dl_ue_map (daddrOf s.frame) = some ue := by
  have hl := egress_leads H s
  obtain ⟨ops, hq, ht⟩ := hl.trace_eq
  rw [ht] at h
  rcases List.mem_append.mp h with h | h
  · exact absurd (hq _ h) id
  by_cases hp : Plain s.frame
  · rw [if_pos hp] at h
    refine ⟨hp, ?_⟩
    cases hu : s.maps.lookup .dl_ue_map (daddrOf s.frame) with
    | some ue => exact ⟨ue, rfl⟩
    | none =>
      have hk : kernel H (.lookup .dl_ue_map (daddrOf s.frame)) s = some (none, s) := by
        rw [kernel_lookup rfl, hu, Option.map_none]
      rw [tc_encap, lookup_bind, Prog.trace_ask _ hk] at h
      simp [Prog.trace, kernel] at h
  · rw [if_neg hp] at h
    cases h

/-- What the downlink encapsulates: the plain frames for UEs, if the kernel
makes room. -/
theorem encapsulates_iff : Encapsulates H s ↔
    Plain s.frame ∧ (∃ ue, s.maps.lookup .dl_ue_map (daddrOf s.frame) = some ue) ∧ 0 ≤ H.adjust_room 36 := by
  have hl := egress_leads H s
  constructor
  · rintro ⟨⟨s', hr⟩, d, mode, flags, hm⟩
    obtain ⟨hp, ue, hu⟩ := egress_makes_room hm
    refine ⟨hp, ⟨ue, hu⟩, Int.not_lt.mp fun hneg => ?_⟩
    rw [if_pos hp] at hl
    rw [hl.run_eq, (encap_leads hu).run_eq, add_outer_err hneg] at hr
    exact absurd (Prod.mk.inj (Option.some.inj hr)).1 (by decide)
  · rintro ⟨hp, ⟨ue, hu⟩, hr⟩
    rw [if_pos hp] at hl
    obtain ⟨ops, -, ht⟩ := hl.trace_eq
    obtain ⟨ops', -, ht'⟩ := (encap_leads (H := H) hu).trace_eq
    refine ⟨⟨_, egress_run hp hu hr⟩, (36 : Nat), BPF_ADJ_ROOM_MAC_X, BPF_F_ADJ_ROOM_FIXED_GSO_X, ?_⟩
    rw [ht, ht', add_outer, adjust_room_bind, Prog.trace]
    exact List.mem_append_right _ (List.mem_append_right _ List.mem_cons_self)

/-! ## Well-formed tunnel packets -/

/-- The fields of the outer headers, one after another. -/
def outerFields (n src dst teid_be : Nat) : List (Nat × Nat) :=
  [(1, 0x45), (1, 0), (2, bpf_htons ((n + 36) % 2 ^ 16)), (2, 0), (2, 0), (1, 64), (1, IPPROTO_UDP_X),
    (2, ipCheck ((n + 36) % 2 ^ 16) src dst), (4, src), (4, dst), (2, bpf_htons GTPU_PORT_X),
    (2, bpf_htons GTPU_PORT_X), (2, bpf_htons ((n + 16) % 2 ^ 16)), (2, 0), (1, 0x30), (1, 0xff),
    (2, bpf_htons (n % 2 ^ 16)), (4, teid_be)]

theorem outerHeaders_eq (n src dst teid_be : Nat) :
    outerHeaders n src dst teid_be = layout (outerFields n src dst teid_be) := by
  simp only [outerHeaders, ipHeader, udpHeader, gtpHeader, ← layout_append]
  rfl

section Fields

variable {f : Bytes} {src dst teid_be : Nat}

theorem length_encapped (hl : 34 ≤ f.length) : (encapped f src dst teid_be).length = f.length + 36 :=
  length_grown hl (length_outerHeaders _ _ _ _)

theorem drop_encapped (hl : 34 ≤ f.length) : (encapped f src dst teid_be).drop 50 = f.drop 14 :=
  List.drop_left' (by rw [List.length_append, List.length_take, length_outerHeaders]; omega)

theorem take_encapped (hl : 34 ≤ f.length) : (encapped f src dst teid_be).take 14 = f.take 14 := by
  rw [encapped, List.append_assoc, List.take_left' (by rw [List.length_take]; omega)]

/-- Field `i` of the outer headers. -/
theorem field_encapped (hl : 34 ≤ f.length) (i : Nat) {off n v : Nat}
    (hi : (outerFields (f.length - 14) src dst teid_be)[i]? = some (n, v))
    (ho : 14 + width ((outerFields (f.length - 14) src dst teid_be).take i) = off) (hn : off + n ≤ 50)
    (hv : v < 256 ^ n) : (encapped f src dst teid_be).get off n = v := by
  have h14 : (f.take 14).length = 14 := by
    rw [List.length_take]
    omega
  rw [encapped, List.append_assoc, Bytes.get_append_right (by omega), h14,
    Bytes.get_append_left (by rw [length_outerHeaders]; omega), outerHeaders_eq]
  exact get_layout_at i hi (by omega) hv

theorem be_htons {v : Nat} (h : v < 2 ^ 16) : bswap 2 (bpf_htons v) = v := bswap_bswap h

/-- Field `i` of the outer headers, where it is one in network byte order. -/
theorem be_encapped (hl : 34 ≤ f.length) (i : Nat) {off v : Nat}
    (hi : (outerFields (f.length - 14) src dst teid_be)[i]? = some (2, bpf_htons v))
    (ho : 14 + width ((outerFields (f.length - 14) src dst teid_be).take i) = off) (hn : off + 2 ≤ 50)
    (hv : v < 2 ^ 16) : be (encapped f src dst teid_be) off 2 = v := by
  rw [be, field_encapped hl i hi ho hn (bswap_lt 2 _), be_htons hv]

theorem ipCheck_lt (total_len src dst : Nat) : ipCheck total_len src dst < 2 ^ 16 := checksum_lt _

/-- The checksum of the outer IPv4 header is right. -/
theorem ipHeader_verifies (total_len src dst : Nat) :
    Verifies (ipHeader total_len src dst (ipCheck total_len src dst)) := by
  have hs : ∀ c < 2 ^ 16, sumLE (ipHeader total_len src dst c) = sumLE (ipHeader total_len src dst 0) + c := by
    have hsplit : ∀ c, ipHeader total_len src dst c =
        layout [(1, 0x45), (1, 0), (2, bpf_htons total_len), (2, 0), (2, 0), (1, 64), (1, IPPROTO_UDP_X)] ++
        (toLE 2 c ++ layout [(4, src), (4, dst)]) := fun _ => rfl
    have h0 : sumLE (toLE 2 0) = 0 := rfl
    have h14 : (layout [(1, 0x45), (1, 0), (2, bpf_htons total_len), (2, 0), (2, 0), (1, 64),
        (1, IPPROTO_UDP_X)]).length % 2 = 0 := by
      rw [length_layout]
      simp [width]
    have h2 : ∀ c, (toLE 2 c).length % 2 = 0 := fun c => by rw [length_toLE]
    intro c hc
    rw [hsplit, hsplit 0, sumLE_append h14, sumLE_append h14, sumLE_append (h2 c), sumLE_append (h2 0),
      sumLE_toLE hc, h0]
    omega
  have hlt := sumLE_lt (ipHeader total_len src dst 0)
  rw [length_ipHeader] at hlt
  have hpos : 0 < sumLE (ipHeader total_len src dst 0) := by
    show 0 < 0x45 + 256 * 0 + _
    omega
  rw [verifies_iff, hs _ (ipCheck_lt _ _ _)]
  refine ⟨by omega, ?_⟩
  rw [ipCheck]
  exact add_checksum_mod (by omega)

theorem header_encapped (hl : 34 ≤ f.length) : ((encapped f src dst teid_be).drop 14).take 20 =
    ipHeader ((f.length - 14 + 36) % 2 ^ 16) src dst (ipCheck ((f.length - 14 + 36) % 2 ^ 16) src dst) := by
  rw [encapped, List.append_assoc, List.drop_left' (by rw [List.length_take]; omega), outerHeaders]
  rw [List.append_assoc, List.append_assoc, List.take_left' (length_ipHeader _ _ _ _)]

theorem encapped_isTunnel (hl : 34 ≤ f.length) (hn : f.length + 22 ≤ 65535) (hs : src < 2 ^ 32) (hd : dst < 2 ^ 32)
    (ht : teid_be < 2 ^ 32) : IsTunnel f src dst teid_be (encapped f src dst teid_be) := by
  have hlen : (encapped f src dst teid_be).length = f.length + 36 := length_encapped hl
  have h0 : (encapped f src dst teid_be).get 14 1 = 0x45 :=
    field_encapped hl 0 rfl (by simp [outerFields, width]) (by decide) (by decide)
  refine ⟨hlen, take_encapped hl, by rw [h0], by rw [h0], ?_, ?_, ?_, ?_, ?_, ?_, ?_, ?_, ?_, ?_, ?_, ?_, ?_⟩
  · have : be (encapped f src dst teid_be) 16 2 = (f.length - 14 + 36) % 2 ^ 16 :=
      be_encapped hl 2 rfl (by simp [outerFields, width]) (by decide) (by omega)
    omega
  · exact field_encapped hl 6 rfl (by simp [outerFields, width]) (by decide) (by decide)
  · rw [header_encapped hl]
    exact ipHeader_verifies _ _ _
  · exact field_encapped hl 8 rfl (by simp [outerFields, width]) (by decide) hs
  · exact field_encapped hl 9 rfl (by simp [outerFields, width]) (by decide) hd
  · exact be_encapped hl 10 rfl (by simp [outerFields, width]) (by decide) (by decide)
  · exact be_encapped hl 11 rfl (by simp [outerFields, width]) (by decide) (by decide)
  · have : be (encapped f src dst teid_be) 38 2 = (f.length - 14 + 16) % 2 ^ 16 :=
      be_encapped hl 12 rfl (by simp [outerFields, width]) (by decide) (by omega)
    omega
  · exact field_encapped hl 14 rfl (by simp [outerFields, width]) (by decide) (by decide)
  · exact field_encapped hl 15 rfl (by simp [outerFields, width]) (by decide) (by decide)
  · have : be (encapped f src dst teid_be) 44 2 = (f.length - 14) % 2 ^ 16 :=
      be_encapped hl 16 rfl (by simp [outerFields, width]) (by decide) (by omega)
    omega
  · exact field_encapped hl 17 rfl (by simp [outerFields, width]) (by decide) ht
  · exact drop_encapped hl

end Fields

theorem n3Addr_lt (s : Maps) : n3Addr s < 2 ^ 32 := by
  unfold n3Addr
  cases s.lookup .upf_config_map 0 with
  | none => decide
  | some cfg => exact Bytes.get_lt cfg 0 4

/-- What the downlink encapsulates leaves as a well-formed tunnel packet, which
depends on the frame, the entry of its destination and the configured address
only. -/
theorem encap_well_formed (H : Helpers) (s : Machine) (h : Encapsulates H s)
    (hn : s.frame.length + 36 - 14 ≤ 65535) : ∃ ue s',
    s.maps.lookup .dl_ue_map (daddrOf s.frame) = some ue ∧
    upf_tc_egress.run (kernel H) s = some (TC_ACT_OK_X, s') ∧
    s'.frame = encapped s.frame (n3Addr s.maps) (ue.get dl_ue_val.gnb_ipv4_be 4) (ue.get dl_ue_val.teid_be 4) ∧
    IsTunnel s.frame (n3Addr s.maps) (ue.get dl_ue_val.gnb_ipv4_be 4) (ue.get dl_ue_val.teid_be 4) s'.frame := by
  obtain ⟨hp, ⟨ue, hu⟩, hr⟩ := encapsulates_iff.mp h
  have hl := hp.ip
  exact ⟨ue, _, hu, egress_run hp hu hr, rfl,
    encapped_isTunnel hl (by omega) (n3Addr_lt _) (Bytes.get_lt _ _ _) (Bytes.get_lt _ _ _)⟩

/-- A UE, and a packet for it. -/
theorem encap_well_formed_ping : ∃ s ue s',
    after (install_dl_ue ⟨10, 45, 0, 2⟩ 0x2000 ⟨192, 168, 1, 1⟩ 1) .empty = some s ∧
    s.lookup .dl_ue_map (daddrOf pingFrame) = some ue ∧
    upf_tc_egress.run (kernel willing) ⟨s, 0, pingFrame, 0⟩ = some (TC_ACT_OK_X, s') ∧
    s'.frame = encapped pingFrame (n3Addr s) (ue.get dl_ue_val.gnb_ipv4_be 4) (ue.get dl_ue_val.teid_be 4) ∧
    IsTunnel pingFrame (n3Addr s) (ue.get dl_ue_val.gnb_ipv4_be 4) (ue.get dl_ue_val.teid_be 4) s'.frame := by
  have h : (after (install_dl_ue ⟨10, 45, 0, 2⟩ 0x2000 ⟨192, 168, 1, 1⟩ 1) .empty).map
      (fun s => (s.lookup .dl_ue_map (daddrOf pingFrame)).isSome) = some true := by decide +kernel
  obtain ⟨s, hs, hu⟩ := Option.map_eq_some_iff.mp h
  have he : Encapsulates willing ⟨s, 0, pingFrame, 0⟩ :=
    encapsulates_iff.mpr ⟨show Plain pingFrame by decide +kernel, Option.isSome_iff_exists.mp hu, by decide⟩
  obtain ⟨ue, s', h⟩ := encap_well_formed willing ⟨s, 0, pingFrame, 0⟩ he
    (show pingFrame.length + 36 - 14 ≤ 65535 by decide)
  exact ⟨s, ue, s', hs, h⟩

end UPF
