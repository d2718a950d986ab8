import EbpfUpf.Impl.Live
import EbpfUpf.Proof.Reader
import EbpfUpf.Proof.System

/-!
# One FAR for a packet

A packet that is forwarded reads the action of its FAR twice, through the
pointer of one lookup, and where to send it much later, through that of
another. `farNow` is the FAR that a history leaves, and so what is read through
either pointer after it (`run_live`). If no call writes the FAR from the first
of these reads to the last, they read one value (`one_far`); `far_swapped` is a
packet that was let pass by one value and sent out by the next, a FAR that
drops.
-/

open Framework

namespace UPF

/-- The bytes that an event writes to the FAR `k`. -/
def Event.farWrite (k : Nat) : Event → Option Bytes
  | sys (.update .far_table key v) (.ok _) => if le key = k then some v else none
  | _ => none

/-- The FAR `k` after the history `h` that starts from `maps`. -/
def farNow (maps : Maps) (h : List Event) (k : Nat) : Option Bytes :=
  h.foldl (fun cur e => (e.farWrite k).or cur) (maps.lookup .far_table k)

theorem farNow_snoc (maps : Maps) (h : List Event) (e : Event) (k : Nat) :
    farNow maps (h ++ [e]) k = (e.farWrite k).or (farNow maps h k) := by
  rw [farNow, List.foldl_append]
  rfl

/-- What does not write the FAR leaves it. -/
theorem farNow_append {maps : Maps} {h h' : List Event} {k : Nat} (hn : ∀ e ∈ h', e.farWrite k = none) :
    farNow maps (h ++ h') k = farNow maps h k := by
  induction h' using List.reverseRecOn with
  | nil => rw [List.append_nil]
  | append_singleton h' e ih =>
    rw [← List.append_assoc, farNow_snoc, hn e (by simp), Option.none_or,
      ih fun e' he' => hn e' (List.mem_append_left _ he')]

theorem sys_far {o : Syscall} {s s' : Maps} {r : Except Errno Bytes} (h : sys o s = some (r, s')) (k : Nat) :
    s'.lookup .far_table k = ((Event.sys o r).farWrite k).or (s.lookup .far_table k) := by
  by_cases hw : o.writes = some .far_table
  · cases o with
    | lookup => cases hw
    | update m key v =>
      cases hw
      simp only [sys] at h
      split at h <;> cases h
      · next hu =>
        obtain ⟨rfl, hk, -⟩ := Maps.update_ok hu
        simp only [Event.farWrite]
        split
        · next hle => rw [← hle, Maps.lookup_put_array rfl v (hk rfl), Option.some_or]
        · next hle => rw [Maps.lookup_put_ne (.inr fun e => hle e.symm), Option.none_or]
      · rfl
    | delete m key =>
      cases hw
      cases h
      rfl
  · rw [sys_lookup h hw]
    cases o with
    | update m key v => cases m <;> first | exact absurd rfl hw | rfl
    | _ => rfl

theorem step_far {S S' : Upf} {maps : Maps} {mv : Move} (hs : S.step mv = some S')
    (h : ∀ k, S.maps.lookup .far_table k = farNow maps S.hist k) :
    ∀ k, S'.maps.lookup .far_table k = farNow maps S'.hist k := by
  intro k
  cases mv with
  | call c =>
    obtain ⟨-, rfl⟩ := step_call hs
    rw [farNow_snoc]
    exact h k
  | sys =>
    obtain ⟨c, o, _, r, maps', -, e, rfl⟩ := step_sys hs
    rw [farNow_snoc, ← h]
    exact sys_far e k
  | done =>
    obtain ⟨c, r, -, rfl⟩ := step_done hs
    rw [farNow_snoc]
    exact h k
  | stop =>
    obtain ⟨c, p, -, rfl⟩ := step_stop hs
    rw [farNow_snoc]
    exact h k
  | evict teid =>
    cases hs
    rw [farNow_snoc, ← h]
    exact Maps.lookup_drop_ne (.inl (by decide))
  | arrive =>
    cases hs
    exact h k
  | op i =>
    obtain ⟨p, o, _, r, s, -, -, e, rfl⟩ := step_op hs
    rw [farNow_snoc, ← h]
    exact op_lookup e rfl k

/-! ## What a packet asks of FARs -/

/-- Lookups of FARs, reads of their elements, and the redirect. -/
def isFar : Op Ptr → Bool
  | .lookup m _ | .read (.elem m _) _ _ => m = .far_table
  | .redirect .. => true
  | _ => false

/-- A read of FAR `k`. -/
abbrev farRead (k off x : Nat) : (o : Op Ptr) × Op.Ans o := ⟨.read (.elem .far_table k) off 4, x⟩

abbrev farFound (k : Nat) : (o : Op Ptr) × Op.Ans o := ⟨.lookup .far_table k, some (.elem .far_table k)⟩

/-- The whole way to a redirect: the actions that were read, and the interface. -/
abbrev farWay (k a a' ifindex : Nat) (v : Int) : Log (BpfOps Ptr) :=
  [farFound k, farRead k far_val.action a, farRead k far_val.action a', farFound k,
    farRead k far_val.out_ifindex ifindex, ⟨.redirect ifindex 0, v⟩]

/-- The interfaces that a packet was redirected to. -/
def redirects (l : Log (BpfOps Ptr)) : List Nat :=
  l.filterMap fun
    | ⟨.redirect ifindex _, _⟩ => some ifindex
    | _ => none

/-- No redirect, or the whole way to one. -/
def FarUses (X : Log (BpfOps Ptr)) : Prop :=
  redirects X = [] ∨ ∃ k a a' ifindex v, X = farWay k a a' ifindex v ∧ k < MAX_FARS ∧
    a ≠ FAR_DROP ∧ a' ≠ FAR_BUFFER

/-- The answers there can be. -/
def LiveAnswer (H : Helpers) (o : Op Ptr) (r : Op.Ans o) : Prop := ∃ s s', liveKernel H o s = some (r, s')

theorem Side.not_far {o : Op Ptr} (h : Side o) : isFar o = false := by
  cases o with
  | lookup m k => rcases h with rfl | rfl | rfl | rfl <;> rfl
  | read p off n =>
    cases p with
    | value m v => rfl
    | elem m k => cases m <;> first | rfl | cases h
  | redirect => cases h
  | _ => rfl

theorem liveKernel_other {o : Op Ptr} (ho : ∀ k, o ≠ .lookup .far_table k) (H : Helpers) :
    liveKernel H o = kernel H o := by
  cases o with
  | lookup m k => cases m <;> first | rfl | exact absurd rfl (ho k)
  | _ => rfl

theorem liveKernel_keeps {H : Helpers} {o : Op Ptr} {s s' : Machine} {r : Op.Ans o}
    (h : liveKernel H o s = some (r, s')) : Keeps s s' := by
  by_cases ho : ∃ k, o = .lookup .far_table k
  · obtain ⟨k, rfl⟩ := ho
    cases h
    exact .refl s
  · rw [liveKernel_other fun k hk => ho ⟨k, hk⟩] at h
    exact kernel_keeps h

theorem LiveAnswer.kernel {H : Helpers} {o : Op Ptr} {r : Op.Ans o} (h : LiveAnswer H o r)
    (ho : ∀ k, o ≠ .lookup .far_table k) : ∃ s s', UPF.kernel H o s = some (r, s') := by
  obtain ⟨s, s', h⟩ := h
  rw [liveKernel_other ho] at h
  exact ⟨s, s', h⟩

/-- A value that was found is read as it was found. -/
theorem LiveAnswer.read {H : Helpers} {m : MapName} {v : Bytes} {off n x : Nat}
    (h : LiveAnswer H (.read (.value m v) off n) x) : x = v.get off n := by
  obtain ⟨s, s', h⟩ := h
  cases h
  rfl

theorem LiveAnswer.far {H : Helpers} {k : Nat} {r : Option Ptr} (h : LiveAnswer H (.lookup .far_table k) r) :
    r = none ∨ k < MAX_FARS ∧ r = some (.elem .far_table k) := by
  obtain ⟨s, s', h⟩ := h
  rw [liveKernel] at h
  split at h
  · next hk =>
    cases h
    exact .inr ⟨hk, rfl⟩
  · cases h
    exact .inl rfl

/-- From any point with the questions `X` about FARs behind it. -/
abbrev AsksFar (H : Helpers) (X : Log (BpfOps Ptr)) (p : Bpf Ptr Int) : Prop :=
  Tracks (LiveAnswer H) isFar FarUses X p

namespace AsksFar

variable {H : Helpers} {X : Log (BpfOps Ptr)}

theorem lookup {m : MapName} {key : Nat} {k : Option Ptr → Bpf Ptr Int} (hX : FarUses X) (hm : m ≠ .far_table)
    (hd : m.datapath = false) (hk : ∀ v : Option Bytes, AsksFar H X (k (v.map (.value m)))) :
    AsksFar H X (.ask (.lookup m key) k) := by
  refine .other hX (by simpa [isFar] using hm) fun r hr => ?_
  obtain ⟨s, s', h⟩ := hr.kernel fun k' he => hm (by cases he; rfl)
  rw [kernel_lookup hd] at h
  cases h
  exact hk _

theorem value {m : MapName} {v : Bytes} {off n : Nat} {k : Nat → Bpf Ptr Int} (hX : FarUses X)
    (hk : AsksFar H X (k (v.get off n))) : AsksFar H X (.ask (.read (.value m v) off n) k) :=
  .other hX rfl fun x hx => by
    rw [hx.read]
    exact hk

theorem far {key : Nat} {k : Option Ptr → Bpf Ptr Int} (hX : FarUses X)
    (hk₀ : AsksFar H (X ++ [⟨.lookup .far_table key, none⟩]) (k none))
    (hk : key < MAX_FARS → AsksFar H (X ++ [farFound key]) (k (some (.elem .far_table key)))) :
    AsksFar H X (.ask (.lookup .far_table key) k) :=
  .use hX rfl fun r hr => by
    obtain rfl | ⟨hlt, rfl⟩ := hr.far
    · exact hk₀
    · exact hk hlt

theorem side {α : Type} {p : Bpf Ptr α} {f : α → Bpf Ptr Int} (hX : FarUses X) (hp : p.Total (kernel H) Side)
    (hf : ∀ a, AsksFar H X (f a)) : AsksFar H X (p >>= f) :=
  .total_bind hX hp Side.not_far
    (fun ho hr => hr.kernel fun k he => by
      rw [he] at ho
      rcases ho with h | h | h | h <;> cases h) hf

end AsksFar

section Packet

variable {H : Helpers} {k a a' : Nat}

/-- What is done with a packet once it was admitted. -/
theorem redirect_asks (hk : k < MAX_FARS) (ha : a ≠ FAR_DROP) (ha' : a' ≠ FAR_BUFFER) (b : Build)
    (far_id qer_id urr_id pdr_id generation pkt_len t : Nat) :
    AsksFar H [farFound k, farRead k far_val.action a, farRead k far_val.action a', farFound k]
      (bump .M_TC_QER_PASS >>= fun _ => upf_urr_update urr_id pkt_len >>= fun _ =>
      emit_decision_event b far_id qer_id generation pdr_id >>= fun _ =>
      emit_latency_event b pkt_len t >>= fun _ => bump .M_TC_FAR_FORWARD >>= fun _ =>
      read (.elem .far_table k) far_val.out_ifindex 4 >>= fun ifindex => redirect ifindex 0 >>= fun ret =>
      if ret ≠ TC_ACT_REDIRECT_X then bump .M_TC_REDIRECT_ERR >>= fun _ => .ret ret else .ret ret) := by
  have hX : FarUses [farFound k, farRead k far_val.action a, farRead k far_val.action a', farFound k] := .inl rfl
  rw [bump_bind]
  refine .other hX rfl fun _ _ => AsksFar.side hX (urr_total urr_id pkt_len) fun _ => ?_
  refine AsksFar.side hX (decision_total b far_id qer_id generation pdr_id) fun _ => ?_
  refine AsksFar.side hX (latency_total b pkt_len t) fun _ => ?_
  simp only [bump_bind, read_bind, redirect_bind]
  refine .other hX rfl fun _ _ => .use hX rfl fun ifindex _ => .use (.inl rfl) rfl fun v _ => ?_
  have hway : FarUses (farWay k a a' ifindex v) := .inr ⟨k, a, a', ifindex, v, rfl, hk, ha, ha'⟩
  change AsksFar H (farWay k a a' ifindex v) _
  split
  · exact .other hway rfl fun _ _ => .ret hway
  · exact .ret hway

theorem far_forward_asks (ha : a ≠ FAR_DROP) (ha' : a' ≠ FAR_BUFFER) (b : Build)
    (qer_id urr_id pdr_id generation n t : Nat) :
    AsksFar H [farFound k, farRead k far_val.action a, farRead k far_val.action a']
      (upf_far_forward b k qer_id urr_id pdr_id generation n t) := by
  have hX : FarUses [farFound k, farRead k far_val.action a, farRead k far_val.action a'] := .inl rfl
  rw [upf_far_forward, adjust_room_bind]
  refine .other hX rfl fun r _ => ?_
  split
  · exact .other hX rfl fun _ _ => .ret hX
  rw [lookup_bind]
  refine AsksFar.far hX (.other (.inl rfl) rfl fun _ _ => .ret (.inl rfl)) fun hk => ?_
  dsimp only
  rw [skb_len_bind]
  refine .other (.inl rfl) rfl fun len _ => AsksFar.side (.inl rfl) (admit_total b _ _) fun r => ?_
  cases r with
  | false => exact .other (.inl rfl) rfl fun _ _ => .ret (.inl rfl)
  | true => exact redirect_asks hk ha ha' b k qer_id urr_id pdr_id generation len t

theorem enforce_asks (b : Build) (teid ihl t : Nat) : AsksFar H [] (tc_enforce b teid ihl t) := by
  have hX : FarUses [] := .inl rfl
  rw [tc_enforce, lookup_bind]
  refine AsksFar.lookup hX (by decide) rfl fun sess => ?_
  cases sess with
  | none => exact .other hX rfl fun _ _ => .ret hX
  | some sess =>
  simp only [Option.map_some, read_bind, lookup_bind]
  refine AsksFar.value hX (AsksFar.lookup hX (by decide) rfl fun bundle => ?_)
  cases bundle with
  | none => exact .other hX rfl fun _ _ => .ret hX
  | some bundle =>
  simp only [Option.map_some]
  refine AsksFar.value hX (AsksFar.value hX (AsksFar.far hX ?_ fun hk => ?_))
  · exact .other (.inl rfl) rfl fun _ _ => .ret (.inl rfl)
  refine .use (.inl rfl) rfl fun a _ => ?_
  split
  · exact .other (.inl rfl) rfl fun _ _ => .ret (.inl rfl)
  next ha =>
  refine .use (.inl rfl) rfl fun a' _ => ?_
  split
  · refine AsksFar.value (.inl rfl) (AsksFar.value (.inl rfl) (.other (.inl rfl) rfl fun _ _ => ?_))
    refine .other (.inl rfl) rfl fun _ _ => .other (.inl rfl) rfl fun _ _ => ?_
    exact .other (.inl rfl) rfl fun _ _ => .ret (.inl rfl)
  next ha' =>
  refine AsksFar.value (.inl rfl) (AsksFar.value (.inl rfl) (AsksFar.value (.inl rfl) (AsksFar.value (.inl rfl) ?_)))
  exact AsksFar.value (.inl rfl) (far_forward_asks ha ha' _ _ _ _ _ _ _)

end Packet

/-- Whichever way a packet goes, it is redirected at the end of the whole way only. -/
theorem programme_asks (hook : Hook) (H : Helpers) :
    Ways (LiveAnswer H) (fun l => FarUses (ofKind isFar l)) [] hook.programme := by
  cases hook with
  | xdp =>
    refine .of_asks xdp_asks (J := fun l => redirects (ofKind isFar l) = []) rfl (fun {l o} r ho hl => ?_) .inl
    rw [ofKind_append, redirects, List.filterMap_append]
    refine List.append_eq_nil_iff.mpr ⟨hl, ?_⟩
    cases hf : isFar o with
    | false => rw [ofKind_neg hf, List.filterMap_nil]
    | true =>
      rw [ofKind_pos hf]
      cases o with
      | lookup | read => rfl
      | redirect => exact ho.elim
      | _ => cases hf
  | tc b => exact ingress_tracks b (.inl rfl) rfl rfl (fun _ _ => rfl) (fun _ _ _ => enforce_asks b _ _ _) [] rfl

/-! ## Runs -/

/-- An array has all its elements. -/
theorem farNow_some (maps : Maps) (h : List Event) {k : Nat} (hk : k < MAX_FARS) :
    ∃ far, farNow maps h k = some far := by
  induction h using List.reverseRecOn with
  | nil =>
    have hl : maps.lookup .far_table k = _ := Maps.lookup_array rfl hk
    exact ⟨_, hl⟩
  | append_singleton h e ih =>
    obtain ⟨far, hf⟩ := ih
    rw [farNow_snoc, hf]
    cases e.farWrite k with
    | none => exact ⟨far, rfl⟩
    | some v => exact ⟨v, rfl⟩

/-- Packet `i` reads `x` in FAR `k`. -/
abbrev Event.reads (i k off x : Nat) : Event := .op i (.read (.elem .far_table k) off 4) x

/-- What is read of a FAR is what the FAR is then. -/
def LiveRead (maps : Maps) (pre : List Event) (e : Event) : Prop :=
  ∀ i k off x far, e = .reads i k off x → off + 4 ≤ MapName.far_table.value_size →
    farNow maps pre k = some far → x = far.get off 4

/-- All that holds in every state of a run from `maps`. -/
structure Live (maps : Maps) (S : Upf) : Prop where
  far : ∀ k, S.maps.lookup .far_table k = farNow maps S.hist k
  reads : AtEach (LiveRead maps) S.hist
  ways : ∀ i p, S.packets[i]? = some p →
    Ways (LiveAnswer p.H) (fun l => FarUses (ofKind isFar l)) (S.log i) p.prog
  fresh : ∀ i, S.packets.length ≤ i → S.log i = []

section Run

variable {maps : Maps} {S S' : Upf}

/-- An event that is no packet's. -/
theorem Live.quiet {e : Event} (h : Live maps S) (hf : ∀ k, S'.maps.lookup .far_table k = farNow maps S'.hist k)
    (hp : S'.packets = S.packets) (hh : S'.hist = S.hist ++ [e]) (he : ∀ i, e.of i = none) : Live maps S' := by
  have hl : ∀ i, S'.log i = S.log i := fun i => by rw [Upf.log, hh, List.filterMap_append]; simp [he, Upf.log]
  refine ⟨hf, ?_, fun i p hi => ?_, fun i hi => ?_⟩
  · rw [hh]
    refine atEach_snoc.mpr ⟨h.reads, fun i k off x far hop => ?_⟩
    have := he i
    rw [hop, Event.of, if_pos rfl] at this
    cases this
  · rw [hl]
    exact h.ways i p (hp ▸ hi)
  · rw [hl]
    exact h.fresh i (hp ▸ hi)

theorem stepFars_op {i : Nat} (h : S.stepFars (.op i) = some S') : ∃ p o k r s, S.packets[i]? = some p ∧
    p.prog = .ask o k ∧ liveKernel p.H o (p.machine S.maps) = some (r, s) ∧
    S' = { S with maps := s.maps, packets := S.packets.set i (p.next s (k r)), hist := S.hist ++ [.op i o r] } := by
  simp only [Upf.stepFars] at h
  split at h
  · cases h
  next p hp =>
  split at h
  · cases h
  next o k hk =>
  obtain ⟨⟨r, s⟩, e, rfl⟩ := Option.map_eq_some_iff.mp h
  exact ⟨p, o, k, r, s, hp, hk, e, rfl⟩

theorem op_live {j : Nat} (hs : S.stepFars (.op j) = some S') (h : Live maps S) : Live maps S' := by
  obtain ⟨p, o, k, r, s, hj, hp, e, rfl⟩ := stepFars_op hs
  have hlt : j < S.packets.length := (List.getElem?_eq_some_iff.mp hj).1
  refine ⟨fun key => ?_, atEach_snoc.mpr ⟨h.reads, fun i key off x far hop hoff hfar => ?_⟩, fun i p' hi => ?_,
    fun i hi => ?_⟩
  · rw [farNow_snoc, ← h.far]
    exact (liveKernel_keeps e).lookup (by decide) key
  · cases hop
    cases e
    rw [← h.far] at hfar
    change Bytes.get (Maps.elem S.maps .far_table key p.cpu) off 4 = _
    rw [Maps.elem_array rfl hfar, Maps.get_fit hoff]
  · by_cases hij : j = i
    · subst hij
      rw [List.getElem?_set_self hlt] at hi
      cases hi
      have hw := h.ways j p hj
      rw [hp] at hw
      rw [log_snoc, Event.of, if_pos rfl, Option.toList_some]
      exact hw.op ⟨_, _, e⟩
    · rw [List.getElem?_set_ne hij] at hi
      rw [log_snoc_none (by rw [Event.of, if_neg hij])]
      exact h.ways i p' hi
  · rw [List.length_set] at hi
    rw [log_snoc_none (by rw [Event.of, if_neg (by omega)])]
    exact h.fresh i hi

theorem step_live {mv : FarMove} (hs : S.stepFars mv = some S') (h : Live maps S) : Live maps S' := by
  cases mv with
  | install_far far_id action out_ifindex peer_ipv4_be out_teid_be =>
    have hs : S.step (.call (.install_far far_id action out_ifindex peer_ipv4_be out_teid_be)) = some S' := hs
    have hf := step_far hs h.far
    obtain ⟨-, rfl⟩ := step_call hs
    exact h.quiet hf rfl rfl fun _ => rfl
  | sys =>
    have hs : S.step .sys = some S' := hs
    have hf := step_far hs h.far
    obtain ⟨c, o, k, r, maps, -, -, rfl⟩ := step_sys hs
    exact h.quiet hf rfl rfl fun _ => rfl
  | done =>
    have hs : S.step .done = some S' := hs
    have hf := step_far hs h.far
    obtain ⟨c, r, -, rfl⟩ := step_done hs
    exact h.quiet hf rfl rfl fun _ => rfl
  | stop =>
    have hs : S.step .stop = some S' := hs
    have hf := step_far hs h.far
    obtain ⟨c, p, -, rfl⟩ := step_stop hs
    exact h.quiet hf rfl rfl fun _ => rfl
  | arrive hook H cpu wire =>
    cases hs
    refine ⟨h.far, h.reads, fun i p hi => ?_, fun i hi => ?_⟩
    · rcases Nat.lt_trichotomy i S.packets.length with hlt | rfl | hgt
      · rw [List.getElem?_append_left hlt] at hi
        exact h.ways i p hi
      · rw [List.getElem?_concat_length] at hi
        cases hi
        have : S.log S.packets.length = [] := h.fresh _ le_rfl
        exact this ▸ programme_asks hook H
      · rw [List.getElem?_eq_none (by rw [List.length_append]; exact hgt)] at hi
        cases hi
    · rw [List.length_append] at hi
      exact h.fresh i (by simp at hi; omega)
  | op j => exact op_live hs h

theorem run_live {ms : List FarMove} (h : exec Upf.stepFars (.start maps) ms = some S) : Live maps S := by
  refine exec_invariant (P := fun _ _ => True) (fun _ hi hs => step_live hs hi)
    (along_of_forall (fun _ _ _ => trivial) _) h ⟨fun _ => rfl, atEach_nil, fun i p hi => ?_, fun i _ => rfl⟩
  simp [Upf.start] at hi

end Run

/-! ## One value -/

/-- The reads of FARs: which FAR, the field, and what was read. -/
def farReads (l : Log (BpfOps Ptr)) : List (Nat × Nat × Nat) :=
  l.filterMap fun
    | ⟨.read (.elem .far_table k) off _, x⟩ => some (k, off, x)
    | _ => none

/-- If packet `i` was redirected, the action that it was tested against and the
interface are of the value that its FAR had when the action was first read, and
that is not one to drop or buffer packets. -/
def OneFar (maps : Maps) (S : Upf) (i : Nat) : Prop :=
  ∀ ifindex ∈ redirects (S.log i), ∃ k pre x post far,
    S.hist = pre ++ .reads i k far_val.action x :: post ∧
    farNow maps pre k = some far ∧
    farReads (S.log i) = [(k, far_val.action, (farOf far).action), (k, far_val.action, (farOf far).action),
      (k, far_val.out_ifindex, (farOf far).out_ifindex)] ∧
    ifindex = (farOf far).out_ifindex ∧ (farOf far).action ∉ [FAR_DROP, FAR_BUFFER]

/-- No call writes a FAR after packet `i` has read its action and before it has
read its interface. -/
def Undisturbed (i : Nat) (h : List Event) : Prop :=
  ∀ k pre x mid y post, h = pre ++ .reads i k far_val.action x :: (mid ++ .reads i k far_val.out_ifindex y :: post) →
    ∀ e ∈ mid, e.farWrite k = none

theorem redirects_far (l : Log (BpfOps Ptr)) : redirects (ofKind isFar l) = redirects l := by
  rw [redirects, ofKind, List.filterMap_filter, redirects]
  refine congrFun (congrArg _ (funext fun e => ?_)) l
  obtain ⟨o, r⟩ := e
  cases o <;> first | rfl | (dsimp only; split <;> rfl)

theorem farReads_far (l : Log (BpfOps Ptr)) : farReads (ofKind isFar l) = farReads l := by
  rw [farReads, ofKind, List.filterMap_filter, farReads]
  refine congrFun (congrArg _ (funext fun e => ?_)) l
  obtain ⟨o, r⟩ := e
  cases o with
  | read p off n =>
    cases p with
    | value m v => rfl
    | elem m k => cases m <;> rfl
  | _ => dsimp only; split <;> rfl

theorem far_log (S : Upf) (i : Nat) :
    ofKind isFar (S.log i) = S.hist.filterMap fun e => (e.of i).filter fun x => isFar x.1 :=
  List.filter_filterMap

/-- If no call writes its FAR in between, the packet is let pass and sent out
by one value. -/
theorem one_far {maps : Maps} {S : Upf} {ms : List FarMove} (h : exec Upf.stepFars (.start maps) ms = some S) {i : Nat}
    (hu : Undisturbed i S.hist) : OneFar maps S i := by
  intro ifindex hi
  have hl := run_live h
  have hlt : i < S.packets.length := by
    by_contra hge
    rw [hl.fresh i (Nat.not_lt.mp hge)] at hi
    cases hi
  rw [← redirects_far] at hi
  obtain hn | ⟨k, a, a', x, v, hw, hk, ha, ha'⟩ := (hl.ways i _ (List.getElem?_eq_getElem hlt)).now
  · rw [hn] at hi
    cases hi
  have hx : ifindex = x := by
    rw [hw] at hi
    exact List.mem_singleton.mp hi
  -- The three reads, in the order of the history.
  obtain ⟨pre, post, hpre, hpost⟩ := hist_of_kind (X := [farFound k]) ((far_log S i).symm.trans hw)
  obtain ⟨mid₁, post₁, hmid₁, hpost₁⟩ := hist_of_kind (X := []) hpost
  obtain ⟨mid₂, post₂, hmid₂, -⟩ := hist_of_kind (X := [farFound k]) hpost₁
  obtain ⟨far, hfar⟩ := farNow_some maps pre hk
  subst hmid₂ hmid₁
  have hn := hu k pre a (mid₁ ++ .reads i k far_val.action a' :: mid₂) x post₂ (by simp [hpre])
  have hstill : ∀ mid, mid ⊆ mid₁ ++ .reads i k far_val.action a' :: mid₂ →
      farNow maps (pre ++ .reads i k far_val.action a :: mid) k = some far := by
    intro mid hsub
    rw [farNow_append (by simpa using ⟨rfl, fun e he => hn e (hsub he)⟩), hfar]
  have ra := hl.reads pre _ _ hpre i k far_val.action a far rfl (by decide) hfar
  have ra' := hl.reads (pre ++ .reads i k far_val.action a :: mid₁) (.reads i k far_val.action a')
    (mid₂ ++ .reads i k far_val.out_ifindex x :: post₂) (by simp [hpre]) i k far_val.action a' far rfl (by decide)
    (hstill mid₁ (List.subset_append_left _ _))
  have rx := hl.reads (pre ++ .reads i k far_val.action a :: (mid₁ ++ .reads i k far_val.action a' :: mid₂))
    (.reads i k far_val.out_ifindex x) post₂ (by simp [hpre]) i k far_val.out_ifindex x far rfl (by decide)
    (hstill _ (List.Subset.refl _))
  rw [hx]
  refine ⟨k, pre, a, _, far, hpre, hfar, ?_, rx, ?_⟩
  · rw [← farReads_far, hw]
    change [(k, far_val.action, a), (k, far_val.action, a'), (k, far_val.out_ifindex, x)] = _
    rw [ra, ra', rx]
    rfl
  · have h₀ : (farOf far).action ≠ FAR_DROP := fun h => ha (ra.trans h)
    have h₂ : (farOf far).action ≠ FAR_BUFFER := fun h => ha' (ra'.trans h)
    simp [h₀, h₂]

/-- FAR 1 forwards to interface 5, and a session has it. -/
def farSetup : List Move :=
  [.call (.install_far 1 1 5 0 0), .sys, .done,
    .call (.install_session 0x1000 1 0 1 32 0), .sys, .sys, .sys, .done]

/-- `install_far(1, action, out_ifindex)` takes effect after `n` of the 29
operations of a packet of the session. -/
def farMoves (n action out_ifindex : Nat) : List FarMove :=
  .arrive (.tc ⟨false, false, false⟩) willing 0 (gpduFrame 0x1000) :: (List.replicate n (.op 0) ++
    ([.install_far 1 action out_ifindex 0 0, .sys, .done] ++ List.replicate (29 - n) (.op 0)))

/-- All writes come before the first read of an action. -/
theorem undisturbed_of_split {i : Nat} {h h' : List Event}
    (hr : ∀ e ∈ h, ∀ k x, e ≠ .reads i k far_val.action x) (hw : ∀ e ∈ h', ∀ k, e.farWrite k = none) :
    Undisturbed i (h ++ h') := by
  intro k pre x mid y post heq e he
  have hmem : ∀ h₂, h' = h₂ ++ .reads i k far_val.action x :: (mid ++ .reads i k far_val.out_ifindex y :: post) →
      e.farWrite k = none := fun h₂ heq' => hw e (by rw [heq']; simp [he]) k
  rcases List.append_eq_append_iff.mp heq with ⟨t, -, ht⟩ | ⟨t, hh, ht⟩
  · exact hmem t ht
  · cases t with
    | nil => exact hmem [] ht.symm
    | cons e' t =>
      cases (List.cons.inj ht).1
      exact absurd rfl (hr _ (by rw [hh]; simp) k x)

/-- FAR 1 names another interface when the packet has looked it up and not read it yet. -/
theorem one_far_renamed : ∃ S S', exec Upf.step (.start .empty) farSetup = some S ∧
    exec Upf.stepFars (.start S.maps) (farMoves 13 1 6) = some S' ∧ redirects (S'.log 0) = [6] ∧
    OneFar S.maps S' 0 := by
  have h : ((exec Upf.step (.start .empty) farSetup).bind fun S =>
      (exec Upf.stepFars (.start S.maps) (farMoves 13 1 6)).map fun S' => (redirects (S'.log 0),
        (farReads ((S'.hist.take 16).filterMap (Event.of 0))).isEmpty,
        (S'.hist.drop 16).all fun e => (e.of 0).isSome)) = some ([6], true, true) := by decide +kernel
  obtain ⟨S, hs, h⟩ := Option.bind_eq_some_iff.mp h
  obtain ⟨S', hs', h⟩ := Option.map_eq_some_iff.mp h
  obtain ⟨hr, hn, hop⟩ : _ ∧ _ ∧ _ := by simpa only [Prod.mk.injEq] using h
  refine ⟨S, S', hs, hs', hr, one_far hs' ?_⟩
  rw [← List.take_append_drop 16 S'.hist]
  refine undisturbed_of_split (fun e he k x heq => ?_) fun e he k => ?_
  · have : (k, far_val.action, x) ∈ farReads ((S'.hist.take 16).filterMap (Event.of 0)) :=
      List.mem_filterMap.mpr ⟨_, List.mem_filterMap.mpr ⟨e, he, by rw [heq]; rfl⟩, rfl⟩
    rw [List.isEmpty_iff.mp hn] at this
    cases this
  · have := List.all_eq_true.mp hop e he
    cases e <;> first | rfl | cases this

/-- FAR 1 is made to drop, and to name interface 9, when the packet was tested
against it and has looked it up again: the packet leaves by interface 9. -/
theorem far_swapped : ∃ S S', exec Upf.step (.start .empty) farSetup = some S ∧
    exec Upf.stepFars (.start S.maps) (farMoves 22 0 9) = some S' ∧ redirects (S'.log 0) = [9] ∧
    ¬ OneFar S.maps S' 0 := by
  have h : ((exec Upf.step (.start .empty) farSetup).bind fun S =>
      (exec Upf.stepFars (.start S.maps) (farMoves 22 0 9)).map fun S' => (redirects (S'.log 0), farReads (S'.log 0),
        (List.range (S'.hist.length + 1)).all fun n => (farNow S.maps (S'.hist.take n) 1).map farOf ∈
          [some ⟨1, 5, 0, 0⟩, some ⟨0, 9, 0, 0⟩])) =
      some ([9], [(1, 0, 1), (1, 0, 1), (1, 4, 9)], true) := by decide +kernel
  obtain ⟨S, hs, h⟩ := Option.bind_eq_some_iff.mp h
  obtain ⟨S', hs', h⟩ := Option.map_eq_some_iff.mp h
  obtain ⟨hr, hf, hv⟩ : _ ∧ _ ∧ _ := by simpa only [Prod.mk.injEq] using h
  refine ⟨S, S', hs, hs', hr, fun ho => ?_⟩
  obtain ⟨k, pre, x, post, far, hpre, hfar, hreads, -, -⟩ := ho 9 (by rw [hr]; exact List.mem_singleton_self 9)
  have hall := List.all_eq_true.mp hv pre.length (List.mem_range.mpr (by rw [hpre, List.length_append]; omega))
  rw [hf] at hreads
  simp only [List.cons.injEq, Prod.mk.injEq] at hreads
  obtain ⟨⟨rfl, -, ha⟩, -, ⟨-, -, hi⟩, -⟩ := hreads
  -- No value of the FAR ever had this action and this interface.
  rw [hpre, List.take_left, hfar, Option.map_some] at hall
  generalize farOf far = f at ha hi hall
  obtain ⟨action, out_ifindex, peer, teid⟩ := f
  cases ha
  cases hi
  simp at hall

end UPF
