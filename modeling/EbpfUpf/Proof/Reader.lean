import EbpfUpf.Impl.Htab
import EbpfUpf.Proof.Enforce

/-!
# What a packet reads of its bundle

TC ingress looks one bundle up, reads through the pointer which slot is active,
and then only fields of that slot (`reader_ways`), whatever it reads there: it
is followed with all answers that the kernel may give (`Answer`), from whatever
the elements hold at the time.
-/

open Framework

namespace UPF

/-- The answers there can be, from any state of the maps and the elements. -/
def Answer (H : Helpers) (pdr_id : Nat) (o : Op Ptr) (r : Op.Ans o) : Prop :=
  ∃ t s s', htabKernel H pdr_id t o s = some (r, s')

/-- Lookups of bundles, and reads of their elements. -/
def isUse : Op Ptr → Bool
  | .lookup m _ | .read (.elem m _) _ _ => m = .tc_bundle_map
  | _ => false

/-- A read of element `id`. -/
abbrev elemRead (id off x : Nat) : (o : Op Ptr) × Op.Ans o := ⟨.read (.elem .tc_bundle_map id) off 4, x⟩

/-- The fields of a slot that a packet reads. -/
def usedFields : List Nat :=
  [tc_bundle_slot.far_id, tc_bundle_slot.qer_id, tc_bundle_slot.urr_id, tc_bundle_slot.generation]

/-- Reads of fields of the slot that `a` names. -/
def SlotReads (id a : Nat) (Z : Log (BpfOps Ptr)) : Prop :=
  ∀ z ∈ Z, ∃ f ∈ usedFields, ∃ x, z = elemRead id (tc_bundle.slot (a % 2) + f) x

/-- One lookup, the slot, and fields of that slot. -/
inductive Uses : Log (BpfOps Ptr) → Prop
  | none : Uses []
  | lookup (k : Nat) (r : Option Ptr) : Uses [⟨.lookup .tc_bundle_map k, r⟩]
  | read (k id a : Nat) (Z : Log (BpfOps Ptr)) : SlotReads id a Z →
    Uses (⟨.lookup .tc_bundle_map k, some (.elem .tc_bundle_map id)⟩ :: elemRead id tc_bundle.active a :: Z)

theorem Side.not_use {o : Op Ptr} (h : Side o) : isUse o = false := by
  cases o with
  | lookup m k => rcases h with rfl | rfl | rfl | rfl <;> rfl
  | read p off n =>
    cases p with
    | value m v => rfl
    | elem m k => cases m <;> first | rfl | cases h
  | _ => rfl

/-- Where it is not about bundles, the kernel is the one there was. -/
theorem htabKernel_other {o : Op Ptr} (ho : isUse o = false) (H : Helpers) (pdr_id : Nat) (t : Htab) :
    htabKernel H pdr_id t o = kernel H o := by
  cases o with
  | lookup m k => cases m <;> first | rfl | cases ho
  | read p off n =>
    cases p with
    | value m v => rfl
    | elem m k => cases m <;> first | rfl | cases ho
  | _ => rfl

theorem Answer.kernel {H : Helpers} {pdr_id : Nat} {o : Op Ptr} {r : Op.Ans o} (h : Answer H pdr_id o r)
    (ho : isUse o = false) : ∃ s s', UPF.kernel H o s = some (r, s') := by
  obtain ⟨t, s, s', h⟩ := h
  rw [htabKernel_other ho] at h
  exact ⟨s, s', h⟩

theorem Answer.lookup {H : Helpers} {pdr_id : Nat} {m : MapName} {k : Nat} {r : Option Ptr}
    (h : Answer H pdr_id (.lookup m k) r) (hm : m ≠ .tc_bundle_map) (hd : m.datapath = false) :
    ∃ v : Option Bytes, r = v.map (.value m) := by
  obtain ⟨s, s', h⟩ := h.kernel (by simpa [isUse] using hm)
  rw [kernel_lookup hd] at h
  cases h
  exact ⟨_, rfl⟩

/-- A lookup of a bundle: nothing, the PDR's element, or the value of another PDR. -/
theorem Answer.bundle {H : Helpers} {pdr_id : Nat} {k : Nat} {r : Option Ptr}
    (h : Answer H pdr_id (.lookup .tc_bundle_map k) r) :
    r = none ∨ (∃ id, r = some (.elem .tc_bundle_map id)) ∨ ∃ v, r = some (.value .tc_bundle_map v) := by
  obtain ⟨t, s, s', h⟩ := h
  rw [htabKernel] at h
  split at h
  · cases h
    exact .inr (.inl ⟨_, rfl⟩)
  · rw [kernel_lookup rfl] at h
    cases h
    cases s.maps.lookup .tc_bundle_map k with
    | none => exact .inl rfl
    | some v => exact .inr (.inr ⟨v, rfl⟩)

/-! ## Question by question -/

/-- From any point with the uses `X` behind it. -/
abbrev Reads (H : Helpers) (pdr_id : Nat) (X : Log (BpfOps Ptr)) (p : Bpf Ptr Int) : Prop :=
  Tracks (Answer H pdr_id) isUse Uses X p

namespace Reads

variable {H : Helpers} {pdr_id : Nat} {X : Log (BpfOps Ptr)}

theorem lookup {m : MapName} {key : Nat} {k : Option Ptr → Bpf Ptr Int} (hX : Uses X) (hm : m ≠ .tc_bundle_map)
    (hd : m.datapath = false) (hk : ∀ v : Option Bytes, Reads H pdr_id X (k (v.map (.value m)))) :
    Reads H pdr_id X (.ask (.lookup m key) k) := by
  refine .other hX (by simpa [isUse] using hm) fun r hr => ?_
  obtain ⟨v, rfl⟩ := hr.lookup hm hd
  exact hk v

theorem side {α : Type} {p : Bpf Ptr α} {f : α → Bpf Ptr Int} (hX : Uses X) (hp : p.Total (kernel H) Side)
    (hf : ∀ a, Reads H pdr_id X (f a)) : Reads H pdr_id X (p >>= f) :=
  .total_bind hX hp Side.not_use (fun ho hr => hr.kernel ho.not_use) hf

end Reads

/-! ## TC ingress -/

section Reader

variable {H : Helpers} {pdr_id : Nat}

/-- What is done with a packet once it was admitted. -/
theorem redirect_reads {X : Log (BpfOps Ptr)} (hX : Uses X) (b : Build) (far : Bytes)
    (far_id qer_id urr_id pdr generation pkt_len t : Nat) :
    Reads H pdr_id X (bump .M_TC_QER_PASS >>= fun _ => upf_urr_update urr_id pkt_len >>= fun _ =>
      emit_decision_event b far_id qer_id generation pdr >>= fun _ =>
      emit_latency_event b pkt_len t >>= fun _ => bump .M_TC_FAR_FORWARD >>= fun _ =>
      read (.value .far_table far) far_val.out_ifindex 4 >>= fun ifindex => redirect ifindex 0 >>= fun ret =>
      if ret ≠ TC_ACT_REDIRECT_X then bump .M_TC_REDIRECT_ERR >>= fun _ => .ret ret else .ret ret) := by
  rw [bump_bind]
  refine .other hX rfl fun _ _ => Reads.side hX (urr_total urr_id pkt_len) fun _ => ?_
  refine Reads.side hX (decision_total b far_id qer_id generation pdr) fun _ => ?_
  refine Reads.side hX (latency_total b pkt_len t) fun _ => ?_
  simp only [bump_bind, read_bind, redirect_bind]
  refine .other hX rfl fun _ _ => .other hX rfl fun _ _ => .other hX rfl fun ret _ => ?_
  split
  · exact .other hX rfl fun _ _ => .ret hX
  · exact .ret hX

/-- From the second lookup of the FAR on nothing of the bundle is read. -/
theorem far_forward_reads {X : Log (BpfOps Ptr)} (hX : Uses X) (b : Build)
    (far_id qer_id urr_id pdr generation n t : Nat) :
    Reads H pdr_id X (upf_far_forward b far_id qer_id urr_id pdr generation n t) := by
  rw [upf_far_forward, adjust_room_bind]
  refine .other hX rfl fun r _ => ?_
  split
  · exact .other hX rfl fun _ _ => .ret hX
  rw [lookup_bind]
  refine Reads.lookup hX (by decide) rfl fun far => ?_
  cases far with
  | none => exact .other hX rfl fun _ _ => .ret hX
  | some far =>
  dsimp only [Option.map_some]
  rw [skb_len_bind]
  refine .other hX rfl fun len _ => Reads.side hX (admit_total b _ _) fun r => ?_
  cases r with
  | false => exact .other hX rfl fun _ _ => .ret hX
  | true =>
  exact redirect_reads hX b far far_id qer_id urr_id pdr generation len t

/-- From the session lookup on. -/
theorem enforce_reads (b : Build) (teid ihl t : Nat) : Reads H pdr_id [] (tc_enforce b teid ihl t) := by
  rw [tc_enforce, lookup_bind]
  refine Reads.lookup .none (by decide) rfl fun sess => ?_
  cases sess with
  | none => exact .other .none rfl fun _ _ => .ret .none
  | some sess =>
  simp only [Option.map_some, read_bind, lookup_bind]
  refine .other .none rfl fun pdr _ => .use .none rfl fun r hr => ?_
  have hl : Uses ([] ++ [⟨.lookup .tc_bundle_map pdr, r⟩]) := .lookup pdr r
  rcases hr.bundle with rfl | ⟨id, rfl⟩ | ⟨v, rfl⟩
  · exact .other hl rfl fun _ _ => .ret hl
  · refine .use hl rfl fun a _ => ?_
    -- What is read so far, and one more field.
    have hnil : SlotReads id a [] := fun z hz => absurd hz List.not_mem_nil
    have hmore : ∀ {Z : Log (BpfOps Ptr)} (f x : Nat), f ∈ usedFields → SlotReads id a Z →
        SlotReads id a (Z ++ [elemRead id (tc_bundle.slot (a % 2) + f) x]) := by
      intro Z f x hf hZ z hz
      rcases List.mem_append.mp hz with hz | hz
      · exact hZ z hz
      · exact ⟨f, hf, x, List.mem_singleton.mp hz⟩
    have hu : ∀ {Z : Log (BpfOps Ptr)}, SlotReads id a Z → Uses ([] ++ [⟨.lookup .tc_bundle_map pdr,
        some (.elem .tc_bundle_map id)⟩] ++ [elemRead id tc_bundle.active a] ++ Z) := fun hZ => .read pdr id a _ hZ
    have hread : ∀ {Z : Log (BpfOps Ptr)} (f : Nat) {k : Nat → Bpf Ptr Int}, f ∈ usedFields → SlotReads id a Z →
        (∀ x, Reads H pdr_id ([] ++ [⟨.lookup .tc_bundle_map pdr, some (.elem .tc_bundle_map id)⟩] ++
          [elemRead id tc_bundle.active a] ++ (Z ++ [elemRead id (tc_bundle.slot (a % 2) + f) x])) (k x)) →
        Reads H pdr_id ([] ++ [⟨.lookup .tc_bundle_map pdr, some (.elem .tc_bundle_map id)⟩] ++
          [elemRead id tc_bundle.active a] ++ Z)
          (.ask (.read (.elem .tc_bundle_map id) (tc_bundle.slot (a % 2) + f) 4) k) := by
      intro Z f k hf hZ hk
      refine .use (hu hZ) rfl fun x _ => ?_
      rw [List.append_assoc]
      exact hk x
    rw [← List.append_nil (_ ++ [_])]
    refine hread tc_bundle_slot.far_id (by decide) hnil fun far_id => ?_
    have h₁ := hmore tc_bundle_slot.far_id far_id (by decide) hnil
    refine Reads.lookup (hu h₁) (by decide) rfl fun far => ?_
    cases far with
    | none => exact .other (hu h₁) rfl fun _ _ => .ret (hu h₁)
    | some far =>
    dsimp only [Option.map_some]
    refine .other (hu h₁) rfl fun action _ => ?_
    split
    · exact .other (hu h₁) rfl fun _ _ => .ret (hu h₁)
    refine .other (hu h₁) rfl fun action _ => ?_
    split
    · refine .other (hu h₁) rfl fun pdr _ => hread tc_bundle_slot.far_id (by decide) h₁ fun far_id => ?_
      have h₂ := hmore tc_bundle_slot.far_id far_id (by decide) h₁
      exact .other (hu h₂) rfl fun _ _ => .other (hu h₂) rfl fun _ _ => .other (hu h₂) rfl fun _ _ =>
        .other (hu h₂) rfl fun _ _ => .ret (hu h₂)
    refine hread tc_bundle_slot.far_id (by decide) h₁ fun far_id => ?_
    refine hread tc_bundle_slot.qer_id (by decide) (hmore tc_bundle_slot.far_id far_id (by decide) h₁) fun qer_id => ?_
    have h₃ := hmore tc_bundle_slot.qer_id qer_id (by decide) (hmore tc_bundle_slot.far_id far_id (by decide) h₁)
    refine hread tc_bundle_slot.urr_id (by decide) h₃ fun urr_id => ?_
    have h₄ := hmore tc_bundle_slot.urr_id urr_id (by decide) h₃
    refine .other (hu h₄) rfl fun pdr _ => hread tc_bundle_slot.generation (by decide) h₄ fun generation => ?_
    exact far_forward_reads (hu (hmore tc_bundle_slot.generation generation (by decide) h₄)) _ _ _ _ _ _ _ _
  · -- A bundle of another PDR: its reads are of no element.
    refine .other hl rfl fun a _ => .other hl rfl fun far_id _ => ?_
    refine Reads.lookup hl (by decide) rfl fun far => ?_
    cases far with
    | none => exact .other hl rfl fun _ _ => .ret hl
    | some far =>
    dsimp only [Option.map_some]
    refine .other hl rfl fun action _ => ?_
    split
    · exact .other hl rfl fun _ _ => .ret hl
    refine .other hl rfl fun action _ => ?_
    split
    · exact .other hl rfl fun _ _ => .other hl rfl fun _ _ => .other hl rfl fun _ _ => .other hl rfl fun _ _ =>
        .other hl rfl fun _ _ => .other hl rfl fun _ _ => .ret hl
    refine .other hl rfl fun _ _ => .other hl rfl fun _ _ => .other hl rfl fun _ _ => ?_
    exact .other hl rfl fun _ _ => .other hl rfl fun _ _ => far_forward_reads hl _ _ _ _ _ _ _ _

/-- Until the session lookup nothing is read of any map. -/
theorem ingress_tracks {A : (o : Op Ptr) → Op.Ans o → Prop} {kind : Op Ptr → Bool} {Q : Log (BpfOps Ptr) → Prop}
    (b : Build) (hQ : Q []) (hclock : kind .ktime_get_ns = false) (hend : kind .data_end = false)
    (hl : ∀ off n, kind (.load off n) = false)
    (henforce : ∀ teid ihl t, Tracks A kind Q [] (tc_enforce b teid ihl t)) :
    Tracks A kind Q [] (upf_tc_ingress b) := by
  have hload : ∀ {off n : Nat} {k : Nat → Bpf Ptr Int}, (∀ x, Tracks A kind Q [] (k x)) →
      Tracks A kind Q [] (.ask (.load off n) k) := fun hk => .other hQ (hl _ _) fun x _ => hk x
  have hite : ∀ {c : Prop} [Decidable c] {v : Int} {p : Bpf Ptr Int}, Tracks A kind Q [] p →
      Tracks A kind Q [] (if c then .ret v else p) := by
    intro c _ v p hp
    split
    · exact .ret hQ
    · exact hp
  have hentry : ∀ {k : Nat → Bpf Ptr Int}, (∀ t, Tracks A kind Q [] (k t)) →
      Tracks A kind Q [] (entry_time b >>= k) := by
    intro k hk
    unfold entry_time
    split
    · exact .other hQ hclock fun t _ => hk t
    · exact hk 0
  rw [upf_tc_ingress]
  refine hentry fun t => ?_
  simp only [data_end_bind, load_bind, Prog.pure_eq]
  refine .other hQ hend fun n _ => hite (hload fun _ => hite (hite (hload fun _ => hite ?_)))
  refine hload fun _ => hite (hite (hload fun _ => hite (hite (hload fun _ => hite (hload fun _ => ?_)))))
  exact henforce _ _ _

theorem reader_ways (b : Build) (H : Helpers) (pdr_id : Nat) : Reads H pdr_id [] (upf_tc_ingress b) :=
  ingress_tracks b .none rfl rfl (fun _ _ => rfl) fun _ _ _ => enforce_reads b _ _ _

end Reader

end UPF
