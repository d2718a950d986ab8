import EbpfUpf.Proof.Enforce
import EbpfUpf.Proof.Parser
import EbpfUpf.Spec.Course

/-!
# Every packet takes one of the courses

A programme among others (`Elsewhere`: they may do anything to the maps, and
nothing to the packet) asks the rules in one of the ways of `Course`
(`programme_course`). `GoesOn` follows it from question to question, with all
answers there can be.
-/

open Framework

namespace UPF

/-- The others do nothing to the packet. -/
def Elsewhere (s s' : Machine) : Prop := s'.cpu = s.cpu ∧ s'.frame = s.frame ∧ s'.ticks = s.ticks

theorem Elsewhere.refl (s : Machine) : Elsewhere s s := ⟨rfl, rfl, rfl⟩

theorem Elsewhere.trans {s₁ s₂ s₃ : Machine} (h₁ : Elsewhere s₁ s₂) (h₂ : Elsewhere s₂ s₃) : Elsewhere s₁ s₃ :=
  ⟨h₂.1.trans h₁.1, h₂.2.1.trans h₁.2.1, h₂.2.2.trans h₁.2.2⟩

/-- A programme among others, whose questions at the end meet `C`. -/
abbrev Courses (H : Helpers) (C : Log (BpfOps Ptr) → Int → Prop) (l : Log (BpfOps Ptr)) (p : Bpf Ptr Int)
    (s : Machine) : Prop :=
  Amid (kernel H) Elsewhere (fun _ _ _ => True) (fun l v _ => C (rules l) v) l p s

@[simp] theorem rules_append (l l' : Log (BpfOps Ptr)) : rules (l ++ l') = rules l ++ rules l' :=
  List.filter_append ..

theorem rules_eq_nil {l : Log (BpfOps Ptr)} (h : ∀ e ∈ l, isRule e.1 = false) : rules l = [] :=
  List.filter_eq_nil_iff.mpr fun e he => by simp [h e he]

/-- A record of questions may be drawn from the questions alone. -/
theorem filterMap_rules {α : Type} {f : (o : Op Ptr) × Op.Ans o → Option α}
    (hf : ∀ e, isRule e.1 = false → f e = none) (l : Log (BpfOps Ptr)) : (rules l).filterMap f = l.filterMap f := by
  rw [rules, List.filterMap_filter]
  refine congrFun (congrArg _ (funext fun e => ?_)) l
  cases he : isRule e.1 with
  | true => rfl
  | false => rw [hf e he]; rfl

theorem Side.not_rule {o : Op Ptr} (h : Side o) : isRule o = false := by
  cases o with
  | lookup m k => rcases h with rfl | rfl | rfl | rfl <;> rfl
  | read p off n =>
    cases p with
    | value m v =>
      cases h
      rfl
    | elem m k => rfl
  | bump idx =>
    cases h
    rfl
  | load | store | adjust_room | redirect => cases h
  | _ => rfl

/-! ## Question by question -/

/-- From any point with the questions `X` behind it. -/
def GoesOn (H : Helpers) (C : Log (BpfOps Ptr) → Int → Prop) (X : Log (BpfOps Ptr)) (p : Bpf Ptr Int) : Prop :=
  ∀ l s, rules l = X → Courses H C l p s

namespace GoesOn

variable {H : Helpers} {C : Log (BpfOps Ptr) → Int → Prop} {X : Log (BpfOps Ptr)}

theorem ret {v : Int} (h : C X v) : GoesOn H C X (.ret v) := by
  rintro l s rfl s' -
  exact h

theorem ask {o : Op Ptr} {k : Op.Ans o → Bpf Ptr Int} {E : Op.Ans o → Log (BpfOps Ptr)}
    (hE : ∀ r, rules [⟨o, r⟩] = E r)
    (hk : ∀ s, ∃ r s', kernel H o s = some (r, s') ∧ GoesOn H C (X ++ E r) (k r)) :
    GoesOn H C X (.ask o k) := by
  intro l s hl s₁ _
  obtain ⟨r, s₂, e, hr⟩ := hk s₁
  exact ⟨r, s₂, e, trivial, hr _ _ (by rw [rules_append, hl, hE])⟩

theorem lookup {m : MapName} {key : Nat} {k : Option Ptr → Bpf Ptr Int} (hm : isRule (.lookup m key) = true)
    (hd : m.datapath = false) (hk : ∀ v : Option Bytes, GoesOn H C (X ++ [found m key v]) (k (v.map (.value m)))) :
    GoesOn H C X (.ask (.lookup m key) k) :=
  ask (E := fun r => [⟨.lookup m key, r⟩]) (fun _ => List.filter_cons_of_pos hm)
    fun s => ⟨_, s, kernel_lookup hd H s key, hk _⟩

theorem read {m : MapName} {v : Bytes} {off : Nat} {k : Nat → Bpf Ptr Int}
    (hm : isRule (.read (.value m v) off 4) = true) (hk : GoesOn H C (X ++ [readOf m v off]) (k (v.get off 4))) :
    GoesOn H C X (.ask (.read (.value m v) off 4) k) :=
  ask (E := fun r => [⟨.read (.value m v) off 4, r⟩]) (fun _ => List.filter_cons_of_pos hm)
    fun s => ⟨_, s, rfl, hk⟩

theorem other {o : Op Ptr} {k : Op.Ans o → Bpf Ptr Int} (ho : isRule o = false)
    (hk : ∀ s, ∃ r s', kernel H o s = some (r, s') ∧ GoesOn H C X (k r)) : GoesOn H C X (.ask o k) := by
  refine ask (E := fun _ => []) (fun _ => List.filter_cons_of_neg (by simp [ho])) fun s => ?_
  obtain ⟨r, s', e, h⟩ := hk s
  exact ⟨r, s', e, by rwa [List.append_nil]⟩

theorem count {idx : Metric} {k : Unit → Bpf Ptr Int} (ho : isRule (.bump idx) = false)
    (hk : GoesOn H C X (k ())) : GoesOn H C X (.ask (.bump idx) k) := other ho fun _ => ⟨(), _, rfl, hk⟩

theorem counted {idx : Metric} {k : Unit → Bpf Ptr Int} (ho : isRule (.bump idx) = true)
    (hk : GoesOn H C (X ++ [UPF.counted idx]) (k ())) : GoesOn H C X (.ask (.bump idx) k) :=
  ask (E := fun _ => [UPF.counted idx]) (fun _ => List.filter_cons_of_pos ho) fun _ => ⟨(), _, rfl, hk⟩

theorem side {α : Type} {p : Bpf Ptr α} {f : α → Bpf Ptr Int} (hp : p.Total (kernel H) Side)
    (hf : ∀ a, GoesOn H C X (f a)) : GoesOn H C X (p >>= f) := by
  intro l s hl
  refine .total_bind hp (fun _ _ => trivial) fun t a s' ht => hf a _ s' ?_
  rw [rules_append, hl, rules_eq_nil fun e he => (ht e he).not_rule, List.append_nil]

end GoesOn

/-! ## XDP -/

theorem xdp_classify_goes (H : Helpers) (teid : Nat) : GoesOn H (XdpCourse teid) [] (xdp_classify teid) := by
  rw [xdp_classify, lookup_bind]
  refine .lookup rfl rfl fun sess => ?_
  cases sess with
  | none => exact .counted rfl (.ret .no_session)
  | some sess =>
  simp only [Option.map_some, read_bind, lookup_bind]
  refine .read rfl (.lookup rfl rfl fun pdr => ?_)
  cases pdr with
  | none => exact .counted rfl (.ret (.no_pdr sess))
  | some pdr => exact .counted rfl (.ret (.hit sess pdr))

/-! ## TC ingress -/

theorem redirect_goes {b : Build} {H : Helpers} {teid : Nat} {X : Log (BpfOps Ptr)} {far : Bytes}
    (hC : ∀ v, TcCourse teid (X ++ [readOf .far_table far far_val.out_ifindex,
      ⟨.redirect (farOf far).out_ifindex 0, v⟩]) v) (far_id qer_id urr_id pdr_id generation pkt_len t : Nat) :
    GoesOn H (TcCourse teid) X (passedOn b far far_id qer_id urr_id pdr_id generation pkt_len t) := by
  rw [passedOn, bump_bind]
  refine .count rfl (.side (urr_total urr_id pkt_len) fun _ => ?_)
  refine .side (decision_total b far_id qer_id generation pdr_id) fun _ => ?_
  refine .side (latency_total b pkt_len t) fun _ => ?_
  simp only [bump_bind, read_bind, redirect_bind]
  refine .count rfl (.read rfl (.ask (E := fun r => [⟨.redirect (farOf far).out_ifindex 0, r⟩]) (fun _ => rfl)
    fun s => ⟨_, s, rfl, ?_⟩))
  rw [List.append_assoc]
  split
  · exact .count rfl (.ret (hC _))
  · exact .ret (hC _)

theorem far_forward_goes {b : Build} {H : Helpers} {teid : Nat} {sess bundle far : Bytes}
    (ha : (farOf far).action ∉ [FAR_DROP, FAR_BUFFER]) (qer_id urr_id pdr_id generation n t : Nat) :
    GoesOn H (TcCourse teid) (toBundle teid sess bundle ++ toFar bundle far ++ toForward sess bundle far)
      (upf_far_forward b (activeTuple bundle).far_id qer_id urr_id pdr_id generation n t) := by
  rw [upf_far_forward, adjust_room_bind]
  refine .other rfl fun s => ⟨H.adjust_room (-n), ?_⟩
  have hr : ∃ s', kernel H (.adjust_room (-n) BPF_ADJ_ROOM_MAC_X BPF_F_ADJ_ROOM_FIXED_GSO_X) s =
      some (H.adjust_room (-n), s') := by
    by_cases h : H.adjust_room (-n) < 0
    · exact ⟨_, adjust_room_err h s _ _⟩
    · exact ⟨_, adjust_room_ok h s _ _⟩
  obtain ⟨s', e⟩ := hr
  refine ⟨s', e, ?_⟩
  split
  · exact .count rfl (.ret (.decap_err sess bundle far ha))
  rw [lookup_bind]
  refine .lookup rfl rfl fun far' => ?_
  cases far' with
  | none => exact .count rfl (.ret (.far_gone sess bundle far ha))
  | some far' =>
  dsimp only [Option.map_some]
  rw [skb_len_bind]
  refine .other rfl fun s => ⟨_, s, rfl, .side (admit_total b _ _) fun r => ?_⟩
  cases r with
  | true =>
    refine redirect_goes (fun v => ?_) _ _ _ _ _ _ _
    rw [List.append_assoc _ [_] [_, _]]
    exact .redirected sess bundle far far' v ha
  | false => exact .count rfl (.ret (.refused sess bundle far far' ha))

theorem tc_enforce_goes (b : Build) (H : Helpers) (teid ihl t : Nat) :
    GoesOn H (TcCourse teid) [] (tc_enforce b teid ihl t) := by
  rw [tc_enforce, lookup_bind]
  refine .lookup rfl rfl fun sess => ?_
  cases sess with
  | none => exact .count rfl (.ret .no_session)
  | some sess =>
  simp only [Option.map_some, read_bind, lookup_bind]
  refine .read rfl (.lookup rfl rfl fun bundle => ?_)
  cases bundle with
  | none => exact .count rfl (.ret (.no_bundle sess))
  | some bundle =>
  refine .read rfl (.read rfl (.lookup rfl rfl fun far => ?_))
  cases far with
  | none => exact .count rfl (.ret (.no_far sess bundle))
  | some far =>
  refine .read rfl ?_
  change GoesOn H _ _ (if (farOf far).action = FAR_DROP then _ else _)
  split
  · next h => exact .count rfl (.ret (.dropped sess bundle far h))
  next h₁ =>
  refine .read rfl ?_
  change GoesOn H _ _ (if (farOf far).action = FAR_BUFFER then _ else _)
  split
  · next h =>
    refine .read rfl (.read rfl (.other rfl fun s => ⟨_, s, rfl, .other rfl fun s => ⟨_, _, rfl, ?_⟩⟩))
    exact .other rfl fun s => ⟨_, s, rfl, .count rfl (.ret (.buffered sess bundle far h))⟩
  next h₂ =>
  refine .read rfl (.read rfl (.read rfl (.read rfl (.read rfl ?_))))
  exact far_forward_goes (by simp [h₁, h₂]) _ _ _ _ _ _

/-! ## The programmes -/

theorem parseOp_elsewhere {H : Helpers} {n : Nat} {counts : Metric → Prop} {o : Op Ptr} {s s' s₁ : Machine}
    {r : Op.Ans o} (ho : ParseOp n counts o) (e : kernel H o s = some (r, s₁)) (h : Elsewhere s s') :
    ∃ s'', kernel H o s' = some (r, s'') ∧ Elsewhere s₁ s'' ∧ True := by
  obtain ⟨hc, hf, ht⟩ := h
  cases o with
  | load off w =>
    simp only [kernel] at e ⊢
    rw [hf]
    split at e <;> cases e
    next hle => exact ⟨s', by rw [if_pos hle], ⟨hc, hf, ht⟩, trivial⟩
  | data_end =>
    cases e
    exact ⟨s', by rw [kernel, hf], ⟨hc, hf, ht⟩, trivial⟩
  | bump idx =>
    cases e
    exact ⟨_, rfl, ⟨hc, hf, ht⟩, trivial⟩
  | ktime_get_ns =>
    cases e
    exact ⟨{ s' with ticks := s'.ticks + 1 }, by rw [kernel, ht], ⟨hc, hf, congrArg (· + 1) ht⟩, trivial⟩
  | _ => cases ho

theorem ParseOp.not_rule {n : Nat} {counts : Metric → Prop} (hc : ∀ idx, counts idx → XdpCount idx) {o : Op Ptr}
    (h : ParseOp n counts o) : isRule o = false := by
  cases o with
  | bump idx => rcases hc idx h with rfl | rfl | rfl | rfl | rfl | rfl <;> rfl
  | load | data_end | ktime_get_ns => rfl
  | _ => cases h

/-- From a parser to the end. -/
theorem courses_of_parses {H : Helpers} {counts : Metric → Prop} (hc : ∀ idx, counts idx → XdpCount idx)
    {V : Int → Machine → Prop} {C : Log (BpfOps Ptr) → Int → Prop} {p q : Bpf Ptr Int} {s : Machine}
    (hp : Parses H counts V s.frame q p s) (hq : GoesOn H C [] q) :
    Courses H (fun l v => if IsGpdu s.frame then C l v else l = []) [] p s := by
  obtain ⟨v, s', -, hl⟩ := hp
  refine .of_leads Elsewhere.trans hl parseOp_elsewhere fun t ht => ?_
  have hn : rules ([] ++ t) = [] := rules_eq_nil fun e he => (ht e he).not_rule hc
  by_cases g : IsGpdu s.frame
  · simp only [g, ite_true]
    exact hq _ _ hn
  · simp only [g, ite_false]
    exact fun _ _ => hn

/-- Whatever the others do, a packet takes one of the courses. -/
theorem programme_course (hook : Hook) (H : Helpers) (cpu : Nat) (wire : Bytes) (maps : Maps) :
    Courses H (Course hook wire) [] hook.programme ((Packet.arrived hook H cpu wire).machine maps) := by
  cases hook with
  | xdp => exact courses_of_parses (fun _ => id) (xdp_parses H _) (xdp_classify_goes H _)
  | tc b =>
    exact courses_of_parses (s := (Packet.arrived (.tc b) H cpu wire).machine maps) (fun _ h => h.elim)
      (tc_parses b H _) (tc_enforce_goes b H _ _ _)

end UPF
