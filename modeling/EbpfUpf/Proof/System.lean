import EbpfUpf.Proof.Course

/-!
# Runs of the user plane function

What each move does (`step_call` to `step_op`), and what holds in every state
that a run reaches: each packet has taken one of the courses so far and will
come to its end (`run_follows`), so that what it has asked the rules is the
beginning of a course (`course_of_run`).
-/

open Framework

namespace UPF

variable {S S' : Upf}

/-! ## Moves -/

theorem step_call {c : Command} (h : S.step (.call c) = some S') :
    S.agent = none ∧ S' = { S with agent := some (c, c.call.run), hist := S.hist ++ [.call c] } := by
  simp only [Upf.step] at h
  split at h <;> cases h
  next ha => exact ⟨ha, rfl⟩

theorem step_sys (h : S.step .sys = some S') : ∃ c o k r maps, S.agent = some (c, .ask o k) ∧
    sys o S.maps = some (r, maps) ∧
    S' = { S with maps, agent := some (c, k r), hist := S.hist ++ [.sys o r] } := by
  simp only [Upf.step] at h
  split at h
  · next c o k ha =>
    obtain ⟨⟨r, maps⟩, e, rfl⟩ := Option.map_eq_some_iff.mp h
    exact ⟨c, o, k, r, maps, ha, e, rfl⟩
  · cases h

theorem step_done (h : S.step .done = some S') : ∃ c r, S.agent = some (c, .ret r) ∧
    S' = { S with agent := none, hist := S.hist ++ [.done c r] } := by
  simp only [Upf.step] at h
  split at h <;> cases h
  next c r ha => exact ⟨c, r, ha, rfl⟩

theorem step_stop (h : S.step .stop = some S') : ∃ c p, S.agent = some (c, p) ∧
    S' = { S with agent := none, hist := S.hist ++ [.stop c] } := by
  simp only [Upf.step] at h
  split at h <;> cases h
  next c p ha => exact ⟨c, p, ha, rfl⟩

theorem step_op {i : Nat} (h : S.step (.op i) = some S') : ∃ p o k r s, S.packets[i]? = some p ∧
    p.prog = .ask o k ∧ kernel p.H o (p.machine S.maps) = some (r, s) ∧
    S' = { S with maps := s.maps, packets := S.packets.set i (p.next s (k r)), hist := S.hist ++ [.op i o r] } := by
  simp only [Upf.step] at h
  split at h
  · cases h
  next p hp =>
  split at h
  · cases h
  next o k hk =>
  obtain ⟨⟨r, s⟩, e, rfl⟩ := Option.map_eq_some_iff.mp h
  exact ⟨p, o, k, r, s, hp, hk, e, rfl⟩

/-- A move may add to the history, and takes nothing back. -/
theorem step_hist {mv : Move} (h : S.step mv = some S') : ∃ t, S'.hist = S.hist ++ t := by
  cases mv with
  | call c =>
    obtain ⟨-, rfl⟩ := step_call h
    exact ⟨_, rfl⟩
  | sys =>
    obtain ⟨c, o, k, r, maps, -, -, rfl⟩ := step_sys h
    exact ⟨_, rfl⟩
  | done =>
    obtain ⟨c, r, -, rfl⟩ := step_done h
    exact ⟨_, rfl⟩
  | stop =>
    obtain ⟨c, p, -, rfl⟩ := step_stop h
    exact ⟨_, rfl⟩
  | evict teid =>
    cases h
    exact ⟨_, rfl⟩
  | arrive hook H cpu wire =>
    cases h
    exact ⟨[], (List.append_nil _).symm⟩
  | op i =>
    obtain ⟨p, o, k, r, s, -, -, -, rfl⟩ := step_op h
    exact ⟨_, rfl⟩

/-! ## Packets -/

/-- All packets are on their way, and the next one has done nothing yet. -/
structure Follows (S : Upf) : Prop where
  course : ∀ i p, S.packets[i]? = some p →
    Courses p.H (Course p.hook p.wire) (S.log i) p.prog (p.machine S.maps)
  fresh : ∀ i, S.packets.length ≤ i → S.log i = []

theorem elsewhere_machine (p : Packet) (maps maps' : Maps) : Elsewhere (p.machine maps) (p.machine maps') :=
  ⟨rfl, rfl, rfl⟩

/-- What is not a packet's doing leaves it on its way. -/
theorem Follows.congr (h : Follows S) (hp : S'.packets = S.packets) (hl : ∀ i, S'.log i = S.log i) :
    Follows S' := by
  refine ⟨fun i p hi => ?_, fun i hi => ?_⟩
  · rw [hl]
    rw [hp] at hi
    exact (h.course i p hi).env Elsewhere.trans (elsewhere_machine p _ _)
  · rw [hl]
    rw [hp] at hi
    exact h.fresh i hi

theorem log_snoc {maps : Maps} {agent : Option (Command × Prog SysOps (Except PyError Unit))}
    {packets : List Packet} (h : List Event) (e : Event) (i : Nat) :
    Upf.log ⟨maps, agent, packets, h ++ [e]⟩ i = h.filterMap (Event.of i) ++ (e.of i).toList := by
  rw [Upf.log, List.filterMap_append]
  cases he : e.of i with
  | none => simp [he]
  | some x => simp [he]

theorem log_snoc_none {maps : Maps} {agent : Option (Command × Prog SysOps (Except PyError Unit))}
    {packets : List Packet} {h : List Event} {e : Event} {i : Nat} (he : e.of i = none) :
    Upf.log ⟨maps, agent, packets, h ++ [e]⟩ i = h.filterMap (Event.of i) := by
  rw [log_snoc, he, Option.toList_none, List.append_nil]

theorem step_follows {m : Move} (hs : S.step m = some S') (h : Follows S) : Follows S' := by
  cases m with
  | call c =>
    obtain ⟨-, rfl⟩ := step_call hs
    exact h.congr rfl fun i => log_snoc_none rfl
  | sys =>
    obtain ⟨c, o, k, r, maps, -, -, rfl⟩ := step_sys hs
    exact h.congr rfl fun i => log_snoc_none rfl
  | done =>
    obtain ⟨c, r, -, rfl⟩ := step_done hs
    exact h.congr rfl fun i => log_snoc_none rfl
  | stop =>
    obtain ⟨c, p, -, rfl⟩ := step_stop hs
    exact h.congr rfl fun i => log_snoc_none rfl
  | evict teid =>
    cases hs
    exact h.congr rfl fun i => log_snoc_none rfl
  | arrive hook H cpu wire =>
    cases hs
    refine ⟨fun i p hi => ?_, fun i hi => ?_⟩
    · rcases Nat.lt_trichotomy i S.packets.length with hlt | rfl | hgt
      · rw [List.getElem?_append_left hlt] at hi
        exact h.course i p hi
      · rw [List.getElem?_concat_length] at hi
        cases hi
        have : S.log S.packets.length = [] := h.fresh _ le_rfl
        exact this ▸ programme_course hook H cpu wire S.maps
      · rw [List.getElem?_eq_none (by rw [List.length_append]; exact hgt)] at hi
        cases hi
    · rw [List.length_append] at hi
      exact h.fresh i (by simp at hi; omega)
  | op j =>
    obtain ⟨p, o, k, r, s, hj, hp, e, rfl⟩ := step_op hs
    have hlt : j < S.packets.length := (List.getElem?_eq_some_iff.mp hj).1
    refine ⟨fun i p' hi => ?_, fun i hi => ?_⟩
    · by_cases hij : j = i
      · subst hij
        rw [List.getElem?_set_self hlt] at hi
        cases hi
        have hc := h.course j p hj
        rw [hp] at hc
        have hm : (p.next s (k r)).machine s.maps = s := by
          obtain ⟨maps, cpu, frame, ticks⟩ := s
          have : cpu = p.cpu := (kernel_keeps e).cpu
          rw [this]
          rfl
        rw [log_snoc, Event.of, if_pos rfl, Option.toList_some]
        exact hm.symm ▸ (hc.op Elsewhere.refl e).2
      · rw [List.getElem?_set_ne hij] at hi
        rw [log_snoc_none (by rw [Event.of, if_neg hij])]
        exact (h.course i p' hi).env Elsewhere.trans (elsewhere_machine p' _ _)
    · rw [List.length_set] at hi
      rw [log_snoc_none (by rw [Event.of, if_neg (by omega)])]
      exact h.fresh i hi

theorem run_follows {maps : Maps} {ms : List Move} (h : exec Upf.step (.start maps) ms = some S) : Follows S := by
  refine exec_invariant (P := fun _ _ => True) (fun _ hi hs => step_follows hs hi)
    (along_of_forall (fun _ _ _ => trivial) _) h ⟨fun i p hi => ?_, fun i _ => rfl⟩
  simp [Upf.start] at hi

/-- What a packet has asked so far is the beginning of a course, and all of it
when the packet has its verdict. -/
theorem course_of_run {maps : Maps} {ms : List Move} (h : exec Upf.step (.start maps) ms = some S) {i : Nat}
    {p : Packet} (hi : S.packets[i]? = some p) :
    (∃ X v, rules (S.log i) <+: X ∧ Course p.hook p.wire X v) ∧
    ∀ v, p.prog = .ret v → Course p.hook p.wire (rules (S.log i)) v := by
  have hc := (run_follows h).course i p hi
  refine ⟨?_, fun v hv => ?_⟩
  · obtain ⟨t, v, s', he⟩ := hc.ends Elsewhere.refl
    exact ⟨_, v, by rw [rules_append]; exact List.prefix_append _ _, he⟩
  · rw [hv] at hc
    exact hc _ (Elsewhere.refl _)

/-- What any number asks is nothing, or the beginning of a course. -/
theorem rules_log_cases {maps : Maps} {ms : List Move} (h : exec Upf.step (.start maps) ms = some S) (i : Nat) :
    rules (S.log i) = [] ∨
      ∃ teid X v, rules (S.log i) <+: X ∧ (XdpCourse teid X v ∨ TcCourse teid X v) := by
  by_cases hlt : i < S.packets.length
  · obtain ⟨⟨X, v, hX, hc⟩, -⟩ := course_of_run h (List.getElem?_eq_getElem hlt)
    unfold Course at hc
    split at hc
    · split at hc
      · exact .inr ⟨_, X, v, hX, .inl hc⟩
      · exact .inr ⟨_, X, v, hX, .inr hc⟩
    · rw [hc] at hX
      exact .inl (List.prefix_nil.mp hX)
  · rw [(run_follows h).fresh i (Nat.not_lt.mp hlt)]
    exact .inl rfl

/-! ## Lookups -/

/-- The map that a system call may change. -/
def Syscall.writes : Syscall → Option MapName
  | update m .. | delete m _ => some m
  | lookup .. => none

theorem sys_lookup {o : Syscall} {s s' : Maps} {r : Except Errno Bytes} (h : sys o s = some (r, s'))
    {m : MapName} (hm : o.writes ≠ some m) (k : Nat) : s'.lookup m k = s.lookup m k := by
  cases o with
  | update m' key v =>
    have hne : m ≠ m' := fun e => hm (congrArg some e.symm)
    simp only [sys] at h
    split at h <;> cases h
    · next hu =>
      obtain ⟨rfl, -⟩ := Maps.update_ok hu
      exact Maps.lookup_put_ne (.inl hne)
    · rfl
  | lookup m' key n =>
    simp only [sys] at h
    split at h <;> cases h <;> rfl
  | delete m' key =>
    have hne : m ≠ m' := fun e => hm (congrArg some e.symm)
    simp only [sys] at h
    split at h <;> cases h
    · next hd =>
      obtain ⟨rfl, -⟩ := Maps.delete_ok hd
      exact Maps.lookup_drop_ne (.inl hne)
    · rfl

/-- A packet's operation does not change what a lookup by the control plane's maps finds. -/
theorem op_lookup {p : Packet} {maps : Maps} {o : Op Ptr} {r : Op.Ans o} {s : Machine}
    (h : kernel p.H o (p.machine maps) = some (r, s)) {m : MapName} (hd : m.datapath = false) (k : Nat) :
    s.maps.lookup m k = maps.lookup m k :=
  (kernel_keeps h).lookup (m := m) (by rintro rfl; cases hd) k

/-- The answers to packets' lookups in map `m` meet `A`, with the history before them. -/
def Lookups (m : MapName) (A : List Event → Nat → Option Bytes → Prop) (pre : List Event) (e : Event) : Prop :=
  ∀ i k r, e = .op i (.lookup m k) r → ∃ v, r = v.map (.value m) ∧ A pre k v

theorem Lookups.found {m : MapName} {A : List Event → Nat → Option Bytes → Prop} {pre : List Event} {i k : Nat}
    {v : Option Bytes} (h : Lookups m A pre (.op i (.lookup m k) (v.map (.value m)))) : A pre k v := by
  obtain ⟨v', hv, ha⟩ := h i k _ rfl
  have : v = v' := by
    cases v <;> cases v' <;> simp at hv
    · rfl
    · rw [hv]
  exact this ▸ ha

theorem step_lookups {m : MapName} (hd : m.datapath = false) {A : List Event → Nat → Option Bytes → Prop}
    {mv : Move} (hs : S.step mv = some S') (hA : ∀ k, A S.hist k (S.maps.lookup m k))
    (h : AtEach (Lookups m A) S.hist) : AtEach (Lookups m A) S'.hist := by
  cases mv with
  | call c =>
    obtain ⟨-, rfl⟩ := step_call hs
    exact atEach_snoc.mpr ⟨h, nofun⟩
  | sys =>
    obtain ⟨c, o, k, r, maps, -, -, rfl⟩ := step_sys hs
    exact atEach_snoc.mpr ⟨h, nofun⟩
  | done =>
    obtain ⟨c, r, -, rfl⟩ := step_done hs
    exact atEach_snoc.mpr ⟨h, nofun⟩
  | stop =>
    obtain ⟨c, p, -, rfl⟩ := step_stop hs
    exact atEach_snoc.mpr ⟨h, nofun⟩
  | evict teid =>
    cases hs
    exact atEach_snoc.mpr ⟨h, nofun⟩
  | arrive hook H cpu wire =>
    cases hs
    exact h
  | op j =>
    obtain ⟨p, o, k, r, s, -, -, e, rfl⟩ := step_op hs
    refine atEach_snoc.mpr ⟨h, fun i key r' he => ?_⟩
    cases he
    rw [kernel_lookup hd] at e
    cases e
    exact ⟨_, rfl, hA key⟩

/-- What an invariant says of a map it says of the answers to lookups. -/
theorem run_lookups {m : MapName} (hd : m.datapath = false) {A : List Event → Nat → Option Bytes → Prop}
    {P : Upf → Move → Prop} {J : Upf → Prop} {S₀ : Upf}
    (hstep : ∀ {S mv S'}, P S mv → J S → S.step mv = some S' → J S')
    (hA : ∀ {S}, J S → ∀ k, A S.hist k (S.maps.lookup m k)) {ms : List Move}
    (hp : Along Upf.step P S₀ ms) (h : exec Upf.step S₀ ms = some S) (h₀ : J S₀) (hh : S₀.hist = []) :
    J S ∧ AtEach (Lookups m A) S.hist := by
  refine exec_invariant (J := fun S => J S ∧ AtEach (Lookups m A) S.hist)
    (fun hp hi hs => ⟨hstep hp hi.1 hs, step_lookups hd hs (hA hi.1) hi.2⟩) hp h ⟨h₀, ?_⟩
  rw [hh]
  exact atEach_nil

theorem event_of_eq_some {i : Nat} {e : Event} {o : Op Ptr} {r : Op.Ans o} (h : e.of i = some ⟨o, r⟩) :
    e = .op i o r := by
  cases e with
  | op j o' r' =>
    rw [Event.of] at h
    split at h
    · next hj =>
      cases h
      rw [hj]
    · cases h
  | _ => cases h

theorem hist_of_mem {i : Nat} {o : Op Ptr} {r : Op.Ans o}
    (h : (⟨o, r⟩ : (o : Op Ptr) × Op.Ans o) ∈ S.log i) : ∃ pre post, S.hist = pre ++ .op i o r :: post := by
  obtain ⟨e, he, ho⟩ := List.mem_filterMap.mp h
  rw [event_of_eq_some ho] at he
  exact List.append_of_mem he

theorem mem_of_rules {l : Log (BpfOps Ptr)} {e : (o : Op Ptr) × Op.Ans o} (h : e ∈ rules l) : e ∈ l :=
  (List.mem_filter.mp h).1

/-- Where in the history a packet performed an operation of a kind. -/
theorem hist_of_kind {kind : Op Ptr → Bool} {i : Nat} {X Y : Log (BpfOps Ptr)} {o : Op Ptr} {r : Op.Ans o}
    {h : List Event} (hl : (h.filterMap fun e => (e.of i).filter fun x => kind x.1) = X ++ ⟨o, r⟩ :: Y) :
    ∃ pre post, h = pre ++ .op i o r :: post ∧
      (post.filterMap fun e => (e.of i).filter fun x => kind x.1) = Y := by
  obtain ⟨pre, e, post, rfl, he, hp⟩ := exists_of_filterMap hl
  obtain ⟨ho, -⟩ := Option.filter_eq_some_iff.mp he
  rw [event_of_eq_some ho]
  exact ⟨pre, post, rfl, hp⟩

end UPF
