import EbpfUpf.Impl.Tc
import EbpfUpf.Proof.Kernel
import EbpfUpf.Spec.Qer
import EbpfUpf.Spec.Usage

/-!
# What `upf_urr_update` counts

`urr_run`: a packet is counted if its URR has an entry or there is room for
one, and otherwise lost, which `M_TC_URR_UPDATED` does not tell.
-/

open Framework

namespace UPF

theorem Uncounted.refl (s : Maps) : Uncounted s s := ⟨rfl, fun _ _ => rfl⟩

theorem Uncounted.trans {s₁ s₂ s₃ : Maps} (h₁ : Uncounted s₁ s₂) (h₂ : Uncounted s₂ s₃) : Uncounted s₁ s₃ :=
  ⟨h₂.keys.trans h₁.keys, fun u c => (h₂.same u c).trans (h₁.same u c)⟩

/-- Maps with the same `urr_counters` have the same usage. -/
theorem Uncounted.of_percpu {s s' : Maps} (h : s'.percpu .urr_counters = s.percpu .urr_counters) : Uncounted s s' := by
  refine ⟨by rw [urrKeys, h, urrKeys], fun u c => ?_⟩
  simp only [usage, Maps.elem_percpu (.inr rfl : Maps.PerCpu .urr_counters), h]

theorem mem_urrKeys {s : Maps} {u : Nat} : u ∈ urrKeys s ↔ u ∈ s.percpu .urr_counters := Finmap.mem_keys

/-- A URR without an entry has counted nothing. -/
theorem usage_of_not_mem {s : Maps} {u : Nat} (h : u ∉ urrKeys s) (c : Nat) : usage s u c = ⟨0, 0⟩ := by
  have hn : (s.percpu .urr_counters).lookup u = none := Finmap.lookup_eq_none.mpr fun hm => h (mem_urrKeys.mpr hm)
  simp only [usage, Maps.elem_percpu (.inr rfl : Maps.PerCpu .urr_counters), hn]
  show (⟨(Maps.fit 32 []).get 0 8, (Maps.fit 32 []).get 16 8⟩ : Usage) = _
  decide

theorem Uncounted.hasRoom {s s' : Maps} (h : Uncounted s s') (u : Nat) : HasRoom s' u ↔ HasRoom s u := by
  rw [HasRoom, h.keys, HasRoom]

/-! ## Counters -/

theorem countAll_append (s : Maps) (cpu : Nat) (xs ys : List Metric) :
    s.countAll cpu (xs ++ ys) = (s.countAll cpu xs).countAll cpu ys := List.foldl_append

theorem countAll_table (s : Maps) (cpu : Nat) (idxs : List Metric) : (s.countAll cpu idxs).table = s.table := by
  induction idxs generalizing s with
  | nil => rfl
  | cons idx idxs ih => exact ih (s.count cpu idx)

theorem countAll_percpu (s : Maps) (cpu : Nat) (idxs : List Metric) : (s.countAll cpu idxs).percpu = s.percpu := by
  induction idxs generalizing s with
  | nil => rfl
  | cons idx idxs ih => exact ih (s.count cpu idx)

/-- What the counters are after some counts depends on the counters only. -/
theorem metrics_countAll {s s' : Maps} (h : s'.metrics = s.metrics) (cpu : Nat) (idxs : List Metric) :
    (s'.countAll cpu idxs).metrics = (s.countAll cpu idxs).metrics := by
  induction idxs generalizing s s' with
  | nil => exact h
  | cons idx idxs ih =>
    refine ih ?_
    simp only [Maps.count, h]

/-- By induction on the counts. -/
theorem metrics_countAll_self {s : Maps} {cpu : Nat} {idx : Metric} (h : s.metrics cpu idx < 2 ^ 64)
    (idxs : List Metric) :
    (s.countAll cpu idxs).metrics cpu idx = (s.metrics cpu idx + idxs.count idx) % 2 ^ 64 := by
  induction idxs generalizing s with
  | nil => exact (Nat.mod_eq_of_lt h).symm
  | cons i idxs ih =>
    have hc : (s.count cpu i).metrics cpu idx =
        if i = idx then (s.metrics cpu idx + 1) % 2 ^ 64 else s.metrics cpu idx := by
      simp only [Maps.count, Function.update_self]
      split
      · next hi => rw [hi, Function.update_self]
      · next hi => rw [Function.update_of_ne (Ne.symm hi)]
    have hlt : (s.count cpu i).metrics cpu idx < 2 ^ 64 := by
      rw [hc]
      split
      · exact Nat.mod_lt _ (Nat.two_pow_pos 64)
      · exact h
    refine (ih hlt).trans ?_
    rw [hc, List.count_cons]
    by_cases hi : i = idx
    · simp only [hi, ite_true, beq_self_eq_true]
      omega
    · simp [hi]

theorem metrics_countAll_ne {s : Maps} {cpu c : Nat} (h : c ≠ cpu) (idxs : List Metric) :
    (s.countAll cpu idxs).metrics c = s.metrics c := by
  induction idxs generalizing s with
  | nil => rfl
  | cons i idxs ih =>
    refine ih.trans ?_
    simp only [Maps.count, Function.update_of_ne h]

theorem metrics_count (s : Maps) (cpu c : Nat) (idx idx' : Metric) : (s.count cpu idx).metrics c idx' =
    if c = cpu ∧ idx' = idx then (s.metrics cpu idx + 1) % 2 ^ 64 else s.metrics c idx' := by
  show Function.update s.metrics cpu (Function.update (s.metrics cpu) idx _) c idx' = _
  by_cases hc : c = cpu
  · subst hc
    rw [Function.update_self, Function.update_apply]
    simp
  · rw [Function.update_of_ne hc, if_neg fun h => hc h.1]

/-- Counters count no usage. -/
theorem uncounted_countAll (s : Maps) (cpu : Nat) (idxs : List Metric) : Uncounted s (s.countAll cpu idxs) :=
  .of_percpu (by rw [countAll_percpu])

theorem bucket_countAll (e : BucketMap) (s : Maps) (cpu q c : Nat) (idxs : List Metric) :
    e.bucket q c (s.countAll cpu idxs) = e.bucket q c s := by
  simp only [BucketMap.bucket, Maps.elem, countAll_table, countAll_percpu]

/-! ## Entries -/

theorem urrKeys_putCpu (s : Maps) (u : Nat) (v : Nat → Bytes) :
    urrKeys (s.putCpu .urr_counters u v) = insert u (urrKeys s) := by
  ext x
  rw [mem_urrKeys, Finset.mem_insert, mem_urrKeys, Maps.putCpu]
  simp [Finmap.mem_insert]

theorem usage_putCpu_ne {s : Maps} {u u' : Nat} {v : Nat → Bytes} (h : u' ≠ u) (c : Nat) :
    usage (s.putCpu .urr_counters u v) u' c = usage s u' c := by
  have hp : ((s.putCpu .urr_counters u v).percpu .urr_counters).lookup u' = (s.percpu .urr_counters).lookup u' :=
    Maps.percpu_putCpu_ne (.inr h)
  simp only [usage, Maps.elem_percpu (.inr rfl : Maps.PerCpu .urr_counters), hp]

/-- An entry put under `u` that has `w` for CPU `cpu` and is as before, or zero,
for the others. -/
theorem counted_putCpu {s : Maps} {u cpu n : Nat} {v : Nat → Bytes}
    (hs : (⟨(Maps.fit 32 (v cpu)).get urr_val.bytes_ul 8, (Maps.fit 32 (v cpu)).get urr_val.pkts_ul 8⟩ : Usage) =
      (usage s u cpu).add n)
    (ho : ∀ c, c ≠ cpu → Maps.fit 32 (v c) = s.elem .urr_counters u c) :
    Counted u cpu n s (s.putCpu .urr_counters u v) := by
  have he : ∀ c, (s.putCpu .urr_counters u v).elem .urr_counters u c = Maps.fit 32 (v c) := by
    intro c
    rw [Maps.elem_percpu (.inr rfl : Maps.PerCpu .urr_counters), Maps.lookup_putCpu, Option.getD_some]
    rfl
  refine ⟨urrKeys_putCpu s u v, ?_, fun u' c h => ?_⟩
  · rw [← hs]
    simp only [usage, he]
  · by_cases hu : u' = u
    · subst hu
      have hc := ho c (h.resolve_left (· rfl))
      simp only [usage, he, hc]
    · exact usage_putCpu_ne hu c

theorem Counted.trans_uncounted {u cpu n : Nat} {s₁ s₂ s₃ : Maps} (h₁ : Counted u cpu n s₁ s₂) (h₂ : Uncounted s₂ s₃) :
    Counted u cpu n s₁ s₃ :=
  ⟨h₂.keys.trans h₁.keys, (h₂.same u cpu).trans h₁.self, fun u' c h => (h₂.same u' c).trans (h₁.other u' c h)⟩

theorem Uncounted.trans_counted {u cpu n : Nat} {s₁ s₂ s₃ : Maps} (h₁ : Uncounted s₁ s₂) (h₂ : Counted u cpu n s₂ s₃) :
    Counted u cpu n s₁ s₃ := by
  refine ⟨by rw [h₂.keys, h₁.keys], by rw [h₂.self, h₁.same], fun u' c h => ?_⟩
  rw [h₂.other u' c h, h₁.same]

/-! ## Runs -/

variable {H : Helpers} {s : Machine}

/-- The two writes to an entry that is there. -/
def addTo (v : Bytes) (n : Nat) : Bytes :=
  let v := v.set urr_val.bytes_ul (toLE 8 ((v.get urr_val.bytes_ul 8 + n) % 2 ^ 64))
  v.set urr_val.pkts_ul (toLE 8 ((v.get urr_val.pkts_ul 8 + 1) % 2 ^ 64))

theorem length_addTo {v : Bytes} (h : v.length = 32) (n : Nat) : (addTo v n).length = 32 := by
  unfold addTo
  rw [Bytes.length_set, Bytes.length_set, h]
  · rw [length_toLE, h]
    decide
  · rw [Bytes.length_set, length_toLE, h]
    · decide
    · rw [length_toLE, h]
      decide

theorem get_addTo {v : Bytes} (h : v.length = 32) (n : Nat) :
    (⟨(addTo v n).get urr_val.bytes_ul 8, (addTo v n).get urr_val.pkts_ul 8⟩ : Usage) =
      Usage.add ⟨v.get urr_val.bytes_ul 8, v.get urr_val.pkts_ul 8⟩ n := by
  have hb : ∀ x : Nat, urr_val.bytes_ul + (toLE 8 x).length ≤ v.length := fun x => by
    rw [length_toLE, h]
    decide
  have hp : ∀ x y : Nat, urr_val.pkts_ul + (toLE 8 x).length ≤ (v.set urr_val.bytes_ul (toLE 8 y)).length := by
    intro x y
    rw [Bytes.length_set (hb y), length_toLE, h]
    decide
  have hself : ∀ {bs : Bytes} {off x : Nat}, x < 2 ^ 64 → off + (toLE 8 x).length ≤ bs.length →
      (bs.set off (toLE 8 x)).get off 8 = x := by
    intro bs off x hx hl
    have := Bytes.get_set_self hl
    rw [length_toLE, le_toLE_of_lt hx] at this
    exact this
  have hlt : ∀ x : Nat, x % 2 ^ 64 < 2 ^ 64 := fun x => Nat.mod_lt x (by decide)
  simp only [addTo, Usage.add]
  rw [hself (hlt _) (hp _ _), Bytes.get_set_ne (hp _ _) (.inl (by decide)), hself (hlt _) (hb _),
    Bytes.get_set_ne (hb _) (.inr (by rw [length_toLE]; decide))]

theorem length_urr (s : Maps) (u c : Nat) : (s.elem .urr_counters u c).length = 32 := Maps.length_elem s _ u c

theorem counted_addTo (s : Maps) (u cpu n : Nat) : Counted u cpu n s
    (s.setElem .urr_counters u cpu (addTo (s.elem .urr_counters u cpu) n)) := by
  rw [Maps.setElem_percpu (.inr rfl)]
  refine counted_putCpu ?_ fun c hc => ?_
  · rw [Function.update_self, Maps.fit_of_length (length_addTo (length_urr s u cpu) n)]
    exact get_addTo (length_urr s u cpu) n
  · rw [Function.update_of_ne hc]
    rfl

/-- The lookup finds the entry, and each count is read and written in place. -/
theorem urr_found {u n : Nat} (hu : u ≠ 0) (hk : u ∈ urrKeys s.maps) :
    (upf_urr_update u n).run (kernel H) s = some ((), { s with
      maps := (s.maps.setElem .urr_counters u s.cpu (addTo (s.maps.elem .urr_counters u s.cpu) n)).count s.cpu
        .M_TC_URR_UPDATED }) := by
  have hp : kernel H (.lookup .urr_counters u) s = some (some (.elem .urr_counters u), s) := by
    rw [kernel, Maps.ptr, if_pos (mem_urrKeys.mp hk)]
  have hb : ∀ (off : Nat) (v : Bytes), off + 8 ≤ 32 → v.length = 32 → ∀ x, (v.set off (toLE 8 x)).length = 32 := by
    intro off v ho hv x
    rw [Bytes.length_set (by rw [length_toLE, hv]; exact ho), hv]
  have hl := length_urr s.maps u s.cpu
  have hs : ∀ v : Bytes, v.length = 32 → (s.maps.setElem .urr_counters u s.cpu v).elem .urr_counters u s.cpu = v :=
    fun v hv => Maps.elem_setElem (.inl (.inr rfl)) hv
  rw [upf_urr_update, if_neg hu, lookup_bind, Prog.run_ask _ hp]
  simp only [read_bind, write_bind]
  rw [Prog.run_ask _ rfl, Prog.run_ask _ (kernel_write rfl _ _ _ _ _ _), Prog.run_ask _ rfl,
    Prog.run_ask _ (kernel_write rfl _ _ _ _ _ _)]
  simp only [Maps.deref, hs _ (hb urr_val.bytes_ul _ (by decide) hl _),
    Maps.setElem_setElem (m := .urr_counters) (.inl (.inr rfl))]
  rfl

/-- A value for this CPU, and zeros for the others. -/
theorem urr_created {u n : Nat} (hu : u ≠ 0) (hk : u ∉ urrKeys s.maps) (hc : (urrKeys s.maps).card < MAX_URRS) :
    (upf_urr_update u n).run (kernel H) s = some ((), { s with
      maps := (s.maps.putCpu .urr_counters u (Function.update (fun _ => Maps.zeros 32) s.cpu
        (toLE 8 n ++ toLE 8 0 ++ toLE 8 1 ++ toLE 8 0))).count s.cpu .M_TC_URR_UPDATED }) := by
  have hp : kernel H (.lookup .urr_counters u) s = some (none, s) := by
    rw [kernel, Maps.ptr, if_neg (mt mem_urrKeys.mpr hk)]
  have he : ∀ v, s.maps.create .urr_counters u s.cpu v =
      .ok (s.maps.putCpu .urr_counters u (Function.update (fun _ => Maps.zeros 32) s.cpu v)) := fun v => by
    rw [Maps.create, if_neg (mt mem_urrKeys.mpr hk)]
    exact if_pos hc
  rw [upf_urr_update, if_neg hu, lookup_bind, Prog.run_ask _ hp]
  simp only [create_bind, Prog.run, kernel, he]
  rfl

/-- The map is full. -/
theorem urr_lost {u n : Nat} (hu : u ≠ 0) (hk : ¬ HasRoom s.maps u) :
    (upf_urr_update u n).run (kernel H) s = some ((), { s with maps := s.maps.count s.cpu .M_TC_URR_UPDATED }) := by
  obtain ⟨hk, hc⟩ := not_or.mp hk
  have hp : kernel H (.lookup .urr_counters u) s = some (none, s) := by
    rw [kernel, Maps.ptr, if_neg (mt mem_urrKeys.mpr hk)]
  have he : ∀ v, s.maps.create .urr_counters u s.cpu v = .error .E2BIG := fun v => by
    rw [Maps.create, if_neg (mt mem_urrKeys.mpr hk)]
    exact if_neg hc
  rw [upf_urr_update, if_neg hu, lookup_bind, Prog.run_ask _ hp]
  simp only [create_bind, Prog.run, kernel, he]
  rfl

theorem counted_created {s : Maps} {u cpu n : Nat} (hk : u ∉ urrKeys s) :
    Counted u cpu n s (s.putCpu .urr_counters u (Function.update (fun _ => Maps.zeros 32) cpu
      (toLE 8 n ++ toLE 8 0 ++ toLE 8 1 ++ toLE 8 0))) := by
  have hv : (toLE 8 n ++ toLE 8 0 ++ toLE 8 1 ++ toLE 8 0).length = 32 := by simp
  refine counted_putCpu ?_ fun c hc => ?_
  · have hb : (toLE 8 n ++ (toLE 8 0 ++ toLE 8 1 ++ toLE 8 0)).get 0 8 = n % 2 ^ 64 := by
      rw [Bytes.get_append_left (by simp), Bytes.get, List.drop_zero, List.take_of_length_le (by simp), le_toLE]
      norm_num
    have hp : (toLE 8 n ++ toLE 8 0 ++ (toLE 8 1 ++ toLE 8 0)).get urr_val.pkts_ul 8 = (0 + 1) % 2 ^ 64 := by
      rw [Bytes.get_append_right (by simp)]
      rfl
    rw [usage_of_not_mem hk, Usage.add, Function.update_self, Maps.fit_of_length hv, Nat.zero_add]
    refine Usage.ext ?_ ?_
    · rw [List.append_assoc, List.append_assoc, ← List.append_assoc (toLE 8 0)]
      exact hb
    · rw [List.append_assoc]
      exact hp
  · have hn : (s.percpu .urr_counters).lookup u = none := Finmap.lookup_eq_none.mpr fun hm => hk (mem_urrKeys.mpr hm)
    rw [Function.update_of_ne hc, Maps.elem_percpu (.inr rfl : Maps.PerCpu .urr_counters), hn]
    rfl

/-- What a call does to the maps: it counts the packet if there is room for its
URR, and nothing if there is none. -/
structure UrrRun (u cpu n : Nat) (s s' : Maps) : Prop where
  table : s'.table = s.table
  percpu : ∀ m, m ≠ .urr_counters → s'.percpu m = s.percpu m
  metrics : s'.metrics = (s.countAll cpu (urrCounts u)).metrics
  counted : u ≠ 0 → HasRoom s u → Counted u cpu n s s'
  uncounted : u = 0 ∨ ¬ HasRoom s u → Uncounted s s'

theorem UrrRun.bucket {u cpu n : Nat} {s s' : Maps} (h : UrrRun u cpu n s s') (e : BucketMap) (q c : Nat) :
    e.bucket q c s' = e.bucket q c s := by
  have he : s'.elem e.map q c = s.elem e.map q c := by
    rcases e.type with ht | ht
    · have hm : e.map ≠ .urr_counters := fun hm => by
        rw [hm] at ht
        cases ht
      rw [Maps.elem_percpu (.inl ht), Maps.elem_percpu (.inl ht), h.percpu _ hm]
    · rw [Maps.elem_shared ht, Maps.elem_shared ht, h.table]
  simp only [BucketMap.bucket, he]

theorem urr_run (u n : Nat) : ∃ maps, (upf_urr_update u n).run (kernel H) s = some ((), { s with maps }) ∧
    UrrRun u s.cpu n s.maps maps := by
  by_cases hu : u = 0
  · subst hu
    exact ⟨s.maps, rfl, rfl, fun _ _ => rfl, rfl, fun h => absurd rfl h, fun _ => .refl _⟩
  have hp : ∀ v m, m ≠ .urr_counters → (s.maps.putCpu .urr_counters u v).percpu m = s.maps.percpu m :=
    fun v m hm => Function.update_of_ne hm _ _
  have hm : (s.maps.countAll s.cpu (urrCounts u)).metrics = (s.maps.count s.cpu .M_TC_URR_UPDATED).metrics := by
    rw [urrCounts, if_neg hu]
    rfl
  by_cases hk : u ∈ urrKeys s.maps
  · refine ⟨_, urr_found hu hk, ?_⟩
    rw [Maps.setElem_percpu (.inr rfl : Maps.PerCpu .urr_counters)]
    refine ⟨rfl, hp _, hm.symm, fun _ _ => ?_, fun h => absurd (.inl hk) (h.resolve_left hu)⟩
    rw [← Maps.setElem_percpu (.inr rfl : Maps.PerCpu .urr_counters)]
    exact (counted_addTo _ _ _ _).trans_uncounted (uncounted_countAll _ _ [.M_TC_URR_UPDATED])
  by_cases hc : (urrKeys s.maps).card < MAX_URRS
  · refine ⟨_, urr_created hu hk hc, rfl, hp _, hm.symm, fun _ _ => ?_, fun h =>
      absurd (.inr hc) (h.resolve_left hu)⟩
    exact (counted_created hk).trans_uncounted (uncounted_countAll _ _ [.M_TC_URR_UPDATED])
  · have hr : ¬ HasRoom s.maps u := fun h => h.elim hk hc
    exact ⟨_, urr_lost hu hr, rfl, fun _ _ => rfl, hm.symm, fun _ h => absurd h hr,
      fun _ => uncounted_countAll _ _ [.M_TC_URR_UPDATED]⟩

end UPF
