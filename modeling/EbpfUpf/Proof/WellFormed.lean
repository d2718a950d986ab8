import EbpfUpf.Framework.Typestate
import EbpfUpf.Proof.Verifier
import EbpfUpf.Spec.Testbed

/-!
# Well-formed maps

Each way to change the maps keeps them well formed: an update or a delete by a
sized system call (`sys_wellFormed`), an eviction, and what the kernel does for
a programme that keeps to the verifier's rules, to which it then also gives an
answer that these allow for (`kernel_answers`). A pointer that a lookup
returned stays good for as long as it is held, whatever the others do
(`Ptr.Live`).
-/

open Framework

namespace UPF

variable {s s' : Maps} {m : MapName} {k : Nat}

namespace Maps.WellFormed

theorem empty : Maps.empty.WellFormed where
  value h := by simp [Maps.empty] at h
  percpu_value h := by simp [Maps.empty] at h
  key h := absurd h Finmap.notMem_empty
  array _ h := absurd h Finmap.notMem_empty
  percpu_array _ h := absurd h Finmap.notMem_empty
  hash _ := by simp [Maps.empty]
  percpu_hash _ := by simp [Maps.empty]

/-- The size of a map that is given a key for which it has room. -/
theorem card_insert {α : Type} {t : Finmap fun _ : Nat => α} {v : α} {n : Nat} (hn : t.keys.card ≤ n)
    (h : k ∈ t ∨ t.keys.card < n) : (t.insert k v).keys.card ≤ n := by
  have hk : (t.insert k v).keys = insert k t.keys := by
    ext k'
    simp [Finmap.mem_keys]
  rw [hk]
  rcases h with h | h
  · rwa [Finset.insert_eq_of_mem (Finmap.mem_keys.mpr h)]
  · have := Finset.card_insert_le k t.keys
    omega

theorem card_erase {α : Type} (t : Finmap fun _ : Nat => α) : (t.erase k).keys.card ≤ t.keys.card := by
  apply Finset.card_le_card
  intro k' hk'
  rw [Finmap.mem_keys, Finmap.mem_erase] at hk'
  exact Finmap.mem_keys.mpr hk'.2

theorem put (h : s.WellFormed) {v : Bytes} (hv : v.length = m.value_size) (hk : k < 2 ^ 32)
    (ha : m.type = .ARRAY → k < m.max_entries)
    (hr : m.type = .HASH → k ∈ s.table m ∨ (s.table m).keys.card < m.max_entries) : (s.put m k v).WellFormed where
  value {m' k' v'} h' := by
    rw [lookup_table_put] at h'
    split at h'
    · next he =>
      cases h'
      rw [he.1, hv]
    · exact h.value h'
  percpu_value := h.percpu_value
  key {m' k'} h' := by
    rcases (mem_put s m m' k k' v).mp h' with ⟨-, rfl⟩ | h'
    · exact hk
    · exact h.key h'
  array {m' k'} ht h' := by
    rcases (mem_put s m m' k k' v).mp h' with ⟨rfl, rfl⟩ | h'
    · exact ha ht
    · exact h.array ht h'
  percpu_array := h.percpu_array
  hash {m'} ht := by
    by_cases hm : m' = m
    · subst hm
      rw [table_put]
      exact card_insert (h.hash ht) (hr ht)
    · rw [table_put_ne s k v hm]
      exact h.hash ht
  percpu_hash := h.percpu_hash

theorem drop (h : s.WellFormed) (m : MapName) (k : Nat) : (s.drop m k).WellFormed where
  value {m' k' v'} h' := by
    rw [lookup_table_drop] at h'
    split at h'
    · cases h'
    · exact h.value h'
  percpu_value := h.percpu_value
  key h' := h.key ((mem_drop s m _ k _).mp h').2
  array ht h' := h.array ht ((mem_drop s m _ k _).mp h').2
  percpu_array := h.percpu_array
  hash {m'} ht := by
    by_cases hm : m' = m
    · subst hm
      rw [table_drop]
      exact (card_erase _).trans (h.hash ht)
    · rw [table_drop_ne s k hm]
      exact h.hash ht
  percpu_hash := h.percpu_hash

theorem mem_putCpu (s : Maps) (m m' : MapName) (k k' : Nat) (f : Nat → Bytes) :
    k' ∈ (s.putCpu m k f).percpu m' ↔ (m' = m ∧ k' = k) ∨ k' ∈ s.percpu m' := by
  by_cases h : m' = m ∧ k' = k
  · obtain ⟨rfl, rfl⟩ := h
    simp [← Finmap.lookup_isSome, lookup_putCpu]
  · have hne : m' ≠ m ∨ k' ≠ k := by
      by_cases hm : m' = m
      · exact .inr fun hk => h ⟨hm, hk⟩
      · exact .inl hm
    rw [← Finmap.lookup_isSome, ← Finmap.lookup_isSome, percpu_putCpu_ne hne]
    simp [h]

theorem putCpu (h : s.WellFormed) {f : Nat → Bytes} (hf : ∀ cpu, (f cpu).length ≤ m.value_size)
    (ha : m.type = .PERCPU_ARRAY → k < m.max_entries)
    (hr : m.type = .PERCPU_HASH → k ∈ s.percpu m ∨ (s.percpu m).keys.card < m.max_entries) :
    (s.putCpu m k f).WellFormed where
  value := h.value
  percpu_value {m' k' f'} h' cpu := by
    by_cases hm : m' = m ∧ k' = k
    · obtain ⟨rfl, rfl⟩ := hm
      rw [lookup_putCpu] at h'
      cases h'
      exact hf cpu
    · rw [percpu_putCpu_ne (by rcases not_and_or.mp hm with hm | hm <;> simp [hm])] at h'
      exact h.percpu_value h' cpu
  key := h.key
  array := h.array
  percpu_array {m' k'} ht h' := by
    rcases (mem_putCpu s m m' k k' f).mp h' with ⟨rfl, rfl⟩ | h'
    · exact ha ht
    · exact h.percpu_array ht h'
  hash := h.hash
  percpu_hash {m'} ht := by
    by_cases hm : m' = m
    · subst hm
      simp only [Maps.putCpu, Function.update_self]
      exact card_insert (h.percpu_hash ht) (hr ht)
    · simp only [Maps.putCpu, Function.update_of_ne hm]
      exact h.percpu_hash ht

theorem count (h : s.WellFormed) (cpu : Nat) (idx : Metric) : (s.count cpu idx).WellFormed :=
  ⟨h.value, h.percpu_value, h.key, h.array, h.percpu_array, h.hash, h.percpu_hash⟩

end Maps.WellFormed

/-! ## System calls -/

theorem update_hash {v : Bytes} (h : s.update m k v = .ok s') (hm : m.type = .HASH) :
    k ∈ s.table m ∨ (s.table m).keys.card < m.max_entries := by
  simp only [Maps.update, hm] at h
  split at h
  · assumption
  · cases h

theorem key_lt {bs : Bytes} (h : bs.length = 4) : le bs < 2 ^ 32 := by
  have := le_lt bs
  rw [h] at this
  exact this

theorem sys_wellFormed {o : Syscall} {r : Except Errno Bytes} (h : sys o s = some (r, s')) (ho : Sized o)
    (hs : s.WellFormed) : s'.WellFormed := by
  cases o with
  | update m key v =>
    simp only [sys] at h
    split at h <;> cases h
    · next hu =>
      obtain ⟨rfl, ha, -⟩ := Maps.update_ok hu
      exact hs.put ho.2 (key_lt ho.1) ha (update_hash hu)
    · exact hs
  | lookup m key n =>
    simp only [sys] at h
    split at h <;> cases h <;> exact hs
  | delete m key =>
    simp only [sys] at h
    split at h <;> cases h
    · next hd =>
      obtain ⟨rfl, -⟩ := Maps.delete_ok hd
      exact hs.drop m (le key)
    · exact hs

/-! ## Pointers -/

/-- The pointer leads to a value of its map. -/
def Ptr.Live (s : Maps) : Ptr → Prop
  | value m v => m.datapath = false ∧ v.length = m.value_size
  | elem m k => m.datapath = true ∧ if m.type = .PERCPU_HASH then k ∈ s.percpu m else k < m.max_entries

/-- No element goes away. -/
def Lasting (s s' : Maps) : Prop := ∀ m, ∀ k ∈ s.percpu m, k ∈ s'.percpu m

theorem Ptr.Live.mono {p : Ptr} (h : p.Live s) (hs : Lasting s s') : p.Live s' := by
  cases p with
  | value m v => exact h
  | elem m k =>
    refine ⟨h.1, ?_⟩
    have := h.2
    split at this
    · next ht => rw [if_pos ht]; exact hs m k this
    · next ht => rwa [if_neg ht]

theorem Lasting.of_eq (h : s'.percpu = s.percpu) : Lasting s s' := fun _ _ hk => h ▸ hk

theorem Ptr.Live.length_deref {p : Ptr} (h : p.Live s) (cpu : Nat) : (s.deref cpu p).length = p.map.value_size := by
  cases p with
  | value m v => exact h.2
  | elem m k => exact Maps.length_elem s m k cpu

theorem lookup_length (hs : s.WellFormed) {v : Bytes} (h : s.lookup m k = some v) : v.length = m.value_size := by
  unfold Maps.lookup at h
  split at h
  · split at h <;> cases h
    cases ht : (s.table m).lookup k with
    | none => simp [Maps.zeros]
    | some v => exact hs.value ht
  · exact hs.value h
  · exact hs.value h
  · cases h

/-- What a lookup returns is a pointer to a value of the map. -/
theorem ptr_live (hs : s.WellFormed) {p : Ptr} (h : s.ptr m k = some p) : p.Of m k ∧ p.Live s := by
  have hof := ptr_of h
  refine ⟨hof, ?_⟩
  cases p with
  | elem m' k' =>
    obtain ⟨rfl, rfl, hm⟩ := hof
    refine ⟨hm, ?_⟩
    cases m' <;> simp [MapName.datapath, Maps.ptr, MapName.type] at hm h ⊢ <;> exact h
  | value m' v =>
    obtain ⟨rfl, hm⟩ := hof
    rw [ptr_value hm] at h
    obtain ⟨v', hv, he⟩ := Option.map_eq_some_iff.mp h
    cases he
    exact ⟨hm, lookup_length hs hv⟩

theorem setElem_wellFormed (hs : s.WellFormed) (cpu : Nat) {v : Bytes} (hp : (Ptr.elem m k).Live s)
    (hv : v.length = m.value_size) : (s.setElem m k cpu v).WellFormed ∧ Lasting s (s.setElem m k cpu v) := by
  obtain ⟨hd, hk⟩ := hp
  by_cases hm : Maps.PerCpu m
  · rw [Maps.setElem_percpu hm]
    refine ⟨hs.putCpu (fun cpu' => ?_) (fun ht => ?_) (fun ht => ?_), fun m' k' h => ?_⟩
    · by_cases hc : cpu' = cpu
      · rw [hc, Function.update_self, hv]
      · rw [Function.update_of_ne hc]
        cases hl : (s.percpu m).lookup k with
        | none => exact Nat.zero_le _
        | some f => exact hs.percpu_value hl cpu'
    · rwa [if_neg (by simp [ht])] at hk
    · rw [if_pos ht] at hk
      exact .inl hk
    · exact (Maps.WellFormed.mem_putCpu s m m' k k' _).mpr (.inr h)
  · have hm : m.type = .ARRAY := by
      cases m <;> simp [MapName.datapath, Maps.PerCpu, MapName.type] at hd hm ⊢
    rw [if_neg (by simp [hm])] at hk
    rw [Maps.setElem_shared hm]
    refine ⟨hs.put hv ?_ (fun _ => hk) fun ht => ?_, fun m' k' h => h⟩
    · have : m.max_entries ≤ 2 ^ 32 := by cases m <;> decide
      omega
    · rw [hm] at ht
      cases ht

theorem create_wellFormed (hs : s.WellFormed) {cpu : Nat} {v : Bytes} (hm : m.type = .PERCPU_HASH)
    (hv : v.length = m.value_size) (h : s.create m k cpu v = .ok s') : s'.WellFormed ∧ Lasting s s' := by
  unfold Maps.create at h
  split at h
  · cases h
  split at h <;> cases h
  next hr =>
  refine ⟨hs.putCpu (fun cpu' => ?_) (fun ht => ?_) fun _ => .inr hr, fun m' k' h => ?_⟩
  · by_cases hc : cpu' = cpu
    · rw [hc, Function.update_self, hv]
    · rw [Function.update_of_ne hc]
      simp [Maps.zeros]
  · rw [hm] at ht
    cases ht
  · exact (Maps.WellFormed.mem_putCpu s m m' k k' _).mpr (.inr h)

/-! ## The kernel -/

/-- What is known of a programme is so in the state that it is in. -/
structure Tracks (K : Known) (x : Machine) : Prop where
  maps : x.maps.WellFormed
  bytes : ∀ {e}, K.bytes = some e → e = x.frame.length
  live : ∀ {p}, p ∈ K.held → p.Live x.maps

namespace Tracks

variable {K : Known} {x : Machine}

theorem start (hs : s.WellFormed) (cpu ticks : Nat) (frame : Bytes) : Tracks .start ⟨s, cpu, frame, ticks⟩ where
  maps := hs
  bytes h := by cases h
  live h := absurd h List.not_mem_nil

/-- Whatever the others do, as long as no element goes away. -/
theorem env (h : Tracks K x) (hs : s.WellFormed) (hl : Lasting x.maps s) : Tracks K { x with maps := s } :=
  ⟨hs, h.bytes, fun hp => (h.live hp).mono hl⟩

theorem within (h : Tracks K x) {off n : Nat} (hw : K.Within off n) : off + n ≤ x.frame.length := by
  obtain ⟨e, he, hw⟩ := hw
  rwa [← h.bytes he]

theorem valid (h : Tracks K x) {p : Ptr} {off n : Nat} (hv : K.Valid p off n) :
    off + n ≤ (x.maps.deref x.cpu p).length := by
  rw [(h.live hv.1).length_deref]
  exact hv.2.1

end Tracks

/-- No element goes away by an operation that the rules allow. -/
theorem kernel_answers {K : Known} {x : Machine} {o : Op Ptr} (H : Helpers) (ht : Tracks K x) (ha : K.Allowed o) :
    ∃ r x', kernel H o x = some (r, x') ∧ K.Possible o r ∧ Tracks (K.next o r) x' ∧ Lasting x.maps x'.maps := by
  have same : ∀ s : Maps, Lasting s s := fun _ _ _ hk => hk
  cases o with
  | load off n => exact ⟨_, x, by rw [kernel, if_pos (ht.within ha)], trivial, ht, same _⟩
  | store off val =>
    have hw := ht.within ha
    refine ⟨(), { x with frame := x.frame.set off val }, by rw [kernel, if_pos hw], trivial,
      ⟨ht.maps, fun he => ?_, ht.live⟩, same _⟩
    rw [ht.bytes he, Bytes.length_set hw]
  | data_end => exact ⟨_, x, rfl, trivial, ⟨ht.maps, fun he => (Option.some.inj he).symm, ht.live⟩, same _⟩
  | len => exact ⟨_, x, rfl, trivial, ht, same _⟩
  | lookup m key =>
    refine ⟨_, x, rfl, fun p hp => (ptr_live ht.maps hp).1, ⟨ht.maps, ht.bytes, fun hp => ?_⟩, same _⟩
    rcases List.mem_append.mp hp with hp | hp
    · exact (ptr_live ht.maps (Option.mem_toList.mp hp)).2
    · exact ht.live hp
  | read p off n => exact ⟨_, x, rfl, trivial, ht, same _⟩
  | write p off n v =>
    have hp := ht.live ha.2.1
    cases p with
    | value m v => cases hp.1.symm.trans ha.1
    | elem m k =>
      have hl : ((x.maps.elem m k x.cpu).set off (toLE n v)).length = m.value_size := by
        rw [Bytes.length_set, Maps.length_elem]
        rw [length_toLE, Maps.length_elem]
        exact ha.2.2.1
      obtain ⟨hs, hk⟩ := setElem_wellFormed ht.maps x.cpu hp hl
      exact ⟨(), _, kernel_write ha.1 H x k off n v, trivial, ht.env hs hk, hk⟩
  | create m key val =>
    cases hc : x.maps.create m key x.cpu val with
    | ok s =>
      obtain ⟨hs, hk⟩ := create_wellFormed ht.maps ha.2.1 ha.2.2 hc
      exact ⟨(), _, by simp only [kernel, hc], trivial, ht.env hs hk, hk⟩
    | error e => exact ⟨(), x, by simp only [kernel, hc], trivial, ht, same _⟩
  | bump idx => exact ⟨(), _, rfl, trivial, ht.env (ht.maps.count x.cpu idx) (same _), same _⟩
  | ktime_get_ns => exact ⟨_, _, rfl, trivial, ⟨ht.maps, ht.bytes, ht.live⟩, same _⟩
  | adjust_room d mode flags =>
    by_cases hd : H.adjust_room d < 0
    · refine ⟨_, x, by rw [kernel, if_pos hd], trivial, ⟨ht.maps, fun he => ?_, ht.live⟩, same _⟩
      cases he
    · refine ⟨_, { x with frame := resize x.frame H.room d }, by rw [kernel, if_neg hd], trivial,
        ⟨ht.maps, fun he => ?_, ht.live⟩, same _⟩
      cases he
  | redirect ifindex flags => exact ⟨_, x, rfl, trivial, ht, same _⟩
  | perf_event_output data => exact ⟨(), x, rfl, trivial, ht, same _⟩
  | spin_lock p => exact ⟨(), x, rfl, trivial, ⟨ht.maps, ht.bytes, ht.live⟩, same _⟩
  | spin_unlock p => exact ⟨(), x, rfl, trivial, ⟨ht.maps, ht.bytes, ht.live⟩, same _⟩

end UPF
