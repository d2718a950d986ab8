import EbpfUpf.Impl.Maps

/-!
# Maps: lookups after updates

A lookup after an update finds the value written under its key and what was
there before under every other (`lookup_put`), and an update that succeeds is
a `put`, a delete a `drop` (`update_ok`, `delete_ok`). A write to an element
is read back, and leaves the other elements alone (`elem_setElem`,
`elem_setElem_ne`).
-/

open Framework

namespace UPF.Maps

theorem lookup_congr {s s' : Maps} {m : MapName} (h : s'.table m = s.table m) (k : Nat) :
    s'.lookup m k = s.lookup m k := by
  simp only [lookup, h]

@[simp] theorem table_put (s : Maps) (m : MapName) (k : Nat) (v : Bytes) :
    (s.put m k v).table m = (s.table m).insert k v := by
  simp [put]

theorem table_put_ne (s : Maps) {m m' : MapName} (k : Nat) (v : Bytes) (h : m' ≠ m) :
    (s.put m k v).table m' = s.table m' := by
  simp [put, h]

@[simp] theorem table_drop (s : Maps) (m : MapName) (k : Nat) :
    (s.drop m k).table m = (s.table m).erase k := by
  simp [drop]

theorem table_drop_ne (s : Maps) {m m' : MapName} (k : Nat) (h : m' ≠ m) :
    (s.drop m k).table m' = s.table m' := by
  simp [drop, h]

/-- The maps whose keys come and go. -/
def Hash (m : MapName) : Prop := m.type = .HASH ∨ m.type = .LRU_HASH

theorem lookup_hash {s : Maps} {m : MapName} (h : Hash m) (k : Nat) :
    s.lookup m k = (s.table m).lookup k := by
  rcases h with h | h <;> simp only [lookup, h]

theorem lookup_array {s : Maps} {m : MapName} (h : m.type = .ARRAY) {k : Nat} (hk : k < m.max_entries) :
    s.lookup m k = some (((s.table m).lookup k).getD (zeros m.value_size)) := by
  simp only [lookup, h, hk, ite_true]

theorem lookup_array_none {s : Maps} {m : MapName} (h : m.type = .ARRAY) {k : Nat}
    (hk : ¬ k < m.max_entries) : s.lookup m k = none := by
  simp only [lookup, h, hk, ite_false]

theorem lookup_put_ne {s : Maps} {m m' : MapName} {k k' : Nat} {v : Bytes} (h : m' ≠ m ∨ k' ≠ k) :
    (s.put m k v).lookup m' k' = s.lookup m' k' := by
  by_cases hm : m' = m
  · subst hm
    have hk : k' ≠ k := h.resolve_left (· rfl)
    simp only [lookup, table_put, Finmap.lookup_insert_of_ne _ hk]
  · exact lookup_congr (table_put_ne s k v hm) k'

theorem lookup_put_hash {s : Maps} {m : MapName} (h : Hash m) (k : Nat) (v : Bytes) :
    (s.put m k v).lookup m k = some v := by
  rw [lookup_hash h, table_put, Finmap.lookup_insert]

theorem lookup_put_array {s : Maps} {m : MapName} (h : m.type = .ARRAY) {k : Nat} (v : Bytes)
    (hk : k < m.max_entries) : (s.put m k v).lookup m k = some v := by
  rw [lookup_array h hk, table_put, Finmap.lookup_insert, Option.getD_some]

theorem lookup_drop_ne {s : Maps} {m m' : MapName} {k k' : Nat} (h : m' ≠ m ∨ k' ≠ k) :
    (s.drop m k).lookup m' k' = s.lookup m' k' := by
  by_cases hm : m' = m
  · subst hm
    have hk : k' ≠ k := h.resolve_left (· rfl)
    simp only [lookup, table_drop, Finmap.lookup_erase_ne hk]
  · exact lookup_congr (table_drop_ne s k hm) k'

theorem lookup_drop_hash {s : Maps} {m : MapName} (h : Hash m) (k : Nat) :
    (s.drop m k).lookup m k = none := by
  rw [lookup_hash h, table_drop, Finmap.lookup_erase]

theorem lookup_table_put (s : Maps) (m m' : MapName) (k k' : Nat) (v : Bytes) :
    ((s.put m k v).table m').lookup k' = if m' = m ∧ k' = k then some v else (s.table m').lookup k' := by
  by_cases hm : m' = m
  · subst hm
    by_cases hk : k' = k
    · subst hk
      simp
    · simp [hk, Finmap.lookup_insert_of_ne _ hk]
  · rw [table_put_ne s k v hm, if_neg (by simp [hm])]

theorem lookup_table_drop (s : Maps) (m m' : MapName) (k k' : Nat) :
    ((s.drop m k).table m').lookup k' = if m' = m ∧ k' = k then none else (s.table m').lookup k' := by
  by_cases hm : m' = m
  · subst hm
    by_cases hk : k' = k
    · subst hk
      simp
    · simp [hk, Finmap.lookup_erase_ne hk]
  · rw [table_drop_ne s k hm, if_neg (by simp [hm])]

theorem mem_put (s : Maps) (m m' : MapName) (k k' : Nat) (v : Bytes) :
    k' ∈ (s.put m k v).table m' ↔ (m' = m ∧ k' = k) ∨ k' ∈ s.table m' := by
  rw [← Finmap.lookup_isSome, ← Finmap.lookup_isSome, lookup_table_put]
  split
  · next h => simp [h]
  · next h => simp [h]

theorem mem_drop (s : Maps) (m m' : MapName) (k k' : Nat) :
    k' ∈ (s.drop m k).table m' ↔ ¬ (m' = m ∧ k' = k) ∧ k' ∈ s.table m' := by
  rw [← Finmap.lookup_isSome, ← Finmap.lookup_isSome, lookup_table_drop]
  split
  · next h => simp [h]
  · next h => simp [h]

theorem update_ok {s s' : Maps} {m : MapName} {k : Nat} {v : Bytes} (h : s.update m k v = .ok s') :
    s' = s.put m k v ∧ (m.type = .ARRAY → k < m.max_entries) ∧ (m.type = .ARRAY ∨ Hash m) := by
  unfold update at h
  split at h
  · next ht =>
    split at h <;> cases h
    next hk => exact ⟨rfl, fun _ => hk, .inl ht⟩
  · next ht =>
    split at h <;> cases h
    exact ⟨rfl, fun ha => by simp [ht] at ha, .inr (.inl ht)⟩
  · next ht =>
    cases h
    exact ⟨rfl, fun ha => by simp [ht] at ha, .inr (.inr ht)⟩
  · cases h

theorem delete_ok {s s' : Maps} {m : MapName} {k : Nat} (h : s.delete m k = .ok s') :
    s' = s.drop m k ∧ Hash m := by
  unfold delete at h
  split at h
  · next ht =>
    split at h <;> cases h
    exact ⟨rfl, .inl ht⟩
  · next ht =>
    split at h <;> cases h
    exact ⟨rfl, .inr ht⟩
  · cases h

/-- A delete that fails found no key. -/
theorem delete_error {s : Maps} {m : MapName} {k : Nat} {e : Errno} (hm : Hash m)
    (h : s.delete m k = .error e) : s.lookup m k = none := by
  rw [lookup_hash hm, Finmap.lookup_eq_none]
  rcases hm with hm | hm
  all_goals
    simp only [delete, hm] at h
    split at h
    · cases h
    · assumption

/-! ## Elements -/

theorem length_fit (n : Nat) (v : Bytes) : (fit n v).length = n := by
  simp [fit, zeros]

theorem fit_of_length {n : Nat} {v : Bytes} (h : v.length = n) : fit n v = v := by
  rw [fit, List.take_left' h]

/-- The fields of a value are those of the element that holds it. -/
theorem get_fit {n off w : Nat} (h : off + w ≤ n) (v : Bytes) : (fit n v).get off w = v.get off w := by
  have hw : min w (n - off) = w := by omega
  rw [Bytes.get, fit, zeros, List.drop_take, List.take_take, hw, List.drop_append, List.take_append,
    List.drop_replicate, List.take_replicate, le_append_zeros, Bytes.get]

/-- The element of an array that holds the value a lookup finds. -/
theorem elem_array {s : Maps} {m : MapName} (h : m.type = .ARRAY) {k : Nat} {v : Bytes}
    (hl : s.lookup m k = some v) (cpu : Nat) : s.elem m k cpu = fit m.value_size v := by
  simp only [lookup, h] at hl
  split at hl
  · simp only [elem, h]
    cases hk : (s.table m).lookup k with
    | none =>
      rw [hk] at hl
      cases hl
      simp [fit, zeros]
    | some w =>
      rw [hk] at hl
      cases hl
      rfl
  · cases hl

theorem length_elem (s : Maps) (m : MapName) (k cpu : Nat) :
    (s.elem m k cpu).length = m.value_size := length_fit _ _

/-- A map with a value for each CPU. -/
def PerCpu (m : MapName) : Prop := m.type = .PERCPU_ARRAY ∨ m.type = .PERCPU_HASH

theorem setElem_percpu {s : Maps} {m : MapName} (h : PerCpu m) (k cpu : Nat) (v : Bytes) :
    s.setElem m k cpu v =
      s.putCpu m k (Function.update (((s.percpu m).lookup k).getD fun _ => []) cpu v) := by
  rcases h with h | h <;> simp only [setElem, h]

theorem elem_percpu {s : Maps} {m : MapName} (h : PerCpu m) (k cpu : Nat) :
    s.elem m k cpu = fit m.value_size ((((s.percpu m).lookup k).getD fun _ => []) cpu) := by
  rcases h with h | h <;> simp only [elem, h]

theorem elem_shared {s : Maps} {m : MapName} (h : m.type = .ARRAY) (k cpu : Nat) :
    s.elem m k cpu = fit m.value_size (((s.table m).lookup k).getD []) := by
  simp only [elem, h]

theorem setElem_shared {s : Maps} {m : MapName} (h : m.type = .ARRAY) (k cpu : Nat) (v : Bytes) :
    s.setElem m k cpu v = s.put m k v := by
  simp only [setElem, h]

theorem lookup_putCpu (s : Maps) (m : MapName) (k : Nat) (v : Nat → Bytes) :
    ((s.putCpu m k v).percpu m).lookup k = some v := by
  simp [putCpu]

theorem percpu_putCpu_ne {s : Maps} {m m' : MapName} {k k' : Nat} {v : Nat → Bytes}
    (h : m' ≠ m ∨ k' ≠ k) :
    ((s.putCpu m k v).percpu m').lookup k' = (s.percpu m').lookup k' := by
  by_cases hm : m' = m
  · subst hm
    simp [putCpu, Finmap.lookup_insert_of_ne _ (h.resolve_left (· rfl))]
  · simp [putCpu, hm]

theorem elem_setElem {s : Maps} {m : MapName} (hm : PerCpu m ∨ m.type = .ARRAY) {k cpu : Nat}
    {v : Bytes} (hv : v.length = m.value_size) : (s.setElem m k cpu v).elem m k cpu = v := by
  rcases hm with hm | hm
  · rw [setElem_percpu hm, elem_percpu hm, lookup_putCpu, Option.getD_some, Function.update_self,
      fit_of_length hv]
  · rw [setElem_shared hm, elem_shared hm, table_put, Finmap.lookup_insert, Option.getD_some,
      fit_of_length hv]

/-- Other CPUs' elements of a per-CPU map are left alone. -/
theorem elem_setElem_cpu {s : Maps} {m : MapName} (hm : PerCpu m) {k cpu cpu' : Nat} {v : Bytes}
    (h : cpu' ≠ cpu) : (s.setElem m k cpu v).elem m k cpu' = s.elem m k cpu' := by
  rw [setElem_percpu hm, elem_percpu hm, lookup_putCpu, Option.getD_some,
    Function.update_of_ne h, elem_percpu hm]

theorem setElem_setElem {s : Maps} {m : MapName} (hm : PerCpu m ∨ m.type = .ARRAY) (k cpu : Nat)
    (v w : Bytes) : (s.setElem m k cpu v).setElem m k cpu w = s.setElem m k cpu w := by
  rcases hm with hm | hm
  · simp only [setElem_percpu hm]
    rw [lookup_putCpu, Option.getD_some, Function.update_idem]
    simp [putCpu, Finmap.insert_insert]
  · rw [setElem_shared hm, setElem_shared hm, setElem_shared hm]
    simp [put, Finmap.insert_insert]

end UPF.Maps
