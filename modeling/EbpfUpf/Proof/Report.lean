import EbpfUpf.Proof.Usage

/-!
# What the reports say

`read_urr` gives what its URR has counted on all CPUs (`read_urr_eq`), whatever
the order of the dump, and `read_metrics` the total of each counter under its
name (`read_metrics_eq`).
-/

open Framework

namespace UPF

theorem unpack_cons {c : Fmt} {cs : List Fmt} {bs : Bytes} (h : c.width ≤ bs.length) :
    unpack (c :: cs) bs = (unpack cs (bs.drop c.width)).map (le (bs.take c.width) :: ·) := by
  rw [unpack, if_neg (by omega)]
  rfl

theorem unpack_one {c : Fmt} {bs : Bytes} (h : bs.length = c.width) : unpack [c] bs = .ok [le bs] := by
  rw [unpack_cons h.ge, List.drop_of_length_le h.le, List.take_of_length_le h.le]
  rfl

theorem unpack_toLE (c : Fmt) (v : Nat) : unpack [c] (toLE c.width v) = .ok [v % 256 ^ c.width] := by
  rw [unpack_one (length_toLE _ _), le_toLE]

theorem unpack_urr {bs : Bytes} (h : bs.length = 32) : unpack [.Q, .Q, .Q, .Q] bs =
    .ok [bs.get urr_val.bytes_ul 8, bs.get urr_val.bytes_dl 8, bs.get urr_val.pkts_ul 8, bs.get urr_val.pkts_dl 8] := by
  have h3 : (((bs.drop 8).drop 8).drop 8).length = Fmt.Q.width := by
    rw [List.length_drop, List.length_drop, List.length_drop, h]
    decide
  rw [unpack_cons (by rw [h]; decide), unpack_cons (by rw [List.length_drop, h]; decide),
    unpack_cons (by rw [List.length_drop, List.length_drop, h]; decide)]
  change (((unpack [.Q] (((bs.drop 8).drop 8).drop 8)).map _).map _).map _ = _
  rw [unpack_one h3]
  simp only [Except.map, List.drop_drop, Bytes.get, Fmt.width]
  rw [List.take_of_length_le (l := bs.drop urr_val.pkts_dl) (by rw [List.length_drop, h]; decide)]
  rfl

/-! ## Sums -/

/-- The loop over the values of a URR, by induction on them. -/
theorem sum_urr (s : Maps) (u : Nat) (cpus : List Nat) (sum : UrrReport) :
    (cpus.map fun cpu => s.elem .urr_counters u cpu).foldlM add_urr sum =
      .ok ⟨sum.bytes_ul + (cpus.map fun cpu => (usage s u cpu).bytes).sum,
        sum.pkts_ul + (cpus.map fun cpu => (usage s u cpu).pkts).sum⟩ := by
  induction cpus generalizing sum with
  | nil => rfl
  | cons cpu cpus ih =>
    have ha : add_urr sum (s.elem .urr_counters u cpu) =
        .ok ⟨sum.bytes_ul + (usage s u cpu).bytes, sum.pkts_ul + (usage s u cpu).pkts⟩ := by
      rw [add_urr, unpack_urr (length_urr s u cpu)]
      rfl
    rw [List.map_cons, List.foldlM_cons, ha]
    refine (ih _).trans ?_
    simp only [List.map_cons, List.sum_cons, Nat.add_assoc]

theorem sum_metric (s : Maps) (idx : Metric) (cpus : List Nat) (total : Nat) :
    (cpus.map fun cpu => toLE 8 (s.metrics cpu idx)).foldlM add_metric total =
      .ok (total + (cpus.map fun cpu => s.metrics cpu idx % 2 ^ 64).sum) := by
  induction cpus generalizing total with
  | nil => rfl
  | cons cpu cpus ih =>
    have ha : add_metric total (toLE 8 (s.metrics cpu idx)) = .ok (total + s.metrics cpu idx % 2 ^ 64) := by
      have hu : unpack [.Q] (toLE 8 (s.metrics cpu idx)) = .ok [s.metrics cpu idx % 2 ^ 64] := unpack_toLE .Q _
      rw [add_metric, hu]
      rfl
    rw [List.map_cons, List.foldlM_cons, ha]
    refine (ih _).trans ?_
    simp only [List.map_cons, List.sum_cons, Nat.add_assoc]

/-! ## Reports -/

theorem sum_range_list (N : Nat) (f : Nat → Nat) : ((List.range N).map f).sum = ∑ cpu ∈ Finset.range N, f cpu := by
  rfl

/-- The loop over the entries, by induction on them. -/
theorem read_urr_keys {N : Nat} {s : Maps} {keys : List Nat} (hk : ∀ k ∈ keys, k < 2 ^ 32) (u : Nat) :
    read_urr (keys.map fun k => ⟨toLE 4 k, (List.range N).map fun cpu => s.elem .urr_counters k cpu⟩) u =
      .ok (if u ∈ keys then some (total N s u) else none) := by
  induction keys with
  | nil => rfl
  | cons k keys ih =>
    have hu : unpack [.I] (toLE 4 k) = .ok [k] :=
      (unpack_toLE .I k).trans (congrArg (fun x => Except.ok [x]) (Nat.mod_eq_of_lt (hk k List.mem_cons_self)))
    have ih := ih fun k' hk' => hk k' (List.mem_cons_of_mem _ hk')
    by_cases h : k = u
    · subst h
      rw [List.map_cons, read_urr, hu, if_pos List.mem_cons_self]
      change (if [(k : Int)] ≠ [(k : Int)] then _ else _) = _
      rw [if_neg (by simp), sum_urr]
      simp only [Nat.zero_add, sum_range_list]
      rfl
    · have hmem : u ∈ k :: keys ↔ u ∈ keys := by simp [Ne.symm h]
      rw [List.map_cons, read_urr, hu]
      change (if [(k : Int)] ≠ [(u : Int)] then _ else _) = _
      rw [if_pos (by simpa using h)]
      simp only [hmem]
      exact ih

theorem exists_dump (N : Nat) (s : Maps) : ∃ raw, IsDump N s .urr_counters raw :=
  ⟨_, (urrKeys s).toList, Finset.nodup_toList _, fun k => by rw [Finset.mem_toList, mem_urrKeys], rfl⟩

/-- A report has the total of the URR, whatever the order of the dump. -/
theorem read_urr_eq {N : Nat} {s : Maps} {raw : List Entry} (hd : IsDump N s .urr_counters raw)
    (hk : ∀ k ∈ urrKeys s, k < 2 ^ 32) (u : Nat) :
    read_urr raw u = .ok (if u ∈ urrKeys s then some (total N s u) else none) := by
  obtain ⟨keys, -, hmem, rfl⟩ := hd
  have hiff : u ∈ keys ↔ u ∈ urrKeys s := (hmem u).trans mem_urrKeys.symm
  rw [read_urr_keys (fun k h => hk k (mem_urrKeys.mpr ((hmem k).mp h)))]
  simp only [hiff]

/-- Every counter has a name, and they are different. -/
theorem name_ctorIdx (idx : Metric) : METRIC_NAMES[idx.ctorIdx]? = some idx.name := by
  cases idx <;> rfl

theorem name_injective : Function.Injective Metric.name := by
  intro i j h
  cases i <;> cases j <;> first | rfl | exact absurd h (by decide)

/-- An entry of a counter that has a name. -/
theorem add_entry_eq {out : String → Option Nat} {entry : Entry} {idx total : Nat} {name : String}
    (hu : unpack [.I] entry.key = .ok [idx]) (hn : METRIC_NAMES[idx]? = some name)
    (ht : entry.values.foldlM add_metric 0 = .ok total) :
    add_entry out entry = .ok (Function.update out name (some total)) := by
  rw [add_entry, hu]
  simp only [bind, Except.bind, hn, ht]
  rfl

/-- The loop over the entries, by induction on them. -/
theorem add_entries (N : Nat) (s : Maps) (idxs : List Metric) (out : String → Option Nat) :
    ∃ out', (idxs.map fun idx => (⟨toLE 4 idx.ctorIdx, (List.range N).map fun cpu => toLE 8 (s.metrics cpu idx)⟩ :
        Entry)).foldlM add_entry out = .ok out' ∧
      ∀ idx, out' idx.name = if idx ∈ idxs then some (metricTotal N s idx) else out idx.name := by
  induction idxs generalizing out with
  | nil => exact ⟨out, rfl, fun _ => rfl⟩
  | cons i idxs ih =>
    have hi : i.ctorIdx < 2 ^ 32 := by cases i <;> decide
    have hu : unpack [.I] (toLE 4 i.ctorIdx) = .ok [i.ctorIdx] :=
      (unpack_toLE .I _).trans (congrArg (fun x => Except.ok [x]) (Nat.mod_eq_of_lt hi))
    have ha : add_entry out ⟨toLE 4 i.ctorIdx, (List.range N).map fun cpu => toLE 8 (s.metrics cpu i)⟩ =
        .ok (Function.update out i.name (some (metricTotal N s i))) := by
      refine add_entry_eq hu (name_ctorIdx i) ?_
      rw [sum_metric, Nat.zero_add, sum_range_list]
      rfl
    obtain ⟨out', hf, ho⟩ := ih (Function.update out i.name (some (metricTotal N s i)))
    refine ⟨out', ?_, fun idx => ?_⟩
    · rw [List.map_cons, List.foldlM_cons, ha]
      exact hf
    · rw [ho]
      by_cases h : idx ∈ idxs
      · rw [if_pos h, if_pos (List.mem_cons_of_mem _ h)]
      · rw [if_neg h]
        by_cases h' : idx = i
        · subst h'
          rw [Function.update_self, if_pos List.mem_cons_self]
        · rw [Function.update_of_ne (fun hn => h' (name_injective hn)), if_neg (by simp [h, h'])]

/-- The report has the total of each counter under its name. -/
theorem read_metrics_eq (N : Nat) (s : Maps) : ∃ out, read_metrics (metrics_dump N s) = .ok out ∧
    ∀ idx : Metric, out idx.name = some (metricTotal N s idx) := by
  obtain ⟨out, h, ho⟩ := add_entries N s Metric.all fun _ => none
  refine ⟨out, h, fun idx => (ho idx).trans (if_pos ?_)⟩
  cases idx <;> decide

end UPF
