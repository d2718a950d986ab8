import EbpfUpf.Proof.Kernel
import EbpfUpf.Spec.Qer

/-!
# What a call of `upf_qer_admit` does to its bucket

Both builds keep their buckets in the elements of a map (`BucketMap`), the
tokens in one word and the time in the next. A call that finds its QER refills
the bucket and takes the packet's bytes from it if they are there
(`admit_percpu_run`, `admit_shared_run`); that is a draw on a token bucket
that gains `mbr_ul_bps` bytes in 8000000000 ns, if the time elapsed is not
more than what the clock says (`taken_draw`).
-/

open Framework

namespace UPF

/-- A call of `upf_qer_admit`: the CPU it is on, the time it reads, and the
length of the packet. -/
structure Call (N : Nat) where
  cpu : Fin N
  now : Nat
  pkt_len : Nat
  now_lt : now < 2 ^ 64

/-- The kernel as the call sees it. -/
def Call.kernel {N : Nat} (c : Call N) : Handler (BpfOps Ptr) Maps := fun o s =>
  (UPF.kernel ⟨fun _ => c.now, fun _ => 0, fun _ => 0, fun _ => 0⟩ o ⟨s, c.cpu, [], 0⟩).map
    fun x => (x.1, x.2.maps)

/-! ## Buckets in a map -/

namespace BucketMap

variable (e : BucketMap)

/-- `s'` is `s` but for the QER's bucket, which is `b`. -/
structure Sets (qer_id cpu : Nat) (s s' : Maps) (b : Bucket) : Prop where
  eq : s' = s ∨ ∃ v, s' = s.setElem e.map qer_id cpu v
  bucket : e.bucket qer_id cpu s' = b

variable {e} {qer_id cpu : Nat} {s s₁ s' : Maps} {b b₁ : Bucket}

theorem Sets.trans (h₁ : e.Sets qer_id cpu s s₁ b₁) (h₂ : e.Sets qer_id cpu s₁ s' b) :
    e.Sets qer_id cpu s s' b := by
  refine ⟨?_, h₂.bucket⟩
  rcases h₁.eq with rfl | ⟨v, rfl⟩
  · exact h₂.eq
  · rcases h₂.eq with rfl | ⟨w, rfl⟩
    · exact .inr ⟨v, rfl⟩
    · exact .inr ⟨w, Maps.setElem_setElem (e.type.imp_left .inl) _ _ _ _⟩

theorem Sets.lookup (h : e.Sets qer_id cpu s s' b) {m : MapName} (hm : m ≠ .qer_state_shared) (k : Nat) :
    s'.lookup m k = s.lookup m k := by
  rcases h.eq with rfl | ⟨v, rfl⟩
  · rfl
  · exact Maps.lookup_congr (setElem_table e.datapath hm) k

theorem bucket_setElem {v : Bytes} (hv : v.length = e.map.value_size) :
    e.bucket qer_id cpu (s.setElem e.map qer_id cpu v) =
      ⟨v.get e.tokens_bytes 8, v.get (e.tokens_bytes + 8) 8⟩ := by
  simp only [BucketMap.bucket, Maps.elem_setElem (e.type.imp_left .inl) hv]

variable (e qer_id s) {N : Nat} (c : Call N)

theorem write_elem (off n val : Nat) : c.kernel (.write (.elem e.map qer_id) off n val) s =
    some ((), s.setElem e.map qer_id c.cpu ((s.elem e.map qer_id c.cpu).set off (toLE n val))) := by
  simp only [Call.kernel, kernel, e.datapath, ite_true, Option.map_some]

theorem write_tokens {x : Nat} (hx : x < 2 ^ 64) : ∃ s',
    c.kernel (.write (.elem e.map qer_id) e.tokens_bytes 8 x) s = some ((), s') ∧
    e.Sets qer_id c.cpu s s' ⟨x, (e.bucket qer_id c.cpu s).last⟩ := by
  have hl := Maps.length_elem s e.map qer_id c.cpu
  have hb : e.tokens_bytes + (toLE 8 x).length ≤ (s.elem e.map qer_id c.cpu).length := by
    have := e.fits
    rw [length_toLE, hl]
    omega
  refine ⟨_, write_elem e qer_id s c _ _ _, .inr ⟨_, rfl⟩, ?_⟩
  rw [bucket_setElem (by rw [Bytes.length_set hb, hl])]
  have h1 := Bytes.get_set_self hb
  rw [length_toLE, le_toLE_of_lt hx] at h1
  rw [h1, Bytes.get_set_ne hb (.inr (by rw [length_toLE])), BucketMap.bucket]

theorem write_last {x : Nat} (hx : x < 2 ^ 64) : ∃ s',
    c.kernel (.write (.elem e.map qer_id) (e.tokens_bytes + 8) 8 x) s = some ((), s') ∧
    e.Sets qer_id c.cpu s s' ⟨(e.bucket qer_id c.cpu s).tokens, x⟩ := by
  have hl := Maps.length_elem s e.map qer_id c.cpu
  have hb : e.tokens_bytes + 8 + (toLE 8 x).length ≤ (s.elem e.map qer_id c.cpu).length := by
    have := e.fits
    rw [length_toLE, hl]
    omega
  refine ⟨_, write_elem e qer_id s c _ _ _, .inr ⟨_, rfl⟩, ?_⟩
  rw [bucket_setElem (by rw [Bytes.length_set hb, hl])]
  have h1 := Bytes.get_set_self hb
  rw [length_toLE, le_toLE_of_lt hx] at h1
  rw [h1, Bytes.get_set_ne hb (.inl le_rfl), BucketMap.bucket]

end BucketMap

/-! ## Refilling and taking -/

section Run

variable {N : Nat} (c : Call N) {e : BucketMap} {qer_id : Nat} {s : Maps} (qv : Bytes)

theorem read_tokens : c.kernel (.read (.elem e.map qer_id) e.tokens_bytes 8) s =
    some ((e.bucket qer_id c.cpu s).tokens, s) := rfl

theorem read_last : c.kernel (.read (.elem e.map qer_id) (e.tokens_bytes + 8) 8) s =
    some ((e.bucket qer_id c.cpu s).last, s) := rfl

theorem read_value (off n : Nat) : c.kernel (.read (.value .qer_table qv) off n) s = some (qv.get off n, s) := rfl

theorem burst_lt : qv.get qer_val.burst_bytes 4 < 2 ^ 64 :=
  (Bytes.get_lt _ _ _).trans (by decide)

variable (e qer_id s) in
/-- The clamp of the tokens to the burst. -/
theorem clamp_run {α : Type} (k : Bpf Ptr α) : ∃ s',
    Prog.run c.kernel (read (.elem e.map qer_id) e.tokens_bytes 8 >>= fun tokens =>
      read (.value .qer_table qv) qer_val.burst_bytes 4 >>= fun burst =>
        if tokens > burst then
          read (.value .qer_table qv) qer_val.burst_bytes 4 >>= fun burst =>
            write (.elem e.map qer_id) e.tokens_bytes 8 burst >>= fun _ => k
        else k) s = Prog.run c.kernel k s' ∧
    e.Sets qer_id c.cpu s s' ⟨min (e.bucket qer_id c.cpu s).tokens (qv.get qer_val.burst_bytes 4),
      (e.bucket qer_id c.cpu s).last⟩ := by
  rw [read_bind, Prog.run_ask _ (read_tokens c), read_bind, Prog.run_ask _ (read_value c qv _ _)]
  split
  · next h =>
    obtain ⟨s', hw, hs⟩ := BucketMap.write_tokens e qer_id s c (burst_lt qv)
    rw [read_bind, Prog.run_ask _ (read_value c qv _ _), write_bind, Prog.run_ask _ hw,
      Nat.min_eq_right (Nat.le_of_lt h)]
    exact ⟨s', rfl, hs⟩
  · next h =>
    rw [Nat.min_eq_left (Nat.not_lt.mp h)]
    exact ⟨s, rfl, .inl rfl, rfl⟩

variable (e qer_id) in
theorem refill_run (s : Maps) : ∃ s',
    (refill_bucket e.tokens_bytes (e.tokens_bytes + 8) e.elapsed (.value .qer_table qv) (.elem e.map qer_id) c.now).run
      c.kernel s = some ((), s') ∧
    e.Sets qer_id c.cpu s s' (filled qv e.elapsed c.now (e.bucket qer_id c.cpu s)) := by
  unfold refill_bucket filled refilled
  rw [read_bind, Prog.run_ask _ (read_last c)]
  split
  · next h =>
    obtain ⟨s₁, hw, h₁⟩ := BucketMap.write_tokens e qer_id s c (burst_lt qv)
    obtain ⟨s', hw', h'⟩ := BucketMap.write_last e qer_id s₁ c c.now_lt
    rw [read_bind, Prog.run_ask _ (read_value c qv _ _), write_bind, Prog.run_ask _ hw, write,
      Prog.run_ask _ hw']
    rw [h₁.bucket] at h'
    exact ⟨s', rfl, h₁.trans h'⟩
  · next h =>
    have hm : ((e.bucket qer_id c.cpu s).tokens + refill_bytes (e.elapsed c.now (e.bucket qer_id c.cpu s).last)
        (qv.get qer_val.mbr_ul_bps 8)) % 2 ^ 64 < 2 ^ 64 := Nat.mod_lt _ (by decide)
    obtain ⟨s₁, hw, h₁⟩ := BucketMap.write_tokens e qer_id s c hm
    obtain ⟨s₂, hc, h₂⟩ := clamp_run c e qer_id s₁ qv
      (write (.elem e.map qer_id) (e.tokens_bytes + 8) 8 c.now)
    obtain ⟨s', hw', h'⟩ := BucketMap.write_last e qer_id s₂ c c.now_lt
    rw [read_bind, Prog.run_ask _ (read_value c qv _ _), read_bind, Prog.run_ask _ (read_tokens c),
      write_bind, Prog.run_ask _ hw, hc, write, Prog.run_ask _ hw']
    rw [h₂.bucket, h₁.bucket] at h'
    exact ⟨s', rfl, h₁.trans (h₂.trans h')⟩

variable (e qer_id) in
theorem take_run (n : Nat) (s : Maps) : ∃ s',
    (take_tokens e.tokens_bytes (.elem e.map qer_id) n).run c.kernel s =
      some ((taken n (e.bucket qer_id c.cpu s)).1, s') ∧
    e.Sets qer_id c.cpu s s' (taken n (e.bucket qer_id c.cpu s)).2 := by
  unfold take_tokens taken
  rw [read_bind, Prog.run_ask _ (read_tokens c)]
  split
  · next h =>
    have hx : (e.bucket qer_id c.cpu s).tokens - n < 2 ^ 64 :=
      (Nat.sub_le _ _).trans_lt (Bytes.get_lt _ _ _)
    obtain ⟨s', hw, hs⟩ := BucketMap.write_tokens e qer_id s c hx
    rw [write_bind, Prog.run_ask _ hw]
    exact ⟨s', by simp, hs⟩
  · exact ⟨s, rfl, .inl rfl, rfl⟩

end Run

/-! ## Calls -/

/-- The QER is there and limits the rate. -/
def Limits (qer_id : Nat) (qv : Bytes) (s : Maps) : Prop :=
  s.lookup .qer_table qer_id = some qv ∧ qv.get qer_val.mbr_ul_bps 8 ≠ 0

theorem Limits.lt {qer_id : Nat} {qv : Bytes} {s : Maps} (h : Limits qer_id qv s) : qer_id < MAX_QERS := by
  by_contra hn
  have := h.1
  rw [Maps.lookup_array_none rfl hn] at this
  cases this

section Calls

variable {N : Nat} (c : Call N) {qer_id : Nat} {qv : Bytes} {s : Maps}

theorem lookup_qer (h : Limits qer_id qv s) :
    c.kernel (.lookup .qer_table qer_id) s = some (some (.value .qer_table qv), s) := by
  simp only [Call.kernel, kernel, Maps.ptr, h.1, Option.map_some]

theorem lookup_state (h : Limits qer_id qv s) :
    c.kernel (.lookup .qer_state qer_id) s = some (some (.elem .qer_state qer_id), s) := by
  have := h.lt
  simp only [Call.kernel, kernel, Maps.ptr, MapName.max_entries, this, ite_true, Option.map_some]

theorem lookup_state_shared (h : Limits qer_id qv s) :
    c.kernel (.lookup .qer_state_shared qer_id) s = some (some (.elem .qer_state_shared qer_id), s) := by
  have := h.lt
  simp only [Call.kernel, kernel, Maps.ptr, MapName.max_entries, this, ite_true, Option.map_some]

theorem read_clock : c.kernel .ktime_get_ns s = some (c.now, s) := by
  simp only [Call.kernel, kernel, Option.map_some, Nat.mod_eq_of_lt c.now_lt]

theorem spin_lock_ok (p : Ptr) : c.kernel (.spin_lock p) s = some ((), s) := rfl

theorem body_run (e : BucketMap) : ∃ s',
    Prog.run c.kernel (refill_bucket e.tokens_bytes (e.tokens_bytes + 8) e.elapsed (.value .qer_table qv)
        (.elem e.map qer_id) c.now >>= fun _ => take_tokens e.tokens_bytes (.elem e.map qer_id) c.pkt_len) s =
      some ((e.admits qv qer_id c.cpu c.now c.pkt_len s).1, s') ∧
    e.Sets qer_id c.cpu s s' (e.admits qv qer_id c.cpu c.now c.pkt_len s).2 := by
  obtain ⟨s₁, hr, h₁⟩ := refill_run c e qer_id qv s
  obtain ⟨s', ht, h'⟩ := take_run c e qer_id c.pkt_len s₁
  rw [Prog.run_bind, hr, Option.bind_some, ht]
  rw [h₁.bucket] at h' ⊢
  exact ⟨s', rfl, h₁.trans h'⟩

/-- What is left of a call once it has the clock. -/
def locked (b : Build) (qv : Bytes) (qer_id now n : Nat) : Bpf Ptr Bool :=
  let e := BucketMap.of b
  let st := Ptr.elem e.map qer_id
  let body := refill_bucket e.tokens_bytes (e.tokens_bytes + 8) e.elapsed (.value .qer_table qv) st now >>= fun _ =>
    take_tokens e.tokens_bytes st n
  if b.qer_shared_lock then
    spin_lock st >>= fun _ => body >>= fun r => spin_unlock st >>= fun _ => .ret r
  else body

/-- A call gets as far as the clock where its QER limits the rate. -/
theorem run_locked {σ : Type} {h : Handler (BpfOps Ptr) σ} {s s' : σ} {b : Build} {now n : Nat}
    (hq : h (.lookup .qer_table qer_id) s = some (some (.value .qer_table qv), s))
    (hm : ∀ off n, h (.read (.value .qer_table qv) off n) s = some (qv.get off n, s))
    (hr : qv.get qer_val.mbr_ul_bps 8 ≠ 0)
    (hs : h (.lookup (BucketMap.of b).map qer_id) s = some (some (.elem (BucketMap.of b).map qer_id), s))
    (hc : h .ktime_get_ns s = some (now, s')) :
    Prog.run h (admission b qer_id n) s = Prog.run h (locked b qv qer_id now n) s' := by
  obtain ⟨_ | _, _, _⟩ := b
  · change h (.lookup .qer_state qer_id) s = some (some (.elem .qer_state qer_id), s) at hs
    change Prog.run h (upf_qer_admit_percpu qer_id n) s = _
    rw [upf_qer_admit_percpu, lookup_bind, Prog.run_ask _ hq]
    dsimp only
    rw [read_bind, Prog.run_ask _ (hm _ _), if_neg hr, lookup_bind, Prog.run_ask _ hs]
    dsimp only
    rw [ktime_get_ns_bind, Prog.run_ask _ hc]
    rfl
  · change h (.lookup .qer_state_shared qer_id) s = some (some (.elem .qer_state_shared qer_id), s) at hs
    change Prog.run h (upf_qer_admit_shared qer_id n) s = _
    rw [upf_qer_admit_shared, lookup_bind, Prog.run_ask _ hq]
    dsimp only
    rw [read_bind, Prog.run_ask _ (hm _ _), if_neg hr, lookup_bind, Prog.run_ask _ hs]
    dsimp only
    rw [ktime_get_ns_bind, Prog.run_ask _ hc]
    simp only [locked, Prog.bind_bind, ite_true]
    rfl

theorem locked_run (b : Build) : ∃ s',
    (locked b qv qer_id c.now c.pkt_len).run c.kernel s =
      some (((BucketMap.of b).admits qv qer_id c.cpu c.now c.pkt_len s).1, s') ∧
    (BucketMap.of b).Sets qer_id c.cpu s s' ((BucketMap.of b).admits qv qer_id c.cpu c.now c.pkt_len s).2 := by
  obtain ⟨s', hb, hs⟩ := @body_run N c qer_id qv s (BucketMap.of b)
  refine ⟨s', ?_, hs⟩
  unfold locked
  dsimp only
  split
  · rw [spin_lock_bind, Prog.run_ask _ (spin_lock_ok c _), Prog.run_bind, hb]
    rfl
  · exact hb

theorem lookup_bucket (h : Limits qer_id qv s) (b : Build) :
    c.kernel (.lookup (BucketMap.of b).map qer_id) s = some (some (.elem (BucketMap.of b).map qer_id), s) := by
  obtain ⟨_ | _, _, _⟩ := b
  · exact lookup_state c h
  · exact lookup_state_shared c h

/-- A call whose QER limits the rate: what it decides, and the bucket it leaves. -/
theorem call_run (b : Build) (h : Limits qer_id qv s) : ∃ s',
    (admission b qer_id c.pkt_len).run c.kernel s =
      some (((BucketMap.of b).admits qv qer_id c.cpu c.now c.pkt_len s).1, s') ∧
    (BucketMap.of b).Sets qer_id c.cpu s s' ((BucketMap.of b).admits qv qer_id c.cpu c.now c.pkt_len s).2 := by
  rw [run_locked (lookup_qer c h) (read_value c qv) h.2 (lookup_bucket c h b) (read_clock c)]
  exact locked_run c b

end Calls

/-! ## A call in a larger run -/

/-- The operations that a call sees as any programme on its CPU does. -/
def MapOp : Op Ptr → Prop
  | .load .. | .store .. | .data_end | .len | .ktime_get_ns | .adjust_room .. | .redirect .. => False
  | _ => True

theorem kernel_call {N : Nat} {c : Call N} {H : Helpers} {s : Machine} (hc : c.cpu = s.cpu) {o : Op Ptr}
    (ho : MapOp o) : kernel H o s = (c.kernel o s.maps).map fun x => (x.1, { s with maps := x.2 }) := by
  cases o with
  | load | store | data_end | len | ktime_get_ns | adjust_room | redirect => cases ho
  | write p off n val =>
    cases p with
    | value v => rfl
    | elem m key =>
      simp only [Call.kernel, kernel, hc]
      split <;> rfl
  | create m key val =>
    simp only [Call.kernel, kernel, hc]
    cases s.maps.create m key s.cpu val <;> rfl
  | read p off n => simp only [Call.kernel, kernel, hc, Option.map_some]
  | bump idx => simp only [Call.kernel, kernel, hc, Option.map_some]
  | lookup | perf_event_output | spin_lock | spin_unlock => rfl

theorem run_call {α : Type} {N : Nat} {c : Call N} {H : Helpers} {s : Machine} (hc : c.cpu = s.cpu)
    {p : Bpf Ptr α} (hp : p.Asks MapOp) :
    p.run (kernel H) s = (p.run c.kernel s.maps).map fun x => (x.1, { s with maps := x.2 }) := by
  induction p generalizing s with
  | ret a => rfl
  | ask o k ih =>
    rw [Prog.run, kernel_call hc hp.1, Prog.run]
    cases c.kernel o s.maps with
    | none => rfl
    | some x => exact ih x.1 hc (hp.2 x.1)

section Asks

variable {Q : Op Ptr → Prop} (hr : ∀ p off n, Q (.read p off n)) (hw : ∀ p off n v, Q (.write p off n v))

include hr hw

theorem refill_asks (t l : Nat) (elapsed : Nat → Nat → Nat) (qv st : Ptr) (now : Nat) :
    (refill_bucket t l elapsed qv st now).Asks Q := by
  simp [refill_bucket, write, hr, hw]

theorem take_asks (t : Nat) (st : Ptr) (n : Nat) : (take_tokens t st n).Asks Q := by
  simp [take_tokens, hr, hw]

end Asks

theorem locked_asks (b : Build) (qv : Bytes) (qer_id now n : Nat) :
    (locked b qv qer_id now n).Asks MapOp := by
  have hb : (refill_bucket (BucketMap.of b).tokens_bytes ((BucketMap.of b).tokens_bytes + 8)
      (BucketMap.of b).elapsed (.value .qer_table qv) (.elem (BucketMap.of b).map qer_id) now >>= fun _ =>
      take_tokens (BucketMap.of b).tokens_bytes (.elem (BucketMap.of b).map qer_id) n).Asks MapOp :=
    (refill_asks (fun _ _ _ => trivial) (fun _ _ _ _ => trivial) _ _ _ _ _ _).bind fun _ =>
      take_asks (fun _ _ _ => trivial) (fun _ _ _ _ => trivial) _ _ _
  unfold locked
  dsimp only
  split
  · exact ⟨trivial, fun _ => hb.bind fun r => ⟨trivial, fun _ => trivial⟩⟩
  · exact hb

/-- A call admits everything if there is no QER. -/
theorem run_missing {σ : Type} {h : Handler (BpfOps Ptr) σ} {s : σ} {qer_id n : Nat} (b : Build)
    (hq : h (.lookup .qer_table qer_id) s = some (none, s)) :
    Prog.run h (admission b qer_id n) s = some (true, s) := by
  unfold admission upf_qer_admit upf_qer_admit_shared upf_qer_admit_percpu
  split <;> rw [lookup_bind, Prog.run_ask _ hq] <;> rfl

/-- A call admits everything if the QER has no rate. -/
theorem run_unlimited {σ : Type} {h : Handler (BpfOps Ptr) σ} {s : σ} {qer_id n : Nat} {qv : Bytes} (b : Build)
    (hq : h (.lookup .qer_table qer_id) s = some (some (.value .qer_table qv), s))
    (hm : ∀ off n, h (.read (.value .qer_table qv) off n) s = some (qv.get off n, s))
    (hr : qv.get qer_val.mbr_ul_bps 8 = 0) : Prog.run h (admission b qer_id n) s = some (true, s) := by
  unfold admission upf_qer_admit upf_qer_admit_shared upf_qer_admit_percpu
  split
  all_goals
    rw [lookup_bind, Prog.run_ask _ hq]
    dsimp only
    rw [read_bind, Prog.run_ask _ (hm _ _), if_pos hr]
    rfl

/-- A call of `upf_qer_admit` returns, with what `qerAdmits` says, and changes
nothing but the bucket of a QER that limits the rate. -/
theorem admit_effect (b : Build) (H : Helpers) (s : Machine) (qer_id n : Nat) : ∃ maps ticks,
    (admission b qer_id n).run (kernel H) s =
      some (qerAdmits b s.maps qer_id s.cpu (H.ktime_get_ns s.ticks % 2 ^ 64) n, { s with maps, ticks }) ∧
    (maps = s.maps ∨ ∃ v, maps = s.maps.setElem (BucketMap.of b).map qer_id s.cpu v) ∧
    ∀ qv, Limits qer_id qv s.maps → (BucketMap.of b).bucket qer_id s.cpu maps =
      ((BucketMap.of b).admits qv qer_id s.cpu (H.ktime_get_ns s.ticks % 2 ^ 64) n s.maps).2 := by
  unfold qerAdmits
  cases hq : s.maps.lookup .qer_table qer_id with
  | none =>
    have hk : kernel H (.lookup .qer_table qer_id) s = some (none, s) := by
      rw [kernel_lookup rfl, hq, Option.map_none]
    refine ⟨s.maps, s.ticks, run_missing b hk, .inl rfl, fun qv hl => ?_⟩
    have := hl.1
    rw [hq] at this
    cases this
  | some qv =>
    have hk : kernel H (.lookup .qer_table qer_id) s = some (some (.value .qer_table qv), s) := by
      rw [kernel_lookup rfl, hq, Option.map_some]
    have hqv : ∀ {qv'}, Limits qer_id qv' s.maps → qv' = qv := fun hl => by
      have := hl.1
      rw [hq] at this
      exact (Option.some.inj this).symm
    dsimp only
    split
    · next hr =>
      refine ⟨s.maps, s.ticks, run_unlimited b hk (fun _ _ => rfl) hr, .inl rfl, fun qv' hl => ?_⟩
      obtain rfl := hqv hl
      exact absurd hr hl.2
    · next hr =>
      let c : Call (s.cpu + 1) := ⟨Fin.last s.cpu, H.ktime_get_ns s.ticks % 2 ^ 64, n, Nat.mod_lt _ (by decide)⟩
      have hl : Limits qer_id qv s.maps := ⟨hq, hr⟩
      obtain ⟨maps, hrun, hs⟩ := @locked_run _ c qer_id qv s.maps b
      refine ⟨maps, s.ticks + 1, ?_, hs.eq, fun qv' hl' => ?_⟩
      · rw [run_locked hk (fun _ _ => rfl) hr (s := s) ?_ rfl,
          run_call (s := { s with ticks := s.ticks + 1 }) (c := c) rfl (locked_asks b qv qer_id _ n)]
        · exact congrArg (Option.map _) hrun
        · rw [kernel_call (c := c) (o := .lookup (BucketMap.of b).map qer_id) rfl trivial,
            lookup_bucket c hl b]
          rfl
      · obtain rfl := hqv hl'
        exact hs.bucket

theorem admit_run (b : Build) (H : Helpers) (s : Machine) (qer_id n : Nat) : ∃ s',
    (admission b qer_id n).run (kernel H) s =
      some (qerAdmits b s.maps qer_id s.cpu (H.ktime_get_ns s.ticks % 2 ^ 64) n, s') := by
  obtain ⟨maps, ticks, hr, -⟩ := admit_effect b H s qer_id n
  exact ⟨_, hr⟩

/-! ## Draws -/

theorem refill_bytes_le {elapsed t : Nat} (mbr : Nat) (h : elapsed ≤ t) :
    8000000000 * refill_bytes elapsed mbr ≤ mbr * t := by
  unfold refill_bytes
  dsimp only
  split
  · next hc =>
    calc 8000000000 * (1000000000 * mbr % 2 ^ 64 / 8000000000)
        ≤ 1000000000 * mbr % 2 ^ 64 := Nat.mul_div_le _ _
      _ ≤ 1000000000 * mbr := Nat.mod_le _ _
      _ ≤ mbr * t := by rw [Nat.mul_comm]; exact Nat.mul_le_mul_left mbr (by omega)
  · calc 8000000000 * (elapsed * mbr % 2 ^ 64 / 8000000000)
        ≤ elapsed * mbr % 2 ^ 64 := Nat.mul_div_le _ _
      _ ≤ elapsed * mbr := Nat.mod_le _ _
      _ ≤ mbr * t := by rw [Nat.mul_comm]; exact Nat.mul_le_mul_left mbr h

theorem taken_tokens (n : Nat) (b : Bucket) :
    (taken n b).2.tokens + amount (taken n b).1 n = b.tokens := by
  unfold taken amount
  split
  · next h =>
    dsimp only
    rw [if_pos rfl]
    omega
  · simp

theorem taken_last (n : Nat) (b : Bucket) : (taken n b).2.last = b.last := by
  unfold taken
  split <;> rfl

/-- A call that counts no more time than passed is a draw. -/
theorem taken_draw {qv : Bytes} {elapsed : Nat → Nat → Nat} {now n : Nat} {b : Bucket}
    (he : elapsed now b.last ≤ now - b.last) :
    b.Draw (qv.get qer_val.burst_bytes 4) (qv.get qer_val.mbr_ul_bps 8) 8000000000 now
      (amount (taken n (filled qv elapsed now b)).1 n) (taken n (filled qv elapsed now b)).2 := by
  refine ⟨?_, fun hl => ?_, ?_⟩
  · rw [taken_tokens, filled, refilled]
    split
    · exact le_rfl
    · exact Nat.min_le_right _ _
  · rw [taken_tokens, filled, refilled, if_neg hl]
    have hr := refill_bytes_le (qv.get qer_val.mbr_ul_bps 8) he
    calc 8000000000 * (min ((b.tokens + refill_bytes (elapsed now b.last) (qv.get qer_val.mbr_ul_bps 8)) % 2 ^ 64)
          (qv.get qer_val.burst_bytes 4))
        ≤ 8000000000 * (b.tokens + refill_bytes (elapsed now b.last) (qv.get qer_val.mbr_ul_bps 8)) :=
          Nat.mul_le_mul_left _ ((Nat.min_le_left _ _).trans (Nat.mod_le _ _))
      _ ≤ _ := by rw [Nat.mul_add]; exact Nat.add_le_add_left hr _
  · rw [taken_last, filled, refilled]
    split <;> rfl

end UPF
