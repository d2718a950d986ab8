import EbpfUpf.Impl.Agent
import EbpfUpf.Proof.Rate

/-!
# The refill

A call refills its bucket for the time since the last one, at most a second of
it, in 64 bits and rounded down. `refill_ideal_iff` says when that is what a
bucket of unbounded numbers gains. Each call rounds on its own, so that calls
that are refused still cost credit: a packet is admitted if the credit of the
intervals since the last admission, each rounded down, covers it
(`refused_rounding`), but not always if the credit of the whole time does
(`refused_starves`).
-/

open Framework

namespace UPF

variable {N : Nat} {qer_id : Nat} {qv : Bytes} {s s' : Maps}

theorem elapsed_eq (b : Build) {now last : Nat} (hn : now < 2 ^ 64) (hl : last ≤ now) :
    (BucketMap.of b).elapsed now last = now - last := by
  unfold BucketMap.of
  split
  · show elapsed_shared now last = now - last
    unfold elapsed_shared
    split <;> omega
  · exact elapsed_percpu_eq hn hl

/-- The refill with its cap and its 64 bits. -/
theorem refill_bytes_capped (e mbr : Nat) :
    refill_bytes e mbr = min e 1000000000 * mbr % 2 ^ 64 / 8000000000 := by
  unfold refill_bytes
  dsimp only
  split
  · next h => rw [Nat.min_eq_right (by omega)]
  · next h => rw [Nat.min_eq_left (by omega)]

theorem refill_bytes_eq {e mbr : Nat} (he : e ≤ 1000000000) (hp : mbr * e < 2 ^ 64) :
    refill_bytes e mbr = mbr * e / 8000000000 := by
  rw [refill_bytes_capped, Nat.min_eq_left he, Nat.mul_comm e, Nat.mod_eq_of_lt hp]

/-- No bucket that holds at most its burst overflows when it is refilled. -/
theorem refill_no_wrap {tokens burst e mbr : Nat} (ht : tokens ≤ burst) (hb : burst < 2 ^ 32) :
    (tokens + refill_bytes e mbr) % 2 ^ 64 = tokens + refill_bytes e mbr := by
  have hr : refill_bytes e mbr ≤ 2 ^ 64 / 8000000000 := by
    rw [refill_bytes_capped]
    exact Nat.div_le_div_right (Nat.mod_lt _ (by decide)).le
  have h64 : (2 : Nat) ^ 64 / 8000000000 < 2 ^ 32 := by decide
  have h33 : (2 : Nat) ^ 32 + 2 ^ 32 < 2 ^ 64 := by decide
  exact Nat.mod_eq_of_lt (by omega)

/-! ## The ideal bucket -/

/-- The refill of `b` to `b'`, `e` ns after its last use, leaves the tokens that
unbounded numbers leave. -/
def IdealRefill (qv : Bytes) (e : Nat) (b b' : Bucket) : Prop :=
  b'.tokens = min (qv.get qer_val.burst_bytes 4) (b.tokens + e * qv.get qer_val.mbr_ul_bps 8 / 8000000000)

/-- The rate for the time, of which a second counts, is below 64 bits, and the
time not above a second, or a second fills the bucket, or the rest of the time
adds nothing; or it is not below, and what is left of it fills the bucket. -/
def Adequate (mbr burst tokens e : Nat) : Prop :=
  (min e 1000000000 * mbr < 2 ^ 64 ∧
    (e ≤ 1000000000 ∨ burst ≤ tokens + mbr / 8 ∨ e * mbr / 8000000000 = mbr / 8)) ∨
  2 ^ 64 ≤ min e 1000000000 * mbr ∧ burst ≤ tokens + min e 1000000000 * mbr % 2 ^ 64 / 8000000000

theorem second_div (mbr : Nat) : 1000000000 * mbr / 8000000000 = mbr / 8 :=
  Nat.mul_div_mul_left mbr 8 (by decide : 0 < 1000000000)

/-- When the cap makes no difference. -/
theorem cap_harmless_iff {mbr burst tokens e : Nat} :
    min burst (tokens + min e 1000000000 * mbr / 8000000000) = min burst (tokens + e * mbr / 8000000000) ↔
      e ≤ 1000000000 ∨ burst ≤ tokens + mbr / 8 ∨ e * mbr / 8000000000 = mbr / 8 := by
  by_cases he : e ≤ 1000000000
  · rw [Nat.min_eq_left he]
    exact ⟨fun _ => .inl he, fun _ => rfl⟩
  · have hm : mbr / 8 ≤ e * mbr / 8000000000 := by
      rw [← second_div]
      exact Nat.div_le_div_right (Nat.mul_le_mul_right mbr (by omega))
    rw [show min e 1000000000 = 1000000000 by omega, second_div]
    omega

/-- A product that is cut off has lost whole bytes. -/
theorem cut_lt {p : Nat} (h : 2 ^ 64 ≤ p) : p % 2 ^ 64 / 8000000000 < p / 8000000000 := by
  have hle : p % 2 ^ 64 + 8000000000 ≤ p := by omega
  calc p % 2 ^ 64 / 8000000000 < (p % 2 ^ 64 + 8000000000) / 8000000000 := by
        rw [Nat.add_div_right _ (by decide)]
        exact Nat.lt_succ_self _
    _ ≤ p / 8000000000 := Nat.div_le_div_right hle

/-- When the cap and the 64 bits make no difference. -/
theorem adequate_iff {mbr burst tokens e : Nat} :
    min burst (tokens + refill_bytes e mbr) = min burst (tokens + e * mbr / 8000000000) ↔
      Adequate mbr burst tokens e := by
  rw [refill_bytes_capped, Adequate]
  by_cases hp : min e 1000000000 * mbr < 2 ^ 64
  · rw [Nat.mod_eq_of_lt hp, cap_harmless_iff]
    exact ⟨fun h => .inl ⟨hp, h⟩, fun h => h.elim And.right fun h => absurd h.1 (Nat.not_le.mpr hp)⟩
  · have hcut := cut_lt (Nat.not_lt.mp hp)
    have hcap : min e 1000000000 * mbr / 8000000000 ≤ e * mbr / 8000000000 :=
      Nat.div_le_div_right (Nat.mul_le_mul_right mbr (Nat.min_le_left ..))
    generalize min e 1000000000 * mbr % 2 ^ 64 / 8000000000 = credit at hcut ⊢
    constructor
    · exact fun h => .inr ⟨Nat.not_lt.mp hp, by omega⟩
    · rintro (h | h)
      · exact absurd h.1 hp
      · omega

/-- In both builds the refill is the ideal one exactly where it is `Adequate`. -/
theorem refill_ideal_iff (b : Build) (c : Call N)
    (hl : ((BucketMap.of b).bucket qer_id c.cpu s).last ≠ 0)
    (hn : ((BucketMap.of b).bucket qer_id c.cpu s).last ≤ c.now)
    (ht : ((BucketMap.of b).bucket qer_id c.cpu s).tokens ≤ qv.get qer_val.burst_bytes 4) :
    ∃ s', (refill_bucket (BucketMap.of b).tokens_bytes ((BucketMap.of b).tokens_bytes + 8)
        (BucketMap.of b).elapsed (.value .qer_table qv) (.elem (BucketMap.of b).map qer_id) c.now).run c.kernel s =
        some ((), s') ∧
      (IdealRefill qv (c.now - ((BucketMap.of b).bucket qer_id c.cpu s).last)
          ((BucketMap.of b).bucket qer_id c.cpu s) ((BucketMap.of b).bucket qer_id c.cpu s') ↔
        Adequate (qv.get qer_val.mbr_ul_bps 8) (qv.get qer_val.burst_bytes 4)
          ((BucketMap.of b).bucket qer_id c.cpu s).tokens (c.now - ((BucketMap.of b).bucket qer_id c.cpu s).last)) := by
  obtain ⟨s', hr, hs⟩ := refill_run c (BucketMap.of b) qer_id qv s
  refine ⟨s', hr, ?_⟩
  generalize (BucketMap.of b).bucket qer_id c.cpu s = bkt at *
  have hf : ((BucketMap.of b).bucket qer_id c.cpu s').tokens = min (qv.get qer_val.burst_bytes 4)
      (bkt.tokens + refill_bytes (c.now - bkt.last) (qv.get qer_val.mbr_ul_bps 8)) := by
    rw [hs.bucket, filled, refilled, if_neg hl, elapsed_eq b c.now_lt hn]
    dsimp only
    rw [refill_no_wrap ht (Bytes.get_lt _ _ _), Nat.min_comm]
  rw [IdealRefill, hf, adequate_iff]

/-- The maps with bucket `b` for QER 1 on CPU 0. -/
def withBucket (s : Maps) (b : Bucket) : Maps := s.setElem .qer_state 1 0 (toLE 8 b.tokens ++ toLE 8 b.last)

theorem refill_ideal_slow :
    let b := BucketMap.of ⟨false, false, false⟩
    let s := withBucket slowMaps ⟨0, 1⟩
    let c : Call 1 := ⟨0, 500000001, 100, by decide⟩
    ∃ s', (refill_bucket b.tokens_bytes (b.tokens_bytes + 8) b.elapsed (.value .qer_table slowQer)
        (.elem b.map 1) c.now).run c.kernel s = some ((), s') ∧
      (IdealRefill slowQer (c.now - (b.bucket 1 c.cpu s).last) (b.bucket 1 c.cpu s) (b.bucket 1 c.cpu s') ↔
        Adequate (slowQer.get qer_val.mbr_ul_bps 8) (slowQer.get qer_val.burst_bytes 4)
          (b.bucket 1 c.cpu s).tokens (c.now - (b.bucket 1 c.cpu s).last)) :=
  @refill_ideal_iff 1 1 slowQer (withBucket slowMaps ⟨0, 1⟩) ⟨false, false, false⟩
    ⟨0, 500000001, 100, by decide⟩ (by decide) (by decide) (by decide)

/-- A QER of 1 Mbit/s with a burst of 1000000 bytes, empty at 1 and refilled ten
seconds later: it has 125000 bytes, where it should be full. -/
theorem refill_capped : ∃ s s', after (install_qer 1 1000000 0 1000000) .empty = some s ∧
    let qv := (s.lookup .qer_table 1).getD []
    let c : Call 1 := ⟨0, 10000000001, 100, by decide⟩
    (refill_bucket 0 8 elapsed_percpu (.value .qer_table qv) (.elem .qer_state 1) c.now).run c.kernel
        (withBucket s ⟨0, 1⟩) = some ((), s') ∧
      ¬ IdealRefill qv (c.now - 1) (BucketMap.percpu.bucket 1 0 (withBucket s ⟨0, 1⟩))
        (BucketMap.percpu.bucket 1 0 s') := by
  let c : Call 1 := ⟨0, 10000000001, 100, by decide⟩
  let qv : Maps → Bytes := fun s => (s.lookup .qer_table 1).getD []
  have h : ((after (install_qer 1 1000000 0 1000000) .empty).bind fun s =>
      ((refill_bucket 0 8 elapsed_percpu (.value .qer_table (qv s)) (.elem .qer_state 1) c.now).run c.kernel
        (withBucket s ⟨0, 1⟩)).map fun x => ((qv s).get qer_val.mbr_ul_bps 8, (qv s).get qer_val.burst_bytes 4,
          BucketMap.percpu.bucket 1 0 (withBucket s ⟨0, 1⟩), BucketMap.percpu.bucket 1 0 x.2)) =
      some (1000000, 1000000, ⟨0, 1⟩, ⟨125000, 10000000001⟩) := by decide +kernel
  obtain ⟨s, hs, h⟩ := Option.bind_eq_some_iff.mp h
  obtain ⟨x, hx, h⟩ := Option.map_eq_some_iff.mp h
  simp only [Prod.mk.injEq] at h
  obtain ⟨hm, hb, h0, h1⟩ := h
  refine ⟨s, x.2, hs, hx, fun hi => ?_⟩
  rw [IdealRefill, h0, h1, show (s.lookup .qer_table 1).getD [] = qv s from rfl, hm, hb] at hi
  exact absurd hi (by decide)

/-! ## Refused calls -/

/-- The call uses the bucket of CPU `cpu`. -/
def OnBucket (b : Build) (cpu : Fin N) (c : Call N) : Prop := b.qer_shared_lock = true ∨ c.cpu = cpu

instance (b : Build) (cpu : Fin N) (c : Call N) : Decidable (OnBucket b cpu c) := inferInstanceAs (Decidable (_ ∨ _))

theorem OnBucket.bucket {b : Build} {cpu : Fin N} {c : Call N} (h : OnBucket b cpu c) (s : Maps) :
    (BucketMap.of b).bucket qer_id c.cpu s = (BucketMap.of b).bucket qer_id cpu s := by
  rcases h with h | h
  · have ha : (BucketMap.of b).map.type = .ARRAY := by
      rw [BucketMap.of, if_pos h]
      rfl
    simp only [BucketMap.bucket, Maps.elem_shared ha]
  · rw [h]

/-- The bucket after calls that were refused, the last at `t`: it holds the
credit `g` gained meanwhile, or is full. -/
structure Holds (burst g t : Nat) (b : Bucket) : Prop where
  last : b.last = t
  cap : b.tokens ≤ burst
  credit : min burst g ≤ b.tokens

theorem filled_holds {b : Build} {bkt : Bucket} {g t now : Nat} (h : Holds (qv.get qer_val.burst_bytes 4) g t bkt)
    (h0 : 0 < t) (htn : t ≤ now) (hn : now < 2 ^ 64) (he : now - t ≤ 1000000000)
    (hp : qv.get qer_val.mbr_ul_bps 8 * (now - t) < 2 ^ 64) :
    Holds (qv.get qer_val.burst_bytes 4) (g + qv.get qer_val.mbr_ul_bps 8 * (now - t) / 8000000000) now
      (filled qv (BucketMap.of b).elapsed now bkt) := by
  have hb : qv.get qer_val.burst_bytes 4 < 2 ^ 32 := Bytes.get_lt _ _ _
  rw [filled, refilled, if_neg (by rw [h.last]; omega), h.last, elapsed_eq b hn htn,
    refill_no_wrap h.cap hb, refill_bytes_eq he hp]
  have hc := h.credit
  refine ⟨rfl, Nat.min_le_right _ _, ?_⟩
  show _ ≤ min _ _
  omega

theorem taken_refused {n : Nat} {b : Bucket} (h : (taken n b).1 = false) : (taken n b).2 = b := by
  unfold taken at h ⊢
  split
  · next hn => simp [hn] at h
  · rfl

/-- A call of the run: what it decides, and the bucket it leaves. -/
theorem call_bucket {b : Build} {cpu : Fin N} {c : Call N} {r : Bool} (hq : Limits qer_id qv s) (ho : OnBucket b cpu c)
    (hr : (admission b qer_id c.pkt_len).run c.kernel s = some (r, s')) :
    let f := filled qv (BucketMap.of b).elapsed c.now ((BucketMap.of b).bucket qer_id cpu s)
    Limits qer_id qv s' ∧ r = (taken c.pkt_len f).1 ∧
      (BucketMap.of b).bucket qer_id cpu s' = (taken c.pkt_len f).2 := by
  obtain ⟨s₁, hr', hs⟩ := call_run c b hq
  obtain ⟨hres, rfl⟩ := Prod.mk.inj (Option.some.inj (hr'.symm.trans hr))
  rw [BucketMap.admits, ho.bucket] at hres hs
  exact ⟨⟨(hs.lookup (by decide) _).trans hq.1, hq.2⟩, hres.symm, by rw [← ho.bucket]; exact hs.bucket⟩

/-- Calls of a run leave the QER alone. -/
theorem serial_limits {b : Build} {rs : List (Call N × Bool)} (hq : Limits qer_id qv s)
    (hs : Serial Call.kernel (fun _ _ => True) (fun c => upf_qer_admit b qer_id c.pkt_len) s rs s') :
    Limits qer_id qv s' := by
  induction hs with
  | nil => exact hq
  | @cons s _ _ c r _ _ hr _ ih =>
    have ho : OnBucket b c.cpu c := .inr rfl
    exact ih (call_bucket hq ho hr).1

/-- A call after refused ones, by induction on them: it is admitted if the
credit covers it. -/
theorem admitted_of_gained {b : Build} {cpu : Fin N} {mid : List (Call N × Bool)} {x : Call N} {r : Bool}
    {g t : Nat} (hq : Limits qer_id qv s)
    (hs : Serial Call.kernel (fun _ _ => True) (fun c => upf_qer_admit b qer_id c.pkt_len) s (mid ++ [(x, r)]) s')
    (ho : ∀ m ∈ mid ++ [(x, r)], OnBucket b cpu m.1) (hrej : ∀ m ∈ mid, m.2 = false) (h0 : 0 < t)
    (hmono : (t :: (mid.map (·.1.now) ++ [x.now])).Pairwise (· ≤ ·)) (hT : x.now - t ≤ 1000000000)
    (hp : qv.get qer_val.mbr_ul_bps 8 * (x.now - t) < 2 ^ 64)
    (h : Holds (qv.get qer_val.burst_bytes 4) g t ((BucketMap.of b).bucket qer_id cpu s))
    (hlen : x.pkt_len ≤ qv.get qer_val.burst_bytes 4)
    (hg : x.pkt_len ≤ g + gained (qv.get qer_val.mbr_ul_bps 8) 8000000000 t (mid.map (·.1.now) ++ [x.now])) :
    r = true := by
  induction mid generalizing s g t with
  | nil =>
    obtain ⟨htx, -⟩ := List.pairwise_cons.mp hmono
    cases hs with
    | cons _ hr _ =>
      obtain ⟨-, hd, -⟩ := call_bucket hq (ho (x, r) (by simp)) hr
      have hf := filled_holds (b := b) h h0 (htx _ (by simp)) x.now_lt hT hp
      have hc := hf.credit
      simp only [gained, List.map_nil, List.nil_append, Nat.add_zero] at hg
      have hle : x.pkt_len ≤ (filled qv (BucketMap.of b).elapsed x.now
          ((BucketMap.of b).bucket qer_id cpu s)).tokens := by omega
      rw [hd, taken, if_pos hle]
  | cons m mid ih =>
    obtain ⟨c, r'⟩ := m
    obtain ⟨htc, hmono'⟩ := List.pairwise_cons.mp hmono
    have hc : t ≤ c.now := htc _ (by simp)
    have hcx : c.now ≤ x.now := (List.pairwise_cons.mp hmono').1 _ (by simp)
    have hct : c.now - t ≤ x.now - t := by omega
    have hxc : x.now - c.now ≤ x.now - t := by omega
    have hpc := (Nat.mul_le_mul_left (qv.get qer_val.mbr_ul_bps 8) hct).trans_lt hp
    have hpx := (Nat.mul_le_mul_left (qv.get qer_val.mbr_ul_bps 8) hxc).trans_lt hp
    cases hs with
    | cons _ hr hs =>
      obtain ⟨hq₁, hd, hb⟩ := call_bucket hq (ho (c, r') (by simp)) hr
      have hf := filled_holds (b := b) h h0 hc c.now_lt (hct.trans hT) hpc
      rw [taken_refused (by rw [← hd]; exact hrej (c, r') (by simp))] at hb
      rw [← hb] at hf
      refine ih hq₁ hs (fun m hm => ho m (List.mem_cons_of_mem _ hm))
        (fun m hm => hrej m (List.mem_cons_of_mem _ hm)) (h0.trans_le hc) hmono' (hxc.trans hT) hpx hf ?_
      simpa only [List.map_cons, List.cons_append, gained, Nat.add_assoc] using hg

/-- The bucket that an admitted call leaves holds no more than the burst. -/
theorem admitted_holds {b : Build} {cpu : Fin N} {a : Call N} (hq : Limits qer_id qv s) (ho : OnBucket b cpu a)
    (hr : (admission b qer_id a.pkt_len).run a.kernel s = some (true, s')) :
    Holds (qv.get qer_val.burst_bytes 4) 0 a.now ((BucketMap.of b).bucket qer_id cpu s') := by
  obtain ⟨-, -, hb⟩ := call_bucket hq ho hr
  have hfc : (filled qv (BucketMap.of b).elapsed a.now ((BucketMap.of b).bucket qer_id cpu s)).tokens ≤
      qv.get qer_val.burst_bytes 4 := by
    rw [filled, refilled]
    split
    · exact le_rfl
    · exact Nat.min_le_right _ _
  refine ⟨?_, ?_, Nat.min_le_right _ _ |>.trans (Nat.zero_le _)⟩
  · rw [hb, taken_last, filled, refilled]
    split <;> rfl
  · have := taken_tokens a.pkt_len (filled qv (BucketMap.of b).elapsed a.now ((BucketMap.of b).bucket qer_id cpu s))
    rw [hb]
    omega

/-- In any run of calls on one bucket, a packet that fits the burst and comes
at most a second after the last one admitted is admitted, if the credit gained
since then covers it, where each of the intervals between the calls is rounded
down; and so if the credit of the whole time covers it and a byte for each
packet refused meanwhile. -/
theorem refused_rounding {b : Build} {cpu : Fin N} {calls : List (Call N)} {before mid : List (Call N × Bool)}
    {a x : Call N} {r : Bool} (hq : Limits qer_id qv s)
    (hrun : runAll Call.kernel (fun c => upf_qer_admit b qer_id c.pkt_len) calls s =
      some (before ++ (a, true) :: (mid ++ [(x, r)]), s'))
    (ho : ∀ m ∈ before ++ (a, true) :: (mid ++ [(x, r)]), OnBucket b cpu m.1)
    (hpos : ∀ m ∈ before ++ (a, true) :: (mid ++ [(x, r)]), 0 < m.1.now)
    (hmono : (before ++ (a, true) :: (mid ++ [(x, r)])).Pairwise fun m m' => m.1.now ≤ m'.1.now)
    (hrej : ∀ m ∈ mid, m.2 = false) (hT : x.now - a.now ≤ 1000000000)
    (hp : qv.get qer_val.mbr_ul_bps 8 * (x.now - a.now) < 2 ^ 64)
    (hlen : x.pkt_len ≤ qv.get qer_val.burst_bytes 4) :
    (x.pkt_len ≤ gained (qv.get qer_val.mbr_ul_bps 8) 8000000000 a.now (mid.map (·.1.now) ++ [x.now]) → r = true) ∧
    (x.pkt_len + mid.length ≤ qv.get qer_val.mbr_ul_bps 8 * (x.now - a.now) / 8000000000 → r = true) := by
  obtain ⟨s₁, hb, hs⟩ := (Serial.of_runAll hrun).append
  have ha : (a.now :: (mid.map (·.1.now) ++ [x.now])).Pairwise (· ≤ ·) := by
    have := (List.pairwise_append.mp hmono).2.1
    simpa [List.pairwise_map] using (List.pairwise_map (f := fun m : Call N × Bool => m.1.now)).mpr this
  have hmem : ∀ m ∈ mid ++ [(x, r)], m ∈ before ++ (a, true) :: (mid ++ [(x, r)]) := fun m hm =>
    List.mem_append_right _ (List.mem_cons_of_mem _ hm)
  have hq₁ := serial_limits hq hb
  have hadm : x.pkt_len ≤ gained (qv.get qer_val.mbr_ul_bps 8) 8000000000 a.now (mid.map (·.1.now) ++ [x.now]) →
      r = true := by
    intro hg
    cases hs with
    | cons _ hr hs =>
      have hh := admitted_holds hq₁ (ho (a, true) (by simp)) hr
      have hq₂ := (call_bucket hq₁ (ho (a, true) (by simp)) hr).1
      refine admitted_of_gained hq₂ hs (fun m hm => ho m (hmem m hm)) hrej (hpos (a, true) (by simp)) ha hT hp hh
        hlen ?_
      rwa [Nat.zero_add]
  refine ⟨hadm, fun hk => hadm ?_⟩
  have := div_le_gained (R := qv.get qer_val.mbr_ul_bps 8) (D := 8000000000) (by decide) ha
  rw [List.length_map] at this
  omega

/-- The calls of a run on `slowMaps`, with what each returns. -/
theorem slow_run {calls : List (Call 1)} {rs : List Bool}
    (h : (runAll Call.kernel (fun c => upf_qer_admit ⟨false, false, false⟩ 1 c.pkt_len) calls slowMaps).map
      (fun x => x.1.map Prod.snd) = some rs) : ∃ s',
    runAll Call.kernel (fun c => upf_qer_admit ⟨false, false, false⟩ 1 c.pkt_len) calls slowMaps =
      some (calls.zip rs, s') := by
  obtain ⟨⟨rs', s'⟩, hx, rfl⟩ := Option.map_eq_some_iff.mp h
  refine ⟨s', ?_⟩
  rw [← runAll_zip hx]
  exact hx

/-- A full burst, and two bytes two milliseconds later, with a packet refused in
between. -/
theorem refused_rounding_slow : ∃ a m x r s',
    runAll Call.kernel (fun c : Call 1 => upf_qer_admit ⟨false, false, false⟩ 1 c.pkt_len) [a, m, x] slowMaps =
      some ([(a, true), (m, false), (x, r)], s') ∧ x.pkt_len = 2 ∧ r = true := by
  obtain ⟨s', h⟩ := @slow_run [⟨0, 1, 1000, by decide⟩, ⟨0, 1000001, 1000, by decide⟩,
    ⟨0, 2000001, 2, by decide⟩] [true, false, true] (by decide +kernel)
  exact ⟨_, _, _, _, s', h, rfl, (@refused_rounding 1 1 slowQer slowMaps s' ⟨false, false, false⟩ 0 _ []
    [(⟨0, 1000001, 1000, by decide⟩, false)] _ _ _ slow_limits h (by decide) (by decide) (by decide) (by decide)
    (by decide) (by decide) (by decide)).1 (by decide)⟩

/-- A full burst, 1000 bytes half a millisecond later, and a single byte after
the whole millisecond in which a byte is gained: of which each call has lost
half. -/
theorem refused_starves : ∃ a m x s',
    runAll Call.kernel (fun c : Call 1 => upf_qer_admit ⟨false, false, false⟩ 1 c.pkt_len) [a, m, x] slowMaps =
      some ([(a, true), (m, false), (x, false)], s') ∧ Limits 1 slowQer slowMaps ∧
    (∀ c ∈ [a, m, x], OnBucket ⟨false, false, false⟩ 0 c ∧ 0 < c.now) ∧
    [a, m, x].Pairwise (fun c d => c.now ≤ d.now) ∧
    1000000000 * slowQer.get qer_val.mbr_ul_bps 8 < 2 ^ 64 ∧ x.now - a.now ≤ 1000000000 ∧
    x.pkt_len ≤ slowQer.get qer_val.burst_bytes 4 ∧
    x.pkt_len ≤ slowQer.get qer_val.mbr_ul_bps 8 * (x.now - a.now) / 8000000000 := by
  obtain ⟨s', h⟩ := @slow_run [⟨0, 1, 1000, by decide⟩, ⟨0, 500001, 1000, by decide⟩,
    ⟨0, 1000001, 1, by decide⟩] [true, false, false] (by decide +kernel)
  exact ⟨_, _, _, s', h, slow_limits, by decide, by decide, by decide, by decide, by decide, by decide⟩

end UPF
