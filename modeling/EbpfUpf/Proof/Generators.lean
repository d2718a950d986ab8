import EbpfUpf.Proof.Checksum
import EbpfUpf.Proof.Egress
import EbpfUpf.Spec.Generators

/-!
# What the generators build

A build is a list of stores with the two checksums in between (`build_eq`), so
that each field of the packet is what was stored there last (`Built.field`). A
checksum is right if what stood in its place adds nothing to the sum
(`verifies_of_store`).
-/

open Framework

namespace UPF

/-- The checksum of the header that a longer buffer begins with. -/
theorem ip_csum_take {data : Bytes} (h : 20 ≤ data.length) : ip_csum data 20 = checksum (sumLE (data.take 20)) := by
  have hlt := sumLE_lt (data.take 20)
  rw [List.length_take, Nat.min_eq_left h] at hlt
  have ha := csum_add_eq data 10 0 0 (by omega) (by rw [List.drop_zero, Nat.zero_add]; exact hlt.trans_lt (by decide))
  rw [List.drop_zero, Nat.zero_add] at ha
  have hf := fold_lt (sumLE (data.take 20))
  rw [ip_csum, show csum_add data 20 0 0 = sumLE (data.take 20) from ha, csum_fold_eq, checksum_eq_fold (by omega)]
  omega

namespace Generator

variable {g : Generator} {buf out : Bytes}

/-- The stores up to the first checksum. -/
def before (g : Generator) : List (Nat × Bytes) := g.headers ++ [(16, toLE 2 (bpf_htons (56 + g.skip + g.pad)))]

/-- Those from there to the second one. -/
def between (g : Generator) (check : Nat) : List (Nat × Bytes) :=
  [(24, toLE 2 check), (38, toLE 2 (bpf_htons (36 + g.skip + g.pad))), (44, toLE 2 (bpf_htons (20 + g.skip + g.pad))),
    (52, toLE 2 (bpf_htons (20 + g.skip + g.pad)))]

theorem build_eq (g : Generator) (buf : Bytes) : g.build buf = do
    let b ← Bytes.stores g.before buf
    let b ← Bytes.stores (g.between (ip_csum (b.drop 14) 20)) b
    let b ← b.store? 60 (toLE 2 (ip_csum (b.drop 50) 20))
    return b.take (70 + g.skip + g.pad) := by
  have h₁ : iip + iphdr.size + g.skip + g.pad - ethhdr.size = 56 + g.skip + g.pad := by
    show 70 + g.skip + g.pad - 14 = _
    omega
  have h₂ : 56 + g.skip + g.pad - iphdr.size = 36 + g.skip + g.pad := by
    show 56 + g.skip + g.pad - 20 = _
    omega
  have h₃ : 36 + g.skip + g.pad - udphdr.size - 8 = 20 + g.skip + g.pad := by
    show 36 + g.skip + g.pad - 8 - 8 = _
    omega
  simp only [build, h₁, h₂, h₃, before, between, Bytes.stores_append, Bytes.stores_cons, Option.bind_eq_bind,
    Option.bind_assoc]
  rfl

/-- The stores that are made, with the checksums that are stored. -/
theorem build_some (h : g.build buf = some out) : ∃ b₁ b₂ b₃ c c',
    Bytes.stores g.before buf = some b₁ ∧ c = ip_csum (b₁.drop 14) 20 ∧ Bytes.stores (g.between c) b₁ = some b₂ ∧
      c' = ip_csum (b₂.drop 50) 20 ∧ Bytes.stores [(60, toLE 2 c')] b₂ = some b₃ ∧
      out = b₃.take (70 + g.skip + g.pad) := by
  rw [build_eq] at h
  simp only [Option.bind_eq_bind, Option.bind_eq_some_iff] at h
  obtain ⟨b₁, h₁, b₂, h₂, b₃, h₃, h₄⟩ := h
  refine ⟨b₁, b₂, b₃, _, _, h₁, rfl, h₂, rfl, ?_, (Option.some.inj h₄).symm⟩
  rw [Bytes.stores_cons, h₃]
  rfl

/-- The stores at their places. -/
theorem before_eq (g : Generator) : g.before = [(0, List.replicate 6 0xff), (6, g.src_mac),
    (12, toLE 2 (bpf_htons 0x0800)), (14, [0x45]), (22, [64]), (23, [17]), (26, [10, 99, 0, 2]), (30, [10, 99, 0, 1]),
    (34, toLE 2 (bpf_htons g.source)), (36, toLE 2 (bpf_htons 2152)), (40, toLE 2 0), (42, [0x30]), (43, [0xff]),
    (46, toLE 4 (bpf_ntohl g.teid)), (50, [0x45]), (58, [64]), (59, [17]), (62, [10, 45, 0, 1]), (66, [8, 8, 8, 8]),
    (70 + g.skip, List.replicate g.pad 0x58), (16, toLE 2 (bpf_htons (56 + g.skip + g.pad)))] := rfl

/-- The packet has to fit the buffer. -/
theorem build_isSome (hg : g.Fits) (hl : buf.length = 1500) : (g.build buf).isSome ↔ g.skip + g.pad ≤ 1430 := by
  have hm := hg.src_mac
  have hb : (Bytes.stores g.before buf).isSome ↔ g.skip + g.pad ≤ 1430 := by
    rw [Bytes.stores_isSome, hl]
    simp [before_eq, hm]
    omega
  rw [← hb, build_eq]
  cases h₁ : Bytes.stores g.before buf with
  | none => rfl
  | some b₁ =>
    have hl₁ := Bytes.length_stores h₁
    obtain ⟨b₂, h₂⟩ := Option.isSome_iff_exists.mp
      (show (Bytes.stores (g.between (ip_csum (b₁.drop 14) 20)) b₁).isSome by
        rw [Bytes.stores_isSome, hl₁, hl]
        simp [between])
    have hl₂ := Bytes.length_stores h₂
    simp [h₂, Bytes.store?, hl₂, hl₁, hl]

/-- All stores. -/
def all (g : Generator) (c c' : Nat) : List (Nat × Bytes) := g.before ++ g.between c ++ [(60, toLE 2 c')]

/-- A packet that was built, in its buffer. -/
structure Built (g : Generator) (buf b : Bytes) (c c' : Nat) (out : Bytes) : Prop where
  fits : g.Fits
  pad : g.skip + g.pad ≤ 1430
  length : b.length = 1500
  stores : Bytes.stores (g.all c c') buf = some b
  out : out = b.take (70 + g.skip + g.pad)

namespace Built

variable {b : Bytes} {c c' off n i : Nat} {v : Bytes}

theorem length_out (h : Built g buf b c c' out) : out.length = 70 + g.skip + g.pad := by
  have hl := h.length
  have hp := h.pad
  rw [h.out, List.length_take]
  omega

theorem slice_out (h : Built g buf b c c' out) (hn : off + n ≤ 70 + g.skip + g.pad) :
    out.slice off n = b.slice off n := by
  have hs := List.take_append_drop (70 + g.skip + g.pad) b
  conv_rhs => rw [← hs]
  rw [Bytes.slice_append_left (by rw [← h.out, h.length_out]; exact hn), h.out]

/-- What is in a field is what was last stored there. -/
theorem field (h : Built g buf b c c' out) (i : Nat) (hi : (g.all c c')[i]? = some (off, v))
    (hn : off + v.length ≤ 70 + g.skip + g.pad)
    (hd : ∀ w ∈ (g.all c c').drop (i + 1), off + v.length ≤ w.1 ∨ w.1 + w.2.length ≤ off) :
    out.slice off v.length = v := by
  rw [h.slice_out hn]
  exact Bytes.slice_last h.stores i hi hd

theorem number (h : Built g buf b c c' out) (i : Nat) {x : Nat} (hi : (g.all c c')[i]? = some (off, toLE n x))
    (hx : x < 256 ^ n) (hn : off + n ≤ 70 + g.skip + g.pad)
    (hd : ∀ w ∈ (g.all c c').drop (i + 1), off + n ≤ w.1 ∨ w.1 + w.2.length ≤ off) : out.get off n = x := by
  have hs := h.field i hi (by rwa [length_toLE]) (by rwa [length_toLE])
  rw [length_toLE] at hs
  rw [Bytes.get_eq_slice, hs, le_toLE_of_lt hx]

/-- A number in network byte order. -/
theorem halfword (h : Built g buf b c c' out) (i : Nat) {x : Nat}
    (hi : (g.all c c')[i]? = some (off, toLE 2 (bpf_htons x))) (hx : x < 2 ^ 16) (hn : off + 2 ≤ 70 + g.skip + g.pad)
    (hd : ∀ w ∈ (g.all c c').drop (i + 1), off + 2 ≤ w.1 ∨ w.1 + w.2.length ≤ off) : be out off 2 = x := by
  rw [be, h.number i hi (bswap_lt 2 _) hn hd, be_htons hx]

end Built

theorem Built.generated {b : Bytes} {c c' : Nat} (h : Built g buf b c c' out) : g.Generated buf out := by
  have hm := h.fits.src_mac
  have hp := h.pad
  have hlen := h.length_out
  have hproto : out.get 12 2 = bpf_htons 0x0800 :=
    h.number 2 rfl (bswap_lt 2 _) (by omega) (by simp [all, before_eq, between]; omega)
  have hver : out.get 14 1 = 0x45 :=
    h.number 3 rfl (by decide) (by omega) (by simp [all, before_eq, between]; omega)
  have hudp : out.get 23 1 = 17 :=
    h.number 5 rfl (by decide) (by omega) (by simp [all, before_eq, between]; omega)
  have hport : out.get 36 2 = bpf_htons 2152 :=
    h.number 9 rfl (bswap_lt 2 _) (by omega) (by simp [all, before_eq, between]; omega)
  have htype : out.get 43 1 = 0xff :=
    h.number 12 rfl (by decide) (by omega) (by simp [all, before_eq, between]; omega)
  have hteid : out.get 46 4 = bpf_ntohl g.teid :=
    h.number 13 rfl (bswap_lt 4 _) (by omega) (by simp [all, before_eq, between]; omega)
  have hihl : ihlBytes out = 20 := by rw [ihlBytes, hver]
  have hgtp : gtpOff out = 42 := by rw [gtpOff, hihl]
  refine ⟨hlen, ⟨by omega, hproto, by omega, hudp, by omega, by omega, ?_, by omega, ?_⟩, ?_, ?_, ?_, ?_, ?_, ?_, ?_,
    ?_, ?_, ?_, ?_, ?_⟩
  · rw [hihl]
    exact hport
  · rw [hgtp]
    exact htype
  · rw [teidOf, hgtp, hteid]
    exact bswap_bswap h.fits.teid
  · rw [outerLen, hihl]
  · have hdst : out.slice 0 6 = List.replicate 6 0xff :=
      h.field 0 rfl (by simp; omega) (by simp [all, before_eq, between]; omega)
    have hsrc : out.slice 6 6 = g.src_mac := by
      have := h.field 1 rfl (by omega) (by simp [all, before_eq, between, hm]; omega)
      rwa [hm] at this
    rw [Bytes.slice_add out 0 6 6, hdst, hsrc]
  · have hs : out.slice 26 ([10, 99, 0, 2] : Bytes).length = [10, 99, 0, 2] :=
      h.field 6 rfl (by simp; omega) (by simp [all, before_eq, between]; omega)
    have hd : out.slice 30 ([10, 99, 0, 1] : Bytes).length = [10, 99, 0, 1] :=
      h.field 7 rfl (by simp; omega) (by simp [all, before_eq, between]; omega)
    exact (Bytes.slice_add out 26 4 4).trans (congrArg₂ _ hs hd)
  · exact h.halfword 8 rfl h.fits.source (by omega) (by simp [all, before_eq, between]; omega)
  · rw [h.halfword 20 rfl (by omega) (by omega) (by simp [all, before_eq, between])]
    omega
  · rw [h.halfword 22 rfl (by omega) (by omega) (by simp [all, before_eq, between])]
    omega
  · rw [h.halfword 23 rfl (by omega) (by omega) (by simp [all, before_eq, between])]
    omega
  · exact h.number 14 rfl (by decide) (by omega) (by simp [all, before_eq, between]; omega)
  · rw [h.halfword 24 rfl (by omega) (by omega) (by simp [all, before_eq, between])]
    omega
  · rw [h.slice_out (by omega)]
    exact Bytes.slice_other h.stores (by simp [all, before_eq, between, hm])
  · have hx : out.slice (70 + g.skip) (List.replicate g.pad (0x58 : Byte)).length = List.replicate g.pad 0x58 :=
      h.field 19 rfl (by simp) (by simp [all, before_eq, between]; omega)
    rw [List.length_replicate, Bytes.slice, List.take_of_length_le] at hx
    · exact hx
    · rw [List.length_drop]
      omega

/-- The header whose checksum is stored at `off + 10`. -/
theorem verifies_of_store {bs bs' : Bytes} {off : Nat} {ws : List (Nat × Bytes)}
    (h : Bytes.stores ((off + 10, toLE 2 (ip_csum (bs.drop off) 20)) :: ws) bs = some bs') (hl : off + 20 ≤ bs.length)
    (hd : ∀ w ∈ ws, off + 20 ≤ w.1 ∨ w.1 + w.2.length ≤ off) (hv : bs.get off 1 ≠ 0) :
    Verifies (bs'.slice off 20) ↔ bs.get (off + 10) 2 = 0 ∨ bs.get (off + 10) 2 = 0xffff := by
  obtain ⟨bs₁, h₁, h₂⟩ := Option.bind_eq_some_iff.mp h
  obtain ⟨-, rfl⟩ := Bytes.store?_eq_some.mp h₁
  have hcs : ip_csum (bs.drop off) 20 = checksum (sumLE (bs.slice off 20)) :=
    ip_csum_take (by rw [List.length_drop]; omega)
  have hsum : sumLE (bs.slice off 10) ≠ 0 := by
    obtain ⟨x, y, t, ht⟩ : ∃ x y t, bs.drop off = x :: y :: t := by
      have hdl : 20 ≤ (bs.drop off).length := by
        rw [List.length_drop]
        omega
      match hb : bs.drop off, hdl with
      | x :: y :: t, _ => exact ⟨x, y, t, rfl⟩
    have hx : bs.get off 1 = x.toNat := by simp [Bytes.get, ht, le]
    rw [Bytes.slice, ht]
    simp only [List.take_succ_cons, sumLE]
    omega
  rw [Bytes.slice_other h₂ hd, hcs]
  exact Bytes.verifies_store hl hsum

/-- How a build ends, in a buffer of 1500 bytes. -/
theorem build_ends (hg : g.Fits) (hl : buf.length = 1500) : g.Outcome buf := by
  by_cases hp : 1430 < g.skip + g.pad
  · refine .inl ⟨hp, Option.not_isSome_iff_eq_none.mp fun h => ?_⟩
    have := (build_isSome hg hl).mp h
    omega
  obtain ⟨out, hout⟩ := Option.isSome_iff_exists.mp ((build_isSome hg hl).mpr (Nat.le_of_not_lt hp))
  obtain ⟨b₁, b₂, b₃, c, c', h₁, rfl, h₂, rfl, h₃, ho⟩ := build_some hout
  have hl₁ := Bytes.length_stores h₁
  have hl₂ := Bytes.length_stores h₂
  have hl₃ := Bytes.length_stores h₃
  have hm := hg.src_mac
  have hb : Built g buf b₃ (ip_csum (b₁.drop 14) 20) (ip_csum (b₂.drop 50) 20) out := by
    refine ⟨hg, by omega, by omega, ?_, ho⟩
    rw [all, Bytes.stores_append, Bytes.stores_append, h₁, Option.bind_some, h₂, Option.bind_some, h₃]
  refine .inr ⟨by omega, out, hout, hb.generated, ?_, ?_⟩
  · have h₂₃ : Bytes.stores (g.between (ip_csum (b₁.drop 14) 20) ++ [(60, toLE 2 (ip_csum (b₂.drop 50) 20))]) b₁ =
        some b₃ := by
      rw [Bytes.stores_append, h₂, Option.bind_some, h₃]
    have hs : b₁.slice 14 ([0x45] : Bytes).length = [0x45] := Bytes.slice_last h₁ 3 rfl (by simp [before_eq]; omega)
    have hv : b₁.get 14 1 = 0x45 := congrArg le hs
    have hw : b₁.get 24 2 = buf.get 24 2 := congrArg le (Bytes.slice_other h₁ (by simp [before_eq, hm]; omega))
    rw [HeaderVerifies, hb.slice_out (by omega), Neutral, ← hw]
    exact verifies_of_store h₂₃ (by omega) (by simp) (by omega)
  · have hs : b₁.slice 50 ([0x45] : Bytes).length = [0x45] := Bytes.slice_last h₁ 14 rfl (by simp [before_eq]; omega)
    have hv₁ : b₁.get 50 1 = 0x45 := congrArg le hs
    have hv₂ : b₂.get 50 1 = b₁.get 50 1 := congrArg le (Bytes.slice_other h₂ (by simp [between]))
    have hw₁ : b₁.get 60 2 = buf.get 60 2 := congrArg le (Bytes.slice_other h₁ (by simp [before_eq, hm]; omega))
    have hw₂ : b₂.get 60 2 = b₁.get 60 2 := congrArg le (Bytes.slice_other h₂ (by simp [between]))
    rw [HeaderVerifies, hb.slice_out (by omega), Neutral, ← hw₁, ← hw₂]
    exact verifies_of_store h₃ (by omega) (by simp) (by omega)

end Generator

theorem Generator.Runs.fits {g : Generator} {buf : Bytes} (h : g.Runs buf) : g.Fits ∧ buf.length = 1500 := by
  have hmod : ∀ x : Nat, x % 2 ^ 32 < 2 ^ 32 := fun x => Nat.mod_lt _ (by decide)
  cases h with
  | gtpu_blast hm ht => exact ⟨⟨hm, show 2152 < 2 ^ 16 by decide, ht⟩, List.length_replicate⟩
  | @qer_blast _ _ f hm hf =>
    have hf : f < 64 := hf
    exact ⟨⟨hm, show 30000 + f * 7 < 2 ^ 16 by omega, hmod _⟩, List.length_replicate⟩
  | @xdp_throughput_blast _ _ idx _ hm hi =>
    exact ⟨⟨hm, show 31000 + idx * 11 < 2 ^ 16 by omega, hmod _⟩, List.length_replicate⟩
  | bench_prog_cost hs ht => exact ⟨⟨rfl, show 31000 < 2 ^ 16 by decide, ht⟩, hs⟩

end UPF
