import EbpfUpf.Spec.Rules

/-!
# Bundles

Reading a bundle gives back the tuples it was made of. `prep_slots` makes of
any bytes the two slots of the protocol: with the same `active` they read as
the tuple in force (`prep_slots_old`), and with the other one as the new tuple
(`prep_slots_new`).
-/

open Framework

namespace UPF

theorem activeSlot_lt (v : Bytes) : activeSlot v < 2 := Nat.mod_lt _ (by decide)

theorem slotTuple_fits (v : Bytes) (i : Nat) : (slotTuple v i).Fits :=
  ⟨Bytes.get_lt _ _ 4, Bytes.get_lt _ _ 4, Bytes.get_lt _ _ 4, Bytes.get_lt _ _ 4, Bytes.get_lt _ _ 4⟩

theorem activeTuple_fits (v : Bytes) : (activeTuple v).Fits := slotTuple_fits v _

theorem activeSlot_bundle {active : Nat} (h : active < 2) (t₀ t₁ : Tuple) :
    activeSlot (bundle active t₀ t₁) = active := by
  have : (bundle active t₀ t₁).get tc_bundle.active 4 = active := get_layout_at 0 rfl rfl (by omega)
  rw [activeSlot, this, Nat.mod_eq_of_lt h]

theorem slotTuple_layout {t : Tuple} (h : t.Fits) (fs gs : List (Nat × Nat)) {i : Nat}
    (hi : tc_bundle.slot i = width fs) : slotTuple (layout (fs ++ (t.fields ++ gs))) i = t := by
  unfold slotTuple
  simp only [hi, get_layout_shift]
  exact Tuple.ext (get_layout_at 0 rfl rfl h.far_id) (get_layout_at 1 rfl rfl h.qer_id)
    (get_layout_at 2 rfl rfl h.urr_id) (get_layout_at 3 rfl rfl h.precedence)
    (get_layout_at 4 rfl rfl h.generation)

theorem slotTuple_zero {t₀ : Tuple} (h : t₀.Fits) (active : Nat) (t₁ : Tuple) :
    slotTuple (bundle active t₀ t₁) 0 = t₀ := by
  rw [bundle, List.append_assoc]
  exact slotTuple_layout h [(4, active), (4, 0)] t₁.fields rfl

theorem slotTuple_one {t₁ : Tuple} (h : t₁.Fits) (active : Nat) (t₀ : Tuple) :
    slotTuple (bundle active t₀ t₁) 1 = t₁ := by
  have := slotTuple_layout h ([(4, active), (4, 0)] ++ t₀.fields) [] (i := 1) rfl
  rwa [List.append_nil] at this

theorem activeTuple_zero {t₀ : Tuple} (h : t₀.Fits) (t₁ : Tuple) : activeTuple (bundle 0 t₀ t₁) = t₀ := by
  rw [activeTuple, activeSlot_bundle (by decide), slotTuple_zero h]

theorem activeTuple_one {t₁ : Tuple} (h : t₁.Fits) (t₀ : Tuple) : activeTuple (bundle 1 t₀ t₁) = t₁ := by
  rw [activeTuple, activeSlot_bundle (by decide), slotTuple_one h]

/-! ## Packing -/

/-- The fields of a `struct` format and its arguments. -/
def packFields (fs : List (Fmt × Int)) : List (Nat × Nat) := fs.map fun f => (f.1.width, f.2.toNat)

def PackFits : List (Fmt × Int) → Prop
  | [] => True
  | f :: fs => f.1.fits f.2 ∧ PackFits fs

instance : (fs : List (Fmt × Int)) → Decidable (PackFits fs)
  | [] => isTrue trivial
  | _ :: fs => have := instDecidablePackFits fs
    inferInstanceAs (Decidable (_ ∧ _))

theorem pack_ok {fs : List (Fmt × Int)} {bs : Bytes} :
    pack fs = .ok bs ↔ PackFits fs ∧ layout (packFields fs) = bs := by
  induction fs generalizing bs with
  | nil => simp [pack, PackFits, packFields, layout]
  | cons f fs ih =>
    obtain ⟨c, v⟩ := f
    rw [pack, PackFits]
    by_cases hf : c.fits v
    · rw [if_neg (not_not.mpr hf)]
      cases hp : pack fs with
      | error e =>
        have : ¬ PackFits fs := fun h => by
          have := hp.symm.trans (ih.mpr ⟨h, rfl⟩)
          cases this
        exact ⟨nofun, fun h => absurd h.1.2 this⟩
      | ok rest =>
        obtain ⟨hr, rfl⟩ := ih.mp hp
        exact ⟨fun h => ⟨⟨hf, hr⟩, Except.ok.inj h⟩, fun h => congrArg Except.ok h.2⟩
    · rw [if_pos hf]
      exact ⟨nofun, fun h => absurd h.1.1 hf⟩

theorem pack_error {fs : List (Fmt × Int)} (h : ¬ PackFits fs) : pack fs = .error .struct_error := by
  induction fs with
  | nil => exact absurd trivial h
  | cons f fs ih =>
    obtain ⟨c, v⟩ := f
    rw [pack]
    by_cases hf : c.fits v
    · rw [if_neg (not_not.mpr hf), ih fun hr => h ⟨hf, hr⟩]
      rfl
    · rw [if_pos hf]
      rfl

theorem fits_iff {v : Int} : Fmt.I.fits v ↔ 0 ≤ v ∧ v < 2 ^ 32 := Iff.rfl

theorem toNat_lt {v : Int} (h : Fmt.I.fits v) : v.toNat < 2 ^ 32 := by
  have := fits_iff.mp h
  omega

theorem fits_natCast {n : Nat} (h : n < 2 ^ 32) : Fmt.I.fits n := by
  rw [fits_iff]
  omega

/-! ## The two slots -/

theorem getD_fits {o : Option Int} (ho : ∀ v ∈ o, Fmt.I.fits v) {n : Nat} (h : n < 2 ^ 32) :
    Fmt.I.fits (o.getD n) := by
  cases o with
  | none => exact fits_natCast h
  | some v => exact ho v rfl

theorem apply_fits {c : Changes} {t : Tuple} (hc : c.Fits) (ht : t.Fits) (hg : t.generation + 1 < 2 ^ 32) :
    (c.apply t).Fits :=
  ⟨toNat_lt (getD_fits hc.far_id ht.far_id), toNat_lt (getD_fits hc.qer_id ht.qer_id),
    toNat_lt (getD_fits hc.urr_id ht.urr_id), toNat_lt (getD_fits hc.precedence ht.precedence), hg⟩

theorem enc_slot_ok {t : Tuple} (h : t.Fits) :
    enc_bundle_slot t.far_id t.qer_id t.urr_id t.precedence t.generation = .ok (layout t.fields) :=
  pack_ok.mpr ⟨⟨fits_natCast h.far_id, fits_natCast h.qer_id, fits_natCast h.urr_id, fits_natCast h.precedence,
    fits_natCast h.generation, by decide, trivial⟩, rfl⟩

theorem getD_fits_iff {o : Option Int} {n : Nat} (h : n < 2 ^ 32) :
    Fmt.I.fits (o.getD n) ↔ ∀ v ∈ o, Fmt.I.fits v := by
  refine ⟨fun hf v hv => ?_, fun ho => getD_fits ho h⟩
  cases Option.mem_def.mp hv
  exact hf

/-- The new tuple is packed if all of it fits. -/
theorem enc_new_ok {c : Changes} {t : Tuple} (ht : t.Fits) {bs : Bytes} :
    enc_bundle_slot (c.far_id.getD t.far_id) (c.qer_id.getD t.qer_id) (c.urr_id.getD t.urr_id)
      (c.precedence.getD t.precedence) (t.generation + 1) = .ok bs ↔
    (c.Fits ∧ t.generation + 1 < 2 ^ 32) ∧ layout (c.apply t).fields = bs := by
  have hg : Fmt.I.fits ((t.generation : Int) + 1) ↔ t.generation + 1 < 2 ^ 32 := by
    rw [fits_iff]
    omega
  have hf : PackFits [(.I, c.far_id.getD t.far_id), (.I, c.qer_id.getD t.qer_id), (.I, c.urr_id.getD t.urr_id),
      (.I, c.precedence.getD t.precedence), (.I, (t.generation : Int) + 1), (.I, 0)] ↔
      c.Fits ∧ t.generation + 1 < 2 ^ 32 := by
    simp only [PackFits, getD_fits_iff ht.far_id, getD_fits_iff ht.qer_id, getD_fits_iff ht.urr_id,
      getD_fits_iff ht.precedence, hg]
    exact ⟨fun ⟨h1, h2, h3, h4, h5, _⟩ => ⟨⟨h1, h2, h3, h4⟩, h5⟩,
      fun ⟨h, h5⟩ => ⟨h.far_id, h.qer_id, h.urr_id, h.precedence, h5, by decide, trivial⟩⟩
  rw [enc_bundle_slot, pack_ok, hf]
  rfl

/-- The bundle with both tuples of a modification, of which `active` is in force. -/
def staged (raw : Bytes) (c : Changes) (active : Nat) : Bytes :=
  if activeSlot raw = 0 then bundle active (activeTuple raw) (c.apply (activeTuple raw))
  else bundle active (c.apply (activeTuple raw)) (activeTuple raw)

/-- Whether a modification of a bundle can be packed. -/
def Packs (raw : Bytes) (c : Changes) : Prop := c.Fits ∧ (activeTuple raw).generation + 1 < 2 ^ 32

instance (c : Changes) : Decidable c.Fits :=
  decidable_of_iff ((∀ v ∈ c.far_id, Fmt.I.fits v) ∧ (∀ v ∈ c.qer_id, Fmt.I.fits v) ∧
    (∀ v ∈ c.urr_id, Fmt.I.fits v) ∧ ∀ v ∈ c.precedence, Fmt.I.fits v)
    ⟨fun ⟨h1, h2, h3, h4⟩ => ⟨h1, h2, h3, h4⟩, fun ⟨h1, h2, h3, h4⟩ => ⟨h1, h2, h3, h4⟩⟩

instance (raw : Bytes) (c : Changes) : Decidable (Packs raw c) := inferInstanceAs (Decidable (_ ∧ _))

/-- `prep_slots` by its two packings. -/
theorem prep_slots_eq (raw : Bytes) (c : Changes) : prep_slots raw c =
    (let t := activeTuple raw
    enc_bundle_slot t.far_id t.qer_id t.urr_id t.precedence t.generation >>= fun cur =>
      enc_bundle_slot (c.far_id.getD t.far_id) (c.qer_id.getD t.qer_id) (c.urr_id.getD t.urr_id)
        (c.precedence.getD t.precedence) (t.generation + 1) >>= fun new =>
      if activeSlot raw = 0 then .ok (activeSlot raw, cur, new, (t.generation : Int) + 1)
      else .ok (activeSlot raw, new, cur, (t.generation : Int) + 1)) := rfl

theorem enc_bundle_ok {active : Nat} (h : active < 2) (t₀ t₁ : Tuple) :
    enc_bundle active (layout t₀.fields) (layout t₁.fields) = .ok (bundle active t₀ t₁) := by
  have hp : pack [(.I, (active : Int)), (.I, 0)] = .ok (layout [(4, active), (4, 0)]) :=
    pack_ok.mpr ⟨⟨fits_natCast (by omega), by decide, trivial⟩, rfl⟩
  rw [enc_bundle, hp, bundle, layout_append, layout_append]
  rfl

theorem prep_slots_ok {raw : Bytes} {c : Changes} (h : Packs raw c) : ∃ slot0 slot1,
    prep_slots raw c = .ok (activeSlot raw, slot0, slot1, ((activeTuple raw).generation : Int) + 1) ∧
    ∀ active : Nat, active < 2 → enc_bundle active slot0 slot1 = .ok (staged raw c active) := by
  rw [prep_slots_eq]
  dsimp only
  rw [enc_slot_ok (activeTuple_fits raw), (enc_new_ok (activeTuple_fits raw)).mpr ⟨h, rfl⟩]
  unfold staged
  by_cases ha : activeSlot raw = 0
  · exact ⟨_, _, if_pos ha, fun active hl => by rw [if_pos ha, enc_bundle_ok hl]⟩
  · exact ⟨_, _, if_neg ha, fun active hl => by rw [if_neg ha, enc_bundle_ok hl]⟩

theorem prep_slots_error {raw : Bytes} {c : Changes} (h : ¬ Packs raw c) :
    prep_slots raw c = .error .struct_error := by
  rw [prep_slots_eq]
  dsimp only
  rw [enc_slot_ok (activeTuple_fits raw)]
  have hn : enc_bundle_slot (c.far_id.getD (activeTuple raw).far_id) (c.qer_id.getD (activeTuple raw).qer_id)
      (c.urr_id.getD (activeTuple raw).urr_id) (c.precedence.getD (activeTuple raw).precedence)
      ((activeTuple raw).generation + 1) = .error .struct_error :=
    pack_error fun hp => h ((enc_new_ok (activeTuple_fits raw)).mp (pack_ok.mpr ⟨hp, rfl⟩)).1
  rw [hn]
  rfl

theorem activeSlot_staged (raw : Bytes) (c : Changes) {active : Nat} (h : active < 2) :
    activeSlot (staged raw c active) = active := by
  unfold staged
  split
  · exact activeSlot_bundle h _ _
  · exact activeSlot_bundle h _ _

/-- Until the flip, the tuple in force is the one there was. -/
theorem activeTuple_staged (raw : Bytes) (c : Changes) :
    activeTuple (staged raw c (activeSlot raw)) = activeTuple raw := by
  have hf := slotTuple_fits raw (activeSlot raw)
  unfold staged
  rcases (by have := activeSlot_lt raw; omega : activeSlot raw = 0 ∨ activeSlot raw = 1) with ha | ha
  · rw [if_pos ha, ha, activeTuple_zero]
    exact hf
  · rw [if_neg (by omega), ha, activeTuple_one]
    exact hf

/-- After it, it is the new one. -/
theorem activeTuple_flipped {raw : Bytes} {c : Changes} (h : Packs raw c) :
    activeTuple (staged raw c (1 - activeSlot raw)) = c.apply (activeTuple raw) := by
  have hf := apply_fits h.1 (slotTuple_fits raw (activeSlot raw)) h.2
  unfold staged
  rcases (by have := activeSlot_lt raw; omega : activeSlot raw = 0 ∨ activeSlot raw = 1) with ha | ha
  · rw [if_pos ha, ha, activeTuple_one]
    exact hf
  · rw [if_neg (by omega), ha, activeTuple_zero]
    exact hf

end UPF
