import EbpfUpf.Proof.Commit
import EbpfUpf.Proof.Reader

/-!
# Elements that are used again

What a packet reads through its pointer, one field at a time, while the agent
copies its next bundles into the same two elements. The agent's side is as it
was with atomic values (`step_upkeep`): what is published is a whole bundle,
and the tuple in force there is the one committed. An element holds what was
copied into it (`contents`). So a packet reads one committed tuple as long as no
word that it reads is copied between its lookup and that read (`one_tuple`). If
one is, it may read parts of two (`torn`).
-/

open Framework

namespace UPF

/-! ## The agent -/

/-- The changes of the call that the agent is in, whether the first of its
writes is done, and the changes of the calls that are committed. -/
structure Progress where
  call : Changes
  half : Bool
  done : List Changes

def Progress.step (p : Progress) : Tick → Progress
  | .agent (.call (.modify_tc_bundle _ c)) => ⟨c, false, p.done⟩
  | .agent (.sys (.update ..) (.ok _)) =>
    if p.half then ⟨p.call, false, p.done ++ [p.call]⟩ else ⟨p.call, true, p.done⟩
  | _ => p

def progress (h : List Tick) : Progress := h.foldl Progress.step ⟨⟨none, none, none, none⟩, false, []⟩

theorem progress_snoc (h : List Tick) (e : Tick) : progress (h ++ [e]) = (progress h).step e := by
  rw [progress, List.foldl_append]
  rfl

theorem done_step (p : Progress) (e : Tick) : p.done <+: (p.step e).done := by
  unfold Progress.step
  split
  · exact List.prefix_rfl
  · split
    · exact List.prefix_append _ _
    · exact List.prefix_rfl
  · exact List.prefix_rfl

/-- What is committed stays so. -/
theorem done_append (h h' : List Tick) : (progress h).done <+: (progress (h ++ h')).done := by
  induction h' using List.reverseRecOn with
  | nil => rw [List.append_nil]
  | append_singleton h' e ih =>
    rw [← List.append_assoc, progress_snoc]
    exact ih.trans (done_step _ e)

/-- The first words of `v` are copied into the spare element. -/
def Copied (w : Nat) (t : Htab) (v : Bytes) : Prop :=
  v.length = tc_bundle.size ∧ (t.elem t.spare).take (w * t.copied) = v.take (w * t.copied)

/-- The points of the agent, with the bundle `t.elem t.live` published. -/
inductive Point (w : Nat) (pdr_id : Int) (t : Htab) :
    Progress → Option (Command × Prog SysOps (Except PyError Unit)) → Prop
  | idle (c : Changes) (cs : List Changes) : t.copied = 0 → Point w pdr_id t ⟨c, false, cs⟩ none
  | finished (c : Changes) (cs : List Changes) (cmd : Command) (r : Except PyError Unit) : t.copied = 0 →
    Point w pdr_id t ⟨c, false, cs⟩ (some (cmd, .ret r))
  | called (c : Changes) (cs : List Changes) : t.copied = 0 → Point w pdr_id t ⟨c, false, cs⟩
    (some (.modify_tc_bundle pdr_id c, (Command.modify_tc_bundle pdr_id c).call.run))
  | staging (c : Changes) (cs : List Changes) (raw : Bytes) : Packs raw c → t.elem t.live = raw →
    Copied w t (staged raw c (activeSlot raw)) → Point w pdr_id t ⟨c, false, cs⟩
    (some (.modify_tc_bundle pdr_id c, (stageWrite pdr_id raw c).run))
  | flipping (c : Changes) (cs : List Changes) (raw : Bytes) : Packs raw c →
    t.elem t.live = staged raw c (activeSlot raw) → Copied w t (staged raw c (1 - activeSlot raw)) →
    Point w pdr_id t ⟨c, true, cs⟩ (some (.modify_tc_bundle pdr_id c, (flipWrite pdr_id raw c).run))

/-- What is published is in the map, and the tuple in force there is the one committed. -/
structure Upkeep (w : Nat) (pdr_id : Int) (t₀ : Tuple) (S : Sharing) : Prop where
  live : S.htab.live = 0 ∨ S.htab.live = 1
  length : ∀ id, (S.htab.elem id).length = tc_bundle.size
  found : S.maps.lookup .tc_bundle_map pdr_id.toNat = some (S.htab.elem S.htab.live)
  tuple : activeTuple (S.htab.elem S.htab.live) = t₀.modified (progress S.hist).done
  point : Point w pdr_id S.htab (progress S.hist) S.agent

section Agent

variable {w : Nat} {pdr_id : Int} {t₀ : Tuple} {S S' : Sharing}

theorem Upkeep.spare_ne (h : Upkeep w pdr_id t₀ S) : S.htab.spare ≠ S.htab.live := by
  have := h.live
  unfold Htab.spare
  omega

theorem length_bundle (active : Nat) (t₀ t₁ : Tuple) : (bundle active t₀ t₁).length = tc_bundle.size := by
  rw [bundle, length_layout]
  rfl

theorem length_staged (raw : Bytes) (c : Changes) (active : Nat) :
    (staged raw c active).length = tc_bundle.size := by
  unfold staged
  split <;> exact length_bundle _ _ _

theorem copied_zero {t : Htab} {v : Bytes} (hc : t.copied = 0) (hv : v.length = tc_bundle.size) : Copied w t v :=
  ⟨hv, by rw [hc, Nat.mul_zero]; rfl⟩

/-- The word that a copy writes lies in the element. -/
theorem word_le {v : Bytes} {off : Nat} (h : off < v.length) : off + ((v.drop off).take w).length ≤ v.length := by
  rw [List.length_take, List.length_drop]
  omega

theorem copy_spare (t : Htab) (v : Bytes) : (t.copy w v).elem t.spare =
    (t.elem t.spare).set (w * t.copied) ((v.drop (w * t.copied)).take w) := Function.update_self ..

theorem copy_live {t : Htab} (h : t.spare ≠ t.live) (v : Bytes) : (t.copy w v).elem t.live = t.elem t.live :=
  Function.update_of_ne h.symm ..

theorem length_copy {t : Htab} {v : Bytes} (hl : ∀ id, (t.elem id).length = tc_bundle.size)
    (hv : v.length = tc_bundle.size) (hlt : w * t.copied < v.length) (id : Nat) :
    ((t.copy w v).elem id).length = tc_bundle.size := by
  by_cases he : id = t.spare
  · rw [he, copy_spare, Bytes.length_set, hl]
    rw [hl, ← hv]
    exact word_le hlt
  · rw [← hl id]
    exact congrArg List.length (Function.update_of_ne he ..)

theorem Copied.copy {t : Htab} {v : Bytes} (h : Copied w t v) (hl : (t.elem t.spare).length = tc_bundle.size)
    (hlt : w * t.copied < v.length) : Copied w (t.copy w v) v := by
  refine ⟨h.1, ?_⟩
  have := Bytes.take_set_word (hl.trans h.1.symm) hlt h.2 w
  rw [← copy_spare] at this
  exact this

/-- When no word is left, the spare element holds the value. -/
theorem Copied.all {t : Htab} {v : Bytes} (h : Copied w t v) (hl : (t.elem t.spare).length = tc_bundle.size)
    (hge : ¬ w * t.copied < v.length) : t.elem t.spare = v := by
  have hv := h.1
  have := h.2
  rwa [List.take_of_length_le (by omega), List.take_of_length_le (by omega)] at this

/-- A turn of an update copies a word, or publishes the value. -/
theorem turn_update {c : Command} {v : Bytes} {k : Except Errno Bytes → Prog SysOps (Except PyError Unit)}
    (hk : Fmt.I.fits pdr_id) (h : Upkeep w pdr_id t₀ S) (hv : Copied w S.htab v)
    (hs : S.turn w c (.update .tc_bundle_map (key pdr_id) v) k = some S') :
    (w * S.htab.copied < v.length ∧ S' =
      { S with htab := S.htab.copy w v,
               hist := S.hist ++
                [.copy S.htab.spare (w * S.htab.copied) ((v.drop (w * S.htab.copied)).take w)] }) ∨
    (S.htab.elem S.htab.spare = v ∧ S' =
      { S with maps := S.maps.put .tc_bundle_map pdr_id.toNat v
               agent := some (c, k (.ok []))
               htab := S.htab.publish
               hist := S.hist ++ [.agent (.sys (.update .tc_bundle_map (key pdr_id) v) (.ok []))] }) := by
  rw [Sharing.turn] at hs
  split at hs
  · next hlt => exact .inl ⟨hlt, (Option.some.inj hs).symm⟩
  · next hge =>
    have hall := hv.all (h.length _) hge
    rw [hall, sys, le_key hk, update_present (.inl rfl) h.found] at hs
    exact .inr ⟨hall, (Option.some.inj hs).symm⟩

/-- What is written is a bundle. -/
theorem Upkeep.value {c : Command} {kb v : Bytes} {k : Except Errno Bytes → Prog SysOps (Except PyError Unit)}
    (hk : Fmt.I.fits pdr_id) (h : Upkeep w pdr_id t₀ S)
    (ha : S.agent = some (c, .ask (.update .tc_bundle_map kb v) k)) : v.length = tc_bundle.size := by
  have hp := h.point
  rw [ha] at hp
  generalize progress S.hist = P at hp
  generalize hq : Prog.ask (I := SysOps) (Syscall.update .tc_bundle_map kb v) k = q at hp
  cases hp with
  | finished => cases hq
  | called c cs hc =>
    rw [modify_call_eq hk] at hq
    cases hq
  | staging c cs raw _ _ hcop | flipping c cs raw _ _ hcop =>
    cases hq
    exact hcop.1

/-- A word more, and nothing published. -/
theorem Upkeep.copy {v : Bytes} (h : Upkeep w pdr_id t₀ S) (hv : v.length = tc_bundle.size)
    (hlt : w * S.htab.copied < v.length)
    (hp : Point w pdr_id (S.htab.copy w v) (progress S.hist) S.agent) :
    Upkeep w pdr_id t₀ { S with htab := S.htab.copy w v, hist := S.hist ++
      [.copy S.htab.spare (w * S.htab.copied) ((v.drop (w * S.htab.copied)).take w)] } := by
  have hlive := copy_live (w := w) h.spare_ne v
  refine ⟨h.live, length_copy h.length hv hlt, h.found.trans (congrArg some hlive.symm), ?_, ?_⟩
  · rw [progress_snoc]
    exact (congrArg activeTuple hlive).trans h.tuple
  · rw [progress_snoc]
    exact hp

/-- The value is published. -/
theorem Upkeep.publish {v : Bytes} {agent : Option (Command × Prog SysOps (Except PyError Unit))} {e : Tick}
    (h : Upkeep w pdr_id t₀ S) (hall : S.htab.elem S.htab.spare = v)
    (ht : activeTuple v = t₀.modified ((progress S.hist).step e).done)
    (hp : Point w pdr_id S.htab.publish ((progress S.hist).step e) agent) :
    Upkeep w pdr_id t₀ { S with maps := S.maps.put .tc_bundle_map pdr_id.toNat v, agent,
                                htab := S.htab.publish, hist := S.hist ++ [e] } := by
  refine ⟨?_, h.length, ?_, ?_, by rw [progress_snoc]; exact hp⟩
  · have := h.live
    change 1 - S.htab.live = 0 ∨ 1 - S.htab.live = 1
    omega
  · change Maps.lookup _ _ _ = some (S.htab.elem S.htab.spare)
    rw [Maps.lookup_put_hash (.inl rfl), hall]
  · change activeTuple (S.htab.elem S.htab.spare) = _
    rw [progress_snoc, hall, ht]

theorem agent_upkeep (hk : Fmt.I.fits pdr_id) (hs : S.step w pdr_id .agent = some S') (h : Upkeep w pdr_id t₀ S) :
    Upkeep w pdr_id t₀ S' := by
  have hp := h.point
  have ht := h.tuple
  rw [Sharing.step] at hs
  generalize hP : progress S.hist = P at hp ht
  generalize ha : S.agent = a at hp hs
  cases hp with
  | idle => cases hs
  | finished c cs cmd r hc =>
    cases hs
    refine ⟨h.live, h.length, h.found, ?_, ?_⟩
    · rw [progress_snoc, hP]
      exact ht
    · rw [progress_snoc, hP]
      exact .idle c cs hc
  | called c cs hc =>
    rw [modify_call_eq hk] at hs
    have hread : sys (.lookup .tc_bundle_map (key pdr_id) 56) S.maps =
        some (.ok (S.htab.elem S.htab.live), S.maps) := by rw [sys, le_key hk, h.found]
    simp only [lookupThen, ExceptT.run_mk, Sharing.turn, hread, Option.map_some, Option.some.injEq] at hs
    subst hs
    refine ⟨h.live, h.length, h.found, ?_, ?_⟩
    · rw [progress_snoc, hP]
      exact ht
    · rw [progress_snoc, hP]
      dsimp only
      split
      · next hpack => exact .staging c cs _ hpack rfl (copied_zero hc (length_staged _ _ _))
      · exact .finished c cs _ _ hc
  | staging c cs raw hpack hcur hcop =>
    obtain ⟨hlt, rfl⟩ | ⟨hall, rfl⟩ := turn_update hk h hcop hs
    · refine h.copy hcop.1 hlt ?_
      rw [hP, ha]
      exact .staging c cs raw hpack ((copy_live h.spare_ne _).trans hcur) (hcop.copy (h.length _) hlt)
    · refine h.publish hall ?_ ?_
      · rw [hP, activeTuple_staged, ← hcur]
        exact ht
      · rw [hP]
        exact .flipping c cs raw hpack hall (copied_zero rfl (length_staged _ _ _))
  | flipping c cs raw hpack hcur hcop =>
    obtain ⟨hlt, rfl⟩ | ⟨hall, rfl⟩ := turn_update hk h hcop hs
    · refine h.copy hcop.1 hlt ?_
      rw [hP, ha]
      exact .flipping c cs raw hpack ((copy_live h.spare_ne _).trans hcur) (hcop.copy (h.length _) hlt)
    · refine h.publish hall ?_ ?_
      · rw [hP, activeTuple_flipped hpack]
        change _ = t₀.modified (cs ++ [c])
        rw [modified_concat, ← ht, hcur, activeTuple_staged]
      · rw [hP]
        exact .finished c (cs ++ [c]) _ _ rfl

end Agent

theorem htabKernel_bundle {H : Helpers} {pdr_id : Nat} {t : Htab} {o : Op Ptr} {r : Op.Ans o} {s s' : Machine}
    (e : htabKernel H pdr_id t o s = some (r, s')) (k : Nat) :
    s'.maps.lookup .tc_bundle_map k = s.maps.lookup .tc_bundle_map k := by
  by_cases ho : isUse o = false
  · rw [htabKernel_other ho] at e
    exact (kernel_keeps e).lookup (by decide) k
  cases o with
  | lookup m key =>
    cases m <;> first | exact absurd rfl ho | skip
    rw [htabKernel] at e
    split at e
    · cases e
      rfl
    · rw [kernel_lookup rfl] at e
      cases e
      rfl
  | read p off n =>
    cases p with
    | value => exact absurd rfl ho
    | elem m key =>
      cases m <;> first | exact absurd rfl ho | skip
      cases e
      rfl
  | _ => exact absurd rfl ho

theorem step_upkeep {w : Nat} {pdr_id : Int} {t₀ : Tuple} {S S' : Sharing} {mv : Turn} (hk : Fmt.I.fits pdr_id)
    (hs : S.step w pdr_id mv = some S') (h : Upkeep w pdr_id t₀ S) : Upkeep w pdr_id t₀ S' := by
  cases mv with
  | call c =>
    have hp := h.point
    have ht := h.tuple
    rw [Sharing.step] at hs
    generalize hP : progress S.hist = P at hp ht
    generalize ha : S.agent = a at hp hs
    cases hp with
    | idle c' cs hc =>
      cases hs
      refine ⟨h.live, h.length, h.found, ?_, ?_⟩
      · rw [progress_snoc, hP]
        exact ht
      · rw [progress_snoc, hP]
        exact .called c cs hc
    | finished | called | staging | flipping => cases hs
  | agent => exact agent_upkeep hk hs h
  | op =>
    rw [Sharing.step] at hs
    split at hs
    · cases hs
    next o k ho =>
    obtain ⟨⟨r, s⟩, e, rfl⟩ := Option.map_eq_some_iff.mp hs
    refine ⟨h.live, h.length, (htabKernel_bundle e _).trans h.found, ?_, ?_⟩
    · rw [progress_snoc]
      exact h.tuple
    · rw [progress_snoc]
      exact h.point

/-! ## The elements -/

/-- What an event does to element `id`. -/
def Tick.fill (id : Nat) : Tick → Bytes → Bytes
  | .copy id' off word, v => if id' = id then v.set off word else v
  | _, v => v

/-- What element `id` holds after the history `h`. -/
def contents (elem : Nat → Bytes) (h : List Tick) (id : Nat) : Bytes := h.foldl (fun v e => e.fill id v) (elem id)

theorem contents_snoc (elem : Nat → Bytes) (h : List Tick) (e : Tick) (id : Nat) :
    contents elem (h ++ [e]) id = e.fill id (contents elem h id) := by
  rw [contents, List.foldl_append]
  rfl

/-- A copy stays in its element. -/
def Tick.Inside : Tick → Prop
  | .copy _ off word => off + word.length ≤ tc_bundle.size
  | _ => True

/-- The event copies a word over the field at `off` in element `id`. -/
def Tick.Touches (id off : Nat) : Tick → Prop
  | .copy id' off' word => id' = id ∧ off' < off + 4 ∧ off < off' + word.length
  | _ => False

theorem length_fill {e : Tick} {id : Nat} {v : Bytes} (hv : v.length = tc_bundle.size) (he : e.Inside) :
    (e.fill id v).length = tc_bundle.size := by
  cases e with
  | copy id' off word =>
    rw [Tick.fill]
    split
    · rw [Bytes.length_set (by rw [hv]; exact he), hv]
    · exact hv
  | _ => exact hv

theorem get_fill {e : Tick} {id off : Nat} {v : Bytes} (hv : v.length = tc_bundle.size) (he : e.Inside)
    (hn : ¬ e.Touches id off) : (e.fill id v).get off 4 = v.get off 4 := by
  cases e with
  | copy id' off' word =>
    rw [Tick.fill]
    split
    · next heq =>
      have : ¬ (off' < off + 4 ∧ off < off' + word.length) := fun h => hn ⟨heq, h⟩
      exact Bytes.get_set_ne (by rw [hv]; exact he) (by omega)
    · rfl
  | _ => rfl

theorem length_contents {elem : Nat → Bytes} {h : List Tick} {id : Nat} (hl : (elem id).length = tc_bundle.size)
    (hi : ∀ e ∈ h, e.Inside) : (contents elem h id).length = tc_bundle.size := by
  induction h using List.reverseRecOn with
  | nil => exact hl
  | append_singleton h e ih =>
    rw [contents_snoc]
    exact length_fill (ih fun e' he' => hi e' (List.mem_append_left _ he')) (hi e (by simp))

/-- A field that nothing is copied over stays what it is. -/
theorem get_contents {elem : Nat → Bytes} {h mid : List Tick} {id off : Nat}
    (hl : (elem id).length = tc_bundle.size) (hi : ∀ e ∈ h ++ mid, e.Inside)
    (hn : ∀ e ∈ mid, ¬ e.Touches id off) :
    (contents elem (h ++ mid) id).get off 4 = (contents elem h id).get off 4 := by
  induction mid using List.reverseRecOn with
  | nil => rw [List.append_nil]
  | append_singleton mid e ih =>
    have hi' : ∀ e' ∈ h ++ mid, e'.Inside := fun e' he' => hi e' (by
      rw [← List.append_assoc]
      exact List.mem_append_left _ he')
    rw [← List.append_assoc, contents_snoc,
      get_fill (length_contents hl hi') (hi e (by simp)) (hn e (by simp))]
    exact ih hi' fun e' he' => hn e' (List.mem_append_left _ he')

/-! ## Runs -/

/-- What the packet finds: the element with what is committed in force. What it
reads: what the element holds by then. -/
def Finds (t₀ : Tuple) (elem : Nat → Bytes) (pre : List Tick) (e : Tick) : Prop :=
  (∀ k id, e = .op (.lookup .tc_bundle_map k) (some (.elem .tc_bundle_map id)) →
    activeTuple (contents elem pre id) = t₀.modified (progress pre).done) ∧
  ∀ id off n x, e = .op (.read (.elem .tc_bundle_map id) off n) x → x = (contents elem pre id).get off n

/-- What the packet did. -/
def Tick.of : Tick → Option ((o : Op Ptr) × Op.Ans o)
  | .op o r => some ⟨o, r⟩
  | _ => none

def Sharing.log (S : Sharing) : Log (BpfOps Ptr) := S.hist.filterMap Tick.of

/-- All that holds in every state of a run from elements `elem`. -/
structure Shares (w : Nat) (pdr_id : Int) (t₀ : Tuple) (elem : Nat → Bytes) (S : Sharing) : Prop where
  upkeep : Upkeep w pdr_id t₀ S
  holds : ∀ id, S.htab.elem id = contents elem S.hist id
  inside : ∀ e ∈ S.hist, e.Inside
  finds : AtEach (Finds t₀ elem) S.hist
  ways : Ways (Answer S.packet.H pdr_id.toNat) (fun l => Uses (ofKind isUse l)) S.log S.packet.prog

section Shares

variable {w : Nat} {pdr_id : Int} {t₀ : Tuple} {elem : Nat → Bytes} {S S' : Sharing}

/-- An event that is no copy and not the packet's. -/
theorem Shares.quiet {e : Event} (h : Shares w pdr_id t₀ elem S) (hu : Upkeep w pdr_id t₀ S')
    (hp : S'.packet = S.packet) (he : S'.htab.elem = S.htab.elem) (hh : S'.hist = S.hist ++ [.agent e]) :
    Shares w pdr_id t₀ elem S' := by
  refine ⟨hu, fun id => ?_, fun e' he' => ?_, ?_, ?_⟩
  · rw [he, h.holds, hh, contents_snoc]
    rfl
  · rw [hh] at he'
    rcases List.mem_append.mp he' with h' | h'
    · exact h.inside e' h'
    · rw [List.mem_singleton.mp h']
      trivial
  · rw [hh]
    exact atEach_snoc.mpr ⟨h.finds, nofun, nofun⟩
  · have hl : S'.log = S.log := by
      rw [Sharing.log, hh, List.filterMap_append]
      exact List.append_nil _
    rw [hl, hp]
    exact h.ways

theorem turn_shares {c : Command} {o : Syscall} {k : Except Errno Bytes → Prog SysOps (Except PyError Unit)}
    (hk : Fmt.I.fits pdr_id) (h : Shares w pdr_id t₀ elem S) (hu : Upkeep w pdr_id t₀ S')
    (ha : S.agent = some (c, .ask o k)) (hs : S.turn w c o k = some S') : Shares w pdr_id t₀ elem S' := by
  unfold Sharing.turn at hs
  split at hs
  · next _ kb v =>
    split at hs
    · next hlt =>
      have hv := h.upkeep.value hk ha
      cases hs
      refine ⟨hu, fun id => ?_, fun e' he' => ?_, atEach_snoc.mpr ⟨h.finds, nofun, nofun⟩, ?_⟩
      · rw [contents_snoc, Tick.fill, ← h.holds]
        split
        · next heq => rw [← heq, copy_spare]
        · next hne => exact Function.update_of_ne (Ne.symm hne) ..
      · rcases List.mem_append.mp he' with h' | h'
        · exact h.inside e' h'
        · rw [List.mem_singleton.mp h']
          exact (word_le hlt).trans_eq hv
      · have hl : Sharing.log { S with htab := S.htab.copy w v, hist := S.hist ++
            [.copy S.htab.spare (w * S.htab.copied) ((v.drop (w * S.htab.copied)).take w)] } = S.log := by
          rw [Sharing.log, List.filterMap_append]
          exact List.append_nil _
        rw [hl]
        exact h.ways
    · obtain ⟨x, -, rfl⟩ := Option.map_eq_some_iff.mp hs
      exact h.quiet hu rfl rfl rfl
  · obtain ⟨x, -, rfl⟩ := Option.map_eq_some_iff.mp hs
    exact h.quiet hu rfl rfl rfl

theorem step_shares {mv : Turn} (hk : Fmt.I.fits pdr_id) (hs : S.step w pdr_id mv = some S')
    (h : Shares w pdr_id t₀ elem S) : Shares w pdr_id t₀ elem S' := by
  have hu := step_upkeep hk hs h.upkeep
  cases mv with
  | call c =>
    rw [Sharing.step] at hs
    split at hs <;> cases hs
    exact h.quiet hu rfl rfl rfl
  | agent =>
    rw [Sharing.step] at hs
    split at hs
    · cases hs
    · cases hs
      exact h.quiet hu rfl rfl rfl
    · next c o k ha => exact turn_shares hk h hu ha hs
  | op =>
    rw [Sharing.step] at hs
    split at hs
    · cases hs
    next o k ho =>
    obtain ⟨⟨r, s⟩, e, rfl⟩ := Option.map_eq_some_iff.mp hs
    have hans : Answer S.packet.H pdr_id.toNat o r := ⟨_, _, _, e⟩
    refine ⟨hu, fun id => ?_, fun e' he' => ?_, atEach_snoc.mpr ⟨h.finds, ?_, ?_⟩, ?_⟩
    · rw [contents_snoc]
      exact h.holds id
    · rcases List.mem_append.mp he' with h' | h'
      · exact h.inside e' h'
      · rw [List.mem_singleton.mp h']
        trivial
    · intro key id he
      cases he
      rw [htabKernel] at e
      split at e
      · cases e
        rw [← h.holds]
        exact h.upkeep.tuple
      · rw [kernel_lookup rfl] at e
        cases hl : Maps.lookup (S.packet.machine S.maps).maps .tc_bundle_map key <;> rw [hl] at e <;> cases e
    · intro id off n x he
      cases he
      cases e
      rw [← h.holds]
    · have hl : Sharing.log { S with maps := s.maps, packet := S.packet.next s (k r),
                                     hist := S.hist ++ [.op o r] } = S.log ++ [⟨o, r⟩] := by
        rw [Sharing.log, List.filterMap_append]
        rfl
      have hw := h.ways
      rw [ho] at hw
      rw [hl]
      exact hw.op hans

end Shares

/-! ## Packets -/

/-- What the packet read of the elements: where in an element, and what. -/
def elemReads (l : Log (BpfOps Ptr)) : List (Nat × Nat) :=
  l.filterMap fun
    | ⟨.read (.elem .tc_bundle_map _) off _, x⟩ => some (off, x)
    | _ => none

/-- The word that says which slot is active, and the fields of that slot. -/
def slotReads (a : Nat) (t : Tuple) : List (Nat × Nat) :=
  let cur := tc_bundle.slot (a % 2)
  [(tc_bundle.active, a), (cur + tc_bundle_slot.far_id, t.far_id), (cur + tc_bundle_slot.qer_id, t.qer_id),
    (cur + tc_bundle_slot.urr_id, t.urr_id), (cur + tc_bundle_slot.generation, t.generation)]

/-- All that the packet read of the PDR's bundle is of one of the tuples
committed, the one installed being `t₀`. -/
def OneTuple (t₀ : Tuple) (S : Sharing) : Prop :=
  ∃ cs a, cs <+: (progress S.hist).done ∧ ∀ x ∈ elemReads S.log, x ∈ slotReads a (t₀.modified cs)

/-- No word that the packet reads through its pointer is copied between the
lookup and that read. -/
def Untouched (h : List Tick) : Prop :=
  ∀ pre k id mid off n x post, h = pre ++ .op (.lookup .tc_bundle_map k) (some (.elem .tc_bundle_map id)) ::
    (mid ++ .op (.read (.elem .tc_bundle_map id) off n) x :: post) → ∀ e ∈ mid, ¬ e.Touches id off

theorem elemReads_uses (l : Log (BpfOps Ptr)) : elemReads (ofKind isUse l) = elemReads l := by
  rw [elemReads, ofKind, List.filterMap_filter, elemReads]
  refine congrFun (congrArg _ (funext fun e => ?_)) l
  obtain ⟨o, r⟩ := e
  cases o with
  | read p off n =>
    cases p with
    | value => rfl
    | elem m k => cases m <;> rfl
  | lookup m k => cases m <;> rfl
  | _ => rfl

theorem uses_log (S : Sharing) : ofKind isUse S.log = S.hist.filterMap fun e => e.of.filter fun x => isUse x.1 :=
  List.filter_filterMap

theorem tick_of_eq_some {e : Tick} {x : (o : Op Ptr) × Op.Ans o} (h : (e.of.filter fun x => isUse x.1) = some x) :
    e = .op x.1 x.2 := by
  obtain ⟨h, -⟩ := Option.filter_eq_some_iff.mp h
  cases e with
  | op o r =>
    cases h
    rfl
  | _ => cases h

section Packets

variable {w : Nat} {pdr_id : Int} {t₀ : Tuple} {elem : Nat → Bytes} {S : Sharing}

/-- What is read through the pointer is what was there at the lookup. -/
theorem read_at_lookup (h : Shares w pdr_id t₀ elem S) (hl : ∀ id, (elem id).length = tc_bundle.size)
    (hu : Untouched S.hist) {pre rest : List Tick} {k id off x : Nat}
    (hh : S.hist = pre ++ .op (.lookup .tc_bundle_map k) (some (.elem .tc_bundle_map id)) :: rest)
    (hx : elemRead id off x ∈ rest.filterMap fun e => e.of.filter fun x => isUse x.1) :
    x = (contents elem pre id).get off 4 := by
  obtain ⟨e, he, hof⟩ := List.mem_filterMap.mp hx
  obtain rfl := tick_of_eq_some hof
  obtain ⟨mid, post, rfl⟩ := List.append_of_mem he
  have hsplit : S.hist = (pre ++ .op (.lookup .tc_bundle_map k) (some (.elem .tc_bundle_map id)) :: mid) ++
      .op (.read (.elem .tc_bundle_map id) off 4) x :: post := by
    rw [hh, List.append_assoc, List.cons_append]
  have hread := (h.finds _ _ post hsplit).2 id off 4 x rfl
  rw [hread, List.append_cons, get_contents (hl id) ?_ (hu pre k id mid off 4 x post hh), contents_snoc]
  · rfl
  · intro e he
    refine h.inside e ?_
    rw [← List.append_cons] at he
    rw [hsplit]
    exact List.mem_append_left _ he

theorem start_shares {maps : Maps} {bundle spare : Bytes} {b : Build} {H : Helpers} {cpu : Nat} {wire : Bytes}
    (hb : maps.lookup .tc_bundle_map pdr_id.toNat = some bundle) (hlen : bundle.length = tc_bundle.size)
    (hsp : spare.length = tc_bundle.size) :
    Shares w pdr_id (activeTuple bundle) (fun id => if id = 0 then bundle else spare)
      (.start maps bundle spare (.arrived (.tc b) H cpu wire)) := by
  have hl : ∀ id, (if id = 0 then bundle else spare).length = tc_bundle.size := fun id => by
    split
    · exact hlen
    · exact hsp
  have h₀ : (if (0 : Nat) = 0 then bundle else spare) = bundle := if_pos rfl
  have hp : progress [] = ⟨⟨none, none, none, none⟩, false, []⟩ := rfl
  refine ⟨⟨.inl rfl, hl, ?_, ?_, ?_⟩, fun _ => rfl, fun e he => absurd he List.not_mem_nil, atEach_nil, ?_⟩
  · change _ = some (if (0 : Nat) = 0 then bundle else spare)
    rw [h₀]
    exact hb
  · change activeTuple (if (0 : Nat) = 0 then bundle else spare) = Tuple.modified _ (progress []).done
    rw [h₀, hp]
    rfl
  · change Point _ _ _ (progress []) none
    rw [hp]
    exact .idle _ _ rfl
  · exact reader_ways b H pdr_id.toNat [] rfl

/-- If nothing that a packet reads is copied in the meantime, it reads one of
the tuples committed. -/
theorem one_tuple (hk : Fmt.I.fits pdr_id) {maps : Maps} {bundle spare : Bytes}
    (hb : maps.lookup .tc_bundle_map pdr_id.toNat = some bundle) (hlen : bundle.length = tc_bundle.size)
    (hsp : spare.length = tc_bundle.size) {b : Build} {H : Helpers} {cpu : Nat} {wire : Bytes} {ms : List Turn}
    (h : exec (Sharing.step w pdr_id) (.start maps bundle spare (.arrived (.tc b) H cpu wire)) ms = some S)
    (hu : Untouched S.hist) : OneTuple (activeTuple bundle) S := by
  have hs := exec_invariant (P := fun _ _ => True) (fun _ hi hs => step_shares hk hs hi)
    (along_of_forall (fun _ _ _ => trivial) _) h (start_shares hb hlen hsp)
  have hl : ∀ id, (if id = 0 then bundle else spare).length = tc_bundle.size := fun id => by
    split
    · exact hlen
    · exact hsp
  unfold OneTuple
  rw [← elemReads_uses]
  have hlog := uses_log S
  have hways := hs.ways.now
  generalize ofKind isUse S.log = X at hlog hways
  cases hways with
  | none | lookup => exact ⟨[], 0, List.nil_prefix, nofun⟩
  | read k id a Z hZ =>
    obtain ⟨pre, e, rest, hh, he, hrest⟩ := exists_of_filterMap (hlog.symm.trans (List.nil_append _).symm)
    obtain rfl := tick_of_eq_some he
    have hact := (hs.finds pre _ rest hh).1 k id rfl
    have hread : ∀ off x, elemRead id off x ∈ elemRead id tc_bundle.active a :: Z →
        x = (contents (fun id => if id = 0 then bundle else spare) pre id).get off 4 := by
      intro off x hx
      exact read_at_lookup hs hl hu hh (hrest ▸ hx)
    generalize contents _ pre id = v at hact hread
    have ha := hread _ _ List.mem_cons_self
    refine ⟨(progress pre).done, a, by rw [hh]; exact done_append _ _, fun y hy => ?_⟩
    rw [← hact]
    rcases List.mem_cons.mp hy with rfl | hy
    · exact List.mem_cons_self
    · obtain ⟨z, hz, he⟩ := List.mem_filterMap.mp hy
      obtain ⟨f, hf, x, rfl⟩ := hZ z hz
      cases he
      rw [hread _ x (List.mem_cons_of_mem _ hz)]
      have hslot : activeTuple v = slotTuple v (a % 2) := by rw [activeTuple, activeSlot, ← ha]
      rw [hslot]
      simp only [usedFields, List.mem_cons, List.not_mem_nil, or_false] at hf
      rcases hf with rfl | rfl | rfl | rfl <;> simp [slotReads, slotTuple]

end Packets

/-- FAR 1 forwards, and a session has it. -/
def tornSetup : Option Maps :=
  (after (install_far 1 1 5 0 0) .empty).bind fun s => after (install_session 0x1000 1 0 1 32 0) s

/-- A packet of the session, with elements that hold its bundle and nothing. -/
def tornStart (maps : Maps) (bundle : Bytes) : Sharing :=
  .start maps bundle (Maps.zeros tc_bundle.size) (.arrived (.tc ⟨false, false, false⟩) willing 0 (gpduFrame 0x1000))

/-- While the packet reads, the agent's first write goes to the other element. -/
def heldTurns : List Turn :=
  List.replicate 11 Turn.op ++ ([.call ⟨some 2, none, none, none⟩] ++ (List.replicate 4 Turn.agent ++ [.op]))

/-- The packet has the element, and the agent's second write, of the next
tuple, goes there: one word before the packet goes on, and four after it has
read the FAR. -/
def tornTurns : List Turn :=
  List.replicate 10 Turn.op ++ ([.call ⟨some 2, some 2, none, none⟩] ++ (List.replicate 10 Turn.agent ++
    (List.replicate 5 Turn.op ++ (List.replicate 4 Turn.agent ++ [.op]))))

/-- No copy goes to the element that the packet found. -/
def clear : Tick → Bool
  | .copy id .. => id = 1
  | .op (.lookup .tc_bundle_map _) r => r = some (.elem .tc_bundle_map 0)
  | _ => true

theorem untouched_of_clear {h : List Tick} (hc : h.all clear = true) : Untouched h := by
  intro pre k id mid off n x post heq e he ht
  have hall := List.all_eq_true.mp hc
  have hid := hall (.op (.lookup .tc_bundle_map k) (some (.elem .tc_bundle_map id))) (by rw [heq]; simp)
  have hcl := hall e (by rw [heq]; simp [he])
  simp only [clear, decide_eq_true_eq, Option.some.injEq, Ptr.elem.injEq, true_and] at hid
  cases e with
  | copy id' off' word =>
    simp only [clear, decide_eq_true_eq] at hcl
    have := ht.1
    omega
  | _ => exact ht

theorem one_tuple_held : ∃ maps bundle S, tornSetup = some maps ∧ maps.lookup .tc_bundle_map 1 = some bundle ∧
    exec (Sharing.step 8 1) (tornStart maps bundle) heldTurns = some S ∧ elemReads S.log = [(0, 0), (8, 1)] ∧
    OneTuple (activeTuple bundle) S := by
  have h : (tornSetup.bind fun maps => (maps.lookup .tc_bundle_map 1).bind fun bundle =>
      (exec (Sharing.step 8 1) (tornStart maps bundle) heldTurns).map fun S =>
        (elemReads S.log, bundle.length, S.hist.all clear)) = some ([(0, 0), (8, 1)], 56, true) := by decide +kernel
  obtain ⟨maps, hm, h⟩ := Option.bind_eq_some_iff.mp h
  obtain ⟨bundle, hb, h⟩ := Option.bind_eq_some_iff.mp h
  obtain ⟨S, hs, h⟩ := Option.map_eq_some_iff.mp h
  obtain ⟨hr, hlen, hc⟩ : _ ∧ _ ∧ _ := by simpa only [Prod.mk.injEq] using h
  exact ⟨maps, bundle, S, hm, hb, hs, hr, one_tuple (by decide) hb hlen rfl hs (untouched_of_clear hc)⟩

/-- The element is used again while the packet reads: the packet is let pass by
FAR 1, and goes on with the next tuple's FAR. -/
theorem torn : ∃ maps bundle S, tornSetup = some maps ∧ maps.lookup .tc_bundle_map 1 = some bundle ∧
    exec (Sharing.step 8 1) (tornStart maps bundle) tornTurns = some S ∧
    elemReads S.log = [(0, 1), (32, 1), (32, 2)] ∧ ¬ OneTuple (activeTuple bundle) S := by
  have h : (tornSetup.bind fun maps => (maps.lookup .tc_bundle_map 1).bind fun bundle =>
      (exec (Sharing.step 8 1) (tornStart maps bundle) tornTurns).map fun S => elemReads S.log) =
      some [(0, 1), (32, 1), (32, 2)] := by decide +kernel
  obtain ⟨maps, hm, h⟩ := Option.bind_eq_some_iff.mp h
  obtain ⟨bundle, hb, h⟩ := Option.bind_eq_some_iff.mp h
  obtain ⟨S, hs, h⟩ := Option.map_eq_some_iff.mp h
  refine ⟨maps, bundle, S, hm, hb, hs, h, fun ho => ?_⟩
  obtain ⟨cs, a, -, hall⟩ := ho
  rw [h] at hall
  generalize (activeTuple bundle).modified cs = t at hall
  -- One field of one slot, with two values.
  have h₁ := hall (32, 1) (by simp)
  have h₂ := hall (32, 2) (by simp)
  simp only [slotReads, tc_bundle.active, tc_bundle.slot, tc_bundle_slot.size, tc_bundle_slot.far_id,
    tc_bundle_slot.qer_id, tc_bundle_slot.urr_id, tc_bundle_slot.generation, List.mem_cons, Prod.mk.injEq,
    List.not_mem_nil, or_false] at h₁ h₂
  omega

end UPF
