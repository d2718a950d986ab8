import EbpfUpf.Proof.Report
import EbpfUpf.Proof.Testbed
import EbpfUpf.Proof.Visits
import EbpfUpf.Spec.Scrape

/-!
# The metrics page is read back

The quotes of a line have the name of one stage between them (`key_unique`), so
that the regular expression and `awk` both find that stage's number
(`page_shows`). Each count of a frame raises one number by one, and so a later
page shows as many more as there were counts since (`scrapes_count`).
-/

open Framework

namespace UPF

/-! ## One line -/

/-- The line of a stage, without its end. -/
def stageLine (name : String) (n : Nat) : Text := stageLabel name ++ ' ' :: decimal n

/-- The part of a label that `awk` looks for. -/
def stageKey (name : String) : Text := "stage=".toList ++ '"' :: (name.toList ++ ['"'])

/-- A name without the characters that delimit it. -/
structure PlainName (name : String) : Prop where
  quote : '"' ∉ name.toList
  line : '\n' ∉ name.toList

theorem plainName_of_mem : ∀ name ∈ METRIC_NAMES, PlainName name := by
  have : ∀ name ∈ METRIC_NAMES, '"' ∉ name.toList ∧ '\n' ∉ name.toList := by decide
  exact fun name h => ⟨(this name h).1, (this name h).2⟩

theorem not_mem_decimal {n : Nat} {c : Char} (h : c.isDigit = false) : c ∉ decimal n := fun hc => by
  rw [decimal_isDigit c hc] at h
  cases h

variable {name other : String} {n : Nat}

theorem quote_not_mem_label : '"' ∉ "upf_packets_total".toList ++ '{' :: "stage=".toList := by decide

theorem line_not_mem_label : '\n' ∉ "upf_packets_total".toList ∧ '\n' ∉ "stage=".toList := by decide

theorem stageLabel_eq (name : String) : stageLabel name =
    ("upf_packets_total".toList ++ '{' :: "stage=".toList) ++ '"' :: (name.toList ++ '"' :: ['}']) := by
  unfold stageLabel
  generalize "upf_packets_total".toList = a
  generalize "stage=".toList = b
  simp

theorem stageKey_inside (name : String) : stageKey name <:+: stageLabel name := by
  unfold stageKey stageLabel
  generalize "upf_packets_total".toList = a
  generalize "stage=".toList = b
  exact ⟨a ++ ['{'], ['}'], by simp⟩

/-- A line has the key of its own stage only. -/
theorem key_unique (hn : PlainName name) (ho : PlainName other) (h : stageKey name <:+: stageLine other n) :
    name = other := by
  obtain ⟨u, v, huv⟩ := h
  rw [stageLine, stageLabel_eq, stageKey] at huv
  have ha := quote_not_mem_label
  generalize "upf_packets_total".toList ++ '{' :: "stage=".toList = a at huv ha
  generalize "stage=".toList = b at huv
  have hq : (u ++ b) ++ '"' :: (name.toList ++ '"' :: v) =
      a ++ '"' :: (other.toList ++ '"' :: ('}' :: ' ' :: decimal n)) := by
    simpa using huv
  have hd : '"' ∉ '}' :: ' ' :: decimal n := by
    have := not_mem_decimal (n := n) (c := '"') (by decide)
    simp [this]
  exact String.toList_injective (quoted_unique hq hn.quote ho.quote ha hd)

/-! ## The regular expression -/

theorem stageMatch_prefix {t : Text} {v : Nat} (h : stageMatch name t = some v) : stageLabel name <+: t := by
  rw [stageMatch] at h
  split at h
  · exact startswith_iff.mp ‹_›
  · cases h

theorem stageMatch_line (name : String) (n : Nat) (y : Text) :
    stageMatch name (stageLine name n ++ '\n' :: y) = some n := by
  have hp : startswith (stageLabel name) (stageLine name n ++ '\n' :: y) = true :=
    startswith_iff.mpr ⟨' ' :: decimal n ++ '\n' :: y, by rw [stageLine, List.append_assoc]⟩
  have hr : (stageLine name n ++ '\n' :: y).drop (stageLabel name).length = ' ' :: (decimal n ++ '\n' :: y) := by
    rw [stageLine, List.append_assoc, List.drop_left, List.cons_append]
  have hd : (' ' :: (decimal n ++ '\n' :: y)).dropWhile isSpace = decimal n ++ '\n' :: y := by
    rw [List.dropWhile_cons_of_pos (by decide)]
    obtain ⟨c, ds, hc⟩ := List.exists_cons_of_ne_nil (decimal_ne_nil n)
    have hs := isDigit_not_space (decimal_isDigit c (by rw [hc]; exact List.mem_cons_self))
    rw [hc, List.cons_append, List.dropWhile_cons_of_neg (by simp [hs])]
  have ht : (decimal n ++ '\n' :: y).takeWhile Char.isDigit = decimal n := by
    rw [List.takeWhile_append_of_pos decimal_isDigit, List.takeWhile_cons_of_neg (by decide), List.append_nil]
  rw [stageMatch, if_pos hp]
  simp only [hr, hd, ht]
  rw [if_pos ⟨rfl, decimal_ne_nil n⟩, ofDigitChars_decimal]

/-! ## `awk` -/

theorem isDigit_not_blank {c : Char} (h : c.isDigit = true) : ¬(c = ' ' ∨ c = '\t' ∨ c = '\n') := by
  rintro (rfl | rfl | rfl) <;> cases h

/-- The number comes last. -/
theorem lastField_line (name : String) (n : Nat) : lastField (stageLine name n ++ ['\n']) = decimal n := by
  have hr : (stageLine name n ++ ['\n']).rdropWhile (fun c => c = ' ' ∨ c = '\t' ∨ c = '\n') = stageLine name n := by
    rw [List.rdropWhile_concat_pos _ _ _ (by decide), List.rdropWhile_eq_self_iff]
    rw [stageLine]
    intro hne
    have hl := List.getLast_mem (decimal_ne_nil n)
    rw [List.getLast_append_of_ne_nil _ (List.cons_ne_nil _ _), List.getLast_cons (decimal_ne_nil n)]
    simpa using isDigit_not_blank (decimal_isDigit _ hl)
  rw [lastField, hr, stageLine, List.rtakeWhile, List.reverse_append, List.reverse_cons, List.append_assoc,
    List.takeWhile_append_of_pos, List.singleton_append, List.takeWhile_cons_of_neg (by decide), List.append_nil,
    List.reverse_reverse]
  intro c hc
  have := isDigit_not_blank (decimal_isDigit c (List.mem_reverse.mp hc))
  simp only [not_or] at this
  simp [this]

/-! ## The page -/

/-- The lines of a page on which stage `name` has the number `f name`. -/
def pageLines (f : String → Nat) : List Text := helpLines ++ METRIC_NAMES.map fun name => stageLine name (f name)

theorem line_not_mem_stageLine (hn : PlainName name) (n : Nat) : '\n' ∉ stageLine name n := by
  have hd := not_mem_decimal (n := n) (c := '\n') (by decide)
  obtain ⟨ha, hb⟩ := line_not_mem_label
  unfold stageLine stageLabel
  generalize "upf_packets_total".toList = a at ha ⊢
  generalize "stage=".toList = b at hb ⊢
  simp [ha, hb, hd, hn.line]

theorem pageLines_plain (f : String → Nat) : ∀ body ∈ pageLines f, '\n' ∉ body := by
  have hh : ∀ body ∈ helpLines, '\n' ∉ body := by decide
  intro body hb
  rcases List.mem_append.mp hb with h | h
  · exact hh body h
  · obtain ⟨name, hm, rfl⟩ := List.mem_map.mp h
    exact line_not_mem_stageLine (plainName_of_mem name hm) _

theorem line_not_mem_stageKey (hn : PlainName name) : '\n' ∉ stageKey name := fun h =>
  line_not_mem_stageLine hn 0 (List.mem_append_left _ ((stageKey_inside name).subset h))

theorem key_help {body : Text} (hb : body ∈ helpLines) : ¬ stageKey name <:+: body := fun h => by
  have hh : ∀ body ∈ helpLines, '"' ∉ body := by decide
  have hq : '"' ∈ stageKey name := by
    unfold stageKey
    generalize "stage=".toList = b
    simp
  exact hh body hb (h.subset hq)

/-- The lines with the key of `name`. -/
theorem key_line (f : String → Nat) {body : Text} (hb : body ∈ pageLines f) (hn : PlainName name)
    (h : stageKey name <:+: body) : body = stageLine name (f name) := by
  rcases List.mem_append.mp hb with hb | hb
  · exact absurd h (key_help hb)
  · obtain ⟨other, hm, rfl⟩ := List.mem_map.mp hb
    rw [key_unique hn (plainName_of_mem other hm) h]

theorem pageLines_mem (f : String → Nat) (hm : name ∈ METRIC_NAMES) : stageLine name (f name) ∈ pageLines f :=
  List.mem_append_right _ (List.mem_map_of_mem hm)

theorem counter_line (f : String → Nat) (hm : name ∈ METRIC_NAMES) :
    metrics_counter ((pageLines f).map (· ++ ['\n'])).flatten name = f name := by
  have hn := plainName_of_mem name hm
  obtain ⟨pre, post, hp, hpre⟩ := List.eq_append_cons_of_mem (pageLines_mem f hm)
  have hno : ∀ body ∈ pre, ¬ stageLabel name <:+: body := fun body hb h => by
    have := key_line f (hp ▸ List.mem_append_left _ hb) hn ((stageKey_inside name).trans h)
    exact hpre (this ▸ hb)
  have hline : '\n' ∉ stageLabel name := fun h => line_not_mem_stageLine hn 0 (List.mem_append_left _ h)
  have hne : stageLabel name ≠ [] := by
    rw [stageLabel_eq]
    exact List.append_ne_nil_of_right_ne_nil _ (List.cons_ne_nil _ _)
  rw [metrics_counter, hp, List.map_append, List.map_cons, List.flatten_append, List.flatten_cons,
    search_lines (fun t v h => stageMatch_prefix h) hline hne hno, List.append_assoc]
  exact congrArg (Option.getD · 0) (search_match (stageMatch_line name (f name) _))

/-- `awk` prints one line. -/
theorem awk_line (f : String → Nat) (hm : name ∈ METRIC_NAMES) :
    read_metric ((pageLines f).map (· ++ ['\n'])).flatten name = [decimal (f name)] := by
  have hn := plainName_of_mem name hm
  have hl : ∀ l ∈ (pageLines f).map (· ++ ['\n']), IsLine l := List.forall_mem_map.mpr fun body hb =>
    ⟨body, rfl, pageLines_plain f body hb⟩
  have hhelp : helpLines.filter (fun body => contains (stageKey name) (body ++ ['\n'])) = [] :=
    List.filter_eq_nil_iff.mpr fun body hb h =>
      key_help hb (infix_of_line (line_not_mem_stageKey hn) (contains_iff.mp h))
  have hstage : ∀ other ∈ METRIC_NAMES,
      contains (stageKey name) (stageLine other (f other) ++ ['\n']) = decide (other = name) := fun other ho => by
    rw [Bool.eq_iff_iff, contains_iff, decide_eq_true_eq]
    constructor
    · exact fun h => (key_unique hn (plainName_of_mem other ho) (infix_of_line (line_not_mem_stageKey hn) h)).symm
    · rintro rfl
      exact (stageKey_inside other).trans ⟨[], ' ' :: decimal (f other) ++ ['\n'], by simp [stageLine]⟩
  have hone : METRIC_NAMES.filter (· = name) = [name] := by
    have : ∀ name ∈ METRIC_NAMES, METRIC_NAMES.filter (· = name) = [name] := by decide
    exact this name hm
  have hf : (pageLines f).filter (fun body => contains (stageKey name) (body ++ ['\n'])) =
      [stageLine name (f name)] := by
    have hstages := (List.filter_congr hstage).trans hone
    rw [pageLines, List.filter_append, hhelp, List.nil_append, List.filter_map]
    exact congrArg (List.map fun name => stageLine name (f name)) hstages
  rw [read_metric, readlines_flatten hl, List.filter_map]
  refine (congrArg (fun bodies => (bodies.map (· ++ ['\n'])).map lastField) hf).trans ?_
  rw [List.map_singleton, List.map_singleton, lastField_line]

/-- Both readers find on the page what the maps have. -/
theorem page_shows (N : Nat) (s : Maps) : ∃ page, prometheus_text (metrics_dump N s) = .ok page ∧
    ∀ idx : Metric, idx.Shows page (metricTotal N s idx) := by
  obtain ⟨out, hout, hname⟩ := read_metrics_eq N s
  have hidx : ∀ idx : Metric, (out idx.name).getD 0 = metricTotal N s idx := fun idx => by rw [hname]; rfl
  have hm : ∀ idx : Metric, idx.name ∈ METRIC_NAMES := fun idx => List.mem_of_getElem? (name_ctorIdx idx)
  refine ⟨((pageLines fun name => (out name).getD 0).map (· ++ ['\n'])).flatten, ?_, fun idx => ?_⟩
  · rw [prometheus_text, hout, ← intercalate_line _ (by simp [pageLines, helpLines])]
    rfl
  · rw [← hidx]
    exact ⟨counter_line (fun name => (out name).getD 0) (hm idx), awk_line (fun name => (out name).getD 0) (hm idx)⟩

/-! ## Counting -/

theorem metricTotal_congr {s s' : Maps} (h : s'.metrics = s.metrics) (N : Nat) (idx : Metric) :
    metricTotal N s' idx = metricTotal N s idx := by
  rw [metricTotal, h, metricTotal]

/-- One more on one of the CPUs, unless it wraps. -/
theorem metricTotal_count {N cpu : Nat} {s : Maps} {idx : Metric} (hc : cpu < N)
    (hb : metricTotal N s idx + 1 < 2 ^ 64) :
    metricTotal N (s.count cpu idx) idx = metricTotal N s idx + 1 := by
  have hmem := Finset.mem_range.mpr hc
  have hle : s.metrics cpu idx % 2 ^ 64 ≤ metricTotal N s idx :=
    Finset.single_le_sum_of_canonicallyOrdered (f := fun c => s.metrics c idx % 2 ^ 64) hmem
  have hself : (s.count cpu idx).metrics cpu idx % 2 ^ 64 = s.metrics cpu idx % 2 ^ 64 + 1 := by
    rw [metrics_count, if_pos ⟨rfl, rfl⟩]
    omega
  have hother : ∀ c ∈ Finset.range N \ {cpu}, (s.count cpu idx).metrics c idx % 2 ^ 64 = s.metrics c idx % 2 ^ 64 := by
    intro c hc
    have hne : c ≠ cpu := by simpa using (Finset.mem_sdiff.mp hc).2
    rw [metrics_count, if_neg fun h => hne h.1]
  rw [metricTotal, metricTotal, Finset.sum_eq_add_sum_sdiff_singleton_of_mem hmem, Finset.sum_congr rfl hother, hself,
    Finset.sum_eq_add_sum_sdiff_singleton_of_mem hmem, Nat.add_right_comm]

theorem metricTotal_count_ne {N cpu : Nat} {s : Maps} {idx idx' : Metric} (h : idx ≠ idx') :
    metricTotal N (s.count cpu idx') idx = metricTotal N s idx :=
  Finset.sum_congr rfl fun c _ => by rw [metrics_count, if_neg fun h' => h h'.2]

theorem bumps_snoc (idx : Metric) (h : List Happening) (e : Happening) :
    bumps idx (h ++ [e]) = bumps idx h + bumps idx [e] :=
  List.countP_append

namespace Testbed

variable {S S' : Testbed} {N : Nat} {idx : Metric}

/-- The frames are on the `N` CPUs, and the maps have counted `n` and what the frames have. -/
structure Tally (N : Nat) (idx : Metric) (n : Nat) (S : Testbed) : Prop where
  cpu : ∀ p ∈ S.frames, p.cpu < N
  total : n + bumps idx S.hist < 2 ^ 64 → metricTotal N S.maps idx = n + bumps idx S.hist

theorem Tally.uncounted {n : Nat} (h : S.Tally N idx n) {e : Happening} (he : bumps idx [e] = 0)
    (hm : S'.maps.metrics = S.maps.metrics) (hf : S'.frames = S.frames) (hh : S'.hist = S.hist ++ [e]) :
    S'.Tally N idx n := by
  refine ⟨hf ▸ h.cpu, fun hb => ?_⟩
  rw [hh, bumps_snoc, he, Nat.add_zero] at hb ⊢
  rw [metricTotal_congr hm, h.total hb]

theorem step_hist {mv : Move} (h : S.step mv = some S') : S.hist <+: S'.hist := by
  cases mv with
  | exec p | arrive programme H cpu wire =>
    cases h
    exact List.prefix_rfl
  | evict teid =>
    cases h
    exact List.prefix_append _ _
  | sys j =>
    obtain ⟨o, k, r, maps, -, -, rfl⟩ := step_sys h
    exact List.prefix_append _ _
  | op i =>
    obtain ⟨p, o, k, r, x, -, -, -, -, rfl⟩ := step_op h
    exact List.prefix_append _ _

theorem run_hist {ms : List Move} (h : exec step S ms = some S') : S.hist <+: S'.hist :=
  exec_invariant (J := fun T => S.hist <+: T.hist) (P := fun _ _ => True) (fun _ hi hs => hi.trans (step_hist hs))
    (along_of_forall (fun _ _ _ => trivial) S) h List.prefix_rfl

theorem step_tally {mv : Move} {n : Nat} (hn : ∀ programme H cpu wire, mv = .arrive programme H cpu wire → cpu < N)
    (h : S.Tally N idx n) (hs : S.step mv = some S') : S'.Tally N idx n := by
  cases mv with
  | exec p =>
    cases hs
    exact ⟨h.cpu, h.total⟩
  | sys j =>
    obtain ⟨o, k, r, maps, -, e, rfl⟩ := step_sys hs
    exact h.uncounted (e := .sys j o r) rfl (sys_percpu e).2 rfl rfl
  | evict teid =>
    cases hs
    exact h.uncounted (e := .evict teid) rfl rfl rfl rfl
  | arrive programme H cpu wire =>
    cases hs
    refine ⟨fun p hp => ?_, h.total⟩
    rcases List.mem_append.mp hp with hp | hp
    · exact h.cpu p hp
    · rw [List.mem_singleton.mp hp]
      exact hn programme H cpu wire rfl
  | op i =>
    obtain ⟨p, o, k, r, x, hi, -, -, e, rfl⟩ := step_op hs
    obtain ⟨-, hm⟩ := kernel_metrics e
    have hp := h.cpu p (List.mem_of_getElem? hi)
    refine ⟨fun p' hp' => ?_, fun hb => ?_⟩
    · rcases List.mem_or_eq_of_mem_set hp' with hp' | rfl
      · exact h.cpu p' hp'
      · exact hp
    have hh : (S.performed i p o r x (k r)).hist = S.hist ++ [.op i o r] := rfl
    rw [hh, bumps_snoc, ← Nat.add_assoc] at hb ⊢
    have ht := h.total (by omega)
    refine (metricTotal_congr hm N idx).trans ?_
    rw [← ht] at hb ⊢
    by_cases hbump : bumpOf o = some idx
    · have hone : bumps idx [.op i o r] = 1 := by simp [bumps, hbump]
      rw [hone] at hb ⊢
      rw [hbump]
      exact metricTotal_count hp hb
    · have hnone : bumps idx [.op i o r] = 0 := by simp [bumps, hbump]
      rw [hnone, Nat.add_zero]
      cases hb' : bumpOf o with
      | none => rfl
      | some idx' => exact metricTotal_count_ne fun he => hbump (he ▸ hb')

theorem run_tally {ms : List Move} {n : Nat} (hn : OnCpus N ms) (h : S.Tally N idx n) (he : exec step S ms = some S') :
    S'.Tally N idx n := by
  refine exec_invariant (P := fun _ mv => ∀ programme H cpu wire, mv = .arrive programme H cpu wire → cpu < N)
    (fun hm hi hs => step_tally hm hi hs) (along_of_forall (fun mv hmv S programme H cpu wire ht => ?_) S) he h
  subst ht
  exact hn programme H cpu wire hmv

end Testbed

/-- Two scrapes in the course of a run. -/
theorem scrapes_count {N : Nat} {idx : Metric} {maps : Maps} {ms ms' : List Testbed.Move} {S S' : Testbed}
    (hn : Testbed.OnCpus N (ms ++ ms')) (h : exec Testbed.step (.start maps) ms = some S)
    (h' : exec Testbed.step S ms' = some S') (hb : metricTotal N maps idx + bumps idx S'.hist < 2 ^ 64) :
    ∃ page page' later, prometheus_text (metrics_dump N S.maps) = .ok page ∧
      prometheus_text (metrics_dump N S'.maps) = .ok page' ∧ S'.hist = S.hist ++ later ∧
      idx.Shows page (metricTotal N maps idx + bumps idx S.hist) ∧
      idx.Shows page' (metricTotal N maps idx + bumps idx S.hist + bumps idx later) := by
  have hS : S.Tally N idx (metricTotal N maps idx) := Testbed.run_tally
    (fun programme H cpu wire hm => hn programme H cpu wire (List.mem_append_left _ hm))
    ⟨fun p hp => absurd hp List.not_mem_nil, fun _ => rfl⟩ h
  have hS' := Testbed.run_tally
    (fun programme H cpu wire hm => hn programme H cpu wire (List.mem_append_right _ hm)) hS h'
  obtain ⟨later, hlater⟩ := Testbed.run_hist h'
  obtain ⟨page, hp, hshows⟩ := page_shows N S.maps
  obtain ⟨page', hp', hshows'⟩ := page_shows N S'.maps
  have hsum : bumps idx S'.hist = bumps idx S.hist + bumps idx later := by
    rw [← hlater]
    exact List.countP_append
  refine ⟨page, page', later, hp, hp', hlater.symm, ?_, ?_⟩
  · rw [← hS.total (by omega)]
    exact hshows idx
  · rw [Nat.add_assoc, ← hsum, ← hS'.total hb]
    exact hshows' idx

/-- Of two frames, one is forwarded between the scrapes. -/
theorem scrapes_count_contention : ∃ S S' page page',
    exec Testbed.step (.start .empty) (Testbed.contention 46 0) = some S ∧
    exec Testbed.step S (List.replicate 52 (.op 1)) = some S' ∧
    prometheus_text (metrics_dump 2 S.maps) = .ok page ∧ prometheus_text (metrics_dump 2 S'.maps) = .ok page' ∧
    Metric.M_TC_FAR_FORWARD.Shows page 1 ∧ Metric.M_TC_FAR_FORWARD.Shows page' 2 := by
  have hrun : ((exec Testbed.step (.start .empty) (Testbed.contention 46 0)).bind fun S =>
      (exec Testbed.step S (List.replicate 52 (.op 1))).map fun S' =>
        (bumps .M_TC_FAR_FORWARD S.hist, bumps .M_TC_FAR_FORWARD S'.hist)) = some (1, 2) := by
    decide +kernel
  obtain ⟨S, h, hrun⟩ := Option.bind_eq_some_iff.mp hrun
  obtain ⟨S', h', hb⟩ := Option.map_eq_some_iff.mp hrun
  have h0 : metricTotal 2 .empty .M_TC_FAR_FORWARD = 0 := by decide
  have hcpu : Testbed.OnCpus 2 (Testbed.contention 46 0 ++ List.replicate 52 (.op 1)) := by
    intro programme H cpu wire hm
    simp [Testbed.contention] at hm
    omega
  have hb1 : bumps .M_TC_FAR_FORWARD S.hist = 1 := congrArg Prod.fst hb
  have hb2 : bumps .M_TC_FAR_FORWARD S'.hist = 2 := congrArg Prod.snd hb
  obtain ⟨page, page', later, hp, hp', hl, hs, hs'⟩ := scrapes_count hcpu h h' (by rw [h0, hb2]; decide)
  have hb3 : bumps .M_TC_FAR_FORWARD later = 1 := by
    rw [hl, bumps, List.countP_append] at hb2
    rw [bumps] at hb1 ⊢
    omega
  rw [h0, hb1] at hs
  rw [h0, hb1, hb3] at hs'
  exact ⟨S, S', page, page', h, h', hp, hp', hs, hs'⟩

end UPF
