import EbpfUpf.Framework.Layout
import EbpfUpf.Spec.Capture

/-!
# Captures are read back

A line of bytes is read as it was written (`capturedBytes_lines`), so that the
readers find the events of a capture in order (`parseLines_capture`). From a
capture that was cut short they get no more than one event that is not there
(`capture_cut`).
-/

open Framework

namespace UPF

/-! ## Lines of bytes -/

theorem gap_blank (i : Nat) : (gap i).filter (fun c => !isSpace c) = [] := by
  unfold gap
  split <;> decide

theorem hexBody_digits (data : Bytes) (i : Nat) :
    ((data.zipIdx i).flatMap fun x => gap x.2 ++ hexByte x.1).filter (fun c => !isSpace c) = data.flatMap hexByte := by
  induction data generalizing i with
  | nil => rfl
  | cons b data ih =>
    have hb : (hexByte b).filter (fun c => !isSpace c) = hexByte b :=
      List.filter_eq_self.mpr fun c hc => by rw [hexByte_blank c hc]; rfl
    rw [List.zipIdx_cons, List.flatMap_cons, List.filter_append, List.filter_append, gap_blank, hb, ih]
    rfl

theorem mem_hexBody {data : Bytes} {c : Char} (h : c ∈ hexBody data) : c = ' ' ∨ isSpace c = false := by
  simp only [hexBody, List.mem_flatMap, List.mem_append] at h
  obtain ⟨x, -, hg | hb⟩ := h
  · left
    unfold gap at hg
    split at hg <;> simp at hg <;> exact hg
  · exact .inr (hexByte_blank c hb)

theorem isWhole_hexLine (data : Bytes) : IsWhole (hexLine data) := by
  have hbody : ∀ c ∈ hexBody data, c ≠ '\n' ∧ c ≠ '\r' := by
    intro c hc
    rcases mem_hexBody hc with rfl | h
    · decide
    · exact ⟨fun hn => absurd (hn ▸ h) (by decide), fun hr => absurd (hr ▸ h) (by decide)⟩
  refine ⟨⟨hexBody data, rfl, fun h => (hbody _ h).1 rfl⟩, fun h => ?_⟩
  rcases List.mem_append.mp h with h | h
  · exact (hbody _ h).2 rfl
  · exact absurd h (by decide)

/-- The beginning of a line of bytes with at least its first character is no header. -/
theorem hexLine_unmarked (data : Bytes) : startswith ['=', '='] (hexLine data) = false := by
  rw [Bool.eq_false_iff]
  intro h
  have hp : ['=', '='] <+: hexLine data := List.isPrefixOf_iff_prefix.mp h
  have hm : '=' ∈ hexLine data := hp.subset (by simp)
  have hd : ∀ n : Fin 16, Nat.digitChar n ≠ '=' := by decide
  rcases List.mem_append.mp hm with hm | hm
  · simp only [hexBody, List.mem_flatMap, List.mem_append] at hm
    obtain ⟨x, -, hg | hb⟩ := hm
    · unfold gap at hg
      split at hg <;> simp at hg
    · have hx := x.1.isLt
      simp only [hexByte, List.mem_cons, List.not_mem_nil, or_false] at hb
      rcases hb with hb | hb
      · exact hd ⟨x.1.toNat / 16, by omega⟩ hb.symm
      · exact hd ⟨x.1.toNat % 16, by omega⟩ hb.symm
  · simp at hm

theorem without_hexLine (data : Bytes) : without ' ' (strip (hexLine data)) = data.flatMap hexByte := by
  rw [hexLine, strip_line, without_strip fun c hc hs => ?_, hexBody, hexBody_digits]
  exact (mem_hexBody hc).resolve_right (by rw [hs]; simp)

theorem capturedBytes_lines (data rest : Bytes) :
    capturedBytes (hexLine data) (hexLine rest) = .ok ((data ++ rest).take 16) := by
  rw [capturedBytes, without_hexLine, without_hexLine, ← List.flatMap_append, fromhex_flatMap]

/-! ## Whole captures -/

section Capture

variable {α : Type} {event : Bytes → α}

theorem parseLines_unmarked {line : Text} (h : startswith ['=', '='] line = false) (ls : List Text) :
    parseLines event (line :: ls) = parseLines event ls := by
  rw [parseLines.eq_def]
  simp only [h, Bool.false_eq_true, if_false]

theorem parseLines_marked {header : Text} (h : startswith ['=', '='] header = true) (hex1 hex2 : Text)
    (ls : List Text) : parseLines event (header :: hex1 :: hex2 :: ls) = (do
      let raw ← capturedBytes hex1 hex2
      return event raw :: (← parseLines event ls)) := by
  rw [parseLines, if_pos h]

theorem parseLines_sample {header : Text} (h : startswith ['=', '='] header = true) (data : Bytes) (ls : List Text) :
    parseLines event (header :: hexLine (data.take 16) :: hexLine (data.drop 16) :: ls) =
      (parseLines event ls).map (event (data.take 16) :: ·) := by
  rw [parseLines_marked h, capturedBytes_lines, List.take_append_drop]
  cases parseLines event ls <;> rfl

theorem Part.whole (part : Part) : ∀ l ∈ part.lines, IsWhole l := by
  cases part with
  | other line hl hu => simpa [Part.lines] using hl
  | sample header hl hm data hs => simp [Part.lines, hl, isWhole_hexLine]

theorem Capture.whole (c : Capture) : ∀ l ∈ c.lines, IsWhole l := by
  intro l hl
  obtain ⟨part, -, hl⟩ := List.mem_flatMap.mp hl
  exact part.whole l hl

theorem Capture.isLine (c : Capture) : ∀ l ∈ c.lines, IsLine l := fun l hl => (c.whole l hl).1

/-- The beginning of a capture is read as it stands. -/
theorem universal_capture (c : Capture) (n : Nat) : universal (c.text.take n) = c.text.take n := by
  refine universal_eq fun h => ?_
  obtain ⟨l, hl, hr⟩ := List.mem_flatten.mp (List.mem_of_mem_take h)
  exact (c.whole l hl).2 hr

/-- The lines of a capture, and more lines after them. -/
theorem parseLines_append (event : Bytes → α) (c : Capture) (ls : List Text) : parseLines event (c.lines ++ ls) =
    (parseLines event ls).map (c.samples.map (fun data => event (data.take 16)) ++ ·) := by
  induction c with
  | nil =>
    show parseLines event ls = _
    cases parseLines event ls <;> rfl
  | cons part c ih =>
    rw [Capture.lines, List.flatMap_cons, List.append_assoc]
    cases part with
    | other line hl hu => exact (parseLines_unmarked hu _).trans ih
    | sample header hl hm data hs =>
      show parseLines event (header :: hexLine (data.take 16) :: hexLine (data.drop 16) :: (Capture.lines c ++ ls)) = _
      rw [parseLines_sample hm, ih]
      cases parseLines event ls <;> rfl

theorem readlines_capture (c : Capture) : readlines (universal c.text) = c.lines := by
  have h := universal_capture c c.text.length
  rw [List.take_length] at h
  rw [h]
  exact readlines_flatten c.isLine

theorem parseLines_capture (c : Capture) :
    parseLines event (readlines (universal c.text)) = .ok (c.samples.map fun data => event (data.take 16)) := by
  have := parseLines_append event c []
  rw [List.append_nil, parseLines] at this
  rw [readlines_capture, this]
  simp [Except.map]

/-! ## Captures cut short -/

/-- Each event has a header. -/
theorem parseLines_le {ls : List Text} {es : List α} (h : parseLines event ls = .ok es) :
    es.length ≤ ls.countP (startswith ['=', '=']) := by
  fun_induction parseLines event ls generalizing es with
  | case1 =>
    cases h
    rfl
  | case2 line hm => cases h
  | case3 line hm hex1 =>
    rw [List.countP_cons_of_pos hm]
    cases hc : capturedBytes hex1 [] <;> rw [hc] at h <;> cases h
    exact Nat.le_add_left _ _
  | case4 line hm hex1 hex2 lines ih =>
    rw [List.countP_cons_of_pos hm]
    cases hc : capturedBytes hex1 hex2 <;> rw [hc] at h <;> try cases h
    cases he : parseLines event lines <;> simp only [he] at h <;> cases h
    have := ih he
    have : lines.countP (startswith ['=', '=']) ≤ (hex1 :: hex2 :: lines).countP (startswith ['=', '=']) :=
      (List.sublist_cons_self hex2 lines).cons hex1 |>.countP_le
    rw [List.length_cons]
    omega
  | case5 line lines hm ih =>
    rw [List.countP_cons_of_neg hm]
    exact ih h

theorem marked_mono {l : Text} {m : Nat} (h : startswith ['=', '='] (l.take m) = true) :
    startswith ['=', '='] l = true :=
  List.isPrefixOf_iff_prefix.mpr ((List.isPrefixOf_iff_prefix.mp h).trans (List.take_prefix m l))

theorem Part.headers (part : Part) : part.lines.countP (startswith ['=', '=']) ≤ 1 := by
  cases part with
  | other line hl hu => exact List.countP_le_length
  | sample header hl hm data hs => simp [Part.lines, hm, hexLine_unmarked]

/-- The first `k` lines of a capture, and maybe the beginning of the next one. -/
theorem parseLines_take (event : Bytes → α) (c : Capture) (k : Nat) (tail : List Text)
    (ht : tail = [] ∨ ∃ l m, c.lines[k]? = some l ∧ tail = [l.take m]) :
    Cut (c.samples.map fun data => event (data.take 16)) (parseLines event (c.lines.take k ++ tail)) := by
  induction c generalizing k with
  | nil =>
    have : tail = [] := ht.resolve_right (by simp [Capture.lines])
    subst this
    exact .inr ⟨0, [], by simp [Capture.lines, parseLines], Nat.zero_le _⟩
  | cons part c ih =>
    have hlines : Capture.lines (part :: c) = part.lines ++ Capture.lines c := List.flatMap_cons
    rw [hlines] at ht ⊢
    generalize hls : Capture.lines c = ls at ih ht ⊢
    by_cases hk : k < part.lines.length
    · -- the cut is in the first part
      cases hp : parseLines event ((part.lines ++ ls).take k ++ tail) with
      | error e => exact .inl ⟨e, rfl⟩
      | ok es =>
        refine .inr ⟨0, es, rfl, (parseLines_le hp).trans ?_⟩
        rw [List.take_append_of_le_length (by omega)]
        refine le_trans ?_ part.headers
        rcases ht with rfl | ⟨l, m, hl, rfl⟩
        · rw [List.append_nil]
          exact (List.take_sublist _ _).countP_le
        · rw [List.getElem?_append_left hk] at hl
          obtain ⟨hlt, rfl⟩ := List.getElem?_eq_some_iff.mp hl
          have : (part.lines.take k ++ [(part.lines[k]).take m]).countP (startswith ['=', '=']) ≤
              (part.lines.take k ++ [part.lines[k]]).countP (startswith ['=', '=']) := by
            rw [List.countP_append, List.countP_append]
            refine Nat.add_le_add_left ?_ _
            rw [List.countP_singleton, List.countP_singleton]
            split
            · next h => rw [if_pos (marked_mono h)]
            · exact Nat.zero_le _
          refine this.trans ?_
          rw [List.take_append_getElem]
          exact (List.take_sublist _ _).countP_le
    · -- the first part is read
      obtain ⟨j, rfl⟩ := Nat.exists_eq_add_of_le (Nat.le_of_not_lt hk)
      rw [List.take_length_add_append, List.append_assoc]
      have hr := ih j (by rwa [List.getElem?_append_right (by omega), Nat.add_sub_cancel_left] at ht)
      have hone := parseLines_append event [part] (ls.take j ++ tail)
      rw [show Capture.lines [part] = part.lines by simp [Capture.lines]] at hone
      rw [hone]
      rcases hr with ⟨e, he⟩ | ⟨i, extra, he, hle⟩
      · exact .inl ⟨e, by rw [he]; rfl⟩
      · rw [he]
        cases part with
        | other line hl hu => exact .inr ⟨i, extra, rfl, hle⟩
        | sample header hl hm data hs => exact .inr ⟨i + 1, extra, rfl, hle⟩

theorem capture_take (event : Bytes → α) (c : Capture) (n : Nat) : Cut (c.samples.map fun data => event (data.take 16))
    (parseLines event (readlines (universal (c.text.take n)))) := by
  rw [universal_capture]
  obtain ⟨k, -, h | ⟨l, m, hl, -, h⟩⟩ := readlines_cut c.isLine n
  · have := parseLines_take event c k [] (.inl rfl)
    rw [List.append_nil] at this
    exact (congrArg (fun ls => parseLines event ls) h) ▸ this
  · exact (congrArg (fun ls => parseLines event ls) h) ▸ parseLines_take event c k _ (.inr ⟨l, m, hl, rfl⟩)

end Capture

/-! ## The two kinds of events -/

/-- A reader that knows an event by its first bytes reads all events of a capture. -/
theorem shows_read {α : Type} (event : Bytes → α) {bytes : α → Bytes} {c : Capture} {es : List α}
    (hev : ∀ e ∈ es, ∀ rest, event ((bytes e ++ rest).take 16) = e) (hs : c.Shows (es.map bytes)) :
    (c.samples.map fun data => event (data.take 16)) = es := by
  rw [Capture.Shows, List.forall₂_map_left_iff] at hs
  generalize c.samples = shown at hs
  induction hs with
  | nil => rfl
  | @cons e data es shown hp _ ih =>
    obtain ⟨rest, rfl⟩ := hp
    rw [List.map_cons, hev e List.mem_cons_self, ih fun e he => hev e (List.mem_cons_of_mem _ he)]

theorem analyze.event_bytes {e : analyze.Event} (h : e.Fits) (rest : Bytes) :
    analyze.event ((e.bytes ++ rest).take 16) = e := by
  have hl : e.bytes = layout [(4, e.far_id), (4, e.qer_id), (4, e.generation), (4, e.pdr_id)] := by
    simp [Event.bytes, decisionBytes, layout]
  rw [List.take_append_of_le_length (by simp [hl, width]), List.take_of_length_le (by simp [hl, width]),
    analyze.event, hl]
  exact (Event.mk.injEq ..).mpr ⟨get_layout_at 0 rfl rfl h.far_id, get_layout_at 1 rfl rfl h.qer_id,
    get_layout_at 2 rfl rfl h.generation, get_layout_at 3 rfl rfl h.pdr_id⟩

theorem analyze_latency.event_bytes {e : analyze_latency.Event} (h : e.Fits) (rest : Bytes) :
    analyze_latency.event ((e.bytes ++ rest).take 16) = e := by
  have hl : e.bytes = layout [(8, e.latency_ns), (4, e.pkt_len), (4, 0)] := by
    simp [Event.bytes, latencyBytes, layout]
  rw [List.take_append_of_le_length (by simp [hl, width]), List.take_of_length_le (by simp [hl, width]),
    analyze_latency.event, hl]
  exact (Event.mk.injEq ..).mpr ⟨get_layout_at 0 rfl rfl h.latency_ns, get_layout_at 1 rfl rfl h.pkt_len⟩

/-- A capture of decision events and one of latency events are read back, each by its script,
and from the beginning of one the script has the first events and maybe one that is not there. -/
theorem captures_read_back {c d : Capture} {es : List analyze.Event} {ls : List analyze_latency.Event}
    (hes : ∀ e ∈ es, e.Fits) (hc : c.Shows (es.map analyze.Event.bytes))
    (hls : ∀ e ∈ ls, e.Fits) (hd : d.Shows (ls.map analyze_latency.Event.bytes)) :
    (analyze.parse c.text = .ok es ∧ ∀ n, Cut es (analyze.parse (c.text.take n))) ∧
    (analyze_latency.parse d.text = .ok ls ∧ ∀ n, Cut ls (analyze_latency.parse (d.text.take n))) := by
  have he := shows_read analyze.event (fun e he => analyze.event_bytes (hes e he)) hc
  have hl := shows_read analyze_latency.event (fun e he => analyze_latency.event_bytes (hls e he)) hd
  refine ⟨⟨?_, fun n => ?_⟩, ?_, fun n => ?_⟩
  · rw [analyze.parse, parseLines_capture, he]
  · have := capture_take analyze.event c n
    rwa [he] at this
  · rw [analyze_latency.parse, parseLines_capture, hl]
  · have := capture_take analyze_latency.event d n
    rwa [hl] at this

/-- A sample with a header as it is written, and four bytes that fill it up. -/
def sampleOf (data : Bytes) (h : data.length = 16) : Part :=
  .sample "== @377553.286885363 CPU: 19 index: 19 =====\n".toList
    ⟨⟨"== @377553.286885363 CPU: 19 index: 19 =====".toList, by decide, by decide⟩, by decide⟩ (by decide)
    (data ++ toLE 4 0) (by rw [List.length_append, h, length_toLE]; decide)

def lostLine : Part :=
  .other "lost 3 events\n".toList ⟨⟨"lost 3 events".toList, by decide, by decide⟩, by decide⟩ (by decide)

theorem captures_read_back_one :
    analyze.parse (Capture.text [lostLine, sampleOf (decisionBytes 3 3 1 0x2000) rfl]) = .ok [⟨3, 3, 1, 0x2000⟩] ∧
    analyze_latency.parse (Capture.text [sampleOf (latencyBytes 1200 128) rfl]) = .ok [⟨1200, 128⟩] := by
  have hes : ∀ e ∈ ([⟨3, 3, 1, 0x2000⟩] : List analyze.Event), e.Fits := by
    simp
    constructor <;> decide
  have hls : ∀ e ∈ ([⟨1200, 128⟩] : List analyze_latency.Event), e.Fits := by
    simp
    constructor <;> decide
  have h := captures_read_back (c := [lostLine, sampleOf (decisionBytes 3 3 1 0x2000) rfl])
    (d := [sampleOf (latencyBytes 1200 128) rfl]) hes (.cons (List.prefix_append _ _) .nil)
    hls (.cons (List.prefix_append _ _) .nil)
  exact ⟨h.1.1, h.2.1⟩

end UPF
