import EbpfUpf.Framework.Bytes
import Mathlib.Data.List.DropRight
import Mathlib.Data.List.Infix

/-!
# Text

Text as a list of characters, with what Python's `str` and `bytes` have for it:
the ends of lines as a file in text mode has them (`universal`), its lines
(`readlines`), blanks at the ends (`strip`) and bytes in hexadecimal digits
(`fromhex`). Lines that are written one after another are read as they were
(`readlines_flatten`), also when the last one is cut short (`readlines_cut`),
and so are bytes (`fromhex_flatMap`).

`search f` is the first place at which `f` matches. A line that does not have
what `f` asks for is passed over (`search_line`).
-/

namespace Framework

abbrev Text := List Char

/-! ## Lines -/

/-- A file in text mode: every line ends with a newline. -/
def universal : Text → Text
  | [] => []
  | '\r' :: '\n' :: s => '\n' :: universal s
  | c :: s => (if c = '\r' then '\n' else c) :: universal s

/-- Without a carriage return it is read as it stands. -/
theorem universal_eq {s : Text} (h : '\r' ∉ s) : universal s = s := by
  fun_induction universal s with
  | case1 => rfl
  | case2 s ih => simp at h
  | case3 c s hc ih =>
    obtain ⟨hne, hs⟩ : c ≠ '\r' ∧ '\r' ∉ s := by simpa [eq_comm] using h
    rw [if_neg hne, ih hs]

/-- The lines of a file, each with the newline that ends it. -/
def readlines : Text → List Text
  | [] => []
  | c :: s =>
    if c = '\n' then [c] :: readlines s
    else match readlines s with
      | [] => [[c]]
      | l :: ls => (c :: l) :: ls

/-- A line as it is written. -/
def IsLine (l : Text) : Prop := ∃ body, l = body ++ ['\n'] ∧ '\n' ∉ body

theorem readlines_line {body : Text} (h : '\n' ∉ body) (s : Text) :
    readlines (body ++ '\n' :: s) = (body ++ ['\n']) :: readlines s := by
  induction body with
  | nil => rfl
  | cons c body ih =>
    obtain ⟨hc, hb⟩ : c ≠ '\n' ∧ '\n' ∉ body := by simpa [eq_comm] using h
    rw [List.cons_append, readlines, if_neg hc, ih hb]
    rfl

/-- What is left after the last end of a line is a line too, unless there is nothing. -/
theorem readlines_rest {s : Text} (h : '\n' ∉ s) : readlines s = if s = [] then [] else [s] := by
  induction s with
  | nil => rfl
  | cons c s ih =>
    obtain ⟨hc, hs⟩ : c ≠ '\n' ∧ '\n' ∉ s := by simpa [eq_comm] using h
    rw [readlines, if_neg hc, ih hs]
    by_cases h : s = [] <;> simp [h]

theorem IsLine.readlines {l : Text} (h : IsLine l) (s : Text) : readlines (l ++ s) = l :: Framework.readlines s := by
  obtain ⟨body, rfl, hb⟩ := h
  rw [List.append_assoc]
  exact readlines_line hb s

theorem readlines_append {ls : List Text} (h : ∀ l ∈ ls, IsLine l) (s : Text) :
    readlines (ls.flatten ++ s) = ls ++ readlines s := by
  induction ls with
  | nil => rfl
  | cons l ls ih =>
    obtain ⟨hl, hls⟩ := List.forall_mem_cons.mp h
    rw [List.flatten_cons, List.append_assoc, hl.readlines, ih hls]
    rfl

theorem readlines_flatten {ls : List Text} (h : ∀ l ∈ ls, IsLine l) : readlines ls.flatten = ls := by
  have := readlines_append h []
  rwa [List.append_nil, readlines, List.append_nil] at this

/-- A line of which only the beginning was written. -/
theorem IsLine.readlines_take {l : Text} (h : IsLine l) {n : Nat} (hn : n < l.length) :
    Framework.readlines (l.take n) = if l.take n = [] then [] else [l.take n] := by
  obtain ⟨body, rfl, hb⟩ := h
  apply readlines_rest
  rw [List.length_append, List.length_singleton] at hn
  rw [List.take_append_of_le_length (by omega)]
  exact fun hm => hb (List.mem_of_mem_take hm)

/-- A file of which only the beginning was written has the first lines, and maybe the
beginning of the next one. -/
theorem readlines_cut {ls : List Text} (h : ∀ l ∈ ls, IsLine l) (n : Nat) : ∃ k, k ≤ ls.length ∧
    (readlines (ls.flatten.take n) = ls.take k ∨
      ∃ l m, ls[k]? = some l ∧ m < l.length ∧ readlines (ls.flatten.take n) = ls.take k ++ [l.take m]) := by
  induction ls generalizing n with
  | nil => exact ⟨0, le_rfl, .inl (by simp [readlines])⟩
  | cons l ls ih =>
    obtain ⟨hl, hls⟩ := List.forall_mem_cons.mp h
    rw [List.flatten_cons]
    by_cases hn : n < l.length
    · refine ⟨0, Nat.zero_le _, ?_⟩
      rw [List.take_append_of_le_length (by omega), hl.readlines_take hn]
      by_cases h0 : l.take n = []
      · exact .inl (by rw [if_pos h0]; rfl)
      · exact .inr ⟨l, n, rfl, hn, by rw [if_neg h0]; rfl⟩
    · obtain ⟨m, rfl⟩ := Nat.exists_eq_add_of_le (Nat.le_of_not_lt hn)
      obtain ⟨k, hk, hr⟩ := ih hls m
      refine ⟨k + 1, Nat.succ_le_succ hk, ?_⟩
      rw [List.take_length_add_append, hl.readlines]
      rcases hr with hr | ⟨l', m', hl', hm', hr⟩
      · exact .inl (by rw [hr]; rfl)
      · exact .inr ⟨l', m', hl', hm', by rw [hr]; rfl⟩

/-! ## Blanks -/

/-- What `str.strip` takes for a blank. -/
def isSpace (c : Char) : Bool :=
  let n := c.toNat
  (9 ≤ n && n ≤ 13) || (28 ≤ n && n ≤ 32) || n = 0x85 || n = 0xa0 || n = 0x1680 ||
    (0x2000 ≤ n && n ≤ 0x200a) || n = 0x2028 || n = 0x2029 || n = 0x202f || n = 0x205f || n = 0x3000

/-- `str.strip`. -/
def strip (s : Text) : Text := (s.dropWhile isSpace).rdropWhile isSpace

/-- `s.startswith(pre)`. -/
def startswith (pre s : Text) : Bool := pre.isPrefixOf s

/-- `s.replace(c, "")`. -/
def without (c : Char) (s : Text) : Text := s.filter (· ≠ c)

theorem filter_dropWhile {α : Type} (p : α → Bool) (l : List α) :
    (l.dropWhile p).filter (fun x => !p x) = l.filter fun x => !p x := by
  induction l with
  | nil => rfl
  | cons x l ih =>
    by_cases h : p x
    · rw [List.dropWhile_cons_of_pos h, ih, List.filter_cons_of_neg (by simp [h])]
    · rw [List.dropWhile_cons_of_neg h]

theorem filter_rdropWhile {α : Type} (p : α → Bool) (l : List α) :
    (l.rdropWhile p).filter (fun x => !p x) = l.filter fun x => !p x := by
  rw [List.rdropWhile, List.filter_reverse, filter_dropWhile, List.filter_reverse, List.reverse_reverse]

theorem filter_strip (s : Text) : (strip s).filter (fun c => !isSpace c) = s.filter fun c => !isSpace c := by
  rw [strip, filter_rdropWhile, filter_dropWhile]

theorem strip_subset (s : Text) : strip s ⊆ s :=
  List.Subset.trans (List.rdropWhile_prefix isSpace _).subset (List.dropWhile_suffix isSpace).subset

/-- The end of a line is a blank. -/
theorem strip_line (s : Text) : strip (s ++ ['\n']) = strip s := by
  rw [strip, List.dropWhile_append]
  split
  · next h =>
    rw [List.isEmpty_iff] at h
    rw [strip, h]
    rfl
  · rw [List.rdropWhile_concat_pos _ _ _ (by decide)]
    rfl

/-- Where every blank is a space, nothing else goes. -/
theorem without_strip {s : Text} (h : ∀ c ∈ s, isSpace c = true → c = ' ') :
    without ' ' (strip s) = s.filter fun c => !isSpace c := by
  rw [← filter_strip, without]
  refine List.filter_congr fun c hc => ?_
  by_cases hs : isSpace c
  · simp [h c (strip_subset s hc) hs, show isSpace ' ' = true by decide]
  · have : c ≠ ' ' := fun h => hs (by rw [h]; decide)
    simp [hs, this]

/-! ## Hexadecimal digits -/

def hexVal (c : Char) : Option Nat :=
  if '0' ≤ c ∧ c ≤ '9' then some (c.toNat - 48)
  else if 'a' ≤ c ∧ c ≤ 'f' then some (c.toNat - 87)
  else if 'A' ≤ c ∧ c ≤ 'F' then some (c.toNat - 55)
  else none

/-- `bytes.fromhex`: two digits a byte, with blanks between bytes. -/
def fromhex : Text → Option Bytes
  | [] => some []
  | c :: s =>
    if c = ' ' ∨ '\t' ≤ c ∧ c ≤ '\r' then fromhex s
    else match s with
      | [] => none
      | d :: s => match hexVal c, hexVal d with
        | some a, some b => (fromhex s).map (BitVec.ofNat 8 (16 * a + b) :: ·)
        | _, _ => none

/-- A byte in two digits. -/
def hexByte (b : Byte) : Text := [Nat.digitChar (b.toNat / 16), Nat.digitChar (b.toNat % 16)]

theorem hexVal_digitChar {n : Nat} (h : n < 16) : hexVal (Nat.digitChar n) = some n := by
  have : ∀ n : Fin 16, hexVal (Nat.digitChar n) = some n.val := by decide
  exact this ⟨n, h⟩

theorem digitChar_blank {n : Nat} (h : n < 16) :
    isSpace (Nat.digitChar n) = false ∧ ¬(Nat.digitChar n = ' ' ∨ '\t' ≤ Nat.digitChar n ∧ Nat.digitChar n ≤ '\r') := by
  have : ∀ n : Fin 16, isSpace (Nat.digitChar n) = false ∧
    ¬(Nat.digitChar n = ' ' ∨ '\t' ≤ Nat.digitChar n ∧ Nat.digitChar n ≤ '\r') := by decide
  exact this ⟨n, h⟩

theorem hexByte_blank {b : Byte} : ∀ c ∈ hexByte b, isSpace c = false := by
  have hb := b.isLt
  simp only [hexByte, List.mem_cons, List.not_mem_nil, or_false, forall_eq_or_imp, forall_eq]
  exact ⟨(digitChar_blank (by omega)).1, (digitChar_blank (by omega)).1⟩

theorem fromhex_byte (b : Byte) (s : Text) : fromhex (hexByte b ++ s) = (fromhex s).map (b :: ·) := by
  have hb := b.isLt
  have hhi : b.toNat / 16 < 16 := by omega
  have hlo : b.toNat % 16 < 16 := by omega
  have hv : BitVec.ofNat 8 (16 * (b.toNat / 16) + b.toNat % 16) = b := by
    rw [Nat.div_add_mod, BitVec.ofNat_toNat, BitVec.setWidth_eq]
  show fromhex (Nat.digitChar (b.toNat / 16) :: Nat.digitChar (b.toNat % 16) :: s) = _
  rw [fromhex, if_neg (digitChar_blank hhi).2]
  simp only [hexVal_digitChar hhi, hexVal_digitChar hlo, hv]

theorem fromhex_flatMap (bs : Bytes) : fromhex (bs.flatMap hexByte) = some bs := by
  induction bs with
  | nil => rfl
  | cons b bs ih => rw [List.flatMap_cons, fromhex_byte, ih, Option.map_some]

example : fromhex ['0', 'A', ' ', '0', 'b'] = some [10, 11] := by decide

/-! ## Numbers -/

def decimal (n : Nat) : Text := Nat.toDigits 10 n

theorem decimal_isDigit {n : Nat} : ∀ c ∈ decimal n, c.isDigit = true := fun _ hc =>
  Nat.isDigit_of_mem_toDigits (by decide) (by decide) hc

theorem decimal_ne_nil (n : Nat) : decimal n ≠ [] := Nat.toDigits_ne_nil

theorem ofDigitChars_decimal (n : Nat) : Nat.ofDigitChars 10 (decimal n) 0 = n := Nat.ofDigitChars_ten_toDigits

theorem isDigit_not_space {c : Char} (h : c.isDigit = true) : isSpace c = false := by
  rw [Char.isDigit, Bool.and_eq_true, decide_eq_true_eq, decide_eq_true_eq] at h
  have hlo : 48 ≤ c.toNat := UInt32.le_iff_toNat_le.mp h.1
  have hhi : c.toNat ≤ 57 := UInt32.le_iff_toNat_le.mp h.2
  simp only [isSpace, Bool.or_eq_false_iff, Bool.and_eq_false_iff, decide_eq_false_iff_not]
  omega

/-! ## Finding text -/

/-- The first place at which `f` matches. -/
def search {α : Type} (f : Text → Option α) : Text → Option α
  | [] => f []
  | c :: s => (f (c :: s)).or (search f s)

def contains (sub s : Text) : Bool := s.tails.any (startswith sub)

theorem startswith_iff {pre s : Text} : startswith pre s = true ↔ pre <+: s := List.isPrefixOf_iff_prefix

theorem contains_iff {sub s : Text} : contains sub s = true ↔ sub <:+: s := by
  rw [contains, List.any_eq_true, List.infix_iff_prefix_suffix]
  constructor
  · rintro ⟨t, ht, hp⟩
    exact ⟨t, startswith_iff.mp hp, (List.mem_tails _ _).mp ht⟩
  · rintro ⟨t, hp, ht⟩
    exact ⟨t, (List.mem_tails _ _).mpr ht, startswith_iff.mpr hp⟩

/-- What has no end of a line and begins in a line is in the line. -/
theorem prefix_of_line {lit body y : Text} (hl : '\n' ∉ lit) (h : lit <+: body ++ '\n' :: y) : lit <+: body := by
  obtain ⟨z, hz⟩ := h
  rcases List.append_eq_append_iff.mp hz with ⟨a, ha, -⟩ | ⟨a, rfl, ha⟩
  · exact ⟨a, ha.symm⟩
  · cases a with
    | nil => simp
    | cons c a =>
      obtain ⟨rfl, -⟩ := List.cons.inj ha
      exact absurd (by simp) hl

theorem infix_of_line {lit body : Text} (hl : '\n' ∉ lit) (h : lit <:+: body ++ ['\n']) : lit <:+: body := by
  obtain ⟨t, hp, ht⟩ := List.infix_iff_prefix_suffix.mp h
  rcases List.suffix_concat_iff.mp ht with rfl | ⟨t, rfl, hs⟩
  · rw [List.prefix_nil.mp hp]
    exact List.nil_infix
  · exact (prefix_of_line hl hp).isInfix.trans hs.isInfix

/-- A line in which `f` has nothing to match. -/
theorem search_line {α : Type} {f : Text → Option α} {lit body : Text} (hf : ∀ t v, f t = some v → lit <+: t)
    (hl : '\n' ∉ lit) (hne : lit ≠ []) (hno : ¬ lit <:+: body) (y : Text) :
    search f (body ++ '\n' :: y) = search f y := by
  induction body with
  | nil =>
    have : f ('\n' :: y) = none := Option.eq_none_iff_forall_ne_some.mpr fun v hv =>
      hne (List.prefix_nil.mp (@prefix_of_line lit [] y hl (hf _ v hv)))
    rw [List.nil_append, search, this, Option.none_or]
  | cons c body ih =>
    have : f (c :: (body ++ '\n' :: y)) = none := Option.eq_none_iff_forall_ne_some.mpr fun v hv =>
      hno (@prefix_of_line lit (c :: body) y hl (hf _ v hv)).isInfix
    rw [List.cons_append, search, this, Option.none_or]
    exact ih fun h => hno (h.trans (List.suffix_cons c body).isInfix)

theorem search_match {α : Type} {f : Text → Option α} {s : Text} {v : α} (h : f s = some v) : search f s = some v := by
  cases s with
  | nil => exact h
  | cons c s => rw [search, h, Option.some_or]

/-- The lines before the one that has what `f` asks for. -/
theorem search_lines {α : Type} {f : Text → Option α} {lit : Text} (hf : ∀ t v, f t = some v → lit <+: t)
    (hl : '\n' ∉ lit) (hne : lit ≠ []) {bodies : List Text} (hno : ∀ body ∈ bodies, ¬ lit <:+: body) (y : Text) :
    search f ((bodies.map (· ++ ['\n'])).flatten ++ y) = search f y := by
  induction bodies with
  | nil => rfl
  | cons body bodies ih =>
    obtain ⟨hb, hbs⟩ := List.forall_mem_cons.mp hno
    rw [List.map_cons, List.flatten_cons, List.append_assoc, List.append_assoc]
    exact (search_line hf hl hne hb _).trans (ih hbs)

theorem intercalate_line (bodies : List Text) (h : bodies ≠ []) :
    ['\n'].intercalate bodies ++ ['\n'] = (bodies.map (· ++ ['\n'])).flatten := by
  induction bodies with
  | nil => exact absurd rfl h
  | cons body bodies ih =>
    cases bodies with
    | nil => simp [List.intercalate]
    | cons body' bodies =>
      rw [List.map_cons, List.flatten_cons, ← ih (by simp)]
      simp [List.intercalate]

/-- The first place of a character splits a text in one way. -/
theorem append_cons_first {c : Char} {a b a' b' : Text} (h : a ++ c :: b = a' ++ c :: b') (ha : c ∉ a)
    (ha' : c ∉ a') : a = a' ∧ b = b' := by
  have hh := congrArg (List.takeWhile (· ≠ c)) h
  have stop {x : Text} (hx : c ∉ x) (y : Text) : (x ++ c :: y).takeWhile (· ≠ c) = x := by
    have hne : ∀ d ∈ x, decide (d ≠ c) = true := fun d hd => decide_eq_true (ne_of_mem_of_not_mem hd hx)
    rw [List.takeWhile_append_of_pos hne, List.takeWhile_cons_of_neg (by simp), List.append_nil]
  rw [stop ha, stop ha'] at hh
  subst hh
  exact ⟨rfl, (List.cons.inj (List.append_cancel_left h)).2⟩

/-- What stands between the only two quotes. -/
theorem quoted_unique {c : Char} {a x b a' y b' : Text} (h : a ++ c :: (x ++ c :: b) = a' ++ c :: (y ++ c :: b'))
    (hx : c ∉ x) (hy : c ∉ y) (ha' : c ∉ a') (hb' : c ∉ b') : x = y := by
  have hn := congrArg (List.count c) h
  simp only [List.count_append, List.count_cons_self, List.count_eq_zero.mpr hx, List.count_eq_zero.mpr hy,
    List.count_eq_zero.mpr ha', List.count_eq_zero.mpr hb'] at hn
  have ha : c ∉ a := List.count_eq_zero.mp (by omega)
  exact (append_cons_first (append_cons_first h ha ha').2 hx hy).1

end Framework
