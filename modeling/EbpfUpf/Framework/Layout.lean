import EbpfUpf.Framework.Bytes

/-!
# Records of fixed layout

A record is a list of fields, each with its width in bytes and its value, and
is stored as their bytes one after another, little-endian, without gaps
(`layout`). The field after `fs` is at offset `width fs`, and reading it there
gives its value (`get_layout`); `get_layout_at` is that for a field given by
its index.
-/

namespace Framework

/-- The bytes of a record. -/
def layout (fs : List (Nat × Nat)) : Bytes := fs.flatMap fun f => toLE f.1 f.2

/-- The size of a record. -/
def width (fs : List (Nat × Nat)) : Nat := (fs.map Prod.fst).sum

@[simp] theorem layout_cons (f : Nat × Nat) (fs : List (Nat × Nat)) :
    layout (f :: fs) = toLE f.1 f.2 ++ layout fs := rfl

@[simp] theorem layout_append (fs gs : List (Nat × Nat)) : layout (fs ++ gs) = layout fs ++ layout gs :=
  List.flatMap_append

@[simp] theorem width_cons (f : Nat × Nat) (fs : List (Nat × Nat)) : width (f :: fs) = f.1 + width fs := rfl

@[simp] theorem length_layout (fs : List (Nat × Nat)) : (layout fs).length = width fs := by
  induction fs with
  | nil => rfl
  | cons f fs ih => rw [layout_cons, List.length_append, length_toLE, ih, width_cons]

theorem get_layout_shift (fs gs : List (Nat × Nat)) (off n : Nat) :
    (layout (fs ++ gs)).get (width fs + off) n = (layout gs).get off n := by
  rw [layout_append, Bytes.get_append_right (by rw [length_layout]; omega), length_layout,
    Nat.add_sub_cancel_left]

theorem get_layout (fs gs : List (Nat × Nat)) {n v : Nat} (h : v < 256 ^ n) :
    (layout (fs ++ (n, v) :: gs)).get (width fs) n = v := by
  rw [← Nat.add_zero (width fs), get_layout_shift, layout_cons,
    Bytes.get_append_left (by rw [length_toLE]; omega), Bytes.get_toLE h]

theorem get_layout_at {fs : List (Nat × Nat)} (i : Nat) {n v off : Nat} (hi : fs[i]? = some (n, v))
    (ho : width (fs.take i) = off) (h : v < 256 ^ n) : (layout fs).get off n = v := by
  obtain ⟨hlt, he⟩ := List.getElem?_eq_some_iff.mp hi
  have hs : fs = fs.take i ++ (n, v) :: fs.drop (i + 1) := by
    rw [← he, List.getElem_cons_drop, List.take_append_drop]
  have := get_layout (fs.take i) (fs.drop (i + 1)) h
  rwa [← hs, ho] at this

end Framework
