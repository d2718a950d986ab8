import Mathlib.Data.List.Basic

/-!
# Versioned cells

A cell may have a value, and the value a version. A write gives the cell a
value of a later version; the cell may be cleared, and then has no value until
it is reset. A reset puts any value or none, whatever its version, and begins
a new epoch.

So in one epoch a version stands for one value (`Ordered.identified`): of two
readers that find the same version in the same epoch, both find the same value.
-/

namespace Framework

/-- What a reader found, and in which epoch. -/
structure Sighting (α : Type) where
  epoch : Nat
  value : α
  deriving DecidableEq

structure Versioned (α : Type) where
  value : Option α
  epoch : Nat
  /-- What the readers found, oldest first. -/
  seen : List (Sighting α)

namespace Versioned

variable {α : Type} (version : α → Nat)

inductive Step : Versioned α → Versioned α → Prop
  | idle (s : Versioned α) : Step s s
  | look {s : Versioned α} {a : α} : s.value = some a → Step s { s with seen := s.seen ++ [⟨s.epoch, a⟩] }
  | advance {s : Versioned α} {a b : α} : s.value = some a → version a < version b → Step s { s with value := some b }
  | clear (s : Versioned α) : Step s { s with value := none }
  | reset (s : Versioned α) (v : Option α) : Step s { s with value := v, epoch := s.epoch + 1 }

/-- What was found in this epoch is the value now, or of an earlier version. -/
structure Ordered (s : Versioned α) : Prop where
  identified : ∀ x ∈ s.seen, ∀ y ∈ s.seen, x.epoch = y.epoch → version x.value = version y.value → x.value = y.value
  past : ∀ x ∈ s.seen, x.epoch ≤ s.epoch
  latest : ∀ x ∈ s.seen, x.epoch = s.epoch → ∀ a, s.value = some a → version x.value < version a ∨ x.value = a

variable {version} {s s' : Versioned α}

theorem ordered_nil (v : Option α) (n : Nat) : Ordered version ⟨v, n, []⟩ := ⟨nofun, nofun, nofun⟩

theorem Ordered.look (hs : Ordered version s) {a : α} (ha : s.value = some a) :
    Ordered version { s with seen := s.seen ++ [⟨s.epoch, a⟩] } := by
  have hcases : ∀ x ∈ s.seen ++ [⟨s.epoch, a⟩], x ∈ s.seen ∨ x = ⟨s.epoch, a⟩ := fun x hx => by simpa using hx
  -- a value found before has the version of this one only if it is the same
  have hold : ∀ x ∈ s.seen, x.epoch = s.epoch → version x.value = version a → x.value = a := fun x hx he hv =>
    (hs.latest x hx he a ha).resolve_left (by omega)
  refine ⟨fun x hx y hy he hv => ?_, fun x hx => ?_, fun x hx he b hb => ?_⟩
  · rcases hcases x hx with hx | rfl <;> rcases hcases y hy with hy | rfl
    · exact hs.identified x hx y hy he hv
    · exact hold x hx he hv
    · exact (hold y hy he.symm hv.symm).symm
    · rfl
  · rcases hcases x hx with hx | rfl
    · exact hs.past x hx
    · exact Nat.le_refl _
  · rcases hcases x hx with hx | rfl
    · exact hs.latest x hx he b hb
    · exact .inr (Option.some.inj (ha.symm.trans hb))

theorem Ordered.step (h : Step version s s') (hs : Ordered version s) : Ordered version s' := by
  cases h with
  | idle => exact hs
  | look ha => exact hs.look ha
  | @advance a b ha hlt =>
    refine ⟨hs.identified, hs.past, fun x hx he b' hb => .inl ?_⟩
    cases hb
    rcases hs.latest x hx he a ha with hv | rfl
    · exact Nat.lt_trans hv hlt
    · exact hlt
  | clear => exact ⟨hs.identified, hs.past, fun _ _ _ _ h => nomatch h⟩
  | reset v =>
    refine ⟨hs.identified, fun x hx => Nat.le_succ_of_le (hs.past x hx), fun x hx he => ?_⟩
    have := hs.past x hx
    dsimp only at he
    omega

end Versioned

end Framework
