/-
Unsigned machine arithmetic in two readings. A program that counts in
naturals takes its sums and differences as a parameter: the machine's,
which wrap, or checked ones, undefined where the machine's would wrap.
A program built from the parameter's operations with `bind` computes
under the machine's whatever it computes under the checked ones
(`Below.bind`, `add_below`, `sub_below`), so that one definedness proof
rules out every wrap.
-/
import Mathlib.Algebra.Group.Nat.Defs
import Mathlib.Data.Option.Basic

namespace RestifyCapl.Lib

-- ========================================================== more defined

/-- `y` is defined where `x` is, and then the same. -/
def Below {α : Type} (x y : Option α) : Prop := ∀ v, x = some v → y = some v

theorem Below.refl {α : Type} (x : Option α) : Below x x := fun _ h => h

theorem Below.bind {α β : Type} {x y : Option α} {f g : α → Option β}
    (hx : Below x y) (hf : ∀ v, Below (f v) (g v)) :
    Below (x >>= f) (y >>= g) := by
  intro r hr
  obtain ⟨v, hv, hr⟩ := Option.bind_eq_some_iff.mp hr
  exact Option.bind_eq_some_iff.mpr ⟨v, hx v hv, hf v r hr⟩

/-- Whatever `x` computes, `P` holds of it. -/
def Ensures {α : Type} (P : α → Prop) (x : Option α) : Prop :=
  ∀ v, x = some v → P v

theorem Ensures.some {α : Type} {P : α → Prop} {v : α} (h : P v) :
    Ensures P (some v) := by
  intro v' hv
  injection hv with hv
  exact hv ▸ h

theorem Ensures.any {α : Type} (x : Option α) : Ensures (fun _ => True) x :=
  fun _ _ => trivial

theorem Ensures.bind {α β : Type} {P : α → Prop} {Q : β → Prop}
    {x : Option α} {f : α → Option β} (hx : Ensures P x)
    (hf : ∀ v, P v → Ensures Q (f v)) : Ensures Q (x >>= f) := by
  intro r hr
  obtain ⟨v, hv, hr⟩ := Option.bind_eq_some_iff.mp hr
  exact hf v (hx v hv) r hr

-- ======================================================== the arithmetics

/-- Sums and differences of an unsigned type. -/
structure SizeArith where
  add : Nat → Nat → Option Nat
  sub : Nat → Nat → Option Nat

namespace SizeArith

/-- The machine's: modulo `2 ^ w`. -/
def wrapping (w : Nat) : SizeArith where
  add a b := some ((a + b) % 2 ^ w)
  sub a b := some ((a + (2 ^ w - b % 2 ^ w)) % 2 ^ w)

/-- Undefined where the machine's would wrap. -/
def checked (w : Nat) : SizeArith where
  add a b := if a + b < 2 ^ w then some (a + b) else none
  sub a b := if b ≤ a ∧ a < 2 ^ w then some (a - b) else none

variable {w a b c : Nat}

theorem checked_add (h : (checked w).add a b = some c) :
    c = a + b ∧ a + b < 2 ^ w := by
  unfold checked at h
  dsimp only at h
  split at h
  · injection h with h
    exact ⟨h.symm, ‹_›⟩
  · cases h

theorem checked_sub (h : (checked w).sub a b = some c) :
    c = a - b ∧ b ≤ a ∧ a < 2 ^ w := by
  unfold checked at h
  dsimp only at h
  split at h
  · injection h with h
    exact ⟨h.symm, ‹_›⟩
  · cases h

theorem checked_add_some (h : a + b < 2 ^ w) :
    (checked w).add a b = some (a + b) :=
  if_pos h

theorem checked_sub_some (hle : b ≤ a) (h : a < 2 ^ w) :
    (checked w).sub a b = some (a - b) :=
  if_pos ⟨hle, h⟩

theorem add_below (w a b : Nat) :
    Below ((checked w).add a b) ((wrapping w).add a b) := by
  intro c h
  obtain ⟨rfl, hlt⟩ := checked_add h
  show some ((a + b) % 2 ^ w) = _
  rw [Nat.mod_eq_of_lt hlt]

theorem sub_below (w a b : Nat) :
    Below ((checked w).sub a b) ((wrapping w).sub a b) := by
  intro c h
  obtain ⟨rfl, hle, hlt⟩ := checked_sub h
  show some ((a + (2 ^ w - b % 2 ^ w)) % 2 ^ w) = _
  rw [Nat.mod_eq_of_lt (Nat.lt_of_le_of_lt hle hlt)]
  have : a + (2 ^ w - b) = (a - b) + 2 ^ w := by omega
  rw [this, Nat.add_mod_right, Nat.mod_eq_of_lt (by omega)]

end SizeArith

end RestifyCapl.Lib
