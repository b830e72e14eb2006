/-
The longest part of a list, from its beginning, that a quota has room for:
elements are taken up to the first one that is too large for what is left
(`takeWithin_longest`).
-/
import Mathlib.Algebra.BigOperators.Group.List.Basic
import Mathlib.Algebra.GroupWithZero.Nat
import Mathlib.Data.List.Infix

namespace RestifyCapl.Lib

variable {α : Type*} {size : α → Nat} {room : Nat} {l kept : List α}

/-- The size of all elements together. -/
def total (size : α → Nat) (l : List α) : Nat := (l.map size).sum

@[simp] theorem total_cons (x : α) (l : List α) :
    total size (x :: l) = size x + total size l := by
  unfold total
  rw [List.map_cons, List.sum_cons]

/-- Take what there is room for. -/
def takeWithin (size : α → Nat) : Nat → List α → List α
  | _, [] => []
  | room, x :: l =>
      if size x ≤ room then x :: takeWithin size (room - size x) l else []

theorem takeWithin_of_le {x : α} (h : size x ≤ room) (l : List α) :
    takeWithin size room (x :: l) = x :: takeWithin size (room - size x) l :=
  if_pos h

theorem takeWithin_of_lt {x : α} (h : room < size x) (l : List α) :
    takeWithin size room (x :: l) = [] :=
  if_neg (Nat.not_le.mpr h)

/-- A part of the list from its beginning, within the quota, and the longest
such part. -/
structure LongestWithin (size : α → Nat) (room : Nat) (l kept : List α) :
    Prop where
  start : kept <+: l
  within : total size kept ≤ room
  longest : ∀ p, p <+: l → total size p ≤ room → p <+: kept

theorem takeWithin_longest (size : α → Nat) (room : Nat) (l : List α) :
    LongestWithin size room l (takeWithin size room l) := by
  induction l generalizing room with
  | nil => exact ⟨List.prefix_rfl, Nat.zero_le _, fun p hp _ => hp⟩
  | cons x l ih =>
      by_cases hx : size x ≤ room
      · rw [takeWithin_of_le hx]
        obtain ⟨hstart, hwithin, hlongest⟩ := ih (room - size x)
        refine ⟨(List.prefix_cons_inj x).mpr hstart, ?_, ?_⟩
        · rw [total_cons]
          omega
        · intro p hp htotal
          cases p with
          | nil => exact List.nil_prefix
          | cons y p =>
              obtain ⟨rfl, hrest⟩ := List.cons_prefix_cons.mp hp
              rw [total_cons] at htotal
              exact (List.prefix_cons_inj y).mpr (hlongest p hrest (by omega))
      · have hlt : room < size x := by omega
        rw [takeWithin_of_lt hlt]
        refine ⟨List.nil_prefix, Nat.zero_le _, ?_⟩
        intro p hp htotal
        cases p with
        | nil => exact List.prefix_rfl
        | cons y p =>
            obtain ⟨rfl, -⟩ := List.cons_prefix_cons.mp hp
            rw [total_cons] at htotal
            omega

end RestifyCapl.Lib
