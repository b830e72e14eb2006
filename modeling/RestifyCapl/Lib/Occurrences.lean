/-
How often a list occurs in another one, counted at the places where it
begins. Parts that a list cannot cross, begin in or end in keep the
occurrences on both sides of them apart (`occurrences_around`).
-/
import Mathlib.Algebra.BigOperators.Group.List.Basic
import Mathlib.Algebra.GroupWithZero.Nat
import Mathlib.Data.List.Infix

namespace RestifyCapl.Lib

variable {α : Type*} {s a b p : List α}

/-- A list does not begin in a part, does not end in it, and does not go
over it. -/
structure Apart (s p : List α) : Prop where
  first : ∀ x ∈ s.head?, x ∉ p
  last : ∀ x ∈ s.getLast?, x ∉ p
  stranger : ∃ x ∈ p, x ∉ s

/-- What begins before such a part ends before it. -/
theorem Apart.prefix_left (h : Apart s p) (hstart : s <+: a ++ (p ++ b)) :
    s <+: a := by
  rcases List.prefix_or_prefix_of_prefix hstart (List.prefix_append a (p ++ b))
    with hleft | ⟨r, rfl⟩
  · exact hleft
  by_cases hr : r = []
  · rw [hr, List.append_nil]
  exfalso
  have hrest : r <+: p ++ b := (List.prefix_append_right_inj a).mp hstart
  rcases List.prefix_or_prefix_of_prefix hrest (List.prefix_append p b)
    with hin | hover
  · have hlast : r.getLast hr ∈ (a ++ r).getLast? := by
      rw [List.getLast?_append_of_ne_nil _ hr, List.getLast?_eq_some_getLast hr]
      rfl
    exact h.last _ hlast (hin.subset (List.getLast_mem hr))
  · obtain ⟨x, hx, hstranger⟩ := h.stranger
    exact hstranger (List.mem_append_right _ (hover.subset hx))

-- ================================================================ counting

variable [BEq α]

def occurrences (s t : List α) : Nat := t.tails.countP s.isPrefixOf

theorem occurrences_cons (s : List α) (x : α) (t : List α) :
    occurrences s (x :: t)
      = occurrences s t + if s.isPrefixOf (x :: t) then 1 else 0 := by
  unfold occurrences
  rw [List.tails_cons, List.countP_cons]

variable [LawfulBEq α]

theorem occurrences_nil (hs : s ≠ []) : occurrences s [] = 0 := by
  show List.countP s.isPrefixOf [[]] = 0
  rw [List.countP_singleton, if_neg]
  rw [List.isPrefixOf_iff_prefix, List.prefix_nil]
  exact hs

theorem occurrences_pos_iff {t : List α} : 0 < occurrences s t ↔ s <:+: t := by
  unfold occurrences
  rw [List.countP_pos_iff, List.infix_iff_prefix_suffix]
  simp only [List.mem_tails, List.isPrefixOf_iff_prefix]
  constructor
  · rintro ⟨r, hr, hs⟩
    exact ⟨r, hs, hr⟩
  · rintro ⟨r, hs, hr⟩
    exact ⟨r, hr, hs⟩

/-- What occurs in the parts occurs in the whole. -/
theorem occurrences_add_le (hs : s ≠ []) (a b : List α) :
    occurrences s a + occurrences s b ≤ occurrences s (a ++ b) := by
  induction a with
  | nil =>
      rw [occurrences_nil hs, List.nil_append]
      omega
  | cons x a ih =>
      rw [List.cons_append, occurrences_cons, occurrences_cons]
      have hstart : s.isPrefixOf (x :: a) = true
          → s.isPrefixOf (x :: (a ++ b)) = true := by
        rw [List.isPrefixOf_iff_prefix, List.isPrefixOf_iff_prefix]
        exact fun h => h.trans (List.prefix_append (x :: a) b)
      split
      next h =>
        rw [if_pos (hstart h)]
        omega
      next => omega

/-- Nothing begins in a part that has not its first element. -/
theorem occurrences_skip (hs : s ≠ []) (hfirst : ∀ x ∈ s.head?, x ∉ p)
    (b : List α) : occurrences s (p ++ b) = occurrences s b := by
  induction p with
  | nil => rfl
  | cons x p ih =>
      have hrest : ∀ y ∈ s.head?, y ∉ p :=
        fun y hy hmem => hfirst y hy (List.mem_cons_of_mem _ hmem)
      rw [List.cons_append, occurrences_cons, ih hrest, if_neg, Nat.add_zero]
      rw [List.isPrefixOf_iff_prefix]
      intro hstart
      cases s with
      | nil => exact hs rfl
      | cons y s =>
          have hhead := (List.cons_prefix_cons.mp hstart).1
          exact hfirst y rfl (by simp [hhead])

theorem occurrences_around (hs : s ≠ []) (h : Apart s p) (a b : List α) :
    occurrences s (a ++ (p ++ b)) = occurrences s a + occurrences s b := by
  induction a with
  | nil =>
      rw [occurrences_nil hs, List.nil_append, occurrences_skip hs h.first,
        Nat.zero_add]
  | cons x a ih =>
      have hsame : s.isPrefixOf (x :: (a ++ (p ++ b))) = s.isPrefixOf (x :: a) := by
        rw [Bool.eq_iff_iff, List.isPrefixOf_iff_prefix, List.isPrefixOf_iff_prefix]
        constructor
        · exact fun hstart => h.prefix_left (a := x :: a) hstart
        · exact fun hstart => hstart.trans (List.prefix_append (x :: a) (p ++ b))
      rw [List.cons_append, occurrences_cons, occurrences_cons, ih, hsame]
      omega

/-- Over parts with such separators between them. -/
theorem occurrences_intercalate (hs : s ≠ []) (h : Apart s p)
    (parts : List (List α)) :
    occurrences s (p.intercalate parts) = (parts.map (occurrences s)).sum := by
  induction parts with
  | nil => exact occurrences_nil hs
  | cons part parts ih =>
      cases parts with
      | nil => simp [List.intercalate_singleton]
      | cons next parts =>
          have hjoin : p.intercalate (part :: next :: parts)
              = part ++ (p ++ p.intercalate (next :: parts)) := by
            simp [List.intercalate]
          rw [hjoin, occurrences_around hs h, ih]
          rfl

end RestifyCapl.Lib
