/-
Lists trimmed at both ends, and lists cut at the first element of a kind.
-/
import Mathlib.Data.List.Basic
import Mathlib.Data.List.DropRight
import Mathlib.Data.List.TakeWhile

namespace RestifyCapl.Lib

variable {α : Type*} {p : α → Bool} {l : List α}

/-- Neither end is to be trimmed. -/
structure Trimmed (p : α → Bool) (l : List α) : Prop where
  first : ∀ x ∈ l.head?, p x = false
  last : ∀ x ∈ l.getLast?, p x = false

theorem Trimmed.dropWhile (h : Trimmed p l) : l.dropWhile p = l := by
  cases l with
  | nil => rfl
  | cons x l =>
      have hx := h.first x rfl
      rw [List.dropWhile_cons_of_neg (by simp [hx])]

theorem Trimmed.rdropWhile (h : Trimmed p l) : l.rdropWhile p = l := by
  rw [List.rdropWhile_eq_self_iff]
  intro hne
  have hlast := h.last (l.getLast hne) (List.getLast?_eq_some_getLast hne)
  simp [hlast]

/-- What is trimmed stays. -/
theorem Trimmed.trim (h : Trimmed p l) : (l.dropWhile p).rdropWhile p = l := by
  rw [h.dropWhile, h.rdropWhile]

/-- Trimming trims. -/
theorem trimmed_trim (p : α → Bool) (l : List α) :
    Trimmed p ((l.dropWhile p).rdropWhile p) where
  first x hx := by
    have hpre := List.rdropWhile_prefix p (l := l.dropWhile p)
    have hhead : x ∈ (l.dropWhile p).head? := by
      obtain ⟨rest, hrest⟩ := hpre
      rw [← hrest, List.head?_append]
      rw [Option.mem_def] at hx ⊢
      rw [hx]
      rfl
    have hnot := List.head?_dropWhile_not p l
    rw [Option.mem_def] at hhead
    rw [hhead] at hnot
    simpa using hnot
  last x hx := by
    have hne : (l.dropWhile p).rdropWhile p ≠ [] := by
      intro hnil
      rw [hnil] at hx
      cases hx
    have hnot := List.rdropWhile_last_not p (l.dropWhile p) hne
    rw [Option.mem_def, List.getLast?_eq_some_getLast hne,
      Option.some.injEq] at hx
    rw [← hx]
    simpa using hnot

theorem trim_subset : (l.dropWhile p).rdropWhile p ⊆ l := by
  intro x hx
  exact (List.dropWhile_suffix p).subset
    ((List.rdropWhile_prefix p (l := l.dropWhile p)).subset hx)

/-- Nothing is left exactly where there is nothing else. -/
theorem trim_eq_nil : (l.dropWhile p).rdropWhile p = [] ↔ ∀ x ∈ l, p x := by
  rw [List.rdropWhile_eq_nil_iff]
  constructor
  · intro h
    have hnil : l.dropWhile p = [] := by
      by_contra hne
      obtain ⟨x, rest, hx⟩ := List.exists_cons_of_ne_nil hne
      have hnot := List.head?_dropWhile_not p l
      rw [hx] at hnot h
      simp [h x List.mem_cons_self] at hnot
    exact List.dropWhile_eq_nil_iff.mp hnil
  · intro h x hx
    exact h x ((List.dropWhile_suffix p).subset hx)

/-- Elements in front that are to be trimmed do not matter. -/
theorem trim_cons {x : α} (hx : p x = true) (l : List α) :
    ((x :: l).dropWhile p).rdropWhile p = (l.dropWhile p).rdropWhile p := by
  rw [List.dropWhile_cons_of_pos hx]

/-- Nor do those behind. -/
theorem trim_concat {x : α} (hx : p x = true) (l : List α) :
    ((l ++ [x]).dropWhile p).rdropWhile p = (l.dropWhile p).rdropWhile p := by
  rw [List.dropWhile_append]
  split
  next hnil =>
    rw [List.isEmpty_iff] at hnil
    rw [hnil, List.dropWhile_cons_of_pos hx]
    rfl
  next => rw [List.rdropWhile_concat_pos _ _ _ hx]

/-- A part that is trimmed itself bounds the trimming, in front of it and
behind it. -/
theorem dropWhile_append_trimmed {part : List α} (h : Trimmed p part)
    (hne : part ≠ []) (front back : List α) :
    (front ++ (part ++ back)).dropWhile p
      = front.dropWhile p ++ (part ++ back) := by
  have hstart : (part ++ back).dropWhile p = part ++ back := by
    obtain ⟨x, rest, rfl⟩ := List.exists_cons_of_ne_nil hne
    have hx := h.first x rfl
    rw [List.cons_append, List.dropWhile_cons_of_neg (by simp [hx])]
  rw [List.dropWhile_append]
  split
  next hnil =>
    rw [List.isEmpty_iff] at hnil
    rw [hnil, hstart]
    rfl
  next => rfl

theorem rdropWhile_append_trimmed {part : List α} (h : Trimmed p part)
    (hne : part ≠ []) (front back : List α) :
    (front ++ (part ++ back)).rdropWhile p
      = front ++ (part ++ back.rdropWhile p) := by
  induction back using List.reverseRecOn with
  | nil =>
      rw [List.rdropWhile_nil, List.append_nil, List.rdropWhile_eq_self_iff]
      intro hall
      have hlast := h.last _ (List.getLast?_eq_some_getLast hne)
      rw [List.getLast_append_of_ne_nil _ hne]
      simp [hlast]
  | append_singleton back x ih =>
      rw [← List.append_assoc part, ← List.append_assoc front]
      by_cases hx : p x = true
      · rw [List.rdropWhile_concat_pos _ _ _ hx,
          List.rdropWhile_concat_pos _ _ _ hx, ih]
      · rw [List.rdropWhile_concat_neg _ _ _ hx,
          List.rdropWhile_concat_neg _ _ _ hx]
        simp

-- ================================================================= cutting

variable {before after : List α} {x : α}

/-- Up to the first element of a kind. -/
theorem takeWhile_cut (hbefore : ∀ y ∈ before, p y = true) (hx : p x = false) :
    (before ++ x :: after).takeWhile p = before := by
  rw [List.takeWhile_append_of_pos hbefore,
    List.takeWhile_cons_of_neg (by simp [hx]), List.append_nil]

/-- From the first element of a kind. -/
theorem dropWhile_cut (hbefore : ∀ y ∈ before, p y = true) (hx : p x = false) :
    (before ++ x :: after).dropWhile p = x :: after := by
  rw [List.dropWhile_append_of_pos hbefore,
    List.dropWhile_cons_of_neg (by simp [hx])]

/-- The place of the only element of a kind. -/
theorem findIdxs_cut (hbefore : ∀ y ∈ before, p y = false) (hx : p x = true)
    (hafter : ∀ y ∈ after, p y = false) :
    (before ++ x :: after).findIdxs p = [before.length] := by
  rw [List.findIdxs_append, List.findIdxs_eq_nil_iff.mpr hbefore,
    List.findIdxs_cons, if_pos hx, List.findIdxs_eq_nil_iff.mpr hafter,
    List.nil_append, Nat.zero_add]

/-- The place of the first element of a kind, or the end. -/
theorem findIdx_cut (hbefore : ∀ y ∈ before, p y = false)
    (hafter : ∀ y ∈ after.head?, p y = true) :
    (before ++ after).findIdx p = before.length := by
  induction before with
  | nil =>
      cases after with
      | nil => rfl
      | cons x after =>
          rw [List.nil_append, List.findIdx_cons, hafter x rfl]
          rfl
  | cons y before ih =>
      obtain ⟨hy, hbefore⟩ := List.forall_mem_cons.mp hbefore
      rw [List.cons_append, List.findIdx_cons, hy, ih hbefore]
      rfl

end RestifyCapl.Lib
