/-
Fixed tables, scanned in order: the shape of every slot array the
engine and the document store keep. A table is a function from its
indices, a write is `Function.update`, a search returns the first index
that qualifies, and a count walks the whole table.

The counting half is additive on purpose: `count_update` and
`countP_set` put the old entry's contribution back on the left, so that
a preservation proof is one `omega` with no truncated subtraction in it.
-/
import Mathlib.Data.List.OfFn
import Mathlib.Data.List.FinRange
import Mathlib.Logic.Function.Basic

namespace RestifyCapl.Lib

variable {α : Type*} {n : Nat}

-- ============================================================ the search

/-- The first index, in order, whose entry passes `p`. -/
def findFirst (p : α → Bool) (t : Fin n → α) : Option (Fin n) :=
  (List.finRange n).find? fun i => p (t i)

/-- A hit passes the test. -/
theorem findFirst_some {p : α → Bool} {t : Fin n → α} {i : Fin n}
    (h : findFirst p t = some i) : p (t i) = true :=
  List.find?_some (p := fun i => p (t i)) h

/-- A miss says no entry passes. -/
theorem findFirst_none {p : α → Bool} {t : Fin n → α} :
    findFirst p t = none ↔ ∀ i, p (t i) = false := by
  unfold findFirst
  rw [List.find?_eq_none]
  constructor
  · intro h i
    simpa using h i (List.mem_finRange i)
  · intro h i _
    simp [h i]

/-- An entry that passes makes the search hit. -/
theorem findFirst_isSome {p : α → Bool} {t : Fin n → α} {i : Fin n}
    (h : p (t i) = true) : ∃ j, findFirst p t = some j := by
  cases hf : findFirst p t with
  | some j => exact ⟨j, rfl⟩
  | none =>
      rw [findFirst_none] at hf
      rw [hf i] at h
      cases h

/-- Where at most one entry passes, the search finds that one. -/
theorem findFirst_unique {p : α → Bool} {t : Fin n → α} {i : Fin n}
    (h : p (t i) = true) (huniq : ∀ j, p (t j) = true → j = i) :
    findFirst p t = some i := by
  obtain ⟨j, hj⟩ := findFirst_isSome h
  rw [hj, huniq j (findFirst_some hj)]

/-- The search reads the table only through the test. -/
theorem findFirst_congr {p q : α → Bool} {t t' : Fin n → α}
    (h : ∀ i, p (t i) = q (t' i)) : findFirst p t = findFirst q t' := by
  unfold findFirst
  congr 1
  funext i
  exact h i

-- ============================================================= the count

/-- How many entries pass `p`. -/
def count (p : α → Bool) (t : Fin n → α) : Nat :=
  (List.ofFn t).countP p

/-- Writing one index of a table is setting one cell of its list. -/
theorem ofFn_update (t : Fin n → α) (i : Fin n) (a : α) :
    List.ofFn (Function.update t i a) = (List.ofFn t).set i a := by
  apply List.ext_getElem
  · simp
  · intro k h₁ h₂
    simp only [List.getElem_ofFn, List.getElem_set]
    by_cases hik : (i : Nat) = k
    · subst hik
      simp
    · have hne : (⟨k, by simpa using h₁⟩ : Fin n) ≠ i := by
        intro h
        exact hik (by rw [← h])
      rw [Function.update_of_ne hne, if_neg hik]

/-- Setting a cell moves a list's count by that cell alone. -/
theorem countP_set {p : α → Bool} {l : List α} {k : Nat} {a b : α}
    (h : l[k]? = some a) :
    (l.set k b).countP p + (if p a then 1 else 0)
      = l.countP p + (if p b then 1 else 0) := by
  induction l generalizing k with
  | nil => simp at h
  | cons x l ih =>
      cases k with
      | zero =>
          obtain rfl : x = a := by simpa using h
          simp only [List.set_cons_zero, List.countP_cons]
          omega
      | succ k =>
          have := ih (k := k) (by simpa using h)
          simp only [List.set_cons_succ, List.countP_cons]
          omega

/-- Writing one index moves a table's count by that entry alone. -/
theorem count_update (p : α → Bool) (t : Fin n → α) (i : Fin n) (a : α) :
    count p (Function.update t i a) + (if p (t i) then 1 else 0)
      = count p t + (if p a then 1 else 0) := by
  unfold count
  rw [ofFn_update]
  exact countP_set (by simp)

/-- A write that changes nothing `p` reads leaves the count alone. -/
theorem count_update_same {p : α → Bool} {t : Fin n → α} {i : Fin n}
    {a : α} (h : p a = p (t i)) :
    count p (Function.update t i a) = count p t := by
  have := count_update p t i a
  rw [h] at this
  omega

/-- The count reads the table only through the test. -/
theorem count_congr {p q : α → Bool} {t t' : Fin n → α}
    (h : ∀ i, p (t i) = q (t' i)) : count p t = count q t' := by
  have hfun : ∀ (p : α → Bool) (t : Fin n → α),
      count p t = (List.finRange n).countP (p ∘ t) := by
    intro p t
    unfold count
    rw [List.ofFn_eq_map, List.countP_map]
  rw [hfun, hfun]
  congr 1
  funext i
  exact h i

/-- No entry counts where none passes. -/
theorem count_eq_zero {p : α → Bool} {t : Fin n → α} :
    count p t = 0 ↔ ∀ i, p (t i) = false := by
  unfold count
  rw [List.countP_eq_zero]
  simp

/-- Tests no entry passes together share the table's size. -/
theorem count_add_le {p q : α → Bool} {t : Fin n → α}
    (hdisj : ∀ i, p (t i) = true → q (t i) = false) :
    count p t + count q t ≤ n := by
  have key : ∀ l : List α, (∀ a ∈ l, p a = true → q a = false) →
      l.countP p + l.countP q ≤ l.length := by
    intro l
    induction l with
    | nil => simp
    | cons a l ih =>
        intro h
        have hrest := ih fun b hb => h b (List.mem_cons_of_mem a hb)
        have ha := h a (List.mem_cons_self ..)
        simp only [List.countP_cons, List.length_cons]
        cases hp : p a with
        | true => simp [ha hp]; omega
        | false =>
            simp only [Bool.false_eq_true, if_false]
            split <;> omega
  have := key (List.ofFn t) (by simpa [List.forall_mem_ofFn_iff] using hdisj)
  simpa [count] using this

/-- A search that hits is a count above zero. -/
theorem count_pos_of {p : α → Bool} {t : Fin n → α} {i : Fin n}
    (h : p (t i) = true) : 0 < count p t := by
  rcases Nat.eq_zero_or_pos (count p t) with h0 | hpos
  · rw [count_eq_zero.mp h0 i] at h
    cases h
  · exact hpos

/-- Every entry counts where the count is the table's size. -/
theorem count_eq_size {p : α → Bool} {t : Fin n → α} :
    count p t = n ↔ ∀ i, p (t i) = true := by
  constructor
  · intro h i
    cases hi : p (t i) with
    | true => rfl
    | false =>
        have hpos : 0 < count (fun a => !p a) t :=
          count_pos_of (i := i) (by simp [hi])
        have := count_add_le (p := p) (q := fun a => !p a) (t := t)
          fun i h => by simp [h]
        omega
  · intro h
    unfold count
    rw [List.countP_eq_length.mpr]
    · exact List.length_ofFn
    · intro a ha
      obtain ⟨i, rfl⟩ := List.mem_ofFn.mp ha
      exact h i

end RestifyCapl.Lib
