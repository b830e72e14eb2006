/-
Ranks: a number of the state that no step raises bounds, in every run,
the steps that lower it. Where the state holds a list of parties its
rank is a `total` over them, so that one party's move is one term's.
-/
import RestifyCapl.Lib.Machine
import RestifyCapl.Lib.Quota

namespace RestifyCapl.Lib

section total

variable {α : Type*} {f : α → Nat}

theorem total_nil : total f [] = 0 := rfl

/-- A move of every member that changes no weight. -/
theorem total_map {g : α → α} (h : ∀ a, f (g a) = f a) (l : List α) :
    total f (l.map g) = total f l := by
  induction l with
  | nil => rfl
  | cons a l ih => rw [List.map_cons, total_cons, total_cons, ih, h]

/-- Setting a cell moves the total by that cell alone. -/
theorem total_set {l : List α} {k : Nat} {a b : α} (h : l[k]? = some a) :
    total f (l.set k b) + f a = total f l + f b := by
  induction l generalizing k with
  | nil => simp at h
  | cons x l ih =>
      cases k with
      | zero =>
          obtain rfl : x = a := by simpa using h
          rw [List.set_cons_zero, total_cons, total_cons]
          omega
      | succ k =>
          have := ih (k := k) (by simpa using h)
          rw [List.set_cons_succ, total_cons, total_cons]
          omega

theorem total_eq_zero {l : List α} : total f l = 0 ↔ ∀ a ∈ l, f a = 0 := by
  induction l with
  | nil => simp [total_nil]
  | cons a l ih =>
      rw [total_cons, Nat.add_eq_zero_iff, ih, List.forall_mem_cons]

end total

namespace Machine

variable {σ α β : Type*} {M : Machine σ α β}

/-- The ranking rule: in a run of events of kind `A`, none of which
raises the rank, the ones that lower it are paid for by the rank. -/
theorem Run.ranked {rank : σ → Nat} {lowers : α × β → Bool}
    {A : α × β → Prop}
    (hstep : ∀ s a b s', A (a, b) → M.step s a = some (b, s') →
      rank s' + (if lowers (a, b) then 1 else 0) ≤ rank s)
    {s s' : σ} {h : List (α × β)} (hrun : M.Run s h s')
    (hA : ∀ e ∈ h, A e) : rank s' + h.countP lowers ≤ rank s := by
  induction hrun with
  | nil => simp
  | snoc _ hst ih =>
      have hold := ih fun e he => hA e (List.mem_append_left _ he)
      have hnew := hstep _ _ _ _
        (hA _ (List.mem_append_right _ (List.mem_singleton_self _))) hst
      rw [List.countP_append, List.countP_singleton]
      omega

end Machine

end RestifyCapl.Lib
