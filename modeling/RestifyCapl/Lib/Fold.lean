/-
Flags of a fold: a fold that only ever raises a flag, at the elements with
some property, has raised it in the end when there was such an element.
-/
import Mathlib.Data.List.Basic

namespace RestifyCapl.Lib

variable {α σ : Type _}

/-- `flag` is raised at the elements that `raises` names, and nowhere
else. -/
theorem flag_foldl (flag : σ → Prop) {step : σ → α → σ} {raises : α → Prop}
    (hstep : ∀ s a, flag (step s a) ↔ flag s ∨ raises a) (s : σ)
    (l : List α) : flag (l.foldl step s) ↔ flag s ∨ ∃ a ∈ l, raises a := by
  induction l generalizing s with
  | nil => simp
  | cons a l ih =>
      rw [List.foldl_cons, ih, hstep, or_assoc, List.exists_mem_cons_iff]

end RestifyCapl.Lib
