/-
What a history says about two kinds of events: the latest `b`, whether
any `a` came after it, and whether `a` ever happened twice with no `b`
in between. Histories grow at the end only, so each notion comes with
the rule that carries it over one more event.

`a` and `b` are predicates on events: with `b` "this id was issued" and
`a` "a request was performed under this id", `OncePer a b` reads "at
most one perform for each issue".
-/
import Mathlib.Data.List.Basic

namespace RestifyCapl.Lib

variable {ε : Type*} {a b : ε → Prop} {h : List ε}

/-- Event `e`, at position `d`, is the last `b` of the history. -/
def Latest (b : ε → Prop) (h : List ε) (d : Nat) (e : ε) : Prop :=
  h[d]? = some e ∧ b e ∧ ∀ (k : Nat) e', d < k → h[k]? = some e' → ¬ b e'

/-- No `a` since the last `b`: every `a` has a `b` after it. -/
def NoneSince (a b : ε → Prop) (h : List ε) : Prop :=
  ∀ (p : Nat) e, h[p]? = some e → a e →
    ∃ (k : Nat) (e' : ε), p < k ∧ h[k]? = some e' ∧ b e'

/-- Between any two `a` there is a `b`. -/
def OncePer (a b : ε → Prop) (h : List ε) : Prop :=
  ∀ (p q : Nat) e e', p < q → h[p]? = some e → a e →
    h[q]? = some e' → a e' →
    ∃ (k : Nat) (e'' : ε), p < k ∧ k < q ∧ h[k]? = some e'' ∧ b e''

/-- The events strictly between positions `p` and `q`. -/
def between (h : List ε) (p q : Nat) : List ε :=
  (h.drop (p + 1)).take (q - (p + 1))

-- ==================================================== reading a part of it

theorem mem_between {p q : Nat} {e : ε} (he : e ∈ between h p q) :
    ∃ k, p < k ∧ k < q ∧ h[k]? = some e := by
  obtain ⟨k, hk⟩ := List.mem_iff_getElem?.mp he
  unfold between at hk
  rw [List.getElem?_take] at hk
  split at hk
  · rw [List.getElem?_drop] at hk
    exact ⟨p + 1 + k, by omega, by omega, hk⟩
  · cases hk

-- =================================================== reading a longer list

/-- An event of a longer history is an old one or the new one. -/
theorem snoc_cases {e e' : ε} {p : Nat} (hp : (h ++ [e])[p]? = some e') :
    (h[p]? = some e' ∧ p < h.length) ∨ (p = h.length ∧ e' = e) := by
  by_cases hlt : p < h.length
  · rw [List.getElem?_append_left hlt] at hp
    exact Or.inl ⟨hp, hlt⟩
  · rw [List.getElem?_append_right (by omega)] at hp
    have h0 : p - h.length = 0 := by
      have := (List.getElem?_eq_some_iff.mp hp).1
      simp only [List.length_singleton] at this
      omega
    rw [h0] at hp
    simp only [List.getElem?_cons_zero, Option.some.injEq] at hp
    exact Or.inr ⟨by omega, hp.symm⟩

theorem snoc_old {e e' : ε} {p : Nat} (hp : h[p]? = some e') :
    (h ++ [e])[p]? = some e' := by
  rw [List.getElem?_append_left (List.getElem?_eq_some_iff.mp hp).1]
  exact hp

theorem snoc_new (h : List ε) (e : ε) :
    (h ++ [e])[h.length]? = some e := by
  simp

theorem pos_lt {e : ε} {p : Nat} (hp : h[p]? = some e) : p < h.length :=
  (List.getElem?_eq_some_iff.mp hp).1

-- ============================================================= the rules

theorem Latest.snoc {d : Nat} {e e' : ε} (hl : Latest b h d e)
    (hnb : ¬ b e') : Latest b (h ++ [e']) d e := by
  obtain ⟨hd, hb, hlast⟩ := hl
  refine ⟨snoc_old hd, hb, fun k e'' hk hget => ?_⟩
  rcases snoc_cases hget with ⟨hold, -⟩ | ⟨-, rfl⟩
  · exact hlast k e'' hk hold
  · exact hnb

theorem Latest.new {e : ε} (hb : b e) : Latest b (h ++ [e]) h.length e := by
  refine ⟨snoc_new h e, hb, fun k e' hk hget => ?_⟩
  have := pos_lt hget
  simp only [List.length_append, List.length_singleton] at this
  omega

/-- There is only one last `b`. -/
theorem Latest.unique {d d' : Nat} {e e' : ε} (hl : Latest b h d e)
    (hl' : Latest b h d' e') : d = d' ∧ e = e' := by
  obtain ⟨hd, hb, hlast⟩ := hl
  obtain ⟨hd', hb', hlast'⟩ := hl'
  rcases Nat.lt_trichotomy d d' with hlt | heq | hgt
  · exact absurd hb' (hlast d' e' hlt hd')
  · subst heq
    rw [hd] at hd'
    exact ⟨rfl, Option.some.inj hd'⟩
  · exact absurd hb (hlast' d e hgt hd)

theorem NoneSince.snoc {e : ε} (hn : NoneSince a b h) (hna : ¬ a e) :
    NoneSince a b (h ++ [e]) := by
  intro p e' hget ha
  rcases snoc_cases hget with ⟨hold, -⟩ | ⟨-, rfl⟩
  · obtain ⟨k, e'', hk, hke, hb⟩ := hn p e' hold ha
    exact ⟨k, e'', hk, snoc_old hke, hb⟩
  · exact absurd ha hna

/-- A fresh `b` clears the ledger. -/
theorem NoneSince.reset {e : ε} (hb : b e) (hna : ¬ a e) :
    NoneSince a b (h ++ [e]) := by
  intro p e' hget ha
  rcases snoc_cases hget with ⟨-, hlt⟩ | ⟨-, rfl⟩
  · exact ⟨h.length, e, hlt, snoc_new h e, hb⟩
  · exact absurd ha hna

theorem OncePer.snoc {e : ε} (ho : OncePer a b h)
    (hn : a e → NoneSince a b h) : OncePer a b (h ++ [e]) := by
  intro p q e₁ e₂ hpq hp ha₁ hq ha₂
  rcases snoc_cases hq with ⟨hq', hqlt⟩ | ⟨hqeq, rfl⟩
  · rcases snoc_cases hp with ⟨hp', -⟩ | ⟨hpeq, -⟩
    · obtain ⟨k, e'', hpk, hkq, hk, hb⟩ := ho p q e₁ e₂ hpq hp' ha₁ hq' ha₂
      exact ⟨k, e'', hpk, hkq, snoc_old hk, hb⟩
    · omega
  · rcases snoc_cases hp with ⟨hp', -⟩ | ⟨hpeq, -⟩
    · obtain ⟨k, e'', hpk, hk, hb⟩ := hn ha₂ p e₁ hp' ha₁
      exact ⟨k, e'', hpk, by rw [hqeq]; exact pos_lt hk, snoc_old hk, hb⟩
    · omega

theorem OncePer.nil : OncePer a b ([] : List ε) := by
  intro p q e e' _ hp
  simp at hp

end RestifyCapl.Lib
