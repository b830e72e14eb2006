/-
Two loops that pick the greatest element of a list. One runs over a
sorted list and keeps the last element of a kind (`keepLast`); the other
runs over any list and keeps an element whose key beats the best so far
(`keepBest`). Both end with a greatest one, or with none where there is
no element of the kind.
-/
import Mathlib.Data.List.Induction
import Mathlib.Order.Bounds.Basic
import Mathlib.Order.Defs.LinearOrder

namespace RestifyCapl.Lib

variable {α β : Type*}

-- ============================================================= the last one

/-- Keep the last element of a kind. -/
def keepLast (p : α → Bool) (l : List α) : Option α :=
  l.foldl (fun last x => if p x then some x else last) none

variable {p : α → Bool} {l : List α}

theorem keepLast_snoc (p : α → Bool) (l : List α) (x : α) :
    keepLast p (l ++ [x]) = if p x then some x else keepLast p l := by
  unfold keepLast
  rw [List.foldl_append]
  rfl

theorem keepLast_none_iff :
    keepLast p l = none ↔ ∀ x ∈ l, p x = false := by
  induction l using List.reverseRecOn with
  | nil => exact ⟨nofun, fun _ => rfl⟩
  | append_singleton l x ih =>
      rw [keepLast_snoc, List.forall_mem_append, List.forall_mem_singleton]
      cases hx : p x with
      | true => simp
      | false => simpa using ih

/-- In a list that is sorted as far as the kind goes, the last one is a
greatest one. -/
theorem keepLast_greatest {le : α → α → Prop} (hrefl : ∀ x, le x x)
    (hsorted : l.Pairwise fun x y => p x = true → p y = true → le x y)
    {x : α} (h : keepLast p l = some x) :
    x ∈ l ∧ p x = true ∧ ∀ y ∈ l, p y = true → le y x := by
  induction l using List.reverseRecOn with
  | nil => cases h
  | append_singleton l z ih =>
      rw [List.pairwise_append] at hsorted
      obtain ⟨hl, -, hlast⟩ := hsorted
      rw [keepLast_snoc] at h
      cases hz : p z with
      | true =>
          rw [hz, if_pos rfl] at h
          cases h
          refine ⟨by simp, hz, ?_⟩
          intro y hy hpy
          rcases List.mem_append.mp hy with hy | hy
          · exact hlast y hy x (List.mem_singleton_self x) hpy hz
          · rw [List.mem_singleton.mp hy]
            exact hrefl x
      | false =>
          rw [hz] at h
          obtain ⟨hmem, hpx, hall⟩ := ih hl h
          refine ⟨List.mem_append_left _ hmem, hpx, ?_⟩
          intro y hy hpy
          rcases List.mem_append.mp hy with hy | hy
          · exact hall y hy hpy
          · rw [List.mem_singleton.mp hy, hz] at hpy
            cases hpy

-- ============================================================= the best one

variable [LinearOrder β]

/-- Keep the first element with the greatest key; not every element has
one. -/
def keepBest (key : α → Option β) (l : List α) : Option β :=
  l.foldl (fun best x =>
    match key x with
    | none => best
    | some k =>
        match best with
        | none => some k
        | some b => if b < k then some k else some b) none

variable {key : α → Option β}

theorem keepBest_snoc (key : α → Option β) (l : List α) (x : α) :
    keepBest key (l ++ [x]) =
      match key x with
      | none => keepBest key l
      | some k =>
          match keepBest key l with
          | none => some k
          | some b => if b < k then some k else some b := by
  unfold keepBest
  rw [List.foldl_append]
  rfl

/-- The keys that occur. -/
def keysIn (key : α → Option β) (l : List α) : Set β :=
  {k | ∃ x ∈ l, key x = some k}

theorem keepBest_spec (key : α → Option β) (l : List α) :
    (keepBest key l = none → ∀ x ∈ l, key x = none)
      ∧ ∀ b, keepBest key l = some b → IsGreatest (keysIn key l) b := by
  induction l using List.reverseRecOn with
  | nil => exact ⟨nofun, nofun⟩
  | append_singleton l x ih =>
      obtain ⟨hnone, hsome⟩ := ih
      rw [keepBest_snoc]
      have hold : ∀ b, IsGreatest (keysIn key l) b → (∀ k, key x = some k → k ≤ b) →
          IsGreatest (keysIn key (l ++ [x])) b := by
        rintro b ⟨⟨y, hy, hkey⟩, hbound⟩ hx
        refine ⟨⟨y, List.mem_append_left _ hy, hkey⟩, ?_⟩
        rintro k ⟨z, hz, hzk⟩
        rcases List.mem_append.mp hz with hz | hz
        · exact hbound ⟨z, hz, hzk⟩
        · rw [List.mem_singleton.mp hz] at hzk
          exact hx k hzk
      cases hx : key x with
      | none =>
          refine ⟨fun h => ?_, fun b hb => hold b (hsome b hb) fun k hk => ?_⟩
          · rw [List.forall_mem_append, List.forall_mem_singleton]
            exact ⟨hnone h, hx⟩
          · rw [hx] at hk
            cases hk
      | some k =>
          have hnew : (∀ b ∈ keysIn key l, b ≤ k) →
              IsGreatest (keysIn key (l ++ [x])) k := by
            intro hle
            refine ⟨⟨x, by simp, hx⟩, ?_⟩
            rintro k' ⟨z, hz, hzk⟩
            rcases List.mem_append.mp hz with hz | hz
            · exact hle k' ⟨z, hz, hzk⟩
            · rw [List.mem_singleton.mp hz, hx] at hzk
              injection hzk with hzk
              exact le_of_eq hzk.symm
          cases hbest : keepBest key l with
          | none =>
              refine ⟨nofun, ?_⟩
              rintro b ⟨⟩
              apply hnew
              rintro b ⟨z, hz, hzk⟩
              rw [hnone hbest z hz] at hzk
              cases hzk
          | some b =>
              have hb := hsome b hbest
              dsimp only
              by_cases hlt : b < k
              · rw [if_pos hlt]
                refine ⟨nofun, ?_⟩
                rintro c ⟨⟩
                exact hnew fun k' hk' => (hb.2 hk').trans hlt.le
              · rw [if_neg hlt]
                refine ⟨nofun, ?_⟩
                rintro c ⟨⟩
                refine hold b hb fun k' hk' => ?_
                rw [hx] at hk'
                injection hk' with hk'
                rw [← hk']
                exact not_lt.mp hlt

theorem keepBest_eq_some_iff {b : β} :
    keepBest key l = some b ↔ IsGreatest (keysIn key l) b := by
  obtain ⟨hnone, hsome⟩ := keepBest_spec key l
  refine ⟨hsome b, fun hb => ?_⟩
  cases hbest : keepBest key l with
  | none =>
      obtain ⟨⟨x, hx, hkey⟩, -⟩ := hb
      rw [hnone hbest x hx] at hkey
      cases hkey
  | some c => rw [(hsome c hbest).unique hb]

theorem keepBest_eq_none_iff :
    keepBest key l = none ↔ keysIn key l = ∅ := by
  constructor
  · intro h
    apply Set.eq_empty_of_forall_notMem
    rintro k ⟨x, hx, hkey⟩
    rw [(keepBest_spec key l).1 h x hx] at hkey
    cases hkey
  · intro h
    cases hbest : keepBest key l with
    | none => rfl
    | some b =>
        have hmem := (keepBest_eq_some_iff.mp hbest).1
        rw [h] at hmem
        cases hmem

end RestifyCapl.Lib
