/-
Objects as lists of members: a member is found by its key, and a member
that is set replaces the one of its key, in its place, or comes last.
After any number of members are set, a key has the value it was given
last (`lookup_setAll`), and no key is there twice (`nodup_setAll`).
-/
import Mathlib.Data.List.Basic
import Mathlib.Data.List.Nodup

namespace RestifyCapl.Lib

variable {κ α β : Type*} [BEq κ] [LawfulBEq κ]

def setMember (key : κ) (value : α) : List (κ × α) → List (κ × α)
  | [] => [(key, value)]
  | m :: rest =>
      if m.1 == key then (m.1, value) :: rest
      else m :: setMember key value rest

/-- Members set one after the other. -/
def setAll (members : List (κ × α)) (given : List (κ × α)) : List (κ × α) :=
  given.foldl (fun members m => setMember m.1 m.2 members) members

variable {key k : κ} {value : α} {members given : List (κ × α)}

-- ================================================================= one member

theorem lookup_setMember :
    (setMember key value members).lookup k
      = if k == key then some value else members.lookup k := by
  induction members with
  | nil =>
      unfold setMember
      rw [List.lookup_cons, List.lookup_nil]
      split <;> simp_all
  | cons m rest ih =>
      unfold setMember
      by_cases hm : m.1 == key
      · rw [if_pos hm, List.lookup_cons, List.lookup_cons, eq_of_beq hm]
        by_cases hk : k == key
        · rw [hk, if_pos rfl]
        · rw [if_neg hk, eq_false_of_ne_true hk]
      · rw [if_neg hm, List.lookup_cons, List.lookup_cons, ih]
        by_cases hk : k == key
        · rw [if_pos hk, if_pos hk, eq_of_beq hk]
          have hkey : (key == m.1) = false := by
            rw [BEq.comm]
            exact eq_false_of_ne_true hm
          rw [hkey]
        · rw [if_neg hk, if_neg hk]

theorem keys_setMember :
    (setMember key value members).map Prod.fst
      = if key ∈ members.map Prod.fst then members.map Prod.fst
        else members.map Prod.fst ++ [key] := by
  induction members with
  | nil => rfl
  | cons m rest ih =>
      unfold setMember
      by_cases hm : m.1 == key
      · rw [if_pos hm, List.map_cons, List.map_cons, if_pos]
        rw [eq_of_beq hm]
        exact List.mem_cons_self
      · have hne : key ≠ m.1 := by
          rintro rfl
          exact hm BEq.rfl
        rw [if_neg hm, List.map_cons, ih, List.map_cons]
        by_cases hrest : key ∈ rest.map Prod.fst
        · rw [if_pos hrest, if_pos (List.mem_cons_of_mem _ hrest)]
        · rw [if_neg hrest, if_neg (by simp [hne, hrest])]
          rfl

theorem nodup_setMember (h : (members.map Prod.fst).Nodup) :
    ((setMember key value members).map Prod.fst).Nodup := by
  rw [keys_setMember]
  split
  next => exact h
  next hnew =>
    apply List.Nodup.append h (List.nodup_singleton _)
    rw [List.disjoint_singleton]
    exact hnew

-- =============================================================== many members

theorem lookup_setAll :
    (setAll members given).lookup k
      = ((given.filter fun m => m.1 == k).getLast?.map Prod.snd).or
        (members.lookup k) := by
  induction given generalizing members with
  | nil => rfl
  | cons m rest ih =>
      show (setAll (setMember m.1 m.2 members) rest).lookup k = _
      rw [ih, lookup_setMember, List.filter_cons]
      by_cases hk : m.1 == k
      · rw [if_pos hk, if_pos (by rwa [BEq.comm])]
        cases hrest : rest.filter fun m => m.1 == k with
        | nil => rfl
        | cons d more =>
            rw [List.getLast?_cons_cons,
              List.getLast?_eq_some_getLast (List.cons_ne_nil d more)]
            rfl
      · rw [if_neg hk, if_neg (by rwa [BEq.comm])]

theorem nodup_setAll (h : (members.map Prod.fst).Nodup) :
    ((setAll members given).map Prod.fst).Nodup := by
  induction given generalizing members with
  | nil => exact h
  | cons m rest ih => exact ih (nodup_setMember h)

/-- Under distinct keys a member is what its key finds. -/
theorem mem_iff_lookup (h : (members.map Prod.fst).Nodup) :
    (k, value) ∈ members ↔ members.lookup k = some value := by
  induction members with
  | nil => simp
  | cons m rest ih =>
      obtain ⟨k', v⟩ := m
      rw [List.map_cons, List.nodup_cons] at h
      rw [List.mem_cons, Prod.mk.injEq, List.lookup_cons, ih h.2]
      by_cases hk : k = k'
      · subst hk
        have hout : rest.lookup k ≠ some value := by
          rw [ne_eq, ← ih h.2]
          intro hmem
          exact h.1 (List.mem_map.mpr ⟨(k, value), hmem, rfl⟩)
        rw [BEq.rfl]
        constructor
        · rintro (⟨-, rfl⟩ | hrest)
          · rfl
          · exact absurd hrest hout
        · intro hv
          exact Or.inl ⟨rfl, (Option.some.inj hv).symm⟩
      · rw [beq_eq_false_iff_ne.mpr hk]
        constructor
        · rintro (⟨rfl, -⟩ | hrest)
          · exact absurd rfl hk
          · exact hrest
        · exact Or.inr

-- ==================================================================== values

omit [LawfulBEq κ] in
theorem lookup_map {f : α → β} :
    (members.map fun m => (m.1, f m.2)).lookup k
      = (members.lookup k).map f := by
  induction members with
  | nil => rfl
  | cons m rest ih =>
      rw [List.map_cons, List.lookup_cons, List.lookup_cons, ih]
      split <;> rfl

omit [LawfulBEq κ] in
theorem map_setMember {f : α → β} :
    setMember key (f value) (members.map fun m => (m.1, f m.2))
      = (setMember key value members).map fun m => (m.1, f m.2) := by
  induction members with
  | nil => rfl
  | cons m rest ih =>
      rw [List.map_cons]
      unfold setMember
      split
      next => rfl
      next => rw [List.map_cons, ih]

end RestifyCapl.Lib
