/-
Grouping by a key, in the order in which the keys first appear: a loop
that puts an element into the group of its key, or opens one. Nothing is
lost or doubled (`groupOn_perm`), a group holds its key's elements only,
and no two groups have the same key.
-/
import Mathlib.Data.List.Induction
import Mathlib.Data.List.Nodup
import Mathlib.Data.List.Perm.Basic

namespace RestifyCapl.Lib

variable {α κ : Type*} [DecidableEq κ] {key : α → κ}

/-- Put an element into the group of its key. -/
def addToGroup (key : α → κ) (groups : List (κ × List α)) (x : α) :
    List (κ × List α) :=
  if key x ∈ groups.map Prod.fst then
    groups.map fun g => if g.1 = key x then (g.1, g.2 ++ [x]) else g
  else groups ++ [(key x, [x])]

def groupOn (key : α → κ) (xs : List α) : List (κ × List α) :=
  xs.foldl (addToGroup key) []

-- ================================================================ one more

theorem keys_addToGroup (groups : List (κ × List α)) (x : α) :
    (addToGroup key groups x).map Prod.fst
      = if key x ∈ groups.map Prod.fst then groups.map Prod.fst
        else groups.map Prod.fst ++ [key x] := by
  unfold addToGroup
  split
  next =>
    rw [List.map_map]
    apply List.map_congr_left
    intro g _
    show (if g.1 = key x then (g.1, g.2 ++ [x]) else g).1 = g.1
    split <;> rfl
  next => rw [List.map_append, List.map_singleton]

theorem nodup_addToGroup {groups : List (κ × List α)}
    (h : (groups.map Prod.fst).Nodup) (x : α) :
    ((addToGroup key groups x).map Prod.fst).Nodup := by
  rw [keys_addToGroup]
  split
  next => exact h
  next hnew =>
    apply List.Nodup.append h (List.nodup_singleton _)
    rw [List.disjoint_singleton]
    exact hnew

/-- The group of a key takes one element, the others none. -/
theorem perm_of_group {groups : List (κ × List α)}
    (h : (groups.map Prod.fst).Nodup) {k : κ}
    (hk : k ∈ groups.map Prod.fst) (x : α) :
    ((groups.map fun g => if g.1 = k then (g.1, g.2 ++ [x]) else g).flatMap
      Prod.snd).Perm (groups.flatMap Prod.snd ++ [x]) := by
  induction groups with
  | nil => cases hk
  | cons g groups ih =>
      rw [List.map_cons, List.nodup_cons] at h
      rw [List.map_cons, List.flatMap_cons, List.flatMap_cons]
      by_cases hg : g.1 = k
      · have hothers : groups.map (fun g => if g.1 = k then (g.1, g.2 ++ [x]) else g)
            = groups := by
          conv_rhs => rw [← List.map_id groups]
          apply List.map_congr_left
          intro g' hg'
          rw [if_neg]
          · rfl
          · intro heq
            exact h.1 (hg ▸ heq ▸ List.mem_map_of_mem hg')
        rw [hothers, if_pos hg, List.append_assoc, List.append_assoc]
        apply List.Perm.append_left
        exact List.perm_append_comm
      · rw [if_neg hg, List.append_assoc]
        apply List.Perm.append_left
        apply ih h.2
        rcases List.mem_cons.mp hk with heq | hmem
        · exact absurd heq.symm hg
        · exact hmem

theorem perm_addToGroup {groups : List (κ × List α)}
    (h : (groups.map Prod.fst).Nodup) (x : α) :
    ((addToGroup key groups x).flatMap Prod.snd).Perm
      (groups.flatMap Prod.snd ++ [x]) := by
  unfold addToGroup
  split
  next hk => exact perm_of_group h hk x
  next => simp

-- =============================================================== the groups

theorem groupOn_snoc (xs : List α) (x : α) :
    groupOn key (xs ++ [x]) = addToGroup key (groupOn key xs) x := by
  unfold groupOn
  rw [List.foldl_append]
  rfl

theorem nodup_groupOn (key : α → κ) (xs : List α) :
    ((groupOn key xs).map Prod.fst).Nodup := by
  induction xs using List.reverseRecOn with
  | nil => exact List.nodup_nil
  | append_singleton xs x ih =>
      rw [groupOn_snoc]
      exact nodup_addToGroup ih x

/-- The groups hold the list. -/
theorem groupOn_perm (key : α → κ) (xs : List α) :
    ((groupOn key xs).flatMap Prod.snd).Perm xs := by
  induction xs using List.reverseRecOn with
  | nil => exact List.Perm.nil
  | append_singleton xs x ih =>
      rw [groupOn_snoc]
      exact (perm_addToGroup (nodup_groupOn key xs) x).trans
        (ih.append_right [x])

/-- A group's key is the key of an element. -/
theorem mem_keys_groupOn {xs : List α} {k : κ}
    (h : k ∈ (groupOn key xs).map Prod.fst) : k ∈ xs.map key := by
  induction xs using List.reverseRecOn with
  | nil => exact h
  | append_singleton xs x ih =>
      rw [groupOn_snoc, keys_addToGroup] at h
      rw [List.map_append]
      split at h
      next => exact List.mem_append_left _ (ih h)
      next =>
        rcases List.mem_append.mp h with hmem | hmem
        · exact List.mem_append_left _ (ih hmem)
        · exact List.mem_append_right _ hmem

/-- A group holds elements of its key. -/
theorem key_of_mem_groupOn {xs : List α} :
    ∀ g ∈ groupOn key xs, ∀ x ∈ g.2, key x = g.1 := by
  induction xs using List.reverseRecOn with
  | nil => exact List.forall_mem_nil _
  | append_singleton xs y ih =>
      rw [groupOn_snoc, addToGroup]
      split
      next =>
        intro g hg x hx
        obtain ⟨g', hg', rfl⟩ := List.mem_map.mp hg
        split at hx
        next heq =>
          rw [if_pos heq]
          rcases List.mem_append.mp hx with hx | hx
          · exact ih g' hg' x hx
          · rw [List.mem_singleton.mp hx]
            exact heq.symm
        next hne =>
          rw [if_neg hne]
          exact ih g' hg' x hx
      next =>
        intro g hg x hx
        rcases List.mem_append.mp hg with hg | hg
        · exact ih g hg x hx
        · rw [List.mem_singleton.mp hg] at hx ⊢
          rw [List.mem_singleton.mp hx]

end RestifyCapl.Lib
