/-
The document against the text's tree. Building the document drops the
earlier values of a repeated key and nothing else: its keys are distinct
(`collapse_distinct`), each of its nodes is what a node of the text's
tree under the same labels becomes (`reaches_collapse`), and a tree
without repeated keys is its own document (`collapse_self`).
-/
import RestifyCapl.Core.Proofs.Resolve
import RestifyCapl.Core.JsonParser

namespace RestifyCapl

open Lib
open Lib.Rose

namespace JsonValue

variable {F : Type}

-- ============================================================ the equations

theorem eventsOfElements_eq (elements : List (JsonValue F)) :
    eventsOfElements elements = elements.flatMap saxEvents := by
  induction elements with
  | nil => rfl
  | cons v elements ih => rw [eventsOfElements, ih, List.flatMap_cons]

theorem eventsOfMember_eq (m : Bytes × JsonValue F) :
    eventsOfMember m = .key m.1 :: saxEvents m.2 := by
  obtain ⟨name, v⟩ := m
  rfl

theorem eventsOfMembers_eq (members : List (Bytes × JsonValue F)) :
    eventsOfMembers members
      = members.flatMap fun m => .key m.1 :: saxEvents m.2 := by
  induction members with
  | nil => rfl
  | cons m members ih =>
      rw [eventsOfMembers, ih, List.flatMap_cons, eventsOfMember_eq]

theorem collapseElements_eq (elements : List (JsonValue F)) :
    collapseElements elements = elements.map collapse := by
  induction elements with
  | nil => rfl
  | cons v elements ih => rw [collapseElements, ih, List.map_cons]

theorem collapseMember_eq (m : Bytes × JsonValue F) :
    collapseMember m = (m.1, collapse m.2) := by
  obtain ⟨name, v⟩ := m
  rfl

-- =============================================================== one member

theorem mem_upsert {m c : Bytes × JsonValue F}
    {members : List (Bytes × JsonValue F)} (h : c ∈ upsert m members) :
    c = m ∨ c ∈ members := by
  induction members with
  | nil => exact Or.inl (List.mem_singleton.mp h)
  | cons m' members ih =>
      unfold upsert at h
      split at h
      · rcases List.mem_cons.mp h with h | h
        · exact Or.inl h
        · exact Or.inr (List.mem_cons_of_mem _ h)
      · rcases List.mem_cons.mp h with h | h
        · exact Or.inr (h ▸ List.mem_cons_self ..)
        · exact (ih h).imp_right (List.mem_cons_of_mem _)

theorem upsert_ne_nil (m : Bytes × JsonValue F)
    (members : List (Bytes × JsonValue F)) : upsert m members ≠ [] := by
  cases members with
  | nil => exact List.cons_ne_nil _ _
  | cons m' members =>
      unfold upsert
      split <;> exact List.cons_ne_nil _ _

/-- A key that is there keeps its place, a new one comes last. -/
theorem upsert_keys (m : Bytes × JsonValue F)
    (members : List (Bytes × JsonValue F)) :
    (upsert m members).map Prod.fst
      = if m.1 ∈ members.map Prod.fst then members.map Prod.fst
        else members.map Prod.fst ++ [m.1] := by
  induction members with
  | nil => rfl
  | cons m' members ih =>
      unfold upsert
      by_cases heq : m'.1 = m.1
      · rw [if_pos heq, if_pos (by simp [heq]), List.map_cons, List.map_cons,
          heq]
      · rw [if_neg heq, List.map_cons, ih, List.map_cons]
        by_cases hmem : m.1 ∈ members.map Prod.fst
        · rw [if_pos hmem, if_pos (List.mem_cons_of_mem _ hmem)]
        · rw [if_neg hmem, if_neg, List.cons_append]
          rw [List.mem_cons, not_or]
          exact ⟨fun h => heq h.symm, hmem⟩

theorem upsert_nodup {m : Bytes × JsonValue F}
    {members : List (Bytes × JsonValue F)}
    (h : (members.map Prod.fst).Nodup) :
    ((upsert m members).map Prod.fst).Nodup := by
  rw [upsert_keys]
  split
  · exact h
  · rename_i hnew
    rw [List.nodup_append]
    refine ⟨h, List.nodup_singleton _, ?_⟩
    intro a ha b hb heq
    rw [List.mem_singleton] at hb
    rw [heq, hb] at ha
    exact hnew ha

theorem upsert_new {m : Bytes × JsonValue F}
    {members : List (Bytes × JsonValue F)}
    (h : m.1 ∉ members.map Prod.fst) : upsert m members = members ++ [m] := by
  induction members with
  | nil => rfl
  | cons m' members ih =>
      rw [List.map_cons, List.mem_cons, not_or] at h
      unfold upsert
      rw [if_neg fun heq => h.1 heq.symm, ih h.2, List.cons_append]

-- ============================================================= all members

theorem mem_collapseMembers {done members : List (Bytes × JsonValue F)}
    {c : Bytes × JsonValue F} (h : c ∈ collapseMembers done members) :
    c ∈ done ∨ ∃ m ∈ members, c = (m.1, collapse m.2) := by
  induction members generalizing done with
  | nil => exact Or.inl h
  | cons m members ih =>
      rcases ih h with h | ⟨m', hm', hc⟩
      · rcases mem_upsert h with h | h
        · rw [collapseMember_eq] at h
          exact Or.inr ⟨m, List.mem_cons_self .., h⟩
        · exact Or.inl h
      · exact Or.inr ⟨m', List.mem_cons_of_mem _ hm', hc⟩

theorem collapseMembers_nodup {done : List (Bytes × JsonValue F)}
    (members : List (Bytes × JsonValue F))
    (h : (done.map Prod.fst).Nodup) :
    ((collapseMembers done members).map Prod.fst).Nodup := by
  induction members generalizing done with
  | nil => exact h
  | cons m members ih => exact ih (upsert_nodup h)

theorem collapseMembers_ne_nil {done members : List (Bytes × JsonValue F)}
    (h : done ≠ [] ∨ members ≠ []) : collapseMembers done members ≠ [] := by
  induction members generalizing done with
  | nil => exact h.resolve_right fun h => h rfl
  | cons m members ih => exact ih (Or.inl (upsert_ne_nil _ _))

/-- Distinct keys are all kept, in their order. -/
theorem collapseMembers_distinct {done members : List (Bytes × JsonValue F)}
    (h : ((done ++ members).map Prod.fst).Nodup) :
    collapseMembers done members
      = done ++ members.map fun m => (m.1, collapse m.2) := by
  induction members generalizing done with
  | nil => exact (List.append_nil done).symm
  | cons m members ih =>
      have hnew : m.1 ∉ done.map Prod.fst := by
        rw [List.map_append, List.nodup_append] at h
        intro hmem
        exact h.2.2 _ hmem m.1 (by simp) rfl
      have hnext : ((done ++ [(m.1, collapse m.2)] ++ members).map
          Prod.fst).Nodup := by
        rw [List.append_assoc, List.map_append]
        rw [List.map_append] at h
        exact h
      rw [collapseMembers, collapseMember_eq,
        upsert_new (m := (m.1, collapse m.2)) hnew, ih hnext,
        List.append_assoc]
      rfl

-- ============================================================ the document

/-- A child of the document comes from a child of the text's tree. -/
theorem labelled_collapse {v : JsonValue F} {c : Bytes × JsonValue F}
    (h : c ∈ v.collapse.labelled) :
    ∃ m ∈ v.labelled, c = (m.1, collapse m.2) := by
  cases v with
  | object members =>
      rcases mem_collapseMembers (h : c ∈ collapseMembers [] members)
        with h | h
      · exact absurd h List.not_mem_nil
      · exact h
  | array elements =>
      obtain ⟨k, hk⟩ := List.mem_iff_getElem?.mp h
      have hget : (indexed (collapseElements elements))[k]? = some c := hk
      rw [collapseElements_eq, indexed_get, List.getElem?_map] at hget
      cases hv : elements[k]? with
      | none =>
          rw [hv] at hget
          cases hget
      | some w =>
          rw [hv] at hget
          injection hget with hget
          refine ⟨(decimal k, w), ?_, hget.symm⟩
          apply List.mem_of_getElem? (i := k)
          show (indexed elements)[k]? = _
          rw [indexed_get, hv]
          rfl
  | _ => exact absurd h List.not_mem_nil

theorem labelled_collapse_nil {v : JsonValue F}
    (h : v.collapse.labelled = []) : v.labelled = [] := by
  cases v with
  | object members =>
      apply Decidable.byContradiction
      intro hne
      exact collapseMembers_ne_nil (Or.inr hne) h
  | array elements =>
      have hmap : collapseElements elements = [] := by
        rw [← indexed_values (collapseElements elements)]
        exact congrArg (List.map Prod.snd) h
      rw [collapseElements_eq, List.map_eq_nil_iff] at hmap
      rw [hmap]
      rfl
  | _ => rfl

theorem reaches_collapse {v u : JsonValue F} {pos : List Nat}
    {labels : List Bytes} (hr : Reaches v.collapse pos labels u) :
    ∃ pos' u', Reaches v pos' labels u' ∧ u = u'.collapse := by
  generalize hv : v.collapse = d at hr
  induction hr generalizing v with
  | here => exact ⟨[], v, .here v, hv.symm⟩
  | child hk _ ih =>
      subst hv
      obtain ⟨m, hm, hc⟩ := labelled_collapse (List.mem_of_getElem? hk)
      rw [Prod.mk.injEq] at hc
      obtain ⟨rfl, rfl⟩ := hc
      obtain ⟨pos', u', hr', hu⟩ := ih rfl
      obtain ⟨k', hk'⟩ := List.mem_iff_getElem?.mp hm
      exact ⟨k' :: pos', u', .child hk' hr', hu⟩

theorem collapse_distinct (v : JsonValue F) : Rose.Distinct v.collapse := by
  intro pos labels u hr
  obtain ⟨_, u', _, rfl⟩ := reaches_collapse hr
  rw [children_eq]
  cases u' with
  | object members => exact collapseMembers_nodup members List.nodup_nil
  | array elements => exact indexed_nodup _
  | _ => exact List.nodup_nil

theorem collapse_self {v : JsonValue F} (hd : Rose.Distinct v) :
    v.collapse = v := by
  induction v using Rose.induct with
  | h v ih =>
      have hchild : ∀ c ∈ v.labelled, c.2.collapse = c.2 := by
        intro c hc
        obtain ⟨k, hk⟩ := List.mem_iff_getElem?.mp hc
        exact ih c hc (hd.child hk)
      cases v with
      | object members =>
          show object (collapseMembers [] members) = _
          rw [collapseMembers_distinct (hd _ _ _ (.here _))]
          congr 1
          apply (List.map_congr_left ?_).trans (List.map_id members)
          intro m hm
          rw [hchild m hm]
          rfl
      | array elements =>
          show array (collapseElements elements) = _
          rw [collapseElements_eq]
          congr 1
          apply (List.map_congr_left ?_).trans (List.map_id elements)
          intro w hw
          rw [← indexed_values elements] at hw
          obtain ⟨c, hc, rfl⟩ := List.mem_map.mp hw
          exact hchild c hc
      | _ => rfl

end JsonValue

end RestifyCapl
