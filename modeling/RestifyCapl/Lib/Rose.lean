/-
Finitely branching trees with labelled edges, given by a children
function. A node below a root has two addresses: its position, the
indices of the edges that lead to it, and its path, their labels. A
position always determines its path; the converse needs siblings to have
distinct labels (`Distinct`). The leaves, in order, are listed with
their paths.

Nothing here knows what a label is. The development reads the labels as
object keys and array indices.
-/
import Mathlib.Algebra.GroupWithZero.Nat
import Mathlib.Algebra.Order.BigOperators.Group.List
import Mathlib.Algebra.Order.Group.Nat
import Mathlib.Data.List.Nodup
import Mathlib.Data.List.FinRange
import Mathlib.Data.List.Flatten

namespace RestifyCapl.Lib

/-- A tree type: the labelled children of a node, and a measure that
goes down along every edge. -/
class Rose (V : Type*) (L : outParam Type*) where
  children : V → List (L × V)
  rank : V → Nat
  rank_lt : ∀ {v : V} {c : L × V}, c ∈ children v → rank c.2 < rank v

namespace Rose

variable {V L : Type*} [Rose V L]

/-- A property that passes from the children of a node to the node holds
of all nodes. -/
theorem induct {P : V → Prop} (h : ∀ v : V, (∀ c ∈ children v, P c.2) → P v)
    (v : V) : P v := by
  induction hn : rank v using Nat.strong_induction_on generalizing v with
  | _ n ih =>
      apply h
      intro c hc
      have hlt := rank_lt hc
      rw [hn] at hlt
      exact ih _ hlt c.2 rfl

-- ============================================================== addresses

/-- `Reaches v pos path u`: the edges with indices `pos` and labels
`path` lead from `v` to `u`. -/
inductive Reaches : V → List Nat → List L → V → Prop
  | here (v : V) : Reaches v [] [] v
  | child {v u w : V} {k : Nat} {l : L} {pos : List Nat} {path : List L} :
      (children v)[k]? = some (l, w) → Reaches w pos path u →
      Reaches v (k :: pos) (l :: path) u

/-- Siblings have distinct labels, everywhere below the root. -/
def Distinct (v : V) : Prop :=
  ∀ pos path u, Reaches v pos path u → ((children u).map Prod.fst).Nodup

theorem Distinct.child {v : V} {k : Nat} {l : L} {w : V} (hd : Distinct v)
    (hk : (children v)[k]? = some (l, w)) : Distinct w :=
  fun _ _ _ hr => hd _ _ _ (.child hk hr)

/-- Edges with the same label are the same edge. -/
theorem edge_unique {v : V} {l : L} {j k : Nat} {w w' : V}
    (hd : ((children v).map Prod.fst).Nodup)
    (hj : (children v)[j]? = some (l, w))
    (hk : (children v)[k]? = some (l, w')) : j = k ∧ w = w' := by
  obtain ⟨hjlt, hjget⟩ := List.getElem?_eq_some_iff.mp hj
  obtain ⟨hklt, hkget⟩ := List.getElem?_eq_some_iff.mp hk
  have hjk : j = k := by
    have hj' : j < ((children v).map Prod.fst).length := by
      rwa [List.length_map]
    have hk' : k < ((children v).map Prod.fst).length := by
      rwa [List.length_map]
    have heq : ((children v).map Prod.fst)[j]
        = ((children v).map Prod.fst)[k] := by
      rw [List.getElem_map, List.getElem_map, hjget, hkget]
    exact (List.Nodup.getElem_inj_iff hd).mp heq
  subst hjk
  rw [hj, Option.some.injEq, Prod.mk.injEq] at hk
  exact ⟨rfl, hk.2⟩

/-- A position determines its path and its node. -/
theorem Reaches.path_unique {v u u' : V} {pos : List Nat}
    {path path' : List L} (hr : Reaches v pos path u)
    (hr' : Reaches v pos path' u') : path = path' ∧ u = u' := by
  induction hr generalizing path' u' with
  | here v =>
      cases hr'
      exact ⟨rfl, rfl⟩
  | child hk _ ih =>
      cases hr' with
      | child hk' hr' =>
          rw [hk, Option.some.injEq, Prod.mk.injEq] at hk'
          obtain ⟨rfl, rfl⟩ := hk'
          obtain ⟨rfl, rfl⟩ := ih hr'
          exact ⟨rfl, rfl⟩

/-- With distinct labels a path determines its position and its node. -/
theorem Reaches.pos_unique {v u u' : V} {pos pos' : List Nat}
    {path : List L} (hd : Distinct v) (hr : Reaches v pos path u)
    (hr' : Reaches v pos' path u') : pos = pos' ∧ u = u' := by
  induction hr generalizing pos' u' with
  | here v =>
      cases hr'
      exact ⟨rfl, rfl⟩
  | child hk _ ih =>
      cases hr' with
      | child hk' hr' =>
          obtain ⟨rfl, rfl⟩ := edge_unique (hd _ _ _ (.here _)) hk hk'
          obtain ⟨rfl, rfl⟩ := ih (hd.child hk) hr'
          exact ⟨rfl, rfl⟩

-- ============================================================= the leaves

/-- The childless nodes below a root, in order, with their paths. -/
def leaves (v : V) : List (List L × V) :=
  if (children v).isEmpty then [([], v)]
  else (children v).attach.flatMap fun c =>
    (leaves c.1.2).map fun e => (c.1.1 :: e.1, e.2)
termination_by rank v
decreasing_by exact rank_lt c.2

theorem leaves_leaf {v : V} (h : children v = []) :
    leaves v = [([], v)] := by
  rw [leaves, h]
  rfl

theorem leaves_node {v : V} (h : children v ≠ []) :
    leaves v = (children v).flatMap fun c =>
      (leaves c.2).map fun e => (c.1 :: e.1, e.2) := by
  rw [leaves, if_neg (by simpa using h)]
  conv => rhs; rw [← List.attach_map_subtype_val (children v)]
  rw [List.flatMap_map]

/-- The leaves are the childless nodes, each with its path. -/
theorem mem_leaves {v u : V} {path : List L} :
    (path, u) ∈ leaves v
      ↔ children u = [] ∧ ∃ pos, Reaches v pos path u := by
  induction v using induct generalizing path with
  | h v ih =>
      by_cases hv : children v = []
      · rw [leaves_leaf hv, List.mem_singleton, Prod.mk.injEq]
        constructor
        · intro ⟨hpath, hu⟩
          rw [hpath, hu]
          exact ⟨hv, [], .here v⟩
        · intro ⟨_, pos, hr⟩
          cases hr with
          | here => exact ⟨rfl, rfl⟩
          | child hk => simp [hv] at hk
      · rw [leaves_node hv, List.mem_flatMap]
        constructor
        · intro ⟨c, hc, he⟩
          obtain ⟨e, hmem, heq⟩ := List.mem_map.mp he
          rw [Prod.mk.injEq] at heq
          obtain ⟨rfl, rfl⟩ := heq
          obtain ⟨hleaf, pos, hr⟩ := (ih c hc).mp hmem
          obtain ⟨k, hk⟩ := List.mem_iff_getElem?.mp hc
          exact ⟨hleaf, k :: pos, .child hk hr⟩
        · intro ⟨hleaf, pos, hr⟩
          cases hr with
          | here => exact absurd hleaf hv
          | @child _ _ w k l pos path hk hr =>
              have hc := List.mem_of_getElem? hk
              refine ⟨(l, w), hc, List.mem_map.mpr ⟨(path, u), ?_, rfl⟩⟩
              exact (ih (l, w) hc).mpr ⟨hleaf, pos, hr⟩

theorem leaves_ne_nil (v : V) : leaves v ≠ [] := by
  induction v using induct with
  | h v ih =>
      by_cases hv : children v = []
      · rw [leaves_leaf hv]
        exact List.cons_ne_nil _ _
      · rw [leaves_node hv]
        obtain ⟨c, hc⟩ := List.exists_mem_of_ne_nil _ hv
        intro hnil
        rw [List.flatMap_eq_nil_iff] at hnil
        exact ih c hc (List.map_eq_nil_iff.mp (hnil c hc))

/-- With distinct labels no path is listed twice. -/
theorem leaves_nodup {v : V} (hd : Distinct v) :
    ((leaves v).map Prod.fst).Nodup := by
  induction v using induct with
  | h v ih =>
      by_cases hv : children v = []
      · rw [leaves_leaf hv]
        exact List.nodup_singleton _
      · have hpaths : (leaves v).map Prod.fst
            = (children v).flatMap fun c =>
              ((leaves c.2).map Prod.fst).map (c.1 :: ·) := by
          rw [leaves_node hv, List.map_flatMap]
          apply List.flatMap_congr
          intro c _
          rw [List.map_map, List.map_map]
          rfl
        rw [hpaths, List.nodup_flatMap]
        constructor
        · intro c hc
          obtain ⟨k, hk⟩ := List.mem_iff_getElem?.mp hc
          exact (ih c hc (hd.child hk)).map fun _ _ h => by simpa using h
        · -- paths through different children differ in their first label
          have hlabels := hd _ _ _ (.here v)
          rw [List.Nodup, List.pairwise_map] at hlabels
          apply hlabels.imp
          intro c c' hne path hp hp'
          obtain ⟨p, -, rfl⟩ := List.mem_map.mp hp
          obtain ⟨p', -, heq⟩ := List.mem_map.mp hp'
          injection heq with heq _
          exact hne heq.symm

/-- Every child has a leaf of its own. -/
theorem children_le_leaves (v : V) :
    (children v).length ≤ (leaves v).length := by
  by_cases hv : children v = []
  · rw [hv]
    exact Nat.zero_le _
  · rw [leaves_node hv, List.length_flatMap]
    have hone : ∀ c ∈ children v, 1 ≤
        ((leaves c.2).map fun e => (c.1 :: e.1, e.2)).length := by
      intro c _
      rw [List.length_map]
      exact List.length_pos_iff.mpr (leaves_ne_nil c.2)
    calc (children v).length
        = ((children v).map fun _ => 1).sum := by simp
      _ ≤ _ := List.sum_le_sum hone

/-- A node below the root has no more leaves than the root. -/
theorem Reaches.leaves_le {v u : V} {pos : List Nat} {path : List L}
    (hr : Reaches v pos path u) : (leaves u).length ≤ (leaves v).length := by
  induction hr with
  | here => exact Nat.le_refl _
  | @child v u w k l pos path hk _ ih =>
      have hc := List.mem_of_getElem? hk
      apply ih.trans
      rw [leaves_node (List.ne_nil_of_mem hc), List.length_flatMap]
      have := List.single_le_sum (fun _ _ => Nat.zero_le _) _
        (List.mem_map_of_mem (f := fun c : L × V =>
          ((leaves c.2).map fun e => (c.1 :: e.1, e.2)).length) hc)
      rwa [List.length_map] at this

end Rose

end RestifyCapl.Lib
