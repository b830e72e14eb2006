/-
Paths, nodes and entries correspond. `ResolvePath` reaches every node by
exactly one path text, and `FlattenDocument` lists the leaves among them,
each once, under that text, with what `DescribeLeaf` says of it.
-/
import RestifyCapl.Mapping.Proofs.Traversal

namespace RestifyCapl

open Lib
open Lib.Rose

variable {F : Type} [JsonFloat F]

/-- A scalar, null or an empty container. -/
def IsLeaf (node : JsonValue F) : Prop := node.isNonEmptyContainer = false

omit [JsonFloat F] in
theorem isLeaf_iff {node : JsonValue F} : IsLeaf node ↔ node.labelled = [] := by
  unfold IsLeaf
  rw [← Bool.not_eq_true, node.isNonEmptyContainer_iff, Decidable.not_not]

/-- Paths, nodes and entries of a document, one to one. -/
structure PathsMatchNodes (document : JsonValue F)
    (entries : List FlatEntry) : Prop where
  /-- No node has two paths. -/
  injective : ∀ p q pos u u',
    resolvePath document p = .ok ⟨pos, u⟩ →
    resolvePath document q = .ok ⟨pos, u'⟩ → p = q
  /-- Every node has a path. -/
  surjective : ∀ pos labels u, Reaches document pos labels u →
    ∃ p, resolvePath document p = .ok ⟨pos, u⟩
  /-- The paths of the leaves are the keys, and no key is listed twice. -/
  leaf : ∀ p, (∃ pos u, resolvePath document (some p) = .ok ⟨pos, u⟩
      ∧ IsLeaf u)
    ↔ ∃! i : Nat, ∃ e, entries[i]? = some e ∧ e.key = p
  /-- The entry under a leaf's path describes the leaf. -/
  describes : ∀ p pos u e, resolvePath document (some p) = .ok ⟨pos, u⟩ →
    e ∈ entries → e.key = p →
    IsLeaf u ∧ describeLeaf u = .ok (e.value, e.type)

/-- The entries of a document: one for each leaf. -/
def leafEntries (document : JsonValue F) : List FlatEntry :=
  (leaves document).map fun e => entryAt (pointerText e.1) e.2

theorem leafEntries_keys (document : JsonValue F) :
    (leafEntries document).map FlatEntry.key
      = ((leaves document).map Prod.fst).map pointerText := by
  unfold leafEntries
  rw [List.map_map, List.map_map]
  apply List.map_congr_left
  intro e _
  exact entryAt_key ..

theorem leafEntries_nodup {document : JsonValue F}
    (hd : Rose.Distinct document) :
    ((leafEntries document).map FlatEntry.key).Nodup := by
  rw [leafEntries_keys]
  exact (leaves_nodup hd).map fun _ _ h => pointerText_inj h

/-- An entry is that of a leaf, under the leaf's path. -/
theorem mem_leafEntries {document : JsonValue F} {e : FlatEntry} :
    e ∈ leafEntries document ↔ ∃ pos labels u,
      Reaches document pos labels u ∧ u.labelled = []
        ∧ e = entryAt (pointerText labels) u := by
  unfold leafEntries
  rw [List.mem_map]
  constructor
  · intro ⟨⟨labels, u⟩, hmem, he⟩
    obtain ⟨hleaf, pos, hr⟩ := mem_leaves.mp hmem
    exact ⟨pos, labels, u, hr, hleaf, he.symm⟩
  · intro ⟨pos, labels, u, hr, hleaf, he⟩
    exact ⟨(labels, u), mem_leaves.mpr ⟨hleaf, pos, hr⟩, he.symm⟩

omit [JsonFloat F] in
/-- In a list without repetitions, being listed is being listed at one
place. -/
theorem existsUnique_index {entries : List FlatEntry} {p : Bytes}
    (hnodup : (entries.map FlatEntry.key).Nodup) :
    (∃ e ∈ entries, e.key = p)
      ↔ ∃! i : Nat, ∃ e, entries[i]? = some e ∧ e.key = p := by
  constructor
  · intro ⟨e, hmem, hkey⟩
    obtain ⟨i, hi⟩ := List.mem_iff_getElem?.mp hmem
    refine ⟨i, ⟨e, hi, hkey⟩, ?_⟩
    intro j ⟨e', hj, hkey'⟩
    have hi' : (entries.map FlatEntry.key)[i]? = some p := by
      rw [List.getElem?_map, hi, ← hkey]
      rfl
    have hj' : (entries.map FlatEntry.key)[j]? = some p := by
      rw [List.getElem?_map, hj, ← hkey']
      rfl
    obtain ⟨hjlt, hjget⟩ := List.getElem?_eq_some_iff.mp hj'
    obtain ⟨hilt, higet⟩ := List.getElem?_eq_some_iff.mp hi'
    exact (List.Nodup.getElem_inj_iff hnodup).mp (hjget.trans higet.symm)
  · intro ⟨i, ⟨e, hi, hkey⟩, _⟩
    exact ⟨e, List.mem_of_getElem? hi, hkey⟩

/-- A path resolves to a leaf exactly when it is the key of an entry. -/
theorem resolves_leaf_iff {document : JsonValue F}
    (hwf : document.WellFormed) (p : Bytes) :
    (∃ pos u, resolvePath document (some p) = .ok ⟨pos, u⟩ ∧ IsLeaf u)
      ↔ ∃ e ∈ leafEntries document, e.key = p := by
  constructor
  · intro ⟨pos, u, hres, hleaf⟩
    obtain ⟨labels, hp, hr⟩ := (resolvePath_ok_iff hwf).mp hres
    injection hp with hp
    refine ⟨entryAt (pointerText labels) u, ?_, ?_⟩
    · exact mem_leafEntries.mpr ⟨pos, labels, u, hr, isLeaf_iff.mp hleaf, rfl⟩
    · rw [entryAt_key, hp]
  · intro ⟨e, hmem, hkey⟩
    obtain ⟨pos, labels, u, hr, hleaf, rfl⟩ := mem_leafEntries.mp hmem
    rw [entryAt_key] at hkey
    refine ⟨pos, u, ?_, isLeaf_iff.mpr hleaf⟩
    apply (resolvePath_ok_iff hwf).mpr
    exact ⟨labels, by rw [hkey], hr⟩

/-- The entry under a path describes the node the path resolves to. -/
theorem entry_describes {document u : JsonValue F} {pos : List Nat}
    {p : Bytes} {e : FlatEntry} (hwf : document.WellFormed)
    (hres : resolvePath document (some p) = .ok ⟨pos, u⟩)
    (hmem : e ∈ leafEntries document) (hkey : e.key = p) :
    IsLeaf u ∧ describeLeaf u = .ok (e.value, e.type) := by
  obtain ⟨pos', labels', u', hr', hleaf, rfl⟩ := mem_leafEntries.mp hmem
  obtain ⟨labels, hp, hr⟩ := (resolvePath_ok_iff hwf).mp hres
  injection hp with hp
  rw [entryAt_key, hp] at hkey
  have hlabels := pointerText_inj hkey
  subst hlabels
  obtain ⟨rfl, rfl⟩ := Reaches.pos_unique hwf.distinct hr' hr
  exact ⟨isLeaf_iff.mpr hleaf, describeLeaf_entryAt hleaf _⟩

/-- Over a parsed document, paths and nodes correspond one to one, and
the entries are the leaves among them. -/
theorem paths_match_nodes {document : JsonValue F}
    (hwf : document.WellFormed) :
    ∃ entries, flattenDocument document = .ok entries
      ∧ PathsMatchNodes document entries := by
  refine ⟨leafEntries document, flattenDocument_eq document, ?_⟩
  constructor
  case injective =>
    intro p q pos u u' hp hq
    obtain ⟨labels, rfl, hr⟩ := (resolvePath_ok_iff hwf).mp hp
    obtain ⟨labels', rfl, hr'⟩ := (resolvePath_ok_iff hwf).mp hq
    rw [(hr.path_unique hr').1]
  case surjective =>
    intro pos labels u hr
    exact ⟨some (pointerText labels),
      (resolvePath_ok_iff hwf).mpr ⟨labels, rfl, hr⟩⟩
  case leaf =>
    intro p
    rw [resolves_leaf_iff hwf]
    exact existsUnique_index (leafEntries_nodup hwf.distinct)
  case describes =>
    intro p pos u e hres hmem hkey
    exact entry_describes hwf hres hmem hkey

/-- An array under a key that needs both escapes. -/
def nested : JsonValue Empty :=
  .object [(literal ['~', '/'], .array [.null])]

theorem nested_wellFormed : nested.WellFormed := by
  have hnull : (JsonValue.null : JsonValue Empty).WellFormed := by
    apply JsonValue.WellFormed.node <;> (intro _ h; cases h)
  have harray : (JsonValue.array [.null] : JsonValue Empty).WellFormed := by
    apply JsonValue.WellFormed.node
    · intro members h
      cases h
    · intro elements h
      cases h
      decide
    · intro c hc
      obtain rfl := List.mem_singleton.mp hc
      exact hnull
  apply JsonValue.WellFormed.node
  · intro members h
    cases h
    exact List.nodup_singleton _
  · intro elements h
    cases h
  · intro c hc
    obtain rfl := List.mem_singleton.mp hc
    exact harray

theorem paths_match_nodes_nested :
    ∃ entries, flattenDocument nested = .ok entries
      ∧ PathsMatchNodes nested entries :=
  paths_match_nodes nested_wellFormed

end RestifyCapl
