/-
`FlattenDocument` against the recursion it stands for: an entry for a leaf,
and for a container the entries of its children in order, each below the
container's pointer and its own escaped token. The loop has a stack and one
path string instead; that both agree on every document is
`flattenDocument_recursive`.
-/
import RestifyCapl.Mapping.Proofs.Correspondence

namespace RestifyCapl

open Lib
open Lib.Rose

variable {F : Type} [JsonFloat F]

-- ============================================================ the recursion

/-- Two lists of entries, unless one of them failed. -/
def andThen (first rest : Except Status (List FlatEntry)) :
    Except Status (List FlatEntry) :=
  match first with
  | .error status => .error status
  | .ok entries =>
      match rest with
      | .error status => .error status
      | .ok more => .ok (entries ++ more)

mutual

/-- The entries of a node at a pointer. -/
def flattenNode (pointer : Bytes) : JsonValue F → Except Status (List FlatEntry)
  | .object members =>
      if members.isEmpty then appendLeaf pointer (.object members) []
      else flattenMembers pointer members
  | .array elements =>
      if elements.isEmpty then appendLeaf pointer (.array elements) []
      else flattenElements pointer 0 elements
  | scalar => appendLeaf pointer scalar []
termination_by structural v => v

/-- Members in document order, under their names. -/
def flattenMembers (pointer : Bytes) :
    List (Bytes × JsonValue F) → Except Status (List FlatEntry)
  | [] => .ok []
  | m :: members =>
      andThen (flattenMember pointer m) (flattenMembers pointer members)
termination_by structural members => members

def flattenMember (pointer : Bytes) :
    Bytes × JsonValue F → Except Status (List FlatEntry)
  | (name, v) => flattenNode (pointer ++ ch '/' :: escapeToken name) v
termination_by structural m => m

/-- Elements in index order, under their indices. -/
def flattenElements (pointer : Bytes) (index : Nat) :
    List (JsonValue F) → Except Status (List FlatEntry)
  | [] => .ok []
  | v :: elements =>
      andThen (flattenNode (pointer ++ ch '/' :: escapeToken (decimal index)) v)
        (flattenElements pointer (index + 1) elements)
termination_by structural elements => elements

end

-- =========================================================== what it lists

theorem andThen_ok {entries more : List FlatEntry} :
    andThen (.ok entries) (.ok more) = .ok (entries ++ more) := rfl

theorem flattenMembers_eq {pointer : Bytes} {members : List (Bytes × JsonValue F)}
    (h : ∀ m ∈ members, ∀ pointer,
      flattenNode pointer m.2 = .ok (entriesUnder pointer m.2)) :
    flattenMembers pointer members
      = .ok (members.flatMap (entriesAlong pointer)) := by
  induction members with
  | nil => rfl
  | cons m members ih =>
      obtain ⟨hm, hrest⟩ := List.forall_mem_cons.mp h
      obtain ⟨name, v⟩ := m
      have hmember : flattenMember pointer (name, v)
          = .ok (entriesAlong pointer (name, v)) := by
        rw [flattenMember, hm]
        rfl
      rw [flattenMembers, hmember, ih hrest, andThen_ok, List.flatMap_cons]

theorem flattenElements_eq {pointer : Bytes} {index : Nat}
    {elements : List (JsonValue F)}
    (h : ∀ v ∈ elements, ∀ pointer,
      flattenNode pointer v = .ok (entriesUnder pointer v)) :
    flattenElements pointer index elements
      = .ok ((elements.mapIdx fun i v => (decimal (index + i), v)).flatMap
        (entriesAlong pointer)) := by
  induction elements generalizing index with
  | nil => rfl
  | cons v elements ih =>
      obtain ⟨hv, hrest⟩ := List.forall_mem_cons.mp h
      have hshift : (elements.mapIdx fun i v => (decimal (index + (i + 1)), v))
          = elements.mapIdx fun i v => (decimal (index + 1 + i), v) := by
        congr 1
        funext i v
        rw [Nat.add_comm i 1, Nat.add_assoc]
      rw [flattenElements, hv, ih hrest, andThen_ok, List.mapIdx_cons, hshift,
        List.flatMap_cons]
      rfl

/-- A node without children is one entry. -/
theorem appendLeaf_under {v : JsonValue F} (h : v.labelled = [])
    (pointer : Bytes) :
    appendLeaf pointer v [] = .ok (entriesUnder pointer v) := by
  rw [appendLeaf_leaf h, entriesUnder_leaf h]
  rfl

/-- The recursion lists the leaves below a node. -/
theorem flattenNode_eq (v : JsonValue F) (pointer : Bytes) :
    flattenNode pointer v = .ok (entriesUnder pointer v) := by
  induction v using Rose.induct generalizing pointer with
  | h v ih =>
      cases v with
      | object members =>
          rw [flattenNode]
          cases members with
          | nil =>
              have hnil : (JsonValue.object ([] : List (Bytes × JsonValue F))).labelled
                  = [] := rfl
              exact appendLeaf_under hnil pointer
          | cons m members =>
              have hne : (JsonValue.object (m :: members)).labelled ≠ [] :=
                List.cons_ne_nil m members
              rw [entriesUnder_node hne]
              exact flattenMembers_eq fun m hm pointer => ih m hm pointer
      | array elements =>
          rw [flattenNode]
          cases elements with
          | nil =>
              have hnil : (JsonValue.array ([] : List (JsonValue F))).labelled
                  = [] := rfl
              exact appendLeaf_under hnil pointer
          | cons v elements =>
              have hne : (JsonValue.array (v :: elements)).labelled ≠ [] := by
                rw [← JsonValue.isNonEmptyContainer_iff]
                rfl
              have hvalues : ∀ u ∈ v :: elements, ∀ pointer,
                  flattenNode pointer u = .ok (entriesUnder pointer u) := by
                intro u hu pointer
                rw [← JsonValue.indexed_values (v :: elements)] at hu
                obtain ⟨c, hc, rfl⟩ := List.mem_map.mp hu
                exact ih c hc pointer
              have hrun : flattenElements pointer 0 (v :: elements) = _ :=
                flattenElements_eq hvalues
              simp only [Nat.zero_add] at hrun
              rw [entriesUnder_node hne]
              exact hrun
      | null => exact appendLeaf_under (v := JsonValue.null) rfl pointer
      | boolean b => exact appendLeaf_under (v := JsonValue.boolean b) rfl pointer
      | numberInteger n =>
          exact appendLeaf_under (v := JsonValue.numberInteger n) rfl pointer
      | numberUnsigned n =>
          exact appendLeaf_under (v := JsonValue.numberUnsigned n) rfl pointer
      | numberFloat x =>
          exact appendLeaf_under (v := JsonValue.numberFloat x) rfl pointer
      | string s => exact appendLeaf_under (v := JsonValue.string s) rfl pointer

-- =============================================================== the result

/-- An entry of the list is that of its leaf. -/
theorem leafEntries_get {root v : JsonValue F} {i : Nat} {labels : List Bytes}
    (h : (leaves root)[i]? = some (labels, v)) :
    (leafEntries root)[i]? = some (entryAt (pointerText labels) v)
      ∧ v.labelled = [] := by
  unfold leafEntries
  rw [List.getElem?_map, h]
  exact ⟨rfl, (mem_leaves.mp (List.mem_of_getElem? h)).1⟩

/-- The loop gives what the recursion gives, on every document: it ends
with a non-empty list, an entry for each leaf in order, with the text and
the type of `DescribeLeaf`; and no key is there twice, as no object has a
name twice. -/
theorem flattenDocument_recursive (root : JsonValue F) :
    flattenDocument root = flattenNode [] root
      ∧ ∃ entries : List FlatEntry,
        flattenDocument root = .ok entries ∧ entries ≠ []
        ∧ entries.length = (leaves root).length
        ∧ (∀ (i : Nat) labels v, (leaves root)[i]? = some (labels, v) →
          ∃ e : FlatEntry, entries[i]? = some e ∧ e.key = pointerText labels
            ∧ describeLeaf v = .ok (e.value, e.type))
        ∧ (Rose.Distinct root → (entries.map FlatEntry.key).Nodup) := by
  refine ⟨?_, leafEntries root, flattenDocument_eq root, ?_, ?_, ?_,
    leafEntries_nodup⟩
  · rw [flattenNode_eq, flattenDocument_eq]
    rfl
  · exact fun hnil => leaves_ne_nil root (List.map_eq_nil_iff.mp hnil)
  · exact List.length_map ..
  · intro i labels v hv
    obtain ⟨hentry, hleaf⟩ := leafEntries_get hv
    exact ⟨_, hentry, entryAt_key _ _, describeLeaf_entryAt hleaf _⟩

end RestifyCapl
