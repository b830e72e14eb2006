/-
`JsonValue` (core/json-value.h) is the vendored library's ordered value
tree. The constructors are its storage kinds, a JSON text gives no other.
An object is the list of its members in insertion order; that the keys
of one object are distinct is what the library's object type promises,
and is a predicate here (`Rose.Distinct`), because the tree a text
spells may repeat a key.

Floating-point values are a type parameter: all the library does with one
here is to print it. What a conversion computes with one is a class of its
own (`JsonDouble`).
-/
import RestifyCapl.Core.Text
import RestifyCapl.Lib.Decimal
import RestifyCapl.Lib.Rose

namespace RestifyCapl

open Lib

/-- `number_float_t`. A number literal, or `null`, is what `dump` prints
for it, so no quote is in it. -/
class JsonFloat (F : Type) where
  dump : F → Bytes
  dump_plain : ∀ x c, c ∈ dump x → c ≠ ch '"' ∧ c ≠ ch '\''

/-- Documents without floating-point numbers. -/
instance : JsonFloat Empty where
  dump x := x.elim
  dump_plain x := x.elim

inductive JsonValue (F : Type) where
  | null
  | boolean (b : Bool)
  | numberInteger (n : Int64)
  | numberUnsigned (n : UInt64)
  | numberFloat (x : F)
  | string (s : Bytes)
  | array (elements : List (JsonValue F))
  | object (members : List (Bytes × JsonValue F))

namespace JsonValue

variable {F : Type}

def isObject : JsonValue F → Bool
  | .object _ => true
  | _ => false

def isArray : JsonValue F → Bool
  | .array _ => true
  | _ => false

/-- `empty()`, for containers. -/
def isEmpty : JsonValue F → Bool
  | .object members => members.isEmpty
  | .array elements => elements.isEmpty
  | _ => false

/-- The elements of an array under their indices as text. -/
def indexed (elements : List (JsonValue F)) : List (Bytes × JsonValue F) :=
  elements.mapIdx fun i v => (decimal i, v)

/-- The children of a container, each under its unescaped path token. -/
def labelled : JsonValue F → List (Bytes × JsonValue F)
  | .object members => members
  | .array elements => indexed elements
  | _ => []

theorem indexed_get (elements : List (JsonValue F)) (k : Nat) :
    (indexed elements)[k]?
      = elements[k]?.map fun v => (decimal k, v) := by
  unfold indexed
  rw [List.getElem?_mapIdx]

-- ============================================================= the weight

mutual

/-- Two for each node: what a traversal has to do below it. -/
def weight : JsonValue F → Nat
  | .array elements => 2 + weightElements elements
  | .object members => 2 + weightMembers members
  | _ => 2
termination_by structural v => v

def weightElements : List (JsonValue F) → Nat
  | [] => 0
  | v :: elements => weight v + weightElements elements
termination_by structural v => v

def weightMembers : List (Bytes × JsonValue F) → Nat
  | [] => 0
  | m :: members => weightMember m + weightMembers members
termination_by structural v => v

def weightMember : Bytes × JsonValue F → Nat
  | (_, v) => weight v
termination_by structural v => v

end

theorem weightElements_eq (elements : List (JsonValue F)) :
    weightElements elements = (elements.map weight).sum := by
  induction elements with
  | nil => rfl
  | cons v elements ih => rw [weightElements, ih, List.map_cons, List.sum_cons]

theorem weightMembers_eq (members : List (Bytes × JsonValue F)) :
    weightMembers members = (members.map fun m => weight m.2).sum := by
  induction members with
  | nil => rfl
  | cons m members ih =>
      obtain ⟨key, v⟩ := m
      rw [weightMembers, ih, List.map_cons, List.sum_cons]
      rfl

/-- The indexed elements carry the elements' values, in order. -/
theorem indexed_values (elements : List (JsonValue F)) :
    (indexed elements).map Prod.snd = elements := by
  apply List.ext_getElem?
  intro k
  rw [List.getElem?_map, indexed_get, Option.map_map]
  exact Option.map_id'

theorem weight_eq (v : JsonValue F) :
    weight v = 2 + (v.labelled.map fun c => weight c.2).sum := by
  cases v with
  | array elements =>
      show 2 + weightElements elements = _
      rw [weightElements_eq, labelled]
      conv => lhs; rw [← indexed_values elements, List.map_map]
      rfl
  | object members =>
      show 2 + weightMembers members = _
      rw [weightMembers_eq, labelled]
  | _ => rfl

theorem weight_labelled_lt {v : JsonValue F} {c : Bytes × JsonValue F}
    (h : c ∈ v.labelled) : weight c.2 < weight v := by
  have hle := List.single_le_sum (fun _ _ => Nat.zero_le _) _
    (List.mem_map_of_mem (f := fun c : Bytes × JsonValue F => weight c.2) h)
  rw [weight_eq v]
  omega

instance : Rose (JsonValue F) Bytes where
  children := labelled
  rank := weight
  rank_lt := weight_labelled_lt

@[simp] theorem children_eq (v : JsonValue F) :
    Rose.children v = v.labelled := rfl

/-- `IsNonEmptyContainer` of json-flatten.cpp. -/
def isNonEmptyContainer (v : JsonValue F) : Bool :=
  (v.isObject || v.isArray) && !v.isEmpty

/-- The leaves of the tree are the nodes with nothing below them. -/
theorem isNonEmptyContainer_iff (v : JsonValue F) :
    v.isNonEmptyContainer = true ↔ v.labelled ≠ [] := by
  cases v with
  | object members => cases members <;> simp [isNonEmptyContainer, isObject,
      isArray, isEmpty, labelled]
  | array elements => cases elements <;> simp [isNonEmptyContainer, isObject,
      isArray, isEmpty, labelled, indexed]
  | _ => simp [isNonEmptyContainer, isObject, isArray, labelled]

end JsonValue

end RestifyCapl
