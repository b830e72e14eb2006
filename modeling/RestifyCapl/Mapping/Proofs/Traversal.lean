/-
`FlattenDocument` lists the leaves: its stack loop, which edits one path
string in place, gives the entries of `Rose.leaves` in order
(`flattenDocument_eq`).

The loop's invariant is about the path string alone: the text before
each frame's `prefixSize` is the pointer of the frame's container, and
stays so because the containers on the stack lie one inside the other
(`Stacked`).
-/
import RestifyCapl.Core.Proofs.Resolve
import RestifyCapl.Mapping.JsonFlatten

namespace RestifyCapl

open Lib
open Lib.Rose

variable {F : Type}

-- ============================================================ small parts

theorem appendEscapedToken_eq (out token : Bytes) :
    appendEscapedToken out token = out ++ escapeToken token := by
  induction token generalizing out with
  | nil => exact (List.append_nil out).symm
  | cons c token ih =>
      show _ = out ++ (escapeByte c ++ escapeToken token)
      unfold appendEscapedToken escapeByte
      split
      · rw [ih, List.append_assoc]
      · split
        · rw [ih, List.append_assoc]
        · rw [ih, List.append_assoc]

theorem resize_prefix {p path : Bytes} (h : p <+: path) :
    resize path p.length = p := by
  obtain ⟨rest, rfl⟩ := h
  unfold resize
  rw [List.take_left, List.length_append, Nat.sub_eq_zero_of_le (by omega)]
  exact List.append_nil p

-- ============================================================= the leaves

/-- A node without children is described. -/
theorem describeLeaf_ok [JsonFloat F] {node : JsonValue F}
    (h : node.labelled = []) :
    ∃ value type, describeLeaf node = .ok (value, type) := by
  cases node with
  | object members =>
      have hnil : members = [] := h
      subst hnil
      exact ⟨_, _, rfl⟩
  | array elements =>
      have hlen : elements = [] := by
        rw [← JsonValue.indexed_values elements]
        exact congrArg (List.map Prod.snd) h
      subst hlen
      exact ⟨_, _, rfl⟩
  | _ => exact ⟨_, _, rfl⟩

/-- A container with children is not a leaf, and that is the only way to
fail. -/
theorem describeLeaf_error [JsonFloat F] {node : JsonValue F}
    {status : Status} (h : describeLeaf node = .error status) :
    status = .typeMismatch := by
  cases node with
  | object members =>
      cases members with
      | nil => cases h
      | cons m members =>
          injection h with h
          exact h.symm
  | array elements =>
      cases elements with
      | nil => cases h
      | cons v elements =>
          injection h with h
          exact h.symm
  | _ => cases h

/-- The entry of a node under a key. -/
def entryAt [JsonFloat F] (key : Bytes) (node : JsonValue F) : FlatEntry :=
  match describeLeaf node with
  | .ok (value, type) => ⟨key, value, type⟩
  | .error _ => ⟨key, [], .none⟩

theorem entryAt_key [JsonFloat F] (key : Bytes) (node : JsonValue F) :
    (entryAt key node).key = key := by
  unfold entryAt
  split <;> rfl

theorem describeLeaf_entryAt [JsonFloat F] {node : JsonValue F}
    (h : node.labelled = []) (key : Bytes) :
    describeLeaf node
      = .ok ((entryAt key node).value, (entryAt key node).type) := by
  obtain ⟨value, type, hleaf⟩ := describeLeaf_ok h
  unfold entryAt
  rw [hleaf]

theorem appendLeaf_leaf [JsonFloat F] {node : JsonValue F}
    (h : node.labelled = []) (key : Bytes) (entries : List FlatEntry) :
    appendLeaf key node entries = .ok (entries ++ [entryAt key node]) := by
  obtain ⟨value, type, hleaf⟩ := describeLeaf_ok h
  unfold appendLeaf entryAt
  rw [hleaf]

/-- The entries of a subtree at a pointer. -/
def entriesUnder [JsonFloat F] (pointer : Bytes) (v : JsonValue F) :
    List FlatEntry :=
  (leaves v).map fun e => entryAt (pointer ++ pointerText e.1) e.2

/-- The entries below one edge. -/
def entriesAlong [JsonFloat F] (pointer : Bytes)
    (c : Bytes × JsonValue F) : List FlatEntry :=
  entriesUnder (pointer ++ ch '/' :: escapeToken c.1) c.2

theorem entriesUnder_leaf [JsonFloat F] {v : JsonValue F}
    (h : v.labelled = []) (pointer : Bytes) :
    entriesUnder pointer v = [entryAt pointer v] := by
  unfold entriesUnder
  rw [leaves_leaf h, List.map_singleton]
  exact congrArg (fun p => [entryAt p v]) (List.append_nil pointer)

theorem entriesUnder_node [JsonFloat F] {v : JsonValue F}
    (h : v.labelled ≠ []) (pointer : Bytes) :
    entriesUnder pointer v = v.labelled.flatMap (entriesAlong pointer) := by
  unfold entriesUnder
  rw [leaves_node h, List.map_flatMap]
  apply List.flatMap_congr
  intro c _
  rw [List.map_map]
  unfold entriesAlong entriesUnder
  apply List.map_congr_left
  intro e _
  show entryAt (pointer ++ pointerText (c.1 :: e.1)) e.2 = _
  rw [List.append_assoc]
  rfl

-- ============================================================== the frames

/-- The children a frame still has to visit, each under its token. -/
def Frame.rest (frame : Frame F) : List (Bytes × JsonValue F) :=
  if frame.isObject then frame.next
  else frame.next.mapIdx fun i c => (decimal (frame.index + i), c.2)

theorem Frame.rest_of (v : JsonValue F) (n : Nat) :
    (Frame.of v n).rest = v.labelled := by
  cases v with
  | object members => rfl
  | array elements =>
      show (elements.map fun v => (([] : Bytes), v)).mapIdx _ = _
      apply List.ext_getElem?
      intro k
      rw [List.getElem?_mapIdx, List.getElem?_map]
      show _ = (JsonValue.indexed elements)[k]?
      rw [JsonValue.indexed_get]
      cases elements[k]? with
      | none => rfl
      | some v =>
          show some (decimal (0 + k), v) = some (decimal k, v)
          rw [Nat.zero_add]
  | _ => rfl

/-- The token of the item a frame is at. -/
def Frame.token (frame : Frame F) (key : Bytes) : Bytes :=
  if frame.isObject then key else decimal frame.index

theorem Frame.rest_cons (key : Bytes) (child : JsonValue F)
    (next : List (Bytes × JsonValue F)) (index n : Nat) (isObject : Bool) :
    Frame.rest ⟨(key, child) :: next, index, n, isObject⟩
      = (Frame.token ⟨(key, child) :: next, index, n, isObject⟩ key, child)
        :: Frame.rest ⟨next, index + 1, n, isObject⟩ := by
  cases isObject with
  | true => rfl
  | false =>
      show List.mapIdx _ ((key, child) :: next) = _
      rw [List.mapIdx_cons]
      congr 1
      show List.mapIdx _ next = List.mapIdx _ next
      congr 1
      funext i c
      show (decimal (index + (i + 1)), c.2) = (decimal (index + 1 + i), c.2)
      congr 2
      omega

/-- The path of an item is its container's pointer and its token. -/
theorem Frame.itemPath_eq {frame : Frame F} {p path : Bytes}
    (hp : p <+: path) (hsize : frame.prefixSize = p.length) (key : Bytes) :
    frame.itemPath key path = p ++ ch '/' :: escapeToken (frame.token key) := by
  unfold Frame.itemPath Frame.token
  rw [hsize, resize_prefix hp]
  split
  · dsimp only
    rw [appendEscapedToken_eq, List.append_assoc]
    rfl
  · dsimp only
    rw [escapeToken_decimal, List.append_assoc]
    rfl

/-- The pointers of the containers on the stack, each a prefix of the
next inner one, the innermost a prefix of the path. -/
inductive Stacked : Bytes → List (Frame F) → List Bytes → Prop
  | nil {path : Bytes} : Stacked path [] []
  | cons {path p : Bytes} {frame : Frame F} {stack : List (Frame F)}
      {pointers : List Bytes} :
      p <+: path → frame.prefixSize = p.length → Stacked p stack pointers →
      Stacked path (frame :: stack) (p :: pointers)

theorem Stacked.mono {path path' : Bytes} {stack : List (Frame F)}
    {pointers : List Bytes} (hs : Stacked path stack pointers)
    (h : path <+: path') : Stacked path' stack pointers := by
  cases hs with
  | nil => exact .nil
  | cons hp hsize hs => exact .cons (hp.trans h) hsize hs

-- ================================================================ the loop

/-- What the frames of the stack still give, innermost first. -/
def stackEntries [JsonFloat F] (stack : List (Frame F))
    (pointers : List Bytes) : List FlatEntry :=
  (stack.zip pointers).flatMap fun fp => fp.1.rest.flatMap (entriesAlong fp.2)

theorem stackEntries_cons [JsonFloat F] (frame : Frame F)
    (stack : List (Frame F)) (p : Bytes) (pointers : List Bytes) :
    stackEntries (frame :: stack) (p :: pointers)
      = frame.rest.flatMap (entriesAlong p) ++ stackEntries stack pointers :=
  rfl

theorem flattenLoop_eq [JsonFloat F] (stack : List (Frame F)) (path : Bytes)
    (entries : List FlatEntry) (pointers : List Bytes)
    (hs : Stacked path stack pointers) :
    flattenLoop stack path entries
      = .ok (entries ++ stackEntries stack pointers) := by
  induction stack, path, entries using flattenLoop.induct
      generalizing pointers with
  | case1 path entries =>
      cases hs
      rw [flattenLoop]
      exact congrArg Except.ok (List.append_nil entries).symm
  | case2 path entries index n isObject stack ih =>
      cases hs with
      | @cons _ p _ _ pointers hp hsize hs =>
          have hrest : Frame.rest (F := F) ⟨[], index, n, isObject⟩ = [] := by
            cases isObject <;> rfl
          rw [flattenLoop, ih _ (hs.mono hp), stackEntries_cons, hrest]
          rfl
  | case3 path entries key child next index n isObject stack path' frame
      hchild ih =>
      cases hs with
      | @cons _ p _ _ pointers hp hsize hs =>
          have hpath : path' = p ++ ch '/' :: escapeToken (Frame.token
              ⟨(key, child) :: next, index, n, isObject⟩ key) :=
            Frame.itemPath_eq hp hsize key
          have hne := child.isNonEmptyContainer_iff.mp hchild
          have hframe : Stacked p (frame :: stack) (p :: pointers) :=
            .cons (List.prefix_refl p) hsize hs
          have hchildFrame : Stacked path'
              (Frame.of child path'.length :: frame :: stack)
              (path' :: p :: pointers) := by
            apply Stacked.cons (List.prefix_refl path') rfl
            apply hframe.mono
            rw [hpath]
            exact List.prefix_append ..
          rw [flattenLoop, if_pos hchild, ih _ hchildFrame, stackEntries_cons,
            stackEntries_cons, stackEntries_cons, Frame.rest_cons,
            List.flatMap_cons, Frame.rest_of, ← entriesUnder_node hne, hpath,
            List.append_assoc]
          rfl
  | case4 path entries key child next index n isObject stack path' hchild
      status hleaf =>
      have hnil : child.labelled = [] := by
        rw [child.isNonEmptyContainer_iff, Decidable.not_not] at hchild
        exact hchild
      rw [appendLeaf_leaf hnil] at hleaf
      cases hleaf
  | case5 path entries key child next index n isObject stack path' frame
      hchild entries' hleaf ih =>
      cases hs with
      | @cons _ p _ _ pointers hp hsize hs =>
          have hnil : child.labelled = [] := by
            rw [child.isNonEmptyContainer_iff, Decidable.not_not] at hchild
            exact hchild
          have hpath : path' = p ++ ch '/' :: escapeToken (Frame.token
              ⟨(key, child) :: next, index, n, isObject⟩ key) :=
            Frame.itemPath_eq hp hsize key
          have hframe : Stacked path' (frame :: stack) (p :: pointers) := by
            refine .cons ?_ hsize hs
            rw [hpath]
            exact List.prefix_append ..
          have hentries : entries' = entries ++ [entryAt path' child] := by
            rw [appendLeaf_leaf hnil] at hleaf
            injection hleaf with hleaf
            exact hleaf.symm
          rw [flattenLoop, if_neg hchild, hleaf]
          dsimp only
          rw [ih _ hframe, stackEntries_cons, stackEntries_cons,
            Frame.rest_cons, List.flatMap_cons, entriesAlong,
            entriesUnder_leaf hnil, ← hpath, hentries, List.append_assoc,
            List.append_assoc]

/-- `FlattenDocument` gives one entry for each leaf, in order, under its
pointer. -/
theorem flattenDocument_eq [JsonFloat F] (root : JsonValue F) :
    flattenDocument root = .ok ((leaves root).map fun e =>
      entryAt (pointerText e.1) e.2) := by
  show _ = Except.ok (entriesUnder [] root)
  unfold flattenDocument
  by_cases h : root.isNonEmptyContainer = true
  · have hne := root.isNonEmptyContainer_iff.mp h
    have hroot : Stacked [] [Frame.of root 0] [[]] :=
      .cons (List.prefix_refl []) rfl .nil
    rw [if_neg (by simp [h]), flattenLoop_eq _ _ _ _ hroot,
      stackEntries_cons, Frame.rest_of, ← entriesUnder_node hne]
    exact congrArg Except.ok (List.append_nil _)
  · have hnil : root.labelled = [] := by
      rw [root.isNonEmptyContainer_iff, Decidable.not_not] at h
      exact h
    rw [if_pos (by simpa using h), appendLeaf_leaf hnil,
      entriesUnder_leaf hnil]
    rfl

end RestifyCapl
