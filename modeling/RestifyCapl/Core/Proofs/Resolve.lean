/-
`ResolvePath` is the tree's addressing. Over a document whose objects
have distinct keys and whose arrays are within reach of a 32-bit index,
the tokens that resolve to a node are exactly the labels on the way to
it (`resolveTokens_ok_iff`), so paths and nodes correspond one to one.
-/
import RestifyCapl.Core.Proofs.Pointer

namespace RestifyCapl

open Lib
open Lib.Rose

variable {F : Type}

-- ============================================================ the indices

theorem isDigit_dash : isDigit (ch '-') = false := by decide

/-- `parseIndex` accepts the decimal text of every index that fits, and
no other spelling of it. -/
theorem parseIndex_ok_iff {token : Bytes} {i : UInt32} :
    parseIndex token = .ok i ↔ token = decimal i.toNat := by
  constructor
  · intro h
    unfold parseIndex at h
    split at h
    next => cases h
    next =>
      split at h
      next => cases h
      next hshape =>
        split at h
        next => cases h
        next hdigits =>
          rw [Bool.not_eq_true, Bool.not_eq_false', List.all_eq_true]
            at hdigits
          rw [Bool.or_eq_true, not_or, List.isEmpty_iff, Bool.and_eq_true,
            decide_eq_true_eq, beq_iff_eq, not_and] at hshape
          obtain ⟨hne, hhead⟩ := hshape
          dsimp only at h
          rw [fromCharsUnsigned_digits hne hdigits] at h
          by_cases hlt : decimalValue token < 2 ^ 32
          · rw [if_pos hlt, if_neg (by simp), if_neg (by simp)] at h
            injection h with h
            rw [← h, UInt32.toNat_ofNat', Nat.mod_eq_of_lt hlt]
            exact (decimal_decimalValue hdigits ⟨hne, hhead⟩).symm
          · rw [if_neg hlt, if_pos rfl] at h
            cases h
  · intro h
    have hdigits : ∀ c ∈ token, isDigit c = true := by
      rw [h]
      exact decimal_digits _
    obtain ⟨hne, hhead⟩ : Canonical token := by
      rw [h]
      exact decimal_canonical _
    have hvalue : decimalValue token = i.toNat := by
      rw [h, decimalValue_decimal]
    have hdash : token ≠ [ch '-'] := by
      intro hd
      have := hdigits (ch '-') (by simp [hd])
      rw [isDigit_dash] at this
      cases this
    have hlt : decimalValue token < 2 ^ 32 := by
      rw [hvalue]
      exact i.toNat_lt
    unfold parseIndex
    rw [if_neg hdash, if_neg, if_neg]
    · dsimp only
      rw [fromCharsUnsigned_digits hne hdigits, if_pos hlt,
        if_neg (by simp), if_neg (by simp), hvalue, UInt32.ofNat_toNat]
    · rw [Bool.not_eq_true, Bool.not_eq_false', List.all_eq_true]
      exact hdigits
    · rw [Bool.or_eq_true, not_or, List.isEmpty_iff, Bool.and_eq_true,
        decide_eq_true_eq, beq_iff_eq, not_and]
      exact ⟨hne, hhead⟩

-- ========================================================== well-formed

/-- What the vendored library's parser promises of a document, and the
length up to which an index can address every element. -/
structure JsonValue.WellFormed (document : JsonValue F) : Prop where
  keys : ∀ pos path members, Reaches document pos path (.object members) →
    (members.map Prod.fst).Nodup
  indices : ∀ pos path elements,
    Reaches document pos path (.array elements) → elements.length ≤ 2 ^ 32

namespace JsonValue

theorem WellFormed.child {v w : JsonValue F} {k : Nat} {token : Bytes}
    (hwf : v.WellFormed) (hk : v.labelled[k]? = some (token, w)) :
    w.WellFormed where
  keys _ _ _ hr := hwf.keys _ _ _ (.child hk hr)
  indices _ _ _ hr := hwf.indices _ _ _ (.child hk hr)

theorem WellFormed.reached {v u : JsonValue F} {pos : List Nat}
    {path : List Bytes} (hwf : v.WellFormed) (hr : Reaches v pos path u) :
    u.WellFormed := by
  induction hr with
  | here => exact hwf
  | child hk _ ih => exact ih (hwf.child hk)

/-- A node is well-formed when its own labels are and its children
are. -/
theorem WellFormed.node {v : JsonValue F}
    (hkeys : ∀ members, v = .object members → (members.map Prod.fst).Nodup)
    (hindices : ∀ elements, v = .array elements →
      elements.length ≤ 2 ^ 32)
    (hchildren : ∀ c ∈ v.labelled, c.2.WellFormed) : v.WellFormed where
  keys pos path members hr := by
    cases hr with
    | here => exact hkeys members rfl
    | child hk hr =>
        exact (hchildren _ (List.mem_of_getElem? hk)).keys _ _ _ hr
  indices pos path elements hr := by
    cases hr with
    | here => exact hindices elements rfl
    | child hk hr =>
        exact (hchildren _ (List.mem_of_getElem? hk)).indices _ _ _ hr

/-- The indices of one array are distinct as text. -/
theorem indexed_nodup (elements : List (JsonValue F)) :
    ((indexed elements).map Prod.fst).Nodup := by
  rw [List.nodup_iff_injective_getElem]
  intro i j hij
  simp only [indexed, List.getElem_map, List.getElem_mapIdx] at hij
  exact Fin.ext (decimal_inj hij)

theorem WellFormed.distinct {v : JsonValue F} (hwf : v.WellFormed) :
    Rose.Distinct v := by
  intro pos path u hr
  rw [children_eq]
  cases u with
  | object members => exact hwf.keys pos path members hr
  | array elements => exact indexed_nodup elements
  | _ => exact List.nodup_nil

end JsonValue

-- ============================================================== one step

theorem findMember_some {token : Bytes} {members : List (Bytes × JsonValue F)}
    {k : Nat} {child : JsonValue F}
    (h : findMember token members = some (k, child)) :
    members[k]? = some (token, child) := by
  unfold findMember at h
  split at h
  next => cases h
  next j hj =>
    obtain ⟨⟨key, v⟩, hget, hm⟩ := Option.map_eq_some_iff.mp h
    rw [Prod.mk.injEq] at hm
    obtain ⟨rfl, rfl⟩ := hm
    rw [List.findIdx?_eq_some_iff_getElem] at hj
    obtain ⟨hlt, hkey, -⟩ := hj
    rw [List.getElem?_eq_getElem hlt, Option.some.injEq] at hget
    rw [hget, beq_iff_eq] at hkey
    rw [List.getElem?_eq_getElem hlt, hget, ← hkey]

/-- Among distinct keys the first match is the only one. -/
theorem findMember_of_get {token : Bytes}
    {members : List (Bytes × JsonValue F)} {k : Nat} {child : JsonValue F}
    (hkeys : (members.map Prod.fst).Nodup)
    (hk : members[k]? = some (token, child)) :
    findMember token members = some (k, child) := by
  cases hf : members.findIdx? fun m => m.1 == token with
  | none =>
      rw [List.findIdx?_eq_none_iff] at hf
      have := hf _ (List.mem_of_getElem? hk)
      simp at this
  | some j =>
      have hj : ∃ w, members[j]? = some (token, w) := by
        obtain ⟨hlt, hkey, -⟩ := List.findIdx?_eq_some_iff_getElem.mp hf
        rw [beq_iff_eq] at hkey
        refine ⟨members[j].2, ?_⟩
        rw [List.getElem?_eq_getElem hlt, ← hkey]
      obtain ⟨w, hw⟩ := hj
      obtain ⟨rfl, rfl⟩ := edge_unique (v := JsonValue.object members)
        hkeys hw hk
      unfold findMember
      rw [hf]
      dsimp only
      rw [hw]
      rfl

/-- A token that resolves is the label of the edge it takes. -/
theorem resolveToken_ok {token : Bytes} {v child : JsonValue F} {k : Nat}
    (h : resolveToken token v = .ok (k, child)) :
    v.labelled[k]? = some (token, child) := by
  cases v with
  | object members =>
      unfold resolveToken at h
      dsimp only at h
      split at h
      next => cases h
      next c hc =>
        injection h with h
        subst h
        exact findMember_some hc
  | array elements =>
      unfold resolveToken at h
      dsimp only at h
      split at h
      next => cases h
      next index hindex =>
        split at h
        next => cases h
        next w hw =>
          injection h with h
          rw [Prod.mk.injEq] at h
          obtain ⟨rfl, rfl⟩ := h
          show (JsonValue.indexed elements)[index.toNat]? = _
          rw [JsonValue.indexed_get, hw, ← parseIndex_ok_iff.mp hindex]
          rfl
  | _ => cases h

/-- The label of an edge resolves to it. -/
theorem resolveToken_of_get {token : Bytes} {v child : JsonValue F} {k : Nat}
    (hwf : v.WellFormed) (hk : v.labelled[k]? = some (token, child)) :
    resolveToken token v = .ok (k, child) := by
  cases v with
  | object members =>
      have hfind := findMember_of_get
        (hwf.keys _ _ _ (.here _)) hk
      unfold resolveToken
      dsimp only
      rw [hfind]
  | array elements =>
      have hget : (JsonValue.indexed elements)[k]? = some (token, child) := hk
      rw [JsonValue.indexed_get] at hget
      obtain ⟨w, hw, heq⟩ := Option.map_eq_some_iff.mp hget
      rw [Prod.mk.injEq] at heq
      obtain ⟨rfl, rfl⟩ := heq
      have hlt : k < 2 ^ 32 := by
        have hlen := hwf.indices _ _ _ (.here _)
        have := (List.getElem?_eq_some_iff.mp hw).1
        omega
      have htoNat : (UInt32.ofNat k).toNat = k := by
        rw [UInt32.toNat_ofNat', Nat.mod_eq_of_lt hlt]
      have hindex : parseIndex (decimal k) = .ok (UInt32.ofNat k) := by
        rw [parseIndex_ok_iff, htoNat]
      unfold resolveToken
      dsimp only
      rw [hindex]
      dsimp only
      rw [htoNat, hw]
  | _ => simp [JsonValue.labelled] at hk

-- ============================================================== the walk

theorem resolveFrom_ok {v u : JsonValue F} {start pos : List Nat}
    {tokens : PathTokens}
    (h : resolveFrom ⟨start, v⟩ tokens = .ok ⟨pos, u⟩) :
    ∃ steps, pos = start ++ steps ∧ Reaches v steps tokens u := by
  induction tokens generalizing v start with
  | nil =>
      injection h with h
      rw [Node.mk.injEq] at h
      obtain ⟨rfl, rfl⟩ := h
      exact ⟨[], (List.append_nil _).symm, .here _⟩
  | cons token tokens ih =>
      unfold resolveFrom at h
      split at h
      next => cases h
      next k child hchild =>
        obtain ⟨steps, hpos, hr⟩ := ih h
        refine ⟨k :: steps, ?_, .child (resolveToken_ok hchild) hr⟩
        rw [hpos, List.append_assoc]
        rfl

theorem resolveFrom_of_reaches {v u : JsonValue F} {steps : List Nat}
    {tokens : PathTokens} (hwf : v.WellFormed)
    (hr : Reaches v steps tokens u) (start : List Nat) :
    resolveFrom ⟨start, v⟩ tokens = .ok ⟨start ++ steps, u⟩ := by
  induction hr generalizing start with
  | here =>
      rw [List.append_nil]
      rfl
  | child hk _ ih =>
      unfold resolveFrom
      rw [resolveToken_of_get hwf hk]
      dsimp only
      rw [ih (hwf.child hk), List.append_assoc]
      rfl

/-- Tokens resolve to the node they are the labels of the way to. -/
theorem resolveTokens_ok_iff {document u : JsonValue F} {pos : List Nat}
    {tokens : PathTokens} (hwf : document.WellFormed) :
    resolveTokens document tokens = .ok ⟨pos, u⟩
      ↔ Reaches document pos tokens u := by
  constructor
  · intro h
    obtain ⟨steps, hpos, hr⟩ := resolveFrom_ok h
    rw [hpos]
    exact hr
  · intro hr
    exact resolveFrom_of_reaches hwf hr []

/-- A path text resolves to a node exactly when it is the text of the
labels on the way there. -/
theorem resolvePath_ok_iff {document u : JsonValue F} {pos : List Nat}
    {path : StringView} (hwf : document.WellFormed) :
    resolvePath document path = .ok ⟨pos, u⟩
      ↔ ∃ tokens, path = some (pointerText tokens)
        ∧ Reaches document pos tokens u := by
  constructor
  · intro h
    unfold resolvePath at h
    split at h
    next => cases h
    next tokens htokens =>
      exact ⟨tokens, parsePath_ok_iff.mp htokens,
        (resolveTokens_ok_iff hwf).mp h⟩
  · intro ⟨tokens, hpath, hr⟩
    unfold resolvePath
    rw [parsePath_ok_iff.mpr hpath]
    exact (resolveTokens_ok_iff hwf).mpr hr

-- =============================================================== going on

theorem resolveFrom_append (current : Node F) (tokens rest : PathTokens) :
    resolveFrom current (tokens ++ rest) =
      match resolveFrom current tokens with
      | .error status => .error status
      | .ok node => resolveFrom node rest := by
  induction tokens generalizing current with
  | nil => rfl
  | cons token tokens ih =>
      simp only [List.cons_append, resolveFrom]
      cases resolveToken token current.value with
      | error status => rfl
      | ok child => exact ih _

/-- A path to an array, and an index: the index resolves within the
array. -/
theorem resolvePath_element_iff {document : JsonValue F}
    (hwf : document.WellFormed) {path : Bytes} {tokens : PathTokens}
    (htokens : parsePath (some path) = .ok tokens) {pos : List Nat}
    {elements : List (JsonValue F)}
    (hres : resolvePath document (some path) = .ok ⟨pos, .array elements⟩)
    (i : Nat) :
    (∃ node, resolvePath document (some (path ++ ch '/' :: decimal i))
        = .ok node)
      ↔ i < elements.length := by
  have hpath : path = pointerText tokens := by
    have := parsePath_ok_iff.mp htokens
    injection this
  have hnext : parsePath (some (path ++ ch '/' :: decimal i))
      = .ok (tokens ++ [decimal i]) := by
    rw [parsePath_ok_iff, hpath]
    unfold pointerText
    rw [List.flatMap_append, List.flatMap_singleton, escapeToken_decimal]
  have hwalk : resolvePath document (some (path ++ ch '/' :: decimal i))
      = resolveFrom ⟨pos, .array elements⟩ [decimal i] := by
    unfold resolvePath at hres ⊢
    rw [htokens] at hres
    rw [hnext]
    dsimp only at hres ⊢
    unfold resolveTokens at hres ⊢
    rw [resolveFrom_append, hres]
  have hreach : Reaches document pos tokens (.array elements) := by
    unfold resolvePath at hres
    rw [htokens] at hres
    exact (resolveTokens_ok_iff hwf).mp hres
  rw [hwalk]
  constructor
  · rintro ⟨node, hnode⟩
    unfold resolveFrom at hnode
    split at hnode
    next => cases hnode
    next k child hstep =>
      have hget : (JsonValue.indexed elements)[k]? = some (decimal i, child) :=
        resolveToken_ok hstep
      rw [JsonValue.indexed_get] at hget
      obtain ⟨w, hw, heq⟩ := Option.map_eq_some_iff.mp hget
      rw [Prod.mk.injEq] at heq
      rw [← decimal_inj heq.1]
      exact (List.getElem?_eq_some_iff.mp hw).1
  · intro hi
    have hget : (JsonValue.array elements).labelled[i]?
        = some (decimal i, elements[i]) := by
      show (JsonValue.indexed elements)[i]? = _
      rw [JsonValue.indexed_get, List.getElem?_eq_getElem hi]
      rfl
    unfold resolveFrom
    rw [resolveToken_of_get (hwf.reached hreach) hget]
    exact ⟨_, rfl⟩

-- ============================================================= the errors

/-- What the walk down a document fails with. -/
def walkErrors : List Status :=
  [.pathNotFound, .indexOutOfRange, .typeMismatch]

theorem parseIndex_error {token : Bytes} {status : Status}
    (h : parseIndex token = .error status) : status ∈ walkErrors := by
  unfold parseIndex at h
  dsimp only at h
  repeat' split at h
  all_goals
    cases h
    try decide

theorem resolveToken_error {token : Bytes} {v : JsonValue F} {status : Status}
    (h : resolveToken token v = .error status) : status ∈ walkErrors := by
  cases v with
  | object members =>
      unfold resolveToken at h
      dsimp only at h
      split at h <;> cases h
      decide
  | array elements =>
      unfold resolveToken at h
      dsimp only at h
      split at h
      next _ hindex =>
        cases h
        exact parseIndex_error hindex
      next =>
        split at h <;> cases h
        decide
  | _ =>
      cases h
      decide

theorem resolveTokens_error {document : JsonValue F} {tokens : PathTokens}
    {status : Status} (h : resolveTokens document tokens = .error status) :
    status ∈ walkErrors := by
  unfold resolveTokens at h
  generalize (⟨[], document⟩ : Node F) = current at h
  induction tokens generalizing current with
  | nil => cases h
  | cons token tokens ih =>
      unfold resolveFrom at h
      split at h
      next _ hstep =>
        cases h
        exact resolveToken_error hstep
      next k child _ => exact ih _ h

theorem parsePath_error {path : StringView} {status : Status}
    (h : parsePath path = .error status) :
    status = .invalidArgument ∨ status = .pathSyntaxError := by
  unfold parsePath at h
  repeat' split at h
  all_goals
    cases h
    try simp

end RestifyCapl
