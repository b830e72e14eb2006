/-
The five path reads agree. `ReadJsonValue` walks path text under the
lock and describes the node it finds; the typed reads parse the path
first, walk its tokens, and convert. Over every document a store can
hold, what one of them reports says what the others do (`ReadsAgree`).

Base layer: a store holds flattened documents only (`held_reach`), and
each read of a held document is its conversion at the resolved node
(`readJsonValue_live`, `readTypedAt_live`).
-/
import RestifyCapl.Mapping.JsonCalls
import RestifyCapl.Mapping.Proofs.RoundTrip

namespace RestifyCapl

open Lib

variable {F : Type} [JsonDouble F] {s s' : JsonDocumentStore F}

-- ========================================================== held documents

/-- What `ParseJsonDocument` puts into a slot. -/
def FromJson (size : SizeArith) (parser : Parser F) (r : FlattenResult F) :
    Prop :=
  ∃ text, flattenJson size parser text = some (.ok r)

/-- What a call can do to a slot: keep it, vacate it, or put a document
into it that was flattened from a text. -/
theorem run_slot {size : SizeArith} {parser : Parser F} {ticks : UInt64}
    {threw : Bool} {call : JsonCall} {answer : JsonAnswer F}
    (h : call.run size parser s ticks threw = some (answer, s'))
    (i : Fin kJsonDocumentSlotCount) :
    s'.slots i = s.slots i ∨ (s'.slots i).occupied = false
      ∨ FromJson size parser (s'.slots i).result := by
  unfold JsonCall.run at h
  split at h
  next =>
    cases h
    exact Or.inl rfl
  next =>
  cases call with
  | parse jsonText =>
      dsimp only [JsonCall.complete, parseJsonDocument] at h
      cases htext : boundedText jsonText with
      | error status =>
          rw [htext] at h
          cases h
          exact Or.inl rfl
      | ok text =>
      rw [htext] at h
      dsimp only at h
      cases hflatten : flattenJson size parser text with
      | none =>
          rw [hflatten] at h
          cases h
      | some flattened =>
      rw [hflatten] at h
      cases flattened with
      | error status =>
          cases h
          exact Or.inl rfl
      | ok r =>
      dsimp only at h
      obtain ⟨⟨inserted, s₁⟩, hinsert⟩ :=
        JsonDocumentStore.insert_total s r ticks
      rw [hinsert] at h
      cases h
      rcases JsonDocumentStore.insert_cases hinsert with ⟨-, -, rfl⟩ |
        ⟨j, id, next, -, -, -, rfl⟩
      · exact Or.inl rfl
      · by_cases hij : i = j
        · subst hij
          right
          right
          show FromJson size parser (Function.update s.slots i _ i).result
          rw [Function.update_self]
          exact ⟨text, hflatten⟩
        · left
          exact Function.update_of_ne hij _ _
  | discard documentId =>
      dsimp only [JsonCall.complete, discardJsonDocument,
        JsonDocumentStore.discard] at h
      cases hfind : s.findLiveSlotLocked documentId with
      | none =>
          rw [hfind] at h
          cases h
          exact Or.inl rfl
      | some j =>
          rw [hfind] at h
          cases h
          by_cases hij : i = j
          · subst hij
            right
            left
            show (Function.update s.slots i _ i).occupied = false
            rw [Function.update_self]
            rfl
          · left
            exact Function.update_of_ne hij _ _
  | discardAll =>
      cases h
      dsimp only
      split
      next => exact Or.inr (Or.inl rfl)
      next => exact Or.inl rfl
  | _ =>
      cases h
      exact Or.inl rfl

/-- A store holds documents that were flattened from a text. -/
theorem held_reach {size : SizeArith} {parser : Parser F}
    {h : List ((JsonCall × UInt64 × Bool) × JsonAnswer F)}
    (hr : (jsonMachine F size parser).Reach h s)
    (i : Fin kJsonDocumentSlotCount) (hi : (s.slots i).occupied = true) :
    FromJson size parser (s.slots i).result := by
  revert i
  apply Machine.Reach.invariant (M := jsonMachine F size parser)
    (P := fun _ s => ∀ i, (s.slots i).occupied = true →
      FromJson size parser (s.slots i).result) _ _ hr
  · rintro s (rfl | ⟨firstId, rfl⟩) i hi
    · cases hi
    · cases hi
  · intro h s a answer s' _ ih hstep i hi
    rcases run_slot hstep i with hkept | hfree | hnew
    · rw [hkept] at hi ⊢
      exact ih i hi
    · rw [hfree] at hi
      cases hi
    · exact hnew

-- ============================================================== the reads

/-- What a typed read gives for the outcome of its conversion. -/
def answerOf {Out : Type} (out : Out) : Except Status Out → Status × Out
  | .error status => (status, out)
  | .ok value => (.ok, value)

section Live

variable {documentId : UInt32} {i : Fin kJsonDocumentSlotCount}
variable {pathText value : CharBuffer} {path : Bytes}
variable (hlive : s.findLiveSlotLocked documentId = some i)
variable (hpath : boundedText pathText = .ok path)

include hlive hpath

/-- `ReadJsonValue` of a held document, into a buffer with room. -/
theorem readJsonValue_live (husable : value.unusable = false)
    (hroom : ∀ node text type,
      resolvePath (s.slots i).result.document (some path) = .ok node →
      describeLeaf node.value = .ok (text, type) →
      text.length < value.size.toNat) :
    readJsonValue s documentId pathText value =
      match resolvePath (s.slots i).result.document (some path) with
      | .error status => (status, value, 0)
      | .ok node =>
          match describeLeaf node.value with
          | .error status => (status, value, 0)
          | .ok (text, type) => (.ok, value.store (text ++ [0]), type.toInt32)
      := by
  unfold readJsonValue JsonDocumentStore.readValue
    JsonDocumentStore.readValueOf
  rw [hpath]
  dsimp only
  rw [hlive]
  dsimp only
  cases hnode : resolvePath (s.slots i).result.document (some path) with
  | error status => rfl
  | ok node =>
      dsimp only
      cases hleaf : describeLeaf node.value with
      | error status => rfl
      | ok described =>
          obtain ⟨text, type⟩ := described
          dsimp only
          rw [copyToBuffer_fits husable (hroom node text type hnode hleaf)]
          rfl

omit [JsonDouble F] in
/-- A typed read of a held document. The tokens are parsed before the
lock, the walk is the one `ReadJsonValue` makes. -/
theorem readTypedAt_live {Out : Type} (out : Out)
    (convert : JsonValue F → Except Status Out) :
    readTypedAt s documentId pathText out
        (fun document tokens => resolveAndConvert document tokens convert) =
      match resolvePath (s.slots i).result.document (some path) with
      | .error status => (status, out)
      | .ok node => answerOf out (convert node.value) := by
  unfold readTypedAt JsonDocumentStore.readWithTokens resolvePath
  rw [hpath]
  dsimp only
  cases htokens : parsePath (some path) with
  | error status => rfl
  | ok tokens =>
      dsimp only
      rw [hlive]
      unfold resolveAndConvert
      dsimp only
      cases hnode : resolveTokens (s.slots i).result.document tokens with
      | error status => rfl
      | ok node =>
          dsimp only
          cases hconvert : convert node.value with
          | error status => rfl
          | ok value => rfl

end Live

-- =========================================================== the conversions

/-- The decimal text of an integer. -/
def integerText (n : Int) : Bytes :=
  if n < 0 then ch '-' :: decimal n.natAbs else decimal n.natAbs

def boolText (b : Bool) : Bytes :=
  if b then literal ['t', 'r', 'u', 'e']
  else literal ['f', 'a', 'l', 's', 'e']

namespace JsonValue

/-- An integer storage kind. -/
def isInteger : JsonValue F → Bool
  | .numberInteger _ | .numberUnsigned _ => true
  | _ => false

/-- What `describeLeaf` calls a node. -/
def leafType (u : JsonValue F) : Option JsonEntryType :=
  match describeLeaf u with
  | .error _ => none
  | .ok (_, type) => some type

@[simp] theorem leafType_numberInteger (n : Int64) :
    (numberInteger n : JsonValue F).leafType = some .number := rfl

@[simp] theorem leafType_numberUnsigned (n : UInt64) :
    (numberUnsigned n : JsonValue F).leafType = some .number := rfl

@[simp] theorem leafType_numberFloat (x : F) :
    (numberFloat x).leafType = some .number := rfl

theorem toBool_ok_iff {u : JsonValue F} {b : Bool} :
    u.toBool = .ok b ↔ describeLeaf u = .ok (boolText b, .bool) := by
  cases u with
  | boolean b' => cases b' <;> cases b <;> simp [toBool, describeLeaf,
      valueToText, dump, isObject, isArray, classifyScalar, boolText, literal]
  | array elements =>
      cases elements <;> simp [toBool, describeLeaf, isObject, isArray,
        isEmpty]
  | object members =>
      cases members <;> simp [toBool, describeLeaf, isObject, isArray,
        isEmpty]
  | _ => simp [toBool, describeLeaf, valueToText, isObject, isArray,
      classifyScalar]

theorem toBool_of_leafType {u : JsonValue F} (h : u.leafType = some .bool) :
    ∃ b, u.toBool = .ok b := by
  cases u with
  | boolean b => exact ⟨b, rfl⟩
  | array elements =>
      cases elements <;> simp [leafType, describeLeaf, isObject, isArray,
        isEmpty] at h
  | object members =>
      cases members <;> simp [leafType, describeLeaf, isObject, isArray,
        isEmpty] at h
  | _ => simp [leafType, describeLeaf, valueToText, isObject, isArray,
      classifyScalar] at h

theorem toDouble_ok_iff {u : JsonValue F} :
    (∃ x, u.toDouble = .ok x) ↔ u.leafType = some .number := by
  cases u with
  | array elements =>
      cases elements <;> simp [toDouble, leafType, describeLeaf, isObject,
        isArray, isEmpty]
  | object members =>
      cases members <;> simp [toDouble, leafType, describeLeaf, isObject,
        isArray, isEmpty]
  | _ => simp [toDouble, leafType, describeLeaf, valueToText, isObject,
      isArray, classifyScalar]

/-- The typed conversions are the same on a null, and only there give
this status. -/
theorem nullValue_iff {u : JsonValue F} :
    (u.toLong = .error .nullValue ↔ u.leafType = some .null)
      ∧ (u.toDouble = .error .nullValue ↔ u.leafType = some .null)
      ∧ (u.toBool = .error .nullValue ↔ u.leafType = some .null)
      ∧ (countElements u = .error .nullValue ↔ u.leafType = some .null) := by
  cases u with
  | array elements =>
      cases elements <;> simp [toLong, toDouble, toBool, countElements,
        leafType, describeLeaf, isObject, isArray, isEmpty]
  | object members =>
      cases members <;> simp [toLong, toDouble, toBool, countElements,
        leafType, describeLeaf, isObject, isArray, isEmpty]
  | numberInteger n =>
      simp only [toLong, toDouble, toBool, countElements,
        leafType_numberInteger]
      split <;> simp
  | numberUnsigned n =>
      simp only [toLong, toDouble, toBool, countElements,
        leafType_numberUnsigned]
      split <;> simp
  | numberFloat x =>
      simp only [toLong, toDouble, toBool, countElements,
        leafType_numberFloat]
      repeat' split
      all_goals simp
  | _ => simp [toLong, toDouble, toBool, countElements, leafType,
      describeLeaf, valueToText, isObject, isArray, classifyScalar]

/-- What `ToLong` returns is a number, and an integer as it is written. -/
theorem toLong_ok {u : JsonValue F} {n : Int32} (h : u.toLong = .ok n) :
    u.leafType = some .number
      ∧ (u.isInteger = true →
        describeLeaf u = .ok (integerText n.toInt, .number)) := by
  cases u with
  | numberInteger raw =>
      refine ⟨rfl, fun _ => ?_⟩
      simp only [toLong] at h
      split at h
      next => cases h
      next hrange =>
        injection h with h
        have hn : n.toInt = raw.toInt := by
          rw [← h]
          simp only [not_or, Int64.not_lt, gt_iff_lt] at hrange
          obtain ⟨hlow, hhigh⟩ := hrange
          rw [Int64.le_iff_toInt_le] at hlow hhigh
          rw [Int64.toInt_toInt32]
          apply Int.bmod_eq_of_le
          · exact hlow
          · exact Int.lt_of_le_of_lt hhigh (by decide)
        rw [hn]
        rfl
  | numberUnsigned raw =>
      refine ⟨rfl, fun _ => ?_⟩
      simp only [toLong] at h
      split at h
      next => cases h
      next hrange =>
        injection h with h
        have hraw : raw.toNat ≤ 2147483647 := by
          rw [gt_iff_lt, UInt64.not_lt, UInt64.le_iff_toNat_le] at hrange
          exact hrange
        have hn : n.toInt = raw.toNat := by
          rw [← h]
          show raw.toUInt32.toBitVec.toInt = _
          rw [BitVec.toInt_eq_toNat_bmod, UInt32.toNat_toBitVec,
            UInt64.toNat_toUInt32, Nat.mod_eq_of_lt (by omega)]
          apply Int.bmod_eq_of_le <;> omega
        have htext : integerText n.toInt = decimal raw.toNat := by
          rw [hn, integerText, if_neg (by omega), Int.natAbs_natCast]
        rw [htext]
        rfl
  | numberFloat x => exact ⟨rfl, nofun⟩
  | _ => cases h

omit [JsonDouble F] in
/-- What `CountElementsAt` counts is an array, whose size fits. -/
theorem countElements_ok {u : JsonValue F} {n : UInt32}
    (h : countElements u = .ok n) :
    ∃ elements, u = .array elements ∧ n = UInt32.ofNat elements.length := by
  cases u with
  | array elements =>
      injection h with h
      exact ⟨elements, rfl, h.symm⟩
  | _ => cases h

/-- What a conversion fails with. -/
def conversionErrors : List Status :=
  [.typeMismatch, .nullValue, .numericOverflow, .notIntegral]

theorem toLong_error {u : JsonValue F} {status : Status}
    (h : u.toLong = .error status) : status ∈ conversionErrors := by
  unfold toLong at h
  dsimp only at h
  repeat' split at h
  all_goals
    cases h
    try decide

theorem toDouble_error {u : JsonValue F} {status : Status}
    (h : u.toDouble = .error status) : status ∈ conversionErrors := by
  unfold toDouble at h
  split at h
  all_goals
    cases h
    try decide

omit [JsonDouble F] in
theorem toBool_error {u : JsonValue F} {status : Status}
    (h : u.toBool = .error status) : status ∈ conversionErrors := by
  unfold toBool at h
  split at h
  all_goals
    cases h
    try decide

omit [JsonDouble F] in
theorem countElements_error {u : JsonValue F} {status : Status}
    (h : countElements u = .error status) : status ∈ conversionErrors := by
  unfold countElements at h
  split at h
  all_goals
    cases h
    try decide

end JsonValue

open JsonValue

section Answers

variable {Out : Type} {out v : Out} {e : Except Status Out}
variable (he : ∀ status, e = .error status → status ∈ conversionErrors)

include he

theorem answerOf_eq_ok_iff : answerOf out e = (.ok, v) ↔ e = .ok v := by
  cases e with
  | error status =>
      refine ⟨fun h => ?_, nofun⟩
      have hstatus : status = .ok := congrArg Prod.fst h
      rw [hstatus] at he
      exact absurd (he _ rfl) (by decide)
  | ok v' => simp [answerOf]

theorem answerOf_ok_iff : (answerOf out e).1 = .ok ↔ ∃ v, e = .ok v := by
  constructor
  · intro h
    exact ⟨(answerOf out e).2, (answerOf_eq_ok_iff he).mp (Prod.ext h rfl)⟩
  · rintro ⟨v, rfl⟩
    rfl

/-- A conversion is not taken for a failed walk. -/
theorem answerOf_found : (answerOf out e).1 ≠ .pathNotFound
    ∧ (answerOf out e).1 ≠ .indexOutOfRange := by
  cases e with
  | error status =>
      have := he status rfl
      constructor <;>
        (intro (h : status = _); rw [h] at this; exact absurd this (by decide))
  | ok v => exact ⟨nofun, nofun⟩

omit he in
/-- `ReadJsonBool` gives the flag as a number, and 0 if there is none. -/
theorem flagAnswer_iff {e : Except Status Bool} {b : Bool}
    (he : ∀ status, e = .error status → status ∈ conversionErrors) :
    ((answerOf false e).1,
        if (answerOf false e).1 = .ok && (answerOf false e).2 then
          (1 : Int32)
        else 0) = (.ok, if b then 1 else 0)
      ↔ e = .ok b := by
  cases e with
  | error status =>
      refine ⟨fun h => ?_, nofun⟩
      have hstatus : status = .ok := congrArg Prod.fst h
      rw [hstatus] at he
      exact absurd (he _ rfl) (by decide)
  | ok b' => cases b <;> cases b' <;> simp [answerOf]

omit he in
theorem answerOf_null_iff :
    (answerOf out e).1 = .nullValue ↔ e = .error .nullValue := by
  cases e with
  | error status => simp [answerOf]
  | ok v => simp [answerOf]

end Answers

-- ============================================================ the agreement

/-- The reads of one path of a held document, side by side: `value` is a
buffer with room for the text. -/
structure ReadsAgree (s : JsonDocumentStore F) (documentId : UInt32)
    (pathText value : CharBuffer) (document : JsonValue F) (path : Bytes) :
    Prop where
  /-- Where the walk fails, all five report its status. -/
  walk : ∀ status, resolvePath document (some path) = .error status →
    status ∈ walkErrors
      ∧ (readJsonValue s documentId pathText value).1 = status
      ∧ (readJsonLong s documentId pathText).1 = status
      ∧ (readJsonDouble s documentId pathText).1 = status
      ∧ (readJsonBool s documentId pathText).1 = status
      ∧ (countJsonElements s documentId pathText).1 = status
  /-- Where it does not, none reports a node that is not there. -/
  found : ∀ node, resolvePath document (some path) = .ok node →
    ∀ status ∈ [(readJsonValue s documentId pathText value).1,
        (readJsonLong s documentId pathText).1,
        (readJsonDouble s documentId pathText).1,
        (readJsonBool s documentId pathText).1,
        (countJsonElements s documentId pathText).1],
      status ≠ .pathNotFound ∧ status ≠ .indexOutOfRange
  bool : ∀ node, resolvePath document (some path) = .ok node → ∀ b : Bool,
    readJsonBool s documentId pathText = (.ok, if b then 1 else 0)
      ↔ readJsonValue s documentId pathText value
        = (.ok, value.store (boolText b ++ [0]), JsonEntryType.bool.toInt32)
  double : ∀ node, resolvePath document (some path) = .ok node →
    ((readJsonDouble s documentId pathText).1 = .ok
      ↔ (readJsonValue s documentId pathText value).1 = .ok
        ∧ (readJsonValue s documentId pathText value).2.2
          = JsonEntryType.number.toInt32)
  long : ∀ node, resolvePath document (some path) = .ok node →
    ∀ n, readJsonLong s documentId pathText = (.ok, n) →
      (readJsonValue s documentId pathText value).1 = .ok
        ∧ (readJsonValue s documentId pathText value).2.2
          = JsonEntryType.number.toInt32
        ∧ (node.value.isInteger = true →
          (readJsonValue s documentId pathText value).2.1
            = value.store (integerText n.toInt ++ [0]))
  null : ∀ node, resolvePath document (some path) = .ok node →
    ∀ status ∈ [(readJsonLong s documentId pathText).1,
        (readJsonDouble s documentId pathText).1,
        (readJsonBool s documentId pathText).1,
        (countJsonElements s documentId pathText).1],
      status = .nullValue
        ↔ (readJsonValue s documentId pathText value).1 = .ok
          ∧ (readJsonValue s documentId pathText value).2.2
            = JsonEntryType.null.toInt32
  count : ∀ node, resolvePath document (some path) = .ok node →
    ∀ n, countJsonElements s documentId pathText = (.ok, n) →
      (∀ i, (∃ element, resolvePath document
          (some (path ++ ch '/' :: decimal i)) = .ok element) ↔ i < n.toNat)
      ∧ (n = 0 ↔ (readJsonValue s documentId pathText value).1 = .ok
        ∧ (readJsonValue s documentId pathText value).2.2
          = JsonEntryType.emptyArray.toInt32)

theorem entryType_toInt32_injective {type type' : JsonEntryType}
    (h : type.toInt32 = type'.toInt32) : type = type' := by
  revert h
  cases type <;> cases type' <;> decide

theorem boolText_store_inj {value : CharBuffer} {b b' : Bool}
    (husable : value.unusable = false)
    (h : value.store (boolText b ++ [0]) = value.store (boolText b' ++ [0])) :
    b = b' := by
  obtain ⟨m, hm, -, -⟩ := CharBuffer.usable_mem husable
  have hmem := congrArg (fun v : CharBuffer => v.mem.bind List.head?) h
  simp only [CharBuffer.store_mem, hm, Option.map_some, Option.bind_some]
    at hmem
  cases b <;> cases b'
  · rfl
  · injection hmem with hmem
    exact absurd hmem (by decide)
  · injection hmem with hmem
    exact absurd hmem (by decide)
  · rfl

section Resolved

variable {value value' : CharBuffer} {u : JsonValue F} {type : JsonEntryType}

/-- What `ReadJsonValue` gives for a resolved node. -/
def leafAnswer (value : CharBuffer) (u : JsonValue F) :
    Status × CharBuffer × Int32 :=
  match describeLeaf u with
  | .error status => (status, value, 0)
  | .ok (text, type) => (.ok, value.store (text ++ [0]), type.toInt32)

theorem leafAnswer_type_iff :
    ((leafAnswer value u).1 = .ok
        ∧ (leafAnswer value u).2.2 = type.toInt32)
      ↔ u.leafType = some type := by
  unfold leafAnswer leafType
  cases hleaf : describeLeaf u with
  | error status =>
      rw [describeLeaf_error hleaf]
      simp
  | ok described =>
      simp only [true_and, Option.some.injEq]
      exact ⟨entryType_toInt32_injective, fun h => by rw [h]⟩

theorem leafAnswer_found : (leafAnswer value u).1 ≠ .pathNotFound
    ∧ (leafAnswer value u).1 ≠ .indexOutOfRange := by
  unfold leafAnswer
  cases hleaf : describeLeaf u with
  | error status =>
      rw [describeLeaf_error hleaf]
      exact ⟨nofun, nofun⟩
  | ok described => exact ⟨nofun, nofun⟩

theorem leafAnswer_bool_iff {b : Bool} (husable : value.unusable = false) :
    u.toBool = .ok b ↔ leafAnswer value u
      = (.ok, value.store (boolText b ++ [0]), JsonEntryType.bool.toInt32) := by
  constructor
  · intro h
    unfold leafAnswer
    rw [toBool_ok_iff.mp h]
  · intro h
    have htype : u.leafType = some .bool := by
      rw [← leafAnswer_type_iff, h]
      exact ⟨rfl, rfl⟩
    obtain ⟨b', hb'⟩ := toBool_of_leafType htype
    have hanswer : leafAnswer value u
        = (.ok, value.store (boolText b' ++ [0]),
          JsonEntryType.bool.toInt32) := by
      unfold leafAnswer
      rw [toBool_ok_iff.mp hb']
    rw [h, Prod.mk.injEq, Prod.mk.injEq] at hanswer
    rw [boolText_store_inj husable hanswer.2.1]
    exact hb'

/-- The elements of an array, counted: the count fits, and it is zero for
the empty array only. -/
theorem countElements_at {document : JsonValue F} {pos : List Nat}
    {tokens : PathTokens} {n : UInt32}
    (hreach : Rose.Reaches document pos tokens u)
    (hfew : leafCount document ≤ kMaxFlatEntries)
    (h : countElements u = .ok n) :
    ∃ elements, u = .array elements ∧ n.toNat = elements.length
      ∧ (n = 0 ↔ u.leafType = some .emptyArray) := by
  obtain ⟨elements, rfl, rfl⟩ := countElements_ok h
  have hlength : elements.length ≤ kMaxFlatEntries := by
    have hchildren := Rose.children_le_leaves (JsonValue.array elements)
    have hleaves := hreach.leaves_le
    have hmap : (Rose.children (JsonValue.array elements)).length
        = elements.length := List.length_mapIdx
    unfold leafCount at hfew
    omega
  have htoNat : (UInt32.ofNat elements.length).toNat = elements.length := by
    rw [UInt32.toNat_ofNat', Nat.mod_eq_of_lt]
    unfold kMaxFlatEntries at hlength
    omega
  refine ⟨elements, rfl, htoNat, ?_⟩
  cases elements with
  | nil => exact ⟨fun _ => rfl, fun _ => rfl⟩
  | cons v elements =>
      constructor
      · intro h0
        rw [h0] at htoNat
        cases htoNat
      · nofun

end Resolved

/-- The five path reads agree, over every document a store can hold and
every path that is syntactically one. -/
theorem path_reads_agree {parser : Parser F} (hlawful : parser.Lawful)
    {w : Nat} (hw : w = 32 ∨ w = 64)
    {h : List ((JsonCall × UInt64 × Bool) × JsonAnswer F)}
    (hr : (jsonMachine F (.wrapping w) parser).Reach h s)
    {documentId : UInt32} {i : Fin kJsonDocumentSlotCount}
    (hlive : s.findLiveSlotLocked documentId = some i)
    {pathText value : CharBuffer} {path : Bytes}
    (hpath : boundedText pathText = .ok path) {tokens : PathTokens}
    (htokens : parsePath (some path) = .ok tokens)
    (husable : value.unusable = false)
    (hroom : ∀ node text type,
      resolvePath (s.slots i).result.document (some path) = .ok node →
      describeLeaf node.value = .ok (text, type) →
      text.length < value.size.toNat) :
    ReadsAgree s documentId pathText value (s.slots i).result.document
      path := by
  have hoccupied : (s.slots i).occupied = true := by
    unfold JsonDocumentStore.findLiveSlotLocked at hlive
    split at hlive
    next => cases hlive
    next =>
      have := findFirst_some hlive
      simp only [Bool.and_eq_true] at this
      exact this.1
  obtain ⟨text, hflatten⟩ := held_reach hr i hoccupied
  obtain ⟨⟨hwf, -, -⟩, hfew⟩ := flattened_few_of_ok hlawful hw hflatten
  -- each read, as its conversion at the resolved node
  have hV := readJsonValue_live hlive hpath husable hroom
  have hL : readJsonLong s documentId pathText = _ :=
    readTypedAt_live hlive hpath 0 JsonValue.toLong
  have hD : readJsonDouble s documentId pathText = _ :=
    readTypedAt_live hlive hpath JsonDouble.zero JsonValue.toDouble
  have hF : readTypedAt s documentId pathText false readBoolAt = _ :=
    readTypedAt_live hlive hpath false JsonValue.toBool
  have hC : countJsonElements s documentId pathText = _ :=
    readTypedAt_live hlive hpath 0 countElements
  have hB : readJsonBool s documentId pathText
      = ((readTypedAt s documentId pathText false readBoolAt).1,
        if (readTypedAt s documentId pathText false readBoolAt).1 = .ok
            && (readTypedAt s documentId pathText false readBoolAt).2
        then 1 else 0) := rfl
  generalize (s.slots i).result.document = document at *
  have hwalk : ∀ status, resolvePath document (some path) = .error status →
      status ∈ walkErrors := by
    intro status herror
    unfold resolvePath at herror
    rw [htokens] at herror
    exact resolveTokens_error herror
  cases hres : resolvePath document (some path) with
  | error status =>
      rw [hres] at hV hL hD hF hC
      constructor
      case walk =>
        intro status' hstatus
        injection hres.symm.trans hstatus with heq
        subst heq
        rw [hB, hV, hL, hD, hF, hC]
        exact ⟨hwalk _ hres, rfl, rfl, rfl, rfl, rfl⟩
      all_goals
        intro node hnode
        cases hres.symm.trans hnode
  | ok node =>
  obtain ⟨pos, u⟩ := node
  rw [hres] at hV hL hD hF hC
  rw [hF] at hB
  change _ = leafAnswer value u at hV
  dsimp only at hL hD hB hC
  have hLerror : ∀ status, u.toLong = .error status →
      status ∈ conversionErrors := fun _ => toLong_error
  have hDerror : ∀ status, u.toDouble = .error status →
      status ∈ conversionErrors := fun _ => toDouble_error
  have hBerror : ∀ status, u.toBool = .error status →
      status ∈ conversionErrors := fun _ => toBool_error
  have hCerror : ∀ status, countElements u = .error status →
      status ∈ conversionErrors := fun _ => countElements_error
  constructor
  case walk =>
    intro status hstatus
    cases hres.symm.trans hstatus
  case found =>
    rintro - -
    rw [hV, hL, hD, hB, hC]
    simp only [List.forall_mem_cons, List.not_mem_nil, false_implies,
      implies_true, and_true]
    exact ⟨leafAnswer_found, answerOf_found hLerror, answerOf_found hDerror,
      answerOf_found hBerror, answerOf_found hCerror⟩
  case bool =>
    rintro - - b
    rw [hV, hB, flagAnswer_iff hBerror, leafAnswer_bool_iff husable]
  case double =>
    rintro - -
    rw [hV, hD, answerOf_ok_iff hDerror, toDouble_ok_iff, leafAnswer_type_iff]
  case long =>
    rintro node hnode n hn
    injection hres.symm.trans hnode with heq
    subst heq
    rw [hL, answerOf_eq_ok_iff hLerror] at hn
    obtain ⟨htype, htext⟩ := toLong_ok hn
    obtain ⟨hok, hnumber⟩ : (leafAnswer value u).1 = .ok
        ∧ (leafAnswer value u).2.2 = _ := leafAnswer_type_iff.mpr htype
    rw [hV]
    refine ⟨hok, hnumber, fun hinteger => ?_⟩
    unfold leafAnswer
    rw [htext hinteger]
  case null =>
    rintro - -
    rw [hV, hL, hD, hB, hC, leafAnswer_type_iff]
    obtain ⟨hlong, hdouble, hbool, hcount⟩ := nullValue_iff (u := u)
    simp only [List.forall_mem_cons, List.not_mem_nil, false_implies,
      implies_true, and_true, answerOf_null_iff]
    exact ⟨hlong, hdouble, hbool, hcount⟩
  case count =>
    rintro - - n hn
    rw [hC, answerOf_eq_ok_iff hCerror] at hn
    obtain ⟨tokens', -, hreach⟩ := (resolvePath_ok_iff hwf).mp hres
    obtain ⟨elements, rfl, htoNat, hzero⟩ := countElements_at hreach hfew hn
    constructor
    · intro i
      rw [htoNat]
      exact resolvePath_element_iff hwf htokens hres i
    · rw [hV, leafAnswer_type_iff]
      exact hzero

/-- `[true]`, parsed into a new store. -/
def flagText : Bytes := literal ['[', 't', 'r', 'u', 'e', ']']

def flagParser : Parser WholeDouble := .ofText flagText (.array [.boolean true])

def flagParsed :
    Option (JsonAnswer WholeDouble × JsonDocumentStore WholeDouble) :=
  (JsonCall.parse (.holding flagText)).run (.wrapping 32) flagParser .fresh 41
    false

theorem flagParsed_some : flagParsed.isSome = true := by decide +kernel

theorem path_reads_agree_flag :
    ReadsAgree (flagParsed.get flagParsed_some).2 41
      (.holding (literal ['/', '0'])) (.holding [0, 0, 0, 0])
      ((flagParsed.get flagParsed_some).2.slots ⟨0, by decide⟩).result.document
      (literal ['/', '0']) := by
  have hstep : (jsonMachine WholeDouble (.wrapping 32) flagParser).step .fresh
        (.parse (.holding flagText), 41, false)
      = some ((flagParsed.get flagParsed_some).1,
        (flagParsed.get flagParsed_some).2) :=
    (Option.some_get flagParsed_some).symm
  have hlawful : flagParser.Lawful := Parser.ofText_lawful (by decide)
  have htokens : parsePath (some (literal ['/', '0'])) = .ok [literal ['0']] := by
    decide
  refine path_reads_agree (w := 32) hlawful (Or.inl rfl)
    ⟨_, Or.inl rfl, .snoc (.nil _) hstep⟩
    (by decide +kernel) (by decide) htokens (by decide) ?_
  intro node text type hnode hleaf
  have hroom : (match resolvePath ((flagParsed.get flagParsed_some).2.slots
        ⟨0, by decide⟩).result.document (some (literal ['/', '0'])) with
      | .error _ => true
      | .ok node =>
          match describeLeaf node.value with
          | .error _ => true
          | .ok (text, _) => decide (text.length < 5)) = true := by
    decide +kernel
  rw [hnode] at hroom
  dsimp only at hroom
  rw [hleaf] at hroom
  exact of_decide_eq_true hroom

end RestifyCapl
