/-
The failure discipline of the JSON surface. Every call gives an answer;
one that is not `Ok` leaves the store as it was, its numeric
out-parameter 0, and its text buffers untouched or empty; one that is
`Ok` leaves each buffer holding its complete text.

Base layer: what one copy does to a buffer (`copyToBuffer_cases`,
`copyEntryTexts_cases`), and which errors the checks before a copy can
give. `BufferTooSmall` is none of these, so it tells a copy that failed
apart from a check that did.
-/
import RestifyCapl.Mapping.JsonCalls
import RestifyCapl.Mapping.Proofs.RoundTrip

namespace RestifyCapl

open Lib

-- ============================================================= the buffers

/-- Room for a text and its NUL. -/
def CharBuffer.HasRoom (b : CharBuffer) (text : Bytes) : Prop :=
  b.unusable = false ∧ text.length < b.size.toNat

/-- Nothing outside the buffer was written. -/
structure CharBuffer.WrittenWithin (before after : CharBuffer) : Prop where
  size : after.size = before.size
  unusable : after.unusable = before.unusable
  beyond : after.mem.map (List.drop before.size.toNat)
    = before.mem.map (List.drop before.size.toNat)

/-- The buffer holds the empty text, and nothing outside it was
written. -/
structure CharBuffer.Emptied (before after : CharBuffer) : Prop where
  usable : before.unusable = false
  within : before.WrittenWithin after
  first : after.mem.bind List.head? = some 0

namespace CharBuffer

theorem WrittenWithin.refl (b : CharBuffer) : b.WrittenWithin b :=
  ⟨rfl, rfl, rfl⟩

theorem WrittenWithin.trans {b₁ b₂ b₃ : CharBuffer} (h : b₁.WrittenWithin b₂)
    (h' : b₂.WrittenWithin b₃) : b₁.WrittenWithin b₃ where
  size := h'.size.trans h.size
  unusable := h'.unusable.trans h.unusable
  beyond := by rw [← h.beyond, ← h.size, h'.beyond]

/-- A longer write covers a shorter one. -/
theorem store_store {b : CharBuffer} {bytes bytes' : Bytes}
    (h : bytes.length ≤ bytes'.length) :
    (b.store bytes).store bytes' = b.store bytes' := by
  simp only [CharBuffer.store, Option.map_map, CharBuffer.mk.injEq, and_true]
  congr 1
  funext m
  show bytes' ++ List.drop _ (bytes ++ _) = _
  rw [List.drop_append, List.drop_of_length_le h, List.nil_append,
    List.drop_drop]
  congr 2
  omega

theorem WrittenWithin.store {before b : CharBuffer} {bytes : Bytes}
    (h : before.WrittenWithin b) (hfit : bytes.length ≤ before.size.toNat) :
    before.WrittenWithin (b.store bytes) where
  size := h.size
  unusable := by rw [store_unusable, h.unusable]
  beyond := by
    rw [store_mem, Option.map_map, ← h.beyond]
    congr 1
    funext m
    show List.drop _ (bytes ++ _) = _
    rw [List.drop_append, List.drop_of_length_le hfit, List.nil_append,
      List.drop_drop]
    congr 1
    omega

/-- Writing the empty text empties, whatever the buffer held before. -/
theorem WrittenWithin.emptied {before b : CharBuffer}
    (h : before.WrittenWithin b) (husable : before.unusable = false) :
    before.Emptied (b.store [0]) where
  usable := husable
  within := by
    obtain ⟨m, hm, hpos, hfit⟩ := usable_mem husable
    exact h.store hpos
  first := by
    obtain ⟨m, hm, hpos, hfit⟩ := usable_mem (h.unusable.trans husable)
    rw [store_mem, hm]
    rfl

end CharBuffer

open CharBuffer

/-- What a copy does: nothing, to a buffer it may not use; it empties one
without room, and fills one with room. -/
theorem copyToBuffer_cases (text : Bytes) (b : CharBuffer) :
    (b.unusable = true ∧ copyToBuffer text b = (.invalidArgument, b))
    ∨ (∃ b', copyToBuffer text b = (.bufferTooSmall, b') ∧ b.Emptied b')
    ∨ (b.HasRoom text ∧ copyToBuffer text b = (.ok, b.store (text ++ [0]))) := by
  cases husable : b.unusable with
  | true => exact Or.inl ⟨rfl, copyToBuffer_unusable husable⟩
  | false =>
      rcases Nat.lt_or_ge text.length b.size.toNat with hroom | hsmall
      · exact Or.inr (Or.inr ⟨⟨husable, hroom⟩, copyToBuffer_fits husable hroom⟩)
      · exact Or.inr (Or.inl ⟨_, copyToBuffer_small husable hsmall,
          (WrittenWithin.refl b).emptied husable⟩)

theorem copyToBuffer_within (text : Bytes) (b : CharBuffer) :
    b.WrittenWithin (copyToBuffer text b).2 := by
  rcases copyToBuffer_cases text b with ⟨-, h⟩ | ⟨b', h, hemptied⟩ | ⟨hroom, h⟩
  · rw [h]
    exact .refl b
  · rw [h]
    exact hemptied.within
  · rw [h]
    apply (WrittenWithin.refl b).store
    rw [List.length_append, List.length_singleton]
    exact hroom.2

/-- The two buffers of an entry are handled together: also the copy that
succeeded is taken back when the other fails. -/
theorem copyEntryTexts_cases (entry : FlatEntry) (key value : CharBuffer) :
    (copyEntryTexts entry key value = (.invalidArgument, key, value))
    ∨ (∃ key' value',
        copyEntryTexts entry key value = (.bufferTooSmall, key', value')
          ∧ key.Emptied key' ∧ value.Emptied value')
    ∨ (key.HasRoom entry.key ∧ value.HasRoom entry.value
        ∧ copyEntryTexts entry key value
          = (.ok, key.store (entry.key ++ [0]),
            value.store (entry.value ++ [0]))) := by
  unfold copyEntryTexts
  by_cases hunusable : (key.unusable || value.unusable) = true
  · exact Or.inl (if_pos hunusable)
  · rw [if_neg hunusable]
    right
    dsimp only
    simp only [Bool.or_eq_true, not_or, Bool.not_eq_true] at hunusable
    by_cases hboth : (copyToBuffer entry.key key).1 = .ok
        ∧ (copyToBuffer entry.value value).1 = .ok
    · right
      have hkey := copyToBuffer_ok_iff.mp hboth.1
      have hvalue := copyToBuffer_ok_iff.mp hboth.2
      refine ⟨hkey, hvalue, ?_⟩
      rw [if_pos hboth, copyToBuffer_fits hkey.1 hkey.2,
        copyToBuffer_fits hvalue.1 hvalue.2]
    · left
      rw [if_neg hboth]
      exact ⟨_, _, rfl,
        (copyToBuffer_within entry.key key).emptied hunusable.1,
        (copyToBuffer_within entry.value value).emptied hunusable.2⟩

-- ============================================================== the reads

variable {F : Type} [JsonDouble F] {s s' : JsonDocumentStore F}

theorem boundedText_error_cases {p : CharBuffer} {status : Status}
    (h : boundedText p = .error status) :
    status = .invalidArgument ∨ status = .unterminatedInputText := by
  unfold boundedText at h
  repeat' split at h
  all_goals
    cases h
    try simp

/-- What a read gives without writing a byte: not `Ok`, and not the
status of a text that does not fit. -/
def Refuses (status : Status) : Prop :=
  status ≠ .ok ∧ status ≠ .bufferTooSmall

theorem refuses_boundedText {p : CharBuffer} {status : Status}
    (h : boundedText p = .error status) : Refuses status := by
  rcases boundedText_error_cases h with rfl | rfl <;> exact ⟨nofun, nofun⟩

theorem refuses_walk {status : Status} (h : status ∈ walkErrors) :
    Refuses status := by
  simp only [walkErrors, List.mem_cons, List.not_mem_nil, or_false] at h
  rcases h with rfl | rfl | rfl <;> exact ⟨by decide, by decide⟩

omit [JsonDouble F] in
theorem refuses_path {document : JsonValue F} {path : StringView}
    {status : Status} (h : resolvePath document path = .error status) :
    Refuses status := by
  unfold resolvePath at h
  split at h
  next _ hpath =>
    cases h
    rcases parsePath_error hpath with rfl | rfl <;> exact ⟨nofun, nofun⟩
  next => exact refuses_walk (resolveTokens_error h)

omit [JsonDouble F] in
theorem readJsonEntry_cases (s : JsonDocumentStore F)
    (documentId entryIndex : UInt32) (key value : CharBuffer) :
    (∃ status, Refuses status
      ∧ readJsonEntry s documentId entryIndex key value
        = (status, key, value, 0))
    ∨ (∃ key' value', readJsonEntry s documentId entryIndex key value
          = (.bufferTooSmall, key', value', 0)
        ∧ key.Emptied key' ∧ value.Emptied value')
    ∨ (∃ i e, s.findLiveSlotLocked documentId = some i
        ∧ (s.slots i).result.entries[entryIndex.toNat]? = some e
        ∧ key.HasRoom e.key ∧ value.HasRoom e.value
        ∧ readJsonEntry s documentId entryIndex key value
          = (.ok, key.store (e.key ++ [0]), value.store (e.value ++ [0]),
            e.type.toInt32)) := by
  unfold readJsonEntry JsonDocumentStore.readEntry
    JsonDocumentStore.readEntryOf
  cases hfind : s.findLiveSlotLocked documentId with
  | none => exact Or.inl ⟨.unknownDocumentId, ⟨nofun, nofun⟩, rfl⟩
  | some i =>
      cases he : (s.slots i).result.entries[entryIndex.toNat]? with
      | none =>
          dsimp only
          rw [he]
          exact Or.inl ⟨.indexOutOfRange, ⟨nofun, nofun⟩, rfl⟩
      | some e =>
          dsimp only
          rw [he]
          dsimp only
          rcases copyEntryTexts_cases e key value with h |
            ⟨key', value', h, hkey, hvalue⟩ | ⟨hkey, hvalue, h⟩
          · rw [h]
            exact Or.inl ⟨.invalidArgument, ⟨nofun, nofun⟩, rfl⟩
          · rw [h]
            exact Or.inr (Or.inl ⟨key', value', rfl, hkey, hvalue⟩)
          · rw [h]
            exact Or.inr (Or.inr ⟨i, e, rfl, he, hkey, hvalue, rfl⟩)

theorem readJsonValue_cases (s : JsonDocumentStore F) (documentId : UInt32)
    (pathText value : CharBuffer) :
    (∃ status, Refuses status
      ∧ readJsonValue s documentId pathText value = (status, value, 0))
    ∨ (∃ value', readJsonValue s documentId pathText value
          = (.bufferTooSmall, value', 0)
        ∧ value.Emptied value')
    ∨ (∃ path i node text type, boundedText pathText = .ok path
        ∧ s.findLiveSlotLocked documentId = some i
        ∧ resolvePath (s.slots i).result.document (some path) = .ok node
        ∧ describeLeaf node.value = .ok (text, type)
        ∧ value.HasRoom text
        ∧ readJsonValue s documentId pathText value
          = (.ok, value.store (text ++ [0]), type.toInt32)) := by
  unfold readJsonValue JsonDocumentStore.readValue
    JsonDocumentStore.readValueOf
  cases hpath : boundedText pathText with
  | error status => exact Or.inl ⟨status, refuses_boundedText hpath, rfl⟩
  | ok path =>
  cases hfind : s.findLiveSlotLocked documentId with
  | none => exact Or.inl ⟨.unknownDocumentId, ⟨nofun, nofun⟩, rfl⟩
  | some i =>
  dsimp only
  cases hnode : resolvePath (s.slots i).result.document (some path) with
  | error status => exact Or.inl ⟨status, refuses_path hnode, rfl⟩
  | ok node =>
  dsimp only
  cases hleaf : describeLeaf node.value with
  | error status =>
      rw [describeLeaf_error hleaf]
      exact Or.inl ⟨.typeMismatch, ⟨nofun, nofun⟩, rfl⟩
  | ok described =>
  obtain ⟨text, type⟩ := described
  dsimp only
  rcases copyToBuffer_cases text value with ⟨-, h⟩ | ⟨value', h, hvalue⟩ |
    ⟨hvalue, h⟩
  · rw [h]
    exact Or.inl ⟨.invalidArgument, ⟨nofun, nofun⟩, rfl⟩
  · rw [h]
    exact Or.inr (Or.inl ⟨value', rfl, hvalue⟩)
  · rw [h]
    exact Or.inr (Or.inr
      ⟨path, i, node, text, type, rfl, rfl, hnode, hleaf, hvalue, rfl⟩)

omit [JsonDouble F] in
/-- A typed read leaves its out-parameter at what it was on entry. -/
theorem readTypedAt_failed {Out : Type} {documentId : UInt32}
    {pathText : CharBuffer} {out : Out}
    {read : JsonValue F → PathTokens → Except Status Out}
    (h : (readTypedAt s documentId pathText out read).1 ≠ .ok) :
    (readTypedAt s documentId pathText out read).2 = out := by
  unfold readTypedAt JsonDocumentStore.readWithTokens at h ⊢
  cases hpath : boundedText pathText with
  | error status => rfl
  | ok path =>
  rw [hpath] at h
  dsimp only at h ⊢
  cases htokens : parsePath (some path) with
  | error status => rfl
  | ok tokens =>
  rw [htokens] at h
  dsimp only at h ⊢
  cases hfind : s.findLiveSlotLocked documentId with
  | none => rfl
  | some i =>
  rw [hfind] at h
  dsimp only at h ⊢
  cases hread : read (s.slots i).result.document tokens with
  | error status => rfl
  | ok value =>
      rw [hread] at h
      exact absurd rfl h

omit [JsonDouble F] in
theorem readJsonBool_failed {documentId : UInt32} {pathText : CharBuffer}
    (h : (readJsonBool s documentId pathText).1 ≠ .ok) :
    (readJsonBool s documentId pathText).2 = 0 := by
  have hflag : (readTypedAt s documentId pathText false readBoolAt).2
      = false := readTypedAt_failed h
  unfold readJsonBool
  dsimp only
  rw [hflag, Bool.and_false]
  rfl

omit [JsonDouble F] in
theorem normalizeJsonText_cases (parser : Parser F)
    (jsonText normalized : CharBuffer) :
    (∃ status, status ≠ .ok
      ∧ (status = .invalidArgument ∨ normalized.unusable = true)
      ∧ normalizeJsonText parser jsonText normalized = (status, normalized))
    ∨ (∃ status normalized', status ≠ .ok ∧ status ≠ .invalidArgument
        ∧ normalizeJsonText parser jsonText normalized
          = (status, normalized')
        ∧ normalized.Emptied normalized')
    ∨ (∃ text converted, boundedText jsonText = .ok text
        ∧ convertApostropheStrings text = .ok converted
        ∧ normalized.HasRoom converted
        ∧ normalizeJsonText parser jsonText normalized
          = (.ok, normalized.store (converted ++ [0]))) := by
  unfold normalizeJsonText
  have hcleared : normalized.unusable = false →
      normalized.Emptied (normalized.store [0]) :=
    (WrittenWithin.refl normalized).emptied
  cases htext : boundedText jsonText with
  | error status =>
      dsimp only
      cases husable : normalized.unusable with
      | true =>
          simp only [Bool.not_true, Bool.and_false, Bool.false_eq_true,
            if_false]
          exact Or.inl ⟨status, (refuses_boundedText htext).1, Or.inr trivial,
            rfl⟩
      | false =>
          rcases boundedText_error_cases htext with rfl | rfl
          · exact Or.inl ⟨.invalidArgument, nofun, Or.inl rfl, rfl⟩
          · exact Or.inr (Or.inl ⟨.unterminatedInputText, _, nofun, nofun, rfl,
              hcleared husable⟩)
  | ok text =>
  dsimp only
  cases husable : normalized.unusable with
  | true => exact Or.inl ⟨.invalidArgument, nofun, Or.inl rfl, rfl⟩
  | false =>
  simp only [Bool.false_eq_true, if_false]
  by_cases hlarge : text.length > kMaxJsonInputBytes
  · rw [if_pos hlarge]
    exact Or.inr (Or.inl ⟨.documentTooLarge, _, nofun, nofun, rfl,
      hcleared husable⟩)
  · rw [if_neg hlarge]
    by_cases hempty : text.isEmpty = true
    · rw [if_pos hempty]
      exact Or.inr (Or.inl ⟨.parseError, _, nofun, nofun, rfl,
        hcleared husable⟩)
    · rw [if_neg hempty]
      simp only [convertApostropheStrings]
      by_cases haccept : (!parser.accept (convertFrom .outside text)) = true
      · rw [if_pos haccept]
        exact Or.inr (Or.inl ⟨.parseError, _, nofun, nofun, rfl,
          hcleared husable⟩)
      · rw [if_neg haccept]
        -- the buffer was cleared first, which a copy does again
        have hagain : ∀ {b'}, (normalized.store [0]).Emptied b' →
            normalized.Emptied b' := fun h =>
          ⟨husable, (hcleared husable).within.trans h.within, h.first⟩
        rcases copyToBuffer_cases (convertFrom .outside text)
          (normalized.store [0]) with ⟨hno, -⟩ | ⟨b', h, hb'⟩ | ⟨hroom, h⟩
        · rw [store_unusable, husable] at hno
          cases hno
        · rw [h]
          exact Or.inr (Or.inl ⟨.bufferTooSmall, b', nofun, nofun, rfl,
            hagain hb'⟩)
        · have hroom : normalized.HasRoom (convertFrom .outside text) :=
            ⟨husable, hroom.2⟩
          refine Or.inr (Or.inr ⟨text, _, rfl, rfl, hroom, ?_⟩)
          rw [h]
          congr 1
          exact store_store (by simp)

-- ============================================================== the parse

theorem flattenConverted_total {parser : Parser F} (horderly : parser.Orderly)
    {w : Nat} (hw : 32 ≤ w) {text : Bytes}
    (hlen : text.length ≤ maxConvertedBytes) :
    ∃ r, flattenConverted (.wrapping w) parser text = some r := by
  obtain ⟨raw, rest, hraw⟩ := horderly.begins text
  have hnested : Nested LimitCheckingSax.init.depth (parser.events text) := by
    have hall : Nested LimitCheckingSax.init.depth
        (parser.events text ++ rest) := by
      rw [hraw, ← List.append_nil raw.saxEvents]
      exact nested_saxEvents raw _ trivial
    exact hall.left
  have hbytes := horderly.bytes text
  obtain ⟨⟨fed, sax⟩, hfed⟩ := LimitCheckingSax.feed_defined hw
    LimitCheckingSax.counted_init hnested
    (LimitCheckingSax.fits_converted hw (by omega))
  have hfed := LimitCheckingSax.feed_below w _ _ _ hfed
  unfold flattenConverted saxParse
  rw [hfed]
  dsimp only
  repeat' split
  all_goals first
    | exact ⟨_, rfl⟩
    | contradiction

theorem flattenJson_total {parser : Parser F} (horderly : parser.Orderly)
    {w : Nat} (hw : 32 ≤ w) (text : Bytes) :
    ∃ r, flattenJson (.wrapping w) parser text = some r := by
  unfold flattenJson
  split
  next => exact ⟨_, rfl⟩
  next hsmall =>
  split
  next => exact ⟨_, rfl⟩
  next =>
  split
  next => exact ⟨_, rfl⟩
  next =>
  split
  next =>
    apply flattenConverted_total horderly hw
    have := convert_length_le text
    unfold maxConvertedBytes
    omega
  next =>
    apply flattenConverted_total horderly hw
    unfold maxConvertedBytes
    omega

theorem parseJsonDocument_total {parser : Parser F}
    (horderly : parser.Orderly) {w : Nat} (hw : 32 ≤ w)
    (s : JsonDocumentStore F) (jsonText : CharBuffer) (ticks : UInt64) :
    ∃ status documentId s',
      parseJsonDocument (.wrapping w) parser s jsonText ticks
        = some (status, documentId, s')
      ∧ (status ≠ .ok → documentId = 0 ∧ s' = s) := by
  unfold parseJsonDocument
  cases htext : boundedText jsonText with
  | error status => exact ⟨_, _, _, rfl, fun _ => ⟨rfl, rfl⟩⟩
  | ok text =>
      dsimp only
      obtain ⟨flattened, hflatten⟩ := flattenJson_total horderly hw text
      rw [hflatten]
      cases flattened with
      | error status => exact ⟨_, _, _, rfl, fun _ => ⟨rfl, rfl⟩⟩
      | ok result =>
          dsimp only
          obtain ⟨⟨r, s'⟩, hinsert⟩ :=
            JsonDocumentStore.insert_total s result ticks
          rw [hinsert]
          refine ⟨_, _, _, rfl, ?_⟩
          rcases JsonDocumentStore.insert_cases hinsert with ⟨-, rfl, rfl⟩ |
            ⟨_, _, _, _, _, rfl, _⟩
          · exact fun _ => ⟨rfl, rfl⟩
          · exact fun hne => absurd rfl hne

-- ========================================================= the discipline

/-- The texts a call is asked for. -/
inductive JsonCall.Delivers (s : JsonDocumentStore F) :
    JsonCall → List Bytes → Prop where
  | entry {documentId entryIndex : UInt32} {key value : CharBuffer}
      {i : Fin kJsonDocumentSlotCount} {e : FlatEntry}
      (live : s.findLiveSlotLocked documentId = some i)
      (held : (s.slots i).result.entries[entryIndex.toNat]? = some e) :
      Delivers s (.readEntry documentId entryIndex key value) [e.key, e.value]
  | value {documentId : UInt32} {pathText value : CharBuffer} {path : Bytes}
      {i : Fin kJsonDocumentSlotCount} {node : Node F} {text : Bytes}
      {type : JsonEntryType}
      (hpath : boundedText pathText = .ok path)
      (live : s.findLiveSlotLocked documentId = some i)
      (resolves :
        resolvePath (s.slots i).result.document (some path) = .ok node)
      (leaf : describeLeaf node.value = .ok (text, type)) :
      Delivers s (.readValue documentId pathText value) [text]
  | normalized {jsonText normalized : CharBuffer} {text converted : Bytes}
      (htext : boundedText jsonText = .ok text)
      (converts : convertApostropheStrings text = .ok converted) :
      Delivers s (.normalize jsonText normalized) [converted]
  | nothing {call : JsonCall} (h : call.buffers = []) : Delivers s call []

/-- A failure with this status empties the buffers of the call. -/
def JsonCall.Empties (status : Status) : JsonCall → Prop
  | .normalize _ normalized =>
      status ≠ .invalidArgument ∧ normalized.unusable = false
  | _ => status = .bufferTooSmall

/-- What a call promises about its answer and the store after it. -/
structure Disciplined (s : JsonDocumentStore F) (call : JsonCall)
    (answer : JsonAnswer F) (s' : JsonDocumentStore F) : Prop where
  store : answer.status ≠ .ok → s' = s
  number : answer.status ≠ .ok → answer.number.IsZero
  untouched : answer.status ≠ .ok → ¬ call.Empties answer.status →
    answer.buffers = call.buffers
  emptied : answer.status ≠ .ok → call.Empties answer.status →
    List.Forall₂ Emptied call.buffers answer.buffers
  delivered : answer.status = .ok → ∃ texts, call.Delivers s texts
    ∧ List.Forall₂ HasRoom call.buffers texts
    ∧ answer.buffers
      = List.zipWith (fun b text => b.store (text ++ [0])) call.buffers texts

/-- Without buffers only the store and the number are at stake. -/
theorem Disciplined.numeric {call : JsonCall} {answer : JsonAnswer F}
    (hcall : call.buffers = []) (hanswer : answer.buffers = [])
    (h : answer.status ≠ .ok → s' = s ∧ answer.number.IsZero) :
    Disciplined s call answer s' where
  store hne := (h hne).1
  number hne := (h hne).2
  untouched _ _ := by rw [hanswer, hcall]
  emptied _ _ := by
    rw [hanswer, hcall]
    exact .nil
  delivered _ := by
    refine ⟨[], .nothing hcall, ?_, ?_⟩
    · rw [hcall]
      exact .nil
    · rw [hanswer, hcall]
      rfl

/-- A call that stopped before it wrote. -/
theorem Disciplined.stopped {call : JsonCall} {status : Status}
    {number : OutNumber F} (hne : status ≠ .ok)
    (hempties : ¬ call.Empties status) (hzero : number.IsZero) :
    Disciplined s call ⟨status, number, call.buffers⟩ s where
  store _ := rfl
  number _ := hzero
  untouched _ _ := rfl
  emptied _ h := absurd h hempties
  delivered h := absurd h hne

/-- A call that emptied its buffers. -/
theorem Disciplined.cleared {call : JsonCall} {status : Status}
    {number : OutNumber F} {buffers : List CharBuffer} (hne : status ≠ .ok)
    (hempties : call.Empties status) (hzero : number.IsZero)
    (hbuffers : List.Forall₂ Emptied call.buffers buffers) :
    Disciplined s call ⟨status, number, buffers⟩ s where
  store _ := rfl
  number _ := hzero
  untouched _ h := absurd hempties h
  emptied _ _ := hbuffers
  delivered h := absurd h hne

/-- A call that delivered its texts. -/
theorem Disciplined.answered {call : JsonCall} {number : OutNumber F}
    {texts : List Bytes} (hdelivers : call.Delivers s texts)
    (hroom : List.Forall₂ HasRoom call.buffers texts) :
    Disciplined s call ⟨.ok, number, List.zipWith
      (fun b text => b.store (text ++ [0])) call.buffers texts⟩ s where
  store h := absurd rfl h
  number h := absurd rfl h
  untouched h := absurd rfl h
  emptied h := absurd rfl h
  delivered _ := ⟨texts, hdelivers, hroom, rfl⟩

theorem disciplined_caught (s : JsonDocumentStore F) (call : JsonCall) :
    Disciplined s call call.caught s := by
  cases call with
  | normalize jsonText normalized =>
      cases husable : normalized.unusable with
      | true =>
          have hcaught : (JsonCall.normalize jsonText normalized).caught (F := F)
              = ⟨.internalError, .none, [normalized]⟩ := by
            simp [JsonCall.caught, JsonCall.entryNumber, husable]
          rw [hcaught]
          refine .stopped nofun (fun h => ?_) trivial
          rw [h.2] at husable
          cases husable
      | false =>
          have hcaught : (JsonCall.normalize jsonText normalized).caught (F := F)
              = ⟨.internalError, .none, [normalized.store [0]]⟩ := by
            simp [JsonCall.caught, JsonCall.entryNumber, husable]
          rw [hcaught]
          exact .cleared nofun ⟨nofun, husable⟩ trivial
            (.cons ((WrittenWithin.refl _).emptied husable) .nil)
  | readEntry => exact .stopped nofun nofun rfl
  | readValue => exact .stopped nofun nofun rfl
  | _ => exact .numeric rfl rfl fun _ => ⟨rfl, by first | rfl | trivial⟩

theorem disciplined_complete {parser : Parser F} (horderly : parser.Orderly)
    {w : Nat} (hw : 32 ≤ w) (s : JsonDocumentStore F) (ticks : UInt64)
    (call : JsonCall) :
    ∃ answer s', call.complete (.wrapping w) parser s ticks
        = some (answer, s')
      ∧ Disciplined s call answer s' := by
  cases call with
  | parse jsonText =>
      obtain ⟨status, documentId, s', h, hfailed⟩ :=
        parseJsonDocument_total horderly hw s jsonText ticks
      refine ⟨⟨status, .dword documentId, []⟩, s', ?_, ?_⟩
      · simp only [JsonCall.complete, h]
      · exact .numeric rfl rfl fun hne => (hfailed hne).symm
  | count documentId =>
      dsimp only [JsonCall.complete, countJsonEntries,
        JsonDocumentStore.count]
      cases s.findLiveSlotLocked documentId with
      | none => exact ⟨_, _, rfl, .numeric rfl rfl fun _ => ⟨rfl, rfl⟩⟩
      | some i => exact ⟨_, _, rfl, .numeric rfl rfl fun hne => absurd rfl hne⟩
  | readEntry documentId entryIndex key value =>
      dsimp only [JsonCall.complete]
      rcases readJsonEntry_cases s documentId entryIndex key value with
        ⟨status, hrefuses, h⟩ | ⟨key', value', h, hkey, hvalue⟩ |
        ⟨i, e, hlive, he, hkey, hvalue, h⟩
      · rw [h]
        exact ⟨_, _, rfl, .stopped hrefuses.1 hrefuses.2 rfl⟩
      · rw [h]
        exact ⟨_, _, rfl,
          .cleared nofun rfl rfl (.cons hkey (.cons hvalue .nil))⟩
      · rw [h]
        exact ⟨_, _, rfl,
          .answered (.entry hlive he) (.cons hkey (.cons hvalue .nil))⟩
  | readValue documentId pathText value =>
      dsimp only [JsonCall.complete]
      rcases readJsonValue_cases s documentId pathText value with
        ⟨status, hrefuses, h⟩ | ⟨value', h, hvalue⟩ |
        ⟨path, i, node, text, type, hpath, hlive, hnode, hleaf, hroom, h⟩
      · rw [h]
        exact ⟨_, _, rfl, .stopped hrefuses.1 hrefuses.2 rfl⟩
      · rw [h]
        exact ⟨_, _, rfl, .cleared nofun rfl rfl (.cons hvalue .nil)⟩
      · rw [h]
        exact ⟨_, _, rfl,
          .answered (.value hpath hlive hnode hleaf) (.cons hroom .nil)⟩
  | readLong documentId pathText =>
      exact ⟨_, _, rfl, .numeric rfl rfl fun hne =>
        ⟨rfl, readTypedAt_failed hne⟩⟩
  | readDouble documentId pathText =>
      exact ⟨_, _, rfl, .numeric rfl rfl fun hne =>
        ⟨rfl, readTypedAt_failed hne⟩⟩
  | readBool documentId pathText =>
      exact ⟨_, _, rfl, .numeric rfl rfl fun hne =>
        ⟨rfl, readJsonBool_failed hne⟩⟩
  | countElements documentId pathText =>
      exact ⟨_, _, rfl, .numeric rfl rfl fun hne =>
        ⟨rfl, readTypedAt_failed hne⟩⟩
  | discard documentId =>
      dsimp only [JsonCall.complete, discardJsonDocument,
        JsonDocumentStore.discard]
      cases s.findLiveSlotLocked documentId with
      | none => exact ⟨_, _, rfl, .numeric rfl rfl fun _ => ⟨rfl, trivial⟩⟩
      | some i => exact ⟨_, _, rfl, .numeric rfl rfl fun hne => absurd rfl hne⟩
  | discardAll =>
      exact ⟨_, _, rfl, .numeric rfl rfl fun hne => absurd rfl hne⟩
  | normalize jsonText normalized =>
      dsimp only [JsonCall.complete]
      rcases normalizeJsonText_cases parser jsonText normalized with
        ⟨status, hne, hstays, h⟩ | ⟨status, normalized', hne, hvalid, h, hb⟩ |
        ⟨text, converted, htext, hconverts, hroom, h⟩
      · rw [h]
        refine ⟨_, _, rfl, .stopped hne ?_ trivial⟩
        rintro ⟨hvalid, husable⟩
        rcases hstays with hstatus | hunusable
        · exact hvalid hstatus
        · rw [husable] at hunusable
          cases hunusable
      · rw [h]
        exact ⟨_, _, rfl,
          .cleared hne ⟨hvalid, hb.usable⟩ trivial (.cons hb .nil)⟩
      · rw [h]
        exact ⟨_, _, rfl,
          .answered (.normalized htext hconverts) (.cons hroom .nil)⟩

/-- The failure discipline of the JSON surface, of every call on every
store, whether it throws or not: it gives an answer, and the answer is
disciplined. -/
theorem json_failure_discipline {parser : Parser F}
    (horderly : parser.Orderly) {w : Nat} (hw : w = 32 ∨ w = 64)
    (s : JsonDocumentStore F) (ticks : UInt64) (threw : Bool)
    (call : JsonCall) :
    ∃ answer s', call.run (.wrapping w) parser s ticks threw
        = some (answer, s')
      ∧ Disciplined s call answer s' := by
  cases threw with
  | true => exact ⟨_, _, rfl, disciplined_caught s call⟩
  | false => exact disciplined_complete horderly (by omega) s ticks call

/-- `[1]` does not fit into three bytes. -/
theorem json_failure_discipline_small :
    ∃ answer s', (JsonCall.normalize (.holding (literal ['[', '1', ']']))
          (.holding [0, 0])).run (.wrapping 32)
        (.ofText (literal ['[', '1', ']']) (.array [.numberUnsigned 1]))
        (.fresh : JsonDocumentStore WholeDouble) 41 false
        = some (answer, s')
      ∧ Disciplined .fresh (.normalize (.holding (literal ['[', '1', ']']))
        (.holding [0, 0])) answer s' :=
  json_failure_discipline (Parser.ofText_orderly (by decide))
    (Or.inl rfl) .fresh 41 false _

end RestifyCapl
