/-
The key of an entry, read through a buffer, is a path to its value. What
`FlattenJson` returns can be addressed throughout (`Flattened`): its keys
hold no NUL, so `BoundedText` reads back what `CopyToBuffer` wrote, and
its document is well-formed, so the key resolves to the entry's node. A
held document does not change, whatever else the store does.
-/
import RestifyCapl.Mapping.Proofs.Correspondence
import RestifyCapl.Mapping.Proofs.Limits
import RestifyCapl.Mapping.Proofs.Normalize
import RestifyCapl.Mapping.Proofs.Reissue

namespace RestifyCapl

open Lib
open Lib.Rose

variable {F ρ : Type} [JsonFloat F]

-- ================================================== what flattening returns

/-- A document with its entries, all of whose keys are C text. -/
structure Flattened (r : FlattenResult F) : Prop where
  wellFormed : r.document.WellFormed
  plain : PlainKeys r.document
  entries : r.entries = leafEntries r.document

omit [JsonFloat F] in
theorem plainKeys_collapse {v : JsonValue F} (h : PlainKeys v) :
    PlainKeys v.collapse := by
  intro pos labels u hr
  obtain ⟨pos', u', hr', -⟩ := JsonValue.reaches_collapse hr
  exact h pos' labels u' hr'

omit [JsonFloat F] in
/-- With few leaves no array is too long to index. -/
theorem wellFormed_collapse {v : JsonValue F}
    (h : leafCount v ≤ kMaxFlatEntries) : v.collapse.WellFormed where
  keys pos path members hr := v.collapse_distinct pos path _ hr
  indices pos path elements hr := by
    have hchildren := children_le_leaves (JsonValue.array elements)
    have hleaves := hr.leaves_le
    have hcollapse := leafCount_collapse v
    have hlength : (children (JsonValue.array elements)).length
        = elements.length := List.length_mapIdx
    unfold leafCount at hcollapse h
    calc elements.length
        ≤ kMaxFlatEntries := by omega
      _ ≤ 2 ^ 32 := by decide

/-- What `FlattenJson` returns, with the machine's own arithmetic. -/
theorem flattened_few_of_ok {parser : Parser F} (hlawful : parser.Lawful)
    {w : Nat} (hw : w = 32 ∨ w = 64) {text : Bytes} {r : FlattenResult F}
    (h : flattenJson (SizeArith.wrapping w) parser text = some (.ok r)) :
    Flattened r ∧ leafCount r.document ≤ kMaxFlatEntries := by
  obtain ⟨hlen, -, -, hcomplete, hparse, hflatten, sax, hfeed⟩ :=
    flattenJson_ok h
  obtain ⟨raw, hevents, hbytes, htree⟩ := hlawful.tree _ hcomplete
  rw [htree, Option.some.injEq] at hparse
  -- the scan did not wrap, so it is a checked one
  have hsize : eventBytes raw.saxEvents ≤ maxConvertedBytes := by
    have := convert_length_le text
    unfold maxConvertedBytes
    omega
  obtain ⟨fed, hchecked, hwrapping⟩ :=
    feed_prefix (by omega : 32 ≤ w) hsize (List.prefix_refl _)
  rw [hevents, hwrapping] at hfeed
  rw [hfeed] at hchecked
  obtain ⟨hwithin, hcount, -, -, hplain⟩ := feed_tree hchecked
  have hfew := hwithin.entries
  constructor
  · constructor
    case wellFormed =>
      rw [← hparse]
      exact wellFormed_collapse (by omega)
    case plain =>
      rw [← hparse]
      exact plainKeys_collapse hplain
    case entries =>
      rw [flattenDocument_eq] at hflatten
      injection hflatten with hflatten
      exact hflatten.symm
  · have hcollapse := leafCount_collapse raw
    rw [← hparse]
    omega

theorem flattened_of_ok {parser : Parser F} (hlawful : parser.Lawful)
    {w : Nat} (hw : w = 32 ∨ w = 64) {text : Bytes} {r : FlattenResult F}
    (h : flattenJson (SizeArith.wrapping w) parser text = some (.ok r)) :
    Flattened r :=
  (flattened_few_of_ok hlawful hw h).1

theorem flattenConverted_error (size : SizeArith) (parser : Parser F)
    (text : Bytes) : flattenConverted size parser text ≠ some (.error .ok) := by
  intro h
  unfold flattenConverted saxParse at h
  have hfailing := LimitCheckingSax.feed_failing size
    (s := LimitCheckingSax.init) nofun (parser.events text)
  cases hfeed : LimitCheckingSax.init.feed size (parser.events text) with
  | none =>
      rw [hfeed] at h
      cases h
  | some r =>
      rw [hfeed] at h
      dsimp only at h
      split at h
      next => cases h
      next sax hsax =>
        injection hsax with hsax
        rw [Prod.mk.injEq] at hsax
        have hstatus : r.2.Failing := hfailing _ hfeed
        rw [hsax.2] at hstatus
        injection h with h
        injection h with h
        exact hstatus h
      next =>
        split at h
        next => cases h
        next document _ =>
          rw [flattenDocument_eq] at h
          cases h

/-- What `FlattenJson` fails with is an error. -/
theorem flattenJson_error (size : SizeArith) (parser : Parser F)
    (text : Bytes) : flattenJson size parser text ≠ some (.error .ok) := by
  intro h
  unfold flattenJson convertApostropheStrings at h
  split at h
  next => cases h
  next =>
  split at h
  next => cases h
  next =>
  split at h
  next => cases h
  next =>
  split at h
  next => exact flattenConverted_error _ _ _ h
  next => exact flattenConverted_error _ _ _ h

omit [JsonFloat F] in
/-- The text of labels without NUL has none. -/
theorem nul_not_mem_pointerText {labels : List Bytes}
    (h : ∀ l ∈ labels, 0 ∉ l) : 0 ∉ pointerText labels := by
  unfold pointerText
  rw [List.mem_flatMap]
  intro ⟨l, hl, hmem⟩
  rcases List.mem_cons.mp hmem with h0 | hmem
  · exact absurd h0 (by decide)
  · unfold escapeToken at hmem
    rw [List.mem_flatMap] at hmem
    obtain ⟨c, hc, hmem⟩ := hmem
    have hc0 : c ≠ 0 := fun h0 => h l hl (h0 ▸ hc)
    unfold escapeByte at hmem
    split at hmem
    · exact absurd hmem (by decide)
    · split at hmem
      · exact absurd hmem (by decide)
      · rw [List.mem_singleton] at hmem
        exact hc0 hmem.symm

/-- An entry's key is C text that resolves to what the entry describes. -/
theorem Flattened.entry {r : FlattenResult F} (hr : Flattened r)
    {e : FlatEntry} (he : e ∈ r.entries) :
    0 ∉ e.key ∧ ∃ pos u, resolvePath r.document (some e.key) = .ok ⟨pos, u⟩
      ∧ describeLeaf u = .ok (e.value, e.type) := by
  rw [hr.entries] at he
  obtain ⟨pos, labels, u, hreach, -, hkey⟩ := mem_leafEntries.mp he
  have hkey : e.key = pointerText labels := by
    rw [hkey]
    exact entryAt_key ..
  have hres : resolvePath r.document (some e.key) = .ok ⟨pos, u⟩ := by
    apply (resolvePath_ok_iff hr.wellFormed).mpr
    exact ⟨labels, by rw [hkey], hreach⟩
  refine ⟨?_, pos, u, hres, ?_⟩
  · rw [hkey]
    exact nul_not_mem_pointerText (hr.plain pos labels u hreach)
  · exact (entry_describes hr.wellFormed hres he rfl).2

-- ============================================================== the reads

theorem boundedText_error (p : CharBuffer) : boundedText p ≠ .error .ok := by
  intro h
  unfold boundedText at h
  split at h
  · cases h
  · split at h
    · cases h
    · split at h <;> cases h

omit [JsonFloat F] in
/-- Copying an entry out succeeds in one way. -/
theorem copyEntryTexts_ok {e : FlatEntry} {key value : CharBuffer}
    (h : (copyEntryTexts e key value).1 = .ok) :
    (key.unusable = false ∧ e.key.length < key.size.toNat)
      ∧ copyEntryTexts e key value
        = (.ok, key.store (e.key ++ [0]), value.store (e.value ++ [0])) := by
  unfold copyEntryTexts at h ⊢
  split at h
  next => cases h
  next husable =>
    rw [if_neg husable]
    dsimp only at h ⊢
    split at h
    next hboth =>
      obtain ⟨hkey, hkeySize⟩ := copyToBuffer_ok_iff.mp hboth.1
      obtain ⟨hvalue, hvalueSize⟩ := copyToBuffer_ok_iff.mp hboth.2
      rw [if_pos hboth, copyToBuffer_fits hkey hkeySize,
        copyToBuffer_fits hvalue hvalueSize]
      exact ⟨⟨hkey, hkeySize⟩, rfl⟩
    next => cases h

namespace JsonDocumentStore

variable {s s' : JsonDocumentStore F} {t : DocumentMap F} {id : UInt32}
variable {r : FlattenResult F}

omit [JsonFloat F] in
/-- `ReadJsonEntry` of a held document succeeds in one way. -/
theorem readJsonEntry_ok (hs : Represents s t)
    (hlookup : t.documents.lookup id = some r) {index : UInt32}
    {key value : CharBuffer}
    (h : (readJsonEntry s id index key value).1 = .ok) :
    ∃ e ∈ r.entries, r.entries[index.toNat]? = some e
      ∧ (key.unusable = false ∧ e.key.length < key.size.toNat)
      ∧ readJsonEntry s id index key value
        = (.ok, key.store (e.key ++ [0]), value.store (e.value ++ [0]),
          e.type.toInt32) := by
  obtain ⟨i, hfind, -, -, rfl⟩ := hs.find_some hlookup
  unfold readJsonEntry readEntry readEntryOf at h ⊢
  rw [hfind] at h ⊢
  dsimp only at h ⊢
  cases he : (s.slots i).result.entries[index.toNat]? with
  | none =>
      rw [he] at h
      cases h
  | some e =>
      rw [he] at h
      dsimp only at h
      obtain ⟨hkey, hcopy⟩ := copyEntryTexts_ok h
      refine ⟨e, List.mem_of_getElem? he, rfl, hkey, ?_⟩
      dsimp only
      rw [hcopy]
      rfl

/-- `ReadJsonValue` of a held document under a path to a leaf. -/
theorem readJsonValue_leaf (hs : Represents s t)
    (hlookup : t.documents.lookup id = some r) {path : CharBuffer}
    {text : Bytes} (hpath : boundedText path = .ok text) {pos : List Nat}
    {u : JsonValue F} (hres : resolvePath r.document (some text) = .ok ⟨pos, u⟩)
    {valueText : Bytes} {type : JsonEntryType}
    (hleaf : describeLeaf u = .ok (valueText, type)) {value : CharBuffer}
    (husable : value.unusable = false)
    (hroom : valueText.length < value.size.toNat) :
    readJsonValue s id path value
      = (.ok, value.store (valueText ++ [0]), type.toInt32) := by
  obtain ⟨i, hfind, -, -, rfl⟩ := hs.find_some hlookup
  unfold readJsonValue readValue readValueOf
  rw [hpath]
  dsimp only
  rw [hfind]
  dsimp only
  rw [hres]
  dsimp only
  rw [hleaf]
  dsimp only
  rw [copyToBuffer_fits husable hroom]
  rfl

/-- What a successful `ParseJsonDocument` puts into the store. -/
theorem parseJsonDocument_ok {size : SizeArith} {parser : Parser F}
    {jsonText : CharBuffer} {ticks : UInt64}
    (h : parseJsonDocument size parser s jsonText ticks = some (.ok, id, s')) :
    ∃ text r, boundedText jsonText = .ok text
      ∧ flattenJson size parser text = some (.ok r)
      ∧ s.step (StoreAction.insert (ρ := ρ) r ticks)
        = some (.inserted ⟨.ok, some id, .empty⟩, s') := by
  unfold parseJsonDocument at h
  cases hbounded : boundedText jsonText with
  | error status =>
      rw [hbounded] at h
      injection h with h
      rw [Prod.mk.injEq] at h
      rw [h.1] at hbounded
      exact absurd hbounded (boundedText_error jsonText)
  | ok text =>
      rw [hbounded] at h
      dsimp only at h
      cases hflatten : flattenJson size parser text with
      | none =>
          rw [hflatten] at h
          cases h
      | some flattened =>
          rw [hflatten] at h
          cases flattened with
          | error status =>
              injection h with h
              rw [Prod.mk.injEq] at h
              rw [h.1] at hflatten
              exact absurd hflatten (flattenJson_error size parser text)
          | ok r =>
              refine ⟨text, r, rfl, hflatten, ?_⟩
              dsimp only at h
              obtain ⟨⟨inserted, s₁⟩, hins⟩ := insert_total s r ticks
              rw [hins] at h
              injection h with h
              simp only [Prod.mk.injEq] at h
              obtain ⟨hstatus, hid, rfl⟩ := h
              simp only [step, hins]
              rcases insert_cases hins with ⟨-, rfl, -⟩ |
                ⟨i, id', next, -, -, rfl, -⟩
              · cases hstatus
              · rw [← hid]
                rfl

-- ============================================================== the result

/-- The key of an entry round-trips. Once `ParseJsonDocument` returned an
id, and as long as the id is not discarded, whatever else the store does:
the key `ReadJsonEntry` writes is a path under which `ReadJsonValue`
gives the entry's value and type, into any buffer with room for the
value. -/
theorem entry_key_round_trip {parser : Parser F} (hlawful : parser.Lawful)
    {w : Nat} (hw : w = 32 ∨ w = 64) {s₀ s₁ s₂ s₃ : JsonDocumentStore F}
    {h₀ h₁ h₂ : List (StoreAction F ρ × StoreAnswer F ρ)}
    (hr : (storeMachine F ρ).Reach h₀ s₀)
    {jsonText : CharBuffer} {ticks : UInt64} {documentId : UInt32}
    (hparse : parseJsonDocument (SizeArith.wrapping w) parser s₀ jsonText ticks
      = some (.ok, documentId, s₁))
    (hrun₁ : (storeMachine F ρ).Run s₁ h₁ s₂)
    (hheld₁ : ∀ e ∈ h₁, ¬ Discards documentId e.1)
    {entryIndex : UInt32} {key key' value value' : CharBuffer}
    {valueType : Int32}
    (hread : readJsonEntry s₂ documentId entryIndex key value
      = (.ok, key', value', valueType))
    (hrun₂ : (storeMachine F ρ).Run s₂ h₂ s₃)
    (hheld₂ : ∀ e ∈ h₂, ¬ Discards documentId e.1) :
    ∃ valueText, value' = value.store (valueText ++ [0])
      ∧ ∀ buffer : CharBuffer, buffer.unusable = false →
        valueText.length < buffer.size.toNat →
        readJsonValue s₃ documentId key' buffer
          = (.ok, buffer.store (valueText ++ [0]), valueType) := by
  obtain ⟨text, r, -, hflatten, hst⟩ := parseJsonDocument_ok (ρ := ρ) hparse
  have hflattened := flattened_of_ok hlawful hw hflatten
  -- the document is held, first when the entry is read, then the value
  obtain ⟨t₀, ht₀⟩ := Represents.reach hr
  obtain ⟨t₁, hspec, ht₁⟩ := represents_step ht₀ hst
  obtain ⟨t₂, ht₂, hlookup₂⟩ :=
    ht₁.run (StoreSpec.inserted hspec rfl) hrun₁ hheld₁
  obtain ⟨t₃, ht₃, hlookup₃⟩ := ht₂.run hlookup₂ hrun₂ hheld₂
  obtain ⟨e, he, -, ⟨hkey, hkeySize⟩, hentry⟩ :=
    readJsonEntry_ok ht₂ hlookup₂ (by rw [hread])
  rw [hread] at hentry
  simp only [Prod.mk.injEq, true_and] at hentry
  obtain ⟨rfl, rfl, rfl⟩ := hentry
  -- the key reads back, and resolves to the entry's leaf
  obtain ⟨hnul, pos, u, hres, hleaf⟩ := hflattened.entry he
  have hpath := boundedText_store hkey hkeySize hnul
  refine ⟨e.value, rfl, ?_⟩
  intro buffer husable hroom
  exact readJsonValue_leaf ht₃ hlookup₃ hpath hres hleaf husable hroom

/-- `{"/~":true}`, parsed into a new store. -/
def slashTilde : Option (Status × UInt32 × JsonDocumentStore Empty) :=
  parseJsonDocument (.wrapping 32)
    (.ofText (literal ['{', '"', '/', '~', '"', ':', 't', 'r', 'u', 'e', '}'])
      (.object [(literal ['/', '~'], .boolean true)]))
    .fresh
    (.holding (literal ['{', '"', '/', '~', '"', ':', 't', 'r', 'u', 'e', '}']))
    41

theorem slashTilde_parsed : slashTilde.isSome = true := by decide +kernel

theorem entry_key_round_trip_slashTilde : ∃ valueText : Bytes,
    CharBuffer.holding (literal ['t', 'r', 'u', 'e'])
      = (CharBuffer.holding [0, 0, 0, 0]).store (valueText ++ [0])
    ∧ ∀ buffer : CharBuffer, buffer.unusable = false →
      valueText.length < buffer.size.toNat →
      readJsonValue (slashTilde.get slashTilde_parsed).2.2 41
          (.holding (literal ['/', '~', '1', '~', '0'])) buffer
        = (.ok, buffer.store (valueText ++ [0]), 3) := by
  have hparse : slashTilde
      = some (.ok, 41, (slashTilde.get slashTilde_parsed).2.2) := by
    have hstatus : (slashTilde.get slashTilde_parsed).1 = .ok := by
      decide +kernel
    have hid : (slashTilde.get slashTilde_parsed).2.1 = 41 := by
      decide +kernel
    calc slashTilde = some (slashTilde.get slashTilde_parsed) :=
          (Option.some_get slashTilde_parsed).symm
      _ = some ((slashTilde.get slashTilde_parsed).1,
            (slashTilde.get slashTilde_parsed).2.1,
            (slashTilde.get slashTilde_parsed).2.2) := rfl
      _ = _ := by rw [hstatus, hid]
  have hread : readJsonEntry (slashTilde.get slashTilde_parsed).2.2 41 0
        (.holding [0, 0, 0, 0, 0]) (.holding [0, 0, 0, 0])
      = (.ok, .holding (literal ['/', '~', '1', '~', '0']),
        .holding (literal ['t', 'r', 'u', 'e']), 3) := by
    decide +kernel
  exact entry_key_round_trip (ρ := Unit)
    (Parser.ofText_lawful (by decide)) (Or.inl rfl)
    (.init (Or.inl rfl)) hparse (.nil _) (by simp) hread (.nil _) (by simp)

end JsonDocumentStore

end RestifyCapl
