/-
Normalizing preserves the document: `NormalizeJsonText` writes the
converted text, which `FlattenJson` reads as it reads the original. All
of it rests on the conversion being idempotent and being the identity
where `FlattenJson` skips it.
-/
import RestifyCapl.Mapping.JsonTextApi
import RestifyCapl.Mapping.Proofs.Quotes

namespace RestifyCapl

open Lib

variable {F : Type} [JsonFloat F]

/-- `FlattenJson` without the skip: every text is converted. -/
def flattenJsonConverting (size : SizeArith) (parser : Parser F)
    (text : Bytes) : Option (Except Status (FlattenResult F)) :=
  if text.length > kMaxJsonInputBytes then some (.error .documentTooLarge)
  else if text.isEmpty then some (.error .parseError)
  else if 0 ∈ text then some (.error .parseError)
  else
    match convertApostropheStrings text with
    | .error status => some (.error status)
    | .ok converted => flattenConverted size parser converted

-- ============================================================ the conversion

omit [JsonFloat F] in
theorem convert_length_le (text : Bytes) :
    (convertFrom .outside text).length ≤ 2 * text.length :=
  (converts_convertFrom .outside text).length_le

theorem convert_nul {text : Bytes} (h : 0 ∉ text) :
    0 ∉ convertFrom .outside text := by
  intro hmem
  apply h
  exact (converts_convertFrom .outside text).mem hmem (by decide) (by decide)
    (by decide)

theorem convert_ne_nil {text : Bytes} (h : text ≠ []) :
    convertFrom .outside text ≠ [] := by
  cases text with
  | nil => exact absurd rfl h
  | cons c rest =>
      unfold convertFrom
      split
      · exact List.cons_ne_nil _ _
      · split <;> exact List.cons_ne_nil _ _

/-- Where there is no apostrophe at all, the conversion does nothing. -/
theorem convert_plain {text : Bytes} (h : ch '\'' ∉ text) :
    convertFrom .outside text = text :=
  (convertFrom_eq_self_iff text).mpr (apostropheOutside_of_not_mem false h)

-- ============================================================ flatten json

/-- Skipping the conversion gives what converting gives. -/
theorem flattenJson_eq_converting (size : SizeArith) (parser : Parser F)
    (text : Bytes) :
    flattenJson size parser text = flattenJsonConverting size parser text := by
  unfold flattenJson
  by_cases h : ch '\'' ∈ text
  · simp only [if_pos h]
    rfl
  · have hconvert : convertApostropheStrings text = .ok text := by
      unfold convertApostropheStrings
      rw [convert_plain h]
    unfold flattenJsonConverting
    simp only [if_neg h, hconvert]

/-- `FlattenJson` of a text it does not turn away unread. -/
theorem flattenJson_readable {size : SizeArith} {parser : Parser F}
    {text : Bytes} (hlen : text.length ≤ kMaxJsonInputBytes)
    (hne : text ≠ []) (hnul : 0 ∉ text) :
    flattenJson size parser text
      = flattenConverted size parser (convertFrom .outside text) := by
  rw [flattenJson_eq_converting]
  unfold flattenJsonConverting
  rw [if_neg (by omega), if_neg (by simpa using hne), if_neg hnul]
  rfl

/-- The converted text flattens as the text does. -/
theorem flattenJson_convert (size : SizeArith) (parser : Parser F)
    {text : Bytes} (hlen : text.length ≤ kMaxJsonInputBytes)
    (hne : text ≠ []) (hnul : 0 ∉ text)
    (hconverted : (convertFrom .outside text).length ≤ kMaxJsonInputBytes) :
    flattenJson size parser (convertFrom .outside text)
      = flattenJson size parser text := by
  rw [flattenJson_readable hlen hne hnul,
    flattenJson_readable hconverted (convert_ne_nil hne) (convert_nul hnul),
    convertFrom_idem]

/-- What is flattened was converted, scanned to its end and accepted. -/
theorem flattenJson_ok {size : SizeArith} {parser : Parser F} {text : Bytes}
    {r : FlattenResult F} (h : flattenJson size parser text = some (.ok r)) :
    text.length ≤ kMaxJsonInputBytes ∧ text ≠ [] ∧ 0 ∉ text
      ∧ parser.complete (convertFrom .outside text) = true
      ∧ parser.parse (convertFrom .outside text) = some r.document
      ∧ flattenDocument r.document = .ok r.entries
      ∧ ∃ sax, LimitCheckingSax.init.feed size
          (parser.events (convertFrom .outside text)) = some (true, sax) := by
  rw [flattenJson_eq_converting] at h
  unfold flattenJsonConverting at h
  split at h
  next => cases h
  next hlen =>
  split at h
  next => cases h
  next hne =>
  split at h
  next => cases h
  next hnul =>
    have h : flattenConverted size parser (convertFrom .outside text)
      = some (.ok r) := h
    unfold flattenConverted at h
    split at h
    next => cases h
    next => cases h
    next sax hsax =>
      unfold saxParse at hsax
      split at hsax
      next => cases hsax
      next fed sax' hfeed =>
        rw [Option.some.injEq, Prod.mk.injEq, Bool.and_eq_true] at hsax
        obtain ⟨⟨rfl, hcomplete⟩, rfl⟩ := hsax
        split at h
        next => cases h
        next document hparse =>
          split at h
          next => cases h
          next entries hflatten =>
            cases h
            exact ⟨by omega, by simpa using hne, hnul, hcomplete, hparse,
              hflatten, sax', hfeed⟩

-- ========================================================== normalize text

omit [JsonFloat F] in
/-- What `NormalizeJsonText` needs to write, and what it writes. -/
theorem normalizeJsonText_ok_iff {parser : Parser F} {text : Bytes}
    {jsonText normalized : CharBuffer}
    (htext : boundedText jsonText = .ok text) :
    (normalizeJsonText parser jsonText normalized).1 = .ok
      ↔ normalized.unusable = false ∧ text.length ≤ kMaxJsonInputBytes
        ∧ text ≠ [] ∧ parser.accept (convertFrom .outside text) = true
        ∧ (convertFrom .outside text).length < normalized.size.toNat := by
  unfold normalizeJsonText convertApostropheStrings
  rw [htext]
  dsimp only
  cases hunusable : normalized.unusable with
  | true => simp
  | false =>
      rw [if_neg Bool.false_ne_true]
      by_cases hlen : text.length > kMaxJsonInputBytes
      · rw [if_pos hlen]
        simp
        omega
      · rw [if_neg hlen]
        by_cases hne : text = []
        · simp [hne]
        · rw [if_neg (by simpa using hne)]
          cases haccept : parser.accept (convertFrom .outside text) with
          | false => simp
          | true =>
              rw [if_neg (by simp), copyToBuffer_ok_iff,
                CharBuffer.store_unusable, CharBuffer.store_size]
              simp [hunusable, hne]
              omega

omit [JsonFloat F] in
theorem normalizeJsonText_written {parser : Parser F} {text : Bytes}
    {jsonText normalized : CharBuffer}
    (htext : boundedText jsonText = .ok text)
    (hok : (normalizeJsonText parser jsonText normalized).1 = .ok) :
    boundedText (normalizeJsonText parser jsonText normalized).2
      = .ok (convertFrom .outside text) := by
  obtain ⟨husable, hlen, hne, haccept, hroom⟩ :=
    (normalizeJsonText_ok_iff htext).mp hok
  have hnul := (boundedText_ok htext).1
  have hfits : copyToBuffer (convertFrom .outside text) (normalized.store [0])
      = (.ok,
        (normalized.store [0]).store (convertFrom .outside text ++ [0])) :=
    copyToBuffer_fits (by simpa using husable) hroom
  unfold normalizeJsonText convertApostropheStrings
  rw [htext]
  dsimp only
  rw [if_neg (by simp [husable]), if_neg (by omega),
    if_neg (by simpa using hne), if_neg (by simp [haccept]), hfits]
  apply boundedText_store
  · simpa using husable
  · exact hroom
  · exact convert_nul hnul

/-- Normalizing a text preserves the document. -/
theorem normalizing_preserves_document (size : SizeArith)
    {parser : Parser F}
    (haccepts : ∀ text, parser.accept text = parser.complete text)
    {text : Bytes} (hlen : text.length ≤ kMaxJsonInputBytes)
    (hnul : 0 ∉ text) :
    (∃ converted, convertApostropheStrings text = .ok converted
      ∧ convertApostropheStrings converted = .ok converted)
    ∧ (apostropheOutside false text = false →
      convertApostropheStrings text = .ok text)
    ∧ flattenJson size parser text = flattenJsonConverting size parser text
    ∧ (∀ jsonText normalized n, boundedText jsonText = .ok text →
      (normalizeJsonText parser jsonText normalized).1 = .ok →
      boundedText (normalizeJsonText parser jsonText normalized).2 = .ok n →
      n.length ≤ kMaxJsonInputBytes →
      flattenJson size parser n = flattenJson size parser text)
    ∧ (∀ r, flattenJson size parser text = some (.ok r) →
      ∀ jsonText normalized, boundedText jsonText = .ok text →
        normalized.unusable = false →
        2 * text.length < normalized.size.toNat →
        (normalizeJsonText parser jsonText normalized).1 = .ok) := by
  refine ⟨?_, ?_, ?_, ?_, ?_⟩
  · exact ⟨_, rfl, congrArg Except.ok (convertFrom_idem text)⟩
  · intro h
    exact congrArg Except.ok ((convertFrom_eq_self_iff text).mpr h)
  · exact flattenJson_eq_converting size parser text
  · intro jsonText normalized n htext hok hn hnlen
    rw [normalizeJsonText_written htext hok] at hn
    injection hn with hn
    subst hn
    have hne := ((normalizeJsonText_ok_iff htext).mp hok).2.2.1
    exact flattenJson_convert size parser hlen hne hnul hnlen
  · intro r hr jsonText normalized htext husable hroom
    obtain ⟨-, hne, -, hcomplete, -⟩ := flattenJson_ok hr
    have hconverted := convert_length_le text
    apply (normalizeJsonText_ok_iff htext).mpr
    refine ⟨husable, hlen, hne, ?_, by omega⟩
    rw [haccepts]
    exact hcomplete

/-- A document with a string in apostrophes, and what it converts to. -/
def apostropheText : Bytes := literal ['[', '\'', 'a', '"', '\'', ']']

def convertedText : Bytes := literal ['[', '"', 'a', '\\', '"', '"', ']']

def apostropheParser : Parser Empty :=
  .ofText convertedText (.array [.string (literal ['a', '"'])])

theorem normalizing_preserves_document_apostrophe :
    flattenJson (.wrapping 64) apostropheParser convertedText
      = flattenJson (.wrapping 64) apostropheParser apostropheText :=
  (normalizing_preserves_document (.wrapping 64) (fun _ => rfl)
    (by decide) (by decide)).2.2.2.1 (.holding apostropheText)
    (.holding (List.replicate 8 0)) convertedText rfl (by decide)
    rfl (by decide)

end RestifyCapl
