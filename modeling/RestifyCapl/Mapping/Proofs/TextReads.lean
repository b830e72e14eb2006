/-
An integer of a held document, read as text and then parsed, is the
integer read as a `long`: `ReadJsonValue` writes the digits, `ParseLong`
reads these digits and nothing else, and both refuse the same values. So
the strict conversion of a node and the lenient one of its text agree on
every integer a document can hold, in and out of range.
-/
import RestifyCapl.Core.Proofs.ParseDouble
import RestifyCapl.Mapping.Proofs.ReadsAgree

namespace RestifyCapl

open Lib

variable {F : Type} [JsonDouble F]

-- ================================================================ integers

/-- The numeral that the text of an integer is. -/
def integerNumeral (k : Int) : Numeral where
  neg := decide (k < 0)
  int := ⟨decimal k.natAbs, decimal_digits k.natAbs⟩
  frac := none
  exp := none
  nonempty := by
    show decimal k.natAbs ++ [] ≠ []
    rw [List.append_nil]
    exact decimal_ne_nil _

theorem integerNumeral_text (k : Int) : (integerNumeral k).text = integerText k := by
  unfold Numeral.text Numeral.fracText Numeral.expText Numeral.signText
    integerNumeral integerText
  by_cases hk : k < 0
  · simp [hk]
  · simp [hk]

theorem integerNumeral_value (k : Int) : (integerNumeral k).intValue = k := by
  show signed (decide (k < 0)) (decimalValue (decimal k.natAbs)) = k
  rw [decimalValue_decimal]
  unfold signed
  by_cases hk : k < 0
  · rw [decide_eq_true hk, if_pos rfl]
    omega
  · rw [decide_eq_false hk, if_neg Bool.false_ne_true]
    omega

/-- `ParseLong` of an integer's text. -/
theorem parseLong_integerText (k : Int) (out : Int32) :
    parseLong (integerText k) out
      = if InInt32 k then (.ok, Int32.ofInt k) else (.numericOverflow, out) := by
  rw [← integerNumeral_text, parseLong_integer rfl rfl, integerNumeral_value]

-- ==================================================================== nodes

namespace JsonValue

/-- The integer a node holds. -/
def integerValue : JsonValue F → Option Int
  | .numberInteger raw => some raw.toInt
  | .numberUnsigned raw => some raw.toNat
  | _ => none

/-- The text of an integer node. -/
theorem describeLeaf_integer {u : JsonValue F} {k : Int}
    (h : u.integerValue = some k) :
    describeLeaf u = .ok (integerText k, .number) := by
  cases u with
  | numberInteger raw =>
      cases h
      rfl
  | numberUnsigned raw =>
      cases h
      unfold integerText
      rw [if_neg (by omega), Int.natAbs_natCast]
      rfl
  | _ => cases h

/-- `ToLong` of an integer node. -/
theorem toLong_integer {u : JsonValue F} {k : Int}
    (h : u.integerValue = some k) :
    u.toLong = if InInt32 k then .ok (Int32.ofInt k)
      else .error .numericOverflow := by
  cases u with
  | numberInteger raw =>
      cases h
      have hlow : raw < -2147483648 ↔ raw.toInt < -2147483648 :=
        Int64.lt_iff_toInt_lt
      have hhigh : raw > 2147483647 ↔ 2147483647 < raw.toInt :=
        Int64.lt_iff_toInt_lt
      have houtside : (raw < -2147483648 ∨ raw > 2147483647)
          ↔ ¬ InInt32 raw.toInt := by
        rw [hlow, hhigh]
        unfold InInt32
        omega
      show (if raw < -2147483648 ∨ raw > 2147483647 then _ else _) = _
      by_cases hrange : InInt32 raw.toInt
      · rw [if_neg (by rwa [houtside, not_not]), if_pos hrange]
        rfl
      · rw [if_pos (houtside.mpr hrange), if_neg hrange]
  | numberUnsigned raw =>
      cases h
      have hhigh : raw > 2147483647 ↔ 2147483647 < raw.toNat :=
        UInt64.lt_iff_toNat_lt
      have houtside : raw > 2147483647 ↔ ¬ InInt32 (raw.toNat : Int) := by
        rw [hhigh]
        unfold InInt32
        omega
      show (if raw > 2147483647 then _ else _) = _
      by_cases hrange : InInt32 (raw.toNat : Int)
      · rw [if_neg (by rwa [houtside, not_not]), if_pos hrange]
        rfl
      · rw [if_pos (houtside.mpr hrange), if_neg hrange]
  | _ => cases h

end JsonValue

theorem integerText_nul (k : Int) : (0 : UInt8) ∉ integerText k := by
  have hdigits : (0 : UInt8) ∉ decimal k.natAbs := by
    intro h0
    exact absurd (decimal_digits k.natAbs 0 h0) (by decide)
  unfold integerText
  by_cases hk : k < 0
  · rw [if_pos hk, List.mem_cons, not_or]
    exact ⟨by decide, hdigits⟩
  · rw [if_neg hk]
    exact hdigits

-- ================================================================ the reads

/-- The text `ReadJsonValue` writes for an integer, read back from the
buffer, is to `ParseLong` what the node is to `ReadJsonLong`: the same
status, and the same `long` where there is one. -/
theorem parseLong_reads_integer {s : JsonDocumentStore F} {documentId : UInt32}
    {i : Fin kJsonDocumentSlotCount} {pathText value : CharBuffer} {path : Bytes}
    {node : Node F} {k : Int}
    (hlive : s.findLiveSlotLocked documentId = some i)
    (hpath : boundedText pathText = .ok path)
    (hnode : resolvePath (s.slots i).result.document (some path) = .ok node)
    (hinteger : node.value.integerValue = some k)
    (husable : value.unusable = false)
    (hroom : (integerText k).length < value.size.toNat) :
    ∃ text, (readJsonValue s documentId pathText value).1 = .ok
      ∧ (readJsonValue s documentId pathText value).2.2
        = JsonEntryType.number.toInt32
      ∧ boundedText (readJsonValue s documentId pathText value).2.1 = .ok text
      ∧ ∀ out, parseLong text out
        = ((readJsonLong s documentId pathText).1,
          if (readJsonLong s documentId pathText).1 = .ok then
            (readJsonLong s documentId pathText).2
          else out) := by
  have hleaf := JsonValue.describeLeaf_integer hinteger
  have hV := readJsonValue_live hlive hpath husable (by
    intro node' text type hnode' hleaf'
    injection hnode.symm.trans hnode' with heq
    rw [← heq, hleaf] at hleaf'
    injection hleaf' with hpair
    have htext : integerText k = text := congrArg Prod.fst hpair
    rw [← htext]
    exact hroom)
  have hL : readJsonLong s documentId pathText = _ :=
    readTypedAt_live hlive hpath 0 JsonValue.toLong
  rw [hnode] at hV hL
  dsimp only at hV hL
  rw [hleaf] at hV
  rw [JsonValue.toLong_integer hinteger] at hL
  rw [hV, hL]
  refine ⟨integerText k, rfl, rfl, ?_, ?_⟩
  · exact boundedText_store husable hroom (integerText_nul k)
  · intro out
    rw [parseLong_integerText]
    by_cases hrange : InInt32 k
    · rw [if_pos hrange, if_pos hrange]
      rfl
    · rw [if_neg hrange, if_neg hrange]
      rfl

/-- `[4000000000]`, parsed into a new store. -/
def wideText : Bytes := ch '[' :: decimal 4000000000 ++ [ch ']']

def wideParsed :
    Option (JsonAnswer WholeDouble × JsonDocumentStore WholeDouble) :=
  (JsonCall.parse (.holding wideText)).run (.wrapping 32)
    (.ofText wideText (.array [.numberUnsigned 4000000000])) .fresh 41 false

/-- The integer at `/0` of the stored document. -/
def wideFound : Bool :=
  match wideParsed with
  | none => false
  | some (_, s) =>
      decide (s.findLiveSlotLocked 41 = some ⟨0, by decide⟩)
        && match resolvePath (s.slots ⟨0, by decide⟩).result.document
            (some (literal ['/', '0'])) with
          | .error _ => false
          | .ok node => node.value.integerValue == some 4000000000

theorem wideFound_true : wideFound = true := by decide +kernel

theorem parseLong_reads_integer_wide : ∃ s : JsonDocumentStore WholeDouble,
    ∃ text, boundedText (readJsonValue s 41 (.holding (literal ['/', '0']))
        (.holding (List.replicate 10 (ch ' ')))).2.1 = .ok text
      ∧ ∀ out, (parseLong text out).1
        = (readJsonLong s 41 (.holding (literal ['/', '0']))).1 := by
  have hfound := wideFound_true
  unfold wideFound at hfound
  split at hfound
  next => cases hfound
  next answer s hparsed =>
  rw [Bool.and_eq_true, decide_eq_true_eq] at hfound
  obtain ⟨hlive, hfound⟩ := hfound
  split at hfound
  next => cases hfound
  next node hnode =>
  have hpath : boundedText (.holding (literal ['/', '0']))
      = .ok (literal ['/', '0']) := by decide
  have husable :
      (CharBuffer.holding (List.replicate 10 (ch ' '))).unusable = false := by
    decide
  obtain ⟨text, -, -, htext, hparse⟩ :=
    parseLong_reads_integer hlive hpath hnode (eq_of_beq hfound) husable
      (by decide)
  refine ⟨s, text, htext, fun out => ?_⟩
  rw [hparse]

end RestifyCapl
