/-
The two notations denote the same document. The conversion turns the
text of a written document into the text of the same document with every
string in double quotes (`convert_text`): character by character inside
a string, string by string outside. What the lexer decodes from a
double-quoted string is the value the spelling stands for
(`scanString_body`), and every value tree can be written with any choice
of quotes (`value_write`).
-/
import RestifyCapl.Mapping.Notations
import RestifyCapl.Mapping.Proofs.Normalize

namespace RestifyCapl

open Lib

-- ========================================================= bytes of a string

/-- A byte that neither string state acts on. -/
def Inert (c : UInt8) : Prop := c ≠ ch '\\' ∧ c ≠ ch '\'' ∧ c ≠ ch '"'

theorem inert_plain {c : UInt8} (h : isPlain c = true) : Inert c := by
  unfold isPlain at h
  simp at h
  exact ⟨h.2, h.1.2, h.1.1.2⟩

theorem inert_hexDigit {c : UInt8} {n : Nat} (h : hexDigit c = some n) :
    Inert c := by
  have hnone : hexDigit (ch '\\') = none ∧ hexDigit (ch '\'') = none
      ∧ hexDigit (ch '"') = none := by decide
  refine ⟨?_, ?_, ?_⟩
  · intro heq
    rw [heq, hnone.1] at h
    cases h
  · intro heq
    rw [heq, hnone.2.1] at h
    cases h
  · intro heq
    rw [heq, hnone.2.2] at h
    cases h

/-- The digits of a code unit. -/
theorem CodeUnit.inert (u : CodeUnit) : ∀ c ∈ u.text, Inert c := by
  have h := u.spelled
  obtain ⟨a, ha, h⟩ := Option.bind_eq_some_iff.mp h
  obtain ⟨b, hb, h⟩ := Option.bind_eq_some_iff.mp h
  obtain ⟨c, hc, h⟩ := Option.bind_eq_some_iff.mp h
  obtain ⟨d, hd, h⟩ := Option.bind_eq_some_iff.mp h
  intro x hx
  simp only [text, List.mem_cons, List.not_mem_nil, or_false] at hx
  rcases hx with rfl | rfl | rfl | rfl
  · exact inert_hexDigit ha
  · exact inert_hexDigit hb
  · exact inert_hexDigit hc
  · exact inert_hexDigit hd

theorem convert_inert_apostrophe {run : Bytes} (h : ∀ c ∈ run, Inert c)
    (rest : Bytes) :
    convertFrom .apostrophe (run ++ rest)
      = run ++ convertFrom .apostrophe rest := by
  induction run with
  | nil => rfl
  | cons c run ih =>
      obtain ⟨hb, ha, hq⟩ := h c (List.mem_cons_self ..)
      rw [List.cons_append, convertFrom_apostrophePlain hb ha hq,
        ih fun c' hc' => h c' (List.mem_cons_of_mem _ hc')]
      rfl

theorem convert_inert_double {run : Bytes} (h : ∀ c ∈ run, Inert c)
    (rest : Bytes) :
    convertFrom .doubleQuoted (run ++ rest)
      = run ++ convertFrom .doubleQuoted rest := by
  induction run with
  | nil => rfl
  | cons c run ih =>
      obtain ⟨hb, -, hq⟩ := h c (List.mem_cons_self ..)
      rw [List.cons_append, convertFrom_doublePlain hb hq,
        ih fun c' hc' => h c' (List.mem_cons_of_mem _ hc')]
      rfl

theorem simpleEscape_ne {e v : UInt8} (h : simpleEscape e = some v) :
    e ≠ ch '\'' ∧ e ≠ ch 'u' := by
  have hnone : simpleEscape (ch '\'') = none
      ∧ simpleEscape (ch 'u') = none := by decide
  constructor
  · intro heq
    rw [heq, hnone.1] at h
    cases h
  · intro heq
    rw [heq, hnone.2] at h
    cases h

/-- In an apostrophe string a character becomes its double-quoted
spelling. -/
theorem convert_spelled_apostrophe (c : Spelled) (rest : Bytes) :
    convertFrom .apostrophe (c.text .apostrophe ++ rest)
      = c.text .double ++ convertFrom .apostrophe rest := by
  cases c with
  | plain c h =>
      obtain ⟨hb, ha, hq⟩ := inert_plain h
      exact convertFrom_apostrophePlain hb ha hq rest
  | apostrophe => exact convertFrom_escapedApostrophe rest
  | rawQuote => exact convertFrom_rawQuote rest
  | escape e v h =>
      exact convertFrom_apostropheEscape (simpleEscape_ne h).1 rest
  | unicode u =>
      show convertFrom .apostrophe (ch '\\' :: ch 'u' :: (u.text ++ rest)) = _
      rw [convertFrom_apostropheEscape (by decide),
        convert_inert_apostrophe u.inert]
      rfl
  | pair u v =>
      show convertFrom .apostrophe (ch '\\' :: ch 'u'
        :: (u.text ++ ch '\\' :: ch 'u' :: v.text ++ rest)) = _
      rw [convertFrom_apostropheEscape (by decide), List.append_assoc,
        convert_inert_apostrophe u.inert]
      show ch '\\' :: ch 'u' :: (u.text ++ convertFrom .apostrophe
        (ch '\\' :: ch 'u' :: (v.text ++ rest))) = _
      rw [convertFrom_apostropheEscape (by decide),
        convert_inert_apostrophe v.inert]
      simp [Spelled.text]

/-- In a double-quoted string a character stays as it is. -/
theorem convert_spelled_double (c : Spelled) (rest : Bytes) :
    convertFrom .doubleQuoted (c.text .double ++ rest)
      = c.text .double ++ convertFrom .doubleQuoted rest := by
  cases c with
  | plain c h =>
      obtain ⟨hb, -, hq⟩ := inert_plain h
      exact convertFrom_doublePlain hb hq rest
  | apostrophe =>
      exact convertFrom_doublePlain (by decide) (by decide) rest
  | rawQuote => exact convertFrom_doubleEscape (ch '"') rest
  | escape e v h => exact convertFrom_doubleEscape e rest
  | unicode u =>
      show convertFrom .doubleQuoted (ch '\\' :: ch 'u' :: (u.text ++ rest)) = _
      rw [convertFrom_doubleEscape, convert_inert_double u.inert]
      rfl
  | pair u v =>
      show convertFrom .doubleQuoted (ch '\\' :: ch 'u'
        :: (u.text ++ ch '\\' :: ch 'u' :: v.text ++ rest)) = _
      rw [convertFrom_doubleEscape, List.append_assoc,
        convert_inert_double u.inert]
      show ch '\\' :: ch 'u' :: (u.text ++ convertFrom .doubleQuoted
        (ch '\\' :: ch 'u' :: (v.text ++ rest))) = _
      rw [convertFrom_doubleEscape, convert_inert_double v.inert]
      simp [Spelled.text]

-- ========================================================= strings and text

/-- A string, whichever its quotes, comes out in double quotes. -/
theorem convert_string (s : WrittenString) (rest : Bytes) :
    convertFrom .outside (s.text ++ rest)
      = s.doubled.text ++ convertFrom .outside rest := by
  obtain ⟨quoting, spelling⟩ := s
  cases quoting with
  | double =>
      have hbody : convertFrom .doubleQuoted
          (spelling.flatMap (Spelled.text .double) ++ ch '"' :: rest)
          = spelling.flatMap (Spelled.text .double)
            ++ ch '"' :: convertFrom .outside rest := by
        induction spelling with
        | nil => exact convertFrom_doubleQuote rest
        | cons c spelling ih =>
            rw [List.flatMap_cons, List.append_assoc, convert_spelled_double,
              ih, List.append_assoc]
      show convertFrom .outside (ch '"' ::
        (spelling.flatMap (Spelled.text .double) ++ [ch '"']) ++ rest) = _
      rw [List.cons_append, convertFrom_outsideQuote, List.append_assoc]
      show ch '"' :: convertFrom .doubleQuoted
        (spelling.flatMap (Spelled.text .double) ++ ch '"' :: rest) = _
      rw [hbody]
      simp [WrittenString.text, WrittenString.doubled, WrittenString.body,
        WrittenString.quote]
  | apostrophe =>
      have hbody : convertFrom .apostrophe
          (spelling.flatMap (Spelled.text .apostrophe) ++ ch '\'' :: rest)
          = spelling.flatMap (Spelled.text .double)
            ++ ch '"' :: convertFrom .outside rest := by
        induction spelling with
        | nil => exact convertFrom_apostropheClose rest
        | cons c spelling ih =>
            rw [List.flatMap_cons, List.append_assoc,
              convert_spelled_apostrophe, ih, List.flatMap_cons,
              List.append_assoc]
      show convertFrom .outside (ch '\'' ::
        (spelling.flatMap (Spelled.text .apostrophe) ++ [ch '\'']) ++ rest) = _
      rw [List.cons_append, convertFrom_outsideApostrophe, List.append_assoc]
      show ch '"' :: convertFrom .apostrophe
        (spelling.flatMap (Spelled.text .apostrophe) ++ ch '\'' :: rest) = _
      rw [hbody]
      simp [WrittenString.text, WrittenString.doubled, WrittenString.body,
        WrittenString.quote]

theorem convert_quoteless {bytes : Bytes} (h : Quoteless bytes)
    (rest : Bytes) :
    convertFrom .outside (bytes ++ rest)
      = bytes ++ convertFrom .outside rest := by
  induction bytes with
  | nil => rfl
  | cons c bytes ih =>
      obtain ⟨hq, ha⟩ := h c (List.mem_cons_self ..)
      rw [List.cons_append, convertFrom_outsidePlain ha hq,
        ih fun c' hc' => h c' (List.mem_cons_of_mem _ hc')]
      rfl

/-- Segment by segment, the conversion puts strings in double quotes. -/
theorem convert_textOf (segments : List Segment) :
    convertFrom .outside (textOf segments)
      = textOf (segments.map Segment.doubled) := by
  induction segments with
  | nil => rfl
  | cons segment segments ih =>
      cases segment with
      | outside bytes h =>
          show convertFrom .outside (bytes ++ textOf segments) = _
          rw [convert_quoteless h, ih]
          rfl
      | string s =>
          show convertFrom .outside (s.text ++ textOf segments) = _
          rw [convert_string, ih]
          rfl

-- ================================================================ decoding

theorem scanString_plain {c : UInt8} (hq : c ≠ ch '"') (hb : c ≠ ch '\\')
    (hcontrol : ¬ c < 0x20) (rest : Bytes) :
    scanString (c :: rest) = addTo [c] (scanString rest) := by
  conv => lhs; rw [scanString.eq_def]
  dsimp only
  rw [if_neg hq, if_neg hb, if_neg hcontrol]

theorem scanString_escape {e v : UInt8} (h : simpleEscape e = some v)
    (rest : Bytes) :
    scanString (ch '\\' :: e :: rest) = addTo [v] (scanString rest) := by
  conv => lhs; rw [scanString.eq_def]
  dsimp only
  rw [if_neg (by decide), if_pos rfl, if_neg (simpleEscape_ne h).2, h]

theorem scanString_unicode (u : CodeUnit)
    (hhigh : isHighSurrogate u.value = false)
    (hlow : isLowSurrogate u.value = false) (rest : Bytes) :
    scanString (ch '\\' :: ch 'u' :: (u.text ++ rest))
      = addTo (utf8Bytes u.value) (scanString rest) := by
  conv => lhs; rw [scanString.eq_def]
  dsimp only [CodeUnit.text, List.cons_append, List.nil_append]
  rw [if_neg (by decide), if_pos rfl, if_pos rfl, u.spelled]
  dsimp only
  rw [if_neg (by simp [hhigh]), if_neg (by simp [hlow])]

theorem scanString_pair (u v : CodeUnit)
    (hhigh : isHighSurrogate u.value = true)
    (hlow : isLowSurrogate v.value = true) (rest : Bytes) :
    scanString (ch '\\' :: ch 'u'
        :: (u.text ++ ch '\\' :: ch 'u' :: (v.text ++ rest)))
      = addTo (utf8Bytes (surrogatePair u.value v.value))
        (scanString rest) := by
  conv => lhs; rw [scanString.eq_def]
  dsimp only [CodeUnit.text, List.cons_append, List.nil_append]
  rw [if_neg (by decide), if_pos rfl, if_pos rfl, u.spelled]
  dsimp only
  rw [if_pos hhigh, if_pos ⟨rfl, rfl⟩, v.spelled]
  dsimp only
  rw [if_pos hlow]

theorem scanString_quote (rest : Bytes) :
    scanString (ch '"' :: rest) = some ([], rest) := by
  rw [scanString.eq_def]
  dsimp only
  rw [if_pos rfl]

/-- The lexer reads the double-quoted spelling of a character as its
value. -/
theorem scanString_spelled (c : Spelled) (rest : Bytes) :
    scanString (c.text .double ++ rest) = addTo c.value (scanString rest) := by
  cases c with
  | plain c h =>
      obtain ⟨hb, -, hq⟩ := inert_plain h
      have hcontrol : ¬ c < 0x20 := by
        unfold isPlain at h
        simp at h
        exact UInt8.not_lt.mpr h.1.1.1
      show scanString (c :: rest) = _
      rw [scanString_plain hq hb hcontrol]
      rfl
  | apostrophe =>
      exact scanString_plain (by decide) (by decide) (by decide) rest
  | rawQuote =>
      exact scanString_escape (by decide) rest
  | escape e v h =>
      exact scanString_escape h rest
  | unicode u hhigh hlow => exact scanString_unicode u hhigh hlow rest
  | pair u v hhigh hlow => exact scanString_pair u v hhigh hlow rest

/-- A string in double quotes ends at its closing quote and decodes to
its value. -/
theorem scanString_body (s : WrittenString) (rest : Bytes) :
    scanString (s.doubled.body ++ ch '"' :: rest) = some (s.value, rest) := by
  obtain ⟨quoting, spelling⟩ := s
  show scanString (spelling.flatMap (Spelled.text .double) ++ ch '"' :: rest)
    = some (spelling.flatMap Spelled.value, rest)
  induction spelling with
  | nil => exact scanString_quote rest
  | cons c spelling ih =>
      rw [List.flatMap_cons, List.append_assoc, scanString_spelled, ih]
      rfl

-- ================================================================= lengths

/-- In apostrophes a raw quote is a byte shorter than in double quotes,
and an apostrophe is a byte longer. -/
theorem spelled_length (c : Spelled) :
    (c.text .double).length + (if c.isApostrophe then 1 else 0)
      = (c.text .apostrophe).length
        + (if c.isRawQuote then 1 else 0) := by
  cases c <;> rfl

theorem spelling_length (spelling : List Spelled) :
    (spelling.flatMap (Spelled.text .double)).length
        + spelling.countP Spelled.isApostrophe
      = (spelling.flatMap (Spelled.text .apostrophe)).length
        + spelling.countP Spelled.isRawQuote := by
  induction spelling with
  | nil => rfl
  | cons c spelling ih =>
      have := spelled_length c
      simp only [List.flatMap_cons, List.length_append, List.countP_cons]
      omega

theorem string_length (s : WrittenString) :
    s.doubled.text.length + s.escapedApostrophes
      = s.text.length + s.rawQuotes := by
  obtain ⟨quoting, spelling⟩ := s
  have hlen : ∀ q : Quoting,
      (WrittenString.mk q spelling).text.length
        = (spelling.flatMap (Spelled.text q)).length + 2 := by
    intro q
    rw [WrittenString.text, List.length_cons, List.length_append]
    rfl
  have hdoubled : (WrittenString.mk quoting spelling).doubled
      = ⟨.double, spelling⟩ := rfl
  rw [hdoubled, hlen, hlen]
  cases quoting with
  | double => rfl
  | apostrophe =>
      have hbody := spelling_length spelling
      unfold WrittenString.escapedApostrophes WrittenString.rawQuotes
      dsimp only
      omega

theorem textOf_length (segments : List Segment) :
    (textOf (segments.map Segment.doubled)).length
        + (segments.map Segment.escapedApostrophes).sum
      = (textOf segments).length
        + (segments.map Segment.rawQuotes).sum := by
  induction segments with
  | nil => rfl
  | cons segment segments ih =>
      have hone : segment.doubled.text.length + segment.escapedApostrophes
          = segment.text.length + segment.rawQuotes := by
        cases segment with
        | outside bytes h => rfl
        | string s => exact string_length s
      simp only [textOf, List.map_cons, List.flatMap_cons,
        List.length_append, List.sum_cons] at ih ⊢
      omega

-- =============================================================== documents

variable {F : Type} [JsonFloat F]

namespace Written

mutual

/-- Doubling a document doubles its strings, and nothing else of its
text. -/
theorem segments_doubled :
    ∀ d : Written F, d.doubled.segments = d.segments.map Segment.doubled
  | .token .. => rfl
  | .string .. => rfl
  | .array before inner elements after => by
      rw [doubled, segments, segments, elementSegments_doubled elements]
      simp [Segment.doubled, Space.segment, Segment.punctuation]
  | .object before inner members after => by
      rw [doubled, segments, segments, memberSegments_doubled members]
      simp [Segment.doubled, Space.segment, Segment.punctuation]

theorem elementSegments_doubled :
    ∀ elements : List (Written F),
      elementSegments (doubledElements elements)
        = (elementSegments elements).map Segment.doubled
  | [] => rfl
  | [d] => segments_doubled d
  | d :: d' :: elements => by
      show segments (doubled d) ++ comma
          :: elementSegments (doubledElements (d' :: elements))
        = (segments d ++ comma :: elementSegments (d' :: elements)).map
          Segment.doubled
      rw [segments_doubled d, elementSegments_doubled (d' :: elements),
        List.map_append, List.map_cons]
      rfl

theorem memberSegments_doubled :
    ∀ members : List (WrittenKey × Written F),
      memberSegments (doubledMembers members)
        = (memberSegments members).map Segment.doubled
  | [] => rfl
  | [m] => segmentsOfMember_doubled m
  | m :: m' :: members => by
      show segmentsOfMember (doubledMember m) ++ comma
          :: memberSegments (doubledMembers (m' :: members))
        = (segmentsOfMember m ++ comma :: memberSegments (m' :: members)).map
          Segment.doubled
      rw [segmentsOfMember_doubled m, memberSegments_doubled (m' :: members),
        List.map_append, List.map_cons]
      rfl

theorem segmentsOfMember_doubled :
    ∀ m : WrittenKey × Written F,
      segmentsOfMember (doubledMember m)
        = (segmentsOfMember m).map Segment.doubled
  | (key, d) => by
      rw [doubledMember, segmentsOfMember, segmentsOfMember,
        segments_doubled d]
      rfl

end

mutual

/-- Doubling leaves the value. -/
theorem value_doubled : ∀ d : Written F, d.doubled.value = d.value
  | .token .. => rfl
  | .string .. => rfl
  | .array before inner elements after => by
      rw [doubled, value, value, elementValues_doubled elements]
  | .object before inner members after => by
      rw [doubled, value, value, memberValues_doubled members]

theorem elementValues_doubled :
    ∀ elements : List (Written F),
      elementValues (doubledElements elements) = elementValues elements
  | [] => rfl
  | d :: elements => by
      rw [doubledElements, elementValues, elementValues, value_doubled d,
        elementValues_doubled elements]

theorem memberValues_doubled :
    ∀ members : List (WrittenKey × Written F),
      memberValues (doubledMembers members) = memberValues members
  | [] => rfl
  | m :: members => by
      rw [doubledMembers, memberValues, memberValues, valueOfMember_doubled m,
        memberValues_doubled members]

theorem valueOfMember_doubled :
    ∀ m : WrittenKey × Written F,
      valueOfMember (doubledMember m) = valueOfMember m
  | (key, d) => by
      rw [doubledMember, valueOfMember, valueOfMember, value_doubled d]
      rfl

end

/-- The conversion of a document's text. -/
theorem convert_text (d : Written F) :
    convertFrom .outside d.text = d.doubled.text := by
  unfold text
  rw [convert_textOf, segments_doubled]

-- ================================================================= writing

omit [JsonFloat F] in
theorem value_spellByte (c : UInt8) : (spellByte c).value = [c] := by
  unfold spellByte
  split
  next h => rw [h, Spelled.value]
  next =>
    split
    next h => rw [h, Spelled.value]
    next =>
      split
      next h => rw [h, Spelled.value]
      next =>
        split
        next h =>
          have hlt : c.toNat < 0x20 := UInt8.lt_iff_toNat_lt.mp h
          show utf8Bytes c.toNat = [c]
          unfold utf8Bytes
          rw [if_pos (by omega), UInt8.ofNat_toNat]
        next => rfl

omit [JsonFloat F] in
theorem value_spelling (quoting : Quoting) (s : Bytes) :
    WrittenString.value ⟨quoting, s.map spellByte⟩ = s := by
  show (s.map spellByte).flatMap Spelled.value = s
  rw [List.flatMap_map]
  have : ∀ c ∈ s, (spellByte c).value = [c] := fun c _ => value_spellByte c
  rw [List.flatMap_congr this]
  exact List.flatMap_pure_eq_map id _ |>.trans (List.map_id _)

mutual

/-- A value tree, written with any choice of quotes, has its value. -/
theorem value_write (choice : Choice) :
    ∀ (pos : List Nat) (v : JsonValue F), (write choice pos v).value = v
  | pos, .string s => by
      rw [write, value, value_spelling]
  | pos, .array elements => by
      rw [write, value, elementValues_write choice pos 0 elements]
  | pos, .object members => by
      rw [write, value, memberValues_write choice pos 0 members]
  | _, .null => rfl
  | _, .boolean _ => rfl
  | _, .numberInteger _ => rfl
  | _, .numberUnsigned _ => rfl
  | _, .numberFloat _ => rfl

theorem elementValues_write (choice : Choice) :
    ∀ (pos : List Nat) (k : Nat) (elements : List (JsonValue F)),
      elementValues (writeElements choice pos k elements) = elements
  | _, _, [] => rfl
  | pos, k, v :: elements => by
      rw [writeElements, elementValues, value_write choice _ v,
        elementValues_write choice pos (k + 1) elements]

theorem memberValues_write (choice : Choice) :
    ∀ (pos : List Nat) (k : Nat) (members : List (Bytes × JsonValue F)),
      memberValues (writeMembers choice pos k members) = members
  | _, _, [] => rfl
  | pos, k, m :: members => by
      rw [writeMembers, memberValues, valueOfMember_write choice _ m,
        memberValues_write choice pos (k + 1) members]

theorem valueOfMember_write (choice : Choice) :
    ∀ (pos : List Nat) (m : Bytes × JsonValue F),
      valueOfMember (writeMember choice pos m) = m
  | pos, (name, v) => by
      rw [writeMember, valueOfMember, value_spelling, value_write choice pos v]

end

/-- The strings of the doubled document are the strings, doubled. -/
theorem strings_doubled (d : Written F) :
    d.doubled.strings = d.strings.map WrittenString.doubled := by
  unfold strings
  rw [segments_doubled, List.filterMap_map, List.map_filterMap]
  apply List.filterMap_congr
  intro segment _
  cases segment <;> rfl

end Written

-- ============================================================ one document

/-- What the conversion makes of a written document. -/
structure Converted (d : Written F) (converted : Bytes) : Prop where
  /-- It is the rendering with every string in double quotes. -/
  text : converted = d.doubled.text
  doubleQuoted : ∀ s ∈ d.doubled.strings, s.quoting = .double
  /-- Outside strings every byte is where it was. -/
  segments : d.doubled.segments = d.segments.map Segment.doubled
  /-- Every string ends where it did and decodes to its value. -/
  decodes : ∀ s ∈ d.strings, ∀ rest,
    scanString (s.doubled.body ++ ch '"' :: rest) = some (s.value, rest)
  value : d.doubled.value = d.value
  parses : ∀ parser : Parser F,
    parser.parse converted = parser.parse d.doubled.text
  length : converted.length + d.escapedApostrophes
    = d.text.length + d.rawQuotes
  atMostDouble : converted.length ≤ 2 * d.text.length

/-- The two notations denote the same document: every value tree can be
written with every choice of quotes, and whatever is written is converted
to the same document in double quotes. -/
theorem notations_denote_same :
    (∀ (v : JsonValue F) (choice : Choice),
      (Written.write choice [] v).value = v)
    ∧ ∀ d : Written F, ∃ converted,
      convertApostropheStrings d.text = .ok converted
        ∧ Converted d converted := by
  refine ⟨fun v choice => Written.value_write choice [] v, fun d => ?_⟩
  refine ⟨d.doubled.text, congrArg Except.ok d.convert_text, ?_⟩
  constructor
  case text => rfl
  case doubleQuoted =>
    intro s hs
    rw [Written.strings_doubled] at hs
    obtain ⟨s', -, rfl⟩ := List.mem_map.mp hs
    rfl
  case segments => exact d.segments_doubled
  case decodes => exact fun s _ rest => scanString_body s rest
  case value => exact d.value_doubled
  case parses => exact fun parser => rfl
  case length =>
    unfold Written.text Written.escapedApostrophes Written.rawQuotes
    rw [Written.segments_doubled]
    exact textOf_length d.segments
  case atMostDouble =>
    rw [← d.convert_text]
    exact convert_length_le d.text

end RestifyCapl
