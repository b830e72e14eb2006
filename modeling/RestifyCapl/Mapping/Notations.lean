/-
The two notations of JSON strings (docs/json-flatten.md, "Input
notation"), as written documents. A written document is a value tree
with everything its text leaves open: the white space, the notation of
each string, and the spelling of each character of it. Its text, its
value, and its text with every string in double quotes are functions of
it.

Outside strings the two notations are the same, so a text is a list of
segments: bytes without a quote of either kind, and strings.
-/
import RestifyCapl.Core.JsonString
import RestifyCapl.Core.TypeConversion

namespace RestifyCapl

open Lib

-- ============================================================= characters

/-- How a string is quoted. -/
inductive Quoting where
  | double
  | apostrophe
deriving DecidableEq

/-- Four hexadecimal digits. -/
structure CodeUnit where
  a : UInt8
  b : UInt8
  c : UInt8
  d : UInt8
  value : Nat
  spelled : getCodepoint a b c d = some value

def CodeUnit.text (u : CodeUnit) : Bytes := [u.a, u.b, u.c, u.d]

/-- A byte that stands for itself in both notations. -/
def isPlain (c : UInt8) : Bool :=
  0x20 ≤ c && c != ch '"' && c != ch '\'' && c != ch '\\'

/-- One character of a string, as it is spelled. -/
inductive Spelled where
  | plain (c : UInt8) (h : isPlain c = true)
  /-- `'`, which an apostrophe string escapes. -/
  | apostrophe
  /-- `"`, which an apostrophe string may leave raw. -/
  | rawQuote
  /-- A two-character JSON escape. -/
  | escape (e v : UInt8) (h : simpleEscape e = some v)
  /-- A `\u` escape of one code unit. -/
  | unicode (u : CodeUnit) (hhigh : isHighSurrogate u.value = false)
      (hlow : isLowSurrogate u.value = false)
  /-- A surrogate pair of `\u` escapes. -/
  | pair (u v : CodeUnit) (hhigh : isHighSurrogate u.value = true)
      (hlow : isLowSurrogate v.value = true)

namespace Spelled

def text : Quoting → Spelled → Bytes
  | _, .plain c _ => [c]
  | .double, .apostrophe => [ch '\'']
  | .apostrophe, .apostrophe => [ch '\\', ch '\'']
  | .double, .rawQuote => [ch '\\', ch '"']
  | .apostrophe, .rawQuote => [ch '"']
  | _, .escape e _ _ => [ch '\\', e]
  | _, .unicode u _ _ => ch '\\' :: ch 'u' :: u.text
  | _, .pair u v _ _ =>
      ch '\\' :: ch 'u' :: u.text ++ ch '\\' :: ch 'u' :: v.text

def value : Spelled → Bytes
  | .plain c _ => [c]
  | .apostrophe => [ch '\'']
  | .rawQuote => [ch '"']
  | .escape _ v _ => [v]
  | .unicode u _ _ => utf8Bytes u.value
  | .pair u v _ _ => utf8Bytes (surrogatePair u.value v.value)

def isApostrophe : Spelled → Bool
  | .apostrophe => true
  | _ => false

def isRawQuote : Spelled → Bool
  | .rawQuote => true
  | _ => false

end Spelled

-- ================================================================ strings

structure WrittenString where
  quoting : Quoting
  spelling : List Spelled

namespace WrittenString

def quote (s : WrittenString) : UInt8 :=
  match s.quoting with
  | .double => ch '"'
  | .apostrophe => ch '\''

/-- What is between the quotes. -/
def body (s : WrittenString) : Bytes :=
  s.spelling.flatMap (Spelled.text s.quoting)

def text (s : WrittenString) : Bytes := s.quote :: (s.body ++ [s.quote])

def value (s : WrittenString) : Bytes := s.spelling.flatMap Spelled.value

/-- The same string in double quotes. -/
def doubled (s : WrittenString) : WrittenString := { s with quoting := .double }

/-- The `"` left raw in an apostrophe string. -/
def rawQuotes (s : WrittenString) : Nat :=
  match s.quoting with
  | .double => 0
  | .apostrophe => s.spelling.countP Spelled.isRawQuote

/-- The `\'` pairs of an apostrophe string. -/
def escapedApostrophes (s : WrittenString) : Nat :=
  match s.quoting with
  | .double => 0
  | .apostrophe => s.spelling.countP Spelled.isApostrophe

end WrittenString

-- =============================================================== segments

/-- Neither quote character is in these bytes. -/
def Quoteless (bytes : Bytes) : Prop :=
  ∀ c ∈ bytes, c ≠ ch '"' ∧ c ≠ ch '\''

inductive Segment where
  | outside (bytes : Bytes) (h : Quoteless bytes)
  | string (s : WrittenString)

namespace Segment

def text : Segment → Bytes
  | .outside bytes _ => bytes
  | .string s => s.text

/-- Strings in double quotes, bytes outside strings as they are. -/
def doubled : Segment → Segment
  | .outside bytes h => .outside bytes h
  | .string s => .string s.doubled

def rawQuotes : Segment → Nat
  | .outside _ _ => 0
  | .string s => s.rawQuotes

def escapedApostrophes : Segment → Nat
  | .outside _ _ => 0
  | .string s => s.escapedApostrophes

end Segment

/-- The text of a list of segments. -/
def textOf (segments : List Segment) : Bytes := segments.flatMap Segment.text

-- ============================================================== documents

def isSpace (c : UInt8) : Bool :=
  c == ch ' ' || c == ch '\t' || c == ch '\n' || c == ch '\r'

/-- White space. -/
structure Space where
  bytes : Bytes
  blank : ∀ c ∈ bytes, isSpace c = true

/-- Bytes of a class that has neither quote in it. -/
theorem quoteless_of {p : UInt8 → Bool} {bytes : Bytes}
    (h : ∀ c ∈ bytes, p c = true) (hdouble : p (ch '"') = false)
    (hsingle : p (ch '\'') = false) : Quoteless bytes := by
  intro c hc
  constructor
  · intro heq
    subst heq
    rw [h _ hc] at hdouble
    cases hdouble
  · intro heq
    subst heq
    rw [h _ hc] at hsingle
    cases hsingle

theorem quoteless_space (s : Space) : Quoteless s.bytes :=
  quoteless_of s.blank rfl rfl

def Space.segment (s : Space) : Segment := .outside s.bytes (quoteless_space s)

/-- No white space. -/
def Space.none : Space := ⟨[], by simp⟩

variable {F : Type} [JsonFloat F]

/-- A value that is neither a string nor a container. -/
def JsonValue.isToken : JsonValue F → Bool
  | .string _ => false
  | .array _ => false
  | .object _ => false
  | _ => true

theorem quoteless_decimal (n : Nat) : Quoteless (decimal n) :=
  quoteless_of (decimal_digits n) rfl rfl

theorem quoteless_of_all {bytes : Bytes}
    (h : (bytes.all fun c => c != ch '"' && c != ch '\'') = true) :
    Quoteless bytes :=
  quoteless_of (List.all_eq_true.mp h) rfl rfl

theorem quoteless_dump {v : JsonValue F} (h : v.isToken = true) :
    Quoteless v.dump := by
  cases v with
  | numberInteger n =>
      show Quoteless (JsonValue.dumpInteger n)
      unfold JsonValue.dumpInteger
      split
      · intro c hc
        rcases List.mem_cons.mp hc with rfl | hc
        · decide
        · exact quoteless_decimal _ c hc
      · exact quoteless_decimal _
  | numberUnsigned n => exact quoteless_decimal _
  | numberFloat x => exact JsonFloat.dump_plain x
  | boolean b => cases b <;> exact quoteless_of_all rfl
  | null => exact quoteless_of_all rfl
  | string s => cases h
  | array elements => cases h
  | object members => cases h

/-- A key, with the white space around it. -/
structure WrittenKey where
  before : Space
  string : WrittenString
  after : Space

/-- A document as it is written. Every value has white space around it,
and an empty container some inside. -/
inductive Written (F : Type) [JsonFloat F] where
  | token (before : Space) (v : JsonValue F) (h : v.isToken = true)
      (after : Space)
  | string (before : Space) (s : WrittenString) (after : Space)
  | array (before inner : Space) (elements : List (Written F))
      (after : Space)
  | object (before inner : Space) (members : List (WrittenKey × Written F))
      (after : Space)

/-- A byte of the structure. -/
def Segment.punctuation (c : UInt8) (h : c ≠ ch '"' ∧ c ≠ ch '\'') : Segment :=
  .outside [c] (by simpa [Quoteless] using h)

def comma : Segment := .punctuation (ch ',') (by decide)

namespace Written

mutual

/-- The text, segment by segment. -/
def segments : Written F → List Segment
  | .token before v h after =>
      [before.segment, .outside v.dump (quoteless_dump h), after.segment]
  | .string before s after => [before.segment, .string s, after.segment]
  | .array before inner elements after =>
      before.segment :: .punctuation (ch '[') (by decide) :: inner.segment
        :: (elementSegments elements
          ++ [.punctuation (ch ']') (by decide), after.segment])
  | .object before inner members after =>
      before.segment :: .punctuation (ch '{') (by decide) :: inner.segment
        :: (memberSegments members
          ++ [.punctuation (ch '}') (by decide), after.segment])
termination_by structural d => d

def elementSegments : List (Written F) → List Segment
  | [] => []
  | [d] => segments d
  | d :: elements => segments d ++ comma :: elementSegments elements
termination_by structural d => d

def memberSegments : List (WrittenKey × Written F) → List Segment
  | [] => []
  | [m] => segmentsOfMember m
  | m :: members => segmentsOfMember m ++ comma :: memberSegments members
termination_by structural d => d

def segmentsOfMember : WrittenKey × Written F → List Segment
  | (key, d) =>
      key.before.segment :: .string key.string :: key.after.segment
        :: .punctuation (ch ':') (by decide) :: segments d
termination_by structural d => d

end

mutual

/-- The value tree a document writes. -/
def value : Written F → JsonValue F
  | .token _ v _ _ => v
  | .string _ s _ => .string s.value
  | .array _ _ elements _ => .array (elementValues elements)
  | .object _ _ members _ => .object (memberValues members)
termination_by structural d => d

def elementValues : List (Written F) → List (JsonValue F)
  | [] => []
  | d :: elements => value d :: elementValues elements
termination_by structural d => d

def memberValues :
    List (WrittenKey × Written F) → List (Bytes × JsonValue F)
  | [] => []
  | m :: members => valueOfMember m :: memberValues members
termination_by structural d => d

def valueOfMember : WrittenKey × Written F → Bytes × JsonValue F
  | (key, d) => (key.string.value, value d)
termination_by structural d => d

end

mutual

/-- The same document with every string in double quotes. -/
def doubled : Written F → Written F
  | .token before v h after => .token before v h after
  | .string before s after => .string before s.doubled after
  | .array before inner elements after =>
      .array before inner (doubledElements elements) after
  | .object before inner members after =>
      .object before inner (doubledMembers members) after
termination_by structural d => d

def doubledElements : List (Written F) → List (Written F)
  | [] => []
  | d :: elements => doubled d :: doubledElements elements
termination_by structural d => d

def doubledMembers :
    List (WrittenKey × Written F) → List (WrittenKey × Written F)
  | [] => []
  | m :: members => doubledMember m :: doubledMembers members
termination_by structural d => d

def doubledMember : WrittenKey × Written F → WrittenKey × Written F
  | (key, d) => ({ key with string := key.string.doubled }, doubled d)
termination_by structural d => d

end

/-- The rendering. -/
def text (d : Written F) : Bytes := textOf d.segments

/-- The strings of a document, keys and values, in text order. -/
def strings (d : Written F) : List WrittenString :=
  d.segments.filterMap fun
    | .outside _ _ => none
    | .string s => some s

/-- The raw `"` of the apostrophe strings. -/
def rawQuotes (d : Written F) : Nat :=
  (d.segments.map Segment.rawQuotes).sum

/-- The `\'` pairs of the apostrophe strings. -/
def escapedApostrophes (d : Written F) : Nat :=
  (d.segments.map Segment.escapedApostrophes).sum

end Written

-- ================================================================ writing

/-- The byte of a hexadecimal digit. -/
def hexByte (n : Nat) : UInt8 :=
  if n < 10 then UInt8.ofNat (0x30 + n) else UInt8.ofNat (0x57 + n)

theorem getCodepoint_control {n : Nat} (h : n < 0x20) :
    getCodepoint (ch '0') (ch '0') (hexByte (n / 16)) (hexByte (n % 16))
      = some n := by
  have : ∀ n < 0x20, getCodepoint (ch '0') (ch '0') (hexByte (n / 16))
      (hexByte (n % 16)) = some n := by decide
  exact this n h

theorem not_surrogate {n : Nat} (h : n < 0x20) :
    isHighSurrogate n = false ∧ isLowSurrogate n = false := by
  unfold isHighSurrogate isLowSurrogate
  simp
  omega

/-- One spelling of a byte: a quote raw where it may be, a control
character as a code unit. -/
def spellByte (c : UInt8) : Spelled :=
  if hq : c = ch '"' then .rawQuote
  else if ha : c = ch '\'' then .apostrophe
  else if hb : c = ch '\\' then .escape (ch '\\') (ch '\\') (by decide)
  else if hc : c < 0x20 then
    have hlt : c.toNat < 0x20 := UInt8.lt_iff_toNat_lt.mp hc
    .unicode ⟨ch '0', ch '0', hexByte (c.toNat / 16), hexByte (c.toNat % 16),
        c.toNat, getCodepoint_control hlt⟩
      (not_surrogate hlt).1 (not_surrogate hlt).2
  else .plain c (by
    unfold isPlain
    simp [hq, ha, hb]
    exact UInt8.not_lt.mp hc)

/-- The quoting of the string value at a position, and of the key of the
child there. -/
structure Choice where
  value : List Nat → Quoting
  key : List Nat → Quoting

namespace Written

mutual

/-- A value tree written with chosen quotes, without white space. -/
def write (choice : Choice) (pos : List Nat) : JsonValue F → Written F
  | .null => .token .none .null rfl .none
  | .boolean b => .token .none (.boolean b) rfl .none
  | .numberInteger n => .token .none (.numberInteger n) rfl .none
  | .numberUnsigned n => .token .none (.numberUnsigned n) rfl .none
  | .numberFloat x => .token .none (.numberFloat x) rfl .none
  | .string s =>
      .string .none ⟨choice.value pos, s.map spellByte⟩ .none
  | .array elements =>
      .array .none .none (writeElements choice pos 0 elements) .none
  | .object members =>
      .object .none .none (writeMembers choice pos 0 members) .none
termination_by structural v => v

def writeElements (choice : Choice) (pos : List Nat) (k : Nat) :
    List (JsonValue F) → List (Written F)
  | [] => []
  | v :: elements =>
      write choice (pos ++ [k]) v
        :: writeElements choice pos (k + 1) elements
termination_by structural v => v

def writeMembers (choice : Choice) (pos : List Nat) (k : Nat) :
    List (Bytes × JsonValue F) → List (WrittenKey × Written F)
  | [] => []
  | m :: members =>
      writeMember choice (pos ++ [k]) m
        :: writeMembers choice pos (k + 1) members
termination_by structural v => v

def writeMember (choice : Choice) (pos : List Nat) :
    Bytes × JsonValue F → WrittenKey × Written F
  | (name, v) =>
      (⟨.none, ⟨choice.key pos, name.map spellByte⟩, .none⟩,
        write choice pos v)
termination_by structural v => v

end

end Written

end RestifyCapl
