/-
The vendored JSON parser, as its callers use it (include/vendor/json.hpp):
`sax_parse` reports a text event by event, `parse` builds the ordered
tree, `accept` only says whether the text is JSON. It is a parameter of
the model; `Parser.Lawful` is what the code relies on.

A JSON text spells a tree in which an object may repeat a key. The
events are that tree's, in text order. The tree `parse` builds is its
`collapse`: `operator[]` of the ordered map keeps the place of the first
occurrence, and the assignment through it leaves the value of the last.
-/
import RestifyCapl.Core.JsonValue

namespace RestifyCapl

/-- The calls of the `json_sax` interface that a text can cause, other
than `parse_error`. -/
inductive SaxEvent (F : Type) where
  | null
  | boolean (b : Bool)
  | numberInteger (n : Int64)
  | numberUnsigned (n : UInt64)
  | numberFloat (x : F)
  | string (s : Bytes)
  | binary (b : Bytes)
  | startObject
  | key (name : Bytes)
  | endObject
  | startArray
  | endArray

namespace JsonValue

variable {F : Type}

-- ============================================================= the events

mutual

/-- The events of a tree. -/
def saxEvents : JsonValue F → List (SaxEvent F)
  | .null => [.null]
  | .boolean b => [.boolean b]
  | .numberInteger n => [.numberInteger n]
  | .numberUnsigned n => [.numberUnsigned n]
  | .numberFloat x => [.numberFloat x]
  | .string s => [.string s]
  | .array elements =>
      .startArray :: (eventsOfElements elements ++ [.endArray])
  | .object members =>
      .startObject :: (eventsOfMembers members ++ [.endObject])
termination_by structural v => v

def eventsOfElements : List (JsonValue F) → List (SaxEvent F)
  | [] => []
  | v :: elements => saxEvents v ++ eventsOfElements elements
termination_by structural v => v

def eventsOfMembers : List (Bytes × JsonValue F) → List (SaxEvent F)
  | [] => []
  | m :: members => eventsOfMember m ++ eventsOfMembers members
termination_by structural v => v

def eventsOfMember : Bytes × JsonValue F → List (SaxEvent F)
  | (name, v) => .key name :: saxEvents v
termination_by structural v => v

end

-- =========================================================== the document

/-- Assignment through `operator[]` of the ordered map. -/
def upsert (m : Bytes × JsonValue F) :
    List (Bytes × JsonValue F) → List (Bytes × JsonValue F)
  | [] => [m]
  | m' :: members =>
      if m'.1 = m.1 then m :: members else m' :: upsert m members

mutual

/-- The tree `parse` builds. -/
def collapse : JsonValue F → JsonValue F
  | .array elements => .array (collapseElements elements)
  | .object members => .object (collapseMembers [] members)
  | .null => .null
  | .boolean b => .boolean b
  | .numberInteger n => .numberInteger n
  | .numberUnsigned n => .numberUnsigned n
  | .numberFloat x => .numberFloat x
  | .string s => .string s
termination_by structural v => v

def collapseElements : List (JsonValue F) → List (JsonValue F)
  | [] => []
  | v :: elements => collapse v :: collapseElements elements
termination_by structural v => v

/-- The members met so far are `done`. -/
def collapseMembers (done : List (Bytes × JsonValue F)) :
    List (Bytes × JsonValue F) → List (Bytes × JsonValue F)
  | [] => done
  | m :: members => collapseMembers (upsert (collapseMember m) done) members
termination_by structural v => v

def collapseMember : Bytes × JsonValue F → Bytes × JsonValue F
  | (name, v) => (name, collapse v)
termination_by structural v => v

end

end JsonValue

/-- The bytes of the text an event takes at least: one, and those of a
key, whose escapes are never shorter than what they denote. -/
def SaxEvent.bytes {F : Type} : SaxEvent F → Nat
  | .key name => 1 + name.length
  | _ => 1

/-- A text of `n` bytes at least is needed to cause these events. -/
def eventBytes {F : Type} (events : List (SaxEvent F)) : Nat :=
  (events.map SaxEvent.bytes).sum

-- ============================================================== the parser

/-- The parser. `events` is what it reports while it is not stopped, up
to the end of the text or to the first error in it. -/
structure Parser (F : Type) where
  events : Bytes → List (SaxEvent F)
  complete : Bytes → Bool
  parse : Bytes → Option (JsonValue F)
  accept : Bytes → Bool

/-- What the code relies on. -/
structure Parser.Lawful {F : Type} (parser : Parser F) : Prop where
  tree : ∀ text, parser.complete text = true →
    ∃ raw : JsonValue F, parser.events text = raw.saxEvents
      ∧ eventBytes raw.saxEvents ≤ text.length
      ∧ parser.parse text = some raw.collapse
  accepts : ∀ text, parser.accept text = parser.complete text

/-- What it reports before it stops is the beginning of a tree's events,
and read off the text, also where the text is not JSON. -/
structure Parser.Orderly {F : Type} (parser : Parser F) : Prop where
  begins : ∀ text, ∃ raw : JsonValue F,
    parser.events text <+: raw.saxEvents
  bytes : ∀ text, eventBytes (parser.events text) ≤ text.length

/-- The parser on one text that spells `raw`; it knows no other. -/
def Parser.ofText {F : Type} (text : Bytes) (raw : JsonValue F) :
    Parser F where
  events t := if t = text then raw.saxEvents else []
  complete t := t == text
  parse t := if t = text then some raw.collapse else none
  accept t := t == text

theorem Parser.ofText_lawful {F : Type} {text : Bytes} {raw : JsonValue F}
    (h : eventBytes raw.saxEvents ≤ text.length) :
    (Parser.ofText text raw).Lawful where
  tree t ht := by
    obtain rfl : t = text := beq_iff_eq.mp ht
    exact ⟨raw, if_pos rfl, h, if_pos rfl⟩
  accepts _ := rfl

theorem Parser.ofText_orderly {F : Type} {text : Bytes} {raw : JsonValue F}
    (h : eventBytes raw.saxEvents ≤ text.length) :
    (Parser.ofText text raw).Orderly where
  begins t := by
    refine ⟨raw, ?_⟩
    by_cases ht : t = text
    · simp only [Parser.ofText, if_pos ht]
      exact List.prefix_refl _
    · simp only [Parser.ofText, if_neg ht]
      exact List.nil_prefix
  bytes t := by
    by_cases ht : t = text
    · simp only [Parser.ofText, if_pos ht]
      rwa [ht]
    · simp only [Parser.ofText, if_neg ht]
      exact Nat.zero_le _

end RestifyCapl
