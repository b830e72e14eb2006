/-
The surface of mapping/json-text-api.cpp as one type of calls. A call
names its arguments; what it gives back is a status, at most one numeric
out-parameter and the text buffers it was handed. `caught` is what the
`catch (...)` of a call leaves: everything that allocates, and so can
throw, comes before the store changes and before a read copies a text
out.
-/
import RestifyCapl.Mapping.JsonTextApi

namespace RestifyCapl

open Lib

variable {F : Type} [JsonDouble F]

inductive JsonCall where
  | parse (jsonText : CharBuffer)
  | count (documentId : UInt32)
  | readEntry (documentId entryIndex : UInt32) (key value : CharBuffer)
  | readValue (documentId : UInt32) (pathText value : CharBuffer)
  | readLong (documentId : UInt32) (pathText : CharBuffer)
  | readDouble (documentId : UInt32) (pathText : CharBuffer)
  | readBool (documentId : UInt32) (pathText : CharBuffer)
  | countElements (documentId : UInt32) (pathText : CharBuffer)
  | discard (documentId : UInt32)
  | discardAll
  | normalize (jsonText normalized : CharBuffer)

/-- A numeric out-parameter. -/
inductive OutNumber (F : Type) where
  | none
  | dword (n : UInt32)
  | long (n : Int32)
  | double (x : F)

/-- It reads 0, if there is one. -/
def OutNumber.IsZero : OutNumber F → Prop
  | .none => True
  | .dword n => n = 0
  | .long n => n = 0
  | .double x => x = JsonDouble.zero

structure JsonAnswer (F : Type) where
  status : Status
  number : OutNumber F
  buffers : List CharBuffer

namespace JsonCall

/-- The text buffers a call may write. -/
def buffers : JsonCall → List CharBuffer
  | .readEntry _ _ key value => [key, value]
  | .readValue _ _ value => [value]
  | .normalize _ normalized => [normalized]
  | _ => []

/-- What the numeric out-parameter is set to on entry. -/
def entryNumber : JsonCall → OutNumber F
  | .parse _ | .count _ | .countElements _ _ | .discardAll => .dword 0
  | .readEntry _ _ _ _ | .readValue _ _ _ | .readLong _ _
  | .readBool _ _ => .long 0
  | .readDouble _ _ => .double JsonDouble.zero
  | .discard _ | .normalize _ _ => .none

/-- What `catch (...)` leaves: only `NormalizeJsonText` has an output to
clear there. -/
def caught (call : JsonCall) : JsonAnswer F where
  status := .internalError
  number := call.entryNumber
  buffers :=
    match call with
    | .normalize _ normalized =>
        if normalized.unusable then [normalized] else [normalized.store [0]]
    | _ => call.buffers

/-- A call that nothing interrupts. -/
def complete (size : SizeArith) (parser : Parser F) (s : JsonDocumentStore F)
    (ticks : UInt64) :
    JsonCall → Option (JsonAnswer F × JsonDocumentStore F)
  | .parse jsonText =>
      match parseJsonDocument size parser s jsonText ticks with
      | none => none
      | some (status, documentId, s) =>
          some (⟨status, .dword documentId, []⟩, s)
  | .count documentId =>
      let (status, entryCount) := countJsonEntries s documentId
      some (⟨status, .dword entryCount, []⟩, s)
  | .readEntry documentId entryIndex key value =>
      let (status, key, value, valueType) :=
        readJsonEntry s documentId entryIndex key value
      some (⟨status, .long valueType, [key, value]⟩, s)
  | .readValue documentId pathText value =>
      let (status, value, valueType) :=
        readJsonValue s documentId pathText value
      some (⟨status, .long valueType, [value]⟩, s)
  | .readLong documentId pathText =>
      let (status, value) := readJsonLong s documentId pathText
      some (⟨status, .long value, []⟩, s)
  | .readDouble documentId pathText =>
      let (status, value) := readJsonDouble s documentId pathText
      some (⟨status, .double value, []⟩, s)
  | .readBool documentId pathText =>
      let (status, value) := readJsonBool s documentId pathText
      some (⟨status, .long value, []⟩, s)
  | .countElements documentId pathText =>
      let (status, elementCount) := countJsonElements s documentId pathText
      some (⟨status, .dword elementCount, []⟩, s)
  | .discard documentId =>
      let (status, s) := discardJsonDocument s documentId
      some (⟨status, .none, []⟩, s)
  | .discardAll =>
      let (status, discardedCount, s) := discardAllJsonDocuments s
      some (⟨status, .dword discardedCount, []⟩, s)
  | .normalize jsonText normalized =>
      let (status, normalized) := normalizeJsonText parser jsonText normalized
      some (⟨status, .none, [normalized]⟩, s)

/-- A call, which throws or does not. -/
def run (size : SizeArith) (parser : Parser F) (s : JsonDocumentStore F)
    (ticks : UInt64) (threw : Bool) (call : JsonCall) :
    Option (JsonAnswer F × JsonDocumentStore F) :=
  if threw then some (call.caught, s) else call.complete size parser s ticks

end JsonCall

/-- A store, from construction on, under any calls, each at its ticks of
the clock. -/
def jsonMachine (F : Type) [JsonDouble F] (size : SizeArith)
    (parser : Parser F) :
    Machine (JsonDocumentStore F) (JsonCall × UInt64 × Bool) (JsonAnswer F)
    where
  start s := s = .fresh ∨ ∃ firstId, s = .ofFirstId firstId
  step s a := a.1.run size parser s a.2.1 a.2.2

end RestifyCapl
