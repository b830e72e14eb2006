/-
The pointer-and-size calls (mapping/json-text-api.cpp) over a store:
texts come in through `BoundedText`, values go out through buffers, and
an out-parameter that the store did not write is zero.

Nothing in these functions throws; what a `catch (...)` leaves behind,
which turns an exhausted heap into `InternalError`, is in
Mapping/JsonCalls.lean. Buffers passed to one call do not overlap.
-/
import RestifyCapl.Mapping.JsonAccessors
import RestifyCapl.Mapping.JsonDocumentStore

namespace RestifyCapl

open Lib

variable {F : Type} [JsonFloat F]

/-- The type an out-parameter `valueType` shows. -/
def valueTypeOut (valueType : Option JsonEntryType) : Int32 :=
  match valueType with
  | none => 0
  | some type => type.toInt32

/-- `ParseJsonDocument`: the status, `documentId`, and the store. -/
def parseJsonDocument (size : SizeArith) (parser : Parser F)
    (s : JsonDocumentStore F) (jsonText : CharBuffer) (ticks : UInt64) :
    Option (Status × UInt32 × JsonDocumentStore F) :=
  match boundedText jsonText with
  | .error status => some (status, 0, s)
  | .ok textView =>
      match flattenJson size parser textView with
      | none => none
      | some (.error status) => some (status, 0, s)
      | some (.ok flattened) =>
          match s.insert flattened ticks with
          | none => none
          | some (r, s) => some (r.status, r.documentId.getD 0, s)

/-- `CountJsonEntries`. -/
def countJsonEntries (s : JsonDocumentStore F) (documentId : UInt32) :
    Status × UInt32 :=
  let (status, entryCount) := s.count documentId
  (status, entryCount.getD 0)

/-- `ReadJsonEntry`: the status, both buffers, and `valueType`. -/
def readJsonEntry (s : JsonDocumentStore F) (documentId entryIndex : UInt32)
    (key value : CharBuffer) : Status × CharBuffer × CharBuffer × Int32 :=
  let (status, key, value, type) :=
    s.readEntry documentId entryIndex key value
  (status, key, value, valueTypeOut type)

/-- `ReadJsonValue`: the status, the buffer, and `valueType`. -/
def readJsonValue (s : JsonDocumentStore F) (documentId : UInt32)
    (pathText value : CharBuffer) : Status × CharBuffer × Int32 :=
  match boundedText pathText with
  | .error status => (status, value, 0)
  | .ok pathView =>
      let (status, value, type) := s.readValue documentId (some pathView) value
      (status, value, valueTypeOut type)

section TypedReads

variable {D : Type}

/-- What a read gives its caller: a status, and what it wrote on `Ok`. -/
def written {Out : Type} : Except Status Out → Status × Option Out
  | .error status => (status, none)
  | .ok out => (.ok, some out)

/-- `ReadTypedAt`; `out` is `Out{}`. -/
def readTypedAt {Out : Type} (s : JsonDocumentStore D) (documentId : UInt32)
    (pathText : CharBuffer) (out : Out)
    (read : JsonValue D → PathTokens → Except Status Out) : Status × Out :=
  match boundedText pathText with
  | .error status => (status, out)
  | .ok pathView =>
      let (status, value) := s.readWithTokens documentId (some pathView)
        fun document tokens => written (read document tokens)
      (status, value.join.getD out)

/-- `ReadJsonLong`. -/
def readJsonLong [JsonDouble D] (s : JsonDocumentStore D)
    (documentId : UInt32) (pathText : CharBuffer) : Status × Int32 :=
  readTypedAt s documentId pathText 0 readLongAt

/-- `ReadJsonDouble`. -/
def readJsonDouble [JsonDouble D] (s : JsonDocumentStore D)
    (documentId : UInt32) (pathText : CharBuffer) : Status × D :=
  readTypedAt s documentId pathText JsonDouble.zero readDoubleAt

/-- `ReadJsonBool`. -/
def readJsonBool (s : JsonDocumentStore D) (documentId : UInt32)
    (pathText : CharBuffer) : Status × Int32 :=
  let (status, flag) := readTypedAt s documentId pathText false readBoolAt
  (status, if status = .ok && flag then 1 else 0)

/-- `CountJsonElements`. -/
def countJsonElements (s : JsonDocumentStore D) (documentId : UInt32)
    (pathText : CharBuffer) : Status × UInt32 :=
  readTypedAt s documentId pathText 0 countElementsAt

end TypedReads

/-- `DiscardJsonDocument`. -/
def discardJsonDocument (s : JsonDocumentStore F) (documentId : UInt32) :
    Status × JsonDocumentStore F :=
  s.discard documentId

/-- `DiscardAllJsonDocuments`. -/
def discardAllJsonDocuments (s : JsonDocumentStore F) :
    Status × UInt32 × JsonDocumentStore F :=
  s.discardAll

omit [JsonFloat F] in
/-- `NormalizeJsonText`: the status and the buffer. -/
def normalizeJsonText (parser : Parser F) (jsonText normalized : CharBuffer) :
    Status × CharBuffer :=
  match boundedText jsonText with
  | .error status =>
      if status = .unterminatedInputText && !normalized.unusable then
        (status, normalized.store [0])
      else (status, normalized)
  | .ok textView =>
      if normalized.unusable then (.invalidArgument, normalized)
      else
        let normalized := normalized.store [0]
        if textView.length > kMaxJsonInputBytes then
          (.documentTooLarge, normalized)
        else if textView.isEmpty then (.parseError, normalized)
        else
          match convertApostropheStrings textView with
          | .error status => (status, normalized)
          | .ok converted =>
              if !parser.accept converted then (.parseError, normalized)
              else copyToBuffer converted normalized

end RestifyCapl
