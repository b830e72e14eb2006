/-
`restLibJsonDump` (capl/includes/libs/restify-json.cin): the entries of a
document, one `write` for each. The function calls the DLL for the count
and then for every entry, and between two of its calls other nodes make
theirs, so a dump is a process beside a store: a step of it is one DLL
call with what the function does up to the next.

A local `char` array keeps what an earlier call left there, so a dump
starts with any contents. `write` prints a `%s` up to the first NUL.
-/
import RestifyCapl.Mapping.JsonTextApi

namespace RestifyCapl

open Lib

variable {F : Type}

-- ============================================================== the formats

/-- `%s` of a `char` array. -/
def printText (b : CharBuffer) : Bytes :=
  (b.mem.getD []).takeWhile (· ≠ 0)

/-- `%ld`. -/
def printLong (n : Int32) : Bytes :=
  if n.toInt < 0 then ch '-' :: decimal n.toInt.natAbs
  else decimal n.toInt.natAbs

/-- `%lu`. -/
def printDword (n : UInt32) : Bytes := decimal n.toNat

/-- The `switch` that fills `typeName`. -/
def typeName (valueType : Int32) : Bytes :=
  if valueType = 1 then literal "string".toList
  else if valueType = 2 then literal "number".toList
  else if valueType = 3 then literal "bool".toList
  else if valueType = 4 then literal "null".toList
  else if valueType = 5 then literal "emptyObject".toList
  else if valueType = 6 then literal "emptyArray".toList
  else literal "unknown".toList

def countFailedLine (rc : Int32) : Bytes :=
  literal "restLibJsonDump: count failed, status ".toList ++ printLong rc

def doesNotFitLine (index : UInt32) : Bytes :=
  literal "[".toList ++ printDword index
    ++ literal "] entry does not fit the dump buffers (status -2)".toList

def readFailedLine (index : UInt32) (rc : Int32) : Bytes :=
  literal "[".toList ++ printDword index
    ++ literal "] read failed, status ".toList ++ printLong rc

def keyValueLine (keyText value typeName : Bytes) : Bytes :=
  keyText ++ literal " = ".toList ++ value ++ literal " (".toList
    ++ typeName ++ literal ")".toList

/-- The body of the loop, past the read. -/
def entryLine (index : UInt32) (rc : Int32) (keyText value : CharBuffer)
    (valueType : Int32) : Bytes :=
  if rc = -2 then doesNotFitLine index
  else if rc ≠ 0 then readFailedLine index rc
  else keyValueLine (printText keyText) (printText value) (typeName valueType)

-- ================================================================= the dump

/-- The DLL call a dump makes next. -/
inductive DumpPoint where
  | count
  | readEntry
  | returned
deriving DecidableEq, Repr

/-- The locals of `restLibJsonDump`, and the lines it has written. -/
structure JsonDump where
  documentId : UInt32
  keyText : CharBuffer
  value : CharBuffer
  count : UInt32
  index : UInt32
  point : DumpPoint
  written : List Bytes

namespace JsonDump

/-- `elcount` of both arrays. -/
def kDumpBufferBytes : UInt32 := 512

/-- One of the arrays, as an argument. -/
structure Local (b : CharBuffer) : Prop where
  usable : b.unusable = false
  size : b.size = kDumpBufferBytes

/-- A dump just called, with what its arrays hold. -/
def enter (documentId : UInt32) (keyText value : CharBuffer) : JsonDump where
  documentId := documentId
  keyText := keyText
  value := value
  count := 0
  index := 0
  point := .count
  written := []

/-- The head of the loop. -/
def loop (d : JsonDump) : JsonDump :=
  { d with point := if d.index < d.count then .readEntry else .returned }

/-- The next DLL call and what follows it, up to the one after. -/
def advance (s : JsonDocumentStore F) (d : JsonDump) : Option JsonDump :=
  match d.point with
  | .count =>
      let (rc, count) := countJsonEntries s d.documentId
      if rc.toInt32 ≠ 0 then
        some { d with
          count := count
          point := .returned
          written := d.written ++ [countFailedLine rc.toInt32] }
      else some { d with count := count, index := 0 }.loop
  | .readEntry =>
      let (rc, keyText, value, valueType) :=
        readJsonEntry s d.documentId d.index d.keyText d.value
      some { d with
        keyText := keyText
        value := value
        written := d.written
          ++ [entryLine d.index rc.toInt32 keyText value valueType]
        index := d.index + 1 }.loop
  | .returned => none

end JsonDump

-- ============================================================= the machine

/-- A store with one dump of it under way: a call of another node, or the
dump's next one. -/
def dumping (F ρ : Type) [JsonFloat F] :
    Machine (JsonDocumentStore F × JsonDump) (Option (StoreAction F ρ))
      (Option (StoreAnswer F ρ)) where
  start p := p.2.point = .count ∧ p.2.written = []
  step p a :=
    match a with
    | some call => (p.1.step call).map fun (b, s) => (some b, (s, p.2))
    | none => (p.2.advance p.1).map fun d => (none, (p.1, d))

end RestifyCapl
