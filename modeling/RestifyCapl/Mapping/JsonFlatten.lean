/-
`FlattenJson` (mapping/json-flatten.cpp): JSON text to a flat list of
leaf entries, each under its JSON Pointer.

The limits are enforced by a scanner over the parser's events
(`LimitCheckingSax`), before the document is built; the entries are read
off the built document by a loop with a stack of its own
(`FlattenDocument`). The two never see each other.

The scanner counts in `std::size_t`. Its arithmetic is a parameter: the
machine's, which wraps (`SizeArith.wrapping`), or a checked one that is
undefined where the machine's would wrap (`SizeArith.checked`). An
access outside `frames_` is undefined under both.
-/
import RestifyCapl.Core.JsonParser
import RestifyCapl.Core.JsonPath
import RestifyCapl.Core.TypeConversion
import RestifyCapl.Lib.SizeArith
import RestifyCapl.Mapping.JsonQuotes

namespace RestifyCapl

open Lib

variable {F : Type}

def kMaxJsonInputBytes : Nat := 1048576
def kMaxJsonDepth : Nat := 64
def kMaxFlatEntries : Nat := 10000
def kMaxFlatKeyBytes : Nat := 4194304

inductive JsonEntryType where
  | none
  | string
  | number
  | bool
  | null
  | emptyObject
  | emptyArray
deriving DecidableEq, Repr

/-- `static_cast<std::int32_t>(type)`. -/
def JsonEntryType.toInt32 : JsonEntryType → Int32
  | .none => 0
  | .string => 1
  | .number => 2
  | .bool => 3
  | .null => 4
  | .emptyObject => 5
  | .emptyArray => 6

structure FlatEntry where
  key : Bytes
  value : Bytes
  type : JsonEntryType
deriving DecidableEq

structure FlattenResult (F : Type) where
  document : JsonValue F
  entries : List FlatEntry

-- ============================================================ the scanner

structure KeyFrame where
  isArray : Bool
  nextIndex : Nat
  prefixBytes : Nat
deriving DecidableEq

structure LimitCheckingSax where
  failure : Status
  depth : Nat
  entryCount : Nat
  keyTotal : Nat
  pendingTokenBytes : Nat
  frames : Vector KeyFrame kMaxJsonDepth
  previousEventOpenedContainer : Bool
deriving DecidableEq

namespace LimitCheckingSax

/-- A fresh scanner. -/
def init : LimitCheckingSax where
  failure := .parseError
  depth := 0
  entryCount := 0
  keyTotal := 0
  pendingTokenBytes := 0
  frames := Vector.replicate kMaxJsonDepth ⟨false, 0, 0⟩
  previousEventOpenedContainer := false

/-- What a handler returns, and the scanner it leaves. -/
abbrev Handled := Option (Bool × LimitCheckingSax)

/-- `frames_[i] = frame`. -/
def setFrame (s : LimitCheckingSax) (i : Nat) (frame : KeyFrame) :
    Option LimitCheckingSax :=
  if h : i < kMaxJsonDepth then
    some { s with frames := s.frames.set i frame h }
  else none

def reject (s : LimitCheckingSax) (status : Status) : Handled :=
  some (false, { s with failure := status })

variable (size : SizeArith)

def countEntry (s : LimitCheckingSax) : Handled :=
  if s.entryCount ≥ kMaxFlatEntries then s.reject .tooManyEntries
  else do
    let entryCount ← size.add s.entryCount 1
    some (true, { s with entryCount })

def addKeyBytes (s : LimitCheckingSax) (keyBytes : Nat) : Handled := do
  let room ← size.sub kMaxFlatKeyBytes s.keyTotal
  if keyBytes > room then s.reject .keyTextTooLarge
  else
    let keyTotal ← size.add s.keyTotal keyBytes
    some (true, { s with keyTotal })

/-- `CountEntry() && AddKeyBytes(keyBytes)`. -/
def countAndAdd (s : LimitCheckingSax) (keyBytes : Nat) : Handled := do
  match ← s.countEntry size with
  | (false, s) => some (false, s)
  | (true, s) => s.addKeyBytes size keyBytes

/-- The loop of `DecimalDigits`; `fuel` above `n` is enough. -/
def decimalDigitsLoop : Nat → Nat → Nat → Option Nat
  | 0, _, digits => some digits
  | fuel + 1, n, digits =>
      if n ≥ 10 then do
        let digits ← size.add digits 1
        decimalDigitsLoop fuel (n / 10) digits
      else some digits

def decimalDigits (n : Nat) : Option Nat := decimalDigitsLoop size (n + 1) n 1

def nextKeyBytes (s : LimitCheckingSax) :
    Option (Nat × LimitCheckingSax) :=
  if s.depth = 0 then some (0, s)
  else do
    let i ← size.sub s.depth 1
    let top ← s.frames[i]?
    let bytes ← size.add top.prefixBytes 1
    if top.isArray then
      let token ← decimalDigits size top.nextIndex
      let nextIndex ← size.add top.nextIndex 1
      let s ← s.setFrame i { top with nextIndex }
      let bytes ← size.add bytes token
      some (bytes, s)
    else
      let bytes ← size.add bytes s.pendingTokenBytes
      some (bytes, s)

def leaf (s : LimitCheckingSax) : Handled := do
  let s := { s with previousEventOpenedContainer := false }
  let (keyBytes, s) ← s.nextKeyBytes size
  s.countAndAdd size keyBytes

/-- `Open`. -/
def openContainer (s : LimitCheckingSax) (isArray : Bool) : Handled :=
  if s.depth ≥ kMaxJsonDepth then s.reject .nestingTooDeep
  else do
    let (keyBytes, s) ← s.nextKeyBytes size
    let s ← s.setFrame s.depth ⟨isArray, 0, keyBytes⟩
    let depth ← size.add s.depth 1
    some (true, { s with depth, previousEventOpenedContainer := true })

/-- `Close`. -/
def closeContainer (s : LimitCheckingSax) : Handled := do
  let wasEmpty := s.previousEventOpenedContainer
  let depth ← size.sub s.depth 1
  let s := { s with depth, previousEventOpenedContainer := false }
  if wasEmpty then
    let top ← s.frames[s.depth]?
    s.countAndAdd size top.prefixBytes
  else some (true, s)

/-- The loop of `key`: the bytes the escaped token takes. -/
def escapedBytes : Bytes → Nat → Option Nat
  | [], bytes => some bytes
  | c :: name, bytes =>
      if c = ch '~' ∨ c = ch '/' then do
        let bytes ← size.add bytes 1
        escapedBytes name bytes
      else escapedBytes name bytes

def key (s : LimitCheckingSax) (name : Bytes) : Handled :=
  let s := { s with previousEventOpenedContainer := false }
  if 0 ∈ name then s.reject .parseError
  else do
    let pendingTokenBytes ← escapedBytes size name name.length
    some (true, { s with pendingTokenBytes })

/-- The handler of an event. -/
def handle (s : LimitCheckingSax) : SaxEvent F → Handled
  | .null | .boolean _ | .numberInteger _ | .numberUnsigned _
  | .numberFloat _ | .string _ => s.leaf size
  | .binary _ => s.reject .parseError
  | .startObject => s.openContainer size false
  | .endObject => s.closeContainer size
  | .startArray => s.openContainer size true
  | .endArray => s.closeContainer size
  | .key name => s.key size name

/-- The parser calls the handlers in order and stops at the first
`false`. -/
def feed (s : LimitCheckingSax) : List (SaxEvent F) → Handled
  | [] => some (true, s)
  | event :: rest =>
      match s.handle size event with
      | none => none
      | some (false, s') => some (false, s')
      | some (true, s') => feed s' rest

end LimitCheckingSax

/-- `sax_parse` with a fresh scanner. An error in the text ends the parse
through `parse_error`, which leaves the scanner as it is. -/
def saxParse (size : SizeArith) (parser : Parser F) (text : Bytes) :
    LimitCheckingSax.Handled :=
  match LimitCheckingSax.init.feed size (parser.events text) with
  | none => none
  | some (fed, sax) => some (fed && parser.complete text, sax)

-- ============================================================= the leaves

/-- `ClassifyScalar`. -/
def classifyScalar : JsonValue F → JsonEntryType
  | .string _ => .string
  | .numberInteger _ | .numberUnsigned _ | .numberFloat _ => .number
  | .boolean _ => .bool
  | .null => .null
  | _ => .none

/-- `DescribeLeaf`: text and entry type of a leaf. -/
def describeLeaf [JsonFloat F] (node : JsonValue F) :
    Except Status (Bytes × JsonEntryType) :=
  if node.isObject || node.isArray then
    if !node.isEmpty then .error .typeMismatch
    else if node.isObject then .ok (literal ['{', '}'], .emptyObject)
    else .ok (literal ['[', ']'], .emptyArray)
  else
    match node.valueToText with
    | .error status => .error status
    | .ok text => .ok (text, classifyScalar node)

/-- `AppendEscapedToken`. -/
def appendEscapedToken (out : Bytes) : Bytes → Bytes
  | [] => out
  | c :: token =>
      if c = ch '~' then appendEscapedToken (out ++ [ch '~', ch '0']) token
      else if c = ch '/' then
        appendEscapedToken (out ++ [ch '~', ch '1']) token
      else appendEscapedToken (out ++ [c]) token

/-- `AppendLeaf`. -/
def appendLeaf [JsonFloat F] (key : Bytes) (node : JsonValue F)
    (entries : List FlatEntry) : Except Status (List FlatEntry) :=
  match describeLeaf node with
  | .error status => .error status
  | .ok (value, type) => .ok (entries ++ [⟨key, value, type⟩])

-- ========================================================== the traversal

/-- `std::string::resize`. -/
def resize (s : Bytes) (n : Nat) : Bytes :=
  s.take n ++ List.replicate (n - s.length) 0

/-- What `begin()` to `end()` runs over: an object's members, with their
`key()`, or an array's elements, which have none. -/
def JsonValue.items : JsonValue F → List (Bytes × JsonValue F)
  | .object members => members
  | .array elements => elements.map fun v => ([], v)
  | _ => []

/-- `Frame`; `next` to `end` is the list of items left. -/
structure Frame (F : Type) where
  next : List (Bytes × JsonValue F)
  index : Nat
  prefixSize : Nat
  isObject : Bool

/-- The frame pushed for a container. -/
def Frame.of (node : JsonValue F) (prefixSize : Nat) : Frame F :=
  ⟨node.items, 0, prefixSize, node.isObject⟩

/-- What is left to do under a frame. -/
def Frame.weight (frame : Frame F) : Nat :=
  1 + (frame.next.map fun c => c.2.weight).sum

theorem JsonValue.items_weight (v : JsonValue F) :
    (v.items.map fun c => c.2.weight).sum
      = (v.labelled.map fun c => c.2.weight).sum := by
  cases v with
  | array elements =>
      show ((elements.map fun v => (([] : Bytes), v)).map _).sum
        = ((JsonValue.indexed elements).map _).sum
      have hvalues := JsonValue.indexed_values elements
      calc ((elements.map fun v => (([] : Bytes), v)).map
              fun c => c.2.weight).sum
          = (elements.map JsonValue.weight).sum := by
            rw [List.map_map]
            rfl
        _ = (((JsonValue.indexed elements).map Prod.snd).map
              JsonValue.weight).sum := by rw [hvalues]
        _ = _ := by
            rw [List.map_map]
            rfl
  | _ => rfl

theorem Frame.weight_of (v : JsonValue F) (prefixSize : Nat) :
    (Frame.of v prefixSize).weight + 1 = v.weight := by
  rw [JsonValue.weight_eq, Frame.weight, Frame.of, JsonValue.items_weight]
  omega

/-- A child's frame and what its parent's frame keeps weigh less than the
child still to come. -/
theorem Frame.weight_push {key : Bytes} {child : JsonValue F}
    {next : List (Bytes × JsonValue F)} {index prefixSize n : Nat}
    {isObject : Bool} :
    (Frame.of child n).weight
        + Frame.weight ⟨next, index + 1, prefixSize, isObject⟩
      < Frame.weight ⟨(key, child) :: next, index, prefixSize,
          isObject⟩ := by
  have := Frame.weight_of child n
  simp only [Frame.weight, List.map_cons, List.sum_cons] at this ⊢
  omega

/-- The path of the item a frame is at. -/
def Frame.itemPath (frame : Frame F) (key path : Bytes) : Bytes :=
  let path := resize path frame.prefixSize ++ [ch '/']
  if frame.isObject then appendEscapedToken path key
  else path ++ decimal frame.index

/-- The loop of `FlattenDocument`; the top of the stack is the head. -/
def flattenLoop [JsonFloat F] (stack : List (Frame F)) (path : Bytes)
    (entries : List FlatEntry) : Except Status (List FlatEntry) :=
  match stack with
  | [] => .ok entries
  | ⟨[], _, _, _⟩ :: stack => flattenLoop stack path entries
  | ⟨(key, child) :: next, index, prefixSize, isObject⟩ :: stack =>
      let path := Frame.itemPath ⟨(key, child) :: next, index, prefixSize,
        isObject⟩ key path
      let frame : Frame F := ⟨next, index + 1, prefixSize, isObject⟩
      if child.isNonEmptyContainer then
        flattenLoop (Frame.of child path.length :: frame :: stack) path
          entries
      else
        match appendLeaf path child entries with
        | .error status => .error status
        | .ok entries => flattenLoop (frame :: stack) path entries
termination_by (stack.map Frame.weight).sum
decreasing_by
  · simp only [List.map_cons, List.sum_cons, Frame.weight]
    omega
  · rw [List.map_cons, List.map_cons, List.map_cons, List.sum_cons,
      List.sum_cons, List.sum_cons, ← Nat.add_assoc]
    apply Nat.add_lt_add_right
    exact Frame.weight_push
  · have := JsonValue.weight_eq child
    simp only [List.map_cons, List.sum_cons, Frame.weight]
    omega

/-- `FlattenDocument`. -/
def flattenDocument [JsonFloat F] (root : JsonValue F) :
    Except Status (List FlatEntry) :=
  if !root.isNonEmptyContainer then appendLeaf [] root []
  else flattenLoop [Frame.of root 0] [] []

-- ============================================================ flatten json

/-- `FlattenJson` on the text after the conversion. -/
def flattenConverted [JsonFloat F] (size : SizeArith) (parser : Parser F)
    (text : Bytes) : Option (Except Status (FlattenResult F)) :=
  match saxParse size parser text with
  | none => none
  | some (false, sax) => some (.error sax.failure)
  | some (true, _) =>
      match parser.parse text with
      | none => some (.error .parseError)
      | some document =>
          match flattenDocument document with
          | .error status => some (.error status)
          | .ok entries => some (.ok ⟨document, entries⟩)

/-- `FlattenJson`. -/
def flattenJson [JsonFloat F] (size : SizeArith) (parser : Parser F)
    (text : Bytes) : Option (Except Status (FlattenResult F)) :=
  if text.length > kMaxJsonInputBytes then some (.error .documentTooLarge)
  else if text.isEmpty then some (.error .parseError)
  else if 0 ∈ text then some (.error .parseError)
  else if ch '\'' ∈ text then
    match convertApostropheStrings text with
    | .error status => some (.error status)
    | .ok converted => flattenConverted size parser converted
  else flattenConverted size parser text

end RestifyCapl
