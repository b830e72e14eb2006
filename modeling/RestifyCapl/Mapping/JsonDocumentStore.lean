/-
`JsonDocumentStore` (mapping/json-document-store.cpp): eight slots for
flattened documents under minted ids. Every method is one critical
section, so each is one function of the store.

An out-parameter is an `Option`: what the method wrote, if it wrote. The
clock's ticks are an argument of `Insert`, which seeds the counter with
them once. The loop of `MintIdLocked` is `Lib.mint`, run for a full lap
of the counter: where that finds no id, the source's `for (;;)` would
not end.
-/
import RestifyCapl.Lib.Machine
import RestifyCapl.Lib.Mint
import RestifyCapl.Lib.Table
import RestifyCapl.Mapping.JsonFlatten

namespace RestifyCapl

open Lib

variable {F : Type}

def kJsonDocumentSlotCount : Nat := 8

/-- What a moved-from `FlattenResult` holds, and a fresh one. -/
def FlattenResult.empty : FlattenResult F := ⟨.null, []⟩

/-- `CopyEntryTexts`: the status, and both buffers after it. -/
def copyEntryTexts (entry : FlatEntry) (key value : CharBuffer) :
    Status × CharBuffer × CharBuffer :=
  if key.unusable || value.unusable then (.invalidArgument, key, value)
  else
    let (keyStatus, key) := copyToBuffer entry.key key
    let (valueStatus, value) := copyToBuffer entry.value value
    if keyStatus = .ok ∧ valueStatus = .ok then (.ok, key, value)
    else (.bufferTooSmall, key.store [0], value.store [0])

structure JsonDocumentStore.Slot (F : Type) where
  occupied : Bool
  id : UInt32
  result : FlattenResult F

structure JsonDocumentStore (F : Type) where
  slots : Fin kJsonDocumentSlotCount → JsonDocumentStore.Slot F
  idSeeded : Bool
  nextId : UInt32

namespace JsonDocumentStore

/-- A default-constructed store. -/
def fresh : JsonDocumentStore F where
  slots := fun _ => ⟨false, 0, .empty⟩
  idSeeded := false
  nextId := 0

/-- `JsonDocumentStore(firstId)`. -/
def ofFirstId (firstId : UInt32) : JsonDocumentStore F :=
  { fresh with idSeeded := true, nextId := firstId }

-- =========================================================== the searches

/-- `FindFreeSlotLocked`. -/
def findFreeSlotLocked (s : JsonDocumentStore F) :
    Option (Fin kJsonDocumentSlotCount) :=
  findFirst (fun slot => !slot.occupied) s.slots

/-- `FindLiveSlotLocked`. -/
def findLiveSlotLocked (s : JsonDocumentStore F) (documentId : UInt32) :
    Option (Fin kJsonDocumentSlotCount) :=
  if documentId = 0 then none
  else findFirst (fun slot => slot.occupied && slot.id == documentId) s.slots

/-- `IsIdLiveLocked`. -/
def isIdLiveLocked (s : JsonDocumentStore F) (id : UInt32) : Bool :=
  (findFirst (fun slot => slot.occupied && slot.id == id) s.slots).isSome

/-- `MintIdLocked`: the ticks become the first candidate, once. -/
def mintIdLocked (s : JsonDocumentStore F) (ticks : UInt64) :
    Option (UInt32 × JsonDocumentStore F) :=
  let nextId := if s.idSeeded then s.nextId else ticks.toUInt32
  match mint s.isIdLiveLocked (2 ^ 32) nextId with
  | none => none
  | some (id, nextId) => some (id, { s with idSeeded := true, nextId })

-- =========================================================== the methods

/-- What `Insert` did: its status, the id it wrote, and what is left in
the caller's result, which is moved from only on `Ok`. -/
structure InsertResult (F : Type) where
  status : Status
  documentId : Option UInt32
  result : FlattenResult F

/-- `Insert`. -/
def insert (s : JsonDocumentStore F) (result : FlattenResult F)
    (ticks : UInt64) : Option (InsertResult F × JsonDocumentStore F) :=
  match s.findFreeSlotLocked with
  | none => some (⟨.noFreeDocumentSlot, none, result⟩, s)
  | some i =>
      match s.mintIdLocked ticks with
      | none => none
      | some (id, s) =>
          some (⟨.ok, some id, .empty⟩,
            { s with slots := Function.update s.slots i ⟨true, id, result⟩ })

/-- `Count`. -/
def count (s : JsonDocumentStore F) (documentId : UInt32) :
    Status × Option UInt32 :=
  match s.findLiveSlotLocked documentId with
  | none => (.unknownDocumentId, none)
  | some i => (.ok, some (UInt32.ofNat (s.slots i).result.entries.length))

/-- `ReadEntry`, past the slot. -/
def readEntryOf (result : FlattenResult F) (entryIndex : UInt32)
    (key value : CharBuffer) :
    Status × CharBuffer × CharBuffer × Option JsonEntryType :=
  match result.entries[entryIndex.toNat]? with
  | none => (.indexOutOfRange, key, value, none)
  | some entry =>
      let (copyStatus, key, value) := copyEntryTexts entry key value
      (copyStatus, key, value,
        if copyStatus = .ok then some entry.type else none)

/-- `ReadEntry`. -/
def readEntry (s : JsonDocumentStore F) (documentId entryIndex : UInt32)
    (key value : CharBuffer) :
    Status × CharBuffer × CharBuffer × Option JsonEntryType :=
  match s.findLiveSlotLocked documentId with
  | none => (.unknownDocumentId, key, value, none)
  | some i => readEntryOf (s.slots i).result entryIndex key value

/-- `ReadValue`, past the slot. -/
def readValueOf [JsonFloat F] (result : FlattenResult F) (path : StringView)
    (value : CharBuffer) : Status × CharBuffer × Option JsonEntryType :=
  match resolvePath result.document path with
  | .error status => (status, value, none)
  | .ok node =>
      match describeLeaf node.value with
      | .error status => (status, value, none)
      | .ok (text, type) =>
          let (status, value) := copyToBuffer text value
          (status, value, if status = .ok then some type else none)

/-- `ReadValue`. -/
def readValue [JsonFloat F] (s : JsonDocumentStore F) (documentId : UInt32)
    (path : StringView) (value : CharBuffer) :
    Status × CharBuffer × Option JsonEntryType :=
  match s.findLiveSlotLocked documentId with
  | none => (.unknownDocumentId, value, none)
  | some i => readValueOf (s.slots i).result path value

/-- `ReadWithTokens`. The callback's status is the method's; what else it
computes comes back with it, if it was called. -/
def readWithTokens {ρ : Type} (s : JsonDocumentStore F) (documentId : UInt32)
    (path : StringView) (read : JsonValue F → PathTokens → Status × ρ) :
    Status × Option ρ :=
  match parsePath path with
  | .error pathStatus => (pathStatus, none)
  | .ok tokens =>
      match s.findLiveSlotLocked documentId with
      | none => (.unknownDocumentId, none)
      | some i =>
          let (status, out) := read (s.slots i).result.document tokens
          (status, some out)

/-- `ReadWith`. -/
def readWith {ρ : Type} (s : JsonDocumentStore F) (documentId : UInt32)
    (path : StringView) (read : JsonValue F → Status × ρ) :
    Status × Option ρ :=
  s.readWithTokens documentId path fun document _ => read document

/-- A slot after its document was moved out. -/
def vacated : Slot F := ⟨false, 0, .empty⟩

/-- `Discard`. -/
def discard (s : JsonDocumentStore F) (documentId : UInt32) :
    Status × JsonDocumentStore F :=
  match s.findLiveSlotLocked documentId with
  | none => (.unknownDocumentId, s)
  | some i => (.ok, { s with slots := Function.update s.slots i vacated })

/-- `DiscardAll`. -/
def discardAll (s : JsonDocumentStore F) :
    Status × UInt32 × JsonDocumentStore F :=
  (.ok, UInt32.ofNat (Lib.count Slot.occupied s.slots),
    { s with slots := fun i =>
      if (s.slots i).occupied then vacated else s.slots i })

end JsonDocumentStore

-- ============================================================= the machine

/-- The calls on a store, in the order the mutex gives them. -/
inductive StoreAction (F ρ : Type) where
  | insert (result : FlattenResult F) (ticks : UInt64)
  | count (documentId : UInt32)
  | readEntry (documentId entryIndex : UInt32) (key value : CharBuffer)
  | readValue (documentId : UInt32) (path : StringView) (value : CharBuffer)
  | readWithTokens (documentId : UInt32) (path : StringView)
      (read : JsonValue F → PathTokens → Status × ρ)
  | discard (documentId : UInt32)
  | discardAll

/-- What a call gives back. -/
inductive StoreAnswer (F ρ : Type) where
  | inserted (r : JsonDocumentStore.InsertResult F)
  | counted (status : Status) (entryCount : Option UInt32)
  | entry (status : Status) (key value : CharBuffer)
      (valueType : Option JsonEntryType)
  | value (status : Status) (value : CharBuffer)
      (valueType : Option JsonEntryType)
  | read (status : Status) (out : Option ρ)
  | discarded (status : Status)
  | discardedAll (status : Status) (discardedCount : UInt32)

namespace JsonDocumentStore

variable {ρ : Type} [JsonFloat F]

def step (s : JsonDocumentStore F) :
    StoreAction F ρ → Option (StoreAnswer F ρ × JsonDocumentStore F)
  | .insert result ticks =>
      match s.insert result ticks with
      | none => none
      | some (r, s) => some (.inserted r, s)
  | .count documentId =>
      let (status, entryCount) := s.count documentId
      some (.counted status entryCount, s)
  | .readEntry documentId entryIndex key value =>
      let (status, key, value, valueType) :=
        s.readEntry documentId entryIndex key value
      some (.entry status key value valueType, s)
  | .readValue documentId path value =>
      let (status, value, valueType) := s.readValue documentId path value
      some (.value status value valueType, s)
  | .readWithTokens documentId path read =>
      let (status, out) := s.readWithTokens documentId path read
      some (.read status out, s)
  | .discard documentId =>
      let (status, s) := s.discard documentId
      some (.discarded status, s)
  | .discardAll =>
      let (status, discardedCount, s) := s.discardAll
      some (.discardedAll status discardedCount, s)

end JsonDocumentStore

/-- A store, from construction on, under any sequence of calls. -/
def storeMachine (F ρ : Type) [JsonFloat F] :
    Machine (JsonDocumentStore F) (StoreAction F ρ) (StoreAnswer F ρ) where
  start s := s = .fresh ∨ ∃ firstId, s = .ofFirstId firstId
  step s a := s.step a

end RestifyCapl
