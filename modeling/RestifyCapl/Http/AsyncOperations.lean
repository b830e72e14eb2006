/-
The async request engine (http/async-operations.cpp): eight slots, the
id counter, the worker counters, and every critical section of the
engine mutex as one function. A caller's operation is one critical
section (Await one for each look at the slot); a worker's loop is cut
where it releases the mutex, around the idle wait and around
HttpClient::Perform.

What a critical section cannot decide is an argument: the seed the clock
gives, what the operating system answers when a thread is started, and
whether a wait ended by timeout. The minting loop is a `for (;;)`; it is
run for a full lap of the counter and has no result where a full lap
finds no id, since a second lap would look at the same slots.
-/
import RestifyCapl.Http.HttpClient
import RestifyCapl.Lib.Table
import Mathlib.Algebra.Group.Nat.Defs

namespace RestifyCapl.Http

open Lib

-- ================================================================ the data

def kAsyncRequestSlotCount : Nat := 8

def kDefaultAwaitTimeoutMs : UInt32 := 30000

inductive SlotState where
  | free
  | pending
  | running
  | complete
  | consumed
  | abandoned
deriving DecidableEq, Repr

structure Slot (T : Type) where
  state : SlotState := .free
  id : UInt32 := 0
  client : Option (HttpClient T) := none
  request : HttpRequest := {}
  cancelFlag : Bool := false
  response : HttpResponse := {}
  transportStatus : Status := .ok
deriving DecidableEq

/-- `moduleReferences` is the lifetime object's side of the engine: the
references acquired and not yet released. -/
structure AsyncEngine (T : Type) where
  slots : Fin kAsyncRequestSlotCount → Slot T := fun _ => {}
  liveWorkers : UInt32 := 0
  idleWorkers : UInt32 := 0
  wakeGeneration : UInt64 := 0
  idSeeded : Bool := false
  nextId : UInt32 := 0
  moduleReferences : Nat := 0

/-- What the lifetime object answers when a worker is started. -/
structure WorkerStart where
  acquired : Bool
  threadStarted : Bool
deriving DecidableEq

variable {T : Type}

/-- `*slot = s` for the slot at index `i`. -/
def AsyncEngine.setSlot (e : AsyncEngine T)
    (i : Fin kAsyncRequestSlotCount) (s : Slot T) : AsyncEngine T :=
  { e with slots := Function.update e.slots i s }

-- =========================================================== the searches

/-- Free or Consumed: `FindSlotForDispatchLocked`'s test. -/
def Slot.isReusable (s : Slot T) : Bool :=
  s.state == .free || s.state == .consumed

/-- Pending, Running or Complete: the states an id is live in. -/
def Slot.isLive (s : Slot T) : Bool :=
  s.state == .pending || s.state == .running || s.state == .complete

/-- Running or Abandoned: a worker is inside `Perform` for the slot. -/
def Slot.isBusy (s : Slot T) : Bool :=
  s.state == .running || s.state == .abandoned

def Slot.isPending (s : Slot T) : Bool := s.state == .pending

namespace AsyncEngine

/-- `FindSlotForDispatchLocked`. -/
def findSlotForDispatchLocked (e : AsyncEngine T) :
    Option (Fin kAsyncRequestSlotCount) :=
  findFirst Slot.isReusable e.slots

/-- `FindPendingSlotLocked`. -/
def findPendingSlotLocked (e : AsyncEngine T) :
    Option (Fin kAsyncRequestSlotCount) :=
  findFirst Slot.isPending e.slots

/-- `CountPendingSlotsLocked`. -/
def countPendingSlotsLocked (e : AsyncEngine T) : UInt32 :=
  UInt32.ofNat (count Slot.isPending e.slots)

/-- `FindLiveSlotLocked`. -/
def findLiveSlotLocked (e : AsyncEngine T) (requestId : UInt32) :
    Option (Fin kAsyncRequestSlotCount) :=
  if requestId = 0 then none
  else findFirst (fun s => s.id == requestId && s.isLive) e.slots

/-- `IsIdLiveLocked`: unlike `findLiveSlotLocked` it also counts an
Abandoned slot, whose id must not be handed out again. -/
def isIdLiveLocked (e : AsyncEngine T) (id : UInt32) : Bool :=
  (findFirst (fun s => s.id == id && !s.isReusable) e.slots).isSome

-- ============================================================== minting

/-- The loop of `MintIdLocked`, for at most `fuel` rounds: the id it
returns and the counter it leaves. -/
def mintLoop (live : UInt32 → Bool) : Nat → UInt32 →
    Option (UInt32 × UInt32)
  | 0, _ => none
  | fuel + 1, nextId =>
      if nextId = 0 then mintLoop live fuel (nextId + 1)
      else if !live nextId then some (nextId, nextId + 1)
      else mintLoop live fuel (nextId + 1)

/-- `MintIdLocked`: the seed becomes the first candidate, once. -/
def mintIdLocked (e : AsyncEngine T) (seed : UInt32) :
    Option (UInt32 × AsyncEngine T) :=
  let nextId := if e.idSeeded then e.nextId else seed
  match mintLoop e.isIdLiveLocked (2 ^ 32) nextId with
  | none => none
  | some (id, next) => some (id, { e with idSeeded := true, nextId := next })

-- =========================================================== slot contents

/-- `FreeSlotContentsLocked`: everything but the state. -/
def freeSlotContentsLocked (s : Slot T) : Slot T :=
  { s with client := none, request := {}, response := {},
           transportStatus := .ok, cancelFlag := false, id := 0 }

/-- `StartWorkerLocked`. A reference that was acquired for a thread that
did not start is released again. -/
def startWorkerLocked (e : AsyncEngine T) (start : WorkerStart) :
    Bool × AsyncEngine T :=
  if !start.acquired then (false, e)
  else
    let acquired := { e with moduleReferences := e.moduleReferences + 1 }
    if !start.threadStarted then
      (false,
        { acquired with moduleReferences := acquired.moduleReferences - 1 })
    else (true, { acquired with liveWorkers := acquired.liveWorkers + 1 })

-- ========================================================== worker sections

/-- What a worker does when it lets go of the mutex. -/
inductive WorkerNext where
  | perform (slot : Fin kAsyncRequestSlotCount)
  | wait (observedGeneration : UInt64)
  | exit
deriving DecidableEq

/-- `pending->state = SlotState::Running`. -/
def claim (e : AsyncEngine T) (i : Fin kAsyncRequestSlotCount) :
    AsyncEngine T :=
  e.setSlot i { e.slots i with state := .running }

/-- The top of the loop in `WorkerLoop`, mutex held: claim a Pending slot
or go to the idle wait. -/
def workerTop (e : AsyncEngine T) : WorkerNext × AsyncEngine T :=
  match e.findPendingSlotLocked with
  | some i => (.perform i, e.claim i)
  | none =>
      (.wait e.wakeGeneration, { e with idleWorkers := e.idleWorkers + 1 })

/-- The idle wait's return: claim, keep waiting, or leave the pool. -/
def workerWake (e : AsyncEngine T) (observedGeneration : UInt64)
    (timeout : Bool) : WorkerNext × AsyncEngine T :=
  match e.findPendingSlotLocked with
  | some i =>
      (.perform i, { e with idleWorkers := e.idleWorkers - 1 }.claim i)
  | none =>
      if timeout || e.wakeGeneration != observedGeneration then
        (.exit, { e with idleWorkers := e.idleWorkers - 1,
                         liveWorkers := e.liveWorkers - 1 })
      else (.wait observedGeneration, e)

/-- The relock after `Perform`: publish the outcome, or free a slot whose
request was abandoned meanwhile. -/
def workerFinish (e : AsyncEngine T) (i : Fin kAsyncRequestSlotCount)
    (result : Status) (response : HttpResponse) : AsyncEngine T :=
  if (e.slots i).state = .abandoned then
    e.setSlot i { freeSlotContentsLocked (e.slots i) with state := .free }
  else
    e.setSlot i { e.slots i with response := response,
                                 transportStatus := result,
                                 state := .complete }

-- ========================================================= caller sections

/-- What `Dispatch` leaves behind besides the engine. -/
structure DispatchResult (T : Type) where
  status : Status
  requestId : UInt32
  threadStarted : Bool
  notified : Bool
  engine : AsyncEngine T

/-- The slot `Dispatch` has filled: contents freed, then the request and
its own cancel flag put in. -/
def dispatchedSlot (s : Slot T) (i : Fin kAsyncRequestSlotCount)
    (id : UInt32) (client : HttpClient T) (request : HttpRequest) :
    Slot T :=
  { freeSlotContentsLocked s with
      id := id, client := some client,
      request := { request with cancelFlag := some i.val },
      state := .pending }

/-- `Dispatch`. -/
def dispatch (e : AsyncEngine T) (client : HttpClient T)
    (request : HttpRequest) (start : WorkerStart) (seed : UInt32) :
    Option (DispatchResult T) :=
  match e.findSlotForDispatchLocked with
  | none => some ⟨.noFreeRequestSlot, 0, false, false, e⟩
  | some i =>
      let freed := e.setSlot i (freeSlotContentsLocked (e.slots i))
      match freed.mintIdLocked seed with
      | none => none
      | some (id, minted) =>
          let filled := minted.setSlot i
            (dispatchedSlot (minted.slots i) i id client request)
          let needsWorker :=
            filled.countPendingSlotsLocked > filled.idleWorkers
              && filled.liveWorkers < UInt32.ofNat kAsyncRequestSlotCount
          let started :=
            if needsWorker then filled.startWorkerLocked start
            else (true, filled)
          if started.1 then
            some ⟨.ok, id, needsWorker, true,
              { started.2 with
                  wakeGeneration := started.2.wakeGeneration + 1 }⟩
          else
            some ⟨.asyncStartFailed, 0, false, false,
              started.2.setSlot i
                { freeSlotContentsLocked (started.2.slots i) with
                    state := .free }⟩

/-- `Poll`: the status and the state it reports. -/
def poll (e : AsyncEngine T) (requestId : UInt32) : Status × Int32 :=
  match e.findLiveSlotLocked requestId with
  | none => (.unknownRequestId, 0)
  | some i => (.ok, if (e.slots i).state = .complete then 2 else 1)

/-- `Await` up to its first wait: a status, or the timeout it resolved. -/
def await (e : AsyncEngine T) (requestId waitTimeoutMs : UInt32) :
    Status ⊕ UInt32 :=
  match e.findLiveSlotLocked requestId with
  | none => .inl .unknownRequestId
  | some i =>
      if (e.slots i).state = .complete then .inl .ok
      else if waitTimeoutMs ≠ 0 then .inr waitTimeoutMs
      else if (e.slots i).request.options.totalTimeoutMs ≠ 0 then
        .inr (e.slots i).request.options.totalTimeoutMs
      else .inr kDefaultAwaitTimeoutMs

/-- One round of `Await`'s loop: a status, or `none` to wait again. -/
def awaitCheck (e : AsyncEngine T) (requestId : UInt32)
    (timeout : Bool) : Option Status :=
  match e.findLiveSlotLocked requestId with
  | none => some .unknownRequestId
  | some i =>
      if (e.slots i).state = .complete then some .ok
      else if timeout then some .waitTimeout
      else none

/-- `Read`'s status and out-parameters. -/
structure ReadResult where
  status : Status
  responseBody : CharBuffer
  requestStatus : Int32
  httpStatusCode : Int32
  responseBodyLength : UInt32
deriving DecidableEq

/-- `Read` on a Complete slot: the out-parameters are written before the
copy is tried, so a buffer too small does not erase them. -/
def readSlot (s : Slot T) (responseBody : CharBuffer) : ReadResult :=
  let copied := copyToBuffer s.response.body responseBody
  { status := copied.1
    responseBody := copied.2
    requestStatus := s.transportStatus.toInt32
    httpStatusCode := s.response.statusCode
    responseBodyLength := UInt32.ofNat s.response.body.length }

/-- `Read`. -/
def read (e : AsyncEngine T) (requestId : UInt32)
    (responseBody : CharBuffer) : ReadResult × AsyncEngine T :=
  match e.findLiveSlotLocked requestId with
  | none => (⟨.unknownRequestId, responseBody, 0, 0, 0⟩, e)
  | some i =>
      if (e.slots i).state ≠ .complete then
        (⟨.requestNotComplete, responseBody, 0, 0, 0⟩, e)
      else
        let result := readSlot (e.slots i) responseBody
        if result.status = .ok then
          (result, e.setSlot i { e.slots i with state := .consumed })
        else (result, e)

/-- `Discard`'s effect on the live slot it found. -/
def discardedSlot (s : Slot T) : Slot T :=
  if s.state = .running then
    { s with state := .abandoned, cancelFlag := true }
  else { s with state := .consumed }

/-- `Discard`. -/
def discard (e : AsyncEngine T) (requestId : UInt32) :
    Status × AsyncEngine T :=
  match e.findLiveSlotLocked requestId with
  | none => (.unknownRequestId, e)
  | some i => (.ok, e.setSlot i (discardedSlot (e.slots i)))

/-- `DiscardAll`'s switch on one slot. -/
def discardAllSlot (s : Slot T) : Slot T :=
  match s.state with
  | .pending | .complete | .consumed =>
      { freeSlotContentsLocked s with state := .free }
  | .running => { s with cancelFlag := true, state := .abandoned }
  | .free | .abandoned => s

/-- `DiscardAll`: the number of slots still running, and the engine. -/
def discardAll (e : AsyncEngine T) : UInt32 × AsyncEngine T :=
  (UInt32.ofNat (count (fun s => s.state == .running) e.slots),
    { e with slots := fun i => discardAllSlot (e.slots i),
             wakeGeneration := e.wakeGeneration + 1 })

end AsyncEngine

end RestifyCapl.Http
