/-
The engine with everyone around it: any number of callers, the worker
threads the engine has started, and the two condition variables. One
step is one critical section of the engine mutex, or one of the things a
worker does with the mutex released: calling `Perform`, looking at its
cancel flag, coming back, leaving the thread.

A worker reads its slot through the pointer it kept, so `perform` reads
the client and the request out of the table at the moment of the call,
not at the moment of the claim. Waits may end at any time (a timeout, a
notification or a spurious wakeup), so a step that ends one is always
enabled; `notified` only records whether a notification has come since
the waiter last looked.

A history of this machine holds what callers asked and were told, and
what workers claimed, performed and got back. `Issues`, `Performs` and
`ReadsOk` are the three kinds of events the results speak about.
-/
import RestifyCapl.Http.AsyncOperations
import RestifyCapl.Lib.Machine
import RestifyCapl.Lib.History

namespace RestifyCapl.Http

open Lib

variable {T : Type}

-- ============================================================ the parties

/-- One call of `HttpClient::Perform`, with what it read from the slot. -/
structure PerformCall (T : Type) where
  slot : Fin kAsyncRequestSlotCount
  id : UInt32
  client : HttpClient T
  request : HttpRequest
deriving DecidableEq

/-- Where a worker thread is. `started` has not taken its first lock,
`exiting` has left the pool but still holds its module reference. -/
inductive Worker (T : Type) where
  | started
  | waiting (observedGeneration : UInt64) (notified : Bool)
  | claimed (slot : Fin kAsyncRequestSlotCount)
  | performing (call : PerformCall T) (sawCancel : Bool)
  | performed (call : PerformCall T) (result : Status)
      (response : HttpResponse)
  | exiting
  | exited
deriving DecidableEq

/-- A caller inside `Await`'s wait, or the status it returned with. -/
inductive Awaiter where
  | waiting (requestId : UInt32) (timeoutMs : UInt32) (notified : Bool)
  | returned (status : Status)
deriving DecidableEq

structure System (T : Type) where
  engine : AsyncEngine T := {}
  workers : List (Worker T) := []
  awaiters : List Awaiter := []

/-- The slot a worker holds a pointer to while the mutex is released:
from the claim to the relock. -/
def Worker.slot? : Worker T → Option (Fin kAsyncRequestSlotCount)
  | .claimed i => some i
  | .performing call _ => some call.slot
  | .performed call _ _ => some call.slot
  | _ => none

def Worker.isWaiting : Worker T → Bool
  | .waiting _ _ => true
  | _ => false

def Worker.isStarted : Worker T → Bool
  | .started => true
  | _ => false

/-- Between a claim and the relock after `Perform`. -/
def Worker.isBusy (w : Worker T) : Bool := w.slot?.isSome

-- ============================================================ notification

def Worker.notify : Worker T → Worker T
  | .waiting g _ => .waiting g true
  | w => w

def Awaiter.notify : Awaiter → Awaiter
  | .waiting id ms _ => .waiting id ms true
  | a => a

/-- `workAvailable_.notify_all()`. -/
def notifyWorkers (ws : List (Worker T)) : List (Worker T) :=
  ws.map Worker.notify

/-- `slotChanged_.notify_all()`. -/
def notifyAwaiters (as : List Awaiter) : List Awaiter :=
  as.map Awaiter.notify

-- ================================================================ actions

inductive Action (T : Type) where
  | dispatch (client : HttpClient T) (request : HttpRequest)
      (start : WorkerStart) (seed : UInt32)
  | poll (requestId : UInt32)
  | await (requestId waitTimeoutMs : UInt32)
  | awaitWake (caller : Nat) (timeout : Bool)
  | read (requestId : UInt32) (responseBody : CharBuffer)
  | discard (requestId : UInt32)
  | discardAll
  | firstLock (worker : Nat)
  | wake (worker : Nat) (timeout : Bool)
  | perform (worker : Nat)
  | observeCancel (worker : Nat)
  | performReturn (worker : Nat) (answer : Status × HttpResponse)
  | relock (worker : Nat)
  | exitThread (worker : Nat)
deriving DecidableEq

/-- What a step told its caller, or did as a worker. -/
inductive Answer (T : Type) where
  | dispatched (status : Status) (requestId : UInt32)
  | polled (status : Status) (state : Int32)
  | awaiting
  | awaited (status : Status)
  | read (result : AsyncEngine.ReadResult)
  | discarded (status : Status)
  | discardedAll (status : Status) (stillRunning : UInt32)
  | worker (next : AsyncEngine.WorkerNext)
  | performing (call : PerformCall T)
  | observed (cancelled : Bool)
  | performReturned (call : PerformCall T) (result : Status)
      (response : HttpResponse)
  | threadExited
deriving DecidableEq

-- ================================================================== steps

/-- A worker lets go of the mutex. -/
def Worker.ofNext : AsyncEngine.WorkerNext → Worker T
  | .perform i => .claimed i
  | .wait g => .waiting g false
  | .exit => .exiting

/-- Worker `w` ends a critical section. -/
def System.letGo (s : System T) (w : Nat)
    (r : AsyncEngine.WorkerNext × AsyncEngine T) : Answer T × System T :=
  (.worker r.1,
    { s with engine := r.2, workers := s.workers.set w (.ofNext r.1) })

/-- The cancel flags by address: slot `i`'s flag is at address `i`. -/
def AsyncEngine.flagAt (e : AsyncEngine T) (address : Nat) : Bool :=
  if h : address < kAsyncRequestSlotCount then
    (e.slots ⟨address, h⟩).cancelFlag
  else false

/-- `lock.lock()` after `Perform`, up to `slotChanged_.notify_all()`. -/
def System.finish (s : System T) (call : PerformCall T) (result : Status)
    (response : HttpResponse) : System T :=
  { s with engine := s.engine.workerFinish call.slot result response,
           awaiters := notifyAwaiters s.awaiters }

/-- One step of the system. -/
def System.step (s : System T) : Action T → Option (Answer T × System T)
  | .dispatch client request start seed =>
      match s.engine.dispatch client request start seed with
      | none => none
      | some r =>
          some (.dispatched r.status r.requestId,
            { s with
                engine := r.engine
                workers :=
                  (if r.notified then notifyWorkers s.workers
                    else s.workers)
                  ++ (if r.threadStarted then [.started] else []) })
  | .poll id => some (.polled (s.engine.poll id).1 (s.engine.poll id).2, s)
  | .await id ms =>
      match s.engine.await id ms with
      | .inl status => some (.awaited status, s)
      | .inr timeoutMs =>
          some (.awaiting,
            { s with awaiters := s.awaiters ++ [.waiting id timeoutMs false] })
  | .awaitWake k timeout =>
      match s.awaiters[k]? with
      | some (.waiting id ms _) =>
          match s.engine.awaitCheck id timeout with
          | some status =>
              some (.awaited status,
                { s with awaiters := s.awaiters.set k (.returned status) })
          | none =>
              some (.awaiting,
                { s with awaiters := s.awaiters.set k (.waiting id ms false) })
      | _ => none
  | .read id buffer =>
      some (.read (s.engine.read id buffer).1,
        { s with engine := (s.engine.read id buffer).2 })
  | .discard id =>
      some (.discarded (s.engine.discard id).1,
        { s with
            engine := (s.engine.discard id).2
            awaiters :=
              if (s.engine.discard id).1 = .ok then notifyAwaiters s.awaiters
              else s.awaiters })
  | .discardAll =>
      some (.discardedAll .ok s.engine.discardAll.1,
        { engine := s.engine.discardAll.2
          workers := notifyWorkers s.workers
          awaiters := notifyAwaiters s.awaiters })
  | .firstLock w =>
      match s.workers[w]? with
      | some .started => some (s.letGo w s.engine.workerTop)
      | _ => none
  | .wake w timeout =>
      match s.workers[w]? with
      | some (.waiting g _) => some (s.letGo w (s.engine.workerWake g timeout))
      | _ => none
  | .perform w =>
      match s.workers[w]? with
      | some (.claimed i) =>
          -- dereferencing an empty optional has no behaviour
          match (s.engine.slots i).client with
          | none => none
          | some client =>
              let call := ⟨i, (s.engine.slots i).id, client,
                (s.engine.slots i).request⟩
              some (.performing call,
                { s with workers := s.workers.set w (.performing call false) })
      | _ => none
  | .observeCancel w =>
      match s.workers[w]? with
      | some (.performing call saw) =>
          let cancelled :=
            shouldCancelTransfer s.engine.flagAt call.request.cancelFlag
          some (.observed cancelled,
            { s with
                workers := s.workers.set w
                  (.performing call (saw || cancelled)) })
      | _ => none
  | .performReturn w answer =>
      match s.workers[w]? with
      | some (.performing call _) =>
          let outcome := call.client.perform answer call.request {}
          some (.performReturned call outcome.1 outcome.2,
            { s with
                workers := s.workers.set w
                  (.performed call outcome.1 outcome.2) })
      | _ => none
  | .relock w =>
      match s.workers[w]? with
      | some (.performed call result response) =>
          let finished := s.finish call result response
          some (finished.letGo w finished.engine.workerTop)
      | _ => none
  | .exitThread w =>
      match s.workers[w]? with
      | some .exiting =>
          some (.threadExited,
            { s with
                engine := { s.engine with
                  moduleReferences := s.engine.moduleReferences - 1 }
                workers := s.workers.set w .exited })
      | _ => none

/-- The engine as constructed, before any thread exists. -/
def asyncMachine (T : Type) : Machine (System T) (Action T) (Answer T) where
  start s := s = {}
  step := System.step

/-- Runs of the engine from construction. -/
abbrev AsyncReach (T : Type) :
    List (Action T × Answer T) → System T → Prop :=
  (asyncMachine T).Reach

-- ================================================================== events

/-- A Dispatch returned Ok with this id. -/
def Issues (id : UInt32) (e : Action T × Answer T) : Prop :=
  ∃ client request start seed,
    e = (.dispatch client request start seed, .dispatched .ok id)

/-- A `Perform` call was made for the request under this id. -/
def Performs (id : UInt32) (e : Action T × Answer T) : Prop :=
  ∃ w call, e = (.perform w, .performing call) ∧ call.id = id

/-- A Read of this id returned Ok. -/
def ReadsOk (id : UInt32) (e : Action T × Answer T) : Prop :=
  ∃ buffer result, e = (.read id buffer, .read result) ∧ result.status = .ok

end RestifyCapl.Http
