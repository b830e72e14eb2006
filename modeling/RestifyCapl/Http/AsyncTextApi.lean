/-
The pointer-and-size calls that dispatch (http/async-text-api.cpp): the
texts are read and checked as in the synchronous surface, the empty url
and the forbidden body by checks of their own, and the request is handed
to the engine.

What `Dispatch` cannot decide, the answer to a worker start and the
clock's seed, is an argument here as it is there. The calls that only
forward to the engine (Poll, Await, Read, Discard, DiscardAll) are the
engine's own functions.
-/
import RestifyCapl.Http.AsyncOperations
import RestifyCapl.Http.SyncTextApi

namespace RestifyCapl.Http

variable {T : Type}

/-- What a call leaves, with the requests it handed to the engine. -/
structure AsyncResult (T : Type) where
  result : AsyncEngine.DispatchResult T
  handed : List HttpRequest

/-- `return status;` before the engine is called. -/
def AsyncResult.refused (status : Status) (engine : AsyncEngine T) :
    AsyncResult T :=
  ⟨⟨status, 0, false, false, engine⟩, []⟩

/-- `return engine.Dispatch(client, request, requestId);` -/
def handOver (client : HttpClient T) (engine : AsyncEngine T)
    (request : HttpRequest) (start : WorkerStart) (seed : UInt32) :
    Option (AsyncResult T) :=
  match engine.dispatch client request start seed with
  | none => none
  | some result => some ⟨result, [request]⟩

/-- `DispatchNoBodyVerb`. -/
def dispatchNoBodyVerb (client : HttpClient T) (engine : AsyncEngine T)
    (method : HttpMethod) (urlText headersText : CharBuffer)
    (start : WorkerStart) (seed : UInt32) : Option (AsyncResult T) :=
  match boundedText urlText with
  | .error status => some (.refused status engine)
  | .ok urlView =>
  match boundedText headersText with
  | .error status => some (.refused status engine)
  | .ok headersView =>
  match parseHeaderBlock headersView with
  | .error status => some (.refused status engine)
  | .ok headers =>
      if urlView.isEmpty then some (.refused .invalidArgument engine)
      else
        handOver client engine
          { method := method, url := urlView, headers := headers,
            options := makeRequestOptions 0 0 0 }
          start seed

/-- `DispatchBodyVerb`. -/
def dispatchBodyVerb (client : HttpClient T) (engine : AsyncEngine T)
    (method : HttpMethod) (urlText headersText bodyText : CharBuffer)
    (start : WorkerStart) (seed : UInt32) : Option (AsyncResult T) :=
  match boundedText urlText with
  | .error status => some (.refused status engine)
  | .ok urlView =>
  match boundedText headersText with
  | .error status => some (.refused status engine)
  | .ok headersView =>
  match boundedText bodyText with
  | .error status => some (.refused status engine)
  | .ok bodyView =>
  match parseHeaderBlock headersView with
  | .error status => some (.refused status engine)
  | .ok headers =>
      if urlView.isEmpty then some (.refused .invalidArgument engine)
      else
        handOver client engine
          { method := method, url := urlView, headers := headers,
            body := bodyView, options := makeRequestOptions 0 0 0 }
          start seed

/-- `DispatchRequestAsync`. -/
def dispatchRequestAsync (client : HttpClient T) (engine : AsyncEngine T)
    (methodText urlText headersText bodyText : CharBuffer)
    (connectTimeoutMs totalTimeoutMs maxResponseBytes : UInt32)
    (start : WorkerStart) (seed : UInt32) : Option (AsyncResult T) :=
  match boundedText methodText with
  | .error status => some (.refused status engine)
  | .ok methodView =>
  match boundedText urlText with
  | .error status => some (.refused status engine)
  | .ok urlView =>
  match boundedText headersText with
  | .error status => some (.refused status engine)
  | .ok headersView =>
  match boundedText bodyText with
  | .error status => some (.refused status engine)
  | .ok bodyView =>
  match parseMethodText methodView with
  | .error status => some (.refused status engine)
  | .ok method =>
  match parseHeaderBlock headersView with
  | .error status => some (.refused status engine)
  | .ok headers =>
      if urlView.isEmpty then some (.refused .invalidArgument engine)
      else if methodForbidsBody method && !bodyView.isEmpty then
        some (.refused .invalidArgument engine)
      else
        handOver client engine
          { method := method, url := urlView, headers := headers,
            body := bodyView,
            options := makeRequestOptions connectTimeoutMs totalTimeoutMs
              maxResponseBytes }
          start seed

/-- `DispatchGetAsync`. -/
def dispatchGetAsync (client : HttpClient T) (engine : AsyncEngine T)
    (urlText headersText : CharBuffer) (start : WorkerStart)
    (seed : UInt32) : Option (AsyncResult T) :=
  dispatchNoBodyVerb client engine .get urlText headersText start seed

/-- `DispatchDeleteAsync`. -/
def dispatchDeleteAsync (client : HttpClient T) (engine : AsyncEngine T)
    (urlText headersText : CharBuffer) (start : WorkerStart)
    (seed : UInt32) : Option (AsyncResult T) :=
  dispatchNoBodyVerb client engine .delete urlText headersText start seed

/-- `DispatchPostAsync`. -/
def dispatchPostAsync (client : HttpClient T) (engine : AsyncEngine T)
    (urlText headersText bodyText : CharBuffer) (start : WorkerStart)
    (seed : UInt32) : Option (AsyncResult T) :=
  dispatchBodyVerb client engine .post urlText headersText bodyText start
    seed

/-- `DispatchPutAsync`. -/
def dispatchPutAsync (client : HttpClient T) (engine : AsyncEngine T)
    (urlText headersText bodyText : CharBuffer) (start : WorkerStart)
    (seed : UInt32) : Option (AsyncResult T) :=
  dispatchBodyVerb client engine .put urlText headersText bodyText start
    seed

/-- `DispatchPatchAsync`. -/
def dispatchPatchAsync (client : HttpClient T) (engine : AsyncEngine T)
    (urlText headersText bodyText : CharBuffer) (start : WorkerStart)
    (seed : UInt32) : Option (AsyncResult T) :=
  dispatchBodyVerb client engine .patch urlText headersText bodyText start
    seed

end RestifyCapl.Http
