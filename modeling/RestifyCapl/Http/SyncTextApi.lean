/-
The pointer-and-size calls of the synchronous surface
(http/sync-text-api.cpp): method and header texts are parsed, the request
is built and sent, and the outcome is written out. `httpStatusCode` and
`responseBodyLength` are `none` where a call leaves them unwritten.

Characters are classified as in the C locale. Buffers passed to one call
do not overlap.
-/
import RestifyCapl.Http.SyncOperations
import Mathlib.Data.List.DropRight

namespace RestifyCapl.Http

variable {T : Type}

-- ============================================================ small texts

/-- The bytes of a text in the source. -/
def bytesOf (text : String) : Bytes := text.toList.map ch

/-- `std::isspace`. -/
def isSpace (c : UInt8) : Bool := c == ch ' ' || (9 ≤ c && c ≤ 13)

/-- `std::tolower`. -/
def toLower (c : UInt8) : UInt8 :=
  if ch 'A' ≤ c && c ≤ ch 'Z' then c + 32 else c

/-- `EqualsIgnoreCase`. -/
def equalsIgnoreCase (a b : Bytes) : Bool :=
  a.map toLower == b.map toLower

/-- `Trim`. -/
def trim (text : Bytes) : Bytes :=
  (text.dropWhile isSpace).rdropWhile isSpace

/-- `StripTrailingCr`. -/
def stripTrailingCr (line : Bytes) : Bytes :=
  if line.getLast? = some (ch '\r') then line.dropLast else line

-- ================================================================ parsing

/-- `kMethods`. -/
def kMethods : List (Bytes × HttpMethod) :=
  [(bytesOf "GET", .get), (bytesOf "POST", .post), (bytesOf "PUT", .put),
    (bytesOf "PATCH", .patch), (bytesOf "DELETE", .delete),
    (bytesOf "HEAD", .head)]

/-- `ParseMethodText`. -/
def parseMethodText (text : Bytes) : Except Status HttpMethod :=
  match kMethods.find? fun entry => equalsIgnoreCase text entry.1 with
  | some entry => .ok entry.2
  | none => .error .unknownHttpMethod

/-- One round of `ParseHeaderBlock`'s loop. -/
def parseHeaderLine (line : Bytes) : Except Status HttpHeader :=
  let line := stripTrailingCr line
  if ch ':' ∉ line then .error .malformedHeaderBlock
  else
    let name := trim (line.takeWhile (· ≠ ch ':'))
    let value := trim ((line.dropWhile (· ≠ ch ':')).drop 1)
    if name.isEmpty || value.isEmpty then .error .malformedHeaderBlock
    else .ok ⟨name, value⟩

/-- The loop of `ParseHeaderBlock`, over the lines `find('\n')` cuts. -/
def parseHeaderLines : List Bytes → Except Status (List HttpHeader)
  | [] => .ok []
  | line :: rest =>
      match parseHeaderLine line with
      | .error status => .error status
      | .ok header =>
          match parseHeaderLines rest with
          | .error status => .error status
          | .ok headers => .ok (header :: headers)

/-- `ParseHeaderBlock`. -/
def parseHeaderBlock (block : Bytes) : Except Status (List HttpHeader) :=
  if block.isEmpty then .ok []
  else parseHeaderLines (block.splitOn (ch '\n'))

-- ============================================================ writing out

/-- What a call leaves: its status, the response buffer, the two numbers,
and the requests that reached the transport. -/
structure SyncResult where
  status : Status
  responseBody : CharBuffer
  httpStatusCode : Option Int32
  responseBodyLength : Option UInt32
  sent : List HttpRequest
deriving DecidableEq

/-- `return status;` before anything is sent or written. -/
def SyncResult.refused (status : Status) (responseBody : CharBuffer) :
    SyncResult :=
  ⟨status, responseBody, none, none, []⟩

/-- `FinishResponse`: both numbers are written before the copy is tried,
so a buffer too small does not erase them. -/
def finishResponse (result : Transfer) (responseBody : CharBuffer) :
    SyncResult :=
  if result.status = .invalidArgument then
    ⟨result.status, responseBody, none, none, result.sent⟩
  else
    let copied := copyToBuffer result.response.body responseBody
    { status := if result.status = .ok then copied.1 else result.status
      responseBody := copied.2
      httpStatusCode := some result.response.statusCode
      responseBodyLength :=
        some (UInt32.ofNat result.response.body.length)
      sent := result.sent }

-- ================================================================ the calls

/-- `ExecuteNoBodyVerb`. -/
def executeNoBodyVerb (transport : Transport T) (client : HttpClient T)
    (method : HttpMethod) (urlText headersText responseBody : CharBuffer) :
    SyncResult :=
  match boundedText urlText with
  | .error status => .refused status responseBody
  | .ok urlView =>
  match boundedText headersText with
  | .error status => .refused status responseBody
  | .ok headersView =>
  match parseHeaderBlock headersView with
  | .error status => .refused status responseBody
  | .ok headers =>
      let options := makeRequestOptions 0 0 0
      let result :=
        if method = .get then get transport client urlView headers options {}
        else delete transport client urlView headers options {}
      finishResponse result responseBody

/-- `ExecuteBodyVerb`. -/
def executeBodyVerb (transport : Transport T) (client : HttpClient T)
    (method : HttpMethod)
    (urlText headersText bodyText responseBody : CharBuffer) :
    SyncResult :=
  match boundedText urlText with
  | .error status => .refused status responseBody
  | .ok urlView =>
  match boundedText headersText with
  | .error status => .refused status responseBody
  | .ok headersView =>
  match boundedText bodyText with
  | .error status => .refused status responseBody
  | .ok bodyView =>
  match parseHeaderBlock headersView with
  | .error status => .refused status responseBody
  | .ok headers =>
      let options := makeRequestOptions 0 0 0
      let result :=
        match method with
        | .post => post transport client urlView headers bodyView options {}
        | .put => put transport client urlView headers bodyView options {}
        | _ => patch transport client urlView headers bodyView options {}
      finishResponse result responseBody

/-- `ExecuteRequestSync`. -/
def executeRequestSync (transport : Transport T) (client : HttpClient T)
    (methodText urlText headersText bodyText : CharBuffer)
    (connectTimeoutMs totalTimeoutMs maxResponseBytes : UInt32)
    (responseBody : CharBuffer) : SyncResult :=
  match boundedText methodText with
  | .error status => .refused status responseBody
  | .ok methodView =>
  match boundedText urlText with
  | .error status => .refused status responseBody
  | .ok urlView =>
  match boundedText headersText with
  | .error status => .refused status responseBody
  | .ok headersView =>
  match boundedText bodyText with
  | .error status => .refused status responseBody
  | .ok bodyView =>
  match parseMethodText methodView with
  | .error status => .refused status responseBody
  | .ok method =>
  match parseHeaderBlock headersView with
  | .error status => .refused status responseBody
  | .ok headers =>
      let result := request transport client
        { method := method, url := urlView, headers := headers,
          body := bodyView,
          options := makeRequestOptions connectTimeoutMs totalTimeoutMs
            maxResponseBytes }
        {}
      finishResponse result responseBody

/-- `ExecuteGetSync`. -/
def executeGetSync (transport : Transport T) (client : HttpClient T)
    (urlText headersText responseBody : CharBuffer) : SyncResult :=
  executeNoBodyVerb transport client .get urlText headersText responseBody

/-- `ExecuteDeleteSync`. -/
def executeDeleteSync (transport : Transport T) (client : HttpClient T)
    (urlText headersText responseBody : CharBuffer) : SyncResult :=
  executeNoBodyVerb transport client .delete urlText headersText
    responseBody

/-- `ExecutePostSync`. -/
def executePostSync (transport : Transport T) (client : HttpClient T)
    (urlText headersText bodyText responseBody : CharBuffer) :
    SyncResult :=
  executeBodyVerb transport client .post urlText headersText bodyText
    responseBody

/-- `ExecutePutSync`. -/
def executePutSync (transport : Transport T) (client : HttpClient T)
    (urlText headersText bodyText responseBody : CharBuffer) :
    SyncResult :=
  executeBodyVerb transport client .put urlText headersText bodyText
    responseBody

/-- `ExecutePatchSync`. -/
def executePatchSync (transport : Transport T) (client : HttpClient T)
    (urlText headersText bodyText responseBody : CharBuffer) :
    SyncResult :=
  executeBodyVerb transport client .patch urlText headersText bodyText
    responseBody

end RestifyCapl.Http
