/-
The HTTP value types and the transport seam (http/http-client.h), as far
as the async engine uses them: a request, a response, and a client whose
`perform` checks the url and otherwise hands the request to a transport.

The transport is a parameter: `T` is whatever `HttpTransport&` points
to, and what a transport call answers is an input of the model. A
request names its cancel flag by address, so that a reader of the flag
is a reader of some memory cell the engine owns.
-/
import RestifyCapl.Core.Text

namespace RestifyCapl

inductive HttpMethod where
  | get
  | post
  | put
  | patch
  | delete
  | head
deriving DecidableEq, Repr

structure HttpHeader where
  name : Bytes
  value : Bytes
deriving DecidableEq

structure RequestOptions where
  connectTimeoutMs : UInt32 := 0
  totalTimeoutMs : UInt32 := 0
  maxResponseBytes : UInt32 := 0
  skipTlsVerification : Bool := false
deriving DecidableEq

structure HttpRequest where
  method : HttpMethod := .get
  url : Bytes := []
  headers : List HttpHeader := []
  body : Bytes := []
  options : RequestOptions := {}
  /-- Address of the flag a cancelling caller sets; `none` is `nullptr`. -/
  cancelFlag : Option Nat := none
deriving DecidableEq

structure HttpResponse where
  statusCode : Int32 := 0
  body : Bytes := []
  headers : List HttpHeader := []
deriving DecidableEq

/-- `HttpClient` holds a reference to its transport and nothing else. -/
structure HttpClient (T : Type) where
  transport : T
deriving DecidableEq

/-- `HttpClient::Perform`; `answer` is what the client's transport gives
for the request, unused when the url is empty. -/
def HttpClient.perform {T : Type} (_client : HttpClient T)
    (answer : Status × HttpResponse) (request : HttpRequest)
    (response : HttpResponse) : Status × HttpResponse :=
  if request.url.isEmpty then (.invalidArgument, response) else answer

/-- `MethodForbidsBody`. -/
def methodForbidsBody (method : HttpMethod) : Bool :=
  method == .get || method == .head || method == .delete

/-- `MakeRequestOptions`: TLS verification is never skipped. -/
def makeRequestOptions (connectTimeoutMs totalTimeoutMs
    maxResponseBytes : UInt32) : RequestOptions where
  connectTimeoutMs := connectTimeoutMs
  totalTimeoutMs := totalTimeoutMs
  maxResponseBytes := maxResponseBytes
  skipTlsVerification := false

/-- `HttpTransport::Perform` of the transport a `T` points to: from the
request and the response it is given to the status and the response it
leaves. -/
abbrev Transport (T : Type) :=
  T → HttpRequest → HttpResponse → Status × HttpResponse

/-- One call of a client by a caller that waits for it, with the requests
that reached the transport. -/
structure Transfer where
  status : Status
  response : HttpResponse
  sent : List HttpRequest
deriving DecidableEq

/-- `HttpClient::Perform` on a given transport. -/
def HttpClient.transfer {T : Type} (transport : Transport T)
    (client : HttpClient T) (request : HttpRequest)
    (response : HttpResponse) : Transfer :=
  let answer := transport client.transport request response
  { status := (client.perform answer request response).1
    response := (client.perform answer request response).2
    sent := if request.url.isEmpty then [] else [request] }

/-- `ShouldCancelTransfer`, over the flags in memory. -/
def shouldCancelTransfer (flags : Nat → Bool) (cancelFlag : Option Nat) :
    Bool :=
  match cancelFlag with
  | none => false
  | some address => flags address

end RestifyCapl
