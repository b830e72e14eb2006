/-
The libcurl transport (http/http-client.cpp): what the two callbacks make
of the header lines and body chunks libcurl delivers, how its result code
becomes a status, and `CurlTransport::Perform` around them.

libcurl is outside the model. A `CurlRun` is what it does in one call of
`Perform`: whether it starts, what it delivers in which order, the code
it ends with and the HTTP status it then reports. A callback whose
allocation fails is told so by its event. `std::size_t` has `w` bits, 32
or 64, and a delivered piece is an object in memory, so its size is a
`std::size_t` (`fits`).

Of the options `Perform` sets only the response cap, which the write
callback reads, matters here; they are all in CurlOptions.lean.
-/
import RestifyCapl.Http.HttpClient
import Mathlib.Algebra.Group.Nat.Defs
import Mathlib.Data.List.DropRight

namespace RestifyCapl.Http

-- ============================================================ result codes

/-- `CURLcode`: the codes `MapCurlCode` names, and all others. -/
inductive CURLcode where
  | ok
  | operationTimedout
  | urlMalformat
  | unsupportedProtocol
  | sslConnectError
  | peerFailedVerification
  | sslEngineNotfound
  | sslEngineSetfailed
  | sslCertproblem
  | sslCipher
  | useSslFailed
  | sslEngineInitfailed
  | sslCacertBadfile
  | sslShutdownFailed
  | sslCrlBadfile
  | sslIssuerError
  | sslPinnedpubkeynotmatch
  | sslInvalidcertstatus
  | sslClientcert
  | couldntResolveHost
  | couldntResolveProxy
  | couldntConnect
  | sendError
  | recvError
  | gotNothing
  | partialFile
  | tooManyRedirects
  | abortedByCallback
  | other (code : Int32)
deriving DecidableEq

/-- `MapCurlCode`. -/
def mapCurlCode : CURLcode → Status
  | .ok => .ok
  | .operationTimedout => .timeout
  | .urlMalformat | .unsupportedProtocol => .invalidUrl
  | .sslConnectError | .peerFailedVerification | .sslEngineNotfound
  | .sslEngineSetfailed | .sslCertproblem | .sslCipher | .useSslFailed
  | .sslEngineInitfailed | .sslCacertBadfile | .sslShutdownFailed
  | .sslCrlBadfile | .sslIssuerError | .sslPinnedpubkeynotmatch
  | .sslInvalidcertstatus | .sslClientcert => .tlsError
  | .couldntResolveHost | .couldntResolveProxy | .couldntConnect
  | .sendError | .recvError | .gotNothing | .partialFile
  | .tooManyRedirects => .networkError
  | .abortedByCallback => .requestCancelled
  | .other _ => .networkError

/-- `ResolveTransferResult`. -/
def resolveTransferResult (capExceeded : Bool) (mappedStatus : Status) :
    Status :=
  if capExceeded then .responseTooLarge else mappedStatus

-- ============================================================ the callbacks

def kDefaultMaxResponseBytes : UInt32 := 8 * 1024 * 1024

/-- `WouldExceedResponseCap`. -/
def wouldExceedResponseCap {w : Nat} (currentSize incoming : BitVec w)
    (capBytes : UInt32) : Bool :=
  let cap : BitVec w := BitVec.ofNat w capBytes.toNat
  decide (incoming > cap) || decide (currentSize > cap - incoming)

structure WriteContext where
  body : Bytes
  capBytes : UInt32
  capExceeded : Bool := false
deriving DecidableEq

/-- `WriteCallback`: the byte count it returns, and the context. `stored`
says whether `append` found the memory. -/
def writeCallback (w : Nat) (ctx : WriteContext) (chunk : Bytes)
    (stored : Bool) : BitVec w × WriteContext :=
  let incoming := BitVec.ofNat w chunk.length
  if wouldExceedResponseCap (BitVec.ofNat w ctx.body.length) incoming
      ctx.capBytes then
    (0, { ctx with capExceeded := true })
  else if !stored then (0, ctx)
  else (incoming, { ctx with body := ctx.body ++ chunk })

/-- `HeaderCallback`: the headers it leaves. A line without a colon is a
status line or the blank line at the end, not a header. -/
def headerCallback (headers : List HttpHeader) (buffer : Bytes)
    (stored : Bool) : List HttpHeader :=
  let line := buffer.rdropWhile fun c => c == ch '\r' || c == ch '\n'
  if ch ':' ∉ line then headers
  else
    let name := line.takeWhile (· ≠ ch ':')
    let value := ((line.dropWhile (· ≠ ch ':')).drop 1).dropWhile
      (· == ch ' ')
    if stored then headers ++ [⟨name, value⟩] else headers

-- ============================================================ one transfer

/-- A callback libcurl makes, and whether its allocation succeeds. -/
inductive CurlEvent where
  | header (line : Bytes) (stored : Bool)
  | body (chunk : Bytes) (stored : Bool)
deriving DecidableEq

/-- The bytes a callback is given. -/
def CurlEvent.bytes : CurlEvent → Bytes
  | .header line _ => line
  | .body chunk _ => chunk

/-- What libcurl does in one call of `Perform`. -/
structure CurlRun (w : Nat) where
  initOk : Bool := true
  hasHandle : Bool := true
  events : List CurlEvent
  code : CURLcode
  httpCode : Int32
  fits : ∀ e ∈ events, e.bytes.length < 2 ^ w

/-- `writeCtx` and `response.headers`, to which the callbacks write. -/
structure Delivered where
  ctx : WriteContext
  headers : List HttpHeader

/-- One callback. -/
def Delivered.next (w : Nat) (d : Delivered) : CurlEvent → Delivered
  | .header line stored =>
      { d with headers := headerCallback d.headers line stored }
  | .body chunk stored =>
      { d with ctx := (writeCallback w d.ctx chunk stored).2 }

/-- `capBytes`, with the default for 0. -/
def capBytes (request : HttpRequest) : UInt32 :=
  if request.options.maxResponseBytes = 0 then kDefaultMaxResponseBytes
  else request.options.maxResponseBytes

/-- `CurlTransport::Perform`. -/
def curlPerform {w : Nat} (run : CurlRun w) (request : HttpRequest)
    (response : HttpResponse) : Status × HttpResponse :=
  if !run.initOk then (.transportInitFailed, response)
  else
    let response : HttpResponse :=
      { response with statusCode := 0, body := [], headers := [] }
    if !run.hasHandle then (.transportInitFailed, response)
    else
      let delivered := run.events.foldl (Delivered.next w)
        ⟨⟨response.body, capBytes request, false⟩, response.headers⟩
      let response := { response with body := delivered.ctx.body,
                                      headers := delivered.headers }
      let transferResult := resolveTransferResult delivered.ctx.capExceeded
        (mapCurlCode run.code)
      if transferResult ≠ .ok then (transferResult, response)
      else (.ok, { response with statusCode := run.httpCode })

/-- `CurlTransport` on a run of libcurl. -/
def curlTransport (T : Type) {w : Nat} (run : CurlRun w) : Transport T :=
  fun _ request response => curlPerform run request response

end RestifyCapl.Http
