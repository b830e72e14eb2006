/-
The options `CurlTransport::Perform` sets (http/http-client.cpp). An easy
handle is the settings made on it, in order; `curl_easy_setopt` takes an
option and a value, and the value's type depends on the option. `long`
has 32 bits here, as `Perform` asserts, and `curl_off_t` 64.

A text is handed over as a pointer to its first character and read up to
the first NUL. What `CURLOPT_POSTFIELDS` points to is read for as many
bytes as `CURLOPT_POSTFIELDSIZE_LARGE` says. That `curl_slist_append`
finds no memory is left out.
-/
import RestifyCapl.Http.CurlTransport
import RestifyCapl.Http.SyncTextApi

namespace RestifyCapl.Http

-- ============================================================== the handle

/-- `CURLoption`. -/
inductive CURLoption where
  | url
  | httpHeader
  | httpGet
  | noBody
  | customRequest
  | post
  | postFields
  | postFieldSizeLarge
  | noSignal
  | noProgress
  | xferInfoFunction
  | xferInfoData
  | sslVerifyPeer
  | sslVerifyHost
  | connectTimeoutMs
  | timeoutMs
  | followLocation
  | maxRedirs
  | acceptEncoding
  | userAgent
  | writeFunction
  | writeData
  | headerFunction
  | headerData
deriving DecidableEq, Repr

/-- What a setting may be given: a `long`, a C text, a list of C texts, a
`curl_off_t`, memory, a flag's address, the write callback's context, or a
pointer to something of the transport's own. -/
inductive CurlValue where
  | long (value : Int32)
  | text (value : Bytes)
  | slist (lines : List Bytes)
  | off (value : Int64)
  | memory (bytes : Bytes)
  | flag (address : Option Nat)
  | write (ctx : WriteContext)
  | own
deriving DecidableEq

/-- `CURL*`, as the settings made on it. -/
abbrev EasyHandle := List (CURLoption × CurlValue)

/-- The value an option has: the one it was set to last. -/
def EasyHandle.value? (handle : EasyHandle) (option : CURLoption) :
    Option CurlValue :=
  (handle.reverse.find? fun setting => setting.1 = option).map Prod.snd

-- ============================================================== the options

def kDefaultConnectTimeoutMs : UInt32 := 5000

def kDefaultTotalTimeoutMs : UInt32 := 30000

/-- `LONG_MAX`. -/
def kLongMax : UInt32 := 2147483647

/-- `ClampToLong`. -/
def clampToLong (milliseconds : UInt32) : Int32 :=
  (if milliseconds > kLongMax then kLongMax else milliseconds).toInt32

/-- `c_str()`, as a reader of C texts sees it. -/
def cStr (text : Bytes) : Bytes := text.takeWhile (· ≠ 0)

/-- `header.name + ": " + header.value`. -/
def headerLine (header : HttpHeader) : Bytes :=
  header.name ++ bytesOf ": " ++ header.value

/-- The body of a request that has one: `request.body.data()`, which has
a NUL behind it, and `request.body.size()`. -/
def bodySettings (request : HttpRequest) : EasyHandle :=
  [(.postFields, .memory (request.body ++ [0])),
    (.postFieldSizeLarge, .off (Int64.ofNat request.body.length))]

/-- `switch (request.method)`. -/
def methodSettings (request : HttpRequest) : EasyHandle :=
  match request.method with
  | .get => [(.httpGet, .long 1)]
  | .head => [(.noBody, .long 1)]
  | .delete => [(.customRequest, .text (bytesOf "DELETE"))]
  | .post => (.post, .long 1) :: bodySettings request
  | .put =>
      (.customRequest, .text (bytesOf "PUT")) :: bodySettings request
  | .patch =>
      (.customRequest, .text (bytesOf "PATCH")) :: bodySettings request

/-- `if (request.options.skipTlsVerification)`. -/
def tlsSettings (options : RequestOptions) : EasyHandle :=
  if options.skipTlsVerification then
    [(.sslVerifyPeer, .long 0), (.sslVerifyHost, .long 0)]
  else [(.sslVerifyPeer, .long 1), (.sslVerifyHost, .long 2)]

/-- `connectMs`. -/
def connectMs (options : RequestOptions) : UInt32 :=
  if options.connectTimeoutMs = 0 then kDefaultConnectTimeoutMs
  else options.connectTimeoutMs

/-- `totalMs`. -/
def totalMs (options : RequestOptions) : UInt32 :=
  if options.totalTimeoutMs = 0 then kDefaultTotalTimeoutMs
  else options.totalTimeoutMs

/-- The handle `Perform` gives to `curl_easy_perform`. -/
def curlSettings (request : HttpRequest) : EasyHandle :=
  [(.url, .text (cStr request.url)),
    (.httpHeader,
      .slist (request.headers.map fun header => cStr (headerLine header)))]
  ++ methodSettings request
  ++ [(.noSignal, .long 1), (.noProgress, .long 0),
    (.xferInfoFunction, .own), (.xferInfoData, .flag request.cancelFlag)]
  ++ tlsSettings request.options
  ++ [(.connectTimeoutMs, .long (clampToLong (connectMs request.options))),
    (.timeoutMs, .long (clampToLong (totalMs request.options))),
    (.followLocation, .long 1), (.maxRedirs, .long 5),
    (.acceptEncoding, .text []), (.userAgent, .text (bytesOf "restifycapl")),
    (.writeFunction, .own), (.writeData, .write ⟨[], capBytes request, false⟩),
    (.headerFunction, .own), (.headerData, .own)]

end RestifyCapl.Http
