/-
The synchronous operations (http/sync-operations.cpp): a request is
checked for a body its method forbids and handed to the client, and each
verb builds its request first.

`BuildAndSend`'s `catch (...)`, which turns an exhausted heap into
`NetworkError`, has no counterpart here: nothing in the model throws.
-/
import RestifyCapl.Http.HttpClient

namespace RestifyCapl.Http

variable {T : Type}

/-- `Request`. -/
def request (transport : Transport T) (client : HttpClient T)
    (request : HttpRequest) (response : HttpResponse) : Transfer :=
  if methodForbidsBody request.method && !request.body.isEmpty then
    ⟨.invalidArgument, response, []⟩
  else client.transfer transport request response

/-- `BuildAndSend`. -/
def buildAndSend (transport : Transport T) (client : HttpClient T)
    (method : HttpMethod) (url : Bytes) (headers : List HttpHeader)
    (body : Bytes) (options : RequestOptions) (response : HttpResponse) :
    Transfer :=
  request transport client
    { method := method, url := url, headers := headers, body := body,
      options := options }
    response

/-- `Get`. -/
def get (transport : Transport T) (client : HttpClient T) (url : Bytes)
    (headers : List HttpHeader) (options : RequestOptions)
    (response : HttpResponse) : Transfer :=
  buildAndSend transport client .get url headers [] options response

/-- `Post`. -/
def post (transport : Transport T) (client : HttpClient T) (url : Bytes)
    (headers : List HttpHeader) (body : Bytes) (options : RequestOptions)
    (response : HttpResponse) : Transfer :=
  buildAndSend transport client .post url headers body options response

/-- `Put`. -/
def put (transport : Transport T) (client : HttpClient T) (url : Bytes)
    (headers : List HttpHeader) (body : Bytes) (options : RequestOptions)
    (response : HttpResponse) : Transfer :=
  buildAndSend transport client .put url headers body options response

/-- `Patch`. -/
def patch (transport : Transport T) (client : HttpClient T) (url : Bytes)
    (headers : List HttpHeader) (body : Bytes) (options : RequestOptions)
    (response : HttpResponse) : Transfer :=
  buildAndSend transport client .patch url headers body options response

/-- `Delete`. -/
def delete (transport : Transport T) (client : HttpClient T) (url : Bytes)
    (headers : List HttpHeader) (options : RequestOptions)
    (response : HttpResponse) : Transfer :=
  buildAndSend transport client .delete url headers [] options response

-- =============================================================== its rules

/-- A request goes out if it has a url and no body its method forbids;
otherwise it is an invalid argument, and nothing is sent. -/
def isSendable (r : HttpRequest) : Bool :=
  !r.url.isEmpty && !(methodForbidsBody r.method && !r.body.isEmpty)

theorem request_sent (transport : Transport T) (client : HttpClient T)
    {r : HttpRequest} (response : HttpResponse)
    (h : isSendable r = true) :
    request transport client r response
      = ⟨(transport client.transport r response).1,
          (transport client.transport r response).2, [r]⟩ := by
  unfold isSendable at h
  rw [Bool.and_eq_true, Bool.not_eq_true', Bool.not_eq_true'] at h
  unfold request HttpClient.transfer HttpClient.perform
  simp [h.1, h.2]

theorem request_refused (transport : Transport T) (client : HttpClient T)
    {r : HttpRequest} (response : HttpResponse)
    (h : isSendable r = false) :
    request transport client r response
      = ⟨.invalidArgument, response, []⟩ := by
  unfold isSendable at h
  unfold request HttpClient.transfer HttpClient.perform
  by_cases hbody : (methodForbidsBody r.method && !r.body.isEmpty) = true
  · rw [if_pos hbody]
  · rw [if_neg hbody]
    simp only [Bool.not_eq_true] at hbody
    rw [hbody, Bool.not_false, Bool.and_true, Bool.not_eq_false'] at h
    simp [h]

end RestifyCapl.Http
