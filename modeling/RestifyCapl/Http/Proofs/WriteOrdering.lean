/-
What a synchronous call writes, and when. All six calls end in one routine
(`SyncCall.execute_eq`), and that routine tells a call that was sent from
one that was refused by the status alone. Nothing that was sent has the
status of a refusal as long as no transport gives it, so the two numbers
are written exactly when a request went out, before the copy and whatever
becomes of it. An unusable buffer makes the copy answer `InvalidArgument`
too; by then the numbers are written.
-/
import RestifyCapl.Http.Proofs.FrontEnds

namespace RestifyCapl.Http

variable {T : Type}

-- ============================================================ the two ends

/-- What a refused call leaves. -/
structure Untouched (result : SyncResult) (buffer : CharBuffer) :
    Prop where
  sent : result.sent = []
  httpStatusCode : result.httpStatusCode = none
  responseBodyLength : result.responseBodyLength = none
  responseBody : result.responseBody = buffer

/-- What a call leaves that sent a request and was answered. -/
structure WrittenOut (result : SyncResult) (buffer : CharBuffer)
    (r : HttpRequest) (answer : Status × HttpResponse) : Prop where
  sent : result.sent = [r]
  httpStatusCode : result.httpStatusCode = some answer.2.statusCode
  responseBodyLength : result.responseBodyLength
    = some (UInt32.ofNat answer.2.body.length)
  responseBody : result.responseBody = (copyToBuffer answer.2.body buffer).2
  status : result.status
    = if answer.1 = .ok then (copyToBuffer answer.2.body buffer).1
      else answer.1

/-- `FinishResponse` after an answer. -/
theorem finishResponse_answered {r : HttpRequest}
    {answer : Status × HttpResponse} (responseBody : CharBuffer)
    (h : answer.1 ≠ .invalidArgument) :
    WrittenOut (finishResponse ⟨answer.1, answer.2, [r]⟩ responseBody)
      responseBody r answer := by
  unfold finishResponse
  rw [if_neg h]
  exact ⟨rfl, rfl, rfl, rfl, rfl⟩

/-- `FinishResponse` where nothing was sent. -/
theorem finishResponse_refused (response : HttpResponse)
    (responseBody : CharBuffer) :
    Untouched (finishResponse ⟨.invalidArgument, response, []⟩ responseBody)
      responseBody := by
  unfold finishResponse
  rw [if_pos rfl]
  exact ⟨rfl, rfl, rfl, rfl⟩

/-- A call is refused, or its one request is answered and written out. -/
theorem sendChecked_cases (transport : Transport T) (client : HttpClient T)
    (checked : Except Status HttpRequest) (responseBody : CharBuffer)
    (htransport : ∀ t r response,
      (transport t r response).1 ≠ .invalidArgument) :
    Untouched (sendChecked transport client checked responseBody)
        responseBody
      ∨ ∃ r, WrittenOut (sendChecked transport client checked responseBody)
        responseBody r (transport client.transport r {}) := by
  unfold sendChecked
  cases checked with
  | error status => exact Or.inl ⟨rfl, rfl, rfl, rfl⟩
  | ok r =>
      dsimp only
      cases hsend : isSendable r with
      | true =>
          rw [request_sent transport client {} hsend]
          exact Or.inr ⟨r, finishResponse_answered responseBody
            (htransport _ _ _)⟩
      | false =>
          rw [request_refused transport client {} hsend]
          exact Or.inl (finishResponse_refused {} responseBody)

-- ============================================================= the buffer

/-- The copy leaves an unusable buffer alone, and of a usable one it makes
the whole text with its NUL, or the empty text. -/
theorem copyToBuffer_leaves (text : Bytes) (buffer : CharBuffer) :
    (buffer.unusable = true → (copyToBuffer text buffer).2 = buffer)
      ∧ (buffer.unusable = false →
        (text.length < buffer.size.toNat
            ∧ (copyToBuffer text buffer).2 = buffer.store (text ++ [0]))
          ∨ (buffer.size.toNat ≤ text.length
            ∧ (copyToBuffer text buffer).2 = buffer.store [0])) := by
  constructor
  · intro h
    rw [copyToBuffer_unusable h]
  · intro h
    by_cases hlen : text.length < buffer.size.toNat
    · exact Or.inl ⟨hlen, by rw [copyToBuffer_fits h hlen]⟩
    · have hlen : buffer.size.toNat ≤ text.length := by omega
      exact Or.inr ⟨hlen, by rw [copyToBuffer_small h hlen]⟩

-- ============================================================== the result

/-- The write-ordering rule. A synchronous call sends one request at most.
The two numbers are written if and only if it sent one, and are then the
transport's status code and the length of its body, whatever becomes of
the copy; a response buffer is touched only then, and a usable one holds
the whole body and a NUL or is empty; and the status is the copy's where
the transport said `Ok`, and the transport's otherwise. -/
theorem sync_write_ordering (transport : Transport T) (client : HttpClient T)
    (call : SyncCall) (responseBody : CharBuffer)
    (htransport : ∀ t r response,
      (transport t r response).1 ≠ .invalidArgument)
    (hbody : ∀ t r response,
      (transport t r response).2.body.length < UInt32.size) :
    let result := call.execute transport client responseBody
    result.sent.length ≤ 1
      ∧ (result.httpStatusCode.isSome = true ↔ result.sent ≠ [])
      ∧ (result.responseBodyLength.isSome = true ↔ result.sent ≠ [])
      ∧ (result.sent = [] → result.responseBody = responseBody)
      ∧ ∀ r ∈ result.sent,
        let answer := transport client.transport r {}
        result.httpStatusCode = some answer.2.statusCode
          ∧ (∃ n, result.responseBodyLength = some n
            ∧ n.toNat = answer.2.body.length)
          ∧ (responseBody.unusable = true →
            result.responseBody = responseBody)
          ∧ (responseBody.unusable = false →
            (answer.2.body.length < responseBody.size.toNat
                ∧ result.responseBody
                  = responseBody.store (answer.2.body ++ [0]))
              ∨ (responseBody.size.toNat ≤ answer.2.body.length
                ∧ result.responseBody = responseBody.store [0]))
          ∧ result.status = if answer.1 = .ok then
              (copyToBuffer answer.2.body responseBody).1
            else answer.1 := by
  intro result
  have hcases := sendChecked_cases transport client call.checked
    responseBody htransport
  rw [← SyncCall.execute_eq] at hcases
  rcases hcases with h | ⟨r, h⟩
  · have hsent : result.sent = [] := h.sent
    have hcode : result.httpStatusCode = none := h.httpStatusCode
    have hlength : result.responseBodyLength = none := h.responseBodyLength
    rw [hsent, hcode, hlength]
    refine ⟨Nat.zero_le 1, by simp, by simp, fun _ => h.responseBody, ?_⟩
    intro r hr
    cases hr
  · have hsent : result.sent = [r] := h.sent
    have hcode : result.httpStatusCode = some _ := h.httpStatusCode
    have hlength : result.responseBodyLength = some _ := h.responseBodyLength
    have hbuffer : result.responseBody = _ := h.responseBody
    have hstatus : result.status = _ := h.status
    rw [hsent, hcode, hlength]
    refine ⟨Nat.le_refl 1, by simp, by simp, fun hnil => (by cases hnil), ?_⟩
    intro r' hr'
    obtain rfl := List.mem_singleton.mp hr'
    obtain ⟨hunusable, husable⟩ := copyToBuffer_leaves
      (transport client.transport r' {}).2.body responseBody
    rw [hbuffer]
    refine ⟨rfl, ⟨_, rfl, ?_⟩, hunusable, husable, hstatus⟩
    exact UInt32.toNat_ofNat_of_lt' (hbody _ _ _)

/-- A transport that answers 200 with the body `hello`. -/
def helloTransport : Transport Unit :=
  fun _ _ _ => (.ok, { statusCode := 200, body := bytesOf "hello" })

/-- The buffer is too small for the body: the numbers are written all the
same. -/
theorem sync_write_ordering_small :
    ((SyncCall.get (.holding (bytesOf "http://h")) (.holding [])).execute
        helloTransport ⟨()⟩ (.holding [])).httpStatusCode = some 200
      ∧ ((SyncCall.get (.holding (bytesOf "http://h")) (.holding [])).execute
        helloTransport ⟨()⟩ (.holding [])).status = .bufferTooSmall := by
  obtain ⟨-, -, -, -, hsent⟩ := sync_write_ordering helloTransport ⟨()⟩
    (.get (.holding (bytesOf "http://h")) (.holding [])) (.holding [])
    (fun _ _ _ h => by cases h)
    (fun _ _ _ => (by decide : (bytesOf "hello").length < UInt32.size))
  obtain ⟨hcode, -, -, -, hstatus⟩ := hsent
    { url := bytesOf "http://h" } (by decide)
  exact ⟨hcode, hstatus⟩

end RestifyCapl.Http
