/-
The synchronous and the asynchronous surface agree. Each of the twelve
calls first reads its texts (`generalRequest`, `verbRequest`) and then
either sends the request (`sendChecked`) or hands it to the engine
(`handChecked`). The checks after that, made in different places and
orders, come to one predicate, `isSendable`.
-/
import RestifyCapl.Http.AsyncTextApi
import RestifyCapl.Http.Proofs.Effect

namespace RestifyCapl.Http

variable {T : Type}

-- ====================================================== reading the texts

/-- The request the arguments of the general call name. -/
def generalRequest (methodText urlText headersText bodyText : CharBuffer)
    (options : RequestOptions) : Except Status HttpRequest := do
  let methodView ← boundedText methodText
  let urlView ← boundedText urlText
  let headersView ← boundedText headersText
  let bodyView ← boundedText bodyText
  let method ← parseMethodText methodView
  let headers ← parseHeaderBlock headersView
  return { method := method, url := urlView, headers := headers,
           body := bodyView, options := options }

/-- The request the arguments of a verb's call name; `bodyText` is `none`
for the verbs without a body. -/
def verbRequest (method : HttpMethod) (urlText headersText : CharBuffer)
    (bodyText : Option CharBuffer) : Except Status HttpRequest := do
  let urlView ← boundedText urlText
  let headersView ← boundedText headersText
  let bodyView ←
    match bodyText with
    | none => pure []
    | some bodyText => boundedText bodyText
  let headers ← parseHeaderBlock headersView
  return { method := method, url := urlView, headers := headers,
           body := bodyView, options := makeRequestOptions 0 0 0 }

/-- A verb's call names the request of the general call with its method
text, no timeouts, no cap and the same body. -/
theorem verbRequest_general {methodText urlText headersText
    bodyText : CharBuffer} {method : HttpMethod} {text : Bytes}
    (htext : boundedText methodText = .ok text)
    (hmethod : parseMethodText text = .ok method) :
    verbRequest method urlText headersText (some bodyText)
      = generalRequest methodText urlText headersText bodyText
          (makeRequestOptions 0 0 0) := by
  unfold verbRequest generalRequest
  simp only [bind, Except.bind, htext, hmethod]

/-- Without a body: as with an empty one. -/
theorem verbRequest_none {urlText headersText bodyText : CharBuffer}
    (method : HttpMethod) (hbody : boundedText bodyText = .ok []) :
    verbRequest method urlText headersText none
      = verbRequest method urlText headersText (some bodyText) := by
  unfold verbRequest
  dsimp only
  rw [hbody]
  rfl

-- ================================================== sending and handing over

/-- The end of every synchronous call. -/
def sendChecked (transport : Transport T) (client : HttpClient T)
    (checked : Except Status HttpRequest) (responseBody : CharBuffer) :
    SyncResult :=
  match checked with
  | .error status => .refused status responseBody
  | .ok r => finishResponse (request transport client r {}) responseBody

/-- The end of every dispatch. -/
def handChecked (client : HttpClient T) (engine : AsyncEngine T)
    (checked : Except Status HttpRequest) (start : WorkerStart)
    (seed : UInt32) : Option (AsyncResult T) :=
  match checked with
  | .error status => some (.refused status engine)
  | .ok r =>
      if isSendable r then handOver client engine r start seed
      else some (.refused .invalidArgument engine)

section calls

variable (transport : Transport T) (client : HttpClient T)
  (engine : AsyncEngine T) (start : WorkerStart) (seed : UInt32)
  (methodText urlText headersText bodyText responseBody : CharBuffer)
  (connectTimeoutMs totalTimeoutMs maxResponseBytes : UInt32)

theorem executeRequestSync_eq :
    executeRequestSync transport client methodText urlText headersText
        bodyText connectTimeoutMs totalTimeoutMs maxResponseBytes
        responseBody
      = sendChecked transport client
          (generalRequest methodText urlText headersText bodyText
            (makeRequestOptions connectTimeoutMs totalTimeoutMs
              maxResponseBytes))
          responseBody := by
  unfold executeRequestSync generalRequest sendChecked
  cases boundedText methodText with
  | error status => rfl
  | ok methodView =>
  cases boundedText urlText with
  | error status => rfl
  | ok urlView =>
  cases boundedText headersText with
  | error status => rfl
  | ok headersView =>
  cases boundedText bodyText with
  | error status => rfl
  | ok bodyView =>
  cases hmethod : parseMethodText methodView with
  | error status => simp [bind, Except.bind, hmethod]
  | ok method =>
  cases hheaders : parseHeaderBlock headersView with
  | error status => simp [bind, Except.bind, hmethod, hheaders]
  | ok headers =>
      simp [bind, Except.bind, pure, Except.pure, hmethod, hheaders]

theorem dispatchRequestAsync_eq :
    dispatchRequestAsync client engine methodText urlText headersText
        bodyText connectTimeoutMs totalTimeoutMs maxResponseBytes start seed
      = handChecked client engine
          (generalRequest methodText urlText headersText bodyText
            (makeRequestOptions connectTimeoutMs totalTimeoutMs
              maxResponseBytes))
          start seed := by
  unfold dispatchRequestAsync generalRequest handChecked
  cases boundedText methodText with
  | error status => rfl
  | ok methodView =>
  cases boundedText urlText with
  | error status => rfl
  | ok urlView =>
  cases boundedText headersText with
  | error status => rfl
  | ok headersView =>
  cases boundedText bodyText with
  | error status => rfl
  | ok bodyView =>
  cases hmethod : parseMethodText methodView with
  | error status => simp [bind, Except.bind, hmethod]
  | ok method =>
  cases hheaders : parseHeaderBlock headersView with
  | error status => simp [bind, Except.bind, hmethod, hheaders]
  | ok headers =>
      simp only [bind, Except.bind, pure, Except.pure, hmethod, hheaders]
      unfold isSendable
      cases urlView.isEmpty <;>
        cases (methodForbidsBody method && !bodyView.isEmpty) <;> rfl

theorem executeNoBodyVerb_eq {method : HttpMethod}
    (hmethod : method = .get ∨ method = .delete) :
    executeNoBodyVerb transport client method urlText headersText
        responseBody
      = sendChecked transport client
          (verbRequest method urlText headersText none) responseBody := by
  unfold executeNoBodyVerb verbRequest sendChecked
  cases boundedText urlText with
  | error status => rfl
  | ok urlView =>
  cases boundedText headersText with
  | error status => rfl
  | ok headersView =>
  cases hheaders : parseHeaderBlock headersView with
  | error status => simp [bind, Except.bind, pure, Except.pure, hheaders]
  | ok headers =>
      simp only [bind, Except.bind, pure, Except.pure, hheaders]
      rcases hmethod with rfl | rfl <;> rfl

theorem executeBodyVerb_eq {method : HttpMethod}
    (hmethod : method = .post ∨ method = .put ∨ method = .patch) :
    executeBodyVerb transport client method urlText headersText bodyText
        responseBody
      = sendChecked transport client
          (verbRequest method urlText headersText (some bodyText))
          responseBody := by
  unfold executeBodyVerb verbRequest sendChecked
  cases boundedText urlText with
  | error status => rfl
  | ok urlView =>
  cases boundedText headersText with
  | error status => rfl
  | ok headersView =>
  cases hbody : boundedText bodyText with
  | error status => simp [bind, Except.bind, hbody]
  | ok bodyView =>
  cases hheaders : parseHeaderBlock headersView with
  | error status => simp [bind, Except.bind, hbody, hheaders]
  | ok headers =>
      simp only [bind, Except.bind, pure, Except.pure, hbody, hheaders]
      rcases hmethod with rfl | rfl | rfl <;> rfl

theorem dispatchNoBodyVerb_eq (method : HttpMethod) :
    dispatchNoBodyVerb client engine method urlText headersText start seed
      = handChecked client engine
          (verbRequest method urlText headersText none) start seed := by
  unfold dispatchNoBodyVerb verbRequest handChecked
  cases boundedText urlText with
  | error status => rfl
  | ok urlView =>
  cases boundedText headersText with
  | error status => rfl
  | ok headersView =>
  cases hheaders : parseHeaderBlock headersView with
  | error status => simp [bind, Except.bind, pure, Except.pure, hheaders]
  | ok headers =>
      simp only [bind, Except.bind, pure, Except.pure, hheaders]
      unfold isSendable
      cases urlView.isEmpty <;> simp

/-- A verb with a body does not forbid one, so no check of it is missing
here. -/
theorem dispatchBodyVerb_eq {method : HttpMethod}
    (hmethod : methodForbidsBody method = false) :
    dispatchBodyVerb client engine method urlText headersText bodyText
        start seed
      = handChecked client engine
          (verbRequest method urlText headersText (some bodyText))
          start seed := by
  unfold dispatchBodyVerb verbRequest handChecked
  cases boundedText urlText with
  | error status => rfl
  | ok urlView =>
  cases boundedText headersText with
  | error status => rfl
  | ok headersView =>
  cases hbody : boundedText bodyText with
  | error status => simp [bind, Except.bind, hbody]
  | ok bodyView =>
  cases hheaders : parseHeaderBlock headersView with
  | error status => simp [bind, Except.bind, hbody, hheaders]
  | ok headers =>
      simp only [bind, Except.bind, pure, Except.pure, hbody, hheaders]
      unfold isSendable
      cases urlView.isEmpty <;> simp [hmethod]

/-- A call of the synchronous surface, its response buffer aside. -/
inductive SyncCall where
  | request (methodText urlText headersText bodyText : CharBuffer)
      (connectTimeoutMs totalTimeoutMs maxResponseBytes : UInt32)
  | get (urlText headersText : CharBuffer)
  | delete (urlText headersText : CharBuffer)
  | post (urlText headersText bodyText : CharBuffer)
  | put (urlText headersText bodyText : CharBuffer)
  | patch (urlText headersText bodyText : CharBuffer)

def SyncCall.execute : SyncCall → SyncResult
  | .request methodText urlText headersText bodyText c t m =>
      executeRequestSync transport client methodText urlText headersText
        bodyText c t m responseBody
  | .get urlText headersText =>
      executeGetSync transport client urlText headersText responseBody
  | .delete urlText headersText =>
      executeDeleteSync transport client urlText headersText responseBody
  | .post urlText headersText bodyText =>
      executePostSync transport client urlText headersText bodyText
        responseBody
  | .put urlText headersText bodyText =>
      executePutSync transport client urlText headersText bodyText
        responseBody
  | .patch urlText headersText bodyText =>
      executePatchSync transport client urlText headersText bodyText
        responseBody

/-- The request its arguments name. -/
def SyncCall.checked : SyncCall → Except Status HttpRequest
  | .request methodText urlText headersText bodyText c t m =>
      generalRequest methodText urlText headersText bodyText
        (makeRequestOptions c t m)
  | .get urlText headersText => verbRequest .get urlText headersText none
  | .delete urlText headersText =>
      verbRequest .delete urlText headersText none
  | .post urlText headersText bodyText =>
      verbRequest .post urlText headersText (some bodyText)
  | .put urlText headersText bodyText =>
      verbRequest .put urlText headersText (some bodyText)
  | .patch urlText headersText bodyText =>
      verbRequest .patch urlText headersText (some bodyText)

/-- All six calls end alike. -/
theorem SyncCall.execute_eq (call : SyncCall) :
    call.execute transport client responseBody
      = sendChecked transport client call.checked responseBody := by
  cases call with
  | request => exact executeRequestSync_eq ..
  | get => exact executeNoBodyVerb_eq _ _ _ _ _ (Or.inl rfl)
  | delete => exact executeNoBodyVerb_eq _ _ _ _ _ (Or.inr rfl)
  | post => exact executeBodyVerb_eq _ _ _ _ _ _ (Or.inl rfl)
  | put => exact executeBodyVerb_eq _ _ _ _ _ _ (Or.inr (Or.inl rfl))
  | patch => exact executeBodyVerb_eq _ _ _ _ _ _ (Or.inr (Or.inr rfl))

-- ============================================================== agreement

/-- The two calls of a pair hand over the same requests, one at most, and
give the same status where they hand over none. -/
def Agree (sync : SyncResult) (async : Option (AsyncResult T)) : Prop :=
  ∃ r, async = some r ∧ sync.sent = r.handed ∧ sync.sent.length ≤ 1
    ∧ (sync.sent = [] → sync.status = r.result.status)

/-- What is checked alike is sent and handed over alike. -/
theorem agree_checked (checked : Except Status HttpRequest) :
    Agree (sendChecked transport client checked responseBody)
      (handChecked client engine checked start seed) := by
  cases checked with
  | error status => exact ⟨_, rfl, rfl, Nat.zero_le _, fun _ => rfl⟩
  | ok r =>
      unfold sendChecked handChecked
      dsimp only
      by_cases hsend : isSendable r = true
      · obtain ⟨d, hd⟩ := dispatch_total engine client r start seed
        have hsent : (finishResponse (request transport client r {})
            responseBody).sent = [r] := by
          rw [request_sent transport client {} hsend]
          unfold finishResponse
          split <;> rfl
        rw [if_pos hsend, handOver, hd]
        exact ⟨_, rfl, hsent, by rw [hsent]; exact Nat.le_refl _,
          fun hnil => absurd hnil (by simp [hsent])⟩
      · rw [Bool.not_eq_true] at hsend
        rw [request_refused transport client {} hsend, hsend]
        exact ⟨_, rfl, rfl, Nat.zero_le _, fun _ => rfl⟩

-- =============================================================== the result

/-- Sync and async front ends agree. In each of the six pairs the
synchronous call sends a request exactly when the asynchronous one hands
one to the engine, it is the same request, and where there is none the
statuses are the same; and a verb's calls are the general ones with a
method text for the verb, no timeouts, no cap, and for Get and Delete an
empty body. -/
theorem front_ends_agree :
    Agree
        (executeRequestSync transport client methodText urlText headersText
          bodyText connectTimeoutMs totalTimeoutMs maxResponseBytes
          responseBody)
        (dispatchRequestAsync client engine methodText urlText headersText
          bodyText connectTimeoutMs totalTimeoutMs maxResponseBytes start
          seed)
      ∧ Agree
        (executeGetSync transport client urlText headersText responseBody)
        (dispatchGetAsync client engine urlText headersText start seed)
      ∧ Agree
        (executeDeleteSync transport client urlText headersText responseBody)
        (dispatchDeleteAsync client engine urlText headersText start seed)
      ∧ Agree
        (executePostSync transport client urlText headersText bodyText
          responseBody)
        (dispatchPostAsync client engine urlText headersText bodyText start
          seed)
      ∧ Agree
        (executePutSync transport client urlText headersText bodyText
          responseBody)
        (dispatchPutAsync client engine urlText headersText bodyText start
          seed)
      ∧ Agree
        (executePatchSync transport client urlText headersText bodyText
          responseBody)
        (dispatchPatchAsync client engine urlText headersText bodyText start
          seed)
      ∧ ∀ text, boundedText methodText = .ok text →
        (boundedText bodyText = .ok [] → parseMethodText text = .ok .get →
          executeGetSync transport client urlText headersText responseBody
            = executeRequestSync transport client methodText urlText
                headersText bodyText 0 0 0 responseBody
          ∧ dispatchGetAsync client engine urlText headersText start seed
            = dispatchRequestAsync client engine methodText urlText
                headersText bodyText 0 0 0 start seed)
        ∧ (boundedText bodyText = .ok [] →
          parseMethodText text = .ok .delete →
          executeDeleteSync transport client urlText headersText
              responseBody
            = executeRequestSync transport client methodText urlText
                headersText bodyText 0 0 0 responseBody
          ∧ dispatchDeleteAsync client engine urlText headersText start seed
            = dispatchRequestAsync client engine methodText urlText
                headersText bodyText 0 0 0 start seed)
        ∧ (parseMethodText text = .ok .post →
          executePostSync transport client urlText headersText bodyText
              responseBody
            = executeRequestSync transport client methodText urlText
                headersText bodyText 0 0 0 responseBody
          ∧ dispatchPostAsync client engine urlText headersText bodyText
              start seed
            = dispatchRequestAsync client engine methodText urlText
                headersText bodyText 0 0 0 start seed)
        ∧ (parseMethodText text = .ok .put →
          executePutSync transport client urlText headersText bodyText
              responseBody
            = executeRequestSync transport client methodText urlText
                headersText bodyText 0 0 0 responseBody
          ∧ dispatchPutAsync client engine urlText headersText bodyText
              start seed
            = dispatchRequestAsync client engine methodText urlText
                headersText bodyText 0 0 0 start seed)
        ∧ (parseMethodText text = .ok .patch →
          executePatchSync transport client urlText headersText bodyText
              responseBody
            = executeRequestSync transport client methodText urlText
                headersText bodyText 0 0 0 responseBody
          ∧ dispatchPatchAsync client engine urlText headersText bodyText
              start seed
            = dispatchRequestAsync client engine methodText urlText
                headersText bodyText 0 0 0 start seed) := by
  simp only [executeRequestSync_eq, dispatchRequestAsync_eq,
    executeGetSync, executeDeleteSync, executePostSync, executePutSync,
    executePatchSync, dispatchGetAsync, dispatchDeleteAsync,
    dispatchPostAsync, dispatchPutAsync, dispatchPatchAsync,
    dispatchNoBodyVerb_eq, executeNoBodyVerb_eq _ _ _ _ _ (Or.inl rfl),
    executeNoBodyVerb_eq _ _ _ _ _ (Or.inr rfl),
    executeBodyVerb_eq _ _ _ _ _ _ (Or.inl rfl),
    executeBodyVerb_eq _ _ _ _ _ _ (Or.inr (Or.inl rfl)),
    executeBodyVerb_eq _ _ _ _ _ _ (Or.inr (Or.inr rfl)),
    dispatchBodyVerb_eq _ _ _ _ _ _ _
      (rfl : methodForbidsBody .post = false),
    dispatchBodyVerb_eq _ _ _ _ _ _ _
      (rfl : methodForbidsBody .put = false),
    dispatchBodyVerb_eq _ _ _ _ _ _ _
      (rfl : methodForbidsBody .patch = false)]
  refine ⟨agree_checked .., agree_checked .., agree_checked ..,
    agree_checked .., agree_checked .., agree_checked ..,
    fun text htext => ⟨?_, ?_, ?_, ?_, ?_⟩⟩
  · intro hbody hmethod
    rw [verbRequest_none .get hbody, verbRequest_general htext hmethod]
    exact ⟨rfl, rfl⟩
  · intro hbody hmethod
    rw [verbRequest_none .delete hbody, verbRequest_general htext hmethod]
    exact ⟨rfl, rfl⟩
  all_goals
    intro hmethod
    rw [verbRequest_general htext hmethod]
    exact ⟨rfl, rfl⟩

end calls

/-- A Get whose method text is in lower case. -/
theorem front_ends_agree_get :
    executeGetSync (fun _ _ response => (.ok, response)) (⟨()⟩ : HttpClient Unit)
        (.holding (bytesOf "http://h")) (.holding []) (.holding [1, 2, 3])
      = executeRequestSync (fun _ _ response => (.ok, response)) ⟨()⟩
          (.holding (bytesOf "get")) (.holding (bytesOf "http://h"))
          (.holding []) (.holding []) 0 0 0 (.holding [1, 2, 3]) :=
  (((front_ends_agree (fun _ _ response => (.ok, response)) ⟨()⟩ {}
    ⟨true, true⟩ 7 (.holding (bytesOf "get"))
    (.holding (bytesOf "http://h")) (.holding []) (.holding [])
    (.holding [1, 2, 3]) 0 0 0).2.2.2.2.2.2 (bytesOf "get") rfl).1
    rfl rfl).1

end RestifyCapl.Http
