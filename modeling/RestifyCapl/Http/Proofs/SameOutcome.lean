/-
A request dispatched and read later comes to what the synchronous call
comes to. `SyncCall.dispatch` is the asynchronous call of each of the six
pairs; the request it hands to the engine is the one the synchronous call
sends, and the engine carries it, and then its outcome, from the Dispatch
to the Read.

The two calls of a pair are made at different times, so nothing says that
the network answers them alike. The comparison is with the synchronous
call whose transport answers what the worker's transport answered.
-/
import RestifyCapl.Http.Proofs.FrontEnds
import RestifyCapl.Http.Proofs.Integrity

namespace RestifyCapl.Http

open Lib
open AsyncEngine

variable {T : Type} {h : List (Action T × Answer T)}

-- =============================================================== the pairs

/-- The asynchronous call of the pair. -/
def SyncCall.dispatch (client : HttpClient T) (engine : AsyncEngine T)
    (start : WorkerStart) (seed : UInt32) :
    SyncCall → Option (AsyncResult T)
  | .request methodText urlText headersText bodyText c t m =>
      dispatchRequestAsync client engine methodText urlText headersText
        bodyText c t m start seed
  | .get urlText headersText =>
      dispatchGetAsync client engine urlText headersText start seed
  | .delete urlText headersText =>
      dispatchDeleteAsync client engine urlText headersText start seed
  | .post urlText headersText bodyText =>
      dispatchPostAsync client engine urlText headersText bodyText start
        seed
  | .put urlText headersText bodyText =>
      dispatchPutAsync client engine urlText headersText bodyText start seed
  | .patch urlText headersText bodyText =>
      dispatchPatchAsync client engine urlText headersText bodyText start
        seed

theorem SyncCall.dispatch_eq (call : SyncCall) (client : HttpClient T)
    (engine : AsyncEngine T) (start : WorkerStart) (seed : UInt32) :
    call.dispatch client engine start seed
      = handChecked client engine call.checked start seed := by
  cases call with
  | request => exact dispatchRequestAsync_eq ..
  | get => exact dispatchNoBodyVerb_eq ..
  | delete => exact dispatchNoBodyVerb_eq ..
  | post => exact dispatchBodyVerb_eq _ _ _ _ _ _ _ rfl
  | put => exact dispatchBodyVerb_eq _ _ _ _ _ _ _ rfl
  | patch => exact dispatchBodyVerb_eq _ _ _ _ _ _ _ rfl

/-- A call that handed over a request passed its checks with it. -/
theorem SyncCall.dispatch_handed {call : SyncCall} {client : HttpClient T}
    {engine : AsyncEngine T} {start : WorkerStart} {seed : UInt32}
    {res : AsyncResult T} {r : HttpRequest}
    (hres : call.dispatch client engine start seed = some res)
    (hr : r ∈ res.handed) :
    call.checked = .ok r ∧ isSendable r = true := by
  rw [SyncCall.dispatch_eq] at hres
  cases hchecked : call.checked with
  | error status =>
      rw [hchecked] at hres
      obtain rfl := Option.some.inj hres
      cases hr
  | ok checked =>
      rw [hchecked, handChecked] at hres
      by_cases hsend : isSendable checked = true
      · rw [if_pos hsend, handOver] at hres
        split at hres
        next => cases hres
        next =>
          obtain rfl := Option.some.inj hres
          rw [List.mem_singleton.mp hr]
          exact ⟨rfl, hsend⟩
      · rw [if_neg hsend] at hres
        obtain rfl := Option.some.inj hres
        cases hr

-- =============================================================== the carry

/-- What a Complete slot holds, told by the history: the answer its
transport gave since the last Dispatch of the id. -/
theorem complete_answer {s : System T} {i} (hr : AsyncReach T h s)
    (hcomplete : (s.engine.slots i).state = .complete) :
    ∃ d q w client request start seed call answer,
      Latest (Issues (s.engine.slots i).id) h d
        (.dispatch client request start seed,
          .dispatched .ok (s.engine.slots i).id)
      ∧ d < q
      ∧ h[q]? = some (.performReturn w answer,
        .performReturned call (s.engine.slots i).transportStatus
          (s.engine.slots i).response)
      ∧ call.id = (s.engine.slots i).id
      ∧ ((s.engine.slots i).transportStatus, (s.engine.slots i).response)
        = if request.url.isEmpty then (.invalidArgument, {})
          else answer := by
  have hv := Served.reach hr
  have huse : (s.engine.slots i).isReusable = false := by
    simp [Slot.isReusable, hcomplete]
  obtain ⟨w, call, -, ⟨hid, hclient, hrequest⟩, hret⟩ :=
    hv.complete i hcomplete
  obtain ⟨d, e, p, q, answer, hl, hdp, hpq, -, hq, hout⟩ := hret
  obtain ⟨d', client, request, start, seed, hl', -, hrequest'⟩ :=
    hv.carries i huse
  rw [← hid] at hl
  obtain ⟨rfl, rfl⟩ := hl.unique hl'
  refine ⟨d, q, w, client, request, start, seed, call, answer, hl,
    Nat.lt_trans hdp hpq, hq, hid.symm, ?_⟩
  rw [hout, ← hrequest, hrequest']
  rfl

-- ============================================================== the report

/-- The synchronous call reports what the Read reported. Its status is
the transport's where that is a failure, and the copy's otherwise, where
the Read gives the two apart. An `InvalidArgument` from the transport
keeps the synchronous call from writing anything; `buffer` is what the
caller passed. -/
def SameReport (request : HttpRequest) (buffer : CharBuffer)
    (sync : SyncResult) (async : ReadResult) : Prop :=
  sync.sent = [request]
    ∧ sync.status.toInt32
      = (if async.requestStatus = Status.ok.toInt32
          then async.status.toInt32 else async.requestStatus)
    ∧ (async.requestStatus ≠ Status.invalidArgument.toInt32 →
      sync.httpStatusCode = some async.httpStatusCode
        ∧ sync.responseBodyLength = some async.responseBodyLength
        ∧ sync.responseBody = async.responseBody)
    ∧ (async.requestStatus = Status.invalidArgument.toInt32 →
      sync.httpStatusCode = none ∧ sync.responseBodyLength = none
        ∧ sync.responseBody = buffer)

theorem finishResponse_readSlot (request : HttpRequest) (a : Slot T)
    (buffer : CharBuffer) :
    SameReport request buffer
      (finishResponse ⟨a.transportStatus, a.response, [request]⟩ buffer)
      (readSlot a buffer) := by
  unfold SameReport finishResponse readSlot
  dsimp only
  by_cases hinvalid : a.transportStatus = .invalidArgument
  · rw [if_pos hinvalid, hinvalid]
    refine ⟨rfl, ?_, fun hne => absurd rfl hne, fun _ => ⟨rfl, rfl, rfl⟩⟩
    rw [if_neg (by decide)]
  · rw [if_neg hinvalid]
    have hcode : a.transportStatus.toInt32 ≠ Status.invalidArgument.toInt32 :=
      fun heq => hinvalid (Status.toInt32_injective heq)
    refine ⟨rfl, ?_, fun _ => ⟨rfl, rfl, rfl⟩, fun heq => absurd heq hcode⟩
    dsimp only
    by_cases hok : a.transportStatus = .ok
    · rw [if_pos hok, hok, if_pos rfl]
    · rw [if_neg hok, if_neg]
      exact fun heq => hok (Status.toInt32_injective heq)

-- ============================================================== the result

/-- Dispatch, wait and Read do what the synchronous call does. Where an
asynchronous call handed its request to the engine and a Read finds it
Complete, some transport answered it in between; the synchronous call of
the pair, with a transport that answers that, sends this one request and
reports what the Read reports. -/
theorem read_matches_sync {s : System T} {call : SyncCall}
    {client : HttpClient T} {engine : AsyncEngine T} {start : WorkerStart}
    {seed id : UInt32} {res : AsyncResult T} {request : HttpRequest}
    {d k : Nat} {buffer : CharBuffer} {r : ReadResult}
    (hr : AsyncReach T h s)
    (hres : call.dispatch client engine start seed = some res)
    (hhanded : request ∈ res.handed)
    (hd : Latest (Issues id) (h.take k) d
      (.dispatch client request start seed, .dispatched .ok id))
    (hk : h[k]? = some (.read id buffer, .read r))
    (hunknown : r.status ≠ .unknownRequestId)
    (hnot : r.status ≠ .requestNotComplete) :
    ∃ q w performed answer,
      d < q ∧ q < k ∧ performed.id = id
      ∧ h[q]? = some (.performReturn w answer,
        .performReturned performed answer.1 answer.2)
      ∧ ∀ transport : Transport T,
        transport client.transport request {} = answer →
        SameReport request buffer (call.execute transport client buffer) r := by
  obtain ⟨hchecked, hsend⟩ := SyncCall.dispatch_handed hres hhanded
  obtain ⟨s₁, hr₁, rfl⟩ := read_event hr hk
  obtain ⟨i, rfl, hcomplete, hread⟩ := read_complete hunknown hnot
  obtain ⟨d', q, w, client', request', start', seed', performed, answer,
    hd', hdq, hq, hid, hanswer⟩ := complete_answer hr₁ hcomplete
  -- the Read's last Dispatch is the one of the call
  obtain ⟨rfl, heq⟩ := hd.unique hd'
  rw [Prod.mk.injEq, Action.dispatch.injEq] at heq
  obtain ⟨⟨-, rfl, -, -⟩, -⟩ := heq
  obtain ⟨hqk, hq⟩ := take_get hq
  have hurl : request.url.isEmpty = false := by
    unfold isSendable at hsend
    simp only [Bool.and_eq_true, Bool.not_eq_true'] at hsend
    exact hsend.1
  rw [hurl, if_neg Bool.false_ne_true] at hanswer
  refine ⟨q, w, performed, answer, hdq, hqk, hid, ?_, ?_⟩
  · rw [hq, ← hanswer]
  · intro transport htransport
    rw [SyncCall.execute_eq, hchecked, sendChecked,
      request_sent transport client {} hsend, htransport, ← hanswer, hread]
    exact finishResponse_readSlot request _ buffer

/-- A Get without headers to the address of `fetch`. -/
def fetchCall : SyncCall := .get (.holding [104]) (.holding [])

/-- The call the worker of `fetch` makes. -/
def fetchPerform : PerformCall Unit :=
  ⟨⟨0, by decide⟩, 7, ⟨()⟩, { url := [104], cancelFlag := some 0 }⟩

def fetchAnswer : Status × HttpResponse :=
  (.ok, { statusCode := 200, body := [111, 107] })

def fetchReport : ReadResult :=
  ⟨.ok, fourBytes 111 107 0 0, 0, 200, 2⟩

theorem fetch_history :
    (((asyncMachine Unit).exec {} fetch).get fetch_runs).1
      = [(.dispatch ⟨()⟩ { url := [104] } ⟨true, true⟩ 7,
            .dispatched .ok 7),
          (.firstLock 0, .worker (.perform fetchPerform.slot)),
          (.perform 0, .performing fetchPerform),
          (.performReturn 0 fetchAnswer,
            .performReturned fetchPerform fetchAnswer.1 fetchAnswer.2),
          (.relock 0, .worker (.wait 1)),
          (.read 7 (fourBytes 0 0 0 0), .read fetchReport)] := by
  decide

theorem read_matches_sync_fetch :
    SameReport { url := [104] } (fourBytes 0 0 0 0)
      (fetchCall.execute (fun _ _ _ => fetchAnswer)
        (⟨()⟩ : HttpClient Unit) (fourBytes 0 0 0 0))
      fetchReport := by
  have hlatest : Latest (Issues 7)
      ((((asyncMachine Unit).exec {} fetch).get fetch_runs).1.take 5) 0
      (.dispatch ⟨()⟩ { url := [104] } ⟨true, true⟩ 7,
        .dispatched .ok 7) := by
    rw [fetch_history]
    exact (((((Latest.new (h := []) ⟨_, _, _, _, rfl⟩).snoc
      (not_issues (by simp))).snoc (not_issues (by simp))).snoc
      (not_issues (by simp))).snoc (not_issues (by simp)))
  obtain ⟨q, w, performed, answer, -, -, -, hq, hsame⟩ :=
    read_matches_sync (T := Unit) (h := _) (.of_exec rfl fetch_runs)
      (rfl : fetchCall.dispatch ⟨()⟩ {} ⟨true, true⟩ 7 = some _)
      (List.mem_singleton_self _) hlatest
      (by rw [fetch_history]; rfl) (by decide) (by decide)
  apply hsame
  rw [fetch_history] at hq
  have hmem := List.mem_of_getElem? hq
  simp at hmem
  exact hmem.1.2.symm

end RestifyCapl.Http
