/-
What a failed transfer reports. `CurlTransport::Perform` returns on a
failed transfer without clearing what the write callback has stored, so
the body that came before the failure is reported as a response body.
Nothing is reported exactly when no byte was kept (`KeepsNoByte`): every
chunk was empty, could not be stored, or was over the cap by itself.
-/
import RestifyCapl.Http.CurlTransport
import RestifyCapl.Http.Proofs.FrontEnds
import RestifyCapl.Http.Proofs.Integrity

namespace RestifyCapl.Http

open Lib
open AsyncEngine

variable {T : Type} {w : Nat}

-- ================================================================ the cap

/-- A `std::size_t` holds the cap. -/
theorem capBytes_lt (hw : 32 ≤ w) (capBytes : UInt32) : capBytes.toNat < 2 ^ w :=
  Nat.lt_of_lt_of_le (UInt32.toNat_lt capBytes)
    (Nat.pow_le_pow_right (by decide) hw)

/-- In a `std::size_t` that holds the cap the check is one about the sum,
which may not be a `std::size_t`. -/
theorem wouldExceedResponseCap_iff (hw : 32 ≤ w)
    (currentSize incoming : BitVec w) (capBytes : UInt32) :
    wouldExceedResponseCap currentSize incoming capBytes = true
      ↔ capBytes.toNat < currentSize.toNat + incoming.toNat := by
  have hcap := capBytes_lt hw capBytes
  unfold wouldExceedResponseCap
  simp only [Bool.or_eq_true, decide_eq_true_eq, gt_iff_lt, BitVec.lt_def,
    BitVec.toNat_ofNat, Nat.mod_eq_of_lt hcap]
  by_cases hinc : capBytes.toNat < incoming.toNat
  · simp only [hinc, true_or, true_iff]
    omega
  · have hsub : (BitVec.ofNat w capBytes.toNat - incoming).toNat
        = capBytes.toNat - incoming.toNat := by
      rw [BitVec.toNat_sub_of_le, BitVec.toNat_ofNat,
        Nat.mod_eq_of_lt hcap]
      rw [BitVec.le_def, BitVec.toNat_ofNat, Nat.mod_eq_of_lt hcap]
      omega
    rw [hsub]
    omega

/-- What the write callback leaves within the cap. -/
theorem writeCallback_within (hw : 32 ≤ w) {ctx : WriteContext}
    {chunk : Bytes} (stored : Bool) (hchunk : chunk.length < 2 ^ w)
    (hbody : ctx.body.length ≤ ctx.capBytes.toNat) :
    (writeCallback w ctx chunk stored).2.capBytes = ctx.capBytes
      ∧ (writeCallback w ctx chunk stored).2.body.length
        ≤ ctx.capBytes.toNat := by
  have hcap := capBytes_lt hw ctx.capBytes
  unfold writeCallback
  dsimp only
  split
  · exact ⟨rfl, hbody⟩
  · rename_i hfits
    split
    · exact ⟨rfl, hbody⟩
    · refine ⟨rfl, ?_⟩
      rw [wouldExceedResponseCap_iff hw, BitVec.toNat_ofNat,
        BitVec.toNat_ofNat, Nat.mod_eq_of_lt hchunk,
        Nat.mod_eq_of_lt (Nat.lt_of_le_of_lt hbody hcap)] at hfits
      rw [List.length_append]
      omega

/-- So do all callbacks of a run. -/
theorem delivered_within (hw : 32 ≤ w) {events : List CurlEvent}
    {d : Delivered} (hfits : ∀ e ∈ events, e.bytes.length < 2 ^ w)
    (hbody : d.ctx.body.length ≤ d.ctx.capBytes.toNat) :
    (events.foldl (Delivered.next w) d).ctx.body.length
      ≤ d.ctx.capBytes.toNat := by
  induction events generalizing d with
  | nil => exact hbody
  | cons e events ih =>
      have hrest : ∀ e ∈ events, e.bytes.length < 2 ^ w :=
        fun e he => hfits e (List.mem_cons_of_mem _ he)
      cases e with
      | header line stored => exact ih (d := d.next w _) hrest hbody
      | body chunk stored =>
          have hchunk : chunk.length < 2 ^ w := hfits _ List.mem_cons_self
          obtain ⟨hcap, hbody'⟩ :=
            writeCallback_within hw stored hchunk hbody
          rw [← hcap] at hbody' ⊢
          exact ih (d := d.next w (.body chunk stored)) hrest hbody'

-- ========================================================= the kept bytes

/-- A callback that leaves an empty body empty: no chunk, an empty one,
one that could not be stored, or one over the cap by itself. -/
def CurlEvent.KeepsNoByte (w : Nat) (capBytes : UInt32) : CurlEvent → Prop
  | .header _ _ => True
  | .body chunk stored =>
      chunk = [] ∨ stored = false
        ∨ wouldExceedResponseCap 0 (BitVec.ofNat w chunk.length) capBytes

/-- No body byte of the run is kept. -/
def KeepsNoByte (run : CurlRun w) (request : HttpRequest) : Prop :=
  run.initOk = false ∨ run.hasHandle = false
    ∨ ∀ e ∈ run.events, e.KeepsNoByte w (capBytes request)

/-- The body only grows. -/
theorem delivered_grows (events : List CurlEvent) (d : Delivered)
    (hbody : d.ctx.body ≠ []) :
    (events.foldl (Delivered.next w) d).ctx.body ≠ [] := by
  induction events generalizing d with
  | nil => exact hbody
  | cons e events ih =>
      refine ih _ ?_
      cases e with
      | header line stored => exact hbody
      | body chunk stored =>
          unfold Delivered.next writeCallback
          dsimp only
          split
          · exact hbody
          · split
            · exact hbody
            · simp [hbody]

/-- From an empty body, one callback keeps no byte or the body is no
longer empty. -/
theorem next_keepsNoByte {d : Delivered} (hbody : d.ctx.body = [])
    (e : CurlEvent) :
    (d.next w e).ctx.capBytes = d.ctx.capBytes
      ∧ ((d.next w e).ctx.body = [] ↔ e.KeepsNoByte w d.ctx.capBytes) := by
  cases e with
  | header line stored => exact ⟨rfl, by simp [Delivered.next, hbody,
      CurlEvent.KeepsNoByte]⟩
  | body chunk stored =>
      unfold Delivered.next writeCallback CurlEvent.KeepsNoByte
      simp only [hbody, List.length_nil]
      split
      · rename_i hexceeds
        exact ⟨rfl, by simp [hexceeds]⟩
      · rename_i hfits
        cases stored with
        | false => exact ⟨rfl, by simp [hbody]⟩
        | true =>
            refine ⟨rfl, ?_⟩
            simp [hfits]

theorem delivered_empty_iff (events : List CurlEvent) {d : Delivered}
    (hbody : d.ctx.body = []) :
    (events.foldl (Delivered.next w) d).ctx.body = []
      ↔ ∀ e ∈ events, e.KeepsNoByte w d.ctx.capBytes := by
  induction events generalizing d with
  | nil => simp [hbody]
  | cons e events ih =>
      obtain ⟨hcap, hkeeps⟩ := next_keepsNoByte (w := w) hbody e
      rw [List.foldl_cons, List.forall_mem_cons, ← hkeeps, ← hcap]
      constructor
      · intro hempty
        have hnext : (d.next w e).ctx.body = [] := by
          by_contra hne
          exact delivered_grows events _ hne hempty
        exact ⟨hnext, (ih hnext).mp hempty⟩
      · rintro ⟨hnext, hrest⟩
        exact (ih hnext).mpr hrest

-- =========================================================== one transfer

/-- The statuses of a failed transfer: -18 to -23. -/
def Status.isTransportError (status : Status) : Bool :=
  decide (-23 ≤ status.toInt32) && decide (status.toInt32 ≤ -18)

/-- `Perform` on a failed transfer: no HTTP status, and the body that was
kept. -/
theorem curlPerform_failed (hw : 32 ≤ w) (run : CurlRun w)
    (request : HttpRequest) {response : HttpResponse}
    (hclear : response.statusCode = 0 ∧ response.body = [])
    (hfail : (curlPerform run request response).1 ≠ .ok) :
    (curlPerform run request response).2.statusCode = 0
      ∧ (curlPerform run request response).2.body.length < 2 ^ 32
      ∧ ((curlPerform run request response).2.body = []
        ↔ KeepsNoByte run request) := by
  unfold curlPerform KeepsNoByte at *
  obtain ⟨hstatus, hbody⟩ := hclear
  cases hinit : run.initOk with
  | false =>
      rw [hinit] at hfail
      simp [hstatus, hbody]
  | true =>
  cases hhandle : run.hasHandle with
  | false => simp
  | true =>
      have hwithin := delivered_within hw
        (d := ⟨⟨[], capBytes request, false⟩, []⟩) run.fits (Nat.zero_le _)
      have hcap := UInt32.toNat_lt (capBytes request)
      have hempty := delivered_empty_iff (w := w) run.events
        (d := ⟨⟨[], capBytes request, false⟩, []⟩) rfl
      simp only [hinit, hhandle, Bool.not_true, Bool.false_eq_true,
        if_false] at hfail ⊢
      split at hfail
      · rename_i hne
        rw [if_pos hne]
        refine ⟨rfl, Nat.lt_of_le_of_lt hwithin hcap, ?_⟩
        simpa using hempty
      · exact absurd rfl hfail

-- ============================================================= the reports

/-- A synchronous call reports no response: the transport's status, both
numbers zero, and an empty text in a usable buffer. -/
def ReportsNothing (result : SyncResult) (status : Status)
    (responseBody : CharBuffer) : Prop :=
  result.status = status ∧ result.httpStatusCode = some 0
    ∧ result.responseBodyLength = some 0
    ∧ (responseBody.unusable = false →
      result.responseBody = responseBody.store [0])

theorem transportError_ne {status : Status}
    (h : Status.isTransportError status = true) :
    status ≠ .ok ∧ status ≠ .invalidArgument := by
  cases status <;> simp_all [Status.isTransportError, Status.toInt32]

/-- A number that is below 2^32 is written as zero only if it is. -/
theorem ofNat_eq_zero {n : Nat} (h : n < 2 ^ 32) :
    UInt32.ofNat n = 0 ↔ n = 0 := by
  rw [← UInt32.toNat_inj, UInt32.toNat_ofNat', Nat.mod_eq_of_lt h]
  rfl

/-- What `FinishResponse` makes of a failed transfer. -/
theorem finishResponse_failed {result : Transfer} {responseBody : CharBuffer}
    (hstatus : result.status ≠ .ok)
    (harg : result.status ≠ .invalidArgument)
    (hcode : result.response.statusCode = 0)
    (hlen : result.response.body.length < 2 ^ 32) :
    ReportsNothing (finishResponse result responseBody) result.status
        responseBody
      ↔ result.response.body = [] := by
  unfold finishResponse ReportsNothing
  rw [if_neg harg]
  simp only [if_neg hstatus, hcode, Option.some.injEq, true_and]
  rw [ofNat_eq_zero hlen, List.length_eq_zero_iff]
  constructor
  · rintro ⟨hbody, -⟩
    exact hbody
  · intro hbody
    refine ⟨hbody, fun husable => ?_⟩
    obtain ⟨m, -, hpos, -⟩ := CharBuffer.usable_mem husable
    have hfits : ([] : Bytes).length < responseBody.size.toNat := hpos
    rw [hbody, copyToBuffer_fits husable hfits]
    rfl

/-- A synchronous call that sent its request. -/
theorem sendChecked_sent {transport : Transport T} {client : HttpClient T}
    {checked : Except Status HttpRequest} {responseBody : CharBuffer}
    {r : HttpRequest}
    (hsent : (sendChecked transport client checked responseBody).sent
      = [r]) :
    sendChecked transport client checked responseBody
      = finishResponse
          ⟨(transport client.transport r {}).1,
            (transport client.transport r {}).2, [r]⟩
          responseBody := by
  cases checked with
  | error status => cases hsent
  | ok r' =>
      unfold sendChecked at hsent ⊢
      dsimp only at hsent ⊢
      cases hsend : isSendable r' with
      | false =>
          rw [request_refused transport client {} hsend] at hsent
          cases hsent
      | true =>
          rw [request_sent transport client {} hsend] at hsent ⊢
          have : (finishResponse ⟨(transport client.transport r' {}).1,
              (transport client.transport r' {}).2, [r']⟩
              responseBody).sent = [r'] := by
            unfold finishResponse
            split <;> rfl
          rw [this] at hsent
          injection hsent with hr _
          rw [hr]

-- =============================================================== the result

/-- When a failed transfer reports no response. A synchronous call whose
transfer failed reports the status and nothing else exactly when no body
byte was kept. A Read that gives a transport error gives it for a call of
`Perform` that came back after the last Dispatch of the id, and where
libcurl was behind that call, both numbers are zero exactly when no byte
was kept in it. -/
theorem failed_transfer_reports (hw : w = 32 ∨ w = 64) :
    (∀ (client : HttpClient T) (call : SyncCall) responseBody r
        (run : CurlRun w),
      (call.execute (curlTransport T run) client responseBody).sent = [r] →
      Status.isTransportError (curlPerform run r {}).1 = true →
      (ReportsNothing
          (call.execute (curlTransport T run) client responseBody)
          (curlPerform run r {}).1 responseBody
        ↔ KeepsNoByte run r))
      ∧ ∀ (h : List (Action T × Answer T)) (s : System T),
        AsyncReach T h s → ∀ (k : Nat) id buffer result status,
        h[k]? = some (.read id buffer, .read result) →
        result.requestStatus = status.toInt32 →
        Status.isTransportError status = true →
        ∃ d e q worker answer call response, d < q
          ∧ Latest (Issues id) (h.take k) d e
          ∧ (h.take k)[q]? = some
            (.performReturn worker answer,
              .performReturned call status response)
          ∧ call.id = id
          ∧ ∀ run : CurlRun w, answer = curlPerform run call.request {} →
            (result.httpStatusCode = 0 ∧ result.responseBodyLength = 0
              ↔ KeepsNoByte run call.request) := by
  have hw : 32 ≤ w := by omega
  constructor
  · intro client call responseBody r run hsent hfail
    obtain ⟨hok, harg⟩ := transportError_ne hfail
    rw [call.execute_eq] at hsent ⊢
    rw [sendChecked_sent hsent]
    obtain ⟨hcode, hlen, hempty⟩ := curlPerform_failed hw run r ⟨rfl, rfl⟩ hok
    rw [← hempty]
    exact finishResponse_failed hok harg hcode hlen
  · intro h s hr k id buffer result status hk hstatus hfail
    obtain ⟨hok, harg⟩ := transportError_ne hfail
    obtain ⟨s₁, hr₁, rfl⟩ := read_event hr hk
    have hzero : (0 : Int32) ≠ status.toInt32 := by
      intro h0
      exact hok (Status.toInt32_injective h0.symm)
    rcases read_cases s₁.engine id buffer with
      ⟨-, hread⟩ | ⟨i, hfind, ⟨-, hread⟩ | ⟨hdone, hread, -⟩⟩
    · rw [hread] at hstatus
      exact absurd hstatus hzero
    · rw [hread] at hstatus
      exact absurd hstatus hzero
    · rw [hread] at hstatus ⊢
      obtain ⟨worker, call, -, ⟨hid, -, -⟩, d, e, p, q, answer, hl, hdp, hpq,
        -, hq, hout⟩ := (Served.reach hr₁).complete i hdone
      have hst : (s₁.engine.slots i).transportStatus = status :=
        Status.toInt32_injective hstatus
      have hcall : call.id = id :=
        hid.symm.trans (findLiveSlotLocked_some hfind).1
      rw [hst] at hq hout
      refine ⟨d, e, q, worker, answer, call, _, by omega, hcall ▸ hl, hq,
        hcall, fun run hrun => ?_⟩
      have hanswer : (status, (s₁.engine.slots i).response)
          = curlPerform run call.request {} := by
        unfold HttpClient.perform at hout
        split at hout
        · injection hout with hstatus _
          exact absurd hstatus harg
        · exact hout.trans hrun
      obtain ⟨hcode, hlen, hempty⟩ := curlPerform_failed hw run call.request
        ⟨rfl, rfl⟩ (by rw [← hanswer]; exact hok)
      rw [← hanswer] at hcode hlen hempty
      rw [← hempty]
      show (s₁.engine.slots i).response.statusCode = 0
        ∧ UInt32.ofNat (s₁.engine.slots i).response.body.length = 0 ↔ _
      rw [ofNat_eq_zero hlen, List.length_eq_zero_iff]
      exact ⟨And.right, fun hbody => ⟨hcode, hbody⟩⟩

/-- A body that begins to arrive before the transfer times out. -/
def cutShort : CurlRun 64 where
  events := [.header (bytesOf "HTTP/1.1 200 OK") true,
    .body (bytesOf "abc") true]
  code := .operationTimedout
  httpCode := 200
  fits := by decide

/-- The three bytes are reported, and left in the buffer, with the
timeout. -/
theorem cutShort_reported :
    executeGetSync (curlTransport Unit cutShort) ⟨()⟩
        (.holding (bytesOf "http://h")) (.holding [])
        (.holding [1, 2, 3, 4])
      = ⟨.timeout, ⟨some (bytesOf "abc" ++ [0, 0]), 5, by decide⟩, some 0,
          some 3,
          [{ url := bytesOf "http://h" }]⟩
      ∧ ¬ ReportsNothing
        (executeGetSync (curlTransport Unit cutShort) ⟨()⟩
          (.holding (bytesOf "http://h")) (.holding [])
          (.holding [1, 2, 3, 4]))
        .timeout (.holding [1, 2, 3, 4]) := by
  refine ⟨by decide, ?_⟩
  rintro ⟨-, -, hlength, -⟩
  exact absurd hlength (by decide)

/-- A transfer that is refused before any byte came. -/
def refusedConnection : CurlRun 64 where
  events := []
  code := .couldntConnect
  httpCode := 0
  fits := by decide

theorem failed_transfer_reports_refused :
    ReportsNothing
      (executeGetSync (curlTransport Unit refusedConnection) ⟨()⟩
        (.holding (bytesOf "http://h")) (.holding []) (.holding [1, 2, 3]))
      .networkError (.holding [1, 2, 3]) :=
  ((failed_transfer_reports (T := Unit) (Or.inr rfl)).1 ⟨()⟩
    (.get (.holding (bytesOf "http://h")) (.holding []))
    (.holding [1, 2, 3]) { url := bytesOf "http://h" } refusedConnection
    (by decide) (by decide)).mpr
    (Or.inr (Or.inr (by simp [refusedConnection])))

end RestifyCapl.Http

