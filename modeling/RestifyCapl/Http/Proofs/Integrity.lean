/-
Response integrity: what Read reports is the outcome of one `Perform`
call, made with the client and the request of the last Dispatch that
returned the id, and nothing is performed or read twice. The history
invariant `Served` already holds these facts of the slots; here they
become facts about the positions of a history.
-/
import RestifyCapl.Http.Proofs.Served

namespace RestifyCapl.Http

open Lib
open AsyncEngine

variable {T : Type} {h : List (Action T × Answer T)}

-- ================================================================== read

/-- Read's three ways out: no live slot, a slot not Complete yet, or a
Complete one, of which it reports what is in it. -/
theorem read_cases (e : AsyncEngine T) (id : UInt32) (buffer : CharBuffer) :
    (e.findLiveSlotLocked id = none
        ∧ e.read id buffer = (⟨.unknownRequestId, buffer, 0, 0, 0⟩, e))
      ∨ ∃ i, e.findLiveSlotLocked id = some i
        ∧ (((e.slots i).state ≠ .complete
            ∧ e.read id buffer = (⟨.requestNotComplete, buffer, 0, 0, 0⟩, e))
          ∨ ((e.slots i).state = .complete
            ∧ (e.read id buffer).1 = readSlot (e.slots i) buffer
            ∧ ((e.read id buffer).1.status ≠ .ok →
              (e.read id buffer).2 = e))) := by
  unfold AsyncEngine.read
  cases hfind : e.findLiveSlotLocked id with
  | none => exact Or.inl ⟨rfl, rfl⟩
  | some i =>
      refine Or.inr ⟨i, rfl, ?_⟩
      by_cases hc : (e.slots i).state = .complete
      · refine Or.inr ⟨hc, ?_⟩
        by_cases hok : (readSlot (e.slots i) buffer).status = .ok
        · simp [hc, hok]
        · simp [hc, hok]
      · exact Or.inl ⟨hc, by simp [hc]⟩

/-- A Complete slot is never reported as unknown or not complete. -/
theorem readSlot_status (a : Slot T) (buffer : CharBuffer) :
    (readSlot a buffer).status ≠ .unknownRequestId
      ∧ (readSlot a buffer).status ≠ .requestNotComplete := by
  unfold readSlot copyToBuffer
  dsimp only
  split
  · simp
  · split <;> simp

/-- A Read that finds its slot Complete reports what is in it. -/
theorem read_complete {e : AsyncEngine T} {id : UInt32}
    {buffer : CharBuffer}
    (hunknown : (e.read id buffer).1.status ≠ .unknownRequestId)
    (hnot : (e.read id buffer).1.status ≠ .requestNotComplete) :
    ∃ i, (e.slots i).id = id ∧ (e.slots i).state = .complete
      ∧ (e.read id buffer).1 = readSlot (e.slots i) buffer := by
  rcases read_cases e id buffer with
    ⟨-, hr⟩ | ⟨i, hfind, ⟨-, hr⟩ | ⟨hc, hr, -⟩⟩
  · rw [hr] at hunknown
    exact absurd rfl hunknown
  · rw [hr] at hnot
    exact absurd rfl hnot
  · exact ⟨i, (findLiveSlotLocked_some hfind).1, hc, hr⟩

/-- The read events of a history come from the states they were made
in. -/
theorem read_event {s : System T} {k : Nat} {id : UInt32}
    {buffer : CharBuffer} {r : ReadResult} (hr : AsyncReach T h s)
    (hk : h[k]? = some (.read id buffer, .read r)) :
    ∃ s₁, AsyncReach T (h.take k) s₁
      ∧ r = (s₁.engine.read id buffer).1 := by
  obtain ⟨s₁, s₂, hr₁, hst, -⟩ := hr.at hk
  refine ⟨s₁, hr₁, ?_⟩
  have hst : some (Answer.read (s₁.engine.read id buffer).1, _)
      = some (Answer.read r, s₂) := hst
  injection hst with hst
  injection hst with hst _
  injection hst with hst
  exact hst.symm

theorem take_get {k m : Nat} {e : Action T × Answer T}
    (hm : (h.take k)[m]? = some e) : m < k ∧ h[m]? = some e := by
  rw [List.getElem?_take] at hm
  split at hm
  · exact ⟨by assumption, hm⟩
  · cases hm

-- =============================================================== perform

/-- Every call of `Perform` is made with the client and the request of
the last Dispatch that returned the id. -/
theorem perform_event {s : System T} {p w : Nat} {call : PerformCall T}
    (hr : AsyncReach T h s)
    (hp : h[p]? = some (.perform w, .performing call)) :
    ∃ d client request start seed,
      Latest (Issues call.id) (h.take p) d
        (.dispatch client request start seed, .dispatched .ok call.id)
      ∧ call.client = client
      ∧ call.request = { request with
          cancelFlag := call.request.cancelFlag } := by
  obtain ⟨s₁, s₂, hr₁, hst, -⟩ := hr.at hp
  have hv := Served.reach hr₁
  have ho := (EngineInv.reach hr₁).owned
  have hst : System.step s₁ (.perform w) = some (.performing call, s₂) := hst
  simp only [System.step] at hst
  split at hst
  next i hw =>
    split at hst
    next => cases hst
    next client hclient =>
      injection hst with hst
      rw [Prod.mk.injEq] at hst
      obtain ⟨hcall, -⟩ := hst
      injection hcall with hcall
      have huse := Slot.reusable_of_busy (ho.busy w i (slotOf_of_get hw))
      obtain ⟨d, client', request, start, seed, hl, hc, hq⟩ :=
        hv.carries i huse
      rw [hclient, Option.some.injEq] at hc
      subst hcall hc
      refine ⟨d, client, request, start, seed, hl, rfl, ?_⟩
      show (s₁.engine.slots i).request = _
      rw [hq]
  next => cases hst

-- ============================================================== the result

/-- Response integrity. A Read that finds its slot Complete reports the
outcome of one `Perform` call, begun and returned since the last
Dispatch that returned the id, with that Dispatch's client and request;
no request is performed twice, and none is read twice with Ok. -/
theorem response_integrity {s : System T} (hr : AsyncReach T h s) :
    (∀ k id buffer r, h[k]? = some (.read id buffer, .read r) →
      r.status ≠ .unknownRequestId → r.status ≠ .requestNotComplete →
      ∃ d p q w client request start seed call answer status response,
        d < p ∧ p < q ∧ q < k
        ∧ Latest (Issues id) (h.take k) d
          (.dispatch client request start seed, .dispatched .ok id)
        ∧ h[p]? = some (.perform w, .performing call)
        ∧ h[q]? = some
          (.performReturn w answer, .performReturned call status response)
        ∧ call.id = id ∧ call.client = client
        ∧ call.request = { request with
            cancelFlag := call.request.cancelFlag }
        ∧ (status, response) = call.client.perform answer call.request {}
        ∧ r.requestStatus = status.toInt32
        ∧ r.httpStatusCode = response.statusCode
        ∧ r.responseBodyLength = UInt32.ofNat response.body.length
        ∧ (r.status, r.responseBody) = copyToBuffer response.body buffer)
      ∧ (∀ p w call, h[p]? = some (.perform w, .performing call) →
        ∃ d client request start seed,
          Latest (Issues call.id) (h.take p) d
            (.dispatch client request start seed, .dispatched .ok call.id)
          ∧ call.client = client
          ∧ call.request = { request with
              cancelFlag := call.request.cancelFlag })
      ∧ (∀ id, OncePer (Performs id) (Issues id) h)
      ∧ ∀ id, OncePer (ReadsOk id) (Issues id) h := by
  have hv := Served.reach hr
  refine ⟨?_, fun p w call hp => perform_event hr hp, hv.oncePerform,
    hv.onceRead⟩
  intro k id buffer r hk hunknown hnot
  obtain ⟨s₁, hr₁, rfl⟩ := read_event hr hk
  obtain ⟨i, rfl, hcomplete, hread⟩ := read_complete hunknown hnot
  have hv₁ := Served.reach hr₁
  have huse : (s₁.engine.slots i).isReusable = false := by
    simp [Slot.isReusable, hcomplete]
  obtain ⟨w, call, -, ⟨hid, hclient, hrequest⟩, hret⟩ :=
    hv₁.complete i hcomplete
  obtain ⟨d, e, p, q, answer, hl, hdp, hpq, hp, hq, hout⟩ := hret
  obtain ⟨d', client, request, start, seed, hl', hclient', hrequest'⟩ :=
    hv₁.carries i huse
  -- the call's last Dispatch is the slot's
  rw [← hid] at hl
  obtain ⟨rfl, rfl⟩ := hl.unique hl'
  obtain ⟨hqk, hq⟩ := take_get hq
  obtain ⟨-, hp⟩ := take_get hp
  rw [hclient, Option.some.injEq] at hclient'
  refine ⟨d, p, q, w, client, request, start, seed, call, answer, _, _,
    hdp, hpq, hqk, hl, hp, hq, hid.symm, hclient', ?_, hout, ?_⟩
  · rw [← hrequest, hrequest']
  · rw [hread]
    exact ⟨rfl, rfl, rfl, rfl⟩

/-- Four bytes of caller memory. -/
def fourBytes (a b c d : UInt8) : CharBuffer :=
  ⟨some [a, b, c, d], 4, by rintro m ⟨⟩; exact Nat.le_refl 4⟩

/-- One request from its Dispatch to its Read. -/
def fetch : List (Action Unit) :=
  [.dispatch ⟨()⟩ { url := [104] } ⟨true, true⟩ 7, .firstLock 0, .perform 0,
    .performReturn 0 (.ok, { statusCode := 200, body := [111, 107] }),
    .relock 0, .read 7 (fourBytes 0 0 0 0)]

theorem fetch_runs : ((asyncMachine Unit).exec {} fetch).isSome = true := by
  decide

theorem response_integrity_fetch :
    ∃ (d p q w : Nat) (call : PerformCall Unit) (status : Status)
        (response : HttpResponse),
      d < p ∧ p < q ∧ q < 5
      ∧ (((asyncMachine Unit).exec {} fetch).get fetch_runs).1[p]?
        = some (.perform w, .performing call)
      ∧ (Status.ok, fourBytes 111 107 0 0)
        = copyToBuffer response.body (fourBytes 0 0 0 0)
      ∧ (200 : Int32) = response.statusCode
      ∧ Status.ok.toInt32 = Status.toInt32 status := by
  obtain ⟨d, p, q, w, _, _, _, _, call, _, status, response, hdp, hpq, hqk,
      -, hp, -, -, -, -, -, hstatus, hcode, -, hcopy⟩ :=
    (response_integrity (.of_exec rfl fetch_runs)).1 5 7
      (fourBytes 0 0 0 0)
      ⟨.ok, fourBytes 111 107 0 0, Status.ok.toInt32, 200, 2⟩
      (by decide) (by simp) (by simp)
  exact ⟨d, p, q, w, call, status, response, hdp, hpq, hqk, hp, hcopy,
    hcode, hstatus⟩

end RestifyCapl.Http
