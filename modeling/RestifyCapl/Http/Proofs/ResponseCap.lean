/-
The response cap is exact (`response_cap_exact`). The check of the write
callback is one about the sum of two sizes, whatever the width of
`std::size_t`. Over the chunks of a transfer the body is the longest part of
them, from the first one on, that is within the cap, and a chunk that is not
kept fails the transfer.

libcurl is told of a refused chunk by a short return of the callback, and
makes no further call for the transfer (`StopsAtShort`).
-/
import RestifyCapl.Http.Proofs.FailedTransfer
import RestifyCapl.Lib.Quota

namespace RestifyCapl.Http

open Lib
open AsyncEngine

variable {T : Type} {w : Nat}

-- ============================================================== the calls

/-- The chunk that a callback is given, and whether its allocation succeeds. -/
def CurlEvent.chunk : CurlEvent → Option Bytes
  | .header _ _ => none
  | .body chunk _ => some chunk

def CurlEvent.stored : CurlEvent → Bool
  | .header _ stored => stored
  | .body _ stored => stored

def chunks (events : List CurlEvent) : List Bytes :=
  events.filterMap CurlEvent.chunk

theorem chunks_header (line : Bytes) (stored : Bool) (events : List CurlEvent) :
    chunks (.header line stored :: events) = chunks events := rfl

theorem chunks_body (chunk : Bytes) (stored : Bool) (events : List CurlEvent) :
    chunks (.body chunk stored :: events) = chunk :: chunks events := rfl

/-- What the callbacks start from. -/
def Delivered.start (request : HttpRequest) : Delivered :=
  ⟨⟨[], capBytes request, false⟩, []⟩

/-- After a call that returned short no chunk is passed. -/
def StopsAtShort (w : Nat) (d : Delivered) (events : List CurlEvent) : Prop :=
  ∀ before chunk stored after, events = before ++ .body chunk stored :: after →
    (writeCallback w (before.foldl (Delivered.next w) d).ctx chunk stored).1
      ≠ BitVec.ofNat w chunk.length →
    chunks after = []

theorem stopsAtShort_nil (d : Delivered) : StopsAtShort w d [] := by
  intro before chunk stored after heq _
  cases before <;> cases heq

theorem stopsAtShort_cons {d : Delivered} {e : CurlEvent} {events : List CurlEvent} :
    StopsAtShort w d (e :: events)
      ↔ (∀ chunk stored, e = .body chunk stored →
          (writeCallback w d.ctx chunk stored).1 ≠ BitVec.ofNat w chunk.length →
          chunks events = [])
        ∧ StopsAtShort w (d.next w e) events := by
  constructor
  · intro h
    constructor
    · rintro chunk stored rfl hshort
      exact h [] chunk stored events rfl hshort
    · intro before chunk stored after heq hshort
      apply h (e :: before) chunk stored after
      · rw [heq]
        rfl
      · exact hshort
  · rintro ⟨hhead, htail⟩ before chunk stored after heq hshort
    cases before with
    | nil =>
        injection heq with he hafter
        rw [← hafter]
        exact hhead chunk stored he hshort
    | cons first before =>
        injection heq with he hevents
        rw [he] at htail
        exact htail before chunk stored after hevents hshort

-- =============================================================== one chunk

/-- A chunk within the cap is appended. -/
theorem writeCallback_kept (hw : 32 ≤ w) {ctx : WriteContext} {chunk : Bytes}
    (hchunk : chunk.length < 2 ^ w)
    (hroom : ctx.body.length + chunk.length ≤ ctx.capBytes.toNat) :
    writeCallback w ctx chunk true
      = (BitVec.ofNat w chunk.length, { ctx with body := ctx.body ++ chunk }) := by
  have hcap := capBytes_lt hw ctx.capBytes
  have hbody : ctx.body.length < 2 ^ w := by omega
  have hwithin : ¬ wouldExceedResponseCap (BitVec.ofNat w ctx.body.length)
      (BitVec.ofNat w chunk.length) ctx.capBytes = true := by
    rw [wouldExceedResponseCap_iff hw, BitVec.toNat_ofNat, BitVec.toNat_ofNat,
      Nat.mod_eq_of_lt hbody, Nat.mod_eq_of_lt hchunk]
    omega
  unfold writeCallback
  dsimp only
  rw [if_neg hwithin]
  rfl

/-- A chunk over the cap is refused: the return is short. -/
theorem writeCallback_refused (hw : 32 ≤ w) {ctx : WriteContext} {chunk : Bytes}
    (stored : Bool) (hchunk : chunk.length < 2 ^ w)
    (hbody : ctx.body.length ≤ ctx.capBytes.toNat)
    (hroom : ctx.capBytes.toNat < ctx.body.length + chunk.length) :
    writeCallback w ctx chunk stored = (0, { ctx with capExceeded := true })
      ∧ (0 : BitVec w) ≠ BitVec.ofNat w chunk.length := by
  have hcap := capBytes_lt hw ctx.capBytes
  have hexceeds : wouldExceedResponseCap (BitVec.ofNat w ctx.body.length)
      (BitVec.ofNat w chunk.length) ctx.capBytes = true := by
    rw [wouldExceedResponseCap_iff hw, BitVec.toNat_ofNat, BitVec.toNat_ofNat,
      Nat.mod_eq_of_lt (Nat.lt_of_le_of_lt hbody hcap), Nat.mod_eq_of_lt hchunk]
    exact hroom
  constructor
  · unfold writeCallback
    dsimp only
    rw [if_pos hexceeds]
  · intro hzero
    have hlength := congrArg BitVec.toNat hzero
    rw [BitVec.toNat_ofNat, Nat.mod_eq_of_lt hchunk] at hlength
    have hzero : (0 : BitVec w).toNat = 0 := BitVec.toNat_zero
    omega

-- ============================================================== all chunks

/-- Callbacks without a chunk leave the body. -/
theorem delivered_headers {events : List CurlEvent} (h : chunks events = [])
    (d : Delivered) : (events.foldl (Delivered.next w) d).ctx = d.ctx := by
  induction events generalizing d with
  | nil => rfl
  | cons e events ih =>
      cases e with
      | header line stored => exact ih h _
      | body chunk stored => cases h

/-- What the callbacks of a transfer leave: the kept chunks, and all of them
unless one was refused. -/
theorem delivered_chunks (hw : 32 ≤ w) {events : List CurlEvent} {d : Delivered}
    (hfits : ∀ e ∈ events, e.bytes.length < 2 ^ w)
    (hstored : ∀ e ∈ events, e.stored = true) (hstops : StopsAtShort w d events)
    (hbody : d.ctx.body.length ≤ d.ctx.capBytes.toNat)
    (hcap : d.ctx.capExceeded = false) :
    ∃ kept, kept = takeWithin List.length
        (d.ctx.capBytes.toNat - d.ctx.body.length) (chunks events)
      ∧ (events.foldl (Delivered.next w) d).ctx.body = d.ctx.body ++ kept.flatten
      ∧ ((events.foldl (Delivered.next w) d).ctx.capExceeded = false
          ∧ chunks events = kept
        ∨ (events.foldl (Delivered.next w) d).ctx.capExceeded = true
          ∧ ∃ refused, chunks events = kept ++ [refused]) := by
  induction events generalizing d with
  | nil =>
      refine ⟨[], rfl, ?_, Or.inl ⟨hcap, rfl⟩⟩
      rw [List.flatten_nil, List.append_nil]
      rfl
  | cons e events ih =>
      obtain ⟨hfit, hrestFits⟩ := List.forall_mem_cons.mp hfits
      obtain ⟨hstore, hrestStored⟩ := List.forall_mem_cons.mp hstored
      obtain ⟨hhead, hrest⟩ := stopsAtShort_cons.mp hstops
      cases e with
      | header line stored =>
          rw [chunks_header]
          exact ih hrestFits hrestStored hrest hbody hcap
      | body chunk stored =>
          rw [chunks_body]
          obtain rfl : stored = true := hstore
          have hsize : chunk.length < 2 ^ w := hfit
          by_cases hroom : d.ctx.body.length + chunk.length ≤ d.ctx.capBytes.toNat
          · have hnext : d.next w (.body chunk true)
                = { d with ctx := { d.ctx with body := d.ctx.body ++ chunk } } := by
              show { d with ctx := (writeCallback w d.ctx chunk true).2 } = _
              rw [writeCallback_kept hw hsize hroom]
            rw [List.foldl_cons]
            rw [hnext] at hrest ⊢
            obtain ⟨kept, hkept, hfold, hcases⟩ := ih hrestFits hrestStored
              hrest (by rwa [List.length_append]) hcap
            refine ⟨chunk :: kept, ?_, ?_, ?_⟩
            · have hroomLeft : d.ctx.capBytes.toNat - (d.ctx.body ++ chunk).length
                  = d.ctx.capBytes.toNat - d.ctx.body.length - chunk.length := by
                rw [List.length_append]
                omega
              rw [takeWithin_of_le (by omega), ← hroomLeft, hkept]
            · rw [hfold, List.flatten_cons, List.append_assoc]
            · rcases hcases with ⟨hnone, hall⟩ | ⟨hset, refused, hall⟩
              · exact Or.inl ⟨hnone, by rw [hall]⟩
              · exact Or.inr ⟨hset, refused, by rw [hall]; rfl⟩
          · obtain ⟨hwrite, hshort⟩ := writeCallback_refused hw true hsize hbody
              (by omega)
            have hnone : chunks events = [] := by
              apply hhead chunk true rfl
              rw [hwrite]
              exact hshort
            have hnext : (d.next w (.body chunk true)).ctx
                = { d.ctx with capExceeded := true } := by
              show (writeCallback w d.ctx chunk true).2 = _
              rw [hwrite]
            refine ⟨[], (takeWithin_of_lt (by omega) _).symm, ?_, Or.inr ⟨?_, chunk, ?_⟩⟩
            · rw [List.foldl_cons, delivered_headers hnone, hnext,
                List.flatten_nil, List.append_nil]
            · rw [List.foldl_cons, delivered_headers hnone, hnext]
            · rw [hnone]
              rfl

-- ============================================================ one transfer

/-- What the callbacks of a run leave. -/
def CurlRun.delivered (run : CurlRun w) (request : HttpRequest) : Delivered :=
  run.events.foldl (Delivered.next w) (.start request)

/-- `Perform` on a run that started. -/
theorem curlPerform_started {run : CurlRun w} (hinit : run.initOk = true)
    (hhandle : run.hasHandle = true) (request : HttpRequest)
    (response : HttpResponse) :
    (curlPerform run request response).1
        = resolveTransferResult (run.delivered request).ctx.capExceeded
          (mapCurlCode run.code)
      ∧ (curlPerform run request response).2.body
        = (run.delivered request).ctx.body := by
  unfold curlPerform CurlRun.delivered Delivered.start
  rw [hinit, hhandle]
  dsimp only
  rw [if_neg (by simp), if_neg (by simp)]
  split
  next => exact ⟨rfl, rfl⟩
  next hok =>
    rw [ne_eq, not_not] at hok
    exact ⟨hok.symm, rfl⟩

/-- The number that the calls report for a body is its length. -/
def LengthExact (T : Type) (status : Status) (response : HttpResponse) : Prop :=
  (∀ sent buffer n,
      (finishResponse ⟨status, response, sent⟩ buffer).responseBodyLength = some n →
        n.toNat = response.body.length)
    ∧ ∀ (s : Slot T) buffer, s.response = response →
      (readSlot s buffer).responseBodyLength.toNat = response.body.length

theorem lengthExact {response : HttpResponse} (h : response.body.length < 2 ^ 32)
    (status : Status) : LengthExact T status response := by
  have hexact : (UInt32.ofNat response.body.length).toNat = response.body.length := by
    rw [UInt32.toNat_ofNat', Nat.mod_eq_of_lt h]
  constructor
  · intro sent buffer n hn
    unfold finishResponse at hn
    split at hn
    next => cases hn
    next =>
      cases hn
      exact hexact
  · intro s buffer hs
    show (UInt32.ofNat s.response.body.length).toNat = _
    rw [hs]
    exact hexact

/-- The cap is exact. The check says whether the sum of the sizes is over
the cap. Over a transfer whose chunks can be stored, the body is the longest
part of them within the cap; its length fits the number that reports it; and
a chunk was refused exactly where the flag is set, which is what the transfer
then fails with. -/
theorem response_cap_exact (hw : w = 32 ∨ w = 64) :
    (∀ (currentSize incoming : BitVec w) (capBytes : UInt32),
      wouldExceedResponseCap currentSize incoming capBytes = true
        ↔ capBytes.toNat < currentSize.toNat + incoming.toNat)
      ∧ (∀ request : HttpRequest, (capBytes request).toNat
        = if request.options.maxResponseBytes = 0 then 8388608
          else request.options.maxResponseBytes.toNat)
      ∧ ∀ (run : CurlRun w) (request : HttpRequest) (response : HttpResponse),
        run.initOk = true → run.hasHandle = true →
        (∀ e ∈ run.events, e.stored = true) →
        StopsAtShort w (.start request) run.events →
        ∃ kept, LongestWithin List.length (capBytes request).toNat
            (chunks run.events) kept
          ∧ (curlPerform run request response).2.body = kept.flatten
          ∧ kept.flatten.length ≤ (capBytes request).toNat
          ∧ LengthExact T (curlPerform run request response).1
            (curlPerform run request response).2
          ∧ ((run.delivered request).ctx.capExceeded = false
              ∧ chunks run.events = kept
              ∧ (curlPerform run request response).1 = mapCurlCode run.code
            ∨ (run.delivered request).ctx.capExceeded = true
              ∧ (∃ refused, chunks run.events = kept ++ [refused])
              ∧ (curlPerform run request response).1 = .responseTooLarge) := by
  have hwide : 32 ≤ w := by omega
  refine ⟨wouldExceedResponseCap_iff hwide, ?_, ?_⟩
  · intro request
    unfold capBytes
    split <;> rfl
  · intro run request response hinit hhandle hstored hstops
    obtain ⟨hstatus, hbody⟩ := curlPerform_started hinit hhandle request response
    obtain ⟨kept, hkept, hfold, hcases⟩ := delivered_chunks hwide run.fits hstored
      hstops (Nat.zero_le _) rfl
    have hfold : (run.delivered request).ctx.body = kept.flatten := hfold
    have hlongest : LongestWithin List.length (capBytes request).toNat
        (chunks run.events) kept := by
      rw [hkept]
      exact takeWithin_longest List.length _ _
    have hwithin : kept.flatten.length ≤ (capBytes request).toNat := by
      rw [List.length_flatten]
      exact hlongest.within
    have hfits := UInt32.toNat_lt (capBytes request)
    refine ⟨kept, hlongest, hbody.trans hfold, hwithin, ?_, ?_⟩
    · apply lengthExact
      rw [hbody, hfold]
      omega
    · rcases hcases with ⟨hnone, hall⟩ | ⟨hset, hrefused⟩
      · have hnone : (run.delivered request).ctx.capExceeded = false := hnone
        rw [hstatus, hnone]
        exact Or.inl ⟨rfl, hall, rfl⟩
      · have hset : (run.delivered request).ctx.capExceeded = true := hset
        rw [hstatus, hset]
        exact Or.inr ⟨rfl, hrefused, rfl⟩

/-- Three chunks for a cap of four bytes; the second one fills it up. -/
def overCap : CurlRun 32 where
  events := [.body (bytesOf "abc") true, .body (bytesOf "d") true,
    .body (bytesOf "e") true]
  code := .other 23
  httpCode := 200
  fits := by decide

theorem overCap_stops :
    StopsAtShort 32 (.start { options := { maxResponseBytes := 4 } })
      overCap.events := by
  unfold overCap
  simp only [stopsAtShort_cons]
  refine ⟨?_, ?_, ?_, stopsAtShort_nil _⟩
  · rintro chunk stored ⟨⟩ hshort
    exact absurd (by decide) hshort
  · rintro chunk stored ⟨⟩ hshort
    exact absurd (by decide) hshort
  · exact fun _ _ _ _ => rfl

/-- The third one is refused, and the transfer with it, whatever code libcurl
ends with. -/
theorem response_cap_exact_overCap :
    (curlPerform overCap { options := { maxResponseBytes := 4 } } {}).2.body
        = bytesOf "abcd"
      ∧ ∃ kept, LongestWithin List.length 4 (chunks overCap.events) kept
        ∧ (curlPerform overCap { options := { maxResponseBytes := 4 } } {}).2.body
          = kept.flatten
        ∧ (curlPerform overCap { options := { maxResponseBytes := 4 } } {}).1
          = .responseTooLarge := by
  refine ⟨by decide, ?_⟩
  obtain ⟨kept, hlongest, hbody, -, -, hcases⟩ :=
    (response_cap_exact (T := Unit) (Or.inl rfl)).2.2 overCap
      { options := { maxResponseBytes := 4 } } {} rfl rfl (by decide) overCap_stops
  refine ⟨kept, hlongest, hbody, ?_⟩
  rcases hcases with ⟨hnone, -⟩ | ⟨-, -, hstatus⟩
  · exact absurd hnone (by decide)
  · exact hstatus

end RestifyCapl.Http
