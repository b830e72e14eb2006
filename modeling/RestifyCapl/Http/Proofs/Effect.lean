/-
What one step of the async system can do, said once. Every invariant of
the engine is a fact about the slot table, the worker list and the two
worker counters; `Effect` lists the ways a step changes these, and
`step_effect` proves the list complete. The invariant files never unfold
an engine function: they go through the cases of `Effect`.

`relock` is the one step that does two things, publishing an outcome and
going through the top of the loop again with the mutex still held. It is
split at that point: `finished` is the state in between, in which the
worker stands where a fresh thread stands, and the rest of the step is
an ordinary effect from there.
-/
import RestifyCapl.Http.AsyncSystem
import RestifyCapl.Lib.Mint

namespace RestifyCapl.Http

open Lib
open AsyncEngine

variable {T : Type}

-- ========================================================= small accessors

@[simp] theorem setSlot_slots (e : AsyncEngine T) (i) (s : Slot T) :
    (e.setSlot i s).slots = Function.update e.slots i s := rfl

@[simp] theorem setSlot_liveWorkers (e : AsyncEngine T) (i) (s : Slot T) :
    (e.setSlot i s).liveWorkers = e.liveWorkers := rfl

@[simp] theorem setSlot_idleWorkers (e : AsyncEngine T) (i) (s : Slot T) :
    (e.setSlot i s).idleWorkers = e.idleWorkers := rfl

theorem dispatchedSlot_freed (s : Slot T) (i) (id : UInt32)
    (client : HttpClient T) (request : HttpRequest) :
    dispatchedSlot (freeSlotContentsLocked s) i id client request
      = dispatchedSlot s i id client request := rfl

theorem freed_twice (s : Slot T) (i) (id : UInt32)
    (client : HttpClient T) (request : HttpRequest) :
    { freeSlotContentsLocked (dispatchedSlot s i id client request) with
        state := SlotState.free }
      = { freeSlotContentsLocked s with state := SlotState.free } := rfl

-- ================================================================ minting

/-- The loop's two branches that go on are the one of `mint`. -/
theorem mintLoop_eq (live : UInt32 → Bool) (fuel : Nat) (next : UInt32) :
    mintLoop live fuel next = mint live fuel next := by
  induction fuel generalizing next with
  | zero => rfl
  | succ fuel ih =>
      unfold mintLoop mint
      rw [ih]
      by_cases h0 : next = 0
      · simp [h0]
      · simp [h0]

/-- An id that is not live is no slot's id, stale ids aside. -/
theorem isIdLiveLocked_eq_false {e : AsyncEngine T} {id : UInt32} :
    e.isIdLiveLocked id = false
      ↔ ∀ i, (e.slots i).isReusable = false → (e.slots i).id ≠ id := by
  unfold isIdLiveLocked
  rw [Option.isSome_eq_false_iff, Option.isNone_iff_eq_none, findFirst_none]
  refine forall_congr' fun i => ?_
  cases h : (e.slots i).isReusable <;> simp

/-- Freeing a reusable slot's contents does not change which ids are
live. -/
theorem isIdLiveLocked_freed {e : AsyncEngine T} {i} {id : UInt32}
    (hi : (e.slots i).isReusable = true)
    (h : (e.setSlot i (freeSlotContentsLocked (e.slots i))).isIdLiveLocked
      id = false) :
    e.isIdLiveLocked id = false := by
  rw [isIdLiveLocked_eq_false] at h ⊢
  intro j hj
  have hne : j ≠ i := by
    intro heq
    subst heq
    rw [hi] at hj
    cases hj
  have := h j
  rw [setSlot_slots, Function.update_of_ne hne] at this
  exact this hj

/-- `mintIdLocked` moves the id counter only. -/
theorem mintIdLocked_some {e e' : AsyncEngine T} {seed id : UInt32}
    (h : e.mintIdLocked seed = some (id, e')) :
    id ≠ 0 ∧ e.isIdLiveLocked id = false ∧ e'.slots = e.slots
      ∧ e'.liveWorkers = e.liveWorkers ∧ e'.idleWorkers = e.idleWorkers
      ∧ e'.wakeGeneration = e.wakeGeneration
      ∧ e'.moduleReferences = e.moduleReferences := by
  simp only [mintIdLocked] at h
  split at h
  next => cases h
  next id' next hmint =>
    injection h with h
    rw [Prod.mk.injEq] at h
    obtain ⟨rfl, rfl⟩ := h
    rw [mintLoop_eq] at hmint
    obtain ⟨hne, hfree, -⟩ := mint_some hmint
    exact ⟨hne, hfree, rfl, rfl, rfl, rfl, rfl⟩

/-- Eight slots cannot hold a lap of ids, so minting ends. -/
theorem mintIdLocked_total (e : AsyncEngine T) (seed : UInt32) :
    ∃ r, e.mintIdLocked seed = some r := by
  simp only [mintIdLocked, mintLoop_eq]
  generalize (if e.idSeeded then e.nextId else seed) = next
  have hids : ∀ v, e.isIdLiveLocked v = true →
      v ∈ List.ofFn fun i => (e.slots i).id := by
    intro v hv
    rw [List.mem_ofFn]
    by_contra hno
    have hfree : e.isIdLiveLocked v = false :=
      isIdLiveLocked_eq_false.mpr fun i _ hi => hno ⟨i, hi⟩
    rw [hfree] at hv
    cases hv
  have hsome : (mint e.isIdLiveLocked (2 ^ 32) next).isSome = true :=
    mint_isSome hids (by rw [List.length_ofFn]; decide) (Nat.le_refl _) next
  obtain ⟨r, hr⟩ := Option.isSome_iff_exists.mp hsome
  rw [hr]
  exact ⟨_, rfl⟩

-- =============================================================== dispatch

/-- A Dispatch always comes back. -/
theorem dispatch_total (e : AsyncEngine T) (client : HttpClient T)
    (request : HttpRequest) (start : WorkerStart) (seed : UInt32) :
    ∃ r, e.dispatch client request start seed = some r := by
  simp only [dispatch]
  split
  next => exact ⟨_, rfl⟩
  next i _ =>
    obtain ⟨⟨id, minted⟩, hmint⟩ := mintIdLocked_total
      (e.setSlot i (freeSlotContentsLocked (e.slots i))) seed
    rw [hmint]
    rw [← Option.isSome_iff_exists]
    dsimp only
    split_ifs <;> rfl

/-- A slot whose contents were freed and whose state is Free. -/
def freedSlot (s : Slot T) : Slot T :=
  { freeSlotContentsLocked s with state := .free }

/-- Everything `Dispatch` can do: refuse, issue an id, or take the
request back because no worker could be started. -/
inductive DispatchCase (e : AsyncEngine T) (client : HttpClient T)
    (request : HttpRequest) : DispatchResult T → Prop
  | refused (hfull : ∀ i, (e.slots i).isReusable = false) :
      DispatchCase e client request ⟨.noFreeRequestSlot, 0, false, false, e⟩
  | issued {r : DispatchResult T} (i) (id : UInt32)
      (hi : (e.slots i).isReusable = true) (hid : id ≠ 0)
      (hfresh : ∀ j, (e.slots j).isReusable = false → (e.slots j).id ≠ id)
      (hstatus : r.status = .ok) (hrid : r.requestId = id)
      (hnotified : r.notified = true)
      (hslots : r.engine.slots = Function.update e.slots i
        (dispatchedSlot (e.slots i) i id client request))
      (hidle : r.engine.idleWorkers = e.idleWorkers)
      (hlive : r.engine.liveWorkers
        = e.liveWorkers + (if r.threadStarted then 1 else 0))
      (hrule : r.threadStarted = true
        ↔ e.idleWorkers.toNat < count Slot.isPending r.engine.slots
          ∧ e.liveWorkers.toNat < kAsyncRequestSlotCount) :
      DispatchCase e client request r
  | unissued {r : DispatchResult T} (i)
      (hi : (e.slots i).isReusable = true)
      (hstatus : r.status = .asyncStartFailed) (hrid : r.requestId = 0)
      (hstarted : r.threadStarted = false) (hnotified : r.notified = false)
      (hslots : r.engine.slots
        = Function.update e.slots i (freedSlot (e.slots i)))
      (hidle : r.engine.idleWorkers = e.idleWorkers)
      (hlive : r.engine.liveWorkers = e.liveWorkers) :
      DispatchCase e client request r

/-- No more than eight slots are pending, so the 32-bit count is the
count. -/
theorem countPendingSlotsLocked_toNat (e : AsyncEngine T) :
    e.countPendingSlotsLocked.toNat = count Slot.isPending e.slots := by
  have hle : count Slot.isPending e.slots ≤ kAsyncRequestSlotCount := by
    have := count_add_le (p := Slot.isPending) (q := fun _ => false)
      (t := e.slots) (fun _ _ => rfl)
    omega
  unfold countPendingSlotsLocked
  have h8 : kAsyncRequestSlotCount = 8 := rfl
  rw [UInt32.toNat_ofNat']
  omega

/-- A worker that started raised the live counter; one that did not left
the engine as it was. -/
theorem startWorkerLocked_cases (e : AsyncEngine T) (start : WorkerStart) :
    ((e.startWorkerLocked start).1 = true
        ∧ (e.startWorkerLocked start).2.slots = e.slots
        ∧ (e.startWorkerLocked start).2.idleWorkers = e.idleWorkers
        ∧ (e.startWorkerLocked start).2.liveWorkers = e.liveWorkers + 1)
      ∨ ((e.startWorkerLocked start).1 = false
        ∧ (e.startWorkerLocked start).2 = e) := by
  obtain ⟨acquired, threadStarted⟩ := start
  cases acquired with
  | false => exact Or.inr ⟨rfl, rfl⟩
  | true =>
      cases threadStarted with
      | false => exact Or.inr ⟨rfl, rfl⟩
      | true => exact Or.inl ⟨rfl, rfl, rfl, rfl⟩

theorem dispatch_cases {e : AsyncEngine T} {client : HttpClient T}
    {request : HttpRequest} {start : WorkerStart} {seed : UInt32}
    {r : DispatchResult T}
    (h : e.dispatch client request start seed = some r) :
    DispatchCase e client request r := by
  simp only [dispatch] at h
  split at h
  next hnone =>
    injection h with h
    subst h
    exact .refused (findFirst_none.mp hnone)
  next i hfind =>
    have hi : (e.slots i).isReusable = true := findFirst_some hfind
    split at h
    next => cases h
    next id minted hmint =>
      obtain ⟨hid, hnotlive, hslots, hlive, hidle, -, -⟩ :=
        mintIdLocked_some hmint
      have hfresh := isIdLiveLocked_eq_false.mp
        (isIdLiveLocked_freed hi hnotlive)
      -- the engine with the request in its slot, before the start rule
      generalize hfilled : minted.setSlot i
        (dispatchedSlot (minted.slots i) i id client request) = filled at h
      have hfslots : filled.slots = Function.update e.slots i
          (dispatchedSlot (e.slots i) i id client request) := by
        rw [← hfilled, setSlot_slots, hslots, setSlot_slots,
          Function.update_idem, Function.update_self, dispatchedSlot_freed]
      have hfidle : filled.idleWorkers = e.idleWorkers := by
        rw [← hfilled, setSlot_idleWorkers, hidle, setSlot_idleWorkers]
      have hflive : filled.liveWorkers = e.liveWorkers := by
        rw [← hfilled, setSlot_liveWorkers, hlive, setSlot_liveWorkers]
      have hneeds : (decide (filled.countPendingSlotsLocked
            > filled.idleWorkers)
          && decide (filled.liveWorkers
            < UInt32.ofNat kAsyncRequestSlotCount)) = true
          ↔ e.idleWorkers.toNat < count Slot.isPending filled.slots
            ∧ e.liveWorkers.toNat < kAsyncRequestSlotCount := by
        rw [Bool.and_eq_true, decide_eq_true_eq, decide_eq_true_eq, gt_iff_lt,
          UInt32.lt_iff_toNat_lt, UInt32.lt_iff_toNat_lt,
          countPendingSlotsLocked_toNat, hfidle, hflive]
        rfl
      generalize hn : (decide (filled.countPendingSlotsLocked
          > filled.idleWorkers)
        && decide (filled.liveWorkers
          < UInt32.ofNat kAsyncRequestSlotCount)) = needs at h hneeds
      cases needs with
      | false =>
          simp only [Bool.false_eq_true, if_false, if_true,
            Option.some.injEq] at h
          subst h
          exact .issued i id hi hid hfresh rfl rfl rfl hfslots hfidle
            (by simpa using hflive) (by simpa using hneeds)
      | true =>
          simp only [if_true] at h
          rcases startWorkerLocked_cases filled start with
            ⟨hst, hsslots, hsidle, hslive⟩ | ⟨hst, hsame⟩
          · rw [if_pos hst, Option.some.injEq] at h
            subst h
            exact .issued i id hi hid hfresh rfl rfl rfl
              (hsslots.trans hfslots) (hsidle.trans hfidle)
              (by simp [hslive, hflive]) (by simpa [hsslots] using hneeds)
          · rw [if_neg (by simp [hst]), Option.some.injEq] at h
            subst h
            refine .unissued i hi rfl rfl rfl rfl ?_ ?_ ?_
            · rw [hsame, setSlot_slots, hfslots, Function.update_idem,
                Function.update_self, freed_twice, freedSlot]
            · rw [setSlot_idleWorkers, hsame, hfidle]
            · rw [setSlot_liveWorkers, hsame, hflive]

-- ================================================================ effects

/-- Neither issues an id, nor performs a request, nor reads one. -/
def Silent (e : Action T × Answer T) : Prop :=
  ∀ id, ¬ Issues id e ∧ ¬ Performs id e ∧ ¬ ReadsOk id e

/-- The worker counters stand. -/
def SameCounts (s s' : System T) : Prop :=
  s'.engine.idleWorkers = s.engine.idleWorkers
    ∧ s'.engine.liveWorkers = s.engine.liveWorkers

/-- The ways a step changes the slot table, the worker list and the
worker counters. -/
inductive Effect (s : System T) :
    Action T × Answer T → System T → Prop
  | quiet {e s'} (he : Silent e)
      (hslots : s'.engine.slots = s.engine.slots)
      (hworkers : s'.workers = s.workers) (hcounts : SameCounts s s') :
      Effect s e s'
  | issued {s'} (i) (id : UInt32) (client : HttpClient T)
      (request : HttpRequest) (start : WorkerStart) (seed : UInt32)
      (started : Bool)
      (hi : (s.engine.slots i).isReusable = true) (hid : id ≠ 0)
      (hfresh : ∀ j, (s.engine.slots j).isReusable = false →
        (s.engine.slots j).id ≠ id)
      (hslots : s'.engine.slots = Function.update s.engine.slots i
        (dispatchedSlot (s.engine.slots i) i id client request))
      (hworkers : s'.workers = notifyWorkers s.workers
        ++ if started then [.started] else [])
      (hidle : s'.engine.idleWorkers = s.engine.idleWorkers)
      (hlive : s'.engine.liveWorkers
        = s.engine.liveWorkers + (if started then 1 else 0))
      (hrule : started = true
        ↔ s.engine.idleWorkers.toNat
            < count Slot.isPending s'.engine.slots
          ∧ s.engine.liveWorkers.toNat < kAsyncRequestSlotCount) :
      Effect s (.dispatch client request start seed, .dispatched .ok id) s'
  | unissued {e s'} (he : Silent e) (i)
      (hi : (s.engine.slots i).isReusable = true)
      (hslots : s'.engine.slots = Function.update s.engine.slots i
        (freedSlot (s.engine.slots i)))
      (hworkers : s'.workers = s.workers) (hcounts : SameCounts s s') :
      Effect s e s'
  | consumed {e s'} (i) (hi : (s.engine.slots i).isLive = true)
      (hrun : (s.engine.slots i).state ≠ .running)
      (he : (∃ buffer, e = (.read (s.engine.slots i).id buffer,
              .read (readSlot (s.engine.slots i) buffer))
            ∧ (readSlot (s.engine.slots i) buffer).status = .ok
            ∧ (s.engine.slots i).state = .complete)
          ∨ e = (.discard (s.engine.slots i).id, .discarded .ok))
      (hslots : s'.engine.slots = Function.update s.engine.slots i
        { s.engine.slots i with state := .consumed })
      (hworkers : s'.workers = s.workers) (hcounts : SameCounts s s') :
      Effect s e s'
  | abandoned {s'} (i) (hi : (s.engine.slots i).state = .running)
      (hslots : s'.engine.slots = Function.update s.engine.slots i
        { s.engine.slots i with state := .abandoned, cancelFlag := true })
      (hworkers : s'.workers = s.workers) (hcounts : SameCounts s s') :
      Effect s (.discard (s.engine.slots i).id, .discarded .ok) s'
  | cleared {s'} (n : UInt32)
      (hslots : s'.engine.slots
        = fun i => discardAllSlot (s.engine.slots i))
      (hworkers : s'.workers = notifyWorkers s.workers)
      (hcounts : SameCounts s s') :
      Effect s (.discardAll, .discardedAll .ok n) s'
  | claims {e s'} (he : Silent e) (w : Nat) (pc : Worker T) (i)
      (hw : s.workers[w]? = some pc)
      (hpc : pc = .started ∨ pc.isWaiting = true)
      (hi : (s.engine.slots i).state = .pending)
      (hslots : s'.engine.slots = Function.update s.engine.slots i
        { s.engine.slots i with state := .running })
      (hworkers : s'.workers = s.workers.set w (.claimed i))
      (hidle : s'.engine.idleWorkers
        = s.engine.idleWorkers - (if pc.isWaiting then 1 else 0))
      (hlive : s'.engine.liveWorkers = s.engine.liveWorkers) :
      Effect s e s'
  | idles {e s'} (he : Silent e) (w : Nat) (g : UInt64)
      (hw : s.workers[w]? = some .started)
      (hnone : ∀ i, (s.engine.slots i).isPending = false)
      (hslots : s'.engine.slots = s.engine.slots)
      (hworkers : s'.workers = s.workers.set w (.waiting g false))
      (hidle : s'.engine.idleWorkers = s.engine.idleWorkers + 1)
      (hlive : s'.engine.liveWorkers = s.engine.liveWorkers) :
      Effect s e s'
  | rewaits {e s'} (he : Silent e) (w : Nat) (g : UInt64) (n : Bool)
      (hw : s.workers[w]? = some (.waiting g n))
      (hnone : ∀ i, (s.engine.slots i).isPending = false)
      (hslots : s'.engine.slots = s.engine.slots)
      (hworkers : s'.workers = s.workers.set w (.waiting g false))
      (hcounts : SameCounts s s') :
      Effect s e s'
  | leaves {s'} (w : Nat) (timeout : Bool) (g : UInt64) (n : Bool)
      (hw : s.workers[w]? = some (.waiting g n))
      (hnone : ∀ i, (s.engine.slots i).isPending = false)
      (hslots : s'.engine.slots = s.engine.slots)
      (hworkers : s'.workers = s.workers.set w .exiting)
      (hidle : s'.engine.idleWorkers = s.engine.idleWorkers - 1)
      (hlive : s'.engine.liveWorkers = s.engine.liveWorkers - 1) :
      Effect s (.wake w timeout, .worker .exit) s'
  | calls {s'} (w : Nat) (i) (client : HttpClient T)
      (hw : s.workers[w]? = some (.claimed i))
      (hclient : (s.engine.slots i).client = some client)
      (hslots : s'.engine.slots = s.engine.slots)
      (hworkers : s'.workers = s.workers.set w (.performing
        ⟨i, (s.engine.slots i).id, client, (s.engine.slots i).request⟩
        false))
      (hcounts : SameCounts s s') :
      Effect s (.perform w, .performing
        ⟨i, (s.engine.slots i).id, client, (s.engine.slots i).request⟩) s'
  | observes {e s'} (he : Silent e) (w : Nat) (call : PerformCall T)
      (saw saw' : Bool)
      (hw : s.workers[w]? = some (.performing call saw))
      (hslots : s'.engine.slots = s.engine.slots)
      (hworkers : s'.workers = s.workers.set w (.performing call saw'))
      (hcounts : SameCounts s s') :
      Effect s e s'
  | returns {s'} (w : Nat) (call : PerformCall T) (saw : Bool)
      (answer : Status × HttpResponse)
      (hw : s.workers[w]? = some (.performing call saw))
      (hslots : s'.engine.slots = s.engine.slots)
      (hworkers : s'.workers = s.workers.set w (.performed call
        (call.client.perform answer call.request {}).1
        (call.client.perform answer call.request {}).2))
      (hcounts : SameCounts s s') :
      Effect s (.performReturn w answer, .performReturned call
        (call.client.perform answer call.request {}).1
        (call.client.perform answer call.request {}).2) s'
  | exits {e s'} (he : Silent e) (w : Nat)
      (hw : s.workers[w]? = some .exiting)
      (hslots : s'.engine.slots = s.engine.slots)
      (hworkers : s'.workers = s.workers.set w .exited)
      (hcounts : SameCounts s s') :
      Effect s e s'

/-- The relock's middle: the outcome is published and the worker is at
the top of its loop, where a fresh thread is. -/
def System.finished (s : System T) (w : Nat) (call : PerformCall T)
    (result : Status) (response : HttpResponse) : System T :=
  { s.finish call result response with
      workers := s.workers.set w .started }

theorem finished_workers (s : System T) (w : Nat) (call : PerformCall T)
    (result : Status) (response : HttpResponse) :
    (s.finished w call result response).workers
      = s.workers.set w .started := rfl

@[simp] theorem finish_workers (s : System T) (call : PerformCall T)
    (result : Status) (response : HttpResponse) :
    (s.finish call result response).workers = s.workers := rfl

-- ======================================================= the case analysis

/-- Only a Dispatch that answers Ok issues. -/
theorem not_issues {id : UInt32} {e : Action T × Answer T}
    (h : e.2 ≠ .dispatched .ok id) : ¬ Issues id e := by
  intro he
  obtain ⟨_, _, _, _, rfl⟩ := he
  exact h rfl

theorem not_performs {id : UInt32} {e : Action T × Answer T}
    (h : ∀ call, e.2 ≠ .performing call) : ¬ Performs id e := by
  intro he
  obtain ⟨_, call, rfl, -⟩ := he
  exact h call rfl

theorem not_readsOk {id : UInt32} {e : Action T × Answer T}
    (h : ∀ result, e.2 = .read result → result.status ≠ .ok) :
    ¬ ReadsOk id e := by
  intro he
  obtain ⟨_, result, rfl, hok⟩ := he
  exact h result rfl hok

/-- Workers' own answers are silent, but for the call of `Perform`. -/
theorem silent_worker {a : Action T} {next : WorkerNext} :
    Silent (a, (.worker next : Answer T)) := fun _ =>
  ⟨not_issues (by simp), not_performs (by simp), not_readsOk (by simp)⟩

/-- A refused or failed Dispatch issues nothing. -/
theorem silent_dispatched {a : Action T} {status : Status} {id : UInt32}
    (h : status ≠ .ok) :
    Silent (a, (.dispatched status id : Answer T)) := fun _ =>
  ⟨not_issues (by simp [h]), not_performs (by simp), not_readsOk (by simp)⟩

/-- A Read that returned anything but Ok is silent. -/
theorem silent_read {a : Action T} {result : ReadResult}
    (h : result.status ≠ .ok) : Silent (a, (.read result : Answer T)) :=
  fun _ =>
    ⟨not_issues (by simp), not_performs (by simp),
      not_readsOk (by simpa using h)⟩

/-- An answer of another kind is silent. -/
theorem silent_other {e : Action T × Answer T}
    (h : ∀ status id, e.2 ≠ .dispatched status id)
    (h' : ∀ call, e.2 ≠ .performing call) (h'' : ∀ r, e.2 ≠ .read r) :
    Silent e := fun id =>
  ⟨not_issues (h .ok id), not_performs h',
    not_readsOk fun r hr => absurd hr (h'' r)⟩

theorem findLiveSlotLocked_some {e : AsyncEngine T} {id : UInt32} {i}
    (h : e.findLiveSlotLocked id = some i) :
    (e.slots i).id = id ∧ (e.slots i).isLive = true := by
  unfold findLiveSlotLocked at h
  split at h
  case isTrue => cases h
  case isFalse =>
    have := findFirst_some h
    simpa only [Bool.and_eq_true, beq_iff_eq] using this

/-- The top of the loop, for a worker where a fresh thread is. -/
theorem workerTop_effect {s : System T} {w : Nat} {a : Action T}
    (hw : s.workers[w]? = some .started) :
    Effect s (a, (s.letGo w s.engine.workerTop).1)
      (s.letGo w s.engine.workerTop).2 := by
  unfold System.letGo workerTop
  cases hfind : s.engine.findPendingSlotLocked with
  | some i =>
      have hi : (s.engine.slots i).state = .pending := by
        simpa [Slot.isPending] using findFirst_some hfind
      exact .claims silent_worker w .started i hw (Or.inl rfl) hi rfl rfl
        (by simp [claim, Worker.isWaiting]) rfl
  | none =>
      exact .idles silent_worker w s.engine.wakeGeneration hw
        (findFirst_none.mp hfind) rfl rfl rfl rfl

/-- The end of an idle wait. -/
theorem workerWake_effect {s : System T} {w : Nat} {timeout : Bool}
    {g : UInt64} {n : Bool} (hw : s.workers[w]? = some (.waiting g n)) :
    Effect s (.wake w timeout, (s.letGo w (s.engine.workerWake g timeout)).1)
      (s.letGo w (s.engine.workerWake g timeout)).2 := by
  unfold System.letGo workerWake
  cases hfind : s.engine.findPendingSlotLocked with
  | some i =>
      have hi : (s.engine.slots i).state = .pending := by
        simpa [Slot.isPending] using findFirst_some hfind
      exact .claims silent_worker w (.waiting g n) i hw (Or.inr rfl) hi rfl
        rfl rfl rfl
  | none =>
      have hnone := findFirst_none.mp hfind
      dsimp only
      split
      · exact .leaves w timeout g n hw hnone rfl rfl rfl rfl
      · exact .rewaits silent_worker w g n hw hnone rfl rfl ⟨rfl, rfl⟩

/-- A Dispatch, whichever way it came out. -/
theorem dispatch_effect {s : System T} {client : HttpClient T}
    {request : HttpRequest} {start : WorkerStart} {seed : UInt32}
    {r : DispatchResult T}
    (hr : s.engine.dispatch client request start seed = some r) :
    Effect s (.dispatch client request start seed,
        .dispatched r.status r.requestId)
      { s with
          engine := r.engine
          workers := (if r.notified then notifyWorkers s.workers
            else s.workers) ++ (if r.threadStarted then [.started] else []) } := by
  cases dispatch_cases hr with
  | refused hfull =>
      exact .quiet (silent_dispatched (by simp)) rfl (by simp) ⟨rfl, rfl⟩
  | issued i id hi hid hfresh hstatus hrid hnot hslots hidle hlive hrule =>
      rw [hstatus, hrid, hnot]
      exact .issued i id client request start seed r.threadStarted
        hi hid hfresh hslots (by simp) hidle hlive hrule
  | unissued i hi hstatus hrid hstarted hnot hslots hidle hlive =>
      rw [hstatus, hstarted, hnot]
      exact .unissued (silent_dispatched (by simp)) i hi hslots (by simp)
        ⟨hidle, hlive⟩

/-- A Read consumes the slot when it returns Ok, and only then. -/
theorem read_effect {s : System T} {id : UInt32} {buffer : CharBuffer} :
    Effect s (.read id buffer, .read (s.engine.read id buffer).1)
      { s with engine := (s.engine.read id buffer).2 } := by
  unfold AsyncEngine.read
  split
  next =>
    exact .quiet (silent_read (by simp)) rfl rfl ⟨rfl, rfl⟩
  next i hfind =>
    obtain ⟨hid, hlive⟩ := findLiveSlotLocked_some hfind
    subst hid
    split
    next => exact .quiet (silent_read (by simp)) rfl rfl ⟨rfl, rfl⟩
    next hcomplete =>
      have hcomplete : (s.engine.slots i).state = .complete := by
        simpa using hcomplete
      dsimp only
      split
      next hok =>
        exact .consumed i hlive (by simp [hcomplete])
          (.inl ⟨buffer, rfl, hok, hcomplete⟩) rfl rfl ⟨rfl, rfl⟩
      next hnok => exact .quiet (silent_read hnok) rfl rfl ⟨rfl, rfl⟩

/-- A Discard abandons a running request and frees any other live one. -/
theorem discard_effect {s : System T} {id : UInt32} :
    Effect s (.discard id, .discarded (s.engine.discard id).1)
      { s with
          engine := (s.engine.discard id).2
          awaiters :=
            if (s.engine.discard id).1 = .ok then notifyAwaiters s.awaiters
            else s.awaiters } := by
  unfold AsyncEngine.discard
  split
  next =>
    exact .quiet (silent_other (by simp) (by simp) (by simp)) rfl rfl
      ⟨rfl, rfl⟩
  next i hfind =>
    obtain ⟨hid, hlive⟩ := findLiveSlotLocked_some hfind
    subst hid
    by_cases hrun : (s.engine.slots i).state = .running
    · exact .abandoned i hrun (by simp [discardedSlot, hrun]) rfl ⟨rfl, rfl⟩
    · exact .consumed i hlive hrun (.inr rfl)
        (by simp [discardedSlot, hrun]) rfl ⟨rfl, rfl⟩

/-- A step that is enabled has the one result. -/
theorem step_result {s s' : System T} {b b' : Answer T}
    (h : some (b', s') = some (b, s)) : b' = b ∧ s' = s := by
  injection h with h
  exact Prod.mk.inj h

/-- Every step is one effect, or a relock: a publication followed by one
effect from the state in between. -/
theorem step_effect {s s' : System T} {a : Action T} {b : Answer T}
    (h : s.step a = some (b, s')) :
    Effect s (a, b) s'
      ∨ ∃ w call result response,
          a = .relock w
          ∧ s.workers[w]? = some (.performed call result response)
          ∧ Effect (s.finished w call result response) (a, b) s' := by
  cases a with
  | dispatch client request start seed =>
      simp only [System.step] at h
      split at h
      next => cases h
      next r hr =>
        obtain ⟨rfl, rfl⟩ := step_result h
        exact .inl (dispatch_effect hr)
  | poll id =>
      obtain ⟨rfl, rfl⟩ := step_result h
      exact .inl (.quiet (silent_other (by simp) (by simp) (by simp))
        rfl rfl ⟨rfl, rfl⟩)
  | await id ms =>
      simp only [System.step] at h
      split at h
      all_goals
        obtain ⟨rfl, rfl⟩ := step_result h
        exact .inl (.quiet (silent_other (by simp) (by simp) (by simp))
          rfl rfl ⟨rfl, rfl⟩)
  | awaitWake k timeout =>
      simp only [System.step] at h
      split at h
      next =>
        split at h
        all_goals
          obtain ⟨rfl, rfl⟩ := step_result h
          exact .inl (.quiet (silent_other (by simp) (by simp) (by simp))
            rfl rfl ⟨rfl, rfl⟩)
      next => cases h
  | read id buffer =>
      obtain ⟨rfl, rfl⟩ := step_result h
      exact .inl read_effect
  | discard id =>
      obtain ⟨rfl, rfl⟩ := step_result h
      exact .inl discard_effect
  | discardAll =>
      obtain ⟨rfl, rfl⟩ := step_result h
      exact .inl (.cleared _ rfl rfl ⟨rfl, rfl⟩)
  | firstLock w =>
      simp only [System.step] at h
      split at h
      next hw =>
        obtain ⟨rfl, rfl⟩ := step_result h
        exact .inl (workerTop_effect hw)
      next => cases h
  | wake w timeout =>
      simp only [System.step] at h
      split at h
      next g n hw =>
        obtain ⟨rfl, rfl⟩ := step_result h
        exact .inl (workerWake_effect hw)
      next => cases h
  | perform w =>
      simp only [System.step] at h
      split at h
      next i hw =>
        split at h
        next => cases h
        next client hclient =>
          obtain ⟨rfl, rfl⟩ := step_result h
          exact .inl (.calls w i client hw hclient rfl rfl ⟨rfl, rfl⟩)
      next => cases h
  | observeCancel w =>
      simp only [System.step] at h
      split at h
      next call saw hw =>
        obtain ⟨rfl, rfl⟩ := step_result h
        exact .inl (.observes (silent_other (by simp) (by simp) (by simp))
          w call saw _ hw rfl rfl ⟨rfl, rfl⟩)
      next => cases h
  | performReturn w answer =>
      simp only [System.step] at h
      split at h
      next call saw hw =>
        obtain ⟨rfl, rfl⟩ := step_result h
        exact .inl (.returns w call saw answer hw rfl rfl ⟨rfl, rfl⟩)
      next => cases h
  | relock w =>
      simp only [System.step] at h
      split at h
      next call result response hw =>
        obtain ⟨rfl, rfl⟩ := step_result h
        have hlt := (List.getElem?_eq_some_iff.mp hw).1
        refine .inr ⟨w, call, result, response, rfl, hw, ?_⟩
        have heff := workerTop_effect (a := .relock w)
          (s := s.finished w call result response) (w := w)
          (by simp [System.finished, hlt])
        simpa [System.letGo, System.finished, List.set_set] using heff
      next => cases h
  | exitThread w =>
      simp only [System.step] at h
      split at h
      next hw =>
        obtain ⟨rfl, rfl⟩ := step_result h
        exact .inl (.exits (silent_other (by simp) (by simp) (by simp))
          w hw rfl rfl ⟨rfl, rfl⟩)
      next => cases h

end RestifyCapl.Http
