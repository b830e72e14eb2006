/-
A Dispatch that fails leaves no trace. It may have wiped a slot and used
up an id, and nothing else (`FailedAt`); the slot held no request before
and holds none after. Two engines that differ in such slots and in the id
counter (`Alike`) answer every call the same, and are alike again after
it, so no run without a Dispatch tells them apart (`alike_step`).
-/
import RestifyCapl.Http.Proofs.Cancellation

namespace RestifyCapl.Http

open Lib
open AsyncEngine

variable {T : Type} {h : List (Action T × Answer T)}

-- ================================================== what a failure changes

/-- A slot that Dispatch may take, with its cancel flag down. -/
def Slot.Vacant (a : Slot T) : Prop :=
  a.isReusable = true ∧ a.cancelFlag = false

theorem freedSlot_vacant (a : Slot T) : (freedSlot a).Vacant := ⟨rfl, rfl⟩

/-- What a failed Dispatch leaves: the engine as it was, or one reusable
slot wiped and the id counter moved. -/
def FailedAt (e f : AsyncEngine T) : Prop :=
  f = e ∨ ∃ i nextId, (e.slots i).isReusable = true
    ∧ f = { e with
        slots := Function.update e.slots i (freedSlot (e.slots i))
        idSeeded := true
        nextId := nextId }

/-- Every way a Dispatch can fail. A reference acquired for a thread that
did not start is given back. -/
theorem dispatch_failed {e : AsyncEngine T} {client : HttpClient T}
    {request : HttpRequest} {start : WorkerStart} {seed : UInt32}
    {r : DispatchResult T}
    (h : e.dispatch client request start seed = some r)
    (hstatus : r.status ≠ .ok) :
    r.requestId = 0 ∧ r.threadStarted = false ∧ r.notified = false
      ∧ FailedAt e r.engine := by
  simp only [dispatch] at h
  split at h
  next =>
    cases h
    exact ⟨rfl, rfl, rfl, Or.inl rfl⟩
  next i hfind =>
    have hi : (e.slots i).isReusable = true := findFirst_some hfind
    split at h
    next => cases h
    next id minted hmint =>
      have hminted : ∃ nextId, minted = { e with
          slots := Function.update e.slots i
            (freeSlotContentsLocked (e.slots i))
          idSeeded := true
          nextId := nextId } := by
        simp only [mintIdLocked] at hmint
        split at hmint
        next => cases hmint
        next next _ =>
          cases hmint
          exact ⟨next, rfl⟩
      obtain ⟨nextId, rfl⟩ := hminted
      generalize hfilled : AsyncEngine.setSlot _ i (dispatchedSlot _ i id
        client request) = filled at h
      split_ifs at h with hneeds hstart hstart <;> injection h with h <;>
        subst h
      · exact absurd rfl hstatus
      · refine ⟨rfl, rfl, rfl, Or.inr ⟨i, nextId, hi, ?_⟩⟩
        rcases startWorkerLocked_cases filled start with ⟨hok, -⟩ | ⟨-, hsame⟩
        · exact absurd hok hstart
        · dsimp only
          rw [hsame, ← hfilled]
          unfold AsyncEngine.setSlot
          simp only [Function.update_self, Function.update_idem]
          rfl
      · exact absurd rfl hstatus
      · exact absurd rfl hstart

-- ========================================================= alike engines

/-- Nothing differs but the slots no request is in, and the id counter. -/
structure Alike (e f : AsyncEngine T) : Prop where
  slots : ∀ i, f.slots i = e.slots i
    ∨ ((e.slots i).Vacant ∧ (f.slots i).Vacant)
  liveWorkers : f.liveWorkers = e.liveWorkers
  idleWorkers : f.idleWorkers = e.idleWorkers
  wakeGeneration : f.wakeGeneration = e.wakeGeneration
  moduleReferences : f.moduleReferences = e.moduleReferences

/-- A failed Dispatch leaves an engine alike. -/
theorem FailedAt.alike {e f : AsyncEngine T} (h : FailedAt e f)
    (hflags : ∀ i, (e.slots i).FlagRight) : Alike e f := by
  rcases h with rfl | ⟨i, nextId, hi, rfl⟩
  · exact ⟨fun _ => Or.inl rfl, rfl, rfl, rfl, rfl⟩
  · refine ⟨fun j => ?_, rfl, rfl, rfl, rfl⟩
    dsimp only
    by_cases hji : j = i
    · subst hji
      rw [Function.update_self]
      refine Or.inr ⟨⟨hi, ?_⟩, freedSlot_vacant _⟩
      rw [← Bool.not_eq_true]
      intro hflag
      have habandoned := (hflags j).mp hflag
      simp [Slot.isReusable, habandoned] at hi
    · rw [Function.update_of_ne hji]
      exact Or.inl rfl

namespace Alike

variable {e f : AsyncEngine T} {i : Fin kAsyncRequestSlotCount}

theorem symm (h : Alike e f) : Alike f e where
  slots i := (h.slots i).imp Eq.symm And.symm
  liveWorkers := h.liveWorkers.symm
  idleWorkers := h.idleWorkers.symm
  wakeGeneration := h.wakeGeneration.symm
  moduleReferences := h.moduleReferences.symm

/-- A slot with a request in it is the same. -/
theorem same (h : Alike e f) (hi : (e.slots i).isReusable = false) :
    f.slots i = e.slots i := by
  rcases h.slots i with heq | ⟨⟨hvacant, -⟩, -⟩
  · exact heq
  · rw [hi] at hvacant
    cases hvacant

/-- What does not tell vacant slots apart tells no slots apart. -/
theorem test {β : Type} (h : Alike e f) {p : Slot T → β} {v : β}
    (hp : ∀ a : Slot T, a.Vacant → p a = v) (i) :
    p (f.slots i) = p (e.slots i) := by
  rcases h.slots i with heq | ⟨hvacant, hvacant'⟩
  · rw [heq]
  · rw [hp _ hvacant, hp _ hvacant']

theorem reusable (h : Alike e f) (i) :
    (f.slots i).isReusable = (e.slots i).isReusable :=
  h.test (p := Slot.isReusable) (fun _ ha => ha.1) i

theorem pending (h : Alike e f) (i) :
    (f.slots i).isPending = (e.slots i).isPending :=
  h.test (p := Slot.isPending) (fun a ha => by
    cases hpending : a.isPending with
    | false => rfl
    | true =>
        have hnot := Slot.reusable_of_pending hpending
        rw [ha.1] at hnot
        cases hnot) i

theorem live (h : Alike e f) (id : UInt32) (i) :
    ((f.slots i).id == id && (f.slots i).isLive)
      = ((e.slots i).id == id && (e.slots i).isLive) :=
  h.test (p := fun a => a.id == id && a.isLive) (fun a ha => by
    cases hlive : a.isLive with
    | false => exact Bool.and_false _
    | true =>
        have hnot := Slot.reusable_of_live hlive
        rw [ha.1] at hnot
        cases hnot) i

theorem findLive (h : Alike e f) (id : UInt32) :
    f.findLiveSlotLocked id = e.findLiveSlotLocked id := by
  unfold findLiveSlotLocked
  rw [findFirst_congr (q := fun s : Slot T => s.id == id && s.isLive)
    (h.live id)]

theorem findPending (h : Alike e f) :
    f.findPendingSlotLocked = e.findPendingSlotLocked :=
  findFirst_congr h.pending

/-- A live id's slot is the same. -/
theorem found (h : Alike e f) {id : UInt32}
    (hi : e.findLiveSlotLocked id = some i) : f.slots i = e.slots i :=
  h.same (Slot.reusable_of_live (findLiveSlotLocked_some hi).2)

theorem flagAt (h : Alike e f) : f.flagAt = e.flagAt := by
  funext address
  unfold AsyncEngine.flagAt
  split
  · exact h.test (p := Slot.cancelFlag) (fun _ ha => ha.2) _
  · rfl

/-- Alike engines stay alike where both write the same slot. -/
theorem setSlot (h : Alike e f) (i) (a : Slot T) :
    Alike (e.setSlot i a) (f.setSlot i a) where
  slots j := by
    rw [setSlot_slots, setSlot_slots]
    by_cases hji : j = i
    · subst hji
      rw [Function.update_self, Function.update_self]
      exact Or.inl rfl
    · rw [Function.update_of_ne hji, Function.update_of_ne hji]
      exact h.slots j
  liveWorkers := h.liveWorkers
  idleWorkers := h.idleWorkers
  wakeGeneration := h.wakeGeneration
  moduleReferences := h.moduleReferences

-- =============================================================== the calls

theorem poll (h : Alike e f) (id : UInt32) : f.poll id = e.poll id := by
  unfold AsyncEngine.poll
  rw [h.findLive]
  cases hfind : e.findLiveSlotLocked id with
  | none => rfl
  | some i =>
      dsimp only
      rw [h.found hfind]

theorem await (h : Alike e f) (id waitTimeoutMs : UInt32) :
    f.await id waitTimeoutMs = e.await id waitTimeoutMs := by
  unfold AsyncEngine.await
  rw [h.findLive]
  cases hfind : e.findLiveSlotLocked id with
  | none => rfl
  | some i =>
      dsimp only
      rw [h.found hfind]

theorem awaitCheck (h : Alike e f) (id : UInt32) (timeout : Bool) :
    f.awaitCheck id timeout = e.awaitCheck id timeout := by
  unfold AsyncEngine.awaitCheck
  rw [h.findLive]
  cases hfind : e.findLiveSlotLocked id with
  | none => rfl
  | some i =>
      dsimp only
      rw [h.found hfind]

theorem read (h : Alike e f) (id : UInt32) (buffer : CharBuffer) :
    (f.read id buffer).1 = (e.read id buffer).1
      ∧ Alike (e.read id buffer).2 (f.read id buffer).2 := by
  unfold AsyncEngine.read
  rw [h.findLive]
  cases hfind : e.findLiveSlotLocked id with
  | none => exact ⟨rfl, h⟩
  | some i =>
      dsimp only
      rw [h.found hfind]
      split
      · exact ⟨rfl, h⟩
      · split
        · exact ⟨rfl, h.setSlot i _⟩
        · exact ⟨rfl, h⟩

theorem discard (h : Alike e f) (id : UInt32) :
    (f.discard id).1 = (e.discard id).1
      ∧ Alike (e.discard id).2 (f.discard id).2 := by
  unfold AsyncEngine.discard
  rw [h.findLive]
  cases hfind : e.findLiveSlotLocked id with
  | none => exact ⟨rfl, h⟩
  | some i =>
      dsimp only
      rw [h.found hfind]
      exact ⟨rfl, h.setSlot i _⟩

theorem discardAllSlot_vacant {a : Slot T} (ha : a.Vacant) :
    (discardAllSlot a).Vacant := by
  obtain ⟨hreusable, hflag⟩ := ha
  unfold Slot.isReusable at hreusable
  unfold discardAllSlot
  cases hstate : a.state <;> simp [hstate] at hreusable ⊢
  · exact ⟨by simp [Slot.isReusable, hstate], hflag⟩
  · exact ⟨rfl, rfl⟩

theorem discardAll (h : Alike e f) :
    f.discardAll.1 = e.discardAll.1 ∧ Alike e.discardAll.2 f.discardAll.2 := by
  have hrunning : ∀ i, ((f.slots i).state == SlotState.running)
      = ((e.slots i).state == SlotState.running) :=
    h.test (p := fun a => a.state == .running) (v := false) (fun a ha => by
      have hreusable := ha.1
      unfold Slot.isReusable at hreusable
      cases hstate : a.state <;> simp [hstate] at hreusable ⊢)
  constructor
  · show UInt32.ofNat (count _ f.slots) = UInt32.ofNat (count _ e.slots)
    rw [count_congr (q := fun s : Slot T => s.state == .running) hrunning]
  · refine ⟨fun i => ?_, h.liveWorkers, h.idleWorkers,
      congrArg (· + 1) h.wakeGeneration, h.moduleReferences⟩
    show discardAllSlot (f.slots i) = discardAllSlot (e.slots i) ∨ _
    rcases h.slots i with heq | ⟨hvacant, hvacant'⟩
    · exact Or.inl (congrArg discardAllSlot heq)
    · exact Or.inr ⟨discardAllSlot_vacant hvacant,
        discardAllSlot_vacant hvacant'⟩

-- ============================================================= the workers

theorem idle (h : Alike e f) (n : UInt32) :
    Alike { e with idleWorkers := n } { f with idleWorkers := n } :=
  ⟨h.slots, h.liveWorkers, rfl, h.wakeGeneration, h.moduleReferences⟩

theorem claim (h : Alike e f) (hi : (e.slots i).isPending = true) :
    Alike (e.claim i) (f.claim i) := by
  unfold AsyncEngine.claim
  rw [h.same (Slot.reusable_of_pending hi)]
  exact h.setSlot i _

theorem workerTop (h : Alike e f) :
    f.workerTop.1 = e.workerTop.1 ∧ Alike e.workerTop.2 f.workerTop.2 := by
  unfold AsyncEngine.workerTop
  rw [h.findPending]
  cases hfind : e.findPendingSlotLocked with
  | none =>
      dsimp only
      rw [h.wakeGeneration, h.idleWorkers]
      exact ⟨rfl, h.slots, h.liveWorkers, rfl, rfl, h.moduleReferences⟩
  | some i => exact ⟨rfl, h.claim (findFirst_some hfind)⟩

theorem workerWake (h : Alike e f) (observedGeneration : UInt64)
    (timeout : Bool) :
    (f.workerWake observedGeneration timeout).1
        = (e.workerWake observedGeneration timeout).1
      ∧ Alike (e.workerWake observedGeneration timeout).2
        (f.workerWake observedGeneration timeout).2 := by
  unfold AsyncEngine.workerWake
  rw [h.findPending]
  cases hfind : e.findPendingSlotLocked with
  | none =>
      dsimp only
      rw [h.wakeGeneration]
      split
      · rw [h.idleWorkers, h.liveWorkers]
        exact ⟨rfl, h.slots, rfl, rfl, rfl, h.moduleReferences⟩
      · exact ⟨rfl, h⟩
  | some i =>
      dsimp only
      rw [h.idleWorkers]
      exact ⟨rfl, (h.idle _).claim (findFirst_some hfind)⟩

theorem workerFinish (h : Alike e f) (hi : (e.slots i).isReusable = false)
    (result : Status) (response : HttpResponse) :
    Alike (e.workerFinish i result response)
      (f.workerFinish i result response) := by
  unfold AsyncEngine.workerFinish
  rw [h.same hi]
  split
  · exact h.setSlot i _
  · exact h.setSlot i _

end Alike

-- ================================================================ one step

def Action.isDispatch : Action T → Bool
  | .dispatch _ _ _ _ => true
  | _ => false

/-- The same system around another engine. -/
def System.around (s : System T) (f : AsyncEngine T) : System T :=
  { s with engine := f }

/-- Workers that leave the mutex the same way, over alike engines. -/
theorem letGo_around {s : System T} {f : AsyncEngine T} {w : Nat}
    {r r' : WorkerNext × AsyncEngine T} (hnext : r'.1 = r.1) :
    (s.around f).letGo w r'
      = ((s.letGo w r).1, (s.letGo w r).2.around r'.2) := by
  unfold System.letGo System.around
  rw [hnext]

/-- A step other than a Dispatch is matched over an alike engine. -/
theorem alike_step {s s' : System T} {f : AsyncEngine T} {a : Action T}
    {b : Answer T} (ho : Owned s) (hf : Alike s.engine f)
    (ha : a.isDispatch = false) (hst : s.step a = some (b, s')) :
    ∃ f', (s.around f).step a = some (b, s'.around f')
      ∧ Alike s'.engine f' := by
  unfold System.step at hst ⊢
  cases a with
  | dispatch client request start seed => cases ha
  | poll id =>
      cases hst
      refine ⟨f, ?_, hf⟩
      show some (Answer.polled (f.poll id).1 (f.poll id).2, _) = _
      rw [hf.poll]
  | await id ms =>
      refine ⟨f, ?_⟩
      dsimp only [System.around] at hst ⊢
      rw [hf.await]
      split at hst <;> cases hst <;> exact ⟨rfl, hf⟩
  | awaitWake k timeout =>
      refine ⟨f, ?_⟩
      dsimp only [System.around] at hst ⊢
      split at hst
      · rw [hf.awaitCheck]
        split at hst <;> cases hst <;> exact ⟨rfl, hf⟩
      · cases hst
  | read id buffer =>
      cases hst
      obtain ⟨hanswer, halike⟩ := hf.read id buffer
      refine ⟨(f.read id buffer).2, ?_, halike⟩
      show some (Answer.read (f.read id buffer).1, _) = _
      rw [hanswer]
      rfl
  | discard id =>
      cases hst
      obtain ⟨hanswer, halike⟩ := hf.discard id
      refine ⟨(f.discard id).2, ?_, halike⟩
      simp only [System.around, hanswer]
  | discardAll =>
      cases hst
      obtain ⟨hanswer, halike⟩ := hf.discardAll
      refine ⟨f.discardAll.2, ?_, halike⟩
      dsimp only [System.around]
      rw [hanswer]
  | firstLock w =>
      dsimp only [System.around] at hst ⊢
      split at hst <;> cases hst
      obtain ⟨hnext, halike⟩ := hf.workerTop
      refine ⟨f.workerTop.2, ?_, halike⟩
      exact congrArg some (letGo_around hnext)
  | wake w timeout =>
      dsimp only [System.around] at hst ⊢
      split at hst <;> cases hst
      obtain ⟨hnext, halike⟩ := hf.workerWake _ timeout
      exact ⟨_, congrArg some (letGo_around hnext), halike⟩
  | perform w =>
      dsimp only [System.around] at hst ⊢
      split at hst
      next i hw =>
        have hbusy := ho.busy w i (slotOf_of_get hw)
        rw [hf.same (Slot.reusable_of_busy hbusy)]
        split at hst
        · cases hst
        · cases hst
          exact ⟨f, rfl, hf⟩
      · cases hst
  | observeCancel w =>
      dsimp only [System.around] at hst ⊢
      rw [hf.flagAt]
      split at hst <;> cases hst
      exact ⟨f, rfl, hf⟩
  | performReturn w answer =>
      dsimp only [System.around] at hst ⊢
      split at hst <;> cases hst
      exact ⟨f, rfl, hf⟩
  | relock w =>
      dsimp only [System.around] at hst ⊢
      split at hst
      next call result response hw =>
        have hbusy := ho.busy w call.slot (slotOf_of_get hw)
        have hfinish := hf.workerFinish (Slot.reusable_of_busy hbusy) result
          response
        obtain ⟨hnext, halike⟩ := hfinish.workerTop
        cases hst
        exact ⟨_, congrArg some (letGo_around
          (s := s.finish call result response) hnext), halike⟩
      · cases hst
  | exitThread w =>
      dsimp only [System.around] at hst ⊢
      split at hst <;> cases hst
      refine ⟨{ f with moduleReferences := f.moduleReferences - 1 }, rfl, ?_⟩
      exact ⟨hf.slots, hf.liveWorkers, hf.idleWorkers, hf.wakeGeneration,
        congrArg (· - 1) hf.moduleReferences⟩

-- ============================================================== the result

/-- Reachable systems around alike engines. -/
def AlikeSystems (s t : System T) : Prop :=
  (EngineInv s ∧ EngineInv t) ∧ t = s.around t.engine
    ∧ Alike s.engine t.engine

theorem AlikeSystems.symm {s t : System T} (h : AlikeSystems s t) :
    AlikeSystems t s := by
  obtain ⟨⟨hs, ht⟩, heq, halike⟩ := h
  refine ⟨⟨ht, hs⟩, ?_, halike.symm⟩
  rw [heq]
  rfl

/-- Runs without a Dispatch do not tell them apart. -/
theorem AlikeSystems.run {s s' t : System T} (h : AlikeSystems s t)
    {h' : List (Action T × Answer T)} (hrun : (asyncMachine T).Run s h' s')
    (hno : ∀ e ∈ h', e.1.isDispatch = false) :
    ∃ t', (asyncMachine T).Run t h' t' := by
  have hstep : ∀ (s t : System T) (a : Action T) b s', AlikeSystems s t →
      a.isDispatch = false → (asyncMachine T).step s a = some (b, s') →
      ∃ t', (asyncMachine T).step t a = some (b, t')
        ∧ AlikeSystems s' t' := by
    intro s t a b s' hst ha hs'
    obtain ⟨⟨hs, ht⟩, heq, halike⟩ := hst
    obtain ⟨f', hf', halike'⟩ := alike_step hs.owned halike ha hs'
    rw [← heq] at hf'
    exact ⟨s'.around f', hf', ⟨hs.step hs', ht.step hf'⟩, rfl, halike'⟩
  obtain ⟨t', hrun', -⟩ := hrun.matched
    (A := fun a => a.isDispatch = false) hstep h hno
  exact ⟨t', hrun'⟩

/-- A failed Dispatch leaves no trace. Its id is 0; every call about every
id is answered as before, and so is every run of calls and workers that
follows, up to the next Dispatch; the slots the next Dispatch may take are
the same, no request is waiting that was not, no slot in use has changed,
and nor have the counters and references. Only the id counter may have. -/
theorem failed_dispatch_leaves_no_trace {s s' : System T}
    (hr : AsyncReach T h s) {client : HttpClient T} {request : HttpRequest}
    {start : WorkerStart} {seed : UInt32} {status : Status}
    {requestId : UInt32}
    (hst : s.step (.dispatch client request start seed)
      = some (.dispatched status requestId, s'))
    (hfail : status = .noFreeRequestSlot ∨ status = .asyncStartFailed) :
    requestId = 0
      ∧ (∀ id ms buffer, s'.engine.poll id = s.engine.poll id
        ∧ s'.engine.await id ms = s.engine.await id ms
        ∧ (s'.engine.read id buffer).1 = (s.engine.read id buffer).1
        ∧ (s'.engine.discard id).1 = (s.engine.discard id).1)
      ∧ (∀ h' : List (Action T × Answer T),
        (∀ e ∈ h', e.1.isDispatch = false) →
        ((∃ u, (asyncMachine T).Run s' h' u)
          ↔ ∃ u, (asyncMachine T).Run s h' u))
      ∧ (∀ i, (s'.engine.slots i).isReusable = (s.engine.slots i).isReusable)
      ∧ (∀ i, (s'.engine.slots i).state = .pending
        ↔ (s.engine.slots i).state = .pending)
      ∧ (∀ i, (s.engine.slots i).isReusable = false →
        s'.engine.slots i = s.engine.slots i)
      ∧ s'.engine.liveWorkers = s.engine.liveWorkers
      ∧ s'.engine.idleWorkers = s.engine.idleWorkers
      ∧ s'.engine.wakeGeneration = s.engine.wakeGeneration
      ∧ s'.engine.moduleReferences = s.engine.moduleReferences
      ∧ s'.workers = s.workers ∧ s'.awaiters = s.awaiters := by
  have hi := EngineInv.reach hr
  have hi' := hi.step hst
  have hstatus : status ≠ .ok := by
    rcases hfail with rfl | rfl <;> simp
  unfold System.step at hst
  dsimp only at hst
  split at hst
  · cases hst
  · rename_i r hdispatch
    cases hst
    obtain ⟨hid, hstarted, hnotified, hfailed⟩ :=
      dispatch_failed hdispatch hstatus
    have halike := hfailed.alike (FlagsRight.reach hr)
    rw [hstarted, hnotified] at hi' ⊢
    have hsystems : AlikeSystems s { s with
        engine := r.engine
        workers := (if false = true then notifyWorkers s.workers
          else s.workers) ++ if false = true then [.started] else [] } := by
      refine ⟨⟨hi, hi'⟩, ?_, halike⟩
      simp [System.around]
    refine ⟨hid, ?_, ?_, halike.reusable, ?_, ?_, halike.liveWorkers,
      halike.idleWorkers, halike.wakeGeneration, halike.moduleReferences,
      List.append_nil _, rfl⟩
    · intro id ms buffer
      exact ⟨halike.poll id, halike.await id ms, (halike.read id buffer).1,
        (halike.discard id).1⟩
    · intro h' hno
      constructor
      · rintro ⟨u, hu⟩
        exact hsystems.symm.run hu hno
      · rintro ⟨u, hu⟩
        exact hsystems.run hu hno
    · intro i
      have hpending := halike.pending i
      unfold Slot.isPending at hpending
      rw [← beq_iff_eq, ← beq_iff_eq (a := (s.engine.slots i).state),
        ← hpending]
    · intro i hused
      exact halike.same hused

/-- A request made and discarded, and then a Dispatch for which no thread
starts: it finds the slot Consumed. -/
def refused : List (Action Unit) :=
  [.dispatch ⟨()⟩ { url := [104] } ⟨true, true⟩ 7, .discard 7,
    .dispatch ⟨()⟩ { url := [104] } ⟨true, false⟩ 7]

theorem refused_runs : ((asyncMachine Unit).exec {} refused).isSome = true := by
  decide

theorem failed_dispatch_leaves_no_trace_refused : ∃ s s' : System Unit,
    s.step (.dispatch ⟨()⟩ { url := [104] } ⟨true, false⟩ 7)
        = some (.dispatched .asyncStartFailed 0, s')
      ∧ (∀ i, (s'.engine.slots i).isReusable
        = (s.engine.slots i).isReusable)
      ∧ s'.engine.moduleReferences = s.engine.moduleReferences := by
  have hreach := Machine.Reach.of_exec (M := asyncMachine Unit) rfl refused_runs
  obtain ⟨s, s', hr, hst, -⟩ := hreach.at (k := 2)
    (a := .dispatch ⟨()⟩ { url := [104] } ⟨true, false⟩ 7)
    (b := .dispatched .asyncStartFailed 0) (by decide)
  obtain ⟨-, -, -, hreusable, -, -, -, -, -, hreferences, -⟩ :=
    failed_dispatch_leaves_no_trace hr hst (Or.inr rfl)
  exact ⟨s, s', hst, hreusable, hreferences⟩

end RestifyCapl.Http
