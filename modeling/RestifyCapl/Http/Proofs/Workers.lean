/-
The worker pool by numbers. `Counted` ties the engine's two counters to
the threads there really are, and bounds the Pending slots by the
workers that will look at them without having to finish another request
first: the ones in the idle wait and the ones that have not taken their
first lock.

The bound survives a Dispatch for one of three reasons. Either the idle
workers already cover the new request, or a worker was started for it,
or the pool is at its cap of eight; at the cap the busy workers hold
busy slots, one each, so the eight slots leave no more Pending slots
than the eight workers leave workers that are not busy.
-/
import RestifyCapl.Http.Proofs.Ownership

namespace RestifyCapl.Http

open Lib
open AsyncEngine

variable {T : Type}

-- ============================================================= the counts

/-- Workers in the idle wait. -/
def System.waitingCount (s : System T) : Nat :=
  s.workers.countP Worker.isWaiting

/-- Started workers that have not yet taken their first lock. -/
def System.startedCount (s : System T) : Nat :=
  s.workers.countP Worker.isStarted

/-- Workers between a claim and the relock after `Perform`. -/
def System.busyCount (s : System T) : Nat :=
  s.workers.countP Worker.isBusy

def System.pendingCount (s : System T) : Nat :=
  count Slot.isPending s.engine.slots

structure Counted (s : System T) : Prop where
  idle : s.engine.idleWorkers.toNat = s.waitingCount
  live : s.engine.liveWorkers.toNat
    = s.waitingCount + s.startedCount + s.busyCount
  cap : s.engine.liveWorkers.toNat ≤ kAsyncRequestSlotCount
  busy : s.busyCount = count Slot.isBusy s.engine.slots
  pending : s.pendingCount ≤ s.waitingCount + s.startedCount

-- ================================================== how the counts move

theorem countP_notify {p : Worker T → Bool}
    (hp : ∀ pc, p (Worker.notify pc) = p pc) (ws : List (Worker T)) :
    (notifyWorkers ws).countP p = ws.countP p := by
  unfold notifyWorkers
  rw [List.countP_map]
  congr 1
  funext pc
  exact hp pc

theorem isWaiting_notify (pc : Worker T) :
    pc.notify.isWaiting = pc.isWaiting := by
  cases pc <;> rfl

theorem isStarted_notify (pc : Worker T) :
    pc.notify.isStarted = pc.isStarted := by
  cases pc <;> rfl

theorem isBusy_notify (pc : Worker T) : pc.notify.isBusy = pc.isBusy := by
  cases pc <;> rfl

/-- A broadcast moves no count; a thread started with it is started. -/
theorem counts_notify {s s' : System T} {started : Bool}
    (h : s'.workers = notifyWorkers s.workers
      ++ if started then [.started] else []) :
    s'.waitingCount = s.waitingCount
      ∧ s'.startedCount = s.startedCount + (if started then 1 else 0)
      ∧ s'.busyCount = s.busyCount := by
  unfold System.waitingCount System.startedCount System.busyCount
  rw [h]
  simp only [List.countP_append, countP_notify isWaiting_notify,
    countP_notify isStarted_notify, countP_notify isBusy_notify]
  cases started <;> simp [Worker.isWaiting, Worker.isStarted,
    Worker.isBusy, Worker.slot?]

/-- One worker's move, as the counts see it. -/
theorem counts_set {s s' : System T} {w : Nat} {pc pc' : Worker T}
    (hw : s.workers[w]? = some pc)
    (h : s'.workers = s.workers.set w pc') :
    s'.waitingCount + (if pc.isWaiting then 1 else 0)
        = s.waitingCount + (if pc'.isWaiting then 1 else 0)
      ∧ s'.startedCount + (if pc.isStarted then 1 else 0)
        = s.startedCount + (if pc'.isStarted then 1 else 0)
      ∧ s'.busyCount + (if pc.isBusy then 1 else 0)
        = s.busyCount + (if pc'.isBusy then 1 else 0) := by
  unfold System.waitingCount System.startedCount System.busyCount
  rw [h]
  exact ⟨countP_set hw, countP_set hw, countP_set hw⟩

theorem counts_same {s s' : System T} (h : s'.workers = s.workers) :
    s'.waitingCount = s.waitingCount ∧ s'.startedCount = s.startedCount
      ∧ s'.busyCount = s.busyCount := by
  unfold System.waitingCount System.startedCount System.busyCount
  rw [h]
  exact ⟨rfl, rfl, rfl⟩

/-- A worker that changes none of the three kinds moves no count. -/
theorem counts_set_same {s s' : System T} {w : Nat} {pc pc' : Worker T}
    (hw : s.workers[w]? = some pc)
    (h : s'.workers = s.workers.set w pc')
    (hwait : pc'.isWaiting = pc.isWaiting)
    (hstart : pc'.isStarted = pc.isStarted)
    (hbusy : pc'.isBusy = pc.isBusy) :
    s'.waitingCount = s.waitingCount ∧ s'.startedCount = s.startedCount
      ∧ s'.busyCount = s.busyCount := by
  obtain ⟨h₁, h₂, h₃⟩ := counts_set hw h
  rw [hwait] at h₁
  rw [hstart] at h₂
  rw [hbusy] at h₃
  omega

/-- Nothing moved but, perhaps, Pending slots that went away. -/
theorem Counted.frame {s s' : System T} (hc : Counted s)
    (hw : s'.waitingCount = s.waitingCount
      ∧ s'.startedCount = s.startedCount ∧ s'.busyCount = s.busyCount)
    (hcounts : SameCounts s s')
    (hbusy : count Slot.isBusy s'.engine.slots
      = count Slot.isBusy s.engine.slots)
    (hpend : s'.pendingCount ≤ s.pendingCount) :
    Counted s' := by
  obtain ⟨hidle, hlive⟩ := hcounts
  obtain ⟨h₁, h₂, h₃⟩ := hw
  have hp := hc.pending
  refine ⟨?_, ?_, ?_, ?_, ?_⟩
  · rw [hidle, h₁]
    exact hc.idle
  · rw [hlive, h₁, h₂, h₃]
    exact hc.live
  · rw [hlive]
    exact hc.cap
  · rw [h₃, hbusy]
    exact hc.busy
  · omega

/-- No slot is Pending: the bound asks nothing. -/
theorem pendingCount_zero {s : System T}
    (h : ∀ i, (s.engine.slots i).isPending = false) : s.pendingCount = 0 :=
  count_eq_zero.mpr h

/-- Pending and busy slots are different slots. -/
theorem pending_add_busy_le (s : System T) :
    s.pendingCount + count Slot.isBusy s.engine.slots
      ≤ kAsyncRequestSlotCount := by
  refine count_add_le fun i hi => ?_
  unfold Slot.isPending at hi
  have hs : (s.engine.slots i).state = .pending := by simpa using hi
  simp [Slot.isBusy, hs]

theorem Slot.pending_of_busy {s : Slot T} (h : s.isBusy = true) :
    s.isPending = false := by
  unfold Slot.isBusy at h
  unfold Slot.isPending
  cases hs : s.state <;> simp [hs] at h ⊢

theorem finishedSlot_pending (s : Slot T) (result : Status)
    (response : HttpResponse) :
    (finishedSlot s result response).isPending = false := by
  unfold finishedSlot
  split <;> rfl

/-- Publishing an outcome moves neither worker counter. -/
theorem finished_counts (s : System T) (w : Nat) (call : PerformCall T)
    (result : Status) (response : HttpResponse) :
    SameCounts s (s.finished w call result response) := by
  unfold SameCounts System.finished System.finish workerFinish
  dsimp only
  split <;> exact ⟨rfl, rfl⟩

/-- A slot Dispatch may take is neither busy nor Pending. -/
theorem Slot.idle_of_reusable {s : Slot T} (h : s.isReusable = true) :
    s.isBusy = false ∧ s.isPending = false := by
  unfold Slot.isReusable at h
  unfold Slot.isBusy Slot.isPending
  cases hs : s.state <;> simp [hs] at h ⊢

/-- One more, where the counter is at most the pool's size. -/
theorem toNat_succ {n : UInt32} (h : n.toNat ≤ kAsyncRequestSlotCount) :
    (n + 1).toNat = n.toNat + 1 := by
  have h8 : kAsyncRequestSlotCount = 8 := rfl
  rw [UInt32.toNat_add]
  exact Nat.mod_eq_of_lt (by rw [UInt32.toNat_one]; omega)

theorem toNat_pred {n : UInt32} (h : 0 < n.toNat) :
    (n - 1).toNat = n.toNat - 1 := by
  rw [UInt32.toNat_sub_of_le]
  · rfl
  · rw [UInt32.le_iff_toNat_le, UInt32.toNat_one]
    omega

-- ======================================================= counts preserved

/-- Neither a slot nor a count of workers moved. -/
theorem Counted.stay {s s' : System T} (hc : Counted s)
    (hw : s'.waitingCount = s.waitingCount
      ∧ s'.startedCount = s.startedCount ∧ s'.busyCount = s.busyCount)
    (hslots : s'.engine.slots = s.engine.slots)
    (hcounts : SameCounts s s') : Counted s' := by
  refine hc.frame hw hcounts ?_ ?_
  · rw [hslots]
  · rw [System.pendingCount, hslots]
    exact Nat.le_refl _

/-- A request more, and a worker more where the rule starts one. -/
theorem Counted.issue {s s' : System T} {started : Bool} (hc : Counted s)
    (hworkers : s'.workers = notifyWorkers s.workers
      ++ if started then [.started] else [])
    (hbusy : count Slot.isBusy s'.engine.slots
      = count Slot.isBusy s.engine.slots)
    (hpend : s'.pendingCount = s.pendingCount + 1)
    (hidle : s'.engine.idleWorkers = s.engine.idleWorkers)
    (hlive : s'.engine.liveWorkers
      = s.engine.liveWorkers + (if started then 1 else 0))
    (hrule : started = true
      ↔ s.engine.idleWorkers.toNat < count Slot.isPending s'.engine.slots
        ∧ s.engine.liveWorkers.toNat < kAsyncRequestSlotCount) :
    Counted s' := by
  have hidle₀ := hc.idle
  have hlive₀ := hc.live
  have hcap₀ := hc.cap
  have hbusy₀ := hc.busy
  have hpend₀ := hc.pending
  obtain ⟨h₁, h₂, h₃⟩ := counts_notify hworkers
  have hroom := pending_add_busy_le s'
  have hrule : started = true ↔ s.waitingCount < s'.pendingCount
      ∧ s.engine.liveWorkers.toNat < kAsyncRequestSlotCount := by
    rw [hrule, hidle₀, System.pendingCount]
  have hidle' : s'.engine.idleWorkers.toNat = s'.waitingCount := by
    rw [hidle, h₁]
    exact hidle₀
  have hbusy' : s'.busyCount = count Slot.isBusy s'.engine.slots := by
    rw [h₃, hbusy]
    exact hbusy₀
  cases started with
  | true =>
      obtain ⟨hmore, hlt⟩ := hrule.mp rfl
      have hlive' : s'.engine.liveWorkers.toNat
          = s.engine.liveWorkers.toNat + 1 := by
        rw [hlive, if_pos rfl]
        exact toNat_succ hcap₀
      simp only [if_true] at h₂
      exact ⟨hidle', by omega, by omega, hbusy', by omega⟩
  | false =>
      have hno := mt hrule.mpr (by simp)
      have hlive' : s'.engine.liveWorkers.toNat
          = s.engine.liveWorkers.toNat := by
        rw [hlive]
        simp
      simp only [Bool.false_eq_true, if_false] at h₂
      refine ⟨hidle', by omega, by omega, hbusy', ?_⟩
      -- covered by an idle worker, or the pool is full
      rw [hbusy, ← hbusy₀] at hroom
      omega

/-- A worker that was not busy takes a Pending slot. -/
theorem Counted.claim {s s' : System T} {w : Nat} {pc : Worker T} {i}
    (hc : Counted s) (hw : s.workers[w]? = some pc)
    (hpc : pc = .started ∨ pc.isWaiting = true)
    (hworkers : s'.workers = s.workers.set w (.claimed i))
    (hbusy : count Slot.isBusy s'.engine.slots
      = count Slot.isBusy s.engine.slots + 1)
    (hpend : s'.pendingCount + 1 = s.pendingCount)
    (hidle : s'.engine.idleWorkers
      = s.engine.idleWorkers - (if pc.isWaiting then 1 else 0))
    (hlive : s'.engine.liveWorkers = s.engine.liveWorkers) : Counted s' := by
  have hidle₀ := hc.idle
  have hlive₀ := hc.live
  have hcap₀ := hc.cap
  have hbusy₀ := hc.busy
  have hpend₀ := hc.pending
  obtain ⟨h₁, h₂, h₃⟩ := counts_set hw hworkers
  rcases hpc with rfl | hpc
  · simp only [Worker.isWaiting, Worker.isStarted, Worker.isBusy,
      Worker.slot?, Option.isSome_none, Option.isSome_some,
      Bool.false_eq_true, if_false, if_true, UInt32.sub_zero]
      at h₁ h₂ h₃ hidle
    rw [← hlive] at hlive₀ hcap₀
    rw [← hidle] at hidle₀
    exact ⟨by omega, by omega, hcap₀, by omega, by omega⟩
  · cases pc with
    | waiting g n =>
        simp only [Worker.isWaiting, Worker.isStarted, Worker.isBusy,
          Worker.slot?, Option.isSome_none, Option.isSome_some,
          Bool.false_eq_true, if_false, if_true] at h₁ h₂ h₃ hidle
        have hidle' := toNat_pred
          (show 0 < s.engine.idleWorkers.toNat by omega)
        rw [← hidle] at hidle'
        rw [← hlive] at hlive₀ hcap₀
        exact ⟨by omega, by omega, hcap₀, by omega, by omega⟩
    | _ => cases hpc

/-- A started worker that finds nothing goes to wait. -/
theorem Counted.goIdle {s s' : System T} {w : Nat} {g : UInt64}
    (hc : Counted s) (hw : s.workers[w]? = some .started)
    (hworkers : s'.workers = s.workers.set w (.waiting g false))
    (hslots : s'.engine.slots = s.engine.slots)
    (hpend : s'.pendingCount = 0)
    (hidle : s'.engine.idleWorkers = s.engine.idleWorkers + 1)
    (hlive : s'.engine.liveWorkers = s.engine.liveWorkers) : Counted s' := by
  have hidle₀ := hc.idle
  have hlive₀ := hc.live
  have hcap₀ := hc.cap
  have hbusy₀ := hc.busy
  obtain ⟨h₁, h₂, h₃⟩ := counts_set hw hworkers
  simp only [Worker.isWaiting, Worker.isStarted, Worker.isBusy,
    Worker.slot?, Option.isSome_none, Bool.false_eq_true, if_false,
    if_true] at h₁ h₂ h₃
  have hidle' := toNat_succ (show s.engine.idleWorkers.toNat
    ≤ kAsyncRequestSlotCount by omega)
  rw [← hidle] at hidle'
  rw [← hlive] at hlive₀ hcap₀
  rw [← hslots] at hbusy₀
  exact ⟨by omega, by omega, hcap₀, by omega, by omega⟩

/-- A waiting worker that finds nothing leaves the pool. -/
theorem Counted.leave {s s' : System T} {w : Nat} {g : UInt64} {n : Bool}
    (hc : Counted s) (hw : s.workers[w]? = some (.waiting g n))
    (hworkers : s'.workers = s.workers.set w .exiting)
    (hslots : s'.engine.slots = s.engine.slots)
    (hpend : s'.pendingCount = 0)
    (hidle : s'.engine.idleWorkers = s.engine.idleWorkers - 1)
    (hlive : s'.engine.liveWorkers = s.engine.liveWorkers - 1) :
    Counted s' := by
  have hidle₀ := hc.idle
  have hlive₀ := hc.live
  have hcap₀ := hc.cap
  have hbusy₀ := hc.busy
  obtain ⟨h₁, h₂, h₃⟩ := counts_set hw hworkers
  simp only [Worker.isWaiting, Worker.isStarted, Worker.isBusy,
    Worker.slot?, Option.isSome_none, Bool.false_eq_true, if_false,
    if_true] at h₁ h₂ h₃
  have hidle' := toNat_pred (show 0 < s.engine.idleWorkers.toNat by omega)
  have hlive' := toNat_pred (show 0 < s.engine.liveWorkers.toNat by omega)
  rw [← hidle] at hidle'
  rw [← hlive] at hlive'
  rw [← hslots] at hbusy₀
  exact ⟨by omega, by omega, by omega, by omega, by omega⟩

theorem Counted.effect {s s' : System T} {e : Action T × Answer T}
    (hc : Counted s) (heff : Effect s e s') : Counted s' := by
  have hnone : (∀ i, (s.engine.slots i).isPending = false) →
      s'.engine.slots = s.engine.slots → s'.pendingCount = 0 := by
    intro h hslots
    refine pendingCount_zero fun i => ?_
    rw [hslots]
    exact h i
  cases heff with
  | quiet he hslots hworkers hcounts =>
      exact hc.stay (counts_same hworkers) hslots hcounts
  | issued i id client request start seed started hi hid hfresh hslots
      hworkers hidle hlive hrule =>
      obtain ⟨hnb, hnp⟩ := Slot.idle_of_reusable hi
      refine hc.issue hworkers ?_ ?_ hidle hlive hrule
      · rw [hslots]
        exact count_update_same (Eq.symm hnb)
      · have := count_update Slot.isPending s.engine.slots i
          (dispatchedSlot (s.engine.slots i) i id client request)
        rw [← hslots, hnp] at this
        simpa [System.pendingCount, dispatchedSlot, Slot.isPending]
          using this
  | unissued he i hi hslots hworkers hcounts =>
      obtain ⟨hnb, hnp⟩ := Slot.idle_of_reusable hi
      have hsame : ∀ p : Slot T → Bool,
          p (freedSlot (s.engine.slots i)) = p (s.engine.slots i) →
          count p s'.engine.slots = count p s.engine.slots := by
        intro p h
        rw [hslots]
        exact count_update_same h
      exact hc.frame (counts_same hworkers) hcounts (hsame _ (Eq.symm hnb))
        (Nat.le_of_eq (hsame _ (Eq.symm hnp)))
  | consumed i hi hrun he hslots hworkers hcounts =>
      have hbusy : count Slot.isBusy s'.engine.slots
          = count Slot.isBusy s.engine.slots := by
        rw [hslots]
        refine count_update_same ?_
        unfold Slot.isBusy
        unfold Slot.isLive at hi
        cases hs : (s.engine.slots i).state <;> simp [hs] at hi hrun ⊢
          <;> rfl
      have hpend := count_update Slot.isPending s.engine.slots i
        { s.engine.slots i with state := .consumed }
      rw [← hslots] at hpend
      have hnp : Slot.isPending { s.engine.slots i with state := .consumed }
          = false := rfl
      rw [hnp] at hpend
      simp only [Bool.false_eq_true, if_false] at hpend
      refine hc.frame (counts_same hworkers) hcounts hbusy ?_
      unfold System.pendingCount
      omega
  | abandoned i hi hslots hworkers hcounts =>
      have hsame : ∀ p : Slot T → Bool,
          p { s.engine.slots i with state := .abandoned, cancelFlag := true }
            = p (s.engine.slots i) →
          count p s'.engine.slots = count p s.engine.slots := by
        intro p h
        rw [hslots]
        exact count_update_same h
      exact hc.frame (counts_same hworkers) hcounts
        (hsame _ (by simp [Slot.isBusy, hi]))
        (Nat.le_of_eq (hsame _ (by simp [Slot.isPending, hi])))
  | cleared n hslots hworkers hcounts =>
      obtain ⟨h₁, h₂, h₃⟩ := counts_notify (broadcast_only hworkers)
      refine hc.frame ⟨h₁, by simpa using h₂, h₃⟩ hcounts ?_ ?_
      · rw [hslots]
        exact count_congr fun i => discardAllSlot_busy _
      · have : s'.pendingCount = 0 := by
          refine pendingCount_zero fun i => ?_
          rw [hslots]
          unfold discardAllSlot Slot.isPending
          cases hs : (s.engine.slots i).state <;> simp [hs]
        omega
  | claims he w pc i hw hpc hi hslots hworkers hidle hlive =>
      have hbusy := count_update Slot.isBusy s.engine.slots i
        { s.engine.slots i with state := .running }
      have hpend := count_update Slot.isPending s.engine.slots i
        { s.engine.slots i with state := .running }
      rw [← hslots] at hbusy hpend
      simp only [Slot.isBusy, hi, Slot.isPending] at hbusy hpend
      exact hc.claim hw hpc hworkers hbusy hpend hidle hlive
  | idles he w g hw h hslots hworkers hidle hlive =>
      exact hc.goIdle hw hworkers hslots (hnone h hslots) hidle hlive
  | leaves w timeout g n hw h hslots hworkers hidle hlive =>
      exact hc.leave hw hworkers hslots (hnone h hslots) hidle hlive
  | rewaits _ _ _ _ hw _ hslots hworkers hcounts
  | calls _ _ _ hw _ hslots hworkers hcounts
  | observes _ _ _ _ _ hw hslots hworkers hcounts
  | returns _ _ _ _ hw hslots hworkers hcounts
  | exits _ _ hw hslots hworkers hcounts =>
      exact hc.stay (counts_set_same hw hworkers rfl rfl rfl) hslots hcounts

/-- The slot a relock writes was busy and is busy no longer, and its
worker stands where a fresh one stands. -/
theorem Counted.finished {s : System T} {w : Nat} {call : PerformCall T}
    {result : Status} {response : HttpResponse} (hc : Counted s)
    (ho : Owned s)
    (hw : s.workers[w]? = some (.performed call result response)) :
    Counted (s.finished w call result response) := by
  have hidle := hc.idle
  have hlive := hc.live
  have hbusy := hc.busy
  have hpend := hc.pending
  obtain ⟨h₁, h₂, h₃⟩ := counts_set hw
    (finished_workers s w call result response)
  simp only [Worker.isWaiting, Worker.isStarted, Worker.isBusy,
    Worker.slot?, Option.isSome_none, Option.isSome_some,
    Bool.false_eq_true, if_false, if_true] at h₁ h₂ h₃
  have hslot : (s.engine.slots call.slot).isBusy = true :=
    ho.busy w _ (slotOf_of_get hw)
  have hslots := finished_slots s w call result response
  have hb := count_update Slot.isBusy s.engine.slots call.slot
    (finishedSlot (s.engine.slots call.slot) result response)
  have hp : (s.finished w call result response).pendingCount
      = s.pendingCount := by
    unfold System.pendingCount
    rw [hslots]
    refine count_update_same ?_
    rw [finishedSlot_pending, Slot.pending_of_busy hslot]
  rw [← hslots, finishedSlot_busy, hslot] at hb
  simp only [Bool.false_eq_true, if_false, if_true] at hb
  have hcounts : SameCounts s (s.finished w call result response) :=
    finished_counts s w call result response
  refine ⟨?_, ?_, ?_, by omega, by omega⟩
  · rw [hcounts.1]
    omega
  · rw [hcounts.2]
    omega
  · rw [hcounts.2]
    exact hc.cap

end RestifyCapl.Http
