/-
The engine winds down. Once nobody dispatches, the worker threads have
only so many moves left, whatever else the callers do in between:
`System.stepsLeft` is a rank that no step raises and every move of a
worker lowers.

A request in the queue costs four moves more than the thread that will
take it: a thread in the idle wait has two moves to go (it leaves the
pool and then the DLL) and five once it has claimed a request.

What is left at the end. While a thread is in the DLL, some thread can
move; so a run that cannot go on has let every thread out, with the
module reference it held, and no request is on its way. After a
DiscardAll a slot is either as constructed, with nothing in it that takes
memory, or Abandoned with its worker still on it.
-/
import RestifyCapl.Http.Proofs.ModuleReferences
import RestifyCapl.Lib.Ranking

namespace RestifyCapl.Http

open Lib
open AsyncEngine

variable {T : Type} {h : List (Action T × Answer T)}

-- =============================================================== the rank

/-- The moves of a worker up to its exit where nothing is Pending. -/
def Worker.stepsLeft : Worker T → Nat
  | .claimed _ => 5
  | .performing _ _ => 4
  | .performed _ _ _ => 3
  | .started => 3
  | .waiting _ _ => 2
  | .exiting => 1
  | .exited => 0

def System.stepsLeft (s : System T) : Nat :=
  total Worker.stepsLeft s.workers + 4 * s.pendingCount

/-- A worker moved. A wakeup that goes back to waiting is no move, and
neither is a look at the cancel flag. -/
def Advances : Action T × Answer T → Bool
  | (.wake _ _, .worker (.wait _)) => false
  | (.firstLock _, _) | (.wake _ _, _) | (.perform _, _)
  | (.performReturn _ _, _) | (.relock _, _) | (.exitThread _, _) => true
  | _ => false

theorem stepsLeft_notify (pc : Worker T) :
    pc.notify.stepsLeft = pc.stepsLeft := by
  cases pc <;> rfl

theorem pendingCount_same {s s' : System T}
    (hslots : s'.engine.slots = s.engine.slots) :
    s'.pendingCount = s.pendingCount := by
  unfold System.pendingCount
  rw [hslots]

/-- A slot written to no longer waits for a worker. -/
theorem pendingCount_update {s s' : System T} {i} {a : Slot T}
    (ha : a.isPending = false)
    (hslots : s'.engine.slots = Function.update s.engine.slots i a) :
    s'.pendingCount + (if (s.engine.slots i).isPending then 1 else 0)
      = s.pendingCount := by
  have hcount := count_update Slot.isPending s.engine.slots i a
  rw [← hslots, ha] at hcount
  simpa [System.pendingCount] using hcount

/-- One worker's move with the slots as they were. -/
theorem stepsLeft_set {s s' : System T} {w : Nat} {pc pc' : Worker T}
    (hw : s.workers[w]? = some pc) (hslots : s'.engine.slots = s.engine.slots)
    (hworkers : s'.workers = s.workers.set w pc') :
    s'.stepsLeft + pc.stepsLeft = s.stepsLeft + pc'.stepsLeft := by
  have hmove := total_set (f := Worker.stepsLeft) (b := pc') hw
  unfold System.stepsLeft
  rw [hworkers, pendingCount_same hslots]
  omega

/-- A move towards the exit. -/
theorem stepsLeft_lower {s s' : System T} {w : Nat} {pc pc' : Worker T}
    (hw : s.workers[w]? = some pc) (hlt : pc'.stepsLeft < pc.stepsLeft)
    (hslots : s'.engine.slots = s.engine.slots)
    (hworkers : s'.workers = s.workers.set w pc') :
    s'.stepsLeft < s.stepsLeft := by
  have hmove := stepsLeft_set hw hslots hworkers
  omega

/-- A claim costs the worker less than the request was worth. -/
theorem stepsLeft_claim {s s' : System T} {w : Nat} {pc : Worker T} {i}
    (hw : s.workers[w]? = some pc) (hpc : 2 ≤ pc.stepsLeft)
    (hi : (s.engine.slots i).isPending = true)
    (hslots : s'.engine.slots = Function.update s.engine.slots i
      { s.engine.slots i with state := .running })
    (hworkers : s'.workers = s.workers.set w (.claimed i)) :
    s'.stepsLeft < s.stepsLeft := by
  have hmove := total_set (f := Worker.stepsLeft) (b := Worker.claimed i) hw
  have hpend := pendingCount_update rfl hslots
  rw [hi, if_pos rfl] at hpend
  have hfive : (Worker.claimed i : Worker T).stepsLeft = 5 := rfl
  unfold System.stepsLeft
  rw [hworkers]
  omega

theorem stepsLeft_same {s s' : System T} (hworkers : s'.workers = s.workers)
    (hpend : s'.pendingCount ≤ s.pendingCount) : s'.stepsLeft ≤ s.stepsLeft := by
  unfold System.stepsLeft
  rw [hworkers]
  omega

-- ====================================================== no step raises it

/-- Only an issued request adds to the work. -/
theorem Effect.stepsLeft_le {s s' : System T} {e : Action T × Answer T}
    (heff : Effect s e s') (hno : ∀ id, ¬ Issues id e) :
    s'.stepsLeft ≤ s.stepsLeft := by
  cases heff with
  | quiet he hslots hworkers hcounts =>
      exact stepsLeft_same hworkers (Nat.le_of_eq (pendingCount_same hslots))
  | issued i id client request start seed =>
      exact absurd ⟨client, request, start, seed, rfl⟩ (hno id)
  | unissued he i hi hslots hworkers hcounts =>
      apply stepsLeft_same hworkers
      have := pendingCount_update rfl hslots
      omega
  | consumed i hi hrun he hslots hworkers hcounts =>
      apply stepsLeft_same hworkers
      have := pendingCount_update rfl hslots
      omega
  | abandoned i hi hslots hworkers hcounts =>
      apply stepsLeft_same hworkers
      have := pendingCount_update rfl hslots
      omega
  | cleared n hslots hworkers hcounts =>
      have hzero : s'.pendingCount = 0 := by
        refine pendingCount_zero fun i => ?_
        rw [hslots]
        unfold discardAllSlot Slot.isPending
        cases hs : (s.engine.slots i).state <;> simp [hs]
      unfold System.stepsLeft
      rw [hworkers, notifyWorkers, total_map stepsLeft_notify]
      omega
  | claims he w pc i hw hpc hi hslots hworkers =>
      have hge : 2 ≤ pc.stepsLeft := by
        rcases hpc with rfl | hpc
        · exact Nat.le_succ 2
        · cases pc <;> cases hpc
          exact Nat.le_refl 2
      exact Nat.le_of_lt
        (stepsLeft_claim hw hge (by simp [Slot.isPending, hi]) hslots hworkers)
  | idles _ _ _ hw _ hslots hworkers | rewaits _ _ _ _ hw _ hslots hworkers
  | leaves _ _ _ _ hw _ hslots hworkers | calls _ _ _ hw _ hslots hworkers
  | observes _ _ _ _ _ hw hslots hworkers | returns _ _ _ _ hw hslots hworkers
  | exits _ _ hw hslots hworkers =>
      have hmove := stepsLeft_set hw hslots hworkers
      simp only [Worker.stepsLeft] at hmove
      omega

/-- A worker that has its outcome has the moves of a fresh one. -/
theorem finished_stepsLeft {s : System T} {w : Nat} {call : PerformCall T}
    {result : Status} {response : HttpResponse}
    (hw : s.workers[w]? = some (.performed call result response)) :
    (s.finished w call result response).stepsLeft ≤ s.stepsLeft := by
  have hmove := total_set (f := Worker.stepsLeft) (b := Worker.started) hw
  have hpend := pendingCount_update (finishedSlot_pending _ _ _)
    (finished_slots s w call result response)
  simp only [Worker.stepsLeft] at hmove
  unfold System.stepsLeft
  rw [finished_workers]
  omega

theorem stepsLeft_le {s s' : System T} {a : Action T} {b : Answer T}
    (hst : s.step a = some (b, s')) (hno : a.isDispatch = false) :
    s'.stepsLeft ≤ s.stepsLeft := by
  have hno : ∀ id, ¬ Issues id (a, b) := by
    rintro id ⟨client, request, start, seed, heq⟩
    obtain ⟨rfl, -⟩ := Prod.mk.inj heq
    cases hno
  rcases step_effect hst with heff | ⟨w, call, result, response, -, hw, heff⟩
  · exact heff.stepsLeft_le hno
  · exact Nat.le_trans (heff.stepsLeft_le hno) (finished_stepsLeft hw)

-- ======================================================= a move lowers it

/-- A worker at the top of its loop claims a request or goes to wait. -/
theorem workerTop_stepsLeft {s : System T} {w : Nat}
    (hw : s.workers[w]? = some .started) :
    (s.letGo w s.engine.workerTop).2.stepsLeft < s.stepsLeft := by
  unfold System.letGo workerTop
  cases hfind : s.engine.findPendingSlotLocked with
  | some i =>
      exact stepsLeft_claim hw (Nat.le_succ 2) (findFirst_some hfind) rfl rfl
  | none =>
      exact stepsLeft_lower hw (Nat.lt_succ_self _) rfl rfl

/-- A wakeup that does not go back to waiting. -/
theorem workerWake_stepsLeft {s : System T} {w : Nat} {g : UInt64} {n : Bool}
    {timeout : Bool} (hw : s.workers[w]? = some (.waiting g n))
    (hnot : ∀ g', (s.engine.workerWake g timeout).1 ≠ .wait g') :
    (s.letGo w (s.engine.workerWake g timeout)).2.stepsLeft < s.stepsLeft := by
  unfold workerWake at hnot
  unfold System.letGo workerWake
  cases hfind : s.engine.findPendingSlotLocked with
  | some i =>
      exact stepsLeft_claim hw (Nat.le_refl 2) (findFirst_some hfind) rfl rfl
  | none =>
      rw [hfind] at hnot
      dsimp only at hnot ⊢
      split
      next =>
        exact stepsLeft_lower hw (Nat.lt_succ_self _) rfl rfl
      next hstay =>
        rw [if_neg hstay] at hnot
        exact absurd rfl (hnot g)

theorem Advances.lowers {s s' : System T} {a : Action T} {b : Answer T}
    (hst : s.step a = some (b, s')) (hadv : Advances (a, b) = true) :
    s'.stepsLeft < s.stepsLeft := by
  cases a with
  | firstLock w =>
      simp only [System.step] at hst
      split at hst
      next hw =>
        obtain ⟨-, rfl⟩ := step_result hst
        exact workerTop_stepsLeft hw
      next => cases hst
  | wake w timeout =>
      simp only [System.step] at hst
      split at hst
      next g n hw =>
        obtain ⟨rfl, rfl⟩ := step_result hst
        apply workerWake_stepsLeft hw
        intro g' hwait
        have hadv : Advances (T := T) (.wake w timeout,
            .worker (s.engine.workerWake g timeout).1) = true := hadv
        rw [hwait] at hadv
        cases hadv
      next => cases hst
  | perform w =>
      simp only [System.step] at hst
      split at hst
      next i hw =>
        split at hst
        next => cases hst
        next client hclient =>
          obtain ⟨-, rfl⟩ := step_result hst
          exact stepsLeft_lower hw (Nat.lt_succ_self _) rfl rfl
      next => cases hst
  | performReturn w answer =>
      simp only [System.step] at hst
      split at hst
      next call saw hw =>
        obtain ⟨-, rfl⟩ := step_result hst
        exact stepsLeft_lower hw (Nat.lt_succ_self _) rfl rfl
      next => cases hst
  | relock w =>
      simp only [System.step] at hst
      split at hst
      next call result response hw =>
        obtain ⟨-, rfl⟩ := step_result hst
        have hlt := (List.getElem?_eq_some_iff.mp hw).1
        have htop := workerTop_stepsLeft (w := w)
          (s := s.finished w call result response)
          (by simp [System.finished, hlt])
        have hfin := finished_stepsLeft hw
        have hsame : ((s.finished w call result response).letGo w
              (s.finished w call result response).engine.workerTop).2
            = ((s.finish call result response).letGo w
              (s.finish call result response).engine.workerTop).2 := by
          simp [System.letGo, System.finished, List.set_set]
        rw [hsame] at htop
        exact Nat.lt_of_lt_of_le htop hfin
      next => cases hst
  | exitThread w =>
      simp only [System.step] at hst
      split at hst
      next hw =>
        obtain ⟨-, rfl⟩ := step_result hst
        exact stepsLeft_lower hw (Nat.lt_succ_self _) rfl rfl
      next => cases hst
  | dispatch | poll | await | awaitWake | read | discard | discardAll
  | observeCancel => cases hadv

/-- Without a Dispatch the moves of a run are paid for by the rank. -/
theorem run_stepsLeft {s s' : System T}
    (hrun : (asyncMachine T).Run s h s')
    (hno : ∀ e ∈ h, e.1.isDispatch = false) :
    s'.stepsLeft + h.countP Advances ≤ s.stepsLeft := by
  refine hrun.ranked (A := fun e => e.1.isDispatch = false) ?_ hno
  intro s a b s' ha hst
  split
  next hadv => exact Advances.lowers hst hadv
  next => exact stepsLeft_le hst ha

-- ===================================================== someone can go on

/-- The slot a worker has claimed holds a client. -/
theorem Served.claimed_client {s : System T} (hv : Served h s)
    (ho : Owned s) {w : Nat} {i} (hw : s.workers[w]? = some (.claimed i)) :
    ∃ client, (s.engine.slots i).client = some client := by
  have hbusy := ho.busy w i (slotOf_of_get hw)
  obtain ⟨d, client, -, -, -, -, hclient, -⟩ :=
    hv.carries i (Slot.reusable_of_busy hbusy)
  exact ⟨client, hclient⟩

/-- An ended wait that timed out is a move. -/
theorem wake_advances (s : System T) (w : Nat) (g : UInt64) :
    Advances (T := T) (.wake w true,
      (s.letGo w (s.engine.workerWake g true)).1) = true := by
  unfold System.letGo workerWake
  split
  · rfl
  · rfl

/-- Where moves are left, one is possible. -/
theorem exists_advance {s : System T} (hr : AsyncReach T h s)
    (hleft : s.stepsLeft ≠ 0) :
    ∃ a b s', s.step a = some (b, s') ∧ Advances (a, b) = true := by
  have hi := EngineInv.reach hr
  by_cases hpend : s.pendingCount = 0
  · have htotal : total Worker.stepsLeft s.workers ≠ 0 := by
      unfold System.stepsLeft at hleft
      omega
    obtain ⟨pc, hmem, hpc⟩ : ∃ pc ∈ s.workers, pc.stepsLeft ≠ 0 := by
      by_contra hnone
      push Not at hnone
      exact htotal (total_eq_zero.mpr hnone)
    obtain ⟨w, hw⟩ := List.mem_iff_getElem?.mp hmem
    cases pc with
    | started =>
        exact ⟨.firstLock w, _, _, by simp only [System.step, hw]; rfl, rfl⟩
    | waiting g n =>
        exact ⟨.wake w true, _, _, by simp only [System.step, hw]; rfl,
          wake_advances s w g⟩
    | claimed i =>
        obtain ⟨client, hclient⟩ :=
          (Served.reach hr).claimed_client hi.owned hw
        exact ⟨.perform w, _, _,
          by simp only [System.step, hw, hclient]; rfl, rfl⟩
    | performing call saw =>
        exact ⟨.performReturn w (.ok, {}), _, _,
          by simp only [System.step, hw]; rfl, rfl⟩
    | performed call result response =>
        exact ⟨.relock w, _, _, by simp only [System.step, hw]; rfl, rfl⟩
    | exiting =>
        exact ⟨.exitThread w, _, _, by simp only [System.step, hw]; rfl, rfl⟩
    | exited => exact absurd rfl hpc
  · obtain ⟨w, pc, a, i, s', -, -, ha, hst, -⟩ :=
      hi.exists_claim (Nat.pos_of_ne_zero hpend)
    refine ⟨a, _, s', hst, ?_⟩
    rcases ha with rfl | ⟨timeout, rfl⟩ <;> rfl

/-- Every thread has left, and no request is on its way. -/
structure System.WoundDown (s : System T) : Prop where
  exited : ∀ pc ∈ s.workers, pc = .exited
  references : s.engine.moduleReferences = 0
  liveWorkers : s.engine.liveWorkers = 0
  idleWorkers : s.engine.idleWorkers = 0
  slots : ∀ i, (s.engine.slots i).state = .free
    ∨ (s.engine.slots i).state = .consumed
    ∨ (s.engine.slots i).state = .complete

theorem woundDown {s : System T} (hr : AsyncReach T h s)
    (hzero : s.stepsLeft = 0) : s.WoundDown := by
  have hi := EngineInv.reach hr
  obtain ⟨htotal, hpend⟩ := Nat.add_eq_zero_iff.mp hzero
  have hexited : ∀ pc ∈ s.workers, pc = .exited := by
    intro pc hpc
    have hnone := total_eq_zero.mp htotal pc hpc
    cases pc <;> first | rfl | cases hnone
  have hcount : ∀ p : Worker T → Bool, p .exited = false →
      s.workers.countP p = 0 := by
    intro p hp
    rw [List.countP_eq_zero]
    intro pc hpc
    rw [hexited pc hpc, hp]
    exact Bool.false_ne_true
  have hwaiting : s.waitingCount = 0 := hcount _ rfl
  have hstarted : s.startedCount = 0 := hcount _ rfl
  have hbusy : s.busyCount = 0 := hcount _ rfl
  refine ⟨hexited, ?_, ?_, ?_, fun i => ?_⟩
  · rw [RefersOnce.reach hr]
    exact hcount _ rfl
  · apply UInt32.toNat_inj.mp
    rw [hi.counted.live, hwaiting, hstarted, hbusy]
    rfl
  · apply UInt32.toNat_inj.mp
    rw [hi.counted.idle, hwaiting]
    rfl
  · have hnb := count_eq_zero.mp (hi.counted.busy.symm.trans hbusy) i
    have hpend : s.pendingCount = 0 := by omega
    have hnp := count_eq_zero.mp hpend i
    unfold Slot.isBusy at hnb
    unfold Slot.isPending at hnp
    cases hs : (s.engine.slots i).state <;> simp [hs] at hnb hnp ⊢

-- ================================================================= memory

/-- A Free slot is as constructed. -/
def FreeClean (s : System T) : Prop :=
  ∀ i, (s.engine.slots i).state = .free → s.engine.slots i = {}

theorem freedSlot_eq (a : Slot T) : freedSlot a = {} := rfl

/-- A slot written to is Free only where it was wiped. -/
theorem FreeClean.update {s s' : System T} {i} {a : Slot T}
    (hf : FreeClean s) (ha : a.state = .free → a = {})
    (hslots : s'.engine.slots = Function.update s.engine.slots i a) :
    FreeClean s' := by
  intro j hj
  rw [hslots] at hj ⊢
  by_cases hji : j = i
  · subst hji
    rw [Function.update_self] at hj ⊢
    exact ha hj
  · rw [Function.update_of_ne hji] at hj ⊢
    exact hf j hj

theorem discardAllSlot_free {a : Slot T}
    (hfree : a.state = .free → a = {})
    (h : (discardAllSlot a).state = .free) : discardAllSlot a = {} := by
  unfold discardAllSlot at h ⊢
  cases hs : a.state <;> simp only [hs] at h ⊢
  · exact hfree hs
  · rfl
  · cases h
  · rfl
  · rfl
  · cases h

theorem FreeClean.effect {s s' : System T} {e : Action T × Answer T}
    (hf : FreeClean s) (heff : Effect s e s') : FreeClean s' := by
  cases heff with
  | quiet _ hslots | idles _ _ _ _ _ hslots | rewaits _ _ _ _ _ _ hslots
  | leaves _ _ _ _ _ _ hslots | calls _ _ _ _ _ hslots
  | observes _ _ _ _ _ _ hslots | returns _ _ _ _ _ hslots
  | exits _ _ _ hslots =>
      unfold FreeClean
      rw [hslots]
      exact hf
  | issued _ _ _ _ _ _ _ _ _ _ hslots | consumed _ _ _ _ hslots
  | abandoned _ _ hslots | claims _ _ _ _ _ _ _ hslots =>
      refine hf.update (fun hfree => ?_) hslots
      cases hfree
  | unissued _ i _ hslots => exact hf.update (fun _ => rfl) hslots
  | cleared n hslots =>
      intro i hi
      rw [hslots] at hi ⊢
      exact discardAllSlot_free (hf i) hi

theorem FreeClean.finished {s : System T} {w : Nat} {call : PerformCall T}
    {result : Status} {response : HttpResponse} (hf : FreeClean s) :
    FreeClean (s.finished w call result response) := by
  refine hf.update (fun hfree => ?_) (finished_slots ..)
  unfold finishedSlot at hfree ⊢
  split at hfree
  next habandoned => rw [if_pos habandoned, freedSlot_eq]
  next => cases hfree

theorem FreeClean.reach {s : System T} (hr : AsyncReach T h s) :
    FreeClean s := by
  refine hr.invariant (P := fun _ s => FreeClean s) ?_ ?_
  · intro s heq
    subst heq
    intro i _
    rfl
  · intro h s a b s' _ hf hst
    rcases step_effect hst with heff | ⟨w, call, result, response, -, -, heff⟩
    · exact hf.effect heff
    · exact hf.finished.effect heff

/-- Nothing is left of a request but what a worker still works on. -/
def Emptied (s : System T) : Prop :=
  ∀ i, s.engine.slots i = {} ∨ (s.engine.slots i).state = .abandoned

theorem FreeClean.emptied {s s' : System T} (hf : FreeClean s)
    (hslots : s'.engine.slots = fun i => discardAllSlot (s.engine.slots i)) :
    Emptied s' := by
  intro i
  rw [hslots]
  dsimp only
  by_cases hfree : (discardAllSlot (s.engine.slots i)).state = .free
  · exact Or.inl (discardAllSlot_free (hf i) hfree)
  · refine Or.inr ?_
    unfold discardAllSlot at hfree ⊢
    cases hs : (s.engine.slots i).state <;> simp [hs] at hfree ⊢

/-- Emptied slots offer nothing to consume, to abandon or to claim. -/
theorem Emptied.effect {s s' : System T} {e : Action T × Answer T}
    (he : Emptied s) (hf : FreeClean s) (heff : Effect s e s')
    (hno : ∀ id, ¬ Issues id e) : Emptied s' := by
  have hstate : ∀ i, (s.engine.slots i).state = .free
      ∨ (s.engine.slots i).state = .abandoned := by
    intro i
    rcases he i with hempty | habandoned
    · rw [hempty]
      exact Or.inl rfl
    · exact Or.inr habandoned
  cases heff with
  | quiet _ hslots | idles _ _ _ _ _ hslots | rewaits _ _ _ _ _ _ hslots
  | leaves _ _ _ _ _ _ hslots | calls _ _ _ _ _ hslots
  | observes _ _ _ _ _ _ hslots | returns _ _ _ _ _ hslots
  | exits _ _ _ hslots =>
      unfold Emptied
      rw [hslots]
      exact he
  | issued i id client request start seed =>
      exact absurd ⟨client, request, start, seed, rfl⟩ (hno id)
  | unissued _ i _ hslots =>
      intro j
      rw [hslots]
      by_cases hji : j = i
      · subst hji
        rw [Function.update_self]
        exact Or.inl rfl
      · rw [Function.update_of_ne hji]
        exact he j
  | consumed i hi =>
      unfold Slot.isLive at hi
      rcases hstate i with hs | hs <;> simp [hs] at hi
  | abandoned i hi => rcases hstate i with hs | hs <;> simp [hs] at hi
  | claims _ _ _ i _ _ hi => rcases hstate i with hs | hs <;> simp [hs] at hi
  | cleared n hslots => exact hf.emptied hslots

/-- A worker that comes back to an emptied table frees its slot. -/
theorem Emptied.finished {s : System T} {w : Nat} {call : PerformCall T}
    {result : Status} {response : HttpResponse} (he : Emptied s)
    (ho : Owned s)
    (hw : s.workers[w]? = some (.performed call result response)) :
    Emptied (s.finished w call result response) := by
  intro j
  rw [finished_slots]
  by_cases hj : j = call.slot
  · subst hj
    rw [Function.update_self]
    have hbusy := ho.busy w _ (slotOf_of_get hw)
    rcases he call.slot with hempty | habandoned
    · rw [hempty] at hbusy
      cases hbusy
    · rw [finishedSlot, if_pos habandoned]
      exact Or.inl rfl
  · rw [Function.update_of_ne hj]
    exact he j

/-- After a DiscardAll, and until the next Dispatch, the table is
emptied. -/
theorem emptied_run {s s' : System T} (hr : AsyncReach T h s)
    {h' : List (Action T × Answer T)}
    (hrun : (asyncMachine T).Run s h' s')
    (hno : ∀ e ∈ h', e.1.isDispatch = false)
    (hall : ∃ e ∈ h', e.1 = .discardAll) : Emptied s' := by
  induction hrun with
  | nil =>
      obtain ⟨e, he, -⟩ := hall
      cases he
  | @snoc s₁ s₂ h' a b hrun hst ih =>
      have hr₁ := hr.run hrun
      have hf := FreeClean.reach hr₁
      have ha : a.isDispatch = false :=
        hno _ (List.mem_append_right _ (List.mem_singleton_self _))
      by_cases hnow : a = .discardAll
      · subst hnow
        obtain ⟨-, rfl⟩ := step_result hst
        exact hf.emptied rfl
      · have hbefore : Emptied s₁ := by
          apply ih fun e he => hno e (List.mem_append_left _ he)
          obtain ⟨e, he, heq⟩ := hall
          rcases List.mem_append.mp he with hold | hnew
          · exact ⟨e, hold, heq⟩
          · rw [List.mem_singleton.mp hnew] at heq
            exact absurd heq hnow
        have hissue : ∀ id, ¬ Issues id (a, b) := by
          rintro id ⟨client, request, start, seed, heq⟩
          obtain ⟨rfl, -⟩ := Prod.mk.inj heq
          cases ha
        rcases step_effect hst with
          heff | ⟨w, call, result, response, -, hw, heff⟩
        · exact hbefore.effect hf heff hissue
        · exact (hbefore.finished (EngineInv.reach hr₁).owned hw).effect
            hf.finished heff hissue

-- ============================================================== the result

/-- The engine winds down. In a run without a Dispatch the workers make no
more moves than there were left at its start. At its end some worker can
move, or every thread has left with its module reference and no request
is Pending, Running or Abandoned. After a DiscardAll every slot is as
constructed, or Abandoned and held by the worker inside `Perform`. -/
theorem engine_winds_down {s s' : System T}
    {h' : List (Action T × Answer T)} (hr : AsyncReach T h s)
    (hrun : (asyncMachine T).Run s h' s')
    (hno : ∀ e ∈ h', e.1.isDispatch = false) :
    h'.countP Advances ≤ s.stepsLeft
      ∧ ((∃ a b s'', s'.step a = some (b, s'') ∧ Advances (a, b) = true)
        ∨ s'.WoundDown)
      ∧ ((∃ e ∈ h', e.1 = .discardAll) →
        ∀ i, s'.engine.slots i = {}
          ∨ ((s'.engine.slots i).state = .abandoned
            ∧ ∃ w, s'.slotOf w = some i)) := by
  have hr' := hr.run hrun
  have hrank := run_stepsLeft hrun hno
  refine ⟨by omega, ?_, fun hall i => ?_⟩
  · by_cases hzero : s'.stepsLeft = 0
    · exact Or.inr (woundDown hr' hzero)
    · exact Or.inl (exists_advance hr' hzero)
  · rcases emptied_run hr hrun hno hall i with hempty | habandoned
    · exact Or.inl hempty
    · refine Or.inr ⟨habandoned, (EngineInv.reach hr').owned.owner i ?_⟩
      simp [Slot.isBusy, habandoned]

/-- A worker inside `Perform`. -/
def inPerform : List (Action Unit) :=
  [.dispatch ⟨()⟩ { url := [104] } ⟨true, true⟩ 7, .firstLock 0, .perform 0]

/-- The caller leaves, and the worker after it. -/
def leaveAll : List (Action Unit) :=
  [.discardAll, .performReturn 0 (.ok, {}), .relock 0, .wake 0 true,
    .exitThread 0]

theorem inPerform_runs :
    ((asyncMachine Unit).exec {} inPerform).isSome = true := by
  decide

theorem leaveAll_runs :
    ((asyncMachine Unit).exec
      (((asyncMachine Unit).exec {} inPerform).get inPerform_runs).2
      leaveAll).isSome = true := by
  decide

theorem engine_winds_down_leaveAll :
    (((asyncMachine Unit).exec
      (((asyncMachine Unit).exec {} inPerform).get inPerform_runs).2
      leaveAll).get leaveAll_runs).1.countP Advances = 4
    ∧ 4 ≤ (((asyncMachine Unit).exec {} inPerform).get
        inPerform_runs).2.stepsLeft := by
  have hdown := engine_winds_down (.of_exec rfl inPerform_runs)
    (.of_exec (Option.some_get leaveAll_runs).symm) (by decide)
  have hmoves : (((asyncMachine Unit).exec
      (((asyncMachine Unit).exec {} inPerform).get inPerform_runs).2
      leaveAll).get leaveAll_runs).1.countP Advances = 4 := by
    decide
  exact ⟨hmoves, hmoves ▸ hdown.1⟩

end RestifyCapl.Http
